import SymbolMap.Proofs.Renamer.OwnMembers
import SymbolMap.Proofs.Renamer.Reversal

/-!
# The renamer of the reversed collection

There are two ways to go from the mapped to the unmapped side.  Class renames have tables for both
directions, and a collection can be reversed before anything is made of it.  The two ways agree
(`reverse_inverts`): the class renames of the reversed collection are there when those of the
collection are, and give each name and each descriptor the name and the descriptor that those give
it in the other direction; and the renamer of the reversed collection takes every member with a
descriptor, and the local variables of every method, back to where the renamer of the collection
took it from.

Which descriptor a member is found under depends on which of its two descriptors are given.  The
reversed member has them the other way round, so each of the cases turns into another one; that the
results agree is `Symbol.Links.reverse`.
-/

namespace SymbolMap

/-! ## Local variables -/

namespace Symbol

/-- Local variables are reversed one by one, under their indices. -/
theorem forall₂_of_reverseLocals {table table' : List (Nat × Symbol)}
    (h : reverseLocals table = .ok table') :
    List.Forall₂ (fun e e' => e'.1 = e.1 ∧ e.2.reverse = .ok e'.2) table table' := by
  induction table generalizing table' with
  | nil =>
    obtain rfl := Except.ok.inj h
    exact .nil
  | cons e rest ih =>
    obtain ⟨index, s⟩ := e
    rw [reverseLocals, Outcome.bind_eq_ok_iff] at h
    obtain ⟨s', hs, h⟩ := h
    obtain ⟨rest', hrest, h⟩ := Outcome.bind_eq_ok_iff.1 h
    obtain rfl := Except.ok.inj h
    exact .cons ⟨rfl, hs⟩ (ih hrest)

/-- A symbol that can be reversed has two names. -/
theorem exists_isNamed_of_reverse {s s' : Symbol} (h : s.reverse = .ok s') :
    ∃ pair, s.IsNamed pair ∧ s'.IsNamed pair.swap := by
  have hreverse := isReverse_of_reverse h
  obtain ⟨names, tags, locals⟩ := s
  cases names with
  | paired unmapped mapped =>
    have hnamed : (mk (.paired unmapped mapped) tags locals).IsNamed (unmapped, mapped) :=
      ⟨rfl, rfl⟩
    exact ⟨_, hnamed, (hreverse.named _).1 hnamed⟩
  | row r => cases locals <;> cases h

/-- The reversed table has, at each index, a variable with the names exchanged. -/
theorem exists_local_of_becomes {s s' v : Symbol} {table : LocalTable} {index : Nat}
    (h : s.Becomes Symbol.reverse s') (htable : s.locals = some table)
    (hv : table.get? index = some v) :
    ∃ table' v' pair, s'.locals = some table' ∧ table'.get? index = some v' ∧
      v.IsNamed pair ∧ v'.IsNamed pair.swap := by
  obtain ⟨reversed, id, h, rfl⟩ := h
  obtain ⟨names, tags, locals⟩ := s
  obtain rfl : locals = some table := htable
  rw [reverse, Outcome.bind_eq_ok_iff] at h
  obtain ⟨names', -, h⟩ := h
  obtain ⟨table', hlocals, h⟩ := Outcome.bind_eq_ok_iff.1 h
  obtain rfl := Except.ok.inj h
  obtain ⟨v', hv', hreverse⟩ := exists_lookup_of_forall₂
    (R := fun v v' => v.reverse = .ok v') (forall₂_of_reverseLocals hlocals) hv
  obtain ⟨pair, hpair⟩ := exists_isNamed_of_reverse hreverse
  exact ⟨table', v', pair, rfl, hv', hpair⟩

end Symbol

/-! ## Members of the reversed collection -/

/-- A member of a class has the reversed member as its partner, in a class with exchanged names. -/
theorem GroupedMappings.exists_reversed_member {m m' : GroupedMappings} {c : MappedClass}
    {kind : MemberKind} {s : Symbol} (h : m.reverse = .ok m') (hc : c ∈ m.classes)
    (hs : s ∈ c.membersOf kind) :
    ∃ c' ∈ m'.classes, c.IsReverse c' ∧ ∃ s' ∈ c'.membersOf kind, s.Becomes Symbol.reverse s' := by
  obtain ⟨-, -, hclasses, -⟩ := reverse_eq_ok h
  obtain ⟨c', hc', hbecomes⟩ := exists_right_of_forall₂ hclasses hc
  obtain ⟨s', hs', hreverse⟩ :=
    exists_right_of_forall₂ (hbecomes.membersOf (fun _ => Symbol.reverse) kind) hs
  exact ⟨c', hc', MappedClass.isReverse_of_becomes hbecomes, s', hs', hreverse⟩

/-! ## Class renames of the reversed collection -/

namespace ClassRenames

/-- The class renames of a collection and of the reversed one are there together. -/
theorem exists_ofMappings_reverse_iff {m m' : GroupedMappings} (h : m.reverse = .ok m') :
    (∃ t, ofMappings m = .ok t) ↔ ∃ t', ofMappings m' = .ok t' := by
  constructor
  · rintro ⟨t, ht⟩
    exact ⟨t.flip, ofMappings_reverse ht h⟩
  · rintro ⟨t', ht'⟩
    obtain ⟨-, hclasses, hpackages⟩ := GroupedMappings.isReverse_of_reverse h
    refine ⟨t'.flip, ofMappings_of_isReverse ht' (GroupedMappings.reverse_eq_ok h).1 ?_ ?_⟩
    · exact List.Forall₂.flip (hclasses.imp fun _ _ hc => hc.symm)
    · exact List.Forall₂.flip (hpackages.imp fun _ _ hs => hs.symm)

/-- The flipped renames rename a field descriptor as the renames do in the other direction. -/
theorem fieldDescriptor_flip {t : ClassRenames} {d : Direction} {desc desc' : String} :
    t.flip.fieldDescriptor d desc = .ok desc' ↔ t.fieldDescriptor d.flip desc = .ok desc' := by
  simp only [fieldDescriptor, Outcome.within_eq_ok_iff, Outcome.bind_eq_ok_iff]
  constructor
  · rintro ⟨type, htype, type', hrename, h⟩
    exact ⟨type, htype, type',
      FieldType.renameClass_mono (fun x _ y => className_flip.1) hrename, h⟩
  · rintro ⟨type, htype, type', hrename, h⟩
    exact ⟨type, htype, type',
      FieldType.renameClass_mono (fun x _ y => className_flip.2) hrename, h⟩

end ClassRenames

/-! ## Renamers of the reversed collection -/

namespace Renamer

variable {m m' : GroupedMappings} {r r' : Renamer} {c : MappedClass} {kind : MemberKind}
  {s : Symbol} {owner owner' name name' key desc' : String}

/-- **A member there and back.**  A member with its two names and descriptors is found on either
side, and so are its local variables. -/
theorem Opposite.exists_lookups (h : r.Opposite r' m) (hc : c ∈ m.classes)
    (hs : s ∈ c.membersOf kind) (howner : c.info.IsNamed (owner, owner'))
    (hname : s.IsNamed (name, name'))
    (hdesc : memberDescriptors r.classes s.tags = .ok (some key, some desc')) :
    ∃ entry entry', r.lookup owner ⟨kind, name, key⟩ = .ok (some entry) ∧
      r'.lookup owner' ⟨kind, name', desc'⟩ = .ok (some entry') ∧
      entry.target = ⟨name', some desc'⟩ ∧ entry'.target = ⟨name, some key⟩ ∧
      ∀ table index v, s.locals = some table → table.get? index = some v →
        ∃ u u', v.IsNamed (u, u') ∧ entry.locals.lookup index = some u' ∧
          entry'.locals.lookup index = some u := by
  obtain ⟨reversed, hreverse, hback⟩ := h.back
  obtain ⟨c', hc', hturned, s', hs', hbecomes⟩ :=
    GroupedMappings.exists_reversed_member hreverse hc hs
  have hsturned := Symbol.isReverse_of_becomes hbecomes
  have hdesc' : memberDescriptors r'.classes s'.tags = .ok (some desc', some key) := by
    rw [h.classes_eq]
    exact memberDescriptors_reverse hsturned hdesc
  obtain ⟨entry, hentry, htarget, hlocals⟩ :=
    h.forth.exists_lookup hc howner.1 hs hname hdesc
  obtain ⟨entry', hentry', htarget', hlocals'⟩ := hback.exists_lookup hc'
    ((hturned.info.named _).1 howner).1 hs' ((hsturned.named _).1 hname) hdesc'
  refine ⟨entry, entry', hentry, hentry', htarget, htarget', fun table index v htable hv => ?_⟩
  obtain ⟨table', v', ⟨u, u'⟩, htable', hv', hnamed, hnamed'⟩ :=
    Symbol.exists_local_of_becomes hbecomes htable hv
  obtain ⟨x, hx, hlookup⟩ := lookup_of_mappedLocals hlocals htable hv
  obtain ⟨x', hx', hlookup'⟩ := lookup_of_mappedLocals hlocals' htable' hv'
  obtain rfl : x = u' := Outcome.eq_of_eq_ok hx hnamed.2
  obtain rfl : x' = u := Outcome.eq_of_eq_ok hx' hnamed'.2
  exact ⟨x', x, hnamed, hlookup, hlookup'⟩

/-- **Reversing inverts.**  Let a collection have a reversed one.  Class renames of both are there
or of neither, and in each direction the one set gives what the other gives in the other direction.
Where there are renamers of both, every member with a descriptor and two names that are not those of
initializers is taken to its mapped name and descriptor by the one and back to its unmapped name and
descriptor by the other, and so are the local variables of a method. -/
theorem reverse_inverts (hreverse : m.reverse = .ok m') :
    ((∃ t, ClassRenames.ofMappings m = .ok t) ↔ ∃ t', ClassRenames.ofMappings m' = .ok t') ∧
    (∀ t t', ClassRenames.ofMappings m = .ok t → ClassRenames.ofMappings m' = .ok t' →
      ∀ d x y, (t'.className d x = .ok y ↔ t.className d.flip x = .ok y) ∧
        (t'.fieldDescriptor d x = .ok y ↔ t.fieldDescriptor d.flip x = .ok y) ∧
        (t'.descriptor d x = .ok y ↔ t.descriptor d.flip x = .ok y)) ∧
    ∀ r r', ofMappings m = .ok r → ofMappings m' = .ok r' →
      ∀ c ∈ m.classes, ∀ kind, ∀ s ∈ c.membersOf kind,
      s.tags.unmappedDescriptor ≠ none ∨ s.tags.mappedDescriptor ≠ none →
      ∃ owner owner' name name', c.info.IsNamed (owner, owner') ∧ s.IsNamed (name, name') ∧
      (Name.isInitializer name = false → Name.isInitializer name' = false →
        ∃ key desc', memberDescriptors r.classes s.tags = .ok (some key, some desc') ∧
          r.member? owner ⟨kind, name, key⟩ = .ok (some ⟨name', desc'⟩) ∧
          r'.member? owner' ⟨kind, name', desc'⟩ = .ok (some ⟨name, key⟩) ∧
          (kind = .method → ∀ table index v, s.locals = some table → table.get? index = some v →
            ∃ u u', v.IsNamed (u, u') ∧ ∀ x,
              r.localName owner name key index x = .ok u' ∧
              r'.localName owner' name' desc' index x = .ok u)) := by
  refine ⟨ClassRenames.exists_ofMappings_reverse_iff hreverse, ?_, ?_⟩
  · intro t t' ht ht' d x y
    obtain rfl : t' = t.flip :=
      Outcome.eq_of_eq_ok ht' (ClassRenames.ofMappings_reverse ht hreverse)
    exact ⟨ClassRenames.className_flip, ClassRenames.fieldDescriptor_flip,
      ClassRenames.descriptor_flip⟩
  · intro r r' hr hr' c hc kind s hs hgiven
    have hforth := represents_of_ofMappings hr
    have hopposite : r.Opposite r' m :=
      ⟨hforth, m', hreverse, represents_of_ofMappings hr'⟩
    obtain ⟨⟨owner, owner'⟩, howner, -⟩ := exists_isNamed_of_mem hforth.classes hc
    obtain ⟨⟨name, name'⟩, hname⟩ := hforth.exists_isNamed ⟨c, hc, hs⟩
    refine ⟨owner, owner', name, name', howner, hname, fun hinit hinit' => ?_⟩
    obtain ⟨key, desc', hdesc⟩ := hforth.exists_descriptors hc hs hgiven
    obtain ⟨entry, entry', hentry, hentry', htarget, htarget', hlocals⟩ :=
      hopposite.exists_lookups hc hs howner hname hdesc
    refine ⟨key, desc', hdesc, member?_of_lookup hinit hentry htarget,
      member?_of_lookup hinit' hentry' htarget', ?_⟩
    rintro rfl table index v htable hv
    obtain ⟨u, u', hnamed, hu', hu⟩ := hlocals table index v htable hv
    exact ⟨u, u', hnamed, fun x => ⟨localName_of_lookup hentry hu' x,
      localName_of_lookup hentry' hu x⟩⟩

/-! ### A method known by its mapped descriptor -/

/-- The class `A` has a method of which only the mapped descriptor is given. -/
def takingMappings : GroupedMappings :=
  .ofParts none
    [(MappedClass.ofInfo (.ofNames (.paired "A" "a"))).addMethod
      (((Symbol.ofNames (.paired "m" "n")).set (.mappedDescriptor "(La;)V")).set
        (.locals [(1, .ofNames (.paired "x" "y"))]))] []

/-- The method is found under the descriptor that is not given, and taken back from the one that is;
its argument is renamed and renamed back. -/
theorem taking_inverts : ∃ r r' reversed,
    takingMappings.reverse = .ok reversed ∧
    ofMappings takingMappings = .ok r ∧ ofMappings reversed = .ok r' ∧
    r.member? "A" ⟨.method, "m", "(LA;)V"⟩ = .ok (some ⟨"n", "(La;)V"⟩) ∧
    r'.member? "a" ⟨.method, "n", "(La;)V"⟩ = .ok (some ⟨"m", "(LA;)V"⟩) ∧
    r.localName "A" "m" "(LA;)V" 1 "" = .ok "y" ∧ r'.localName "a" "n" "(La;)V" 1 "" = .ok "x" := by
  have hreverse : takingMappings.reverse = .ok _ := rfl
  have hclasses : ClassRenames.ofMappings takingMappings = .ok _ := rfl
  obtain ⟨r, hr⟩ : ∃ r, ofMappings takingMappings = .ok r :=
    Outcome.exists_eq_ok (by decide +kernel)
  obtain ⟨r', hr'⟩ : ∃ r',
      ofMappings (takingMappings.reverse.toOption.getD (.empty none)) = .ok r' :=
    Outcome.exists_eq_ok (by decide +kernel)
  refine ⟨r, r', _, hreverse, hr, hr', ?_⟩
  obtain ⟨owner, owner', name, name', howner, hname, hmapped⟩ :=
    (reverse_inverts hreverse).2.2 r r' hr hr' _ (List.mem_singleton.2 rfl) .method
      _ (List.mem_singleton.2 rfl) (.inr (by decide))
  obtain rfl : owner = "A" := Outcome.eq_of_eq_ok howner.1 rfl
  obtain rfl : owner' = "a" := Outcome.eq_of_eq_ok howner.2 rfl
  obtain rfl : name = "m" := Outcome.eq_of_eq_ok hname.1 rfl
  obtain rfl : name' = "n" := Outcome.eq_of_eq_ok hname.2 rfl
  obtain ⟨key, desc', hdesc, hforth, hback, hlocals⟩ := hmapped (by decide) (by decide)
  have hrenames := Outcome.eq_of_eq_ok (represents_of_ofMappings hr).classes hclasses
  rw [hrenames] at hdesc
  obtain ⟨hkey, hdesc'⟩ := Prod.mk.inj (Outcome.eq_of_eq_ok hdesc
    (b := (some "(LA;)V", some "(La;)V")) (by decide +kernel))
  obtain rfl := Option.some.inj hkey
  obtain rfl := Option.some.inj hdesc'
  obtain ⟨u, u', hnamed, hlocal⟩ := hlocals rfl _ 1 _ rfl rfl
  obtain rfl : u = "x" := Outcome.eq_of_eq_ok hnamed.1 rfl
  obtain rfl : u' = "y" := Outcome.eq_of_eq_ok hnamed.2 rfl
  exact ⟨hforth, hback, hlocal ""⟩

end Renamer

end SymbolMap
