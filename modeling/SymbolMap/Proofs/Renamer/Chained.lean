import SymbolMap.Proofs.Mappings.Chaining
import SymbolMap.Proofs.Mappings.Validity
import SymbolMap.Proofs.Renamer.OwnMembers
import SymbolMap.Proofs.Renamer.Reversal
import SymbolMap.Proofs.Renamer.Translation

/-!
# The renamer of a chained collection

Flat mappings that are chained onto a collection rename its mapped side.  The renamer of the chained
collection takes every class to the name given to its mapped name, and finds every member under the
unmapped name and descriptor that the renamer of the collection finds it under, to take it to the
name given to its mapped name (`chain_renames`).

A member without an unmapped descriptor is the difficult case.  Its mapped descriptor follows the
flat mappings, and the class names in it are taken back to the unmapped side by the classes of the
chained collection.  They arrive where they arrived before if they are **traced**
(`GroupedMappings.Traces`): the name of a class of the collection, or a name that the flat mappings
keep and that no class of the collection gets.
-/

namespace SymbolMap

/-- The flat members of a kind. -/
def FlatMappings.membersOf (flat : FlatMappings) : MemberKind → List Symbol
  | .field => flat.fields
  | .method => flat.methods

/-- A class name on the mapped side is traced by chaining: it is that of a class of the collection,
or it stays and is not given to any class. -/
def GroupedMappings.Traces (m chained : GroupedMappings) (flat : FlatMappings) (y : String) :
    Prop :=
  (∃ c ∈ m.classes, c.mappedName = .ok y) ∨
    GivenName flat.classes y y ∧ ∀ c ∈ chained.classes, c.mappedName ≠ .ok y

/-- No name of the symbol is that of an array. -/
def Symbol.NoArray (s : Symbol) : Prop :=
  s.NamesFit fun x => !Name.isArray x

instance (s : Symbol) : Decidable s.NoArray :=
  inferInstanceAs (Decidable (s.NamesFit _))

theorem Symbol.NoArray.of_isNamed {s : Symbol} (h : s.NoArray) {x y : String}
    (hnamed : s.IsNamed (x, y)) : Name.isArray x = false ∧ Name.isArray y = false := by
  simpa using NamesFit.of_isNamed h hnamed

/-- The name given to a class name is the name itself or can stand in a descriptor as a class, if no
flat class has the name of an array. -/
theorem FlatMappings.fits_of_chained {flat : FlatMappings} {classes : Table String Symbol}
    {y y' : String} (hvalid : flat.validate = .ok ()) (hnoArray : ∀ s ∈ flat.classes, s.NoArray)
    (hclasses : flat.classesByUnmappedName = .ok classes)
    (hy : chainedClassName classes y = .ok y') :
    y' = y ∨ Name.isArray y' = false ∧ y'.toList ≠ [] ∧ ';' ∉ y'.toList := by
  rcases (chainedClassName_eq_ok_iff hclasses).1 hy with ⟨s, hs, hnamed⟩ | ⟨-, hsame⟩
  · obtain ⟨-, hnames, -⟩ := validate_eq_ok_iff.1 hvalid
    obtain ⟨-, harray⟩ := (hnoArray s hs).of_isNamed hnamed
    obtain ⟨-, hname⟩ := (hnames s hs).of_isNamed hnamed
    exact .inr ⟨harray, Name.delimited_of_isClassName harray hname⟩
  · exact .inl hsame

namespace ClassRenames

variable {m : GroupedMappings} {t : ClassRenames} {x y : String}

/-- The name of no class depends on the packages only. -/
theorem className_toUnmapped_of_none {m' : GroupedMappings} {t' : ClassRenames}
    (h : ofMappings m = .ok t) (h' : ofMappings m' = .ok t') (hpackages : m'.packages = m.packages)
    (hy : ';' ∉ y.toList) (hnone : ∀ c ∈ m.classes, c.mappedName ≠ .ok y)
    (hnone' : ∀ c ∈ m'.classes, c.mappedName ≠ .ok y) (hx : t.className .toUnmapped y = .ok x) :
    t'.className .toUnmapped y = .ok x := by
  by_cases harray : Name.isArray y = true
  · -- the name of an array stays on both sides
    have hname := (exists_className_iff hy).1 ⟨x, hx⟩ harray
    rw [className_of_isArray harray hname hy] at hx ⊢
    exact hx
  · rw [Bool.not_eq_true] at harray
    have hsame : t'.toUnmapped.packages = t.toUnmapped.packages := by
      obtain ⟨-, -, htables⟩ := ofMappings_eq_ok_iff.1 h
      obtain ⟨-, -, htables'⟩ := ofMappings_eq_ok_iff.1 h'
      rw [hpackages] at htables'
      exact (Prod.mk.inj (Outcome.eq_of_eq_ok htables' htables)).2
    rw [className_of_not_array t _ harray, lookup, renames, Renames.lookup,
      (get?_eq_none_iff h).2.2 hnone] at hx
    rw [className_of_not_array t' _ harray, lookup, renames, Renames.lookup,
      (get?_eq_none_iff h').2.2 hnone', hsame]
    exact hx

end ClassRenames

section

variable {classes : ClassRenames} {t : Tags} {key desc : Option String} {given : String}

/-- A member with an unmapped descriptor is found under it. -/
theorem key_of_unmapped (hgiven : t.unmappedDescriptor = some given)
    (h : memberDescriptors classes t = .ok (key, desc)) : key = some given := by
  rw [memberDescriptors, hgiven] at h
  split at h
  · rename_i unmapped mapped hsome _
    obtain rfl := Option.some.inj hsome
    exact (Prod.mk.inj (Except.ok.inj h)).1.symm
  · rename_i unmapped hsome _
    obtain rfl := Option.some.inj hsome
    obtain ⟨mapped, -, h⟩ := Outcome.bind_eq_ok_iff.1 h
    exact (Prod.mk.inj (Except.ok.inj h)).1.symm
  · rename_i hnone _
    cases hnone
  · rename_i hnone _
    cases hnone

/-- A member with a mapped descriptor only is found under what it is taken back to. -/
theorem key_of_mapped (hnone : t.unmappedDescriptor = none)
    (hgiven : t.mappedDescriptor = some given)
    (h : memberDescriptors classes t = .ok (key, desc)) :
    ∃ unmapped, classes.descriptor .toUnmapped given = .ok unmapped ∧ key = some unmapped := by
  rw [memberDescriptors, hnone, hgiven] at h
  obtain ⟨unmapped, hunmapped, h⟩ := Outcome.bind_eq_ok_iff.1 h
  exact ⟨unmapped, hunmapped, (Prod.mk.inj (Except.ok.inj h)).1.symm⟩

end

namespace Renamer

/-- The renamers are those of a collection and of the collection with valid flat mappings chained
onto it, where no class has the name of an array. -/
structure Chained (r r' : Renamer) (m chained : GroupedMappings) (flat : FlatMappings) :
    Prop where
  before : r.Represents m
  after : r'.Represents chained
  chain : m.chain flat = .ok chained
  valid : flat.validate = .ok ()
  noArray : ∀ c ∈ m.classes, c.info.NoArray
  noFlatArray : ∀ s ∈ flat.classes, s.NoArray

variable {r r' : Renamer} {m chained : GroupedMappings} {flat : FlatMappings}
  {classes : Table String Symbol} {x y y' : String}

/-- A class of the collection has a partner with the given mapped name, and each of its members has
a chained one there. -/
theorem Chained.exists_class (h : r.Chained r' m chained flat)
    (hclasses : flat.classesByUnmappedName = .ok classes) {c : MappedClass} (hc : c ∈ m.classes)
    (hnamed : c.info.IsNamed (x, y)) :
    ∃ c' ∈ chained.classes, (∃ y', chainedClassName classes y = .ok y' ∧ c'.info.IsNamed (x, y')) ∧
      ∀ kind, ∃ scope members, symbolsByUnmappedName scope (flat.membersOf kind) = .ok members ∧
        List.Forall₂ (Symbol.IsChained members classes) (c.membersOf kind) (c'.membersOf kind) := by
  obtain ⟨classes₀, fields, methods, hclasses₀, hfields, hmethods, -, -, hchained⟩ :=
    GroupedMappings.chain_eq_ok h.chain
  obtain rfl : classes₀ = classes := Outcome.eq_of_eq_ok hclasses₀ hclasses
  obtain ⟨c', hc', hbecomes⟩ := exists_right_of_forall₂ hchained hc
  refine ⟨c', hc', (Symbol.renameMapped_eq_ok hbecomes.info).2 x y hnamed, fun kind => ?_⟩
  cases kind with
  | field => exact ⟨_, fields, hfields, hbecomes.fields.imp fun _ _ => Symbol.isChained_of_becomes⟩
  | method =>
    exact ⟨_, methods, hmethods, hbecomes.methods.imp fun _ _ => Symbol.isChained_of_becomes⟩

/-- **A traced class name arrives where it arrived before.** -/
theorem Chained.className_of_traces (h : r.Chained r' m chained flat)
    (hclasses : flat.classesByUnmappedName = .ok classes) (hdelimited : ';' ∉ y.toList)
    (htraces : m.Traces chained flat y) (hy : chainedClassName classes y = .ok y')
    (hx : r.classes.className .toUnmapped y = .ok x) :
    r'.classes.className .toUnmapped y' = .ok x := by
  by_cases hclass : ∃ c ∈ m.classes, c.mappedName = .ok y
  · obtain ⟨c, hc, hmapped⟩ := hclass
    obtain ⟨⟨x₀, y₀⟩, hnamed, -⟩ := exists_isNamed_of_mem h.before.classes hc
    obtain rfl : y₀ = y := Outcome.eq_of_eq_ok hnamed.2 hmapped
    obtain ⟨-, harray⟩ := (h.noArray c hc).of_isNamed hnamed
    obtain rfl : x = x₀ := Outcome.eq_of_eq_ok hx
      (ClassRenames.className_toUnmapped h.before.classes hc hnamed harray)
    -- the class goes to the name that was given to its mapped name, and is found by it
    obtain ⟨c', hc', ⟨y₁, hy₁, hnamed'⟩, -⟩ := h.exists_class hclasses hc hnamed
    obtain rfl : y' = y₁ := Outcome.eq_of_eq_ok hy hy₁
    have harray' : Name.isArray y' = false := by
      rcases FlatMappings.fits_of_chained h.valid h.noFlatArray hclasses hy with rfl | ⟨harray', -⟩
      · exact harray
      · exact harray'
    exact ClassRenames.className_toUnmapped h.after.classes hc' hnamed' harray'
  · obtain ⟨hgiven, hnone'⟩ := htraces.resolve_left hclass
    obtain rfl : y' = y :=
      Outcome.eq_of_eq_ok hy ((chainedClassName_eq_ok_iff hclasses).2 hgiven)
    obtain ⟨-, -, -, -, -, -, -, hpackages, -⟩ := GroupedMappings.chain_eq_ok h.chain
    refine ClassRenames.className_toUnmapped_of_none h.before.classes h.after.classes hpackages
      hdelimited (fun c hc hmapped => hclass ⟨c, hc, hmapped⟩) hnone' hx

/-- A mapped descriptor with traced class names is taken back to the same descriptor. -/
theorem Chained.descriptor_of_traces (h : r.Chained r' m chained flat)
    (hclasses : flat.classesByUnmappedName = .ok classes) {desc desc' key : String}
    (htraces : ∀ y, Descriptor.Mentions desc y → m.Traces chained flat y)
    (hdesc : Descriptor.renameClasses (chainedClassName classes) desc = .ok desc')
    (hkey : r.classes.descriptor .toUnmapped desc = .ok key) :
    r'.classes.descriptor .toUnmapped desc' = .ok key := by
  rw [ClassRenames.descriptor, Outcome.within_eq_ok_iff] at hkey ⊢
  refine Descriptor.renameClasses_trans (fun y hy y' hy' => ?_) (fun y hy y' x hy' hx => ?_)
    hdesc hkey
  · rcases FlatMappings.fits_of_chained h.valid h.noFlatArray hclasses hy' with rfl | ⟨-, hfits⟩
    · exact Descriptor.delimited_of_mentions hy
    · exact hfits
  · exact h.className_of_traces hclasses (Descriptor.delimited_of_mentions hy).2 (htraces y hy)
      hy' hx

/-- A member has the same unmapped descriptor after chaining. -/
theorem Chained.key_eq (h : r.Chained r' m chained flat)
    (hclasses : flat.classesByUnmappedName = .ok classes) {members : Table String Symbol}
    {s s' : Symbol} (hs : s.IsChained members classes s') {key : String}
    {desc key' desc' : Option String}
    (htraces : s.tags.unmappedDescriptor = none → ∀ mapped ∈ s.tags.mappedDescriptor,
      ∀ y, Descriptor.Mentions mapped y → m.Traces chained flat y)
    (hkey : memberDescriptors r.classes s.tags = .ok (some key, desc))
    (hkey' : memberDescriptors r'.classes s'.tags = .ok (key', desc')) : key' = some key := by
  cases hunmapped : s.tags.unmappedDescriptor with
  | some unmapped =>
    obtain rfl := Option.some.inj (key_of_unmapped hunmapped hkey)
    exact key_of_unmapped (hs.unmapped.trans hunmapped) hkey'
  | none =>
    have hmapped := hs.mapped
    generalize hold : s.tags.mappedDescriptor = old at hmapped
    generalize hnew : s'.tags.mappedDescriptor = new at hmapped
    cases hmapped with
    | none =>
      rw [memberDescriptors, hunmapped, hold] at hkey
      cases hkey
    | some hdesc =>
      obtain ⟨unmapped, htaken, hsome⟩ := key_of_mapped hunmapped hold hkey
      obtain rfl := Option.some.inj hsome
      obtain ⟨unmapped', htaken', rfl⟩ := key_of_mapped (hs.unmapped.trans hunmapped) hnew hkey'
      have hback := h.descriptor_of_traces hclasses (htraces hunmapped _ hold) hdesc htaken
      rw [Outcome.eq_of_eq_ok htaken' hback]

/-- **Chaining renames the mapped side.**  Let flat mappings be chained onto a collection, where no
class is named like an array, and let both collections have renamers.  A class is taken to the name
given to its mapped name.  A member with a descriptor that is not an initializer is found under the
same unmapped name and descriptor as before, and taken to the name given to its mapped name; where
it has no unmapped descriptor, the class names in its mapped one must be traced. -/
theorem chain_renames (hvalid : flat.validate = .ok ()) (hnoArray : ∀ c ∈ m.classes, c.info.NoArray)
    (hnoFlatArray : ∀ s ∈ flat.classes, s.NoArray) (hchain : m.chain flat = .ok chained)
    (hr : ofMappings m = .ok r) (hr' : ofMappings chained = .ok r') :
    (∀ c ∈ m.classes, ∃ x y y', c.info.IsNamed (x, y) ∧ GivenName flat.classes y y' ∧
      r'.classes.className .toMapped x = .ok y') ∧
    ∀ c ∈ m.classes, ∀ kind, ∀ s ∈ c.membersOf kind,
      s.tags.unmappedDescriptor ≠ none ∨ s.tags.mappedDescriptor ≠ none →
      ∃ owner name name', c.unmappedName = .ok owner ∧ s.IsNamed (name, name') ∧
      (Name.isInitializer name = false →
        ∃ key desc, memberDescriptors r.classes s.tags = .ok (some key, some desc) ∧
          r.member? owner ⟨kind, name, key⟩ = .ok (some ⟨name', desc⟩) ∧
          ((s.tags.unmappedDescriptor = none → ∀ mapped ∈ s.tags.mappedDescriptor,
              ∀ y, Descriptor.Mentions mapped y → m.Traces chained flat y) →
            ∃ name'' desc', GivenName (flat.membersOf kind) name' name'' ∧
              r'.member? owner ⟨kind, name, key⟩ = .ok (some ⟨name'', desc'⟩))) := by
  have hbefore := represents_of_ofMappings hr
  have h : r.Chained r' m chained flat :=
    ⟨hbefore, represents_of_ofMappings hr', hchain, hvalid, hnoArray, hnoFlatArray⟩
  obtain ⟨classes, -, -, hclasses, -⟩ := GroupedMappings.chain_eq_ok hchain
  constructor
  · intro c hc
    obtain ⟨⟨x, y⟩, hnamed, -⟩ := exists_isNamed_of_mem hbefore.classes hc
    obtain ⟨c', hc', ⟨y', hy', hnamed'⟩, -⟩ := h.exists_class hclasses hc hnamed
    obtain ⟨harray, -⟩ := (hnoArray c hc).of_isNamed hnamed
    exact ⟨x, y, y', hnamed, (chainedClassName_eq_ok_iff hclasses).1 hy',
      ClassRenames.className_toMapped h.after.classes hc' hnamed' harray⟩
  · intro c hc kind s hs hgiven
    obtain ⟨⟨owner, owner'⟩, howner, -⟩ := exists_isNamed_of_mem hbefore.classes hc
    obtain ⟨⟨name, name'⟩, hname⟩ := hbefore.exists_isNamed ⟨c, hc, hs⟩
    refine ⟨owner, name, name', howner.1, hname, fun hinit => ?_⟩
    obtain ⟨key, desc, hkey⟩ := hbefore.exists_descriptors hc hs hgiven
    obtain ⟨entry, hentry, htarget, -⟩ := hbefore.exists_lookup hc howner.1 hs hname hkey
    refine ⟨key, desc, hkey, member?_of_lookup hinit hentry htarget, fun htraces => ?_⟩
    -- the chained member has a row of its own, under the same descriptor
    obtain ⟨c', hc', ⟨_, -, howner'⟩, hmembers⟩ := h.exists_class hclasses hc howner
    obtain ⟨scope, members, htable, hchained⟩ := hmembers kind
    obtain ⟨s', hs', hschained⟩ := exists_right_of_forall₂ hchained hs
    obtain ⟨name'', hname'', hnamed'⟩ := hschained.named name name' hname
    obtain ⟨key', desc', hkey'⟩ := h.after.exists_descriptors hc' hs' (hschained.given hgiven)
    obtain rfl : key' = key := Option.some.inj (h.key_eq hclasses hschained htraces hkey hkey')
    obtain ⟨entry', hentry', htarget', -⟩ := h.after.exists_lookup hc' howner'.1 hs' hnamed' hkey'
    exact ⟨name'', desc', (chainedClassName_eq_ok_iff htable).1 hname'',
      member?_of_lookup hinit hentry' htarget'⟩

/-! ### Class names that are traced, and that are not -/

/-- The class `A` has a method of which only the mapped descriptor is given. -/
def methodTaking (owner' name' desc : String) : GroupedMappings :=
  .ofParts none
    [(MappedClass.ofInfo (.ofNames (.paired "A" owner'))).addMethod
      ((Symbol.ofNames (.paired "m" name')).set (.mappedDescriptor desc))] []

/-- Flat mappings for a class and the methods `n`. -/
def flatClass (name name' : String) : FlatMappings :=
  { namespaces := none
    classes := [.ofNames (.paired name name')]
    fields := []
    methods := [.ofNames (.paired "n" "o")] }

/-- The method takes its own class, which is renamed, and one that is not; it is found under the
unmapped descriptor it had before. -/
theorem methodTaking_renamed : ∃ r r',
    ofMappings (methodTaking "a" "n" "(La;Lb;)V") = .ok r ∧
    (methodTaking "a" "n" "(La;Lb;)V").chain (flatClass "a" "z") =
      .ok (methodTaking "z" "o" "(Lz;Lb;)V") ∧
    ofMappings (methodTaking "z" "o" "(Lz;Lb;)V") = .ok r' ∧
    r'.classes.className .toMapped "A" = .ok "z" ∧
    ∃ desc', r'.member? "A" ⟨.method, "m", "(LA;Lb;)V"⟩ = .ok (some ⟨"o", desc'⟩) := by
  have hvalid : (flatClass "a" "z").validate = .ok () := by decide +kernel
  have hchain : (methodTaking "a" "n" "(La;Lb;)V").chain (flatClass "a" "z") =
      .ok (methodTaking "z" "o" "(Lz;Lb;)V") := by decide +kernel
  have hclasses : ClassRenames.ofMappings (methodTaking "a" "n" "(La;Lb;)V") = .ok _ := rfl
  obtain ⟨r, hr⟩ : ∃ r, ofMappings (methodTaking "a" "n" "(La;Lb;)V") = .ok r :=
    Outcome.exists_eq_ok (by decide +kernel)
  obtain ⟨r', hr'⟩ : ∃ r', ofMappings (methodTaking "z" "o" "(Lz;Lb;)V") = .ok r' :=
    Outcome.exists_eq_ok (by decide +kernel)
  -- the class of the method is traced as a class, the other one because it stays
  have htraces : ∀ y, Descriptor.Mentions "(La;Lb;)V" y → (methodTaking "a" "n" "(La;Lb;)V").Traces
      (methodTaking "z" "o" "(Lz;Lb;)V") (flatClass "a" "z") y := by
    rintro y ⟨names, hnames, hy⟩
    have hread : Descriptor.classNames "(La;Lb;)V" = .ok ["a", "b"] := by decide +kernel
    obtain rfl := Except.ok.inj (hread.symm.trans hnames)
    rcases List.mem_pair.1 hy with rfl | rfl
    · exact .inl ⟨_, List.mem_singleton.2 rfl, rfl⟩
    · exact .inr ⟨.inr ⟨by decide +kernel, rfl⟩, by decide +kernel⟩
  obtain ⟨hnames, hmembers⟩ :=
    chain_renames hvalid (by decide +kernel) (by decide +kernel) hchain hr hr'
  refine ⟨r, r', hr, hchain, hr', ?_, ?_⟩
  · obtain ⟨x, y, y', hnamed, hgiven, hclass⟩ := hnames _ (List.mem_singleton.2 rfl)
    obtain rfl : x = "A" := Outcome.eq_of_eq_ok hnamed.1 rfl
    obtain rfl : y = "a" := Outcome.eq_of_eq_ok hnamed.2 rfl
    rcases hgiven with ⟨s, hs, -, hmapped⟩ | ⟨hnone, -⟩
    · obtain rfl := List.mem_singleton.1 hs
      rw [hclass, ← hmapped]
      rfl
    · exact absurd rfl (hnone _ (List.mem_singleton.2 rfl))
  · obtain ⟨owner, name, name', howner, hnamed, hfound⟩ := hmembers _ (List.mem_singleton.2 rfl)
      .method _ (List.mem_singleton.2 rfl) (.inr (by decide))
    obtain rfl : owner = "A" := Outcome.eq_of_eq_ok howner rfl
    obtain rfl : name = "m" := Outcome.eq_of_eq_ok hnamed.1 rfl
    obtain rfl : name' = "n" := Outcome.eq_of_eq_ok hnamed.2 rfl
    obtain ⟨key, desc, hdesc, -, hrenamed⟩ := hfound (by decide)
    rw [Outcome.eq_of_eq_ok (represents_of_ofMappings hr).classes hclasses] at hdesc
    obtain ⟨hkey, -⟩ := Prod.mk.inj (Outcome.eq_of_eq_ok hdesc
      (b := (some "(LA;Lb;)V", some "(La;Lb;)V")) (by decide +kernel))
    obtain rfl := Option.some.inj hkey
    obtain ⟨name'', desc', hgiven, hmember⟩ := hrenamed fun _ mapped hmapped => by
      obtain rfl := Option.some.inj hmapped
      exact htraces
    rcases hgiven with ⟨s, hs, -, hmapped⟩ | ⟨hnone, -⟩
    · obtain rfl := List.mem_singleton.1 hs
      obtain rfl : name'' = "o" := Outcome.eq_of_eq_ok hmapped rfl
      exact ⟨desc', hmember⟩
    · exact absurd rfl (hnone _ (List.mem_singleton.2 rfl))

/-- Collections with a class name that is not traced, flat mappings and the descriptor the method is
found under: the name is renamed and belongs to no class, or is given to another class. -/
def untraced : List (GroupedMappings × FlatMappings × String) :=
  [(methodTaking "a" "n" "(Ly;)V", flatClass "y" "z", "(Ly;)V"),
    (methodTaking "a" "n" "(Lz;)V", flatClass "a" "z", "(Lz;)V")]

/-- The method is not found under the descriptor it was found under before. -/
theorem untraced_lost : untraced.Forall fun e =>
    e.1.validate = .ok () ∧ e.2.1.validate = .ok () ∧
    ∃ r chained r', ofMappings e.1 = .ok r ∧ e.1.chain e.2.1 = .ok chained ∧
      ofMappings chained = .ok r' ∧
      r.member? "A" ⟨.method, "m", e.2.2⟩ = .ok (some ⟨"n", e.2.2⟩) ∧
      ∃ f, r'.member? "A" ⟨.method, "m", e.2.2⟩ = .error f ∧ f.kind = .noAncestry := by
  have hvalid : ∀ e ∈ untraced, e.1.validate = .ok () ∧ e.2.1.validate = .ok () := by
    decide +kernel
  have hfound : ∀ e ∈ untraced, (ofMappings e.1 >>= fun r =>
      r.member? "A" ⟨.method, "m", e.2.2⟩) = .ok (some ⟨"n", e.2.2⟩) := by decide +kernel
  have hchained : ∀ e ∈ untraced, (e.1.chain e.2.1 >>= ofMappings).toOption.isSome = true := by
    decide +kernel
  have hlost : ∀ e ∈ untraced, (e.1.chain e.2.1 >>= ofMappings >>= fun r' =>
      r'.member? "A" ⟨.method, "m", e.2.2⟩).failureKind? = some .noAncestry := by decide +kernel
  refine List.forall_iff_forall_mem.2 fun e he => ?_
  obtain ⟨r, hr, hmember⟩ := Outcome.bind_eq_ok_iff.1 (hfound e he)
  obtain ⟨r', hr'⟩ := Outcome.exists_eq_ok (hchained e he)
  have herror := hlost e he
  rw [hr'] at herror
  obtain ⟨chained, hchain, hr'⟩ := Outcome.bind_eq_ok_iff.1 hr'
  exact ⟨(hvalid e he).1, (hvalid e he).2, r, chained, r', hr, hchain, hr', hmember,
    Outcome.exists_error_of_failureKind? herror⟩

end Renamer

end SymbolMap
