import SymbolMap.Proofs.Program.Classes
import SymbolMap.Proofs.Renamer.Inheritance
import SymbolMap.Proofs.Renamer.Reversal

/-!
# Programs renamed there and back

A program is renamed by a collection, and the result is renamed by the reversed collection, each
time with the program itself as the ancestry.  This gives the program back
(`program_there_and_back`), if

* class names go there and back (`GoesBack`), those of the program and those in the descriptors of
  the program and of the collection;
* every member of the collection has a descriptor, whose class names are those of the collection;
* no two members of a kind get one mapped name, and no name that is left alone becomes one that is
  given; both of these are about names in all classes, not in one (`Compatible`);
* no class in the descriptor of a member that is not mapped gets an empty name (`NoEmptyNames`).

Without the last condition the renamed program may have descriptors that cannot be read
(`not_there_and_back_of_empty_name`).

The renamed member is not looked up where the member was found.  It is looked up in the renamed
program, where the search may stop at another class, and may meet candidates of other visibility.
What makes up for this is that all rows under the mapped name and descriptor, wherever they are,
lead back to the one member (`target_of_entryAt`), so it is enough that there is a way to one of
them (`exists_chain_back`).
-/

namespace SymbolMap

/-- The class name `x` is renamed to `y` and back.  Neither is the name of an array or holds a `;`,
and both belong to the platform or neither does. -/
structure ClassRenames.GoesBack (t : ClassRenames) (x y : String) : Prop where
  forth : t.className .toMapped x = .ok y
  back : t.className .toUnmapped y = .ok x
  not_array : Name.isArray x = false ∧ Name.isArray y = false
  no_semicolon : ';' ∉ x.toList ∧ ';' ∉ y.toList
  platform : Name.isPlatform x = Name.isPlatform y

/-- The class names that matter: those of the classes of a program and of their super types, those
in the descriptors of their members, and those in the unmapped descriptors of the members of a
collection. -/
inductive Mentioned (classes : List DeclaredClass) (mappings : GroupedMappings)
    (renames : ClassRenames) (x : String) : Prop
  | name {c : DeclaredClass} : c ∈ classes → c.name = x → Mentioned classes mappings renames x
  | superClass {c : DeclaredClass} : c ∈ classes → x ∈ c.superClass →
      Mentioned classes mappings renames x
  | interface {c : DeclaredClass} : c ∈ classes → x ∈ c.interfaces →
      Mentioned classes mappings renames x
  | declared {c : DeclaredClass} {kind : MemberKind} {d : DeclaredMember} : c ∈ classes →
      d ∈ c.members kind → Descriptor.Mentions d.desc x → Mentioned classes mappings renames x
  | mapped {c : MappedClass} {kind : MemberKind} {s : Symbol} {desc : String}
      {desc' : Option String} : c ∈ mappings.classes → s ∈ c.membersOf kind →
      memberDescriptors renames s.tags = .ok (some desc, desc') → Descriptor.Mentions desc x →
      Mentioned classes mappings renames x

/-- What a collection and the classes of a program must have in common for a renamer to have an
opposite. -/
structure Renamer.Compatible (r : Renamer) (classes : List DeclaredClass)
    (mappings : GroupedMappings) : Prop where
  /-- Class names go there and back. -/
  goesBack : ∀ x, Mentioned classes mappings r.classes x → ∃ y, r.classes.GoesBack x y
  /-- Every member has a descriptor on both sides, the one renamed to the other. -/
  descriptors : ∀ kind s, mappings.HasMember kind s → ∃ desc desc',
    memberDescriptors r.classes s.tags = .ok (some desc, some desc') ∧
      r.classes.descriptor .toMapped desc = .ok desc'
  /-- A mapped name comes from one unmapped name. -/
  unique : ∀ kind s s₀, mappings.HasMember kind s → mappings.HasMember kind s₀ →
    ∀ name name₀ mapped, s.IsNamed (name, mapped) → s₀.IsNamed (name₀, mapped) → name = name₀
  /-- The names of initializers are mapped to themselves, and nothing else is mapped to them. -/
  initializers : ∀ kind s, mappings.HasMember kind s → ∀ name mapped, s.IsNamed (name, mapped) →
    Name.isInitializer name = true ∨ Name.isInitializer mapped = true → name = mapped
  /-- A declared member that is not mapped is not named like a mapped one. -/
  unmapped : ∀ c ∈ classes, ∀ kind, ∀ d ∈ c.members kind, Name.isInitializer d.name = false →
    r.member? c.name ⟨kind, d.name, d.desc⟩ = .ok none →
      ∀ s, mappings.HasMember kind s → s.mappedName ≠ .ok d.name

/-- No class named in the descriptor of a declared member that is not mapped gets an empty name. -/
def Renamer.NoEmptyNames (r : Renamer) (classes : List DeclaredClass) : Prop :=
  ∀ c ∈ classes, ∀ kind, ∀ d ∈ c.members kind, r.member? c.name ⟨kind, d.name, d.desc⟩ = .ok none →
    ∀ x, Descriptor.Mentions d.desc x → r.classes.className .toMapped x ≠ .ok ""

/-! ## Descriptors -/

namespace ClassRenames

variable {t : ClassRenames} {x y desc desc' : String}

theorem GoesBack.eq_of_forth {z : String} (h : t.GoesBack x y) (hz : t.className .toMapped x = .ok z) :
    z = y :=
  Outcome.eq_of_eq_ok hz h.forth

/-- A class that has a mapped name goes there. -/
theorem GoesBack.eq_of_get? {z : String} (h : t.GoesBack x y)
    (hz : t.toMapped.classes.get? x = some z) : z = y := by
  refine h.eq_of_forth ?_
  rw [className_of_not_array _ _ h.not_array.1]
  show Except.ok ((t.toMapped.lookup x).getD x) = _
  rw [Renames.lookup, hz]
  rfl

theorem descriptor_back (h : t.descriptor .toMapped desc = .ok desc')
    (hnames : ∀ x, Descriptor.Mentions desc x → ∃ y, t.GoesBack x y ∧ y ≠ "") :
    t.descriptor .toUnmapped desc' = .ok desc := by
  rw [descriptor, Outcome.within_eq_ok_iff] at h ⊢
  refine Descriptor.renameClasses_back (fun x hx z hz => ?_) h
  obtain ⟨y, hy, hne⟩ := hnames x hx
  obtain rfl := hy.eq_of_forth hz
  exact ⟨hy.back, by simpa using hne, hy.no_semicolon.2⟩

theorem descriptor_injective {desc₀ : String} (h : t.descriptor .toMapped desc = .ok desc')
    (h₀ : t.descriptor .toMapped desc₀ = .ok desc')
    (hnames : ∀ x, Descriptor.Mentions desc x ∨ Descriptor.Mentions desc₀ x →
      ∃ y, t.GoesBack x y) : desc = desc₀ := by
  rw [descriptor, Outcome.within_eq_ok_iff] at h h₀
  have hback : ∀ x, Descriptor.Mentions desc x ∨ Descriptor.Mentions desc₀ x → ∀ z,
      t.className .toMapped x = .ok z → t.className .toUnmapped z = .ok x ∧ ';' ∉ z.toList := by
    intro x hx z hz
    obtain ⟨y, hy⟩ := hnames x hx
    obtain rfl := hy.eq_of_forth hz
    exact ⟨hy.back, hy.no_semicolon.2⟩
  exact Descriptor.renameClasses_injective hback h h₀

end ClassRenames

namespace Renamer

variable {r r' : Renamer} {mappings : GroupedMappings} {classes : List DeclaredClass}
  {kind : MemberKind} {owner owner' name name' desc desc' : String}

/-! ## Rows there and back -/

/-- Every row has descriptors on both sides. -/
theorem Compatible.exists_descriptors (h : r.Compatible classes mappings) {desc : Option String}
    {target : MemberTarget}
    (hrow : mappings.HasRow r.classes kind owner owner' name desc target) :
    ∃ d d', desc = some d ∧ target.desc = some d' ∧ r.classes.descriptor .toMapped d = .ok d' ∧
      ∀ x, Descriptor.Mentions d x → ∃ y, r.classes.GoesBack x y := by
  obtain ⟨c, hc, -, s, hs, hlinks⟩ := hrow
  obtain ⟨d, d', hdescriptors, hrenamed⟩ := h.descriptors kind s ⟨c, hc, hs⟩
  obtain ⟨rfl, htarget⟩ :=
    Prod.mk.inj (Outcome.eq_of_eq_ok hlinks.descriptors hdescriptors)
  exact ⟨d, d', rfl, htarget, hrenamed, fun x hx =>
    h.goesBack x (.mapped hc hs hdescriptors hx)⟩

/-- A look-up there takes the row with the descriptor. -/
theorem Compatible.lookup_forth (h : r.Compatible classes mappings) (hr : r.Represents mappings)
    (c : String) (m : MemberRef) :
    r.lookup c m = .ok (r.entryAt m.kind c m.name (some m.desc)) := by
  refine lookup_eq_entryAt (Option.eq_none_iff_forall_ne_some.2 fun entry hentry => ?_)
  obtain ⟨owner', hrow⟩ := hr.exists_entryAt_iff.1 ⟨entry, hentry, rfl⟩
  obtain ⟨_, _, hnone, -⟩ := h.exists_descriptors hrow
  cases hnone

/-- A look-up back takes the row with the descriptor. -/
theorem Compatible.lookup_back (h : r.Compatible classes mappings) (hr : r.Opposite r' mappings)
    (c : String) (m : MemberRef) :
    r'.lookup c m = .ok (r'.entryAt m.kind c m.name (some m.desc)) := by
  refine lookup_eq_entryAt (Option.eq_none_iff_forall_ne_some.2 fun entry hentry => ?_)
  obtain ⟨owner, hrow⟩ := hr.exists_entryAt_iff.1 ⟨entry, hentry, rfl⟩
  obtain ⟨_, _, -, hnone, -⟩ := h.exists_descriptors hrow
  cases hnone

/-- **All rows under a mapped name and descriptor lead back to the same member.** -/
theorem Compatible.target_of_entryAt (h : r.Compatible classes mappings)
    (hr : r.Opposite r' mappings) {c : String} {entry : MemberEntry}
    (hrow : mappings.HasRow r.classes kind owner owner' name (some desc) ⟨name', some desc'⟩)
    (hentry : r'.entryAt kind c name' (some desc') = some entry) :
    entry.target = ⟨name, some desc⟩ := by
  obtain ⟨owner₀, hrow₀⟩ := hr.exists_entryAt_iff.1 ⟨entry, hentry, rfl⟩
  obtain ⟨desc₀, d₀', hdesc₀, hd₀', hrenamed₀, hnames₀⟩ := h.exists_descriptors hrow₀
  obtain ⟨_, d', hdesc', hd', hrenamed, hnames⟩ := h.exists_descriptors hrow
  cases hdesc'
  cases hd₀'
  cases hd'
  have hdesc : desc = desc₀ := ClassRenames.descriptor_injective hrenamed hrenamed₀ fun x hx =>
    hx.elim (hnames x) (hnames₀ x)
  obtain ⟨c, hc, -, s, hs, hlinks⟩ := hrow
  obtain ⟨c₀, hc₀, -, s₀, hs₀, hlinks₀⟩ := hrow₀
  have hname : name = entry.target.name := h.unique kind s s₀ ⟨c, hc, hs⟩ ⟨c₀, hc₀, hs₀⟩
    name entry.target.name name' ⟨hlinks.unmapped, hlinks.mapped⟩
    ⟨hlinks₀.unmapped, hlinks₀.mapped⟩
  rw [hname, hdesc, ← hdesc₀]

/-- The row of a class is found back under its mapped name. -/
theorem exists_entryAt_back (hr : r.Opposite r' mappings) {target : MemberTarget}
    (hrow : mappings.HasRow r.classes kind owner owner' name (some desc) target) {y : String}
    (hy : r.classes.GoesBack owner y) :
    ∃ entry, r'.entryAt kind y target.name target.desc = some entry := by
  obtain ⟨hget, -⟩ := hr.forth.get?_of_row hrow
  obtain rfl := hy.eq_of_get? hget
  obtain ⟨entry, hentry, -⟩ := hr.exists_entryAt_iff.2 ⟨owner, hrow⟩
  exact ⟨entry, hentry⟩

/-! ## Ways up -/

/-- Where a member is resolved, a row for it is reached through super types. -/
theorem Compatible.exists_row_of_resolve (h : r.Compatible classes mappings)
    (hr : r.Represents mappings) {a : Ancestry} (hancestry : r.ancestry = some a) {m : MemberRef}
    {t : MemberTarget} (hresolve : r.resolve owner m = .ok (some t)) :
    ∃ s s', Relation.ReflTransGen a.SuperType owner s ∧
      mappings.HasRow r.classes m.kind s s' m.name (some m.desc) t := by
  have hrow : ∀ s entry, r.lookup s m = .ok (some entry) →
      ∃ s', mappings.HasRow r.classes m.kind s s' m.name (some m.desc) entry.target := by
    intro s entry hentry
    rw [h.lookup_forth hr] at hentry
    exact hr.exists_entryAt_iff.1 ⟨entry, Except.ok.inj hentry, rfl⟩
  obtain ⟨-, ⟨entry, hentry, rfl⟩ | ⟨howner, hinherited⟩⟩ := resolve_eq_some hresolve
  · obtain ⟨s', hs'⟩ := hrow owner entry hentry
    exact ⟨owner, s', .refl, hs'⟩
  · obtain ⟨v, s, c, hopen, hsuper, entry, desc, access, hentry, hdesc, -, -, ht⟩ :=
      exists_candidate_of_inherited hancestry howner hinherited
    obtain ⟨s', hs'⟩ := hrow s entry hentry
    -- the row gives the descriptor of the target, so nothing was filled in
    obtain ⟨_, d', -, hd', -⟩ := h.exists_descriptors hs'
    have hsame : t = entry.target := by
      rw [targetDescriptor, hd'] at hdesc
      cases hdesc
      exact ht.trans (by rw [← hd'])
    exact ⟨s, s', hopen.chain.tail hsuper, hsame ▸ hs'⟩

/-- One renamer takes a program to another, and its opposite is to take it back; each has as its
ancestry the program it starts from. -/
structure Passage (r r' : Renamer) (mappings : GroupedMappings)
    (classes classes' : List DeclaredClass) (p p' : Program) : Prop where
  opposite : r.Opposite r' mappings
  ancestry : r.ancestry = some p.ancestry
  ancestry' : r'.ancestry = some p'.ancestry
  made : Program.ofClasses classes = .ok p
  made' : Program.ofClasses classes' = .ok p'
  renamed : List.Forall₂ (fun c c' => r.declaredClass c = .ok c') classes classes'

variable {classes' : List DeclaredClass} {p p' : Program}

/-- A super type of a class is, renamed, a super type of the renamed class. -/
theorem Passage.superType_back (hpass : Passage r r' mappings classes classes' p p')
    {x s x' s' : String} (hx : r.classes.GoesBack x x') (hs : r.classes.GoesBack s s')
    (hsuper : p.ancestry.SuperType x s) : p'.ancestry.SuperType x' s' := by
  obtain ⟨c, hc, rfl, hmem⟩ := (Program.superType_iff hpass.made).1 hsuper
  obtain ⟨c', hc', hrenamed⟩ := exists_right_of_forall₂ hpass.renamed hc
  obtain ⟨-, hname, hsuperClass, hinterfaces⟩ := declaredClass_eq_ok_iff.1 hrenamed
  obtain ⟨hparent, hplatform⟩ := DeclaredClass.mem_superTypes.1 hmem
  refine (Program.superType_iff hpass.made').2 ⟨c', hc', hx.eq_of_forth hname, ?_⟩
  refine DeclaredClass.mem_superTypes.2 ⟨?_, hs.platform ▸ hplatform⟩
  rcases hparent with hparent | hparent
  · left
    rw [Option.mem_def.1 hparent] at hsuperClass
    generalize c'.superClass = superClass' at hsuperClass
    obtain ⟨hforth⟩ := hsuperClass
    rw [hs.eq_of_forth hforth]
    rfl
  · right
    obtain ⟨s₀, hs₀, hforth⟩ := exists_right_of_forall₂ hinterfaces hparent
    exact hs.eq_of_forth hforth ▸ hs₀

/-- **What is reached through super types is reached in the renamed program.** -/
theorem Passage.exists_chain_back (hpass : Passage r r' mappings classes classes' p p')
    (h : r.Compatible classes mappings) {x s x' : String} (hx : r.classes.GoesBack x x')
    (hchain : Relation.ReflTransGen p.ancestry.SuperType x s) :
    ∃ s', r.classes.GoesBack s s' ∧ Relation.ReflTransGen p'.ancestry.SuperType x' s' := by
  induction hchain with
  | refl => exact ⟨x', hx, .refl⟩
  | @tail c s _ hsuper ih =>
    obtain ⟨c', hc', hchain'⟩ := ih
    obtain ⟨declared, hdeclared, -, hmem⟩ := (Program.superType_iff hpass.made).1 hsuper
    have hmentioned : Mentioned classes mappings r.classes s := by
      rcases (DeclaredClass.mem_superTypes.1 hmem).1 with hparent | hparent
      · exact .superClass hdeclared hparent
      · exact .interface hdeclared hparent
    obtain ⟨s', hs'⟩ := h.goesBack s hmentioned
    exact ⟨s', hs', hchain'.tail (hpass.superType_back hc' hs' hsuper)⟩

/-! ## Members there and back -/

/-- A mapped member is resolved back to what it was. -/
theorem Passage.resolve_back (hpass : Passage r r' mappings classes classes' p p')
    (h : r.Compatible classes mappings) {x x' : String} (hx : r.classes.GoesBack x x')
    (hresolve : r.resolve x ⟨kind, name, desc⟩ = .ok (some ⟨name', some desc'⟩)) :
    r'.resolve x' ⟨kind, name', desc'⟩ = .ok (some ⟨name, some desc⟩) := by
  have hr := hpass.opposite
  obtain ⟨s, s₀, hchain, hrow⟩ := h.exists_row_of_resolve hr.forth hpass.ancestry hresolve
  obtain ⟨s', hs', hchain'⟩ := hpass.exists_chain_back h hx hchain
  obtain ⟨entry, hentry⟩ := exists_entryAt_back hr hrow hs'
  obtain ⟨c, hc, -, symbol, hsymbol, hlinks⟩ := id hrow
  have hname : Name.isInitializer name' = false := by
    -- otherwise the member would have been an initializer and not mapped
    by_contra hinit
    have heq := h.initializers kind symbol ⟨c, hc, hsymbol⟩ name name'
      ⟨hlinks.unmapped, hlinks.mapped⟩ (.inr (by simpa using hinit))
    have hnot := (resolve_eq_some hresolve).1
    rw [← heq] at hinit
    exact hinit hnot
  have hlookup := fun c => h.lookup_back hr c ⟨kind, name', desc'⟩
  refine resolve_eq_of_only_target hpass.ancestry' hname ?_ (fun c => ⟨_, rfl⟩) (fun c => ⟨_, rfl⟩)
    (fun c => ⟨_, hlookup c⟩) ?_ hchain' ((hlookup s').trans (congrArg _ hentry))
  · exact hr.mem_mappedNames_iff.2 ⟨symbol, ⟨c, hc, hsymbol⟩, hlinks.mapped⟩
  · intro c entry hentry
    rw [hlookup] at hentry
    exact h.target_of_entryAt hr hrow (Except.ok.inj hentry)

/-- A declared member that is not mapped is not mapped back either. -/
theorem Compatible.resolve_back_of_none (h : r.Compatible classes mappings)
    (hr : r.Opposite r' mappings) {c : DeclaredClass} (hc : c ∈ classes) {d : DeclaredMember}
    (hd : d ∈ c.members kind) (hresolve : r.resolve c.name ⟨kind, d.name, d.desc⟩ = .ok none)
    (x' : String) : r'.resolve x' ⟨kind, d.name, desc'⟩ = .ok none := by
  by_cases hinit : Name.isInitializer d.name = true
  · rw [resolve, if_pos hinit]
  · have hinit : Name.isInitializer d.name = false := by simpa using hinit
    have hno := h.unmapped c hc kind d hd hinit (member?_of_resolve_none hresolve)
    have hnone : r'.entryAt kind x' d.name (some desc') = none := by
      refine Option.eq_none_iff_forall_ne_some.2 fun entry hentry => ?_
      obtain ⟨owner, c₀, hc₀, -, s, hs, hlinks⟩ := hr.exists_entryAt_iff.1 ⟨entry, hentry, rfl⟩
      exact hno s ⟨c₀, hc₀, hs⟩ hlinks.mapped
    have hmapped : d.name ∉ r'.mappedNames kind := by
      intro hmem
      obtain ⟨s, hs, hname⟩ := hr.mem_mappedNames_iff.1 hmem
      exact hno s hs hname
    rw [resolve, hinit, h.lookup_back hr, hnone]
    exact if_neg hmapped

/-- The descriptor of a declared member that is not mapped is renamed back. -/
theorem Compatible.descriptor_back (h : r.Compatible classes mappings)
    (hr : r.Opposite r' mappings) (hempty : r.NoEmptyNames classes) {c : DeclaredClass}
    (hc : c ∈ classes) {d : DeclaredMember} (hd : d ∈ c.members kind)
    (hresolve : r.resolve c.name ⟨kind, d.name, d.desc⟩ = .ok none)
    (hdesc : r.classes.descriptor .toMapped d.desc = .ok desc') :
    r'.classes.descriptor .toMapped desc' = .ok d.desc := by
  rw [hr.classes_eq, ClassRenames.descriptor_flip]
  refine ClassRenames.descriptor_back hdesc fun x hx => ?_
  obtain ⟨y, hy⟩ := h.goesBack x (.declared hc hd hx)
  refine ⟨y, hy, ?_⟩
  rintro rfl
  exact hempty c hc kind d hd (member?_of_resolve_none hresolve) x hx hy.forth

/-- **A declared member is renamed back.** -/
theorem Passage.declaredMember_back (hpass : Passage r r' mappings classes classes' p p')
    (h : r.Compatible classes mappings) (hempty : r.NoEmptyNames classes)
    {c : DeclaredClass} (hc : c ∈ classes) {d d' : DeclaredMember} (hd : d ∈ c.members kind)
    {x' : String} (hx : r.classes.GoesBack c.name x')
    (hrenamed : r.declaredMember c.name kind d = .ok d') :
    r'.declaredMember x' kind d' = .ok d := by
  have hr := hpass.opposite
  obtain ⟨hmember, haccess⟩ := declaredMember_eq_ok_iff.1 hrenamed
  refine declaredMember_eq_ok_iff.2 ⟨?_, haccess.symm⟩
  obtain ⟨target, hresolve⟩ := exists_resolve_of_member hmember
  cases target with
  | none =>
    rw [member_of_resolve_none hresolve, Outcome.bind_eq_ok_iff] at hmember
    obtain ⟨desc', hdesc, hmember⟩ := hmember
    obtain ⟨hname, rfl⟩ := NameAndDesc.mk.inj (Except.ok.inj hmember)
    rw [← hname, member_of_resolve_none (h.resolve_back_of_none hr hc hd hresolve x'),
      h.descriptor_back hr hempty hc hd hresolve hdesc]
    rfl
  | some target =>
    rw [member_of_resolve_some hresolve, Outcome.bind_eq_ok_iff] at hmember
    obtain ⟨desc', hdesc, hmember⟩ := hmember
    obtain ⟨hname, rfl⟩ := NameAndDesc.mk.inj (Except.ok.inj hmember)
    obtain ⟨s, s', -, hrow⟩ := h.exists_row_of_resolve hr.forth hpass.ancestry hresolve
    obtain ⟨_, d'', -, hd'', -⟩ := h.exists_descriptors hrow
    have htarget : target = ⟨d'.name, some d'.desc⟩ := by
      rw [targetDescriptor, hd''] at hdesc
      cases hdesc
      rw [← hname, ← hd'']
    rw [htarget] at hresolve
    rw [member_of_resolve_some (hpass.resolve_back h hx hresolve)]
    rfl

/-! ## Programs there and back -/

/-- A class name that goes there is taken back by the opposite renamer. -/
theorem Opposite.className_back (hr : r.Opposite r' mappings) {x y z : String}
    (hy : r.classes.GoesBack x y) (hz : r.classes.className .toMapped x = .ok z) :
    r'.classes.className .toMapped z = .ok x := by
  rw [hr.classes_eq, ClassRenames.className_flip, hy.eq_of_forth hz]
  exact hy.back

/-- A declared class is renamed back. -/
theorem Passage.declaredClass_back (hpass : Passage r r' mappings classes classes' p p')
    (h : r.Compatible classes mappings) (hempty : r.NoEmptyNames classes)
    {c c' : DeclaredClass} (hc : c ∈ classes) (hrenamed : r.declaredClass c = .ok c') :
    r'.declaredClass c' = .ok c := by
  have hr := hpass.opposite
  obtain ⟨hmembers, hname, hsuperClass, hinterfaces⟩ := declaredClass_eq_ok_iff.1 hrenamed
  obtain ⟨x', hx⟩ := h.goesBack c.name (.name hc rfl)
  refine declaredClass_eq_ok_iff.2 ⟨fun kind => ?_, hr.className_back hx hname, ?_, ?_⟩
  · refine List.Forall₂.flip (forall₂_imp_of_mem (hmembers kind) fun d hd d' hmember => ?_)
    rw [hx.eq_of_forth hname]
    exact hpass.declaredMember_back h hempty hc hd hx hmember
  · have hback : ∀ s ∈ c.superClass, ∃ y, r.classes.GoesBack s y := fun s hs =>
      h.goesBack s (.superClass hc hs)
    generalize c.superClass = superClass at hsuperClass hback
    generalize c'.superClass = superClass' at hsuperClass
    cases hsuperClass with
    | none => exact .none
    | some hforth =>
      obtain ⟨y, hy⟩ := hback _ rfl
      exact .some (hr.className_back hy hforth)
  · refine List.Forall₂.flip (forall₂_imp_of_mem hinterfaces fun s hs s' hforth => ?_)
    obtain ⟨y, hy⟩ := h.goesBack s (.interface hc hs)
    exact hr.className_back hy hforth

/-- **There and back.**  A program that a collection renames is given back by the reversed
collection, if the collection is compatible with its classes and leaves no empty names in the
descriptors that it renames. -/
theorem program_there_and_back {mappings reversed : GroupedMappings}
    {classes : List DeclaredClass} {p p' : Program} {forth back : Renamer}
    (made : Program.ofClasses classes = .ok p)
    (hforth : ofMappings mappings = .ok forth)
    (hrenamed : (forth.withAncestry p.ancestry).program p = .ok p')
    (hreversed : mappings.reverse = .ok reversed)
    (hback : ofMappings reversed = .ok back)
    (hcompatible : (forth.withAncestry p.ancestry).Compatible classes mappings)
    (hempty : (forth.withAncestry p.ancestry).NoEmptyNames classes) :
    (back.withAncestry p'.ancestry).program p' = .ok p := by
  obtain ⟨classes', hclasses, made'⟩ := (program_eq_ok_iff made).1 hrenamed
  have hpass : Passage (forth.withAncestry p.ancestry) (back.withAncestry p'.ancestry) mappings
      classes classes' p p' :=
    { opposite := ⟨(represents_of_ofMappings hforth).withAncestry _, reversed, hreversed,
        (represents_of_ofMappings hback).withAncestry _⟩
      ancestry := rfl
      ancestry' := rfl
      made := made
      made' := made'
      renamed := hclasses }
  refine (program_eq_ok_iff made').2 ⟨classes, List.Forall₂.flip ?_, made⟩
  exact forall₂_imp_of_mem hclasses fun c hc c' hrenamed =>
    hpass.declaredClass_back hcompatible hempty hc hrenamed

/-! ### A parent and a child -/

/-- The class `A` has a mapped field, and the class `B` has none. -/
def parentMappings : GroupedMappings :=
  .ofParts none
    [(MappedClass.ofInfo (.ofNames (.paired "A" "a"))).addField
        (((Symbol.ofNames (.paired "f" "g")).set (.unmappedDescriptor "LA;")).set
          (.mappedDescriptor "La;")),
      MappedClass.ofInfo (.ofNames (.paired "B" "b"))] []

/-- The second class extends the first, and both declare the field. -/
def parentClasses (first second field desc : String) : List DeclaredClass :=
  [{ name := first, superClass := some "java/lang/Object", interfaces := []
     fields := [⟨Access.publicFlag, field, desc⟩], methods := [] },
    { name := second, superClass := some first, interfaces := []
      fields := [⟨Access.privateFlag, field, desc⟩], methods := [] }]

/-- The mapped field is the only member. -/
theorem of_hasMember_parentMappings {kind : MemberKind} {s : Symbol}
    (h : parentMappings.HasMember kind s) :
    s.IsNamed ("f", "g") ∧ s.tags.unmappedDescriptor = some "LA;" ∧
      s.tags.mappedDescriptor = some "La;" := by
  obtain ⟨c, hc, hs⟩ := h
  cases kind with
  | field =>
    have hall : ∀ c ∈ parentMappings.classes, ∀ s ∈ c.fields,
        (s.unmappedName = .ok "f" ∧ s.mappedName = .ok "g") ∧
          s.tags.unmappedDescriptor = some "LA;" ∧ s.tags.mappedDescriptor = some "La;" := by
      decide
    exact hall c hc s hs
  | method =>
    have hall : ∀ c ∈ parentMappings.classes, c.methods = [] := by decide
    have hnil : s ∈ ([] : List Symbol) := hall c hc ▸ hs
    cases hnil

/-- The declared field is the only member. -/
theorem of_mem_parentClasses {kind : MemberKind} {c : DeclaredClass} {d : DeclaredMember}
    (hc : c ∈ parentClasses "A" "B" "f" "LA;") (hd : d ∈ c.members kind) :
    c.name ∈ ["A", "B"] ∧ kind = .field ∧ d.name = "f" ∧ d.desc = "LA;" := by
  cases kind with
  | field =>
    have hall : ∀ c ∈ parentClasses "A" "B" "f" "LA;", ∀ d ∈ c.fields,
        c.name ∈ ["A", "B"] ∧ d.name = "f" ∧ d.desc = "LA;" := by
      decide
    obtain ⟨hname, hd⟩ := hall c hc d hd
    exact ⟨hname, rfl, hd⟩
  | method =>
    have hall : ∀ c ∈ parentClasses "A" "B" "f" "LA;", c.methods = [] := by decide
    have hnil : d ∈ ([] : List DeclaredMember) := hall c hc ▸ hd
    cases hnil

/-- The parent is mentioned in the descriptor of the field, and the platform's class is extended. -/
theorem mem_of_mentioned_parents {renames : ClassRenames} {x : String}
    (h : Mentioned (parentClasses "A" "B" "f" "LA;") parentMappings renames x) :
    x ∈ ["A", "B", "java/lang/Object"] := by
  have hdesc : ∀ x, Descriptor.Mentions "LA;" x → x ∈ ["A", "B", "java/lang/Object"] := by
    rintro x ⟨names, hnames, hx⟩
    have heq : Descriptor.classNames "LA;" = .ok ["A"] := by decide
    rw [heq] at hnames
    cases hnames
    exact List.mem_append_left ["B", "java/lang/Object"] hx
  cases h with
  | @name c hc hx =>
    have hall : ∀ c ∈ parentClasses "A" "B" "f" "LA;", c.name ∈ ["A", "B", "java/lang/Object"] := by
      decide
    exact hx ▸ hall c hc
  | @superClass c hc hx =>
    have hall : ∀ c ∈ parentClasses "A" "B" "f" "LA;", ∀ x ∈ c.superClass,
        x ∈ ["A", "B", "java/lang/Object"] := by
      decide
    exact hall c hc x hx
  | @interface c hc hx =>
    have hall : ∀ c ∈ parentClasses "A" "B" "f" "LA;", c.interfaces = [] := by decide
    rw [hall c hc] at hx
    cases hx
  | declared hc hd hx =>
    obtain ⟨-, -, -, heq⟩ := of_mem_parentClasses hc hd
    exact hdesc x (heq ▸ hx)
  | mapped hc hs hdescriptors hx =>
    obtain ⟨-, hu, hm⟩ := of_hasMember_parentMappings ⟨_, hc, hs⟩
    rw [memberDescriptors, hu, hm] at hdescriptors
    cases hdescriptors
    exact hdesc x hx

theorem member?_ne_none_of_parents {r : Renamer}
    (hmapped : ∀ x ∈ ["A", "B"], r.member? x ⟨.field, "f", "LA;"⟩ ≠ .ok none)
    {c : DeclaredClass} {kind : MemberKind} {d : DeclaredMember}
    (hc : c ∈ parentClasses "A" "B" "f" "LA;") (hd : d ∈ c.members kind) :
    r.member? c.name ⟨kind, d.name, d.desc⟩ ≠ .ok none := by
  obtain ⟨hname, rfl, hd, hdesc⟩ := of_mem_parentClasses hc hd
  rw [hd, hdesc]
  exact hmapped c.name hname

theorem compatible_parents {r : Renamer}
    (hback : ∀ x ∈ ["A", "B", "java/lang/Object"], ∃ y, r.classes.GoesBack x y)
    (hdesc : r.classes.descriptor .toMapped "LA;" = .ok "La;")
    (hmapped : ∀ x ∈ ["A", "B"], r.member? x ⟨.field, "f", "LA;"⟩ ≠ .ok none) :
    r.Compatible (parentClasses "A" "B" "f" "LA;") parentMappings where
  goesBack x hx := hback x (mem_of_mentioned_parents hx)
  descriptors kind s hs := by
    obtain ⟨-, hu, hm⟩ := of_hasMember_parentMappings hs
    refine ⟨"LA;", "La;", ?_, hdesc⟩
    rw [memberDescriptors, hu, hm]
  unique kind s s₀ hs hs₀ name name₀ mapped hnamed hnamed₀ := by
    obtain ⟨⟨hname, -⟩, -⟩ := of_hasMember_parentMappings hs
    obtain ⟨⟨hname₀, -⟩, -⟩ := of_hasMember_parentMappings hs₀
    exact (Outcome.eq_of_eq_ok hnamed.1 hname).trans
      (Outcome.eq_of_eq_ok hnamed₀.1 hname₀).symm
  initializers kind s hs name mapped hnamed hinit := by
    obtain ⟨⟨hname, hmapped⟩, -⟩ := of_hasMember_parentMappings hs
    obtain rfl : name = "f" := Outcome.eq_of_eq_ok hnamed.1 hname
    obtain rfl : mapped = "g" := Outcome.eq_of_eq_ok hnamed.2 hmapped
    exact absurd hinit (by decide)
  unmapped c hc kind d hd _ hnone := absurd hnone (member?_ne_none_of_parents hmapped hc hd)

/-- The field of the child, which is inherited, is renamed with the field of the parent, and both
are renamed back. -/
theorem parents_there_and_back : ∃ forth back p p' reversed,
    Program.ofClasses (parentClasses "A" "B" "f" "LA;") = .ok p ∧
    Program.ofClasses (parentClasses "a" "b" "g" "La;") = .ok p' ∧
    ofMappings parentMappings = .ok forth ∧
    (forth.withAncestry p.ancestry).program p = .ok p' ∧
    parentMappings.reverse = .ok reversed ∧ ofMappings reversed = .ok back ∧
    (back.withAncestry p'.ancestry).program p' = .ok p := by
  have made : Program.ofClasses (parentClasses "A" "B" "f" "LA;") = .ok _ := rfl
  have made' : Program.ofClasses (parentClasses "a" "b" "g" "La;") = .ok _ := rfl
  have hforth : ofMappings parentMappings = .ok _ := rfl
  have hreversed : parentMappings.reverse = .ok _ := rfl
  have hback : ofMappings (parentMappings.reverse.toOption.getD (.empty none)) = .ok _ := rfl
  refine ⟨_, _, _, _, _, made, made', hforth, by decide +kernel, hreversed, hback, ?_⟩
  refine program_there_and_back made hforth (by decide +kernel) hreversed hback
    (compatible_parents ?_ (by decide +kernel) (by decide +kernel)) ?_
  · refine List.forall_mem_cons.2 ⟨⟨"a", ?_⟩, List.forall_mem_cons.2 ⟨⟨"b", ?_⟩,
      List.forall_mem_singleton.2 ⟨"java/lang/Object", ?_⟩⟩⟩
    all_goals exact ⟨by decide +kernel, by decide +kernel, by decide, by decide, by decide⟩
  · intro c hc kind d hd hnone
    exact absurd hnone (member?_ne_none_of_parents (by decide +kernel) hc hd)

/-! ### An empty name -/

/-- A class gets an empty name. -/
def emptyNameMappings : GroupedMappings :=
  .ofParts none [MappedClass.ofInfo (.ofNames (.paired "a" ""))] []

/-- A class declares a field with the descriptor. -/
def oneFieldClasses (desc : String) : List DeclaredClass :=
  [{ name := "b", superClass := none, interfaces := []
     fields := [⟨Access.publicFlag, "f", desc⟩], methods := [] }]

theorem compatible_emptyName {r : Renamer} (ha : r.classes.GoesBack "a" "")
    (hb : r.classes.GoesBack "b" "b") :
    r.Compatible (oneFieldClasses "La;") emptyNameMappings := by
  have hno : ∀ kind s, ¬ emptyNameMappings.HasMember kind s := by
    rintro kind s ⟨c, hc, hs⟩
    obtain rfl := List.mem_singleton.1 hc
    cases kind <;> cases hs
  refine ⟨fun x hx => ?_, fun kind s hs => absurd hs (hno kind s),
    fun kind s s₀ hs => absurd hs (hno kind s), fun kind s hs => absurd hs (hno kind s),
    fun _ _ kind _ _ _ _ s hs => absurd hs (hno kind s)⟩
  cases hx with
  | @name c hc hx =>
    obtain rfl := List.mem_singleton.1 hc
    exact ⟨"b", hx ▸ hb⟩
  | @superClass c hc hx =>
    obtain rfl := List.mem_singleton.1 hc
    cases hx
  | @interface c hc hx =>
    obtain rfl := List.mem_singleton.1 hc
    cases hx
  | @declared c kind d hc hd hx =>
    obtain rfl := List.mem_singleton.1 hc
    cases kind with
    | method => cases hd
    | field =>
      obtain rfl := List.mem_singleton.1 hd
      obtain ⟨names, hnames, hx⟩ := hx
      have heq : Descriptor.classNames "La;" = .ok ["a"] := by decide
      rw [heq] at hnames
      cases hnames
      exact ⟨"", List.mem_singleton.1 hx ▸ ha⟩
  | mapped hc hs => exact absurd ⟨_, hc, hs⟩ (hno _ _)

/-- The class of the field has become empty, and the descriptor cannot be read any more. -/
theorem not_there_and_back_of_empty_name : ∃ forth back p p' reversed,
    Program.ofClasses (oneFieldClasses "La;") = .ok p ∧
    Program.ofClasses (oneFieldClasses "L;") = .ok p' ∧
    ofMappings emptyNameMappings = .ok forth ∧
    (forth.withAncestry p.ancestry).program p = .ok p' ∧
    emptyNameMappings.reverse = .ok reversed ∧ ofMappings reversed = .ok back ∧
    (forth.withAncestry p.ancestry).Compatible (oneFieldClasses "La;") emptyNameMappings ∧
    (back.withAncestry p'.ancestry).program p' ≠ .ok p := by
  have made : Program.ofClasses (oneFieldClasses "La;") = .ok _ := rfl
  have made' : Program.ofClasses (oneFieldClasses "L;") = .ok _ := rfl
  have hforth : ofMappings emptyNameMappings = .ok _ := rfl
  have hreversed : emptyNameMappings.reverse = .ok _ := rfl
  have hback : ofMappings (emptyNameMappings.reverse.toOption.getD (.empty none)) = .ok _ := rfl
  refine ⟨_, _, _, _, _, made, made', hforth, by decide +kernel, hreversed, hback,
    compatible_emptyName ?_ ?_, by decide +kernel⟩
  · exact ⟨by decide +kernel, by decide +kernel, by decide, by decide, by decide⟩
  · exact ⟨by decide +kernel, by decide +kernel, by decide, by decide, by decide⟩

end Renamer

end SymbolMap
