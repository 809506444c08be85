import SymbolMap.Proofs.Descriptor.ClassNames
import SymbolMap.Renamer.Basic

/-!
# Which descriptors can be translated

A class name is taken to its new name, put into the new package, or kept (`Renames.Takes`).

Class renames give every name a name on the other side, with one exception: a name that begins like
that of an array is read as a field descriptor, and is refused if it is none.  So a descriptor can
be translated if it can be read and the class names in it that begin like an array's are names of
arrays (`exists_descriptor_iff`).  That does not depend on the renames or on the direction.

A class name in a descriptor holds no `;`, so an array in it has no class inside and keeps its name
(`className_of_isArray`).
-/

namespace SymbolMap

/-- The renames take the first name to the second: as that of a class, by its package, or because
there is nothing else for it. -/
inductive Renames.Takes (r : Renames) (x : String) : String → Prop where
  | ofClass {y : String} (hget : r.classes.get? x = some y) : Takes r x y
  | ofPackage {package simple package' : String} (hclass : r.classes.get? x = none)
    (hsplit : Name.splitPackage x = (some package, simple))
    (hget : r.packages.get? package = some package') : Takes r x (Name.inPackage package' simple)
  | kept (hclass : r.classes.get? x = none)
    (hpackage : ∀ package simple, Name.splitPackage x = (some package, simple) →
      r.packages.get? package = none) : Takes r x x

/-- A name is taken to what is found for it, or to itself. -/
theorem Renames.takes_lookup (r : Renames) (x : String) : r.Takes x ((r.lookup x).getD x) := by
  rw [lookup]
  cases hclass : r.classes.get? x with
  | some y => exact .ofClass hclass
  | none =>
    rcases hsplit : Name.splitPackage x with ⟨_ | package, simple⟩
    · refine .kept hclass fun package simple' hsome => ?_
      rw [hsplit] at hsome
      cases hsome
    · cases hget : r.packages.get? package with
      | some package' =>
        simp only [hget]
        exact .ofPackage hclass hsplit hget
      | none =>
        simp only [hget]
        refine .kept hclass fun package' simple' hsome => ?_
        rw [hsplit] at hsome
        cases hsome
        exact hget

theorem Renames.Takes.eq_lookup {r : Renames} {x y : String} (h : r.Takes x y) :
    y = (r.lookup x).getD x := by
  cases h with
  | ofClass hget => simp [lookup, hget]
  | ofPackage hclass hsplit hget => simp [lookup, hclass, hsplit, hget]
  | kept hclass hpackage =>
    rcases hsplit : Name.splitPackage x with ⟨_ | package, simple⟩
    · simp [lookup, hclass, hsplit]
    · simp [lookup, hclass, hsplit, hpackage package simple hsplit]

/-- A name is taken to one name. -/
theorem Renames.Takes.unique {r : Renames} {x y z : String} (hy : r.Takes x y)
    (hz : r.Takes x z) : y = z :=
  hy.eq_lookup.trans hz.eq_lookup.symm

/-- The text is a descriptor, and the class names in it that begin like an array's are an
array's. -/
def Descriptor.Translatable (desc : String) : Prop :=
  ∃ names, classNames desc = .ok names ∧
    ∀ x ∈ names, Name.isArray x = true → Name.isClassName x = true

namespace ClassRenames

variable {t : ClassRenames} {d : Direction} {x y desc : String}

theorem className_of_takes (harray : Name.isArray x = false) (h : (t.renames d).Takes x y) :
    t.className d x = .ok y := by
  rw [className_of_not_array t d harray, h.eq_lookup]
  rfl

theorem takes_of_className (harray : Name.isArray x = false) (h : t.className d x = .ok y) :
    (t.renames d).Takes x y := by
  rw [className_of_not_array t d harray] at h
  obtain rfl := Except.ok.inj h
  exact (t.renames d).takes_lookup x

/-- The name of an array that names no class stays. -/
theorem className_of_isArray (harray : Name.isArray x = true) (hname : Name.isClassName x = true)
    (hx : ';' ∉ x.toList) : t.className d x = .ok x := by
  obtain ⟨type, hparse, hclass⟩ := Name.exists_parse_of_isArray harray hname hx
  have hrename : type.renameClass (t.className d) = .ok type :=
    FieldType.renameClass_eq_ok_iff.2 (.inl ⟨hclass, rfl⟩)
  rw [className_of_array _ _ harray, fieldDescriptor, Outcome.within_eq_ok_iff,
    Outcome.bind_eq_ok_iff]
  refine ⟨type, Outcome.ofReading_eq_ok_iff.2 hparse,
    Outcome.bind_eq_ok_iff.2 ⟨type, hrename, ?_⟩⟩
  rw [(FieldType.parse_eq_ok_iff.1 hparse).2]
  rfl

/-- A class name without a `;` has a name on the other side unless it begins like an array's and is
none. -/
theorem exists_className_iff (hx : ';' ∉ x.toList) :
    (∃ y, t.className d x = .ok y) ↔ (Name.isArray x = true → Name.isClassName x = true) := by
  constructor
  · rintro ⟨y, hy⟩ harray
    rw [className_of_array _ _ harray, fieldDescriptor, Outcome.within_eq_ok_iff,
      Outcome.bind_eq_ok_iff] at hy
    obtain ⟨type, hparse, -⟩ := hy
    rw [Name.isClassName, if_pos harray, Outcome.ofReading_eq_ok_iff.1 hparse]
  · intro hname
    by_cases harray : Name.isArray x = true
    · exact ⟨x, className_of_isArray harray (hname harray) hx⟩
    · rw [Bool.not_eq_true] at harray
      exact ⟨_, className_of_not_array t d harray⟩

/-- **A descriptor has a translation** in either direction if it is translatable. -/
theorem exists_descriptor_iff :
    (∃ desc', t.descriptor d desc = .ok desc') ↔ Descriptor.Translatable desc := by
  simp only [descriptor, Outcome.within_eq_ok_iff, Descriptor.exists_renameClasses_iff]
  constructor
  · rintro ⟨names, hnames, h⟩
    refine ⟨names, hnames, fun x hx => (exists_className_iff ?_).1 (h x hx)⟩
    exact (Descriptor.delimited_of_mentions ⟨names, hnames, hx⟩).2
  · rintro ⟨names, hnames, h⟩
    refine ⟨names, hnames, fun x hx => (exists_className_iff ?_).2 (h x hx)⟩
    exact (Descriptor.delimited_of_mentions ⟨names, hnames, hx⟩).2

end ClassRenames

/-- The descriptors a member has on the two sides can be translated. -/
def Tags.Translatable (t : Tags) : Prop :=
  ∀ desc, t.unmappedDescriptor = some desc ∨ t.mappedDescriptor = some desc →
    Descriptor.Translatable desc

/-- A member with translatable descriptors has its descriptors on both sides. -/
theorem exists_memberDescriptors (classes : ClassRenames) {t : Tags} (h : t.Translatable) :
    ∃ descs, memberDescriptors classes t = .ok descs := by
  rw [memberDescriptors]
  split
  · exact ⟨_, rfl⟩
  · rename_i unmapped hunmapped _
    obtain ⟨mapped, hmapped⟩ := ClassRenames.exists_descriptor_iff.2 (h _ (.inl hunmapped))
    exact ⟨_, Outcome.bind_eq_ok_iff.2 ⟨mapped, hmapped, rfl⟩⟩
  · rename_i mapped _ hmapped
    obtain ⟨unmapped, hunmapped⟩ := ClassRenames.exists_descriptor_iff.2 (h _ (.inr hmapped))
    exact ⟨_, Outcome.bind_eq_ok_iff.2 ⟨unmapped, hunmapped, rfl⟩⟩
  · exact ⟨_, rfl⟩

end SymbolMap
