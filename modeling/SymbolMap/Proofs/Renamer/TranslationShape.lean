import SymbolMap.Proofs.Descriptor.Shape
import SymbolMap.Proofs.Mappings.Validity
import SymbolMap.Proofs.Renamer.Translation

/-!
# Translations of the same shape

What class renames put into a descriptor is the name of a class on the other side, or a simple name
in the package of the other side.  If these can stand in a descriptor, so can every name that comes
out (`delimited_of_className`), and a translation differs from its descriptor in class names only.

The names of a valid collection can stand there with one exception.  An array of classes has a name
with a `;` in it, and classes and packages may be called so.  Where none is, translations in either
direction have the shape of the descriptor (`descriptor_sameShape`).
-/

namespace SymbolMap

/-- No name of the symbol holds a `;`, as that of an array of classes does. -/
def Symbol.NoSemicolon (s : Symbol) : Prop :=
  s.NamesFit fun x => !x.toList.contains ';'

instance (s : Symbol) : Decidable s.NoSemicolon :=
  inferInstanceAs (Decidable (s.NamesFit _))

theorem Name.ne_nil_of_isClassName {x : String} (h : isClassName x = true) : x.toList ≠ [] := by
  intro hnil
  simp [isClassName, isArray, hnil, segments, isUnqualifiedChars] at h

/-- A name can stand in a descriptor if it is put into a package that can, and could before. -/
theorem Name.delimited_inPackage {x package simple package' : String}
    (hsplit : splitPackage x = (some package, simple)) (hx : ';' ∉ x.toList)
    (hpackage : ';' ∉ package'.toList) :
    (inPackage package' simple).toList ≠ [] ∧ ';' ∉ (inPackage package' simple).toList := by
  have hsimple : ';' ∉ simple.toList := by
    rw [← splitPackage_join hsplit] at hx
    intro hmem
    exact hx (by simp [inPackage, hmem])
  constructor
  · simp [inPackage]
  · simp [inPackage, hpackage, hsimple]

namespace ClassRenames

variable {m : GroupedMappings} {t : ClassRenames} {d : Direction} {x y desc desc' : String}

/-- The new name of a class is one of the names of a class. -/
theorem fits_of_classes {rule : String → Bool} (h : ofMappings m = .ok t)
    (hfit : ∀ c ∈ m.classes, c.info.NamesFit rule)
    (hget : (t.renames d).classes.get? x = some y) : rule y = true := by
  cases d with
  | toMapped =>
    obtain ⟨c, hc, hnamed⟩ := (get?_iff h).1.1 hget
    exact ((hfit c hc).of_isNamed hnamed).2
  | toUnmapped =>
    obtain ⟨c, hc, hnamed⟩ := (get?_iff h).2.1 hget
    exact ((hfit c hc).of_isNamed hnamed).1

/-- The new name of a package is one of the names of a package. -/
theorem fits_of_packages {rule : String → Bool} (h : ofMappings m = .ok t)
    (hfit : ∀ p ∈ m.packages, p.NamesFit rule)
    (hget : (t.renames d).packages.get? x = some y) : rule y = true := by
  cases d with
  | toMapped =>
    obtain ⟨p, hp, hnamed⟩ := (packages_get?_iff h).1.1 hget
    exact ((hfit p hp).of_isNamed hnamed).2
  | toUnmapped =>
    obtain ⟨p, hp, hnamed⟩ := (packages_get?_iff h).2.1 hget
    exact ((hfit p hp).of_isNamed hnamed).1

/-- **What comes out for a class name can stand in a descriptor**, if the name could and the names
of the renames can. -/
theorem delimited_of_className
    (hclasses : ∀ x y, (t.renames d).classes.get? x = some y → y.toList ≠ [] ∧ ';' ∉ y.toList)
    (hpackages : ∀ x y, (t.renames d).packages.get? x = some y → ';' ∉ y.toList)
    (hx : x.toList ≠ [] ∧ ';' ∉ x.toList) (h : t.className d x = .ok y) :
    y.toList ≠ [] ∧ ';' ∉ y.toList := by
  cases harray : Name.isArray x with
  | true =>
    -- an array without a `;` is one of primitives, which keeps its name
    have hname := (exists_className_iff hx.2).1 ⟨y, h⟩ harray
    obtain rfl := Outcome.eq_of_eq_ok h (className_of_isArray harray hname hx.2)
    exact hx
  | false =>
    cases takes_of_className harray h with
    | ofClass hget => exact hclasses _ _ hget
    | ofPackage _ hsplit hget => exact Name.delimited_inPackage hsplit hx.2 (hpackages _ _ hget)
    | kept => exact hx

/-- **Valid mappings keep the shape of descriptors.**  If no class or package of a valid collection
is named like an array of classes, then the translation of a descriptor in either direction is a
descriptor of the same shape. -/
theorem descriptor_sameShape (hvalid : m.validate = .ok ()) (ht : ofMappings m = .ok t)
    (hclasses : ∀ c ∈ m.classes, c.info.NoSemicolon) (hpackages : ∀ p ∈ m.packages, p.NoSemicolon)
    (h : t.descriptor d desc = .ok desc') :
    Descriptor.check desc' = .ok () ∧ Descriptor.SameShape desc desc' := by
  have hclass : ∀ x y, (t.renames d).classes.get? x = some y →
      y.toList ≠ [] ∧ ';' ∉ y.toList := by
    intro x y hget
    have hnames : ∀ c ∈ m.classes, c.info.NamesFit Name.isClassName := fun c hc =>
      (MappedClass.validate_eq_ok_iff.1 (GroupedMappings.validate_of_mem hvalid hc).2).2.1
    refine ⟨Name.ne_nil_of_isClassName (fits_of_classes ht hnames hget), ?_⟩
    simpa using fits_of_classes ht hclasses hget
  have hpackage : ∀ x y, (t.renames d).packages.get? x = some y → ';' ∉ y.toList := by
    intro x y hget
    simpa using fits_of_packages ht hpackages hget
  rw [descriptor, Outcome.within_eq_ok_iff] at h
  have hshape := Descriptor.sameShape_of_renameClasses (fun x hx y hy =>
    delimited_of_className hclass hpackage (Descriptor.delimited_of_mentions hx) hy) h
  exact ⟨hshape.check.2, hshape⟩

/-! ### Names that fit into descriptors, and names that do not -/

/-- A class and a package. -/
def classAndPackage (mapped package : String) : GroupedMappings :=
  .ofParts none [.ofInfo (.ofNames (.paired "a" mapped))] [.ofNames (.paired "p" package)]

/-- A method that takes a class, an array of a class in the package and a primitive is translated
to one. -/
theorem sameShape_of_classAndPackage : (classAndPackage "b" "q").validate = .ok () ∧
    ∃ t desc', ofMappings (classAndPackage "b" "q") = .ok t ∧
      t.descriptor .toMapped "(La;[[Lp/C;I)V" = .ok desc' ∧
      Descriptor.check desc' = .ok () ∧ Descriptor.SameShape "(La;[[Lp/C;I)V" desc' := by
  have hvalid : (classAndPackage "b" "q").validate = .ok () := by decide +kernel
  have hread : (ofMappings (classAndPackage "b" "q") >>= fun t =>
      t.descriptor .toMapped "(La;[[Lp/C;I)V") = .ok "(Lb;[[Lq/C;I)V" := by decide +kernel
  obtain ⟨t, ht, hdesc⟩ := Outcome.bind_eq_ok_iff.1 hread
  exact ⟨hvalid, t, _, ht, hdesc,
    descriptor_sameShape hvalid ht (by decide +kernel) (by decide +kernel) hdesc⟩

/-- Two valid collections, in one of which a class is named like an array of classes, and in the
other one a package, each with a descriptor and what it is translated to. -/
def arrayNames : List (GroupedMappings × String × String) :=
  [(classAndPackage "[Lb;" "q", "La;", "L[Lb;;"), (classAndPackage "b" "[Lq;", "Lp/C;", "L[Lq;/C;")]

/-- What the descriptors are translated to is none. -/
theorem arrayNames_break : arrayNames.Forall fun e =>
    e.1.validate = .ok () ∧ Descriptor.check e.2.1 = .ok () ∧
    (∃ t, ofMappings e.1 = .ok t ∧ t.descriptor .toMapped e.2.1 = .ok e.2.2) ∧
    Descriptor.check e.2.2 ≠ .ok () ∧ ¬ Descriptor.SameShape e.2.1 e.2.2 := by
  have hvalid : ∀ e ∈ arrayNames, e.1.validate = .ok () ∧ Descriptor.check e.2.1 = .ok () := by
    decide +kernel
  have hdesc : ∀ e ∈ arrayNames, (ofMappings e.1 >>= fun t => t.descriptor .toMapped e.2.1) =
      .ok e.2.2 := by decide +kernel
  have hcheck : ∀ e ∈ arrayNames, Descriptor.check e.2.2 ≠ .ok () := by decide +kernel
  refine List.forall_iff_forall_mem.2 fun e he => ?_
  exact ⟨(hvalid e he).1, (hvalid e he).2, Outcome.bind_eq_ok_iff.1 (hdesc e he), hcheck e he,
    fun hshape => hcheck e he hshape.check.2⟩

end ClassRenames

end SymbolMap
