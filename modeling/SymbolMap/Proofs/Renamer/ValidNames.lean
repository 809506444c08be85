import SymbolMap.Proofs.Renamer.Chained
import SymbolMap.Proofs.Renamer.TranslationBack

/-!
# Valid class names

A class name is valid if all its pieces between slashes are unqualified names.  A package is renamed
by dividing a name at its last slash only, and the new package may have any number of pieces.  The
pieces of the new name are those of the new package and the simple name (`segments_inPackage`), so
it is valid where the old name and the new package are.

What class renames give for a valid name is therefore valid in either direction, if the names of the
collection are (`className_stays_valid`).  The names of a valid collection are, but they may be
those of arrays, which are valid in a way of their own; these are left out.
-/

namespace SymbolMap

namespace Name

/-- The pieces of two texts with a slash between them are the pieces of both. -/
theorem segments_append_slash (as bs : List Char) :
    segments (as ++ '/' :: bs) = segments as ++ segments bs := by
  induction as with
  | nil => rfl
  | cons c cs ih =>
    rw [List.cons_append, segments, segments, ih]
    by_cases hslash : c = '/'
    · rw [if_pos hslash, if_pos hslash, List.cons_append]
    · obtain ⟨s, ss, hsegments⟩ := List.exists_cons_of_ne_nil (segments_ne_nil cs)
      rw [if_neg hslash, if_neg hslash, hsegments]
      rfl

theorem segments_inPackage (package simple : String) :
    segments (inPackage package simple).toList =
      segments package.toList ++ segments simple.toList := by
  rw [← segments_append_slash]
  simp [inPackage]

/-- A valid name stays valid in another package that has a valid name. -/
theorem isClassName_inPackage {x package simple package' : String}
    (hsplit : splitPackage x = (some package, simple)) (hx : isArray x = false)
    (hname : isClassName x = true) (hpackage : isArray package' = false)
    (hname' : isClassName package' = true) :
    isArray (inPackage package' simple) = false ∧
      isClassName (inPackage package' simple) = true := by
  have harray : isArray (inPackage package' simple) = false := by
    rw [isArray_inPackage (ne_nil_of_isClassName hname'), hpackage]
  refine ⟨harray, ?_⟩
  rw [isClassName_iff_segments hx, ← splitPackage_join hsplit, segments_inPackage] at hname
  rw [isClassName_iff_segments hpackage] at hname'
  rw [isClassName_iff_segments harray, segments_inPackage]
  intro s hs
  rcases List.mem_append.1 hs with hs | hs
  · exact hname' s hs
  · exact hname s (List.mem_append_right _ hs)

end Name

/-- A valid name is taken to a valid name, if the names of the renames are valid. -/
theorem Renames.Takes.isClassName {r : Renames} {x y : String}
    (hclasses : ∀ x y, r.classes.get? x = some y →
      Name.isArray y = false ∧ Name.isClassName y = true)
    (hpackages : ∀ x y, r.packages.get? x = some y →
      Name.isArray y = false ∧ Name.isClassName y = true)
    (harray : Name.isArray x = false) (hname : Name.isClassName x = true) (h : r.Takes x y) :
    Name.isArray y = false ∧ Name.isClassName y = true := by
  cases h with
  | ofClass hget => exact hclasses _ _ hget
  | ofPackage _ hsplit hget =>
    obtain ⟨harray', hname'⟩ := hpackages _ _ hget
    exact Name.isClassName_inPackage hsplit harray hname harray' hname'
  | kept => exact ⟨harray, hname⟩

namespace ClassRenames

/-- **Valid names have valid names on the other side.**  Let no class or package of a valid
collection be named like an array.  Then every valid name of a class that is no array has a name on
either side, and that is valid and no array's: the other name of the class, the name in the renamed
package, or the name itself.  Where it comes from a package, the simple name stays and all that
stands before the last slash is replaced. -/
theorem className_stays_valid {m : GroupedMappings} {t : ClassRenames}
    (hvalid : m.validate = .ok ()) (ht : ofMappings m = .ok t)
    (hclasses : ∀ c ∈ m.classes, c.info.NoArray) (hpackages : ∀ p ∈ m.packages, p.NoArray)
    {x : String} (harray : Name.isArray x = false) (hname : Name.isClassName x = true)
    (d : Direction) :
    ∃ y, t.className d x = .ok y ∧ Name.isArray y = false ∧ Name.isClassName y = true ∧
      (t.renames d).Takes x y ∧
      ∀ package simple package', (t.renames d).classes.get? x = none →
        Name.splitPackage x = (some package, simple) →
        (t.renames d).packages.get? package = some package' →
        x = package ++ "/" ++ simple ∧ '/' ∉ simple.toList ∧ y = package' ++ "/" ++ simple := by
  have hclass : ∀ x y, (t.renames d).classes.get? x = some y →
      Name.isArray y = false ∧ Name.isClassName y = true := by
    intro x y hget
    have hnames : ∀ c ∈ m.classes, c.info.NamesFit Name.isClassName := fun c hc =>
      (MappedClass.validate_eq_ok_iff.1 (GroupedMappings.validate_of_mem hvalid hc).2).2.1
    exact ⟨by simpa using fits_of_classes ht hclasses hget, fits_of_classes ht hnames hget⟩
  have hpackage : ∀ x y, (t.renames d).packages.get? x = some y →
      Name.isArray y = false ∧ Name.isClassName y = true := by
    intro x y hget
    have hnames : ∀ p ∈ m.packages, p.NamesFit Name.isClassName := fun p hp =>
      ((GroupedMappings.validate_eq_ok_iff.1 hvalid).2.1 p hp).2.2
    exact ⟨by simpa using fits_of_packages ht hpackages hget, fits_of_packages ht hnames hget⟩
  have htakes := (t.renames d).takes_lookup x
  obtain ⟨harray', hname'⟩ := htakes.isClassName hclass hpackage harray hname
  refine ⟨_, className_of_takes harray htakes, harray', hname', htakes, ?_⟩
  intro package simple package' hnone hsplit hget
  exact ⟨(Name.splitPackage_join hsplit).symm, Name.slash_not_mem_simple hsplit,
    htakes.unique (.ofPackage hnone hsplit hget)⟩

/-! ### A package with more pieces -/

/-- A class goes to a package with more pieces than its own, and another one comes back from
there. -/
theorem nestedPackage_stays_valid : (classAndPackage "b" "q/ü").validate = .ok () ∧
    ∃ t, ofMappings (classAndPackage "b" "q/ü") = .ok t ∧
      (t.className .toMapped "p/C" = .ok ("q/ü" ++ "/" ++ "C") ∧
        Name.isClassName ("q/ü" ++ "/" ++ "C") = true) ∧
      t.className .toUnmapped "q/ü/D$1" = .ok ("p" ++ "/" ++ "D$1") ∧
        Name.isClassName ("p" ++ "/" ++ "D$1") = true := by
  have hvalid : (classAndPackage "b" "q/ü").validate = .ok () := by decide +kernel
  have built : ofMappings (classAndPackage "b" "q/ü") = .ok _ := rfl
  refine ⟨hvalid, _, built, ?_, ?_⟩
  · obtain ⟨y, hy, -, hname, -, hpart⟩ := className_stays_valid hvalid built (by decide +kernel)
      (by decide +kernel) (x := "p/C") (by decide) (by decide) .toMapped
    obtain ⟨-, -, rfl⟩ := hpart "p" "C" "q/ü" rfl (by decide) rfl
    exact ⟨hy, hname⟩
  · obtain ⟨y, hy, -, hname, -, hpart⟩ := className_stays_valid hvalid built (by decide +kernel)
      (by decide +kernel) (x := "q/ü/D$1") (by decide) (by decide) .toUnmapped
    obtain ⟨-, -, rfl⟩ := hpart "q/ü" "D$1" "p" rfl (by decide) rfl
    exact ⟨hy, hname⟩

end ClassRenames

end SymbolMap
