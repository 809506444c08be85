import SymbolMap.Proofs.Renamer.TranslationShape

/-!
# Descriptors translated there and back

The renames of the two directions have each other's entries turned round (`Renames.Inverse`).  Even
so, a name that is taken to the other side need not come back.  A name that belongs to no class can
be taken to the mapped name of a class, or have the mapped name of one from the start; and a name
that is kept can lie in a package that another package is renamed to.  `Inverse.back_iff` says that
nothing else can happen.

A descriptor comes back exactly if all class names in it do (`descriptor_back_iff`).
-/

namespace SymbolMap

/-! ## Plain names -/

namespace Name

/-- Can the text stand in a descriptor as the name of a class that is no array? -/
def isPlain (x : String) : Bool :=
  !x.toList.isEmpty && !x.toList.contains ';' && !isArray x

theorem isPlain_iff {x : String} :
    isPlain x = true ↔ (x.toList ≠ [] ∧ ';' ∉ x.toList) ∧ isArray x = false := by
  simp [isPlain]

/-- A name in a package begins as the package does. -/
theorem isArray_inPackage {package : String} (h : package.toList ≠ []) (simple : String) :
    isArray (inPackage package simple) = isArray package := by
  obtain ⟨c, cs, hchars⟩ := List.exists_cons_of_ne_nil h
  rw [isArray, isArray, inPackage, String.toList_append, String.toList_append, hchars]
  rfl

/-- A name in a plain package is plain if its simple name can stand in a descriptor. -/
theorem isPlain_inPackage {x package simple package' : String}
    (hsplit : splitPackage x = (some package, simple)) (hx : ';' ∉ x.toList)
    (hpackage : isPlain package' = true) : isPlain (inPackage package' simple) = true := by
  obtain ⟨⟨hne, hdelimited⟩, harray⟩ := isPlain_iff.1 hpackage
  refine isPlain_iff.2 ⟨delimited_inPackage hsplit hx hdelimited, ?_⟩
  rw [isArray_inPackage hne, harray]

end Name

/-! ## Names there and back -/

namespace Renames

variable {r r' : Renames} {x y z : String}

/-- A plain name is taken to a plain name, if the names of the renames are plain. -/
theorem Takes.isPlain (hclasses : ∀ x y, r.classes.get? x = some y → Name.isPlain y = true)
    (hpackages : ∀ x y, r.packages.get? x = some y → Name.isPlain y = true)
    (hx : Name.isPlain x = true) (h : r.Takes x y) : Name.isPlain y = true := by
  cases h with
  | ofClass hget => exact hclasses _ _ hget
  | ofPackage _ hsplit hget =>
    exact Name.isPlain_inPackage hsplit (Name.isPlain_iff.1 hx).1.2 (hpackages _ _ hget)
  | kept => exact hx

/-- Each has the entries of the other, turned round. -/
structure Inverse (r r' : Renames) : Prop where
  classes : ∀ x y, r.classes.get? x = some y ↔ r'.classes.get? y = some x
  packages : ∀ x y, r.packages.get? x = some y ↔ r'.packages.get? y = some x

/-- A name that belongs to no class is not what a class is taken back to. -/
theorem Inverse.ne_of_get? (h : r.Inverse r') (hx : r.classes.get? x = none)
    (hget : r'.classes.get? y = some z) : z ≠ x := by
  rintro rfl
  rw [(h.classes z y).2 hget] at hx
  cases hx

/-- **A name comes back** if it is that of a class; otherwise, if it is not taken to the new name of
a class, and its package is renamed or is not the new name of one. -/
theorem Inverse.back_iff (h : r.Inverse r') (hy : r.Takes x y) (hz : r'.Takes y z) :
    z = x ↔ r.classes.get? x ≠ none ∨ r'.classes.get? y = none ∧
      ∀ package simple, Name.splitPackage x = (some package, simple) →
        r.packages.get? package ≠ none ∨ r'.packages.get? package = none := by
  cases hy with
  | ofClass hget =>
    have hback : r'.Takes y x := .ofClass ((h.classes x y).1 hget)
    simp [hz.unique hback, hget]
  | @ofPackage package simple package' hclass hsplit hget =>
    cases hclass' : r'.classes.get? (Name.inPackage package' simple) with
    | some x' =>
      obtain rfl : z = x' := hz.unique (.ofClass hclass')
      simp [hclass, h.ne_of_get? hclass hclass']
    | none =>
      -- the simple name stays, so the package is the one it was renamed to
      have hsplit' : Name.splitPackage (Name.inPackage package' simple) = (some package', simple) :=
        Name.splitPackage_inPackage (Name.slash_not_mem_simple hsplit)
      have hback := Takes.ofPackage hclass' hsplit' ((h.packages package package').1 hget)
      rw [Name.splitPackage_join hsplit] at hback
      refine iff_of_true (hz.unique hback) (.inr ⟨rfl, fun package₀ simple₀ hsplit₀ => .inl ?_⟩)
      obtain ⟨hpackage, -⟩ := Prod.mk.inj (hsplit.symm.trans hsplit₀)
      rw [← Option.some.inj hpackage, hget]
      exact Option.some_ne_none _
  | kept hclass hpackage =>
    cases hz with
    | ofClass hclass' => simp [hclass, hclass', h.ne_of_get? hclass hclass']
    | @ofPackage package simple package' hclass' hsplit hget =>
      have hnone := hpackage package simple hsplit
      refine iff_of_false (fun hback => ?_) ?_
      · -- the package would be renamed to itself
        have hsplit' : Name.splitPackage (Name.inPackage package' simple) =
            (some package', simple) :=
          Name.splitPackage_inPackage (Name.slash_not_mem_simple hsplit)
        rw [hback, hsplit] at hsplit'
        obtain ⟨hpackage', -⟩ := Prod.mk.inj hsplit'
        obtain rfl := Option.some.inj hpackage'
        rw [(h.packages package package).2 hget] at hnone
        cases hnone
      · rintro (hrenamed | ⟨-, hkept⟩)
        · exact hrenamed hclass
        · rcases hkept package simple hsplit with hrenamed | hfree
          · exact hrenamed hnone
          · rw [hget] at hfree
            cases hfree
    | kept hclass' hpackage' =>
      exact iff_of_true rfl (.inr ⟨hclass', fun package simple hsplit =>
        .inr (hpackage' package simple hsplit)⟩)

end Renames

/-! ## Descriptors there and back -/

/-- The class name is that of a class, or it is not taken to the mapped name of a class and its
package is the unmapped name of a package or not the mapped name of one. -/
def GroupedMappings.ComesBack (m : GroupedMappings) (t : ClassRenames) (x : String) : Prop :=
  (∃ c ∈ m.classes, c.unmappedName = .ok x) ∨
    (∀ y, t.className .toMapped x = .ok y → ∀ c ∈ m.classes, c.mappedName ≠ .ok y) ∧
      ∀ package simple, Name.splitPackage x = (some package, simple) →
        (∃ p ∈ m.packages, p.unmappedName = .ok package) ∨
          ∀ p ∈ m.packages, p.mappedName ≠ .ok package

namespace ClassRenames

variable {m : GroupedMappings} {t : ClassRenames} {x desc : String}

theorem inverse_of_ofMappings (h : ofMappings m = .ok t) : t.toMapped.Inverse t.toUnmapped :=
  ⟨fun _ _ => (get?_iff h).1.trans (get?_iff h).2.symm,
    fun _ _ => (packages_get?_iff h).1.trans (packages_get?_iff h).2.symm⟩

section

variable (ht : ofMappings m = .ok t) (hclasses : ∀ c ∈ m.classes, c.info.NamesFit Name.isPlain)
  (hpackages : ∀ p ∈ m.packages, p.NamesFit Name.isPlain)

include ht hclasses hpackages

/-- A plain name has a plain name on the other side. -/
theorem exists_isPlain_className (d : Direction) (hx : Name.isPlain x = true) :
    ∃ y, t.className d x = .ok y ∧ (t.renames d).Takes x y ∧ Name.isPlain y = true := by
  have hclass := className_of_not_array t d (Name.isPlain_iff.1 hx).2
  have htakes := takes_of_className (Name.isPlain_iff.1 hx).2 hclass
  exact ⟨_, hclass, htakes, htakes.isPlain (fun _ _ => fits_of_classes ht hclasses)
    (fun _ _ => fits_of_packages ht hpackages) hx⟩

/-- A plain name comes back by the condition on its class and its package. -/
theorem exists_back (hx : Name.isPlain x = true) :
    ∃ y z, t.className .toMapped x = .ok y ∧ t.className .toUnmapped y = .ok z ∧
      Name.isPlain y = true ∧ Name.isPlain z = true ∧ (z = x ↔ m.ComesBack t x) := by
  obtain ⟨y, hy, hxy, hplain⟩ := exists_isPlain_className ht hclasses hpackages .toMapped hx
  obtain ⟨z, hz, hyz, hplain'⟩ := exists_isPlain_className ht hclasses hpackages .toUnmapped hplain
  refine ⟨y, z, hy, hz, hplain, hplain', ?_⟩
  have hclass : t.toMapped.classes.get? x ≠ none ↔ ∃ c ∈ m.classes, c.unmappedName = .ok x := by
    rw [ne_eq, (get?_eq_none_iff ht).1]
    simp
  have hpackage : ∀ package, t.toMapped.packages.get? package ≠ none ↔
      ∃ p ∈ m.packages, p.unmappedName = .ok package := by
    intro package
    rw [ne_eq, (packages_get?_eq_none_iff ht).1]
    simp
  rw [(inverse_of_ofMappings ht).back_iff hxy hyz, GroupedMappings.ComesBack, hclass,
    (get?_eq_none_iff ht).2]
  simp only [hpackage, (packages_get?_eq_none_iff ht).2, hy, Except.ok.injEq, forall_eq']

end

/-- **A descriptor comes back exactly if its class names do.**  Let the names of classes and
packages be plain.  A descriptor without names of arrays is taken to the mapped side, and what comes
out to the unmapped side, and this is the descriptor if and only if each class name in it is the
unmapped name of a class, or else is not taken to the mapped name of one and lies in a package that
is the unmapped name of a package, or not the mapped name of one, or in no package. -/
theorem descriptor_back_iff (ht : ofMappings m = .ok t)
    (hclasses : ∀ c ∈ m.classes, c.info.NamesFit Name.isPlain)
    (hpackages : ∀ p ∈ m.packages, p.NamesFit Name.isPlain)
    (hcheck : Descriptor.check desc = .ok ())
    (harray : ∀ x, Descriptor.Mentions desc x → Name.isArray x = false) :
    ∃ desc' desc'', t.descriptor .toMapped desc = .ok desc' ∧
      t.descriptor .toUnmapped desc' = .ok desc'' ∧
      (desc'' = desc ↔ ∀ x, Descriptor.Mentions desc x → m.ComesBack t x) := by
  obtain ⟨names, hnames⟩ := Descriptor.check_eq_ok_iff.1 hcheck
  have hback := fun x (hx : Descriptor.Mentions desc x) => exists_back ht hclasses hpackages
    (Name.isPlain_iff.2 ⟨Descriptor.delimited_of_mentions hx, harray x hx⟩)
  obtain ⟨desc', desc'', hdesc', hdesc'', hiff⟩ :=
    Descriptor.exists_renameClasses_back_iff hnames fun x hx => by
      obtain ⟨y, z, hy, hz, hplain, hplain', -⟩ := hback x ((Descriptor.mentions_iff hnames).2 hx)
      exact ⟨y, z, hy, hz, (Name.isPlain_iff.1 hplain).1, (Name.isPlain_iff.1 hplain').1.2⟩
  refine ⟨desc', desc'', Outcome.within_eq_ok_iff.2 hdesc', Outcome.within_eq_ok_iff.2 hdesc'',
    hiff.trans ?_⟩
  simp only [Descriptor.mentions_iff hnames] at hback ⊢
  refine forall₂_congr fun x hx => ?_
  obtain ⟨y, z, hy, hz, -, -, hreturns⟩ := hback x hx
  rw [hy, Outcome.ok_bind, hz, Except.ok.injEq, hreturns]

/-- A class, a class in the renamed package and a name that nothing changes come back; the mapped
name of the class does not. -/
theorem classAndPackage_back : ∃ t, ofMappings (classAndPackage "b" "q") = .ok t ∧
    (∃ desc', t.descriptor .toMapped "(La;Lp/C;)Lz;" = .ok desc' ∧
      t.descriptor .toUnmapped desc' = .ok "(La;Lp/C;)Lz;") ∧
    ∃ desc' desc'', t.descriptor .toMapped "Lb;" = .ok desc' ∧
      t.descriptor .toUnmapped desc' = .ok desc'' ∧ desc'' ≠ "Lb;" := by
  have hclasses : ∀ c ∈ (classAndPackage "b" "q").classes, c.info.NamesFit Name.isPlain := by
    decide +kernel
  have hpackages : ∀ p ∈ (classAndPackage "b" "q").packages, p.NamesFit Name.isPlain := by
    decide +kernel
  have hnames : ∀ e ∈ [("p/C", "q/C"), ("z", "z"), ("b", "b")],
      (ofMappings (classAndPackage "b" "q") >>= fun t => t.className .toMapped e.1) = .ok e.2 := by
    decide +kernel
  obtain ⟨t, ht⟩ : ∃ t, ofMappings (classAndPackage "b" "q") = .ok t :=
    Outcome.exists_eq_ok (by decide +kernel)
  simp only [ht, Outcome.ok_bind] at hnames
  refine ⟨t, ht, ?_, ?_⟩
  · have hread : Descriptor.classNames "(La;Lp/C;)Lz;" = .ok ["a", "p/C", "z"] := by decide +kernel
    have harray : ∀ x ∈ ["a", "p/C", "z"], Name.isArray x = false := by decide
    obtain ⟨desc', desc'', hdesc', hdesc'', hback⟩ := descriptor_back_iff ht hclasses hpackages
      (Descriptor.check_eq_ok_iff.2 ⟨_, hread⟩) fun x hx => harray x ((Descriptor.mentions_iff hread).1 hx)
    obtain rfl : desc'' = "(La;Lp/C;)Lz;" := hback.2 fun x hx => by
      simp only [Descriptor.mentions_iff hread, List.mem_cons, List.not_mem_nil, or_false] at hx
      rcases hx with rfl | rfl | rfl
      · exact .inl ⟨_, List.mem_singleton.2 rfl, rfl⟩
      · refine .inr ⟨fun y hy => ?_, fun package simple hsplit => .inl ?_⟩
        · obtain rfl := Outcome.eq_of_eq_ok hy (hnames ("p/C", "q/C") (by decide))
          decide +kernel
        · have hsplit' : Name.splitPackage "p/C" = (some "p", "C") := by decide +kernel
          obtain ⟨hpackage, -⟩ := Prod.mk.inj (hsplit'.symm.trans hsplit)
          obtain rfl := Option.some.inj hpackage
          exact ⟨_, List.mem_singleton.2 rfl, rfl⟩
      · refine .inr ⟨fun y hy => ?_, fun package simple hsplit => ?_⟩
        · obtain rfl := Outcome.eq_of_eq_ok hy (hnames ("z", "z") (by decide))
          decide +kernel
        · have hsplit' : Name.splitPackage "z" = (none, "z") := by decide +kernel
          cases hsplit'.symm.trans hsplit
    exact ⟨desc', hdesc', hdesc''⟩
  · have hread : Descriptor.classNames "Lb;" = .ok ["b"] := by decide +kernel
    have harray : ∀ x ∈ ["b"], Name.isArray x = false := by decide
    obtain ⟨desc', desc'', hdesc', hdesc'', hback⟩ := descriptor_back_iff ht hclasses hpackages
      (Descriptor.check_eq_ok_iff.2 ⟨_, hread⟩) fun x hx => harray x ((Descriptor.mentions_iff hread).1 hx)
    refine ⟨desc', desc'', hdesc', hdesc'', fun heq => ?_⟩
    rcases hback.1 heq "b" ⟨_, hread, by decide⟩ with ⟨c, hc, hname⟩ | ⟨hfree, -⟩
    · obtain rfl := List.mem_singleton.1 hc
      exact absurd (Except.ok.inj hname) (by decide)
    · exact hfree "b" (hnames ("b", "b") (by decide)) _ (List.mem_singleton.2 rfl) rfl

end ClassRenames

end SymbolMap
