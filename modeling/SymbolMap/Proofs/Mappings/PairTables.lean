import SymbolMap.Proofs.Outcomes
import SymbolMap.Renames

/-!
# Pairs of names in two tables

The class renames of a collection are tables for both directions, filled side by side.  When that
succeeds, the one table lists the pairs of names of the symbols in order, and the other one the same
pairs the other way round (`pairTables_eq_ok_iff`); that no name is repeated on either side is part
of what a table is.

It follows that the tables of the reversed symbols are the same two, exchanged
(`pairTables_swap`).  `ClassRenames.flip` exchanges the two directions of class renames.
-/

namespace SymbolMap

/-- The symbol has a pair of names. -/
def Symbol.IsNamed (s : Symbol) (pair : String × String) : Prop :=
  s.unmappedName = .ok pair.1 ∧ s.mappedName = .ok pair.2

theorem Symbol.IsNamed.unique {s : Symbol} {pair pair' : String × String} (h : s.IsNamed pair)
    (h' : s.IsNamed pair') : pair = pair' :=
  Prod.ext (Outcome.eq_of_eq_ok h.1 h'.1) (Outcome.eq_of_eq_ok h.2 h'.2)

/-- Enters the names of a symbol into two tables. -/
def enterPair (scope mappedScope : Scope) (tables : Table String String × Table String String)
    (s : Symbol) : Outcome (Table String String × Table String String) := do
  let unmapped ← s.unmappedName
  let mapped ← s.mappedName
  let toMapped ← tables.1.addNew scope unmapped mapped
  let toUnmapped ← tables.2.addNew mappedScope mapped unmapped
  return (toMapped, toUnmapped)

variable {scope mappedScope : Scope} {s : Symbol} {symbols : List Symbol}
  {t u t' u' : Table String String}

theorem pairTables_eq (scope mappedScope : Scope) (symbols : List Symbol) :
    pairTables scope mappedScope symbols =
      symbols.foldlM (enterPair scope mappedScope) (.empty, .empty) := rfl

/-- A key whose entry follows those of a table in a larger one is not in the table. -/
theorem Table.not_mem_keys_of_entries {β : Type} {t v : Table String β} {k : String} {x : β}
    {rest : List (String × β)} (h : v.entries = t.entries ++ (k, x) :: rest) : k ∉ t.keys := by
  have hnodup := v.nodup
  rw [h, List.map_append, List.map_cons, List.nodup_append] at hnodup
  intro hk
  exact hnodup.2.2 k hk k List.mem_cons_self rfl

/-- A table is filled with entries that are those of a table. -/
theorem indexOnto_of_entries {β : Type} {scope : Scope} {made : List (String × β)}
    {t u : Table String β} (h : u.entries = t.entries ++ made) :
    indexOnto scope t (made.map .ok) = .ok u := by
  induction made generalizing t with
  | nil =>
    rw [List.append_nil] at h
    exact congrArg Except.ok (Table.ext h.symm)
  | cons e made ih =>
    obtain ⟨k, v⟩ := e
    have hnew := Table.not_mem_keys_of_entries h
    rw [indexOnto, List.map_cons, List.foldlM_cons, Outcome.bind_eq_ok_iff]
    refine ⟨t.push k v hnew, ?_, ih (by simp [h, Table.push])⟩
    exact Table.addNew_eq_ok_iff.2 ⟨hnew, rfl⟩

/-- A symbol is entered if both of its names are new on their sides. -/
theorem enterPair_eq_ok_iff :
    enterPair scope mappedScope (t, u) s = .ok (t', u') ↔
      ∃ pair, s.IsNamed pair ∧ t'.entries = t.entries ++ [pair] ∧
        u'.entries = u.entries ++ [pair.swap] := by
  simp only [enterPair, Outcome.bind_eq_ok_iff]
  constructor
  · rintro ⟨unmapped, hu, mapped, hm, t₁, ht, u₁, hu₁, h⟩
    cases h
    obtain ⟨-, rfl⟩ := Table.addNew_eq_ok_iff.1 ht
    obtain ⟨-, rfl⟩ := Table.addNew_eq_ok_iff.1 hu₁
    exact ⟨(unmapped, mapped), ⟨hu, hm⟩, rfl, rfl⟩
  · rintro ⟨⟨unmapped, mapped⟩, ⟨hu, hm⟩, ht, hu'⟩
    have hnew := Table.not_mem_keys_of_entries ht
    have hnew' := Table.not_mem_keys_of_entries hu'
    exact ⟨unmapped, hu, mapped, hm, _, Table.addNew_eq_ok_iff.2 ⟨hnew, rfl⟩,
      _, Table.addNew_eq_ok_iff.2 ⟨hnew', rfl⟩,
      congrArg Except.ok (Prod.ext (Table.ext ht.symm) (Table.ext hu'.symm))⟩

theorem foldlM_enterPair_eq_ok_iff :
    symbols.foldlM (enterPair scope mappedScope) (t, u) = .ok (t', u') ↔
      ∃ pairs, List.Forall₂ Symbol.IsNamed symbols pairs ∧
        t'.entries = t.entries ++ pairs ∧ u'.entries = u.entries ++ pairs.map Prod.swap := by
  induction symbols generalizing t u with
  | nil =>
    rw [List.foldlM_nil]
    constructor
    · intro h
      cases h
      exact ⟨[], .nil, by simp, by simp⟩
    · rintro ⟨pairs, hpairs, ht, hu⟩
      obtain rfl := List.forall₂_nil_left_iff.1 hpairs
      rw [List.append_nil] at ht
      rw [List.map_nil, List.append_nil] at hu
      rw [Table.ext ht, Table.ext hu]
      rfl
  | cons s symbols ih =>
    rw [List.foldlM_cons, Outcome.bind_eq_ok_iff]
    constructor
    · rintro ⟨⟨t₁, u₁⟩, hs, hrest⟩
      obtain ⟨pair, hnamed, ht₁, hu₁⟩ := enterPair_eq_ok_iff.1 hs
      obtain ⟨pairs, hpairs, ht, hu⟩ := ih.1 hrest
      exact ⟨pair :: pairs, .cons hnamed hpairs, by simp [ht, ht₁], by simp [hu, hu₁]⟩
    · rintro ⟨pairs, hpairs, ht, hu⟩
      obtain ⟨⟨x, y⟩, pairs, hnamed, hrest, rfl⟩ := List.forall₂_cons_left_iff.1 hpairs
      -- the tables after the first symbol have its two names, which are new by what comes out
      have hnew := Table.not_mem_keys_of_entries ht
      have hnew' := Table.not_mem_keys_of_entries hu
      refine ⟨(t.push x y hnew, u.push y x hnew'), ?_, ?_⟩
      · exact enterPair_eq_ok_iff.2 ⟨(x, y), hnamed, rfl, rfl⟩
      · exact ih.2 ⟨pairs, hrest, by simp [ht, Table.push], by simp [hu, Table.push]⟩

/-- **Two tables are filled exactly with the pairs of names, one of them with the pairs turned
round.** -/
theorem pairTables_eq_ok_iff :
    pairTables scope mappedScope symbols = .ok (t, u) ↔
      ∃ pairs, List.Forall₂ Symbol.IsNamed symbols pairs ∧ t.entries = pairs ∧
        u.entries = pairs.map Prod.swap := by
  rw [pairTables_eq, foldlM_enterPair_eq_ok_iff]
  rfl

/-- The tables have the names of a symbol under each other. -/
theorem get?_of_pairTables (h : pairTables scope mappedScope symbols = .ok (t, u))
    {x y : String} :
    (t.get? x = some y ↔ ∃ s ∈ symbols, s.IsNamed (x, y)) ∧
      (u.get? y = some x ↔ ∃ s ∈ symbols, s.IsNamed (x, y)) := by
  obtain ⟨pairs, hpairs, ht, hu⟩ := pairTables_eq_ok_iff.1 h
  have hmem : (x, y) ∈ pairs ↔ ∃ s ∈ symbols, s.IsNamed (x, y) := by
    constructor
    · intro hpair
      exact exists_left_of_forall₂ hpairs hpair
    · rintro ⟨s, hs, hnamed⟩
      obtain ⟨pair, hpair, hnamed'⟩ := exists_right_of_forall₂ hpairs hs
      obtain rfl := hnamed'.unique hnamed
      exact hpair
  rw [Table.get?_eq_some_iff, Table.get?_eq_some_iff, ht, hu, ← hmem]
  refine ⟨Iff.rfl, ?_⟩
  rw [List.mem_map]
  constructor
  · rintro ⟨⟨x', y'⟩, hpair, heq⟩
    obtain ⟨rfl, rfl⟩ := Prod.mk.inj heq
    exact hpair
  · intro hpair
    exact ⟨(x, y), hpair, rfl⟩

/-- A name without an entry is that of no symbol on its side. -/
theorem get?_eq_none_iff_of_pairTables (h : pairTables scope mappedScope symbols = .ok (t, u))
    {x : String} :
    (t.get? x = none ↔ ∀ s ∈ symbols, s.unmappedName ≠ .ok x) ∧
      (u.get? x = none ↔ ∀ s ∈ symbols, s.mappedName ≠ .ok x) := by
  obtain ⟨pairs, hpairs, -⟩ := pairTables_eq_ok_iff.1 h
  simp only [Option.eq_none_iff_forall_ne_some, ne_eq, (get?_of_pairTables h).1,
    (get?_of_pairTables h).2]
  constructor
  · constructor
    · intro hnone s hs hx
      obtain ⟨⟨x', y⟩, -, hnamed⟩ := exists_right_of_forall₂ hpairs hs
      obtain rfl : x' = x := Outcome.eq_of_eq_ok hnamed.1 hx
      exact hnone y ⟨s, hs, hnamed⟩
    · rintro hnone y ⟨s, hs, hnamed⟩
      exact hnone s hs hnamed.1
  · constructor
    · intro hnone s hs hx
      obtain ⟨⟨y, x'⟩, -, hnamed⟩ := exists_right_of_forall₂ hpairs hs
      obtain rfl : x' = x := Outcome.eq_of_eq_ok hnamed.2 hx
      exact hnone y ⟨s, hs, hnamed⟩
    · rintro hnone y ⟨s, hs, hnamed⟩
      exact hnone s hs hnamed.2

/-! ## The other way round -/

/-- The tables of symbols with exchanged names are exchanged. -/
theorem pairTables_swap {symbols' : List Symbol} {scope' mappedScope' : Scope}
    (h : pairTables scope mappedScope symbols = .ok (t, u))
    (hswap : List.Forall₂ (fun s s' => ∀ pair, s.IsNamed pair → s'.IsNamed pair.swap)
      symbols symbols') :
    pairTables scope' mappedScope' symbols' = .ok (u, t) := by
  obtain ⟨pairs, hpairs, ht, hu⟩ := pairTables_eq_ok_iff.1 h
  refine pairTables_eq_ok_iff.2 ⟨pairs.map Prod.swap, ?_, hu, by simp [ht]⟩
  rw [List.forall₂_map_right_iff]
  exact forall₂_comp (List.Forall₂.flip hswap) hpairs fun s' s pair hs hnamed => hs pair hnamed

namespace ClassRenames

/-- The renames with their directions exchanged. -/
def flip (t : ClassRenames) : ClassRenames :=
  ⟨t.toUnmapped, t.toMapped⟩

@[simp] theorem flip_flip (t : ClassRenames) : t.flip.flip = t := rfl

@[simp] theorem lookup_flip (t : ClassRenames) (d : Direction) (name : String) :
    t.flip.lookup d name = t.lookup d.flip name := by
  cases d <;> rfl

theorem ofMappings_eq_ok_iff {m : GroupedMappings} {t : ClassRenames} :
    ofMappings m = .ok t ↔ m.isPaired = true ∧
      pairTables .className .mappedClassName (m.classes.map MappedClass.info) =
        .ok (t.toMapped.classes, t.toUnmapped.classes) ∧
      pairTables .package .mappedPackage m.packages =
        .ok (t.toMapped.packages, t.toUnmapped.packages) := by
  rw [ofMappings]
  by_cases hpaired : m.isPaired = true
  · simp only [hpaired, if_true, true_and]
    constructor
    · intro h
      obtain ⟨⟨classes, classesBack⟩, hclasses, h⟩ := Outcome.bind_eq_ok_iff.1 h
      obtain ⟨⟨packages, packagesBack⟩, hpackages, h⟩ := Outcome.bind_eq_ok_iff.1 h
      cases h
      exact ⟨hclasses, hpackages⟩
    · rintro ⟨hclasses, hpackages⟩
      refine Outcome.bind_eq_ok_iff.2 ⟨_, hclasses, ?_⟩
      exact Outcome.bind_eq_ok_iff.2 ⟨_, hpackages, rfl⟩
  · rw [if_neg hpaired]
    exact ⟨fun h => (nomatch h), fun h => absurd h.1 hpaired⟩

variable {m : GroupedMappings} {t : ClassRenames} {x y : String}

/-- A class is renamed in either direction between its names. -/
theorem get?_iff (h : ofMappings m = .ok t) :
    (t.toMapped.classes.get? x = some y ↔ ∃ c ∈ m.classes, c.info.IsNamed (x, y)) ∧
      (t.toUnmapped.classes.get? y = some x ↔ ∃ c ∈ m.classes, c.info.IsNamed (x, y)) := by
  obtain ⟨-, htables, -⟩ := ofMappings_eq_ok_iff.1 h
  simpa using get?_of_pairTables htables

/-- A package is renamed in either direction between its names. -/
theorem packages_get?_iff (h : ofMappings m = .ok t) :
    (t.toMapped.packages.get? x = some y ↔ ∃ p ∈ m.packages, p.IsNamed (x, y)) ∧
      (t.toUnmapped.packages.get? y = some x ↔ ∃ p ∈ m.packages, p.IsNamed (x, y)) := by
  obtain ⟨-, -, htables⟩ := ofMappings_eq_ok_iff.1 h
  exact get?_of_pairTables htables

/-- A name that is not renamed as a class is that of no class. -/
theorem get?_eq_none_iff (h : ofMappings m = .ok t) :
    (t.toMapped.classes.get? x = none ↔ ∀ c ∈ m.classes, c.unmappedName ≠ .ok x) ∧
      (t.toUnmapped.classes.get? x = none ↔ ∀ c ∈ m.classes, c.mappedName ≠ .ok x) := by
  obtain ⟨-, htables, -⟩ := ofMappings_eq_ok_iff.1 h
  have hnone := get?_eq_none_iff_of_pairTables htables (x := x)
  simp only [List.forall_mem_map] at hnone
  exact hnone

/-- A name that is not renamed as a package is that of no package. -/
theorem packages_get?_eq_none_iff (h : ofMappings m = .ok t) :
    (t.toMapped.packages.get? x = none ↔ ∀ p ∈ m.packages, p.unmappedName ≠ .ok x) ∧
      (t.toUnmapped.packages.get? x = none ↔ ∀ p ∈ m.packages, p.mappedName ≠ .ok x) := by
  obtain ⟨-, -, htables⟩ := ofMappings_eq_ok_iff.1 h
  exact get?_eq_none_iff_of_pairTables htables

/-- The name of a class is its name on the other side. -/
theorem className_toMapped (h : ofMappings m = .ok t) {c : MappedClass} (hc : c ∈ m.classes)
    (hnamed : c.info.IsNamed (x, y)) (harray : Name.isArray x = false) :
    t.className .toMapped x = .ok y := by
  rw [className_of_not_array t _ harray, lookup, renames, Renames.lookup,
    (get?_iff h).1.2 ⟨c, hc, hnamed⟩]
  rfl

theorem className_toUnmapped (h : ofMappings m = .ok t) {c : MappedClass} (hc : c ∈ m.classes)
    (hnamed : c.info.IsNamed (x, y)) (harray : Name.isArray y = false) :
    t.className .toUnmapped y = .ok x := by
  rw [className_of_not_array t _ harray, lookup, renames, Renames.lookup,
    (get?_iff h).2.2 ⟨c, hc, hnamed⟩]
  rfl

end ClassRenames

end SymbolMap
