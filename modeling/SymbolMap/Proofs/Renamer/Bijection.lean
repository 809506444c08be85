import SymbolMap.Proofs.Renamer.Readiness

/-!
# Class renames as bijections

The classes of a collection are renamed between two lists of names that stand against each other one
by one, and so are its packages.  The renames are built exactly if no name is repeated on its side
(`NamesDistinct`); that a name occurs on both sides does no harm.  The tables for the two directions
are then inverse to each other and list the pairs in order (`InverseTables`), and a class has its
own new name even if its package is renamed.

The two tables are filled side by side, so what is reported is the first repetition in order, on the
unmapped side if there is one on both (`FirstRepetition`).  The step lemma for one symbol is
`repeats_of_enterPair`; `firstRepetition_of_foldlM` follows the run through the list.
-/

namespace SymbolMap

/-- No name is repeated on its side. -/
def NamesDistinct (pairs : List (String × String)) : Prop :=
  (pairs.map Prod.fst).Nodup ∧ (pairs.map Prod.snd).Nodup

/-- A pair repeats a name of those before it.  The failure reports the unmapped name, or the mapped
one if the unmapped name is new. -/
inductive Repeats (scope mappedScope : Scope) (before : List (String × String))
    (pair : String × String) : Failure → Prop
  | unmapped (h : pair.1 ∈ before.map Prod.fst) :
      Repeats scope mappedScope before pair (.of (.duplicate scope pair.1))
  | mapped (hnew : pair.1 ∉ before.map Prod.fst) (h : pair.2 ∈ before.map Prod.snd) :
      Repeats scope mappedScope before pair (.of (.duplicate mappedScope pair.2))

/-- The failure reports the first pair that repeats a name. -/
def FirstRepetition (scope mappedScope : Scope) (pairs : List (String × String)) (f : Failure) :
    Prop :=
  ∃ before pair after, pairs = before ++ pair :: after ∧ NamesDistinct before ∧
    Repeats scope mappedScope before pair f

/-- The tables list the pairs in order, one of them turned round, and are inverse to each other. -/
structure InverseTables (pairs : List (String × String)) (t u : Table String String) : Prop where
  entries : t.entries = pairs
  entriesBack : u.entries = pairs.map Prod.swap
  inverse : ∀ x y, t.get? x = some y ↔ u.get? y = some x

variable {scope mappedScope : Scope} {symbols : List Symbol} {pairs : List (String × String)}
  {t u : Table String String} {f : Failure}

/-! ## The names of symbols -/

theorem eq_of_isNamed {pairs' : List (String × String)}
    (h : List.Forall₂ Symbol.IsNamed symbols pairs)
    (h' : List.Forall₂ Symbol.IsNamed symbols pairs') : pairs = pairs' :=
  List.right_unique_forall₂' (fun _ _ _ hpair hpair' => hpair.unique hpair') h h'

theorem exists_isNamed_of_isPaired (h : ∀ s ∈ symbols, s.names.isPaired = true) :
    ∃ pairs, List.Forall₂ Symbol.IsNamed symbols pairs := by
  induction symbols with
  | nil => exact ⟨[], .nil⟩
  | cons s symbols ih =>
    obtain ⟨pair, hpair⟩ := Symbol.exists_isNamed_of_isPaired (h s List.mem_cons_self)
    obtain ⟨pairs, hpairs⟩ := ih fun s' hs' => h s' (List.mem_cons_of_mem s hs')
    exact ⟨pair :: pairs, .cons hpair hpairs⟩

theorem map_fst_map_swap (pairs : List (String × String)) :
    (pairs.map Prod.swap).map Prod.fst = pairs.map Prod.snd := by
  simp

/-! ## Tables that are filled -/

/-- The names in two tables of the same pairs are distinct. -/
theorem namesDistinct_of_entries (ht : t.entries = pairs) (hu : u.entries = pairs.map Prod.swap) :
    NamesDistinct pairs := by
  refine ⟨ht ▸ t.nodup, ?_⟩
  rw [← map_fst_map_swap, ← hu]
  exact u.nodup

/-- **Two tables are filled if and only if no name is repeated on its side.** -/
theorem exists_pairTables_iff (hnamed : List.Forall₂ Symbol.IsNamed symbols pairs) :
    (∃ tables, pairTables scope mappedScope symbols = .ok tables) ↔ NamesDistinct pairs := by
  constructor
  · rintro ⟨⟨t, u⟩, h⟩
    obtain ⟨pairs', hnamed', ht, hu⟩ := pairTables_eq_ok_iff.1 h
    obtain rfl := eq_of_isNamed hnamed hnamed'
    exact namesDistinct_of_entries ht hu
  · rintro ⟨hunmapped, hmapped⟩
    rw [← map_fst_map_swap] at hmapped
    exact ⟨(⟨pairs, hunmapped⟩, ⟨pairs.map Prod.swap, hmapped⟩),
      pairTables_eq_ok_iff.2 ⟨pairs, hnamed, rfl, rfl⟩⟩

theorem inverseTables_of_pairTables (hnamed : List.Forall₂ Symbol.IsNamed symbols pairs)
    (h : pairTables scope mappedScope symbols = .ok (t, u)) : InverseTables pairs t u := by
  obtain ⟨pairs', hnamed', ht, hu⟩ := pairTables_eq_ok_iff.1 h
  obtain rfl := eq_of_isNamed hnamed hnamed'
  refine ⟨ht, hu, fun x y => ?_⟩
  rw [(get?_of_pairTables h).1, (get?_of_pairTables h).2]

/-! ## Tables that are not filled -/

/-- A symbol that is not entered repeats a name that is in its table. -/
theorem repeats_of_enterPair {s : Symbol} {pair : String × String} (hnamed : s.IsNamed pair)
    (ht : t.entries = pairs) (hu : u.entries = pairs.map Prod.swap)
    (h : enterPair scope mappedScope (t, u) s = .error f) :
    Repeats scope mappedScope pairs pair f := by
  have hkeys : t.keys = pairs.map Prod.fst := by rw [Table.keys, ht]
  have hkeys' : u.keys = pairs.map Prod.snd := by rw [Table.keys, hu, map_fst_map_swap]
  simp only [enterPair, hnamed.1, hnamed.2, Outcome.ok_bind] at h
  rcases Outcome.bind_eq_error_iff.1 h with h | ⟨t', ht', h⟩
  · obtain ⟨hmem, rfl⟩ := Table.addNew_eq_error_iff.1 h
    exact .unmapped (hkeys ▸ hmem)
  · obtain ⟨hnew, -⟩ := Table.addNew_eq_ok_iff.1 ht'
    rcases Outcome.bind_eq_error_iff.1 h with h | ⟨u', -, h⟩
    · obtain ⟨hmem, rfl⟩ := Table.addNew_eq_error_iff.1 h
      exact .mapped (hkeys ▸ hnew) (hkeys' ▸ hmem)
    · cases h

/-- A run through symbols that fails after some pairs have been entered reports the first of the
rest that repeats a name. -/
theorem firstRepetition_of_foldlM {entered : List (String × String)}
    (hnamed : List.Forall₂ Symbol.IsNamed symbols pairs)
    (ht : t.entries = entered) (hu : u.entries = entered.map Prod.swap)
    (h : symbols.foldlM (enterPair scope mappedScope) (t, u) = .error f) :
    ∃ before pair after, pairs = before ++ pair :: after ∧ NamesDistinct (entered ++ before) ∧
      Repeats scope mappedScope (entered ++ before) pair f := by
  induction hnamed generalizing t u entered with
  | nil => cases h
  | @cons s pair symbols pairs hpair _ ih =>
    rw [List.foldlM_cons] at h
    rcases Outcome.bind_eq_error_iff.1 h with h | ⟨⟨t', u'⟩, hstep, h⟩
    · -- the first symbol is the one that is not entered
      refine ⟨[], pair, pairs, rfl, ?_⟩
      rw [List.append_nil]
      exact ⟨namesDistinct_of_entries ht hu, repeats_of_enterPair hpair ht hu h⟩
    · obtain ⟨pair', hpair', ht', hu'⟩ := enterPair_eq_ok_iff.1 hstep
      obtain rfl := hpair'.unique hpair
      obtain ⟨before, last, after, rfl, hdistinct, hrepeats⟩ :=
        ih (ht'.trans (by rw [ht])) (hu'.trans (by simp [hu])) h
      rw [List.append_assoc, List.singleton_append] at hdistinct hrepeats
      exact ⟨pair' :: before, last, after, rfl, hdistinct, hrepeats⟩

/-- **Two tables that are not filled report the first repetition.** -/
theorem firstRepetition_of_pairTables (hnamed : List.Forall₂ Symbol.IsNamed symbols pairs)
    (h : pairTables scope mappedScope symbols = .error f) :
    FirstRepetition scope mappedScope pairs f :=
  firstRepetition_of_foldlM hnamed rfl rfl h

/-! ## Classes and packages -/

namespace ClassRenames

variable {m : GroupedMappings}

/-- Renames that are not built fail in the tables of the classes, or after these in those of the
packages. -/
theorem pairTables_of_ofMappings_eq_error (hpaired : m.isPaired = true)
    (h : ofMappings m = .error f) :
    pairTables .className .mappedClassName (m.classes.map MappedClass.info) = .error f ∨
      (∃ tables, pairTables .className .mappedClassName (m.classes.map MappedClass.info) =
        .ok tables) ∧ pairTables .package .mappedPackage m.packages = .error f := by
  rw [ofMappings, if_pos hpaired] at h
  rcases Outcome.bind_eq_error_iff.1 h with h | ⟨tables, htables, h⟩
  · exact .inl h
  · rcases Outcome.bind_eq_error_iff.1 h with h | ⟨_, -, h⟩
    · exact .inr ⟨⟨tables, htables⟩, h⟩
    · cases h

/-- **Class renames are bijections or are not built.**  Let a collection and all its classes and
packages be named by pairs.  The renames are built if and only if no unmapped name and no mapped
name of a class is repeated, and none of a package.  The tables of the two directions are then
inverse to each other with exactly the pairs of names, in order, and a class that is not named like
an array has its other name, whatever packages are renamed.  Otherwise what is reported is the first
class that repeats an unmapped name or, failing that, a mapped one; or the first such package, if no
class does. -/
theorem ofMappings_bijection (hpaired : m.isPaired = true)
    (hclasses : ∀ c ∈ m.classes, c.info.names.isPaired = true)
    (hpackages : ∀ p ∈ m.packages, p.names.isPaired = true) :
    ∃ classes packages : List (String × String),
      List.Forall₂ Symbol.IsNamed (m.classes.map MappedClass.info) classes ∧
      List.Forall₂ Symbol.IsNamed m.packages packages ∧
      ((∃ t, ofMappings m = .ok t) ↔ NamesDistinct classes ∧ NamesDistinct packages) ∧
      (∀ t, ofMappings m = .ok t →
        InverseTables classes t.toMapped.classes t.toUnmapped.classes ∧
        InverseTables packages t.toMapped.packages t.toUnmapped.packages ∧
        ∀ x y, (x, y) ∈ classes →
          (Name.isArray x = false → t.className .toMapped x = .ok y) ∧
          (Name.isArray y = false → t.className .toUnmapped y = .ok x)) ∧
      ∀ f, ofMappings m = .error f →
        FirstRepetition .className .mappedClassName classes f ∨
          NamesDistinct classes ∧ FirstRepetition .package .mappedPackage packages f := by
  have hinfos : ∀ s ∈ m.classes.map MappedClass.info, s.names.isPaired = true :=
    List.forall_mem_map.2 hclasses
  obtain ⟨classes, hnamed⟩ := exists_isNamed_of_isPaired hinfos
  obtain ⟨packages, hnamed'⟩ := exists_isNamed_of_isPaired hpackages
  refine ⟨classes, packages, hnamed, hnamed', ⟨?_, ?_⟩, fun t ht => ?_, fun f hf => ?_⟩
  · rintro ⟨t, ht⟩
    obtain ⟨-, htables, htables'⟩ := ofMappings_eq_ok_iff.1 ht
    exact ⟨(exists_pairTables_iff hnamed).1 ⟨_, htables⟩,
      (exists_pairTables_iff hnamed').1 ⟨_, htables'⟩⟩
  · rintro ⟨hdistinct, hdistinct'⟩
    obtain ⟨⟨toMapped, toUnmapped⟩, htables⟩ := (exists_pairTables_iff hnamed).2 hdistinct
    obtain ⟨⟨toMapped', toUnmapped'⟩, htables'⟩ := (exists_pairTables_iff hnamed').2 hdistinct'
    exact ⟨⟨⟨toMapped, toMapped'⟩, ⟨toUnmapped, toUnmapped'⟩⟩,
      ofMappings_eq_ok_iff.2 ⟨hpaired, htables, htables'⟩⟩
  · obtain ⟨-, htables, htables'⟩ := ofMappings_eq_ok_iff.1 ht
    refine ⟨inverseTables_of_pairTables hnamed htables,
      inverseTables_of_pairTables hnamed' htables', fun x y hxy => ?_⟩
    obtain ⟨s, hs, hpair⟩ := exists_left_of_forall₂ hnamed hxy
    obtain ⟨c, hc, rfl⟩ := List.mem_map.1 hs
    exact ⟨className_toMapped ht hc hpair, className_toUnmapped ht hc hpair⟩
  · rcases pairTables_of_ofMappings_eq_error hpaired hf with hfails | ⟨hfilled, hfails⟩
    · exact .inl (firstRepetition_of_pairTables hnamed hfails)
    · exact .inr ⟨(exists_pairTables_iff hnamed).1 hfilled,
        firstRepetition_of_pairTables hnamed' hfails⟩

/-! ### Names that are swapped and a name that is repeated -/

/-- Two classes that swap their names, in a package that is renamed. -/
def swappedNames : GroupedMappings :=
  .ofParts none [.ofInfo (.ofNames (.paired "p/A" "p/B")), .ofInfo (.ofNames (.paired "p/B" "p/A"))]
    [.ofNames (.paired "p" "q")]

/-- Classes of which the last repeats a name of each of the others, and a package that is there
twice. -/
def repeatedNames : GroupedMappings :=
  .ofParts none
    [.ofInfo (.ofNames (.paired "a" "x")), .ofInfo (.ofNames (.paired "b" "y")),
      .ofInfo (.ofNames (.paired "b" "x"))]
    [.ofNames (.paired "p" "q"), .ofNames (.paired "p" "q")]

/-- The swapped names are renamed to each other and back.  Of the repeated names, the unmapped one
of the last class is reported. -/
theorem swappedNames_bijection :
    (∃ t, ofMappings swappedNames = .ok t ∧
      (∀ x y, t.toMapped.classes.get? x = some y ↔ t.toUnmapped.classes.get? y = some x) ∧
      t.className .toMapped "p/A" = .ok "p/B" ∧ t.className .toUnmapped "p/B" = .ok "p/A") ∧
    ∃ f, ofMappings repeatedNames = .error f ∧
      FirstRepetition .className .mappedClassName [("a", "x"), ("b", "y"), ("b", "x")] f := by
  refine ⟨⟨_, rfl, ?_⟩, ⟨.of (.duplicate .className "b"), rfl, ?_⟩⟩
  · obtain ⟨classes, packages, hnamed, -, -, htables, -⟩ :=
      ofMappings_bijection (m := swappedNames) rfl (by decide) (by decide)
    obtain ⟨hinverse, -, hnames⟩ := htables _ rfl
    obtain rfl : classes = [("p/A", "p/B"), ("p/B", "p/A")] :=
      eq_of_isNamed hnamed (.cons ⟨rfl, rfl⟩ (.cons ⟨rfl, rfl⟩ .nil))
    obtain ⟨hmapped, hunmapped⟩ := hnames "p/A" "p/B" List.mem_cons_self
    exact ⟨hinverse.inverse, hmapped (by decide), hunmapped (by decide)⟩
  · obtain ⟨classes, packages, hnamed, -, -, -, hfails⟩ :=
      ofMappings_bijection (m := repeatedNames) rfl (by decide) (by decide)
    obtain rfl : classes = [("a", "x"), ("b", "y"), ("b", "x")] :=
      eq_of_isNamed hnamed (.cons ⟨rfl, rfl⟩ (.cons ⟨rfl, rfl⟩ (.cons ⟨rfl, rfl⟩ .nil)))
    rcases hfails _ rfl with hfirst | ⟨hdistinct, -⟩
    · exact hfirst
    · exact absurd hdistinct.1 (by decide)

end ClassRenames

end SymbolMap
