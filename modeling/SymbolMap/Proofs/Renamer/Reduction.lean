import SymbolMap.Proofs.Renamer.MostVisible

/-!
# The reduction of candidates

Declarations that a search meets are merged one by one into what it has found (`reduce`), and what
several branches have found is merged again.  Merging is commutative, associative and idempotent,
and nothing found makes no difference to it.

So it is only the set of declarations that counts, and not their order, how often each is met, or
how they are grouped (`reduce_eq_of_mem`, `foldl_merge_reduce`).  What is left of them are those of
the highest visibility, listed by target.
-/

namespace SymbolMap.Candidates

variable {a b c : Candidates} {found : Visibility → Declaration → Prop}

/-! ## Laws of merging -/

theorem merge_comm (a b : Candidates) : a.merge b = b.merge a := by
  refine ext_of_mem ?_ fun d => ?_
  · rw [rank_merge, rank_merge, Nat.max_comm]
  · rw [mem_merge, mem_merge, or_comm]

theorem merge_assoc (a b c : Candidates) : (a.merge b).merge c = a.merge (b.merge c) := by
  refine ext_of_mem ?_ fun d => ?_
  · rw [rank_merge, rank_merge, rank_merge, rank_merge, Nat.max_assoc]
  · simp only [mem_merge, rank_merge]
    grind

theorem merge_self (a : Candidates) : a.merge a = a := by
  refine ext_of_mem ?_ fun d => ?_
  · rw [rank_merge, Nat.max_self]
  · simp [mem_merge]

theorem merge_empty (a : Candidates) : a.merge empty = a := by
  refine ext_of_mem ?_ fun d => ?_
  · rw [rank_merge]
    exact Nat.max_zero a.rank
  · simp [mem_merge, empty, rank]

/-! ## Declarations one by one -/

/-- What is left of declarations that are found one after the other. -/
def reduce (found : List (Visibility × Declaration)) : Candidates :=
  found.foldl (fun c e => c.merge (single e.1 e.2)) empty

/-- Merging the parts that a list gives belongs to the union of what they belong to. -/
theorem isBestOf_foldl_merge {α : Type} {part : α → Candidates}
    {parts : α → Visibility → Declaration → Prop} {xs : List α}
    (h : ∀ x ∈ xs, IsBestOf (parts x) (part x)) :
    IsBestOf (fun v d => ∃ x ∈ xs, parts x v d)
      (xs.foldl (fun c x => c.merge (part x)) empty) := by
  -- every part is there, so the fold is one that could fail and does not
  have hparts : ∀ x ∈ xs, ∃ c, (.ok (part x) : Outcome Candidates) = .ok c ∧
      IsBestOf (parts x) c := fun x hx => ⟨part x, rfl, h x hx⟩
  obtain ⟨c, hrun, hbest⟩ := foldlM_merge_eq_ok hparts isBestOf_empty
  have hpure : xs.foldlM (fun c x => (do return c.merge (← .ok (part x)) : Outcome Candidates))
      empty = .ok (xs.foldl (fun c x => c.merge (part x)) empty) := List.foldlM_pure
  obtain rfl := Outcome.eq_of_eq_ok hrun hpure
  exact hbest.congr fun v d => by rw [false_or]

theorem isBestOf_reduce (found : List (Visibility × Declaration)) :
    IsBestOf (fun v d => (v, d) ∈ found) (reduce found) := by
  refine (isBestOf_foldl_merge fun e _ => isBestOf_single e.1 e.2).congr fun v d => ?_
  constructor
  · rintro ⟨e, he, rfl, rfl⟩
    exact he
  · intro h
    exact ⟨(v, d), h, rfl, rfl⟩

/-- Only the set of declarations counts. -/
theorem reduce_eq_of_mem {xs ys : List (Visibility × Declaration)} (h : ∀ e, e ∈ xs ↔ e ∈ ys) :
    reduce xs = reduce ys :=
  (isBestOf_reduce xs).unique ((isBestOf_reduce ys).congr fun v d => (h (v, d)).symm)

/-- Groups that are reduced on their own and merged leave what all declarations leave. -/
theorem foldl_merge_reduce (groups : List (List (Visibility × Declaration))) :
    (groups.map reduce).foldl merge empty = reduce groups.flatten := by
  rw [List.foldl_map]
  refine (isBestOf_foldl_merge fun g _ => isBestOf_reduce g).unique ?_
  exact (isBestOf_reduce groups.flatten).congr fun v d => List.mem_flatten

/-! ## What is left -/

theorem visibility_eq_none_iff : c.visibility = none ↔ c.rank = 0 := by
  rw [rank]
  cases c.visibility <;> simp

theorem visibility_eq_some_iff {v : Visibility} :
    c.visibility = some v ↔ c.rank = v.rank + 1 := by
  rw [rank]
  cases c.visibility with
  | none => simp
  | some w =>
    simp only [Option.some.injEq, Nat.add_right_cancel_iff]
    exact ⟨fun h => h ▸ rfl, Visibility.rank_injective⟩

/-- Candidates have no visibility exactly if the set they belong to is empty. -/
theorem IsBestOf.visibility_eq_none_iff (h : IsBestOf found c) :
    c.visibility = none ↔ ∀ v d, ¬ found v d := by
  rw [Candidates.visibility_eq_none_iff]
  constructor
  · intro hzero v d hd
    have := h.bound v d hd
    omega
  · intro hno
    rcases h.attained with hzero | ⟨v, d, hd, -⟩
    · exact hzero
    · exact absurd hd (hno v d)

/-- The visibility of candidates is the highest in the set they belong to. -/
theorem IsBestOf.visibility_eq_some_iff (h : IsBestOf found c) {v : Visibility} :
    c.visibility = some v ↔ (∃ d, found v d) ∧ ∀ v' d', found v' d' → v'.rank ≤ v.rank := by
  rw [Candidates.visibility_eq_some_iff]
  constructor
  · intro hrank
    rcases h.attained with hzero | ⟨w, d, hw, hrank'⟩
    · omega
    · obtain rfl : w = v := Visibility.rank_injective (by omega)
      refine ⟨⟨d, hw⟩, fun v' d' hd' => ?_⟩
      have := h.bound v' d' hd'
      omega
  · rintro ⟨⟨d, hd⟩, hmax⟩
    have hlt := h.bound v d hd
    rcases h.attained with hzero | ⟨w, d', hw, hrank⟩
    · omega
    · have := hmax w d' hw
      omega

/-- Candidates list the declarations in their set that have their visibility. -/
theorem IsBestOf.lists_targets (h : IsBestOf found c) :
    Lists (fun t s => ∃ v, c.visibility = some v ∧ found v ⟨t, s⟩) c.targets := by
  have heq : (fun t s => ∃ v, c.visibility = some v ∧ found v ⟨t, s⟩) =
      fun t s => (⟨t, s⟩ : Declaration) ∈ c.declarations := by
    funext t s
    simp only [h.mem_iff, Candidates.visibility_eq_some_iff, and_comm]
  rw [heq]
  exact c.lists_targets

/-- **Merging keeps the most visible declarations.**  It is commutative, associative and idempotent,
and the empty candidates are its identity.  Declarations that are merged one by one leave the same
candidates in every order, and if groups of them are merged first.  The visibility of these is the
highest that occurs, and missing if there are no declarations; their targets are those that are
declared with this visibility, each with exactly the classes that declare it so. -/
theorem merge_keeps_most_visible :
    (∀ a b : Candidates, a.merge b = b.merge a) ∧
    (∀ a b c : Candidates, (a.merge b).merge c = a.merge (b.merge c)) ∧
    (∀ a : Candidates, a.merge a = a) ∧
    (∀ a : Candidates, a.merge empty = a ∧ empty.merge a = a) ∧
    ∀ found : List (Visibility × Declaration),
      (∀ found', found'.Perm found → reduce found' = reduce found) ∧
      (∀ groups : List (List (Visibility × Declaration)), groups.flatten.Perm found →
        (groups.map reduce).foldl merge empty = reduce found) ∧
      ((reduce found).visibility = none ↔ found = []) ∧
      (∀ v, (reduce found).visibility = some v ↔
        (∃ d, (v, d) ∈ found) ∧ ∀ e ∈ found, e.1.rank ≤ v.rank) ∧
      Lists (fun t s => ∃ v, (reduce found).visibility = some v ∧ (v, ⟨t, s⟩) ∈ found)
        (reduce found).targets := by
  refine ⟨merge_comm, merge_assoc, merge_self, fun a => ⟨merge_empty a, ?_⟩, fun found => ?_⟩
  · rw [merge_comm, merge_empty]
  have hbest := isBestOf_reduce found
  refine ⟨fun found' hperm => reduce_eq_of_mem fun e => hperm.mem_iff, fun groups hperm => ?_,
    ?_, fun v => ?_, hbest.lists_targets⟩
  · rw [foldl_merge_reduce]
    exact reduce_eq_of_mem fun e => hperm.mem_iff
  · rw [hbest.visibility_eq_none_iff, List.eq_nil_iff_forall_not_mem, Prod.forall]
  · rw [hbest.visibility_eq_some_iff, Prod.forall]

/-! ### Two that are private and two that are public -/

/-- The declaration of a target by a class. -/
def declaredAs (name declaring : String) : Declaration := ⟨⟨name, some "I"⟩, declaring⟩

/-- Two private declarations, and two public ones with one target. -/
def fourFound : List (Visibility × Declaration) :=
  [(.restricted, declaredAs "a" "pkg/A"), (.restricted, declaredAs "b" "pkg/B"),
    (.inheritable, declaredAs "c" "pkg/C"), (.inheritable, declaredAs "c" "pkg/D")]

/-- The public ones are left, also backwards and in groups. -/
theorem fourFound_most_visible :
    reduce fourFound.reverse = reduce fourFound ∧
    ([(fourFound.drop 1).reverse, [], fourFound.take 1].map reduce).foldl merge empty =
      reduce fourFound ∧
    (reduce fourFound).visibility = some .inheritable ∧
    (reduce fourFound).targets = [(⟨"c", some "I"⟩, ["pkg/C", "pkg/D"])] := by
  obtain ⟨hperm, hgroups, -, hvisibility, -⟩ := merge_keeps_most_visible.2.2.2.2 fourFound
  refine ⟨hperm _ (by decide), hgroups _ (by decide), (hvisibility .inheritable).2 ⟨?_, by decide⟩,
    by decide +kernel⟩
  exact ⟨declaredAs "c" "pkg/C", by decide⟩

end SymbolMap.Candidates
