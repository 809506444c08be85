import SymbolMap.Proofs.Outcomes
import SymbolMap.Renamer.Candidates

/-!
# The most visible declarations

A search meets declarations of different visibility, and `Candidates` keep those of the highest one.
This module says which candidates a set of declarations leaves (`IsBestOf`): there is only one such
collection (`IsBestOf.unique`), and a merge belongs to the union of the sets its parts belong to
(`IsBestOf.merge`), so the order in which the declarations are met is of no importance.

A search runs through a list and merges what each element contributes, stopping at the first
failure.  `foldlM_merge_eq_ok` and `foldlM_merge_eq_error` say what such a run comes to.

Candidates are listed by target.  `Lists` says what makes a listing: each target once and in order,
with the classes that declare it in order.
-/

namespace SymbolMap

namespace Candidates

/-- The candidates are those that a set of declarations, each with its visibility, leaves: the
declarations of the highest visibility in the set. -/
structure IsBestOf (found : Visibility → Declaration → Prop) (c : Candidates) : Prop where
  /-- Nothing in the set is more visible. -/
  bound : ∀ v d, found v d → v.rank < c.rank
  /-- What is as visible as the candidates is among them, and nothing else is. -/
  mem_iff : ∀ d, d ∈ c.declarations ↔ ∃ v, found v d ∧ c.rank = v.rank + 1
  /-- Unless there are no candidates, something in the set is as visible as they are. -/
  attained : c.rank = 0 ∨ ∃ v d, found v d ∧ c.rank = v.rank + 1

variable {found more : Visibility → Declaration → Prop} {a b c : Candidates}

theorem isBestOf_empty : IsBestOf (fun _ _ => False) empty where
  bound _ _ h := h.elim
  mem_iff _ := ⟨fun h => (nomatch h), fun ⟨_, h, _⟩ => h.elim⟩
  attained := .inl rfl

theorem isBestOf_single (v : Visibility) (d : Declaration) :
    IsBestOf (fun v' d' => v' = v ∧ d' = d) (single v d) where
  bound := by
    rintro v' d' ⟨rfl, rfl⟩
    exact Nat.lt_succ_self _
  mem_iff d' := by
    constructor
    · intro h
      exact ⟨v, ⟨rfl, List.mem_singleton.1 h⟩, rfl⟩
    · rintro ⟨v', ⟨rfl, rfl⟩, -⟩
      exact List.mem_singleton.2 rfl
  attained := .inr ⟨v, d, ⟨rfl, rfl⟩, rfl⟩

/-- A merge belongs to the union. -/
theorem IsBestOf.merge (ha : IsBestOf found a) (hb : IsBestOf more b) :
    IsBestOf (fun v d => found v d ∨ more v d) (a.merge b) where
  bound := by
    rintro v d (h | h)
    · have := ha.bound v d h
      rw [rank_merge]
      omega
    · have := hb.bound v d h
      rw [rank_merge]
      omega
  mem_iff d := by
    rw [mem_merge, ha.mem_iff, hb.mem_iff, rank_merge]
    constructor
    · rintro (⟨hle, v, h, hv⟩ | ⟨hle, v, h, hv⟩)
      · exact ⟨v, .inl h, by omega⟩
      · exact ⟨v, .inr h, by omega⟩
    · rintro ⟨v, h | h, hv⟩
      · have := ha.bound v d h
        exact .inl ⟨by omega, v, h, by omega⟩
      · have := hb.bound v d h
        exact .inr ⟨by omega, v, h, by omega⟩
  attained := by
    rw [rank_merge]
    -- the more visible part, or the first if both are, attains the visibility of the merge
    by_cases hle : b.rank ≤ a.rank
    · rcases ha.attained with h | ⟨v, d, h, hv⟩
      · exact .inl (by omega)
      · exact .inr ⟨v, d, .inl h, by omega⟩
    · rcases hb.attained with h | ⟨v, d, h, hv⟩
      · exact .inl (by omega)
      · exact .inr ⟨v, d, .inr h, by omega⟩

theorem IsBestOf.congr (h : ∀ v d, found v d ↔ more v d) (hc : IsBestOf found c) :
    IsBestOf more c := by
  have : found = more := funext fun v => funext fun d => propext (h v d)
  exact this ▸ hc

/-- The highest visibility in a set is determined by the set. -/
theorem IsBestOf.rank_le (ha : IsBestOf found a) (hb : IsBestOf found b) : a.rank ≤ b.rank := by
  rcases ha.attained with h | ⟨v, d, h, hv⟩
  · omega
  · have := hb.bound v d h
    omega

/-- **A set of declarations leaves one collection of candidates.** -/
theorem IsBestOf.unique (ha : IsBestOf found a) (hb : IsBestOf found b) : a = b := by
  have hrank : a.rank = b.rank := Nat.le_antisymm (ha.rank_le hb) (hb.rank_le ha)
  refine ext_of_mem hrank fun d => ?_
  rw [ha.mem_iff, hb.mem_iff, hrank]

/-- A declaration is kept exactly if it is in the set and nothing in the set is more visible. -/
theorem IsBestOf.mem_iff_forall_le (hc : IsBestOf found c) {d : Declaration} :
    d ∈ c.declarations ↔ ∃ v, found v d ∧ ∀ v' d', found v' d' → v'.rank ≤ v.rank := by
  rw [hc.mem_iff]
  constructor
  · rintro ⟨v, h, hv⟩
    refine ⟨v, h, fun v' d' h' => ?_⟩
    have := hc.bound v' d' h'
    omega
  · rintro ⟨v, h, hmax⟩
    have hlt := hc.bound v d h
    rcases hc.attained with hzero | ⟨v', d', h', hv'⟩
    · omega
    · have := hmax v' d' h'
      exact ⟨v, h, by omega⟩

/-- Something is kept if there is anything in the set. -/
theorem IsBestOf.exists_mem (hc : IsBestOf found c) {v : Visibility} {d : Declaration}
    (h : found v d) : ∃ d, d ∈ c.declarations := by
  have hlt := hc.bound v d h
  rcases hc.attained with hzero | ⟨v', d', h', hv'⟩
  · omega
  · exact ⟨d', (hc.mem_iff d').2 ⟨v', h', hv'⟩⟩

/-! ## Runs through a list -/

section

variable {α : Type} {part : α → Outcome Candidates} {xs : List α}

/-- A run through a list succeeds if every element contributes something, and the result belongs to
the union of what the contributions belong to. -/
theorem foldlM_merge_eq_ok {parts : α → Visibility → Declaration → Prop}
    (h : ∀ x ∈ xs, ∃ c, part x = .ok c ∧ IsBestOf (parts x) c) (hc : IsBestOf found c) :
    ∃ c', xs.foldlM (fun c x => do return c.merge (← part x)) c = .ok c' ∧
      IsBestOf (fun v d => found v d ∨ ∃ x ∈ xs, parts x v d) c' := by
  induction xs generalizing c found with
  | nil => exact ⟨c, rfl, hc.congr fun v d => by simp⟩
  | cons x xs ih =>
    obtain ⟨cx, hx, hbest⟩ := h x List.mem_cons_self
    obtain ⟨c', hrun, hc'⟩ := ih (fun y hy => h y (List.mem_cons_of_mem _ hy)) (hc.merge hbest)
    refine ⟨c', ?_, hc'.congr fun v d => ?_⟩
    · rw [List.foldlM_cons, hx]
      exact hrun
    · rw [or_assoc]
      simp only [List.mem_cons, exists_eq_or_imp]

/-- A run through a list fails with the failure of one of the elements. -/
theorem foldlM_merge_eq_error {e : Failure}
    (h : xs.foldlM (fun c x => do return c.merge (← part x)) c = .error e) :
    ∃ x ∈ xs, part x = .error e := by
  obtain ⟨earlier, x, later, c', rfl, -, hstep⟩ := Outcome.foldlM_eq_error_iff.1 h
  rcases Outcome.bind_eq_error_iff.1 hstep with hpart | ⟨cx, -, hmerge⟩
  · exact ⟨x, by simp, hpart⟩
  · cases hmerge

/-- A run through a list depends only on what its elements contribute. -/
theorem foldlM_merge_congr {part' : α → Outcome Candidates} (h : ∀ x ∈ xs, part x = part' x) :
    xs.foldlM (fun c x => do return c.merge (← part x)) c =
      xs.foldlM (fun c x => do return c.merge (← part' x)) c :=
  Outcome.foldlM_congr (fun x hx c => by rw [h x hx]) c

/-- Of a run that succeeds, every element has contributed something. -/
theorem part_eq_ok_of_foldlM {c' : Candidates}
    (h : xs.foldlM (fun c x => do return c.merge (← part x)) c = .ok c') {x : α} (hx : x ∈ xs) :
    ∃ cx, part x = .ok cx := by
  induction xs generalizing c with
  | nil => cases hx
  | cons y ys ih =>
    rw [List.foldlM_cons, Outcome.bind_eq_ok_iff] at h
    obtain ⟨cy, hy, hrest⟩ := h
    rcases List.mem_cons.1 hx with rfl | hx
    · obtain ⟨cx, hpart, -⟩ := Outcome.bind_eq_ok_iff.1 hy
      exact ⟨cx, hpart⟩
    · exact ih hrest hx

end

end Candidates

/-! ## Listings -/

/-- Class names by the numbers of their characters. -/
def nameBefore (a b : String) : Bool :=
  lexBefore charBefore a.toList b.toList

/-- Declarations are ordered by target first and by class within a target. -/
theorem Declaration.before_iff {a b : Declaration} :
    a.before b = true ↔
      a.target.before b.target = true ∨
        (a.target = b.target ∧ nameBefore a.declaring b.declaring = true) := by
  have hinj : a.target.key = b.target.key ↔ a.target = b.target :=
    ⟨MemberTarget.key_injective _ _, fun h => by rw [h]⟩
  rw [before, key, key, ← hinj, MemberTarget.before]
  simp only [MemberTarget.key, lexBefore, nameBefore, List.cons_append, List.nil_append,
    Bool.or_false, Bool.and_false, Bool.or_eq_true, Bool.and_eq_true, decide_eq_true_eq,
    List.cons.injEq, and_true]
  rw [and_or_left, or_assoc, and_assoc]

/-- A listing of which classes declare which targets: each target that is declared once, in order,
with exactly the classes that declare it, in order. -/
structure Lists (declares : MemberTarget → String → Prop)
    (listing : List (MemberTarget × List String)) : Prop where
  targets_ascending : Ascending MemberTarget.before (listing.map Prod.fst)
  mem_targets : ∀ t, t ∈ listing.map Prod.fst ↔ ∃ s, declares t s
  classes_ascending : ∀ e ∈ listing, Ascending nameBefore e.2
  mem_classes : ∀ e ∈ listing, ∀ s, s ∈ e.2 ↔ declares e.1 s

/-- Of ascending declarations, the targets ascend where repetitions are left out. -/
theorem ascending_distinct_targets {ds : List Declaration} (h : Ascending Declaration.before ds) :
    Ascending MemberTarget.before (distinct (ds.map Declaration.target)) := by
  induction ds with
  | nil => exact List.Pairwise.nil
  | cons d ds ih =>
    obtain ⟨hd, hds⟩ := List.pairwise_cons.1 h
    rw [List.map_cons, distinct]
    refine List.pairwise_cons.2 ⟨fun t ht => ?_, (ih hds).filter _⟩
    obtain ⟨hmem, hne⟩ := List.mem_filter.1 ht
    obtain ⟨d', hd', rfl⟩ := List.mem_map.1 (mem_distinct.1 hmem)
    rcases Declaration.before_iff.1 (hd d' hd') with hbefore | ⟨heq, -⟩
    · exact hbefore
    · exact absurd heq.symm (of_decide_eq_true hne)

/-- Of ascending declarations, the classes that declare one target ascend. -/
theorem ascending_declaring {ds : List Declaration} (h : Ascending Declaration.before ds)
    (t : MemberTarget) :
    Ascending nameBefore
      ((ds.filter fun d => decide (d.target = t)).map Declaration.declaring) := by
  refine List.pairwise_map.2 ?_
  refine (h.filter _).imp_of_mem fun {a b} ha hb hab => ?_
  have hta : a.target = t := of_decide_eq_true (List.mem_filter.1 ha).2
  have htb : b.target = t := of_decide_eq_true (List.mem_filter.1 hb).2
  rcases Declaration.before_iff.1 hab with hbefore | ⟨-, hname⟩
  · rw [hta, htb, MemberTarget.strictOrder_before.irrefl] at hbefore
    cases hbefore
  · exact hname

namespace Candidates

variable {owner name desc : String} {c : Candidates}

theorem map_fst_targets (c : Candidates) :
    c.targets.map Prod.fst = distinct (c.declarations.map Declaration.target) := by
  rw [targets, List.map_map]
  exact List.map_id _

/-- The targets of candidates list their declarations. -/
theorem lists_targets (c : Candidates) : Lists (fun t s => ⟨t, s⟩ ∈ c.declarations) c.targets where
  targets_ascending := by
    rw [map_fst_targets]
    exact ascending_distinct_targets c.ascending
  mem_targets t := by
    rw [map_fst_targets, mem_distinct, List.mem_map]
    constructor
    · rintro ⟨d, hd, rfl⟩
      exact ⟨d.declaring, hd⟩
    · rintro ⟨s, hs⟩
      exact ⟨_, hs, rfl⟩
  classes_ascending e he := by
    obtain ⟨t, -, rfl⟩ := List.mem_map.1 he
    exact ascending_declaring c.ascending t
  mem_classes e he s := by
    obtain ⟨t, -, rfl⟩ := List.mem_map.1 he
    simp only [List.mem_map, List.mem_filter, decide_eq_true_eq]
    constructor
    · rintro ⟨d, ⟨hd, rfl⟩, rfl⟩
      exact hd
    · intro hs
      exact ⟨_, ⟨hs, rfl⟩, rfl⟩

/-- Without a declaration there is nothing to pick. -/
theorem pick_of_no_declaration (h : c.declarations = []) : c.pick owner name desc = .ok none := by
  rw [pick, targets, h]
  rfl

/-- Declarations of one target have it picked. -/
theorem pick_of_one_target {d : Declaration} {t : MemberTarget} (hd : d ∈ c.declarations)
    (h : ∀ d ∈ c.declarations, d.target = t) : c.pick owner name desc = .ok (some t) := by
  have hmem : ∀ e ∈ c.targets, e.1 = t := by
    intro e he
    obtain ⟨s, hs⟩ := (c.lists_targets.mem_targets e.1).1 (List.mem_map_of_mem he)
    exact h _ hs
  have hnodup : (c.targets.map Prod.fst).Nodup := by
    rw [map_fst_targets]
    exact nodup_distinct _
  have hne : t ∈ c.targets.map Prod.fst :=
    (c.lists_targets.mem_targets t).2 ⟨d.declaring, h d hd ▸ hd⟩
  rw [pick]
  -- the listing is neither empty nor has it two entries, since all entries have the one target
  match hts : c.targets with
  | [] =>
    rw [hts] at hne
    cases hne
  | [e] => exact congrArg (fun t => Except.ok (some t)) (hmem e (hts ▸ List.mem_cons_self))
  | e :: e' :: rest =>
    rw [hts] at hnodup hmem
    have heq : e.1 = e'.1 := (hmem e (by simp)).trans (hmem e' (by simp)).symm
    simp [heq] at hnodup

/-- Declarations of two targets are ambiguous. -/
theorem pick_of_two_targets {d d' : Declaration} (hd : d ∈ c.declarations)
    (hd' : d' ∈ c.declarations) (hne : d.target ≠ d'.target) :
    c.pick owner name desc =
      .error (.of (.ambiguous owner name desc (c.targets.map describeTarget))) := by
  have hmem := (c.lists_targets.mem_targets d.target).2 ⟨_, hd⟩
  have hmem' := (c.lists_targets.mem_targets d'.target).2 ⟨_, hd'⟩
  rw [pick]
  match hts : c.targets with
  | [] =>
    rw [hts] at hmem
    cases hmem
  | [e] =>
    rw [hts, List.map_singleton, List.mem_singleton] at hmem hmem'
    exact absurd (hmem.trans hmem'.symm) hne
  | e :: e' :: rest => rfl

/-- What is picked is the target of a declaration. -/
theorem exists_of_pick_eq_some {t : MemberTarget} (h : c.pick owner name desc = .ok (some t)) :
    ∃ d ∈ c.declarations, d.target = t := by
  rw [pick] at h
  split at h
  · cases h
  · rename_i e hts
    cases h
    have hmem : e.1 ∈ c.targets.map Prod.fst := by rw [hts]; exact List.mem_cons_self
    obtain ⟨s, hs⟩ := (c.lists_targets.mem_targets e.1).1 hmem
    exact ⟨_, hs, rfl⟩
  · cases h

/-- The only failure of a pick is an ambiguity. -/
theorem ambiguous_of_pick_eq_error {e : Failure} (h : c.pick owner name desc = .error e) :
    ∃ listing, e = .of (.ambiguous owner name desc listing) := by
  rw [pick] at h
  split at h
  · cases h
  · cases h
  · cases h
    exact ⟨_, rfl⟩

end Candidates

end SymbolMap
