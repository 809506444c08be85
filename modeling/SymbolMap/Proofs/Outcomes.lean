import Mathlib.Data.List.Forall2
import SymbolMap.Failure

/-!
# Outcomes for the elements of a list

Doing something that can fail for every element of a list succeeds if it succeeds for each of them,
and then the results stand against the elements one by one (`mapM_eq_ok_iff`).  Two lists related in
this way have a partner for each of their elements in the other.

A run that carries a state along the list fails with its first step that does
(`foldlM_eq_error_iff`).
-/

namespace SymbolMap

variable {α β : Type}

/-- An outcome that is no failure has a value. -/
theorem Outcome.exists_eq_ok {r : Outcome α} (h : r.toOption.isSome = true) : ∃ a, r = .ok a := by
  cases r with
  | ok a => exact ⟨a, rfl⟩
  | error e => cases h

/-- The kind of the failure, if it is one. -/
def Outcome.failureKind? : Outcome α → Option FailureKind
  | .ok _ => none
  | .error f => some f.kind

theorem Outcome.exists_error_of_failureKind? {r : Outcome α} {k : FailureKind}
    (h : r.failureKind? = some k) : ∃ f, r = .error f ∧ f.kind = k := by
  cases r with
  | ok a => cases h
  | error f => exact ⟨f, rfl, Option.some.inj h⟩

@[simp] theorem Outcome.ok_bind (a : α) (f : α → Outcome β) :
    (Except.ok a : Outcome α) >>= f = f a := rfl

/-- What follows a success is done with its value. -/
theorem Outcome.eq_of_bind_eq {r : Outcome α} {a : α} {f : α → Outcome β} {x : Outcome β}
    (hr : r = .ok a) (h : r >>= f = x) : f a = x := by
  rw [hr] at h
  exact h

/-- The results of a run through a list are the results for its elements, in order. -/
theorem Outcome.mapM_eq_ok_iff {f : α → Outcome β} {xs : List α} {ys : List β} :
    xs.mapM f = .ok ys ↔ List.Forall₂ (fun x y => f x = .ok y) xs ys := by
  induction xs generalizing ys with
  | nil =>
    rw [List.mapM_nil, List.forall₂_nil_left_iff]
    exact ⟨fun h => (Except.ok.inj h).symm, fun h => h ▸ rfl⟩
  | cons x xs ih =>
    rw [List.mapM_cons, Outcome.bind_eq_ok_iff, List.forall₂_cons_left_iff]
    constructor
    · rintro ⟨y, hy, h⟩
      obtain ⟨ys', hys, h⟩ := Outcome.bind_eq_ok_iff.1 h
      exact ⟨y, ys', hy, ih.1 hys, (Except.ok.inj h).symm⟩
    · rintro ⟨y, ys', hy, hys, rfl⟩
      exact ⟨y, hy, Outcome.bind_eq_ok_iff.2 ⟨ys', ih.2 hys, rfl⟩⟩

/-- A run through a list fails with the failure of one of its elements. -/
theorem Outcome.exists_error_of_mapM {f : α → Outcome β} {xs : List α} {e : Failure}
    (h : xs.mapM f = .error e) : ∃ x ∈ xs, f x = .error e := by
  induction xs with
  | nil => cases h
  | cons x xs ih =>
    rw [List.mapM_cons] at h
    rcases Outcome.bind_eq_error_iff.1 h with h | ⟨y, -, h⟩
    · exact ⟨x, List.mem_cons_self, h⟩
    · rcases Outcome.bind_eq_error_iff.1 h with h | ⟨ys, -, h⟩
      · obtain ⟨x', hx', herror⟩ := ih h
        exact ⟨x', List.mem_cons_of_mem x hx', herror⟩
      · cases h

/-- A run that carries a state along a list depends only on the steps for its elements. -/
theorem Outcome.foldlM_congr {step step' : β → α → Outcome β} {xs : List α}
    (h : ∀ x ∈ xs, ∀ b, step b x = step' b x) (b : β) :
    xs.foldlM step b = xs.foldlM step' b := by
  induction xs generalizing b with
  | nil => rfl
  | cons x xs ih =>
    rw [List.foldlM_cons, List.foldlM_cons, h x List.mem_cons_self]
    exact bind_congr fun b' => ih (fun y hy => h y (List.mem_cons_of_mem x hy)) b'

/-- Such a run fails where a step fails after it has succeeded for the elements before. -/
theorem Outcome.foldlM_eq_error_iff {step : β → α → Outcome β} {xs : List α} {b : β}
    {e : Failure} :
    xs.foldlM step b = .error e ↔ ∃ earlier x later b', xs = earlier ++ x :: later ∧
      earlier.foldlM step b = .ok b' ∧ step b' x = .error e := by
  constructor
  · intro h
    induction xs generalizing b with
    | nil => cases h
    | cons x xs ih =>
      rw [List.foldlM_cons] at h
      rcases Outcome.bind_eq_error_iff.1 h with h | ⟨b₁, hstep, h⟩
      · exact ⟨[], x, xs, b, rfl, rfl, h⟩
      · obtain ⟨earlier, y, later, b', rfl, hrun, hfails⟩ := ih h
        refine ⟨x :: earlier, y, later, b', rfl, ?_, hfails⟩
        rw [List.foldlM_cons, Outcome.bind_eq_ok_iff]
        exact ⟨b₁, hstep, hrun⟩
  · rintro ⟨earlier, x, later, b', rfl, hrun, hfails⟩
    rw [List.foldlM_append]
    refine Outcome.bind_eq_error_iff.2 (.inr ⟨b', hrun, ?_⟩)
    rw [List.foldlM_cons]
    exact Outcome.bind_eq_error_iff.2 (.inl hfails)

/-- The result for what an option holds is held by an option. -/
theorem Outcome.mapM_option_eq_ok_iff {f : α → Outcome β} {x : Option α} {y : Option β} :
    x.mapM f = .ok y ↔ Option.Rel (fun a b => f a = .ok b) x y := by
  cases x with
  | none =>
    rw [Option.mapM_none]
    constructor
    · intro h
      cases h
      exact .none
    · intro h
      cases h
      rfl
  | some a =>
    rw [Option.mapM_some]
    constructor
    · intro h
      cases hf : f a with
      | error e =>
        rw [hf] at h
        cases h
      | ok b =>
        rw [hf] at h
        cases h
        exact .some hf
    · intro h
      obtain ⟨hf⟩ := h
      rw [hf]
      rfl

/-! ## What can go wrong -/

/-- If the outcome is a failure, it is one of the given ones. -/
def Outcome.FailsOnly (P : Failure → Prop) (r : Outcome α) : Prop :=
  ∀ f, r = .error f → P f

section

variable {P : Failure → Prop}

theorem Outcome.failsOnly_of_ok {r : Outcome α} (h : ∃ a, r = .ok a) : r.FailsOnly P := by
  obtain ⟨a, rfl⟩ := h
  exact fun f hf => nomatch hf

theorem Outcome.failsOnly_error {f : Failure} (h : P f) :
    FailsOnly P (.error f : Outcome α) := by
  intro f' hf'
  obtain rfl := Except.error.inj hf'
  exact h

/-- A sequence fails in the ways of its parts. -/
theorem Outcome.FailsOnly.bind {r : Outcome α} {f : α → Outcome β} (hr : r.FailsOnly P)
    (hf : ∀ a, r = .ok a → (f a).FailsOnly P) : (r >>= f).FailsOnly P := by
  intro e he
  rcases bind_eq_error_iff.1 he with he | ⟨a, ha, he⟩
  · exact hr e he
  · exact hf a ha e he

/-- A run through a list fails in the ways of its steps. -/
theorem Outcome.failsOnly_foldlM {f : β → α → Outcome β} {xs : List α}
    (h : ∀ x ∈ xs, ∀ b, (f b x).FailsOnly P) (b : β) : (xs.foldlM f b).FailsOnly P := by
  induction xs generalizing b with
  | nil => exact failsOnly_of_ok ⟨b, rfl⟩
  | cons x xs ih =>
    rw [List.foldlM_cons]
    refine (h x List.mem_cons_self b).bind fun b' _ => ?_
    exact ih (fun x' hx' => h x' (List.mem_cons_of_mem x hx')) b'

theorem Outcome.failsOnly_forM {f : α → Outcome Unit} {xs : List α}
    (h : ∀ x ∈ xs, (f x).FailsOnly P) : (xs.forM f).FailsOnly P := by
  induction xs with
  | nil => exact failsOnly_of_ok ⟨(), rfl⟩
  | cons x xs ih =>
    show (f x >>= fun _ => xs.forM f).FailsOnly P
    exact (h x List.mem_cons_self).bind fun _ _ =>
      ih fun x' hx' => h x' (List.mem_cons_of_mem x hx')

/-- A context fails in the ways of what it is around. -/
theorem Outcome.FailsOnly.within {r : Outcome α} {c : Context}
    (hr : r.FailsOnly fun f => P (f.within c)) : (r.within c).FailsOnly P := by
  cases r with
  | ok a => exact failsOnly_of_ok ⟨a, rfl⟩
  | error f => exact failsOnly_error (hr f rfl)

end

/-! ## Partners -/

section

variable {R S : α → β → Prop} {xs : List α} {ys : List β}

/-- An element of the first list has a partner in the second. -/
theorem exists_right_of_forall₂ (h : List.Forall₂ R xs ys) {x : α} (hx : x ∈ xs) :
    ∃ y ∈ ys, R x y := by
  induction h with
  | nil => cases hx
  | cons hxy _ ih =>
    rcases List.mem_cons.1 hx with rfl | hx
    · exact ⟨_, List.mem_cons_self, hxy⟩
    · obtain ⟨y, hy, hR⟩ := ih hx
      exact ⟨y, List.mem_cons_of_mem _ hy, hR⟩

/-- An element of the second list has a partner in the first. -/
theorem exists_left_of_forall₂ (h : List.Forall₂ R xs ys) {y : β} (hy : y ∈ ys) :
    ∃ x ∈ xs, R x y :=
  exists_right_of_forall₂ (List.Forall₂.flip h) hy

/-- The element at a position has a partner at the same position. -/
theorem exists_getElem?_of_forall₂ (h : List.Forall₂ R xs ys) {i : Nat} {x : α}
    (hx : xs[i]? = some x) : ∃ y, ys[i]? = some y ∧ R x y := by
  induction h generalizing i with
  | nil => cases hx
  | cons hxy _ ih =>
    cases i with
    | zero =>
      obtain rfl := Option.some.inj hx
      exact ⟨_, rfl, hxy⟩
    | succ i => exact ih hx

/-- The value under a key has a partner under the same key, if the partners have the same keys. -/
theorem exists_lookup_of_forall₂ {κ : Type} [BEq κ] {es : List (κ × α)} {es' : List (κ × β)}
    (h : List.Forall₂ (fun e e' => e'.1 = e.1 ∧ R e.2 e'.2) es es') {k : κ} {x : α}
    (hx : es.lookup k = some x) : ∃ y, es'.lookup k = some y ∧ R x y := by
  induction h with
  | nil => cases hx
  | @cons e e' _ _ he _ ih =>
    obtain ⟨i, u⟩ := e
    obtain ⟨j, u'⟩ := e'
    obtain ⟨rfl, hu⟩ := he
    rw [List.lookup_cons] at hx ⊢
    by_cases hk : (k == j) = true
    · rw [hk] at hx ⊢
      obtain rfl := Option.some.inj hx
      exact ⟨u', rfl, hu⟩
    · rw [Bool.not_eq_true] at hk
      rw [hk] at hx ⊢
      exact ih hx

/-- Partners are related in another way if this follows for each element of the first list. -/
theorem forall₂_imp_of_mem (h : List.Forall₂ R xs ys) (himp : ∀ x ∈ xs, ∀ y, R x y → S x y) :
    List.Forall₂ S xs ys := by
  have hmem := (List.forall₂_and_left xs ys).2 ⟨fun _ hx => hx, h⟩
  exact hmem.imp fun x y hxy => himp x hxy.1 y hxy.2

/-- What is the same for partners makes the same list. -/
theorem map_eq_map_of_forall₂ {γ : Type} {f : α → γ} {g : β → γ} (h : List.Forall₂ R xs ys)
    (hsame : ∀ x y, R x y → f x = g y) : xs.map f = ys.map g := by
  rw [← List.forall₂_eq_eq_eq, List.forall₂_map_left_iff, List.forall₂_map_right_iff]
  exact h.imp hsame

/-- The partners of partners are related by the composition. -/
theorem forall₂_comp {γ : Type} {T : β → γ → Prop} {U : α → γ → Prop} {zs : List γ}
    (h : List.Forall₂ R xs ys) (h' : List.Forall₂ T ys zs)
    (hcomp : ∀ x y z, R x y → T y z → U x z) : List.Forall₂ U xs zs := by
  induction h generalizing zs with
  | nil =>
    obtain rfl := List.forall₂_nil_left_iff.1 h'
    exact .nil
  | cons hxy _ ih =>
    obtain ⟨z, zs, hyz, hrest, rfl⟩ := List.forall₂_cons_left_iff.1 h'
    exact .cons (hcomp _ _ _ hxy hyz) (ih hrest)

theorem forall₂_toList {x : Option α} {y : Option β} (h : Option.Rel R x y) :
    List.Forall₂ R x.toList y.toList := by
  cases h with
  | none => exact .nil
  | some hxy => exact .cons hxy .nil

end

/-- A run through a list succeeds when it does for each element. -/
theorem Outcome.exists_mapM_iff {f : α → Outcome β} {xs : List α} :
    (∃ ys, xs.mapM f = .ok ys) ↔ ∀ x ∈ xs, ∃ y, f x = .ok y := by
  constructor
  · rintro ⟨ys, hys⟩ x hx
    obtain ⟨y, -, hy⟩ := exists_right_of_forall₂ (mapM_eq_ok_iff.1 hys) hx
    exact ⟨y, hy⟩
  · intro h
    cases hrun : xs.mapM f with
    | ok ys => exact ⟨ys, rfl⟩
    | error e =>
      obtain ⟨x, hx, herror⟩ := exists_error_of_mapM hrun
      obtain ⟨y, hy⟩ := h x hx
      rw [hy] at herror
      cases herror

end SymbolMap
