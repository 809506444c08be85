/-!
# Sorted lists

A strict order given by a test (`StrictOrder`), its extension to lists (`lexBefore`), and lists that
ascend in it.  Such a list has no repetitions, and is determined by its elements
(`eq_of_ascending`), so it serves as a set with a fixed order: `insertSorted` adds an element and
`unionSorted` all elements of another list.
-/

namespace SymbolMap

variable {α : Type}

/-- The test is a strict order in which any two elements can be compared. -/
structure StrictOrder (before : α → α → Bool) : Prop where
  irrefl : ∀ a, before a a = false
  trans : ∀ a b c, before a b = true → before b c = true → before a c = true
  total : ∀ a b, before a b = true ∨ a = b ∨ before b a = true

/-- Characters by their numbers. -/
def charBefore (a b : Char) : Bool :=
  Nat.blt a.toNat b.toNat

theorem strictOrder_charBefore : StrictOrder charBefore where
  irrefl a := by
    rw [charBefore, ← Bool.not_eq_true, Nat.blt_eq]
    exact Nat.lt_irrefl _
  trans a b c h h' := by
    simp only [charBefore, Nat.blt_eq] at *
    omega
  total a b := by
    simp only [charBefore, Nat.blt_eq]
    rcases Nat.lt_trichotomy a.toNat b.toNat with h | h | h
    · exact .inl h
    · exact .inr (.inl (Char.toNat_inj.1 h))
    · exact .inr (.inr h)

section

variable [DecidableEq α]

/-- Lists by their first difference; a list comes before its extensions. -/
def lexBefore (before : α → α → Bool) : List α → List α → Bool
  | _, [] => false
  | [], _ :: _ => true
  | a :: as, b :: bs => before a b || (decide (a = b) && lexBefore before as bs)

theorem StrictOrder.lexBefore {before : α → α → Bool} (o : StrictOrder before) :
    StrictOrder (lexBefore before) where
  irrefl as := by
    induction as with
    | nil => rfl
    | cons a as ih => simp [SymbolMap.lexBefore, o.irrefl, ih]
  trans as := by
    induction as with
    | nil =>
      rintro (_ | ⟨b, bs⟩) (_ | ⟨c, cs⟩) h h' <;> simp_all [SymbolMap.lexBefore]
    | cons a as ih =>
      rintro (_ | ⟨b, bs⟩) (_ | ⟨c, cs⟩) h h'
      · cases h
      · cases h
      · cases h'
      · simp only [SymbolMap.lexBefore, Bool.or_eq_true, Bool.and_eq_true,
          decide_eq_true_eq] at h h' ⊢
        rcases h with h | ⟨rfl, h⟩
        · rcases h' with h' | ⟨rfl, h'⟩
          · exact .inl (o.trans _ _ _ h h')
          · exact .inl h
        · rcases h' with h' | ⟨rfl, h'⟩
          · exact .inl h'
          · exact .inr ⟨rfl, ih _ _ h h'⟩
  total as := by
    induction as with
    | nil =>
      rintro (_ | ⟨b, bs⟩)
      · exact .inr (.inl rfl)
      · exact .inl rfl
    | cons a as ih =>
      rintro (_ | ⟨b, bs⟩)
      · exact .inr (.inr rfl)
      · simp only [SymbolMap.lexBefore, Bool.or_eq_true, Bool.and_eq_true, decide_eq_true_eq]
        rcases o.total a b with h | rfl | h
        · exact .inl (.inl h)
        · rcases ih bs with h | rfl | h
          · exact .inl (.inr ⟨rfl, h⟩)
          · exact .inr (.inl rfl)
          · exact .inr (.inr (.inr ⟨rfl, h⟩))
        · exact .inr (.inr (.inl h))

end

/-- An order on keys is one on the elements, if elements with one key are equal. -/
theorem StrictOrder.onKey {β : Type} {before : β → β → Bool} (o : StrictOrder before)
    {key : α → β} (inj : ∀ a b, key a = key b → a = b) :
    StrictOrder (fun a b => before (key a) (key b)) where
  irrefl _ := o.irrefl _
  trans _ _ _ := o.trans _ _ _
  total a b := (o.total (key a) (key b)).imp_right fun h => h.imp_left (inj a b)

/-- Each element stands before all later ones. -/
def Ascending (before : α → α → Bool) (xs : List α) : Prop :=
  xs.Pairwise fun a b => before a b = true

variable [DecidableEq α] {before : α → α → Bool}

/-- Adds an element at its place, unless it is there. -/
def insertSorted (before : α → α → Bool) (x : α) : List α → List α
  | [] => [x]
  | y :: ys =>
    if before x y then x :: y :: ys
    else if x = y then y :: ys
    else y :: insertSorted before x ys

@[simp] theorem mem_insertSorted {x a : α} {ys : List α} :
    a ∈ insertSorted before x ys ↔ a = x ∨ a ∈ ys := by
  induction ys with
  | nil => simp [insertSorted]
  | cons y ys ih =>
    rw [insertSorted]
    split
    · simp
    · split
      · rename_i h
        simp [h]
      · rw [List.mem_cons, ih, List.mem_cons]
        exact or_left_comm

theorem ascending_insertSorted (o : StrictOrder before) {x : α} {ys : List α}
    (h : Ascending before ys) : Ascending before (insertSorted before x ys) := by
  induction ys with
  | nil => exact List.pairwise_singleton _ _
  | cons y ys ih =>
    obtain ⟨hy, hys⟩ := List.pairwise_cons.1 h
    rw [insertSorted]
    split
    · rename_i hxy
      refine List.pairwise_cons.2 ⟨fun a ha => ?_, h⟩
      rcases List.mem_cons.1 ha with rfl | ha
      · exact hxy
      · exact o.trans _ _ _ hxy (hy a ha)
    · split
      · exact h
      · rename_i hxy hne
        refine List.pairwise_cons.2 ⟨fun a ha => ?_, ih hys⟩
        rcases mem_insertSorted.1 ha with rfl | ha
        · exact ((o.total _ _).resolve_left hxy).resolve_left hne
        · exact hy a ha

/-- Adds all elements of a list. -/
def unionSorted (before : α → α → Bool) (xs ys : List α) : List α :=
  ys.foldl (fun acc y => insertSorted before y acc) xs

@[simp] theorem mem_unionSorted {a : α} {xs ys : List α} :
    a ∈ unionSorted before xs ys ↔ a ∈ xs ∨ a ∈ ys := by
  induction ys generalizing xs with
  | nil => simp [unionSorted]
  | cons y ys ih =>
    show a ∈ unionSorted before (insertSorted before y xs) ys ↔ _
    rw [ih, mem_insertSorted, List.mem_cons]
    exact ⟨fun h => h.elim (fun h => h.elim (fun h => .inr (.inl h)) .inl) fun h => .inr (.inr h),
      fun h => h.elim (fun h => .inl (.inr h))
        fun h => h.elim (fun h => .inl (.inl h)) .inr⟩

theorem ascending_unionSorted (o : StrictOrder before) {xs ys : List α}
    (h : Ascending before xs) : Ascending before (unionSorted before xs ys) := by
  induction ys generalizing xs with
  | nil => exact h
  | cons y ys ih => exact ih (ascending_insertSorted o h)

omit [DecidableEq α] in
/-- Ascending lists with the same elements are equal. -/
theorem eq_of_ascending (o : StrictOrder before) {xs ys : List α} (hx : Ascending before xs)
    (hy : Ascending before ys) (h : ∀ a, a ∈ xs ↔ a ∈ ys) : xs = ys := by
  induction xs generalizing ys with
  | nil =>
    cases ys with
    | nil => rfl
    | cons y ys => exact absurd ((h y).2 (by simp)) (by simp)
  | cons x xs ih =>
    cases ys with
    | nil => exact absurd ((h x).1 (by simp)) (by simp)
    | cons y ys =>
      obtain ⟨hx1, hx2⟩ := List.pairwise_cons.1 hx
      obtain ⟨hy1, hy2⟩ := List.pairwise_cons.1 hy
      have no : ∀ {a b : α}, before a b = true → before b a = true → False := by
        intro a b hab hba
        have := o.trans _ _ _ hab hba
        rw [o.irrefl] at this
        cases this
      -- the heads are the least elements of the two lists
      have hxy : x = y := by
        rcases List.mem_cons.1 ((h x).1 (by simp)) with hxy | hxys
        · exact hxy
        · rcases List.mem_cons.1 ((h y).2 (by simp)) with hyx | hyxs
          · exact hyx.symm
          · exact (no (hx1 y hyxs) (hy1 x hxys)).elim
      subst hxy
      have irr : ∀ {a : α}, before x a = true → a ≠ x := by
        rintro a ha rfl
        rw [o.irrefl] at ha
        cases ha
      congr 1
      refine ih hx2 hy2 fun a => ⟨fun ha => ?_, fun ha => ?_⟩
      · exact (List.mem_cons.1 ((h a).1 (by simp [ha]))).resolve_left (irr (hx1 a ha))
      · exact (List.mem_cons.1 ((h a).2 (by simp [ha]))).resolve_left (irr (hy1 a ha))

end SymbolMap
