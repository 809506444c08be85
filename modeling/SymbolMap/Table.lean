/-!
# Tables in order of insertion

A `Table` holds one value for each key, and lists its entries in the order in which the keys were
first added.  Its view is the list of `keys`: a new key goes to the end (`keys_push`), and
`insert` on a key that is there keeps the order (`keys_insert_of_mem`).

`add?` refuses a key that is there already, so nothing is ever overwritten by it.
-/

namespace SymbolMap

/-- The list without later repetitions. -/
def distinct {α : Type} [DecidableEq α] : List α → List α
  | [] => []
  | x :: xs => x :: (distinct xs).filter (· ≠ x)

@[simp] theorem mem_distinct {α : Type} [DecidableEq α] {x : α} {xs : List α} :
    x ∈ distinct xs ↔ x ∈ xs := by
  induction xs with
  | nil => simp [distinct]
  | cons y ys ih =>
    by_cases h : x = y
    · simp [distinct, h]
    · simp [distinct, h, ih]

theorem nodup_distinct {α : Type} [DecidableEq α] (xs : List α) : (distinct xs).Nodup := by
  induction xs with
  | nil => simp [distinct]
  | cons x xs ih =>
    rw [distinct, List.nodup_cons]
    exact ⟨by simp, ih.filter _⟩

/-- Dropping repetitions and picking elements can be done in either order. -/
theorem filter_distinct {α : Type} [DecidableEq α] (keep : α → Bool) (xs : List α) :
    (distinct xs).filter keep = distinct (xs.filter keep) := by
  induction xs with
  | nil => rfl
  | cons x xs ih =>
    by_cases hx : keep x = true
    · rw [distinct, List.filter_cons_of_pos hx, List.filter_cons_of_pos hx, distinct, ← ih]
      simp only [List.filter_filter, Bool.and_comm]
    · rw [distinct, List.filter_cons_of_neg hx, List.filter_cons_of_neg hx, ← ih,
        List.filter_filter]
      refine List.filter_congr fun y _ => ?_
      by_cases hy : y = x
      · simp [hy, hx]
      · simp [hy]

/-- What is repeated before a map can be dropped before it. -/
theorem distinct_map_distinct {α β : Type} [DecidableEq α] [DecidableEq β] (f : α → β)
    (xs : List α) : distinct ((distinct xs).map f) = distinct (xs.map f) := by
  induction xs with
  | nil => rfl
  | cons x xs ih =>
    have hdrop : ∀ ys : List α, ((ys.filter (· ≠ x)).map f).filter (· ≠ f x) =
        (ys.map f).filter (· ≠ f x) := by
      intro ys
      rw [List.filter_map, List.filter_map, List.filter_filter]
      refine congrArg _ (List.filter_congr fun y _ => ?_)
      by_cases hy : y = x
      · simp [hy]
      · simp [hy]
    rw [distinct, List.map_cons, List.map_cons, distinct, distinct, filter_distinct, hdrop,
      ← filter_distinct, ih]

/-- Entries with pairwise distinct keys, in order of insertion. -/
structure Table (α β : Type) where
  entries : List (α × β)
  nodup : (entries.map Prod.fst).Nodup

namespace Table

variable {α β : Type}

instance [DecidableEq α] [DecidableEq β] : DecidableEq (Table α β) := fun a b =>
  if h : a.entries = b.entries then
    isTrue (by cases a; cases b; cases h; rfl)
  else isFalse fun e => h (e ▸ rfl)

@[ext] theorem ext {a b : Table α β} (h : a.entries = b.entries) : a = b := by
  cases a; cases b; cases h; rfl

/-- The table without entries. -/
def empty : Table α β := ⟨[], List.nodup_nil⟩

/-- The keys, in the order they were added. -/
def keys (t : Table α β) : List α :=
  t.entries.map Prod.fst

/-- The values, in the order of their keys. -/
def values (t : Table α β) : List β :=
  t.entries.map Prod.snd

/-- The number of entries. -/
def size (t : Table α β) : Nat :=
  t.entries.length

@[simp] theorem keys_empty : (empty : Table α β).keys = [] := rfl

/-- Adds an entry for a key that has none. -/
def push (t : Table α β) (k : α) (v : β) (h : k ∉ t.keys) : Table α β where
  entries := t.entries ++ [(k, v)]
  nodup := by
    rw [List.map_append, List.nodup_append]
    refine ⟨t.nodup, by simp, ?_⟩
    rintro a ha b hb rfl
    simp only [List.map_cons, List.map_nil, List.mem_singleton] at hb
    exact h (hb ▸ ha)

@[simp] theorem keys_push (t : Table α β) (k : α) (v : β) (h : k ∉ t.keys) :
    (t.push k v h).keys = t.keys ++ [k] := by
  simp [push, keys]

variable [DecidableEq α]

/-- The value for a key. -/
def get? (t : Table α β) (k : α) : Option β :=
  t.entries.lookup k

/-- Adds an entry, unless the key is there already. -/
def add? (t : Table α β) (k : α) (v : β) : Option (Table α β) :=
  if h : k ∈ t.keys then none else some (t.push k v h)

/-- Adds an entry; the value of a key that is there is replaced and the key keeps its place. -/
def insert (t : Table α β) (k : α) (v : β) : Table α β :=
  if h : k ∈ t.keys then
    { entries := t.entries.map fun e => if e.1 = k then (e.1, v) else e
      nodup := by
        rw [List.map_map]
        have : (Prod.fst ∘ fun e : α × β => if e.1 = k then (e.1, v) else e) = Prod.fst := by
          funext e
          by_cases he : e.1 = k <;> simp [he]
        rw [this]
        exact t.nodup }
  else t.push k v h

@[simp] theorem get?_empty (k : α) : (empty : Table α β).get? k = none := rfl

theorem get?_eq_some_iff {t : Table α β} {k : α} {v : β} :
    t.get? k = some v ↔ (k, v) ∈ t.entries := by
  obtain ⟨entries, nodup⟩ := t
  simp only [get?]
  induction entries with
  | nil => simp
  | cons e es ih =>
    obtain ⟨a, b⟩ := e
    rw [List.map_cons, List.nodup_cons] at nodup
    rw [List.lookup_cons]
    by_cases h : k = a
    · subst h
      have hes : ∀ c, (k, c) ∉ es := fun c hc => nodup.1 (List.mem_map.2 ⟨_, hc, rfl⟩)
      simp [hes, eq_comm]
    · have : (k == a) = false := by simpa using h
      simp [this, h, ih nodup.2]

/-- A key with a value is one of the keys. -/
theorem mem_keys_of_get? {t : Table α β} {k : α} {v : β} (h : t.get? k = some v) : k ∈ t.keys :=
  List.mem_map.2 ⟨_, get?_eq_some_iff.1 h, rfl⟩

theorem get?_eq_none_iff {t : Table α β} {k : α} : t.get? k = none ↔ k ∉ t.keys := by
  constructor
  · intro h hk
    obtain ⟨⟨a, v⟩, he, rfl⟩ := List.mem_map.1 hk
    rw [get?_eq_some_iff.2 he] at h
    cases h
  · intro hk
    cases h : t.get? k with
    | none => rfl
    | some v => exact absurd (mem_keys_of_get? h) hk

theorem get?_push (t : Table α β) (k : α) (v : β) (h : k ∉ t.keys) (x : α) :
    (t.push k v h).get? x = if x = k then some v else t.get? x := by
  by_cases hx : x = k
  · subst hx
    rw [if_pos rfl, get?_eq_some_iff]
    simp [push]
  · rw [if_neg hx]
    apply Option.ext
    intro w
    rw [get?_eq_some_iff, get?_eq_some_iff]
    simp [push, hx]

theorem add?_eq_none_iff {t : Table α β} {k : α} {v : β} : t.add? k v = none ↔ k ∈ t.keys := by
  rw [add?]
  split <;> simp [*]

theorem add?_eq_some_iff {t u : Table α β} {k : α} {v : β} :
    t.add? k v = some u ↔ ∃ h : k ∉ t.keys, u = t.push k v h := by
  rw [add?]
  split
  · simp [*]
  · rename_i h
    exact ⟨fun e => ⟨h, (Option.some.inj e).symm⟩, fun ⟨_, e⟩ => congrArg some e.symm⟩

@[simp] theorem keys_insert_of_mem {t : Table α β} {k : α} (v : β) (h : k ∈ t.keys) :
    (t.insert k v).keys = t.keys := by
  rw [insert, dif_pos h, keys, List.map_map]
  have : (Prod.fst ∘ fun e : α × β => if e.1 = k then (e.1, v) else e) = Prod.fst := by
    funext e
    by_cases he : e.1 = k <;> simp [he]
  rw [this, keys]

theorem keys_insert_of_not_mem {t : Table α β} {k : α} (v : β) (h : k ∉ t.keys) :
    (t.insert k v).keys = t.keys ++ [k] := by
  rw [insert, dif_neg h, keys_push]

end Table

end SymbolMap
