import SymbolMap.Naming.Checked
import SymbolMap.Table

/-!
# Indices

An index is a table filled from a list of entries, each of which may fail to be made.  The first
thing that is wrong in list order decides: an entry that failed, or a key that an earlier entry
has.  Nothing is overwritten, so an index that is built lists every entry, in order
(`entries_indexInOrder`).
-/

namespace SymbolMap

variable {β : Type}

/-- Adds an entry to a table, or reports its key as taken. -/
def Table.addNew (scope : Scope) (t : Table String β) (key : String) (value : β) :
    Outcome (Table String β) :=
  match t.add? key value with
  | some t => .ok t
  | none => .duplicate scope key

theorem Table.addNew_eq_ok_iff {scope : Scope} {t u : Table String β} {key : String} {value : β} :
    t.addNew scope key value = .ok u ↔ ∃ h : key ∉ t.keys, u = t.push key value h := by
  rw [addNew, ← add?_eq_some_iff]
  cases t.add? key value with
  | some t =>
    exact ⟨fun h => congrArg some (Except.ok.inj h), fun h => congrArg _ (Option.some.inj h)⟩
  | none => exact ⟨fun h => (nomatch h), fun h => (nomatch h)⟩

theorem Table.addNew_eq_error_iff {scope : Scope} {t : Table String β} {key : String} {value : β}
    {f : Failure} :
    t.addNew scope key value = .error f ↔ key ∈ t.keys ∧ f = .of (.duplicate scope key) := by
  rw [addNew]
  split
  · rename_i u hadd
    obtain ⟨hnew, -⟩ := add?_eq_some_iff.1 hadd
    exact ⟨fun h => (nomatch h), fun h => absurd h.1 hnew⟩
  · rename_i hadd
    exact ⟨fun h => ⟨add?_eq_none_iff.1 hadd, (Except.error.inj h).symm⟩, fun h => h.2 ▸ rfl⟩

/-- Enters a list of entries into a table, from the first to the last. -/
def indexOnto (scope : Scope) (t : Table String β) (entries : List (Outcome (String × β))) :
    Outcome (Table String β) :=
  entries.foldlM (fun t entry => do
    let (key, value) ← entry
    t.addNew scope key value) t

/-- The table of a list of entries. -/
def indexInOrder (scope : Scope) (entries : List (Outcome (String × β))) :
    Outcome (Table String β) :=
  indexOnto scope .empty entries

/-- Building an index succeeds with exactly the entries, in order, after those that were there. -/
theorem entries_indexOnto {scope : Scope} {t u : Table String β}
    {entries : List (Outcome (String × β))} (h : indexOnto scope t entries = .ok u) :
    ∃ made, entries = made.map .ok ∧ u.entries = t.entries ++ made := by
  induction entries generalizing t with
  | nil =>
    cases h
    exact ⟨[], rfl, (List.append_nil _).symm⟩
  | cons entry entries ih =>
    rw [indexOnto, List.foldlM_cons, Outcome.bind_eq_ok_iff] at h
    obtain ⟨t', hadd, hrest⟩ := h
    obtain ⟨⟨key, value⟩, rfl, hadd⟩ := Outcome.bind_eq_ok_iff.1 hadd
    obtain ⟨hkey, rfl⟩ := Table.addNew_eq_ok_iff.1 hadd
    obtain ⟨made, rfl, hu⟩ := ih hrest
    exact ⟨(key, value) :: made, rfl, by rw [hu]; simp [Table.push]⟩

/-- An index that is built lists exactly the entries, in order. -/
theorem entries_indexInOrder {scope : Scope} {u : Table String β}
    {entries : List (Outcome (String × β))} (h : indexInOrder scope entries = .ok u) :
    entries = u.entries.map .ok := by
  obtain ⟨made, hmade, hu⟩ := entries_indexOnto h
  rw [hmade, hu]
  rfl

end SymbolMap
