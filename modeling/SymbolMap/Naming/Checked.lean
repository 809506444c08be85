import SymbolMap.Failure

/-!
# Checked names

Building namespaces and rows of names from texts, and the questions on them that can fail.  Each
function says what is wrong; what is right is in the types, so a value that has been built needs no
second check.
-/

namespace SymbolMap

/-- The first element that occurs earlier in the list. -/
def firstRepeated? {α : Type} [DecidableEq α] (seen : List α) : List α → Option α
  | [] => none
  | x :: xs => if x ∈ seen then some x else firstRepeated? (x :: seen) xs

/-- A list without repetition has pairwise distinct elements, none of them seen before. -/
theorem nodup_of_firstRepeated? {α : Type} [DecidableEq α] {seen xs : List α}
    (h : firstRepeated? seen xs = none) : xs.Nodup ∧ ∀ x ∈ xs, x ∉ seen := by
  induction xs generalizing seen with
  | nil => simp
  | cons x xs ih =>
    rw [firstRepeated?] at h
    split at h
    · cases h
    · rename_i hx
      obtain ⟨hnodup, hseen⟩ := ih h
      refine ⟨List.nodup_cons.2 ⟨fun hmem => hseen x hmem (by simp), hnodup⟩, ?_⟩
      intro y hy
      rcases List.mem_cons.1 hy with rfl | hy
      · exact hx
      · exact fun hys => hseen y hy (by simp [hys])

namespace Namespaces

/-- The namespaces with the given names: at least two, none of them empty, no two the same. -/
def ofNames (names : List String) : Outcome Namespaces :=
  if two : names.length < 2 then .malformed (.fewNamespaces names)
  else if empty : "" ∈ names then .malformed (.emptyNamespace names)
  else
    match repeated : firstRepeated? [] names with
    | some name => .duplicate .namespaceName name
    | none =>
      .ok
        { names
          two_le := Nat.le_of_not_lt two
          nonempty := empty
          nodup := (nodup_of_firstRepeated? repeated).1 }

/-- The namespace with a name. -/
def find (ns : Namespaces) (name : String) : Outcome NamespaceId :=
  match ns.names.findIdx? (· == name) with
  | some i => .ok ⟨i⟩
  | none => .malformed (.unknownNamespace name ns)

/-- Succeeds for a namespace that is one of these. -/
def checkId (ns : Namespaces) (n : NamespaceId) : Outcome Unit :=
  if n.index < ns.size then .ok () else .malformed (.namespaceRange n ns)

/-- Succeeds if these are the namespaces with exactly the given names. -/
def checkNames (ns : Namespaces) (names : List String) : Outcome Unit :=
  if ns.names = names then .ok () else .error (.of (.otherNamespaces names ns))

end Namespaces

namespace NameRow

/-- The row with the given slots, in which a name must not be empty. -/
def ofSlots (slots : List (Option String)) : Outcome NameRow :=
  if h : some "" ∈ slots then .malformed (.emptyNameInRow slots) else .ok ⟨slots, h⟩

/-- The name in the first namespace. -/
def firstName (r : NameRow) : Outcome String :=
  match r.slots with
  | some name :: _ => .ok name
  | _ => .malformed (.noFirstName r)

end NameRow

namespace SymbolNames

/-- The unmapped name; of a row, the name in the first namespace. -/
def unmapped : SymbolNames → Outcome String
  | .paired unmapped _ => .ok unmapped
  | .row r => r.firstName

/-- The mapped name, which only a pair has. -/
def mapped : SymbolNames → Outcome String
  | .paired _ mapped => .ok mapped
  | .row r => .malformed (.noMappedName r)

/-- Succeeds if every name fits the rule; `what` says what is named. -/
def check (what : String) (rule : String → Bool) (names : SymbolNames) : Outcome Unit :=
  match names.toList.find? fun name => !rule name with
  | some name => .malformed (.invalidName what name names)
  | none => .ok ()

/-- Names fit a rule when each of them does. -/
theorem check_eq_ok_iff {what : String} {rule : String → Bool} {names : SymbolNames} :
    check what rule names = .ok () ↔ ∀ name ∈ names.toList, rule name = true := by
  rw [check]
  split
  · rename_i name h
    have hmem := List.mem_of_find?_eq_some h
    have hrule := List.find?_some h
    constructor
    · intro h'
      cases h'
    · intro h'
      simp [h' name hmem] at hrule
  · rename_i h
    simpa using h

end SymbolNames

end SymbolMap
