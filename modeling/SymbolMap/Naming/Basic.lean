import SymbolMap.Text.Quoted

/-!
# Namespaces and the names of a symbol

A symbol is named in one of two ways (`SymbolNames`): by a pair of an unmapped and a mapped name, or
by a row with a slot for each namespace of its collection (`NameRow`).  A collection of rows has at
least two `Namespaces`, all different and none of them empty; a slot can be vacant, and a name in it
is never empty.  These rules are part of the types.
-/

namespace SymbolMap

/-- The side names are taken to. -/
inductive Direction where
  | toMapped
  | toUnmapped
deriving DecidableEq

/-- The other side. -/
def Direction.flip : Direction → Direction
  | .toMapped => .toUnmapped
  | .toUnmapped => .toMapped

@[simp] theorem Direction.flip_flip (d : Direction) : d.flip.flip = d := by
  cases d <;> rfl

/-- The position of a namespace among the namespaces of a collection. -/
structure NamespaceId where
  index : Nat
deriving DecidableEq

/-- The names of the namespaces of a collection. -/
structure Namespaces where
  names : List String
  two_le : 2 ≤ names.length
  nonempty : "" ∉ names
  nodup : names.Nodup
deriving DecidableEq

/-- One optional name for each namespace. -/
structure NameRow where
  slots : List (Option String)
  nonempty : some "" ∉ slots
deriving DecidableEq

/-- How a symbol is named. -/
inductive SymbolNames where
  | paired (unmapped mapped : String)
  | row (names : NameRow)
deriving DecidableEq

/-- The position as messages show it. -/
def NamespaceId.describe (n : NamespaceId) : String :=
  "Namespace(" ++ toString n.index ++ ")"

namespace Namespaces

/-- The number of namespaces. -/
def size (ns : Namespaces) : Nat :=
  ns.names.length

/-- The name of a namespace, if it is one of these. -/
def name? (ns : Namespaces) (n : NamespaceId) : Option String :=
  ns.names[n.index]?

/-- The first namespace. -/
def first (ns : Namespaces) : String :=
  ns.names.head (List.ne_nil_of_length_pos (Nat.lt_of_lt_of_le (by decide) ns.two_le))

/-- The last namespace. -/
def last (ns : Namespaces) : String :=
  ns.names.getLast (List.ne_nil_of_length_pos (Nat.lt_of_lt_of_le (by decide) ns.two_le))

/-- The list of names as messages show it. -/
def describe (ns : Namespaces) : String :=
  Text.quotedList ns.names

end Namespaces

/-- Slots as messages show them. -/
def describeSlots (slots : List (Option String)) : String :=
  Text.bracketed (slots.map (Text.optional Text.quoted))

namespace NameRow

/-- The number of slots. -/
def size (r : NameRow) : Nat :=
  r.slots.length

/-- The name in a namespace; a slot that is vacant or not there has none. -/
def get? (r : NameRow) (n : NamespaceId) : Option String :=
  r.slots[n.index]?.join

/-- The row of the given names, where an empty text stands for a vacant slot. -/
def ofNames (names : List String) : NameRow where
  slots := names.map fun x => if x = "" then none else some x
  nonempty := by
    intro h
    obtain ⟨x, _, hx⟩ := List.mem_map.1 h
    split at hx <;> simp_all

/-- The row as messages show it. -/
def describe (r : NameRow) : String :=
  describeSlots r.slots

/-- A name in a row is not empty. -/
theorem ne_empty_of_get? {r : NameRow} {n : NamespaceId} {x : String} (h : r.get? n = some x) :
    x ≠ "" := by
  rintro rfl
  apply r.nonempty
  rw [get?, Option.join_eq_some_iff] at h
  exact List.mem_of_getElem? h

end NameRow

namespace SymbolNames

/-- Is the symbol named by a pair? -/
def isPaired : SymbolNames → Bool
  | .paired .. => true
  | .row _ => false

/-- All names, in order. -/
def toList : SymbolNames → List String
  | .paired unmapped mapped => [unmapped, mapped]
  | .row r => r.slots.filterMap id

/-- The name in a namespace; a pair has none. -/
def get? (n : NamespaceId) : SymbolNames → Option String
  | .paired .. => none
  | .row r => r.get? n

/-- The names as messages show them. -/
def describe : SymbolNames → String
  | .paired unmapped mapped =>
    Text.record "Paired" [("unmapped", Text.quoted unmapped), ("mapped", Text.quoted mapped)]
  | .row r => "Namespaced(" ++ r.describe ++ ")"

end SymbolNames

end SymbolMap
