import SymbolMap.Mappings.Basic

/-!
# Reversal

Reversing a paired collection swaps the unmapped and the mapped side: names and descriptors of every
symbol, down to nested local variables.  Twice reversed, a symbol is itself again
(`Symbol.reverse_reverse`).
-/

namespace SymbolMap

/-- The pair the other way round; a row has no other way. -/
def SymbolNames.reverse : SymbolNames → Outcome SymbolNames
  | .paired unmapped mapped => .ok (.paired mapped unmapped)
  | .row r => .malformed (.reversingRow (.row r))

/-- The plain attributes with unmapped and mapped descriptor swapped. -/
def Tags.reverse (t : Tags) : Tags :=
  { t with
    unmappedDescriptor := t.mappedDescriptor
    mappedDescriptor := t.unmappedDescriptor }

@[simp] theorem Tags.reverse_reverse (t : Tags) : t.reverse.reverse = t := rfl

theorem SymbolNames.reverse_reverse {names reversed : SymbolNames}
    (h : names.reverse = .ok reversed) : reversed.reverse = .ok names := by
  cases names with
  | paired unmapped mapped =>
    cases h
    rfl
  | row r => cases h

namespace Symbol

mutual

/-- The symbol with its two sides swapped. -/
def reverse : Symbol → Outcome Symbol
  | mk names tags none => do
    let names ← names.reverse
    return mk names tags.reverse none
  | mk names tags (some table) => do
    let names ← names.reverse
    let table ← reverseLocals table
    return mk names tags.reverse (some table)

/-- The local variables with their two sides swapped. -/
def reverseLocals : List (Nat × Symbol) → Outcome (List (Nat × Symbol))
  | [] => pure []
  | (index, s) :: rest => do
    let s ← reverse s
    let rest ← reverseLocals rest
    return (index, s) :: rest

end

mutual

/-- Reversing twice gives the symbol back. -/
theorem reverse_reverse : ∀ {s r : Symbol}, s.reverse = .ok r → r.reverse = .ok s
  | mk names tags none, r, h => by
    rw [reverse, Outcome.bind_eq_ok_iff] at h
    obtain ⟨names', hnames, h⟩ := h
    cases h
    rw [reverse, SymbolNames.reverse_reverse hnames]
    rfl
  | mk names tags (some table), r, h => by
    rw [reverse, Outcome.bind_eq_ok_iff] at h
    obtain ⟨names', hnames, h⟩ := h
    obtain ⟨table', htable, h⟩ := Outcome.bind_eq_ok_iff.1 h
    cases h
    rw [reverse, SymbolNames.reverse_reverse hnames, reverseLocals_reverseLocals htable]
    rfl

/-- Reversing twice gives the local variables back. -/
theorem reverseLocals_reverseLocals : ∀ {t r : List (Nat × Symbol)},
    reverseLocals t = .ok r → reverseLocals r = .ok t
  | [], r, h => by
    cases h
    rfl
  | (index, s) :: rest, r, h => by
    rw [reverseLocals, Outcome.bind_eq_ok_iff] at h
    obtain ⟨s', hs, h⟩ := h
    obtain ⟨rest', hrest, h⟩ := Outcome.bind_eq_ok_iff.1 h
    cases h
    rw [reverseLocals, reverse_reverse hs, reverseLocals_reverseLocals hrest]
    rfl

end

end Symbol

namespace GroupedMappings

/-- The paired collection with its two sides swapped. -/
def reverse (m : GroupedMappings) : Outcome GroupedMappings := do
  if m.isPaired then pure () else Outcome.malformed .reversingNamespaces
  let classes ← m.classes.mapM
    (MappedClass.traverse Symbol.reverse Symbol.reverse Symbol.reverse)
  let packages ← m.packages.mapM Symbol.reverse
  return ofParts none classes packages

end GroupedMappings

end SymbolMap
