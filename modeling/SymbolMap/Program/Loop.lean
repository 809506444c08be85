/-!
# Loops in a relation

`Loop.find?` looks for an element of a finite relation that leads back to itself.  A depth-first
walk lists the elements in the order in which it is done with them, so that without a loop every
element comes after all that it leads to.  Going through that list backwards, each element must
then be met after all elements that lead to it; the first that is not gives a loop away.

An element that leads to itself directly is reported by the walk.
-/

namespace SymbolMap.Loop

variable {α : Type} [DecidableEq α]

/-- How far a walk has come: the elements it has not met, and those it is done with, in order. -/
structure Progress (α : Type) where
  unmet : List α
  done : List α
deriving DecidableEq

/-- Walks to an element and on to everything it leads to, unless the element was met before.  The
walk stops at an element that leads to itself.  The number bounds how deep it goes; as elements are
met only once, the number of unmet ones is enough. -/
def visit (next : α → List α) : Nat → Progress α → α → Except α (Progress α)
  | 0, p, _ => .ok p
  | depth + 1, p, x =>
    if x ∈ p.unmet then
      if x ∈ next x then .error x
      else do
        let p ← (next x).foldlM (visit next depth) { p with unmet := p.unmet.erase x }
        return { p with done := p.done ++ [x] }
    else .ok p

/-- All elements in the order in which a walk through them is done with each. -/
def finishOrder (next : α → List α) (elements : List α) : Except α (List α) := do
  let p ← elements.foldlM (visit next elements.length) { unmet := elements, done := [] }
  return p.done

/-- The first element of a list to which something leads that neither stands before it nor is the
element itself; the result is what leads to it. -/
def lateSource? (sources : α → List α) (met : List α) : List α → Option α
  | [] => none
  | x :: rest =>
    match (sources x).find? fun y => decide (y ∉ x :: met) with
    | some y => some y
    | none => lateSource? sources (x :: met) rest

/-- An element on a loop, if there is one.  `next` is where an element leads to, and `sources` what
leads to it. -/
def find? (elements : List α) (next sources : α → List α) : Option α :=
  match finishOrder next elements with
  | .error x => some x
  | .ok order => lateSource? sources [] order.reverse

end SymbolMap.Loop
