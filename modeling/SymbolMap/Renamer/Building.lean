import SymbolMap.Mappings.DescriptorMove
import SymbolMap.Mappings.Projection
import SymbolMap.Mappings.Reversal
import SymbolMap.Renamer.Basic

/-!
# Building renamers

A renamer between two namespaces is built from the projection to them, after all descriptors have
been moved to the source (`Renamer.between`).  `Renamer.ofCollection` takes any collection, checks
it first, and builds the renamer for one of the two directions; a collection with namespaces is
taken from the first to the last.
-/

namespace SymbolMap.Renamer

/-- The paired collection between two namespaces, whatever namespace descriptors are written in. -/
def pairedBetween (m : GroupedMappings) (source target : String) : Outcome GroupedMappings := do
  let moved ← m.descriptorsIn source
  moved.project source target

/-- The renamer from one namespace to another. -/
def between (m : GroupedMappings) (source target : String) : Outcome Renamer := do
  let paired ← pairedBetween m source target
  ofMappings paired

/-- The paired collection that grouped mappings stand for: from the first to the last namespace
where there are any. -/
def pairedFrom (m : GroupedMappings) : Outcome GroupedMappings :=
  match m.namespaces with
  | none => .ok m
  | some ns => pairedBetween m ns.first ns.last

/-- The paired collection with the side names are taken to as the mapped one. -/
def directed (m : GroupedMappings) : Direction → Outcome GroupedMappings
  | .toMapped => .ok m
  | .toUnmapped => m.reverse

/-- The renamer of a valid collection in a direction.  Flat mappings have no classes to look members
up in, so they make no renamer. -/
def ofCollection (m : Mappings) (d : Direction) (a : Option Ancestry) : Outcome Renamer :=
  match m with
  | .flat _ => .malformed .flatAlone
  | .grouped m => do
    Outcome.within .invalidMappings m.validate
    let paired ← pairedFrom m
    let paired ← directed paired d
    let r ← ofMappings paired
    return { r with ancestry := a }

end SymbolMap.Renamer
