import SymbolMap.Mappings.Basic

/-!
# Projection

Projecting a collection with namespaces takes two of them, a source and a target, and gives the
paired collection that maps from one to the other.  A symbol without a name in the source is left
out, and one without a name in the target keeps the name of the source.  Descriptors must be written
in one of the two.
-/

namespace SymbolMap

/-- The plain attributes of a projected symbol.  Its descriptor goes to the side it is written in,
and its owner is found anew. -/
def Tags.project (names : SymbolNames) (source target : NamespaceId) (t : Tags) : Outcome Tags :=
  let bare := { t with namespacedDescriptor := none, owner := none }
  match t.namespacedDescriptor with
  | none => .ok bare
  | some d =>
    if d.writtenIn = source then .ok { bare with unmappedDescriptor := some d.desc }
    else if d.writtenIn = target then .ok { bare with mappedDescriptor := some d.desc }
    else .malformed (.thirdNamespace d.desc names d.writtenIn source target)

namespace Symbol

mutual

/-- The symbol as a pair of its names in source and target, if it has one in the source. -/
def project (source target : NamespaceId) : Symbol → Outcome (Option Symbol)
  | mk (.paired unmapped mapped) _ _ =>
    Outcome.malformed (.projectingPair (.paired unmapped mapped))
  | mk (.row r) tags locals =>
    match r.get? source with
    | none => pure none
    | some unmapped => do
      let tags ← tags.project (.row r) source target
      let locals ← match locals with
        | none => pure none
        | some table => do
          let table ← projectLocals source target table
          pure (some table)
      return some (mk (.paired unmapped ((r.get? target).getD unmapped)) tags locals)

/-- The local variables that have a name in the source, each projected. -/
def projectLocals (source target : NamespaceId) :
    List (Nat × Symbol) → Outcome (List (Nat × Symbol))
  | [] => pure []
  | (index, s) :: rest => do
    let s ← project source target s
    let rest ← projectLocals source target rest
    return match s with
      | none => rest
      | some s => (index, s) :: rest

end

end Symbol

/-- Projects a list of symbols and keeps those that have a name in the source. -/
def projectAll (source target : NamespaceId) (symbols : List Symbol) : Outcome (List Symbol) := do
  let projected ← symbols.mapM (Symbol.project source target)
  return projected.filterMap id

/-- Projects a class with its members, if the class has a name in the source. -/
def MappedClass.project (source target : NamespaceId) (c : MappedClass) :
    Outcome (Option MappedClass) := do
  match ← c.info.project source target with
  | none => return none
  | some info =>
    let fields ← projectAll source target c.fields
    let methods ← projectAll source target c.methods
    return some { id := c.id, info, fields, methods }

namespace GroupedMappings

/-- The paired collection that maps from the namespace `source` to the namespace `target`. -/
def project (m : GroupedMappings) (source target : String) : Outcome GroupedMappings :=
  match m.namespaces with
  | none => .malformed .projectingPairs
  | some ns => do
    let source ← ns.find source
    let target ← ns.find target
    let classes ← m.classes.mapM (MappedClass.project source target)
    let packages ← projectAll source target m.packages
    return ofParts none (classes.filterMap id) packages

end GroupedMappings

end SymbolMap
