import SymbolMap.Mappings.Basic

/-!
# Chaining

Chaining flat mappings onto a paired collection renames its mapped side: a symbol whose mapped name
is the unmapped name of a flat one gets that one's mapped name, and mapped descriptors follow the
new class names.  Package renames stay as they are.
-/

namespace SymbolMap

/-- Replaces the mapped name of a pair by the mapped name of the flat symbol it names. -/
def Symbol.renameMapped (flat : Table String Symbol) (s : Symbol) : Outcome Symbol :=
  match s.names with
  | .paired unmapped mapped =>
    match flat.get? mapped with
    | none => .ok s
    | some target => do
      let name ← target.mappedName
      return s.withNames (.paired unmapped name)
  | .row _ => .ok s

/-- The mapped name that flat classes give to a class name; others keep their name. -/
def chainedClassName (classes : Table String Symbol) (name : String) : Outcome String :=
  match classes.get? name with
  | some target => target.mappedName
  | none => .ok name

/-- Chains a member: its mapped name, and the class names in its mapped descriptor. -/
def Symbol.chainMember (members classes : Table String Symbol) (s : Symbol) : Outcome Symbol := do
  let s ← s.renameMapped members
  match s.tags.mappedDescriptor with
  | none => pure s
  | some desc => do
    let desc ← Descriptor.renameClasses (chainedClassName classes) desc
    return s.set (.mappedDescriptor desc)

namespace GroupedMappings

/-- Renames the mapped side of a paired collection by flat mappings. -/
def chain (m : GroupedMappings) (flat : FlatMappings) : Outcome GroupedMappings := do
  if m.isPaired && flat.namespaces.isNone then pure ()
  else Outcome.malformed .chainingNamespaces
  let classes ← flat.classesByUnmappedName
  let fields ← flat.fieldsByUnmappedName
  let methods ← flat.methodsByUnmappedName
  let chained ← m.classes.mapM (MappedClass.traverse
    (Symbol.renameMapped classes)
    (Symbol.chainMember fields classes)
    (Symbol.chainMember methods classes))
  return ofParts none chained m.packages

end GroupedMappings

end SymbolMap
