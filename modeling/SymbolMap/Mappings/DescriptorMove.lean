import SymbolMap.Mappings.Basic

/-!
# Moving descriptors between namespaces

The members of a collection can carry descriptors written in different namespaces.
`GroupedMappings.descriptorsIn` moves them all to one, taking new class names from the classes of
the collection; a class without a name in that namespace keeps its old one.  A descriptor that is
already there is not even read.
-/

namespace SymbolMap

/-- The classes with a name in both namespaces, from the one name to the other. -/
def classNamesBetween (classes : List MappedClass) (source target : NamespaceId) :
    Outcome (Table String String) :=
  indexInOrder .className (classes.filterMap fun c =>
    match c.info.names.get? source, c.info.names.get? target with
    | some old, some new => some (.ok (old, new))
    | _, _ => none)

/-- The name a table gives to a class; a class that is not in it keeps its name. -/
def tabulatedName (names : Table String String) (name : String) : String :=
  (names.get? name).getD name

/-- Moves the descriptor of a member to `target`.  There is one table for each namespace, with the
names of the classes there and in `target`. -/
def Symbol.moveDescriptor (ns : Namespaces) (target : NamespaceId)
    (tables : List (Table String String)) (s : Symbol) : Outcome Symbol :=
  match s.tags.namespacedDescriptor with
  | none => .ok s
  | some d =>
    match tables[d.writtenIn.index]? with
    | none => .malformed (.namespaceRange d.writtenIn ns)
    | some names =>
      if d.writtenIn = target then .ok s
      else do
        let desc ← Outcome.within (.malformed (.invalidDescriptor d.desc s.names))
          (Descriptor.renameClasses (fun name => pure (tabulatedName names name)) d.desc)
        return s.set (.namespacedDescriptor { writtenIn := target, desc })

namespace GroupedMappings

/-- The collection with the descriptors of all fields and methods written in `target`. -/
def descriptorsIn (m : GroupedMappings) (target : String) : Outcome GroupedMappings :=
  match m.namespaces with
  | none => .malformed .movingPairs
  | some ns => do
    let target ← ns.find target
    let tables ← (List.range ns.size).mapM fun source =>
      classNamesBetween m.classes ⟨source⟩ target
    let move := Symbol.moveDescriptor ns target tables
    let classes ← m.classes.mapM (MappedClass.traverse pure move move)
    return ofParts (some ns) classes m.packages

end GroupedMappings

end SymbolMap
