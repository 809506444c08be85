import SymbolMap.Mappings.MappedClass

/-!
# Collections of mappings

Mappings come in two forms.  In `GroupedMappings` members stand under the class that declares them,
and packages can be renamed; in `FlatMappings` every name is unique on its own, so that members need
no class.  Either form is paired, or has namespaces and rows of names.

A class is known in its collection by its position.  `addClass` gives it the next one, and
`validate` checks that positions, owners and names are in order.
-/

namespace SymbolMap

/-- Mappings with members grouped by class. -/
structure GroupedMappings where
  namespaces : Option Namespaces
  classes : List MappedClass
  packages : List Symbol
deriving DecidableEq

/-- Mappings without classes around members. -/
structure FlatMappings where
  namespaces : Option Namespaces
  classes : List Symbol
  fields : List Symbol
  methods : List Symbol
deriving DecidableEq

/-- A collection of either form. -/
inductive Mappings where
  | grouped (mappings : GroupedMappings)
  | flat (mappings : FlatMappings)
deriving DecidableEq

/-- Succeeds if the symbol is named as the collection requires: by a pair where there are no
namespaces, and otherwise by a row with one slot for each. -/
def checkShape (namespaces : Option Namespaces) (s : Symbol) : Outcome Unit :=
  match namespaces, s.names with
  | none, .paired .. => .ok ()
  | some ns, .row r =>
    if r.size = ns.size then .ok () else .malformed (.misfitNames s.names namespaces)
  | _, _ => .malformed (.misfitNames s.names namespaces)

/-- The symbols by their unmapped names. -/
def symbolsByUnmappedName (scope : Scope) (symbols : List Symbol) :
    Outcome (Table String Symbol) :=
  indexInOrder scope (symbols.map fun s => do return (← s.unmappedName, s))

namespace GroupedMappings

/-- A collection without classes and packages; without namespaces it is paired. -/
def empty (namespaces : Option Namespaces) : GroupedMappings :=
  { namespaces, classes := [], packages := [] }

/-- Has every symbol an unmapped and a mapped name? -/
def isPaired (m : GroupedMappings) : Bool :=
  m.namespaces.isNone

/-- The identity of the class that is added next. -/
def nextId (m : GroupedMappings) : ClassId :=
  ⟨m.classes.length⟩

/-- Adds a class under the next identity. -/
def addClass (m : GroupedMappings) (c : MappedClass) : GroupedMappings :=
  { m with classes := m.classes ++ [c.withId m.nextId] }

/-- Adds a package. -/
def addPackage (m : GroupedMappings) (package : Symbol) : GroupedMappings :=
  { m with packages := m.packages ++ [package] }

/-- The collection of the given classes, with identities from the first to the last, and packages.
-/
def ofParts (namespaces : Option Namespaces) (classes : List MappedClass)
    (packages : List Symbol) : GroupedMappings :=
  packages.foldl addPackage (classes.foldl addClass (empty namespaces))

/-- The class with an identity. -/
def class? (m : GroupedMappings) (id : ClassId) : Option MappedClass :=
  m.classes[id.index]?

/-- The class that declares a member. -/
def ownerOf (m : GroupedMappings) (member : Symbol) : Outcome MappedClass :=
  match member.tags.owner with
  | none => .malformed (.missingAttribute .owner member.names)
  | some id =>
    match m.class? id with
    | some c => .ok c
    | none => .malformed (.unknownOwner id member.names)

/-- The classes by their unmapped names. -/
def classesByUnmappedName (m : GroupedMappings) : Outcome (Table String MappedClass) :=
  indexInOrder .className (m.classes.map fun c => do return (← c.unmappedName, c))

/-- The classes by their mapped names. -/
def classesByMappedName (m : GroupedMappings) : Outcome (Table String MappedClass) :=
  indexInOrder .className (m.classes.map fun c => do return (← c.mappedName, c))

/-- The fields by the unmapped names of class and field. -/
def fieldsByUnmappedName (m : GroupedMappings) : Outcome (Table String (Table String Symbol)) :=
  indexInOrder .className (m.classes.map fun c => do
    return (← c.unmappedName, ← c.fieldsByUnmappedName))

/-- Succeeds if the class at a position is valid and has the identity of the position. -/
def validateClass (m : GroupedMappings) (c : MappedClass) (position : Nat) : Outcome Unit := do
  if c.id = ⟨position⟩ then pure ()
  else Outcome.malformed (.misplacedClass c.info.names position c.id)
  (c.info :: c.members).forM (checkShape m.namespaces)
  c.validate

/-- Succeeds if the package is valid. -/
def validatePackage (m : GroupedMappings) (package : Symbol) : Outcome Unit := do
  checkShape m.namespaces package
  Outcome.within .inPackage do
    package.validate
    package.checkNames "package" Name.isClassName

/-- Succeeds if every class and package is valid and no two classes share an unmapped name. -/
def validate (m : GroupedMappings) : Outcome Unit := do
  m.classes.zipIdx.forM fun (c, position) => m.validateClass c position
  m.packages.forM m.validatePackage
  let _ ← m.classesByUnmappedName
  return ()

/-- Added classes go to the end, with identities that continue the count. -/
@[simp] theorem classes_addClass (m : GroupedMappings) (c : MappedClass) :
    (m.addClass c).classes = m.classes ++ [c.withId m.nextId] := rfl

@[simp] theorem classes_addPackage (m : GroupedMappings) (package : Symbol) :
    (m.addPackage package).classes = m.classes := rfl

@[simp] theorem packages_addPackage (m : GroupedMappings) (package : Symbol) :
    (m.addPackage package).packages = m.packages ++ [package] := rfl

end GroupedMappings

namespace FlatMappings

/-- The classes by their unmapped names. -/
def classesByUnmappedName (m : FlatMappings) : Outcome (Table String Symbol) :=
  symbolsByUnmappedName .className m.classes

/-- The fields by their unmapped names. -/
def fieldsByUnmappedName (m : FlatMappings) : Outcome (Table String Symbol) :=
  symbolsByUnmappedName .field m.fields

/-- The methods by their unmapped names. -/
def methodsByUnmappedName (m : FlatMappings) : Outcome (Table String Symbol) :=
  symbolsByUnmappedName .method m.methods

/-- Succeeds if every symbol is valid, has names fit for what it names, and no two symbols of one
kind share an unmapped name. -/
def validate (m : FlatMappings) : Outcome Unit := do
  (m.classes ++ m.fields ++ m.methods).forM fun s => do
    checkShape m.namespaces s
    s.validate
  m.classes.forM (Symbol.checkNames "class" Name.isClassName)
  m.fields.forM (Symbol.checkNames "field" Name.isUnqualified)
  m.methods.forM (Symbol.checkNames "method" Name.isMethodName)
  let _ ← m.classesByUnmappedName
  let _ ← m.fieldsByUnmappedName
  let _ ← m.methodsByUnmappedName
  return ()

end FlatMappings

namespace Mappings

/-- The namespaces of the collection, if it has any. -/
def namespaces : Mappings → Option Namespaces
  | grouped m => m.namespaces
  | flat m => m.namespaces

/-- Succeeds if the collection is valid. -/
def validate : Mappings → Outcome Unit
  | grouped m => m.validate
  | flat m => m.validate

end Mappings

end SymbolMap
