import SymbolMap.Program.Ancestry
import SymbolMap.Renamer.Candidates
import SymbolMap.Renames

/-!
# Renamers

A `Renamer` has everything to answer what a class, a member or a local variable of a program is
called on the mapped side: the class renames, and for each class its mapped members by unmapped name
and descriptor.  It also keeps the names of all mapped members, which rule out most searches, and an
ancestry for inherited members if one was given.

A member is entered under the descriptor it has on the unmapped side, which may have to be found
from the mapped one (`memberDescriptors`), or under none.  Two members of a class with one name and
one descriptor are duplicates.
-/

namespace SymbolMap

/-- What is kept of a mapped member: its target and the mapped names of its local variables. -/
structure MemberEntry where
  target : MemberTarget
  locals : List (Nat × String)
deriving DecidableEq

/-- Members by unmapped name, then by unmapped descriptor. -/
abbrev MemberTable := Table String (Table (Option String) MemberEntry)

/-- The mapped members of a class. -/
structure ClassMembers where
  fields : MemberTable
  methods : MemberTable
deriving DecidableEq

/-- What duplicates of a kind of member are reported as. -/
def MemberKind.scope : MemberKind → Scope
  | .field => .field
  | .method => .method

/-- The descriptor of a member on both sides.  A missing one is found from the other by renaming its
classes; without either there is none. -/
def memberDescriptors (classes : ClassRenames) (t : Tags) :
    Outcome (Option String × Option String) :=
  match t.unmappedDescriptor, t.mappedDescriptor with
  | some unmapped, some mapped => .ok (some unmapped, some mapped)
  | some unmapped, none => do
    let mapped ← classes.descriptor .toMapped unmapped
    return (some unmapped, some mapped)
  | none, some mapped => do
    let unmapped ← classes.descriptor .toUnmapped mapped
    return (some unmapped, some mapped)
  | none, none => .ok (none, none)

/-- The mapped names of the local variables of a symbol. -/
def mappedLocals (s : Symbol) : Outcome (List (Nat × String)) :=
  (s.locals.getD []).mapM fun (index, s) => do return (index, ← s.mappedName)

namespace MemberTable

/-- Enters a member under its name and descriptor. -/
def enter (t : MemberTable) (scope : Scope) (owner name : String) (desc : Option String)
    (entry : MemberEntry) : Outcome MemberTable :=
  match ((t.get? name).getD .empty).add? desc entry with
  | some overloads => .ok (t.insert name overloads)
  | none => .duplicate scope (owner ++ "." ++ name ++ desc.getD "")

/-- Enters the symbol of a member. -/
def enterSymbol (classes : ClassRenames) (scope : Scope) (owner : String) (t : MemberTable)
    (s : Symbol) : Outcome MemberTable := do
  let name ← s.unmappedName
  let (desc, mappedDesc) ← memberDescriptors classes s.tags
  let locals ← mappedLocals s
  let mapped ← s.mappedName
  t.enter scope owner name desc { target := ⟨mapped, mappedDesc⟩, locals }

/-- The table of a list of members. -/
def ofSymbols (classes : ClassRenames) (scope : Scope) (owner : String) (symbols : List Symbol) :
    Outcome MemberTable :=
  symbols.foldlM (enterSymbol classes scope owner) .empty

end MemberTable

namespace ClassMembers

/-- The members of a kind. -/
def table (c : ClassMembers) : MemberKind → MemberTable
  | .field => c.fields
  | .method => c.methods

/-- The members of a mapped class, which is known as `owner`. -/
def ofClass (classes : ClassRenames) (owner : String) (c : MappedClass) :
    Outcome ClassMembers := do
  let fields ← MemberTable.ofSymbols classes .field owner c.fields
  let methods ← MemberTable.ofSymbols classes .method owner c.methods
  return { fields, methods }

end ClassMembers

/-- Everything needed to rename a program. -/
structure Renamer where
  classes : ClassRenames
  members : Table String ClassMembers
  /-- The unmapped names of the fields of all classes. -/
  fieldNames : List String
  /-- The unmapped names of the methods of all classes. -/
  methodNames : List String
  ancestry : Option Ancestry

namespace Renamer

/-- The renamer from the unmapped to the mapped side of a paired collection, without an ancestry. -/
def ofMappings (m : GroupedMappings) : Outcome Renamer := do
  let classes ← ClassRenames.ofMappings m
  let members ← m.classes.mapM fun c => do
    let owner ← c.unmappedName
    let members ← ClassMembers.ofClass classes owner c
    return (owner, members)
  return {
    classes
    members := members.foldl (fun t e => t.insert e.1 e.2) .empty
    fieldNames := distinct (members.flatMap fun e => e.2.fields.keys)
    methodNames := distinct (members.flatMap fun e => e.2.methods.keys)
    ancestry := none }

/-- The renamer with an ancestry for inherited members. -/
def withAncestry (r : Renamer) (a : Ancestry) : Renamer :=
  { r with ancestry := some a }

/-- The unmapped names of all mapped members of a kind. -/
def mappedNames (r : Renamer) : MemberKind → List String
  | .field => r.fieldNames
  | .method => r.methodNames

/-- The member with a name and descriptor that exactly the given class maps.  A field without a
descriptor fits every descriptor; a method without one cannot be told from its overloads. -/
def lookup (r : Renamer) (declaring : String) (m : MemberRef) : Outcome (Option MemberEntry) :=
  match (r.members.get? declaring).bind fun c => (c.table m.kind).get? m.name with
  | none => .ok none
  | some overloads =>
    match overloads.get? (some m.desc) with
    | some entry => .ok (some entry)
    | none =>
      match m.kind, overloads.get? none with
      | .field, entry => .ok entry
      | .method, none => .ok none
      | .method, some _ => .malformed (.methodWithoutDescriptor declaring m.name m.desc)

/-- The descriptor of a target; where it has none, that of the member with its classes renamed. -/
def targetDescriptor (r : Renamer) (t : MemberTarget) (desc : String) : Outcome String :=
  match t.desc with
  | some mapped => .ok mapped
  | none => r.classes.descriptor .toMapped desc

end Renamer

end SymbolMap
