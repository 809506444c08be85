import SymbolMap.Mappings.Index
import SymbolMap.Symbol.Checked

/-!
# Mapped classes

A `MappedClass` is the symbol of a class together with the symbols of its fields and methods.  Each
member carries the identity of its class as owner: members are marked when they are added, and all
marked anew when the class gets another identity (`owner_of_mem_withId`).
-/

namespace SymbolMap

/-- A class and the members it declares. -/
structure MappedClass where
  id : ClassId
  info : Symbol
  fields : List Symbol
  methods : List Symbol
deriving DecidableEq

/-- Marks a member with the class that owns it. -/
def Symbol.ownedBy (id : ClassId) (s : Symbol) : Symbol :=
  s.set (.owner id)

namespace MappedClass

/-- A class without members that is not part of a collection yet. -/
def ofInfo (info : Symbol) : MappedClass :=
  { id := ⟨0⟩, info, fields := [], methods := [] }

/-- Adds a field, marking the class as its owner. -/
def addField (c : MappedClass) (field : Symbol) : MappedClass :=
  { c with fields := c.fields ++ [field.ownedBy c.id] }

/-- Adds a method, marking the class as its owner. -/
def addMethod (c : MappedClass) (method : Symbol) : MappedClass :=
  { c with methods := c.methods ++ [method.ownedBy c.id] }

/-- The class under another identity, with all members marked anew. -/
def withId (c : MappedClass) (id : ClassId) : MappedClass :=
  { id
    info := c.info
    fields := c.fields.map (Symbol.ownedBy id)
    methods := c.methods.map (Symbol.ownedBy id) }

/-- The fields, then the methods. -/
def members (c : MappedClass) : List Symbol :=
  c.fields ++ c.methods

/-- The unmapped name of the class. -/
def unmappedName (c : MappedClass) : Outcome String :=
  c.info.unmappedName

/-- The mapped name of the class. -/
def mappedName (c : MappedClass) : Outcome String :=
  c.info.mappedName

/-- The fields by their unmapped names. -/
def fieldsByUnmappedName (c : MappedClass) : Outcome (Table String Symbol) :=
  c.fields.foldlM (fun t field => do
    let name ← field.unmappedName
    match t.add? name field with
    | some t => pure t
    | none => do
      let owner ← c.unmappedName
      Outcome.duplicate .field (owner ++ "." ++ name)) .empty

/-- Succeeds if the member is valid and owned by the class. -/
def validateMember (c : MappedClass) (member : Symbol) : Outcome Unit := do
  Outcome.within (.inClass c.info.names) member.validate
  match member.tags.owner with
  | none => Outcome.malformed (.unowned member.names c.info.names)
  | some owner =>
    if owner = c.id then pure ()
    else Outcome.malformed (.foreignOwner member.names c.info.names c.id owner)

/-- Succeeds if the class and its members are valid, have names fit for what they name, and the
members are owned by the class. -/
def validate (c : MappedClass) : Outcome Unit := do
  c.info.validate
  c.info.checkNames "class" Name.isClassName
  c.fields.forM fun field =>
    Outcome.within (.inClass c.info.names) (field.checkNames "field" Name.isUnqualified)
  c.methods.forM fun method =>
    Outcome.within (.inClass c.info.names) (method.checkNames "method" Name.isMethodName)
  c.members.forM c.validateMember

/-- Replaces the symbol of the class, then the fields and then the methods. -/
def traverse (onInfo onField onMethod : Symbol → Outcome Symbol) (c : MappedClass) :
    Outcome MappedClass := do
  let info ← onInfo c.info
  let fields ← c.fields.mapM onField
  let methods ← c.methods.mapM onMethod
  return { id := c.id, info, fields, methods }

/-- Every member of a class that got an identity carries it. -/
theorem owner_of_mem_withId {c : MappedClass} {id : ClassId} {member : Symbol}
    (h : member ∈ (c.withId id).members) : member.tags.owner = some id := by
  have marked : ∀ s : Symbol, (s.ownedBy id).tags.owner = some id := fun _ => rfl
  rw [members, withId, List.mem_append, List.mem_map, List.mem_map] at h
  rcases h with ⟨s, _, rfl⟩ | ⟨s, _, rfl⟩ <;> exact marked s

end MappedClass

end SymbolMap
