import SymbolMap.Descriptor.Renaming
import SymbolMap.Name
import SymbolMap.Naming.Checked

/-!
# Checked symbols

The names and attributes a symbol must have for a query, and the rules for a valid symbol
(`Symbol.validate`): its names are not empty, its descriptors can be read, the indices of its local
variables lie between 0 and 255, and its local variables are valid and have valid names.  Which
names are allowed for the symbol itself depends on what it names, so its container asks for that
with `Symbol.checkNames`.
-/

namespace SymbolMap

/-- The greatest index a local variable can have. -/
def maxLocalIndex : Nat := 255

namespace SymbolNames

/-- Succeeds if the names are there: neither name of a pair is empty, and a row has two slots and a
name in the first one. -/
def checkPresent : SymbolNames → Outcome Unit
  | .paired unmapped mapped =>
    if unmapped = "" ∨ mapped = "" then .malformed (.emptyName (.paired unmapped mapped))
    else .ok ()
  | .row r =>
    if r.size < 2 then .malformed (.shortRow r)
    else
      match r.firstName with
      | .ok _ => .ok ()
      | .error e => .error e

end SymbolNames

/-- The descriptors among the plain attributes, in the order of their kinds. -/
def Tags.descriptors (t : Tags) : List String :=
  t.unmappedDescriptor.toList ++ t.mappedDescriptor.toList ++
    (t.namespacedDescriptor.map NamespacedDescriptor.desc).toList

namespace Symbol

/-- The unmapped name; of a row, the name in the first namespace. -/
def unmappedName (s : Symbol) : Outcome String :=
  s.names.unmapped

/-- The mapped name, which only a pair has. -/
def mappedName (s : Symbol) : Outcome String :=
  s.names.mapped

/-- The attribute of a kind, which must be there. -/
def require (s : Symbol) (kind : AttributeKind) : Outcome Attribute :=
  match s.attribute? kind with
  | some a => .ok a
  | none => .malformed (.missingAttribute kind s.names)

/-- Succeeds if every name of the symbol fits the rule; `what` says what is named. -/
def checkNames (what : String) (rule : String → Bool) (s : Symbol) : Outcome Unit :=
  s.names.check what rule

/-- Succeeds if the text is a descriptor; `names` are those of the symbol that carries it. -/
def checkDescriptor (names : SymbolNames) (desc : String) : Outcome Unit :=
  (Outcome.ofReading (Descriptor.check desc)).within (.malformed (.invalidDescriptor desc names))

mutual

/-- Succeeds if the symbol and everything nested in it is valid. -/
def validate : Symbol → Outcome Unit
  | mk names tags locals => do
    names.checkPresent
    tags.descriptors.forM (checkDescriptor names)
    match locals with
    | none => pure ()
    | some table => validateLocals names table

/-- Succeeds if the local variables of the symbol with the given names are valid. -/
def validateLocals (names : SymbolNames) : List (Nat × Symbol) → Outcome Unit
  | [] => pure ()
  | (index, s) :: rest => do
    if index ≤ maxLocalIndex then pure ()
    else Outcome.malformed (.localIndexRange index names)
    Outcome.within (.inLocal index names) do
      s.validate
      s.checkNames "local variable" Name.isUnqualified
    validateLocals names rest

end

end Symbol

end SymbolMap
