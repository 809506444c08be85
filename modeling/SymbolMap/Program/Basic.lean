import SymbolMap.Mappings.Index
import SymbolMap.Name
import SymbolMap.Program.Ancestry
import SymbolMap.Program.Loop

/-!
# Programs

A `Program` is a collection of declared classes.  For each it records the super types that matter
for inherited members: the super class, then the interfaces, without the classes of the platform.
A program is an ancestry, in which a member that is not declared counts as public.

`Program.checkAcyclic` succeeds unless a class is among its own super types, directly or through
others.
-/

namespace SymbolMap

/-- A member as a class declares it. -/
structure DeclaredMember where
  access : Access
  name : String
  desc : String
deriving DecidableEq

/-- A class with what it extends and declares. -/
structure DeclaredClass where
  name : String
  superClass : Option String
  interfaces : List String
  fields : List DeclaredMember
  methods : List DeclaredMember
deriving DecidableEq

namespace DeclaredClass

/-- The declared members of a kind. -/
def members (c : DeclaredClass) : MemberKind → List DeclaredMember
  | .field => c.fields
  | .method => c.methods

/-- The super class and the interfaces, each once and without those of the platform. -/
def superTypes (c : DeclaredClass) : List String :=
  distinct ((c.superClass.toList ++ c.interfaces).filter fun s => !Name.isPlatform s)

/-- The access a member is declared with; an undeclared one counts as public. -/
def access (c : DeclaredClass) (m : MemberRef) : Access :=
  match (c.members m.kind).find? fun d => d.name == m.name && d.desc == m.desc with
  | some declared => declared.access
  | none => Access.publicFlag

end DeclaredClass

/-- Declared classes and their super types, by class name. -/
structure Program where
  classes : Table String DeclaredClass
  superTypes : Table String (List String)
deriving DecidableEq

namespace Program

/-- The program without classes. -/
def empty : Program := ⟨.empty, .empty⟩

/-- Adds a class, whose name must be new. -/
def add (p : Program) (c : DeclaredClass) : Outcome Program :=
  match p.classes.add? c.name c with
  | none => .duplicate .declaredClass c.name
  | some classes =>
    .ok { classes, superTypes := p.superTypes.insert c.name c.superTypes }

/-- The program of the given classes. -/
def ofClasses (classes : List DeclaredClass) : Outcome Program :=
  classes.foldlM add empty

/-- The class with a name. -/
def get? (p : Program) (name : String) : Option DeclaredClass :=
  p.classes.get? name

/-- How the program declares a member of a class. -/
def access (p : Program) (c : String) (m : MemberRef) : Access :=
  match p.classes.get? c with
  | some declared => declared.access m
  | none => Access.publicFlag

/-- The program as an ancestry. -/
def ancestry (p : Program) : Ancestry where
  superTypes c := .ok (p.superTypes.get? c)
  access c m := .ok (p.access c m)
  known := p.superTypes.keys
  mem_known _ _ h := Table.mem_keys_of_get? (Except.ok.inj h)

/-- The super types recorded for a class. -/
def recorded (p : Program) (c : String) : List String :=
  (p.superTypes.get? c).getD []

/-- The classes that have `c` among their recorded super types, in order. -/
def subTypes (p : Program) (c : String) : List String :=
  p.superTypes.keys.filter fun s => decide (c ∈ p.recorded s)

/-- All classes and their super types, each where it is first mentioned. -/
def mentioned (p : Program) : List String :=
  distinct (p.superTypes.entries.flatMap fun e => e.1 :: e.2)

/-- Succeeds if no class is among its own super types. -/
def checkAcyclic (p : Program) : Outcome Unit :=
  match Loop.find? p.mentioned p.recorded p.subTypes with
  | some c => .error (.of (.loop c))
  | none => .ok ()

end Program

end SymbolMap
