import SymbolMap.Name
import SymbolMap.Renamer.Basic

/-!
# Resolution of members

A member is looked up in the class it is referred to through, and then in the super types of that
class.  `Renamer.search` goes up from a class along every path of super types that repeats no class,
ends a path where a member is found, and merges what the paths find.  Platform classes are not
entered.

The search takes a bound on its depth.  A path holds each class once, and only known classes have
super types, so a bound of one more than the known classes is never reached; `inherited` uses it.
-/

namespace SymbolMap

/-- A member on the mapped side. -/
structure NameAndDesc where
  name : String
  desc : String
deriving DecidableEq

namespace Renamer

/-- The super types that a search goes on to from a class: none of the platform's, and none on the
path to it. -/
def openSuperTypes (path superTypes : List String) : List String :=
  superTypes.filter fun s => !Name.isPlatform s && !decide (s ∈ path)

/-- The candidate that a class found to map the member gives. -/
def candidate (r : Renamer) (a : Lineage) (m : MemberRef) (declaring : String)
    (entry : MemberEntry) : Outcome Candidates := do
  let desc ← r.targetDescriptor entry.target m.desc
  let access ← a.access declaring m
  return .single access.visibility ⟨⟨entry.target.name, some desc⟩, declaring⟩

/-- The candidates among the super types of a class, which ends the path.  The first number bounds
the length of the paths that are followed. -/
def search (r : Renamer) (a : Lineage) (m : MemberRef) :
    Nat → List String → String → Outcome Candidates
  | 0, _, _ => .ok .empty
  | depth + 1, path, c =>
    match a.superTypes c with
    | .error e => .error e
    | .ok none => .ok .empty
    | .ok (some superTypes) =>
      (openSuperTypes path superTypes).foldlM (fun found s => do
        let more ←
          match r.lookup s m with
          | .error e => .error e
          | .ok (some entry) => r.candidate a m s entry
          | .ok none => r.search a m depth (path ++ [s]) s
        return found.merge more) .empty

/-- The target of a member that `owner` inherits. -/
def inherited (r : Renamer) (owner : String) (m : MemberRef) : Outcome (Option MemberTarget) :=
  match r.ancestry with
  | none => .error (.of (.noAncestry owner m.name m.desc))
  | some a => do
    let found ← r.search a m (a.known.length + 1) [owner] owner
    found.pick owner m.name m.desc

/-- The target of a member referred to through `owner`.  Initializers are never mapped, and without
a mapped member of the name anywhere there is nothing to search for. -/
def resolve (r : Renamer) (owner : String) (m : MemberRef) : Outcome (Option MemberTarget) :=
  if Name.isInitializer m.name then .ok none
  else
    match r.lookup owner m with
    | .error e => .error e
    | .ok (some entry) => .ok (some entry.target)
    | .ok none =>
      if m.name ∈ r.mappedNames m.kind then r.inherited owner m else .ok none

/-- The mapped name and descriptor of a member, if it is mapped. -/
def member? (r : Renamer) (owner : String) (m : MemberRef) : Outcome (Option NameAndDesc) := do
  match ← r.resolve owner m with
  | none => return none
  | some target =>
    let desc ← r.targetDescriptor target m.desc
    return some ⟨target.name, desc⟩

/-- The mapped name and descriptor of a member; an unmapped one keeps its name. -/
def member (r : Renamer) (owner : String) (m : MemberRef) : Outcome NameAndDesc := do
  match ← r.member? owner m with
  | some mapped => return mapped
  | none =>
    let desc ← r.classes.descriptor .toMapped m.desc
    return ⟨m.name, desc⟩

/-- The mapped name of a member; an unmapped one keeps its name. -/
def memberName (r : Renamer) (owner : String) (m : MemberRef) : Outcome String := do
  match ← r.member? owner m with
  | some mapped => return mapped.name
  | none => return m.name

/-- The mapped name of a local variable of a method that the class itself maps; an unmapped one
keeps its name. -/
def localName (r : Renamer) (owner method desc : String) (index : Nat) (name : String) :
    Outcome String := do
  match ← r.lookup owner ⟨.method, method, desc⟩ with
  | none => return name
  | some entry => return (entry.locals.lookup index).getD name

end Renamer

end SymbolMap
