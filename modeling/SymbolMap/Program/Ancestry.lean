import SymbolMap.Access
import SymbolMap.Failure

/-!
# Ancestries

A `Lineage` answers what the direct super types of a class are and how a class declares a member.
Either question can fail.  Several lineages are asked one after the other (`firstKnowing`): the
first that knows a class answers for it.

An `Ancestry` is a lineage that knows finitely many classes.  Only the search for an inherited
member needs that, which goes up to classes that are known and has to end.
-/

namespace SymbolMap

/-- Fields and methods. -/
inductive MemberKind where
  | field
  | method
deriving DecidableEq

/-- A member as it is referred to, without a class. -/
structure MemberRef where
  kind : MemberKind
  name : String
  desc : String
deriving DecidableEq

/-- What is known of the classes of a program and of how they are related. -/
@[ext] structure Lineage where
  /-- The direct super types of a class, or nothing if the class is not known. -/
  superTypes : String → Outcome (Option (List String))
  /-- The access a class declares a member with. -/
  access : String → MemberRef → Outcome Access

namespace Lineage

/-- Is the class known? -/
def knows (a : Lineage) (c : String) : Outcome Bool := do
  return (← a.superTypes c).isSome

/-- The super types from the first lineage that knows the class. -/
def firstSuperTypes (c : String) : List Lineage → Outcome (Option (List String))
  | [] => .ok none
  | a :: rest =>
    match a.superTypes c with
    | .error e => .error e
    | .ok (some s) => .ok (some s)
    | .ok none => firstSuperTypes c rest

/-- The access from the first lineage that knows the class; a class nobody knows is taken to declare
everything public. -/
def firstAccess (c : String) (m : MemberRef) : List Lineage → Outcome Access
  | [] => .ok Access.publicFlag
  | a :: rest => do
    if ← a.knows c then a.access c m else firstAccess c m rest

/-- The lineages one after the other. -/
def firstKnowing (as : List Lineage) : Lineage where
  superTypes c := firstSuperTypes c as
  access c m := firstAccess c m as

/-- Super types that are found are those of one of the lineages. -/
theorem exists_mem_of_firstSuperTypes {c : String} {s : List String} {as : List Lineage}
    (h : firstSuperTypes c as = .ok (some s)) : ∃ a ∈ as, a.superTypes c = .ok (some s) := by
  induction as with
  | nil => cases h
  | cons a rest ih =>
    rw [firstSuperTypes] at h
    split at h
    · cases h
    · rename_i s' hs
      exact ⟨a, List.mem_cons_self, hs.trans h⟩
    · obtain ⟨b, hb, hs⟩ := ih h
      exact ⟨b, List.mem_cons_of_mem _ hb, hs⟩

end Lineage

/-- A lineage with finitely many classes. -/
structure Ancestry extends Lineage where
  /-- Classes among which all known ones are. -/
  known : List String
  /-- A class with an answer is among them. -/
  mem_known : ∀ c s, superTypes c = .ok (some s) → c ∈ known

instance : CoeOut Ancestry Lineage := ⟨Ancestry.toLineage⟩

namespace Ancestry

/-- The ancestries one after the other, which know what one of them knows. -/
def firstKnowing (as : List Ancestry) : Ancestry where
  toLineage := Lineage.firstKnowing (as.map toLineage)
  known := as.flatMap known
  mem_known c s h := by
    obtain ⟨_, hmem, hs⟩ := Lineage.exists_mem_of_firstSuperTypes h
    obtain ⟨a, ha, rfl⟩ := List.mem_map.1 hmem
    exact List.mem_flatMap.2 ⟨a, ha, a.mem_known c s hs⟩

end Ancestry

end SymbolMap
