import SymbolMap.Renamer.Basic

/-!
# Renamers in words

The text that shows what a renamer has in its tables, each in order of insertion.
-/

namespace SymbolMap

open Text

/-- A table from names to names. -/
def describeNames (t : Table String String) : String :=
  braced (t.entries.map fun e => (quoted e.1, quoted e.2))

/-- Class and package renames in both directions. -/
def ClassRenames.describe (c : ClassRenames) : String :=
  record "ClassTable" [
    ("to_mapped", describeNames c.toMapped.classes),
    ("to_unmapped", describeNames c.toUnmapped.classes),
    ("packages_to_mapped", describeNames c.toMapped.packages),
    ("packages_to_unmapped", describeNames c.toUnmapped.packages)]

/-- The target of a member. -/
def MemberTarget.describe (t : MemberTarget) : String :=
  record "MemberTarget" [("name", quoted t.name), ("desc", optional quoted t.desc)]

/-- The entry of a member, local variables by index. -/
def MemberEntry.describe (e : MemberEntry) : String :=
  record "MemberEntry" [
    ("target", e.target.describe),
    ("locals", braced (e.locals.map fun l => (toString l.1, quoted l.2)))]

/-- Members by name and descriptor. -/
def MemberTable.describe (t : MemberTable) : String :=
  braced (t.entries.map fun e =>
    (quoted e.1, braced (e.2.entries.map fun d => (optional quoted d.1, d.2.describe))))

/-- The members of a class. -/
def ClassMembers.describe (c : ClassMembers) : String :=
  record "ClassMembers" [
    ("fields", MemberTable.describe c.fields),
    ("methods", MemberTable.describe c.methods)]

/-- The tables of a renamer, and whether it has an ancestry. -/
def Renamer.describe (r : Renamer) : String :=
  "Remapper \x7b classes: " ++ r.classes.describe ++ ", members: " ++
    braced (r.members.entries.map fun e => (quoted e.1, e.2.describe)) ++
    ", hierarchy: " ++ (if r.ancestry.isSome then "true" else "false") ++ ", .. \x7d"

end SymbolMap
