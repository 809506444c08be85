import SymbolMap.Program.Basic
import SymbolMap.Renamer.Resolution

/-!
# Renaming programs

`Renamer.declaredClass` renames a declared class: its members, its own name and its super types.
`Renamer.program` renames all classes of a program, which fails when two of them get the same name.
-/

namespace SymbolMap.Renamer

/-- The declared member under its new name and descriptor; its access stays. -/
def declaredMember (r : Renamer) (owner : String) (kind : MemberKind) (d : DeclaredMember) :
    Outcome DeclaredMember := do
  let mapped ← r.member owner ⟨kind, d.name, d.desc⟩
  return { access := d.access, name := mapped.name, desc := mapped.desc }

/-- The declared class with everything renamed. -/
def declaredClass (r : Renamer) (c : DeclaredClass) : Outcome DeclaredClass := do
  let fields ← c.fields.mapM fun d =>
    Outcome.within (.renamingField c.name d.name d.desc) (r.declaredMember c.name .field d)
  let methods ← c.methods.mapM fun d =>
    Outcome.within (.renamingMethod c.name d.name d.desc) (r.declaredMember c.name .method d)
  let name ← r.classes.className .toMapped c.name
  let superClass ← c.superClass.mapM (r.classes.className .toMapped)
  let interfaces ← c.interfaces.mapM (r.classes.className .toMapped)
  return { name, superClass, interfaces, fields, methods }

/-- The program of the renamed classes. -/
def program (r : Renamer) (p : Program) : Outcome Program := do
  let classes ← p.classes.values.mapM r.declaredClass
  Program.ofClasses classes

end SymbolMap.Renamer
