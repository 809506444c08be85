import SymbolMap.Mappings.Basic

/-!
# Class renames

`ClassRenames` are the class and package renames of a paired collection in both directions.  A class
name is looked up in the classes first; otherwise its package may be renamed, and the simple name
stays.  A name that neither changes is kept.

An array class is named by a field descriptor, and its new name is found from the class name inside
that descriptor, which is shorter.  `className_of_array` says that this is what renaming the field
descriptor gives.
-/

namespace SymbolMap

/-- Class and package renames in one direction. -/
structure Renames where
  classes : Table String String
  packages : Table String String
deriving DecidableEq

/-- The new name of a class, if it or its package is renamed. -/
def Renames.lookup (r : Renames) (name : String) : Option String :=
  match r.classes.get? name with
  | some renamed => some renamed
  | none =>
    match Name.splitPackage name with
    | (some package, simple) => (r.packages.get? package).map (Name.inPackage · simple)
    | (none, _) => none

/-- Class and package renames in both directions. -/
structure ClassRenames where
  toMapped : Renames
  toUnmapped : Renames
deriving DecidableEq

/-- The pairs of names of a list of symbols as two tables, one for each direction.  No name may
occur twice on its side. -/
def pairTables (scope mappedScope : Scope) (symbols : List Symbol) :
    Outcome (Table String String × Table String String) :=
  symbols.foldlM (fun (toMapped, toUnmapped) s => do
    let unmapped ← s.unmappedName
    let mapped ← s.mappedName
    let toMapped ← toMapped.addNew scope unmapped mapped
    let toUnmapped ← toUnmapped.addNew mappedScope mapped unmapped
    return (toMapped, toUnmapped)) (.empty, .empty)

/-- A class name is shorter than the written form of a type that holds it. -/
theorem FieldType.length_className_lt {t : FieldType} {name : String}
    (h : t.className? = some name) : name.toList.length < t.write.toList.length := by
  have key : ∀ e : ElementType, e.className? = some name →
      name.toList.length < e.chars.length := by
    rintro (p | name') he
    · cases he
    · cases he
      simp only [ElementType.chars, List.length_append, List.length_cons]
      omega
  rw [write, String.toList_ofList]
  cases t with
  | single e => exact key e h
  | array n e =>
    have := key e h
    simp only [chars, List.length_append]
    omega

namespace ClassRenames

/-- The renames of a paired collection. -/
def ofMappings (m : GroupedMappings) : Outcome ClassRenames := do
  if m.isPaired then pure () else Outcome.malformed .tabulatingNamespaces
  let (classes, classesBack) ←
    pairTables .className .mappedClassName (m.classes.map MappedClass.info)
  let (packages, packagesBack) ← pairTables .package .mappedPackage m.packages
  return { toMapped := ⟨classes, packages⟩, toUnmapped := ⟨classesBack, packagesBack⟩ }

/-- The renames of a direction. -/
def renames (t : ClassRenames) : Direction → Renames
  | .toMapped => t.toMapped
  | .toUnmapped => t.toUnmapped

/-- The number of classes. -/
def size (t : ClassRenames) : Nat :=
  t.toMapped.classes.size

/-- The new name of a class, if it is changed. -/
def lookup (t : ClassRenames) (d : Direction) (name : String) : Option String :=
  (t.renames d).lookup name

/-- The name of a class on the other side.  The class name inside the descriptor
of an array class is treated in the same way. -/
def className (t : ClassRenames) (d : Direction) (name : String) : Outcome String :=
  if Name.isArray name then
    Outcome.within (.malformed (.unrenamedField d name))
      (match _hparse : FieldType.parse name with
      | .error e => .error (.of (.descriptor e))
      | .ok type =>
        match _hclass : type.className? with
        | none => .ok type.write
        | some inner =>
          match className t d inner with
          | .error e => .error e
          | .ok renamed => .ok (type.withClass renamed).write)
  else .ok ((t.lookup d name).getD name)
termination_by name.toList.length
decreasing_by
  have := FieldType.length_className_lt _hclass
  rwa [(FieldType.parse_eq_ok_iff.1 _hparse).2] at this

/-- The field descriptor on the other side. -/
def fieldDescriptor (t : ClassRenames) (d : Direction) (desc : String) : Outcome String :=
  Outcome.within (.malformed (.unrenamedField d desc)) do
    let type ← Outcome.ofReading (FieldType.parse desc)
    let type ← type.renameClass (t.className d)
    return type.write

/-- The field or method descriptor on the other side. -/
def descriptor (t : ClassRenames) (d : Direction) (desc : String) : Outcome String :=
  Outcome.within (.malformed (.unrenamed d desc))
    (Descriptor.renameClasses (t.className d) desc)

/-- A name that is not an array's is looked up, and kept where nothing is found. -/
theorem className_of_not_array (t : ClassRenames) (d : Direction) {name : String}
    (h : Name.isArray name = false) : t.className d name = .ok ((t.lookup d name).getD name) := by
  rw [className]
  simp [h]

/-- An array class is renamed as the field descriptor it is named by. -/
theorem className_of_array (t : ClassRenames) (d : Direction) {name : String}
    (h : Name.isArray name = true) : t.className d name = t.fieldDescriptor d name := by
  rw [className, fieldDescriptor, if_pos h]
  congr 1
  split
  · rename_i e he
    rw [he]
    rfl
  · rename_i type hparse
    rw [hparse]
    show _ = type.renameClass (t.className d) >>= fun type => pure type.write
    split
    · rename_i hnone
      rw [FieldType.renameClass_of_none hnone]
      rfl
    · rename_i inner hsome
      rw [FieldType.renameClass_of_some hsome]
      cases t.className d inner <;> rfl

end ClassRenames

end SymbolMap
