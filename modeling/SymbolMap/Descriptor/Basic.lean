/-!
# Field and method types

A descriptor is the written form of a type.  A primitive type is one letter, a class type is
`L`, the class name and `;`, an array type is one `[` for each dimension followed by the element
type, and a method type lists its parameters in parentheses before its result, which is `V` when
there is none.

This module has the types (`FieldType`, `MethodType`), their written form, the class names in them
(`classNames`) and the replacement of these names (`renameClass`, `renameClasses`).  Not every value
can be read back from its written form; those that can are `WellFormed`.
-/

namespace SymbolMap

/-- The types that are not classes or arrays. -/
inductive Primitive where
  | byte
  | char
  | double
  | float
  | int
  | long
  | short
  | boolean
deriving DecidableEq

/-- The letter a primitive type is written as. -/
def Primitive.letter : Primitive → Char
  | .byte => 'B'
  | .char => 'C'
  | .double => 'D'
  | .float => 'F'
  | .int => 'I'
  | .long => 'J'
  | .short => 'S'
  | .boolean => 'Z'

/-- The primitive type a letter stands for. -/
def Primitive.ofLetter? : Char → Option Primitive
  | 'B' => some .byte
  | 'C' => some .char
  | 'D' => some .double
  | 'F' => some .float
  | 'I' => some .int
  | 'J' => some .long
  | 'S' => some .short
  | 'Z' => some .boolean
  | _ => none

@[simp] theorem Primitive.ofLetter?_letter (p : Primitive) : ofLetter? p.letter = some p := by
  cases p <;> rfl

theorem Primitive.letter_of_ofLetter? {c : Char} {p : Primitive} (h : ofLetter? c = some p) :
    p.letter = c := by
  unfold ofLetter? at h
  split at h <;> simp_all <;> subst h <;> rfl

/-- What an array is an array of: a type without dimensions. -/
inductive ElementType where
  | primitive (p : Primitive)
  | object (className : String)
deriving DecidableEq

/-- The type of a field, a parameter or a result. -/
inductive FieldType where
  | single (element : ElementType)
  | array (dimensions : Nat) (element : ElementType)
deriving DecidableEq

/-- The type of a method; without a result it returns nothing. -/
structure MethodType where
  parameters : List FieldType
  result : Option FieldType
deriving DecidableEq

/-! ## Written form -/

namespace ElementType

/-- The characters of the written form. -/
def chars : ElementType → List Char
  | .primitive p => [p.letter]
  | .object name => 'L' :: name.toList ++ [';']

/-- The class named by the type. -/
def className? : ElementType → Option String
  | .primitive _ => none
  | .object name => some name

/-- A class name can be read back if it has a character and does not hold the closing `;`. -/
def WellFormed : ElementType → Prop
  | .primitive _ => True
  | .object name => name.toList ≠ [] ∧ ';' ∉ name.toList

instance : DecidablePred WellFormed
  | .primitive _ => inferInstanceAs (Decidable True)
  | .object name => inferInstanceAs (Decidable (name.toList ≠ [] ∧ ';' ∉ name.toList))

/-- Replaces the class name, if there is one, by what `f` gives for it. -/
def renameClass {m : Type → Type} [Monad m] (f : String → m String) :
    ElementType → m ElementType
  | .primitive p => pure (.primitive p)
  | .object name => do return .object (← f name)

end ElementType

namespace FieldType

/-- The type with the given number of dimensions; none at all leaves the element itself. -/
def ofDimensions (n : Nat) (element : ElementType) : FieldType :=
  if n = 0 then .single element else .array n element

/-- The type without its dimensions. -/
def element : FieldType → ElementType
  | .single e => e
  | .array _ e => e

/-- The characters of the written form. -/
def chars : FieldType → List Char
  | .single e => e.chars
  | .array n e => List.replicate n '[' ++ e.chars

/-- The written form. -/
def write (t : FieldType) : String :=
  String.ofList t.chars

/-- The class named by the type, looking through the dimensions. -/
def className? (t : FieldType) : Option String :=
  t.element.className?

/-- A type that can be read back: an array has between 1 and 255 dimensions. -/
def WellFormed : FieldType → Prop
  | .single e => e.WellFormed
  | .array n e => 1 ≤ n ∧ n ≤ 255 ∧ e.WellFormed

instance : DecidablePred WellFormed
  | .single e => inferInstanceAs (Decidable e.WellFormed)
  | .array n e => inferInstanceAs (Decidable (1 ≤ n ∧ n ≤ 255 ∧ e.WellFormed))

/-- Replaces the class name, if there is one, by what `f` gives for it; the dimensions stay. -/
def renameClass {m : Type → Type} [Monad m] (f : String → m String) : FieldType → m FieldType
  | .single e => do return .single (← e.renameClass f)
  | .array n e => do return .array n (← e.renameClass f)

/-- The type with its class, if it has one, replaced. -/
def withClass (name : String) : FieldType → FieldType
  | .single (.object _) => .single (.object name)
  | .array n (.object _) => .array n (.object name)
  | t => t

section

variable {m : Type → Type} [Monad m] [LawfulMonad m] {f : String → m String} {t : FieldType}

/-- A type without a class is left as it is, and nothing is asked for. -/
theorem renameClass_of_none (h : t.className? = none) : t.renameClass f = pure t := by
  rcases t with (p | name) | ⟨n, p | name⟩
  · simp [renameClass, ElementType.renameClass]
  · cases h
  · simp [renameClass, ElementType.renameClass]
  · cases h

/-- The class of a type is the one thing asked for, and replaced by the answer. -/
theorem renameClass_of_some {name : String} (h : t.className? = some name) :
    t.renameClass f = (fun renamed => t.withClass renamed) <$> f name := by
  rcases t with (p | name') | ⟨n, p | name'⟩
  · cases h
  · cases h
    simp [renameClass, ElementType.renameClass, withClass]
  · cases h
  · cases h
    simp [renameClass, ElementType.renameClass, withClass]

end

end FieldType

namespace MethodType

/-- The characters of the written form. -/
def chars (t : MethodType) : List Char :=
  '(' :: t.parameters.flatMap FieldType.chars ++ ')' ::
    match t.result with
    | none => ['V']
    | some r => r.chars

/-- The written form. -/
def write (t : MethodType) : String :=
  String.ofList t.chars

/-- Parameters and result can all be read back. -/
def WellFormed (t : MethodType) : Prop :=
  (∀ p ∈ t.parameters, p.WellFormed) ∧ ∀ r ∈ t.result, r.WellFormed

instance : DecidablePred WellFormed := fun t =>
  inferInstanceAs (Decidable ((∀ p ∈ t.parameters, p.WellFormed) ∧ ∀ r ∈ t.result, r.WellFormed))

/-- The class names of the parameters in order, then that of the result. -/
def classNames (t : MethodType) : List String :=
  t.parameters.filterMap FieldType.className? ++ (t.result.bind FieldType.className?).toList

/-- Replaces each class name by what `f` gives for it, the parameters in order and then the
result. -/
def renameClasses {m : Type → Type} [Monad m] (f : String → m String) (t : MethodType) :
    m MethodType := do
  let parameters ← t.parameters.mapM (FieldType.renameClass f)
  let result ← match t.result with
    | none => pure none
    | some r => some <$> r.renameClass f
  return { parameters, result }

end MethodType

end SymbolMap
