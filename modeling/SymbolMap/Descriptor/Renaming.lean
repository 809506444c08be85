import SymbolMap.Failure

/-!
# Class names in descriptors

`Descriptor.renameClasses` replaces the class names in the text of a descriptor, which is read as a
method descriptor if it starts with `(` and as a field descriptor otherwise.  The replacement may
fail or record what it is asked for: it runs in any monad in which a `Failure` can be thrown, and is
asked for the class names from left to right.

A method descriptor without parameters and with a primitive result or none has no class name in it
and is returned unread.  `renameClasses_eq_reread` says that reading it would give the same.
-/

namespace SymbolMap.Descriptor

/-- Is the text taken for a method descriptor? -/
def isMethod (desc : String) : Bool :=
  desc.toList.head? == some '('

/-- Is the text a method descriptor without parameters and with a primitive result or none? -/
def isTrivial (desc : String) : Bool :=
  match desc.toList with
  | ['(', ')', c] => c == 'V' || (Primitive.ofLetter? c).isSome
  | _ => false

/-- Succeeds if the text is a descriptor. -/
def check (desc : String) : Except DescriptorError Unit :=
  if isMethod desc then
    match MethodType.parse desc with
    | .ok _ => .ok ()
    | .error e => .error e
  else
    match FieldType.parse desc with
    | .ok _ => .ok ()
    | .error e => .error e

/-- The class names in a descriptor, from left to right. -/
def classNames (desc : String) : Except DescriptorError (List String) :=
  if isMethod desc then
    match MethodType.parse desc with
    | .ok t => .ok t.classNames
    | .error e => .error e
  else
    match FieldType.parse desc with
    | .ok t => .ok t.className?.toList
    | .error e => .error e

section

variable {m : Type → Type} [Monad m] [MonadExceptOf Failure m]

/-- Goes on with what was read, or throws the reason why nothing was. -/
def orThrow {α : Type} : Except DescriptorError α → m α
  | .ok a => pure a
  | .error e => throwThe Failure (.of (.descriptor e))

/-- Reads a descriptor, replaces its class names and writes it again. -/
def reread (f : String → m String) (desc : String) : m String := do
  if isMethod desc then
    let t ← orThrow (MethodType.parse desc)
    return (← t.renameClasses f).write
  else
    let t ← orThrow (FieldType.parse desc)
    return (← t.renameClass f).write

/-- Replaces every class name in a descriptor by what `f` gives for it. -/
def renameClasses (f : String → m String) (desc : String) : m String :=
  if isTrivial desc then pure desc else reread f desc

end

/-- A trivial descriptor is the written form of a method type that names no class. -/
theorem parse_of_isTrivial {desc : String} (h : isTrivial desc = true) :
    isMethod desc = true ∧
      ∃ result, MethodType.parse desc = .ok ⟨[], result⟩ ∧
        (MethodType.mk [] result).write = desc ∧
        (result = none ∨ ∃ p, result = some (.single (.primitive p))) := by
  unfold isTrivial at h
  split at h
  · rename_i c hcs
    refine ⟨by simp [isMethod, hcs], ?_⟩
    have hdesc : desc = String.ofList ['(', ')', c] := by rw [← hcs, String.ofList_toList]
    by_cases hV : c = 'V'
    · subst hV
      refine ⟨none, ?_, ?_, .inl rfl⟩
      · simp [MethodType.parse, hcs, readParameters, readResult]
      · rw [hdesc]
        rfl
    · have hsome : (Primitive.ofLetter? c).isSome = true := by simpa [hV] using h
      obtain ⟨p, hp⟩ := Option.isSome_iff_exists.1 hsome
      have hc := Primitive.letter_of_ofLetter? hp
      subst hc
      refine ⟨some (.single (.primitive p)), ?_, ?_, .inr ⟨p, rfl⟩⟩
      · rw [MethodType.parse, hcs]
        cases p <;> simp [readParameters] <;> rfl
      · rw [hdesc]
        rfl
  · cases h

/-- The short way for trivial descriptors gives what reading them gives. -/
theorem renameClasses_eq_reread {m : Type → Type} [Monad m] [LawfulMonad m]
    [MonadExceptOf Failure m] (f : String → m String) (desc : String) :
    renameClasses f desc = reread f desc := by
  rw [renameClasses]
  split
  · rename_i h
    obtain ⟨hmethod, result, hparse, hwrite, hresult⟩ := parse_of_isTrivial h
    rw [reread, if_pos hmethod, hparse]
    rcases hresult with rfl | ⟨p, rfl⟩ <;>
      simp [orThrow, MethodType.renameClasses, FieldType.renameClass, ElementType.renameClass,
        hwrite]
  · rfl

end SymbolMap.Descriptor
