import SymbolMap.Descriptor.Reader
import SymbolMap.Symbol.Basic

/-!
# What can go wrong

A `Failure` is a root cause with the contexts it was met in, the outermost first.  A mapping that
lacks information or is otherwise invalid is `Malformed`, which can be a root cause, or the context
of a more detailed one; two entries that claim one key are a duplicate in some `Scope`.

`Failure.message` gives contexts and cause in words.  `Failure.kind` sorts failures by the outermost
link that says something about mappings; a failure without such a link is plain.  A context never
hides what a mapping-related cause below it says unless it is malformed itself (`kind_within`).
-/

namespace SymbolMap

/-- What a duplicate key is a key of. -/
inductive Scope where
  | namespaceName
  | className
  | mappedClassName
  | package
  | mappedPackage
  | field
  | method
  | declaredClass
deriving DecidableEq

/-- The scope in words. -/
def Scope.describe : Scope → String
  | .namespaceName => "namespace"
  | .className => "class"
  | .mappedClassName => "mapped class"
  | .package => "package"
  | .mappedPackage => "mapped package"
  | .field => "field"
  | .method => "method"
  | .declaredClass => "scanned class"

/-- The ways in which a mapping is invalid, or lacks what a query needs. -/
inductive Malformed where
  | fewNamespaces (names : List String)
  | emptyNamespace (names : List String)
  | unknownNamespace (name : String) (known : Namespaces)
  | namespaceRange (id : NamespaceId) (known : Namespaces)
  | emptyNameInRow (slots : List (Option String))
  | noFirstName (row : NameRow)
  | noMappedName (row : NameRow)
  | shortRow (row : NameRow)
  | emptyName (names : SymbolNames)
  | invalidName (what name : String) (names : SymbolNames)
  | invalidDescriptor (desc : String) (names : SymbolNames)
  | missingAttribute (kind : AttributeKind) (names : SymbolNames)
  | localIndexRange (index : Nat) (names : SymbolNames)
  | misplacedClass (names : SymbolNames) (position : Nat) (id : ClassId)
  | unowned (member declaring : SymbolNames)
  | foreignOwner (member declaring : SymbolNames) (id owner : ClassId)
  | unknownOwner (owner : ClassId) (names : SymbolNames)
  | misfitNames (names : SymbolNames) (namespaces : Option Namespaces)
  | reversingNamespaces
  | reversingRow (names : SymbolNames)
  | chainingNamespaces
  | projectingPairs
  | projectingPair (names : SymbolNames)
  | thirdNamespace (desc : String) (names : SymbolNames) (writtenIn source target : NamespaceId)
  | movingPairs
  | tabulatingNamespaces
  | unrenamedField (direction : Direction) (desc : String)
  | unrenamed (direction : Direction) (desc : String)
  | methodWithoutDescriptor (declaring name desc : String)
  | flatAlone
deriving DecidableEq

/-- The verb for taking names to a side. -/
def Direction.verb : Direction → String
  | .toMapped => "map"
  | .toUnmapped => "unmap"

open Text in
/-- What is malformed, in words. -/
def Malformed.message : Malformed → String
  | .fewNamespaces names => "need at least two namespaces, got " ++ quotedList names
  | .emptyNamespace names =>
    "found empty namespace name in " ++ quotedList names ++
      ", every namespace name must be non-empty"
  | .unknownNamespace name known =>
    "cannot find namespace with name " ++ quoted name ++ ", only got " ++ known.describe
  | .namespaceRange id known =>
    "namespace id " ++ toString id.index ++ " out of range for " ++ known.describe
  | .emptyNameInRow slots =>
    "cannot create names where an existing name is an empty string: " ++ describeSlots slots
  | .noFirstName row => "no name for the first namespace: " ++ row.describe
  | .noMappedName row => "namespaced entity " ++ row.describe ++ " has no single mapped name"
  | .shortRow row => "namespaced entity needs at least two namespaces: " ++ row.describe
  | .emptyName names => "empty name in " ++ names.describe
  | .invalidName what name names =>
    "invalid " ++ what ++ " name " ++ quoted name ++ " in " ++ names.describe
  | .invalidDescriptor desc names =>
    "invalid descriptor " ++ quoted desc ++ " on " ++ names.describe
  | .missingAttribute kind names =>
    "missing " ++ kind.describe ++ " component on " ++ names.describe
  | .localIndexRange index names =>
    "local variable index " ++ toString index ++ " of " ++ names.describe ++
      " is outside of 0..=255"
  | .misplacedClass names position id =>
    "class " ++ names.describe ++ " at position " ++ toString position ++ " has id " ++ id.describe
  | .unowned member declaring =>
    "member " ++ member.describe ++ " of class " ++ declaring.describe ++ " has no owner"
  | .foreignOwner member declaring id owner =>
    "member " ++ member.describe ++ " of class " ++ declaring.describe ++ " (id " ++ id.describe ++
      ") claims to be owned by " ++ owner.describe
  | .unknownOwner owner names =>
    "owner " ++ owner.describe ++ " of " ++ names.describe ++ " isn't part of this collection"
  | .misfitNames names namespaces =>
    "entity names " ++ names.describe ++ " don't fit the namespaces " ++
      optional Namespaces.describe namespaces ++ " of the collection"
  | .reversingNamespaces => "can only reverse paired mappings, project namespaced ones first"
  | .reversingRow names => "can't reverse namespaced entity " ++ names.describe
  | .chainingNamespaces => "can only chain paired mappings"
  | .projectingPairs => "can only project namespaced mappings"
  | .projectingPair names => "can't project paired entity " ++ names.describe
  | .thirdNamespace desc names writtenIn source target =>
    "descriptor " ++ quoted desc ++ " of " ++ names.describe ++ " is written in namespace " ++
      writtenIn.describe ++ ", not in " ++ source.describe ++ " or " ++ target.describe
  | .movingPairs => "can only move descriptors of namespaced mappings"
  | .tabulatingNamespaces => "a class table needs paired mappings, project namespaced ones first"
  | .unrenamedField direction desc =>
    "can't " ++ direction.verb ++ " field descriptor " ++ quoted desc
  | .unrenamed direction desc => "can't " ++ direction.verb ++ " descriptor " ++ quoted desc
  | .methodWithoutDescriptor declaring name desc =>
    "method " ++ declaring ++ "." ++ name ++
      " is mapped without a descriptor, can't match it against " ++ quoted desc
  | .flatAlone => "unique mappings can't be used on their own, chain them onto classified mappings"

/-- The root of a failure. -/
inductive Cause where
  | malformed (reason : Malformed)
  | duplicate (scope : Scope) (key : String)
  | ambiguous (owner name desc : String) (candidates : List String)
  | noAncestry (owner name desc : String)
  | descriptor (error : DescriptorError)
  | otherNamespaces (expected : List String) (actual : Namespaces)
  | loop (className : String)
  | refused (message : String)
deriving DecidableEq

/-- Where a failure was met. -/
inductive Context where
  | malformed (reason : Malformed)
  | inLocal (index : Nat) (names : SymbolNames)
  | inClass (names : SymbolNames)
  | inPackage
  | invalidMappings
  | renamingField (owner name desc : String)
  | renamingMethod (owner name desc : String)
deriving DecidableEq

/-- A cause and the contexts around it, the outermost first. -/
structure Failure where
  contexts : List Context
  cause : Cause
deriving DecidableEq

/-- How a failure is classified. -/
inductive FailureKind where
  | malformed
  | duplicate
  | ambiguous
  | noAncestry
  | plain
deriving DecidableEq

/-- The text of a malformed mapping. -/
def Malformed.report (m : Malformed) : String :=
  "malformed mapping: " ++ m.message

namespace Cause

/-- The cause in words. -/
def message : Cause → String
  | malformed reason => reason.report
  | duplicate scope key => "duplicate " ++ scope.describe ++ " " ++ Text.quoted key
  | ambiguous owner name desc candidates =>
    "ambiguous inherited mapping for " ++ owner ++ "." ++ name ++ desc ++ ", candidates: " ++
      Text.quotedList candidates
  | noAncestry owner name desc =>
    "no super class provider given, but needed one for resolving " ++ owner ++ "." ++ name ++ desc
  | descriptor error => error.message
  | otherNamespaces expected actual =>
    "expected namespaces " ++ Text.quotedList expected ++ ", got " ++ actual.describe
  | loop className =>
    "found a loop in the class hierarchy, involving " ++ Text.quoted className
  | refused message => message

/-- The kind of a failure that has only this cause. -/
def kind : Cause → FailureKind
  | malformed _ => .malformed
  | duplicate .. => .duplicate
  | ambiguous .. => .ambiguous
  | noAncestry .. => .noAncestry
  | descriptor _ => .plain
  | otherNamespaces .. => .plain
  | loop _ => .plain
  | refused _ => .plain

end Cause

namespace Context

/-- The context in words. -/
def message : Context → String
  | malformed reason => reason.report
  | inLocal index names => "in local variable " ++ toString index ++ " of " ++ names.describe
  | inClass names => "in class " ++ names.describe
  | inPackage => "in package mapping"
  | invalidMappings => "invalid mappings"
  | renamingField owner name desc =>
    "failed to relink field " ++ owner ++ "." ++ name ++ ":" ++ desc
  | renamingMethod owner name desc =>
    "failed to relink method " ++ owner ++ "." ++ name ++ desc

/-- Does the context say that a mapping is malformed? -/
def isMalformed : Context → Bool
  | malformed _ => true
  | _ => false

end Context

namespace Failure

/-- A failure without context. -/
def of (cause : Cause) : Failure :=
  ⟨[], cause⟩

/-- The failure seen from one context further out. -/
def within (context : Context) (f : Failure) : Failure :=
  ⟨context :: f.contexts, f.cause⟩

/-- All contexts and the cause in words, the outermost first. -/
def message (f : Failure) : String :=
  ": ".intercalate (f.contexts.map Context.message ++ [f.cause.message])

/-- What the outermost link that is not plain says. -/
def kind (f : Failure) : FailureKind :=
  if f.contexts.any Context.isMalformed then .malformed else f.cause.kind

@[simp] theorem kind_of (cause : Cause) : (of cause).kind = cause.kind := rfl

/-- A malformed context makes a failure malformed, and any other keeps its kind. -/
theorem kind_within (c : Context) (f : Failure) :
    (f.within c).kind = if c.isMalformed then .malformed else f.kind := by
  by_cases h : c.isMalformed = true <;> simp [kind, within, h]

end Failure

/-- The outcome of something that can fail. -/
abbrev Outcome := Except Failure

namespace Outcome

variable {α : Type}

/-- Fails because a mapping is malformed. -/
def malformed (reason : Malformed) : Outcome α :=
  .error (.of (.malformed reason))

/-- Fails because a key is taken. -/
def duplicate (scope : Scope) (key : String) : Outcome α :=
  .error (.of (.duplicate scope key))

/-- Sets a failure into a context; a success stays as it is. -/
def within (context : Context) : Outcome α → Outcome α
  | .ok a => .ok a
  | .error f => .error (f.within context)

/-- The outcome of reading a descriptor. -/
def ofReading : Except DescriptorError α → Outcome α
  | .ok a => .ok a
  | .error e => .error (.of (.descriptor e))

/-- An outcome has one value. -/
theorem eq_of_eq_ok {r : Outcome α} {a b : α} (ha : r = .ok a) (hb : r = .ok b) : a = b :=
  Except.ok.inj (ha.symm.trans hb)

/-- A sequence succeeds when both parts do. -/
theorem bind_eq_ok_iff {β : Type} {r : Outcome α} {f : α → Outcome β} {b : β} :
    r >>= f = .ok b ↔ ∃ a, r = .ok a ∧ f a = .ok b := by
  cases r with
  | ok a => exact ⟨fun h => ⟨a, rfl, h⟩, fun ⟨_, ha, h⟩ => (Except.ok.inj ha) ▸ h⟩
  | error e => exact ⟨fun h => (nomatch h), fun ⟨_, ha, _⟩ => (nomatch ha)⟩

/-- A sequence fails with the failure of the first part, or of the second after a success of the
first. -/
theorem bind_eq_error_iff {β : Type} {r : Outcome α} {f : α → Outcome β} {e : Failure} :
    r >>= f = .error e ↔ r = .error e ∨ ∃ a, r = .ok a ∧ f a = .error e := by
  cases r with
  | ok a => exact ⟨fun h => .inr ⟨a, rfl, h⟩, fun h => h.elim (nomatch ·) fun ⟨_, ha, h⟩ =>
      (Except.ok.inj ha) ▸ h⟩
  | error e' =>
    exact ⟨fun h => .inl (congrArg _ (Except.error.inj h)), fun h => h.elim
      (fun h => congrArg _ (Except.error.inj h)) fun ⟨_, ha, _⟩ => (nomatch ha)⟩

/-- A check of every element of a list succeeds when it succeeds for each of them. -/
theorem forM_eq_ok_iff {β : Type} {f : β → Outcome Unit} {xs : List β} :
    xs.forM f = .ok () ↔ ∀ x ∈ xs, f x = .ok () := by
  induction xs with
  | nil => exact ⟨fun _ _ h => (nomatch h), fun _ => rfl⟩
  | cons x xs ih =>
    show (f x >>= fun _ => xs.forM f) = .ok () ↔ _
    rw [bind_eq_ok_iff, List.forall_mem_cons, ih]
    exact ⟨fun ⟨_, hx, hxs⟩ => ⟨hx, hxs⟩, fun ⟨hx, hxs⟩ => ⟨(), hx, hxs⟩⟩

@[simp] theorem within_ok (c : Context) (a : α) : within c (.ok a) = .ok a := rfl

@[simp] theorem within_eq_ok_iff {c : Context} {r : Outcome α} {a : α} :
    within c r = .ok a ↔ r = .ok a := by
  cases r <;> simp [within]

@[simp] theorem ofReading_eq_ok_iff {r : Except DescriptorError α} {a : α} :
    ofReading r = .ok a ↔ r = .ok a := by
  cases r <;> simp [ofReading]

end Outcome

end SymbolMap
