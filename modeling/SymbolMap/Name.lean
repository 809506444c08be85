import SymbolMap.Descriptor.Reader

/-!
# Names

Which texts may name a class, a member or a method, the names the platform reserves, and the
division of a class name into package and simple name.

A class name is a list of unqualified names with `/` between them, or the descriptor of an array.
`isClassName_iff_segments` gives the first form.  `splitPackage_join` says that a class name is put
together again from its two parts, and `splitPackage_inPackage` that it is divided into them.
-/

namespace SymbolMap.Name

/-- The pieces of a text between the slashes; a text without one is its only piece. -/
def segments : List Char → List (List Char)
  | [] => [[]]
  | c :: cs =>
    if c = '/' then [] :: segments cs
    else
      match segments cs with
      | [] => [[c]]
      | s :: ss => (c :: s) :: ss

/-- May the character stand in the name of a field, a method or a variable? -/
def isUnqualifiedChar (c : Char) : Bool :=
  !(c == '.' || c == ';' || c == '[' || c == '/')

/-- Does a character list make an unqualified name?  It has a character and only allowed ones. -/
def isUnqualifiedChars (cs : List Char) : Bool :=
  !cs.isEmpty && cs.all isUnqualifiedChar

/-- Is the text a name for a field or a local variable? -/
def isUnqualified (x : String) : Bool :=
  isUnqualifiedChars x.toList

/-- Does the text start with `[`, as the name of an array class does? -/
def isArray (x : String) : Bool :=
  x.toList.head? == some '['

/-- Is the text a name for a class?  An array class is named by its field descriptor. -/
def isClassName (x : String) : Bool :=
  if isArray x then
    match FieldType.parse x with
    | .ok _ => true
    | .error _ => false
  else (segments x.toList).all isUnqualifiedChars

/-- The two method names that stand for initialization and are never changed. -/
def isInitializer (x : String) : Bool :=
  x == "<init>" || x == "<clinit>"

/-- Is the text a name for a method?  Angle brackets occur only in the names of initializers. -/
def isMethodName (x : String) : Bool :=
  isInitializer x ||
    (!x.toList.isEmpty && x.toList.all fun c => isUnqualifiedChar c && !(c == '<' || c == '>'))

/-- The packages of the platform, whose classes no mapping changes. -/
def platformPackages : List String :=
  ["java/", "javax/", "jdk/"]

/-- Does the class belong to the platform? -/
def isPlatform (x : String) : Bool :=
  platformPackages.any fun package => package.toList.isPrefixOf x.toList

/-- The package and the simple name of a class, divided at the last slash. -/
def splitPackage (x : String) : Option String × String :=
  let backwards := x.toList.reverse
  let simple := (backwards.takeWhile (· != '/')).reverse
  match backwards.dropWhile (· != '/') with
  | [] => (none, x)
  | _ :: package => (some (String.ofList package.reverse), String.ofList simple)

/-- Puts a simple name into a package. -/
def inPackage (package simple : String) : String :=
  package ++ "/" ++ simple

/-- There is always a piece. -/
theorem segments_ne_nil (cs : List Char) : segments cs ≠ [] := by
  cases cs with
  | nil => simp [segments]
  | cons c cs =>
    rw [segments]
    split
    · simp
    · split <;> simp

/-- A name that is not an array's is valid when all its pieces are. -/
theorem isClassName_iff_segments {x : String} (h : isArray x = false) :
    isClassName x = true ↔ ∀ s ∈ segments x.toList, isUnqualifiedChars s = true := by
  simp [isClassName, h]

/-- A class name in a package is the package, a slash and the simple name. -/
theorem splitPackage_join {x package simple : String}
    (h : splitPackage x = (some package, simple)) : inPackage package simple = x := by
  have whole := List.takeWhile_append_dropWhile (p := (· != '/')) (l := x.toList.reverse)
  unfold splitPackage at h
  simp only at h
  split at h
  · cases h
  · rename_i c rest hdrop
    cases h
    have hc : c = '/' := by
      have := List.head?_dropWhile_not (· != '/') x.toList.reverse
      rw [hdrop] at this
      simpa using this
    subst hc
    rw [hdrop] at whole
    have := congrArg List.reverse whole
    simp only [List.reverse_append, List.reverse_cons, List.reverse_reverse] at this
    apply String.toList_injective
    simpa [inPackage] using this

/-- The simple name holds no slash. -/
theorem slash_not_mem_simple {x package simple : String}
    (h : splitPackage x = (some package, simple)) : '/' ∉ simple.toList := by
  unfold splitPackage at h
  simp only at h
  split at h
  · cases h
  · cases h
    rw [String.toList_ofList]
    intro hmem
    simpa using (List.all_eq_true.1 List.all_takeWhile) _ (List.mem_reverse.1 hmem)

/-- A simple name in a package is divided into the two again. -/
theorem splitPackage_inPackage {package simple : String} (h : '/' ∉ simple.toList) :
    splitPackage (inPackage package simple) = (some package, simple) := by
  have hbackwards : (inPackage package simple).toList.reverse =
      simple.toList.reverse ++ '/' :: package.toList.reverse := by
    simp [inPackage]
  have hsimple : ∀ c ∈ simple.toList.reverse, (c != '/') = true := by
    intro c hc
    simpa using fun heq : c = '/' => h (heq ▸ List.mem_reverse.1 hc)
  unfold splitPackage
  simp only
  rw [hbackwards, List.takeWhile_append_of_pos hsimple, List.dropWhile_append_of_pos hsimple]
  simp

end SymbolMap.Name
