import SymbolMap.Descriptor.Basic
import SymbolMap.Text.Quoted

/-!
# Reading descriptors

`FieldType.parse` and `MethodType.parse` read a whole text as a descriptor; what goes wrong is a
`DescriptorError`, whose `message` gives the reason.  Both are built on `FieldType.read`, which
reads one type from the front of a character list and returns the rest.

A type is read from exactly its written form: `read_chars` says that the written form of a
well-formed type is read back, whatever follows it, and `chars_of_read` that nothing else is
accepted.
-/

namespace SymbolMap

/-- Outcomes are compared by what they hold. -/
instance decEqExcept {ε α : Type} [DecidableEq ε] [DecidableEq α] : DecidableEq (Except ε α)
  | .ok a, .ok b =>
    if h : a = b then isTrue (congrArg _ h) else isFalse fun e => h (Except.ok.inj e)
  | .error a, .error b =>
    if h : a = b then isTrue (congrArg _ h) else isFalse fun e => h (Except.error.inj e)
  | .ok _, .error _ => isFalse nofun
  | .error _, .ok _ => isFalse nofun

/-- Why no type can be read from the front of a text. -/
inductive TypeError where
  | tooManyDimensions
  | abruptEnd
  | emptyClassName
  | unexpected (c : Char)
deriving DecidableEq

/-- Why a text is not a field or method descriptor.  Each case has the whole text. -/
inductive DescriptorError where
  | field (desc : String) (cause : TypeError)
  | afterField (desc : String) (rest : String)
  | noParameterList (desc : String)
  | parameter (desc : String) (cause : TypeError)
  | result (desc : String) (cause : TypeError)
  | afterMethod (desc : String) (rest : String)
deriving DecidableEq

/-- The reason in words. -/
def TypeError.message : TypeError → String
  | .tooManyDimensions => "array descriptor with more than 255 dimensions"
  | .abruptEnd => "unexpected abrupt ending of descriptor"
  | .emptyClassName => "empty class name in descriptor"
  | .unexpected c => "unexpected char " ++ Text.quotedChar c ++ " in descriptor"

/-- The reason in words, from the outer one to the inner one. -/
def DescriptorError.message : DescriptorError → String
  | .field desc cause =>
    "failed to read field descriptor " ++ Text.quoted desc ++ ": " ++ cause.message
  | .afterField desc rest =>
    "expected end of field descriptor " ++ Text.quoted desc ++ ", got " ++ Text.quoted rest ++
      " remaining"
  | .noParameterList desc => "method descriptor " ++ Text.quoted desc ++ " doesn't start with '('"
  | .parameter desc cause =>
    "failed to read parameter descriptor of " ++ Text.quoted desc ++ ": " ++ cause.message
  | .result desc cause =>
    "failed to read return descriptor of " ++ Text.quoted desc ++ ": " ++ cause.message
  | .afterMethod desc rest =>
    "expected end of method descriptor " ++ Text.quoted desc ++ ", got " ++ rest ++ " remaining"

/-! ## One type from the front -/

/-- Reads a type without dimensions: a letter, or `L` and a class name up to the next `;`. -/
def ElementType.read : List Char → Except TypeError (ElementType × List Char)
  | [] => .error .abruptEnd
  | 'L' :: cs =>
    match cs.takeWhile (· != ';'), cs.dropWhile (· != ';') with
    | _, [] => .error .abruptEnd
    | [], _ :: _ => .error .emptyClassName
    | name, _ :: rest => .ok (.object (String.ofList name), rest)
  | c :: cs =>
    match Primitive.ofLetter? c with
    | some p => .ok (.primitive p, cs)
    | none => .error (.unexpected c)

/-- Reads a type: its dimensions, of which there can be 255, and then the element. -/
def FieldType.read (cs : List Char) : Except TypeError (FieldType × List Char) :=
  let dimensions := (cs.takeWhile (· == '[')).length
  if 255 < dimensions then .error .tooManyDimensions
  else
    match ElementType.read (cs.dropWhile (· == '[')) with
    | .error e => .error e
    | .ok (element, rest) => .ok (.ofDimensions dimensions element, rest)

/-- What is accepted as a type without dimensions is a written form followed by the rest. -/
theorem ElementType.chars_of_read {cs : List Char} {e : ElementType} {rest : List Char}
    (h : read cs = .ok (e, rest)) : e.WellFormed ∧ cs = e.chars ++ rest := by
  unfold read at h
  split at h
  · cases h
  · rename_i cs
    have whole := List.takeWhile_append_dropWhile (p := (· != ';')) (l := cs)
    split at h
    · cases h
    · cases h
    · rename_i c rest' hdrop hne
      cases h
      have hc : c = ';' := by
        have := List.head?_dropWhile_not (· != ';') cs
        rw [hdrop] at this
        simpa using this
      subst hc
      refine ⟨⟨?_, ?_⟩, ?_⟩
      · rw [String.toList_ofList]
        exact hne
      · rw [String.toList_ofList]
        intro hmem
        simpa using (List.all_eq_true.1 List.all_takeWhile) _ hmem
      · rw [hdrop] at whole
        rw [chars, String.toList_ofList]
        simpa using whole.symm
  · rename_i c cs hL
    split at h
    · rename_i p hp
      cases h
      exact ⟨trivial, by simp [chars, Primitive.letter_of_ofLetter? hp]⟩
    · cases h

/-- The written form of a well-formed type without dimensions is read back, whatever follows. -/
theorem ElementType.read_chars {e : ElementType} (h : e.WellFormed) (rest : List Char) :
    read (e.chars ++ rest) = .ok (e, rest) := by
  cases e with
  | primitive p => cases p <;> rfl
  | object name =>
    obtain ⟨hne, hsemi⟩ := h
    have hall : ∀ c ∈ name.toList, (c != ';') = true := by
      intro c hc
      simpa using fun h : c = ';' => hsemi (h ▸ hc)
    have htake : (name.toList ++ ';' :: rest).takeWhile (· != ';') = name.toList := by
      rw [List.takeWhile_append_of_pos hall]
      simp
    have hdrop : (name.toList ++ ';' :: rest).dropWhile (· != ';') = ';' :: rest := by
      rw [List.dropWhile_append_of_pos hall]
      simp
    have : chars (.object name) ++ rest = 'L' :: (name.toList ++ ';' :: rest) := by simp [chars]
    rw [this, read, htake, hdrop]
    split
    · rename_i h
      cases h
    · rename_i h _
      exact absurd h hne
    · rename_i h _
      cases h
      simp

/-- The written form of an element does not start with a dimension. -/
theorem ElementType.dropWhile_chars (e : ElementType) (rest : List Char) :
    (e.chars ++ rest).dropWhile (· == '[') = e.chars ++ rest := by
  cases e with
  | primitive p => cases p <;> rfl
  | object name => rfl

/-- What is accepted as a type is a written form followed by the rest. -/
theorem FieldType.chars_of_read {cs : List Char} {t : FieldType} {rest : List Char}
    (h : read cs = .ok (t, rest)) : t.WellFormed ∧ cs = t.chars ++ rest := by
  unfold read at h
  simp only at h
  split at h
  · cases h
  · rename_i hdim
    split at h
    · cases h
    · rename_i element rest' he
      cases h
      obtain ⟨hwf, hcs⟩ := ElementType.chars_of_read he
      have hrep :
          cs.takeWhile (· == '[') = List.replicate (cs.takeWhile (· == '[')).length '[' := by
        refine List.eq_replicate_iff.2 ⟨rfl, fun c hc => ?_⟩
        simpa using (List.all_eq_true.1 List.all_takeWhile) _ hc
      have whole : cs.takeWhile (· == '[') ++ cs.dropWhile (· == '[') = cs :=
        List.takeWhile_append_dropWhile
      rw [hcs, hrep] at whole
      by_cases h0 : (cs.takeWhile (· == '[')).length = 0
      · rw [h0] at whole
        rw [h0]
        exact ⟨hwf, by rw [← whole]; simp [ofDimensions, chars]⟩
      · rw [ofDimensions, if_neg h0]
        refine ⟨⟨by omega, by omega, hwf⟩, ?_⟩
        rw [chars, List.append_assoc]
        exact whole.symm

/-- The written form of a well-formed type is read back, whatever follows. -/
theorem FieldType.read_chars {t : FieldType} (h : t.WellFormed) (rest : List Char) :
    read (t.chars ++ rest) = .ok (t, rest) := by
  have key : ∀ (n : Nat) (e : ElementType), n ≤ 255 → e.WellFormed →
      read (List.replicate n '[' ++ (e.chars ++ rest)) = .ok (ofDimensions n e, rest) := by
    intro n e hn he
    have hall : ∀ c ∈ List.replicate n '[', (c == '[') = true := by
      intro c hc
      simpa using (List.mem_replicate.1 hc).2
    have hdrop : (List.replicate n '[' ++ (e.chars ++ rest)).dropWhile (· == '[') =
        e.chars ++ rest := by
      rw [List.dropWhile_append_of_pos hall, ElementType.dropWhile_chars]
    have htake : ((List.replicate n '[' ++ (e.chars ++ rest)).takeWhile (· == '[')).length = n := by
      have whole := List.takeWhile_append_dropWhile (p := (· == '['))
        (l := List.replicate n '[' ++ (e.chars ++ rest))
      have := congrArg List.length whole
      rw [hdrop] at this
      simp only [List.length_append, List.length_replicate] at this
      omega
    simp only [read]
    rw [hdrop, htake, if_neg (by omega), ElementType.read_chars he]
  cases t with
  | single e => simpa [chars, ofDimensions] using key 0 e (by omega) h
  | array n e =>
    obtain ⟨h1, h2, he⟩ := h
    have := key n e h2 he
    rw [ofDimensions, if_neg (by omega)] at this
    rw [chars, List.append_assoc, this]

/-- Every written form has a character. -/
theorem FieldType.chars_length_pos (t : FieldType) : 0 < t.chars.length := by
  have : ∀ e : ElementType, 0 < e.chars.length := by
    rintro (p | name) <;> simp [ElementType.chars]
  cases t with
  | single e => exact this e
  | array n e =>
    have := this e
    simp only [chars, List.length_append]
    omega

/-- Reading a type uses up at least one character. -/
theorem FieldType.length_lt_of_read {cs : List Char} {t : FieldType} {rest : List Char}
    (h : read cs = .ok (t, rest)) : rest.length < cs.length := by
  rw [(chars_of_read h).2, List.length_append]
  have := t.chars_length_pos
  omega

/-! ## Whole descriptors -/

/-- Reads a text as a field descriptor. -/
def FieldType.parse (desc : String) : Except DescriptorError FieldType :=
  match read desc.toList with
  | .error e => .error (.field desc e)
  | .ok (t, []) => .ok t
  | .ok (_, rest) => .error (.afterField desc (String.ofList rest))

/-- Reads types up to the closing parenthesis, which is not part of the rest. -/
def readParameters (cs : List Char) : Except TypeError (List FieldType × List Char) :=
  match cs with
  | ')' :: rest => .ok ([], rest)
  | cs =>
    match _h : FieldType.read cs with
    | .error e => .error e
    | .ok (t, rest) =>
      match readParameters rest with
      | .error e => .error e
      | .ok (ts, rest) => .ok (t :: ts, rest)
termination_by cs.length
decreasing_by exact FieldType.length_lt_of_read _h

/-- Reads the result type: `V` for none. -/
def readResult : List Char → Except TypeError (Option FieldType × List Char)
  | 'V' :: rest => .ok (none, rest)
  | cs =>
    match FieldType.read cs with
    | .error e => .error e
    | .ok (t, rest) => .ok (some t, rest)

/-- Reads a text as a method descriptor. -/
def MethodType.parse (desc : String) : Except DescriptorError MethodType :=
  match desc.toList with
  | '(' :: cs =>
    match readParameters cs with
    | .error e => .error (.parameter desc e)
    | .ok (parameters, cs) =>
      match readResult cs with
      | .error e => .error (.result desc e)
      | .ok (result, []) => .ok { parameters, result }
      | .ok (_, rest) => .error (.afterMethod desc (String.ofList rest))
  | _ => .error (.noParameterList desc)

/-- A text is read as exactly the well-formed type it is the written form of. -/
theorem FieldType.parse_eq_ok_iff {desc : String} {t : FieldType} :
    parse desc = .ok t ↔ t.WellFormed ∧ t.write = desc := by
  constructor
  · intro h
    unfold parse at h
    split at h
    · cases h
    · rename_i t' hread
      cases h
      obtain ⟨hwf, hcs⟩ := chars_of_read hread
      refine ⟨hwf, ?_⟩
      rw [write, ← List.append_nil t.chars, ← hcs, String.ofList_toList]
    · cases h
  · rintro ⟨hwf, rfl⟩
    have := read_chars hwf []
    rw [List.append_nil] at this
    rw [parse, write, String.toList_ofList, this]

end SymbolMap
