import SymbolMap.Descriptor.Reader

/-!
# The grammar of descriptors

The texts that are read as descriptors are the written forms of well-formed types, and each is read
as the type it is the written form of (`parse_eq_ok_iff_write`).  So no text has two readings, and no
well-formed type is lost when it is written.

For a field type this is `FieldType.parse_eq_ok_iff`.  The parameters of a method follow each other
without anything between them; where one ends and whether another follows is told by the characters
a type can begin with, among which the closing parenthesis is not (`FieldType.chars_append_ne`).
-/

namespace SymbolMap

/-! ## Where a type begins -/

/-- The written form of an element begins with a letter other than `V`. -/
theorem ElementType.chars_append_ne (e : ElementType) {c : Char} (hc : c ∈ ['(', ')', 'V', '['])
    (rest more : List Char) : e.chars ++ rest ≠ c :: more := by
  intro h
  cases e with
  | primitive p =>
    have hletter : p.letter ∉ ['(', ')', 'V', '['] := by cases p <;> decide
    exact hletter ((List.cons.inj h).1 ▸ hc)
  | object name =>
    have hletter : 'L' ∉ ['(', ')', 'V', '['] := by decide
    exact hletter ((List.cons.inj h).1 ▸ hc)

/-- The written form of a type begins with no parenthesis and with no `V`. -/
theorem FieldType.chars_append_ne (t : FieldType) {c : Char} (hc : c ∈ ['(', ')', 'V'])
    (rest more : List Char) : t.chars ++ rest ≠ c :: more := by
  have helement : ∀ e : ElementType, e.chars ++ rest ≠ c :: more := fun e =>
    e.chars_append_ne (List.mem_append_left ['['] hc) rest more
  cases t with
  | single e => exact helement e
  | array n e =>
    cases n with
    | zero => exact helement e
    | succ n =>
      intro h
      have hbracket : '[' ∉ ['(', ')', 'V'] := by decide
      exact hbracket ((List.cons.inj h).1 ▸ hc)

/-- No type is read from a text that begins with one of these characters. -/
theorem FieldType.read_ne_ok {c : Char} (hc : c ∈ ['(', ')', 'V']) {cs rest : List Char}
    {t : FieldType} : read (c :: cs) ≠ .ok (t, rest) := by
  intro h
  exact t.chars_append_ne hc rest cs (chars_of_read h).2.symm

/-! ## Parameters -/

theorem readParameters_close (rest : List Char) :
    readParameters (')' :: rest) = .ok ([], rest) := by
  rw [readParameters]

/-- Where a type is read, it is the first parameter. -/
theorem readParameters_of_read {cs rest : List Char} {t : FieldType}
    (h : FieldType.read cs = .ok (t, rest)) :
    readParameters cs =
      match readParameters rest with
      | .error e => .error e
      | .ok (ts, rest) => .ok (t :: ts, rest) := by
  rw [readParameters]
  · split
    · rename_i e herror
      rw [h] at herror
      cases herror
    · rename_i t' rest' hok
      rw [h] at hok
      cases hok
      rfl
  · intro rest' hcs
    rw [hcs] at h
    exact FieldType.read_ne_ok (by decide) h

/-- The written form of well-formed parameters is read back up to the closing parenthesis. -/
theorem readParameters_chars {ts : List FieldType} (h : ∀ t ∈ ts, t.WellFormed)
    (rest : List Char) :
    readParameters (ts.flatMap FieldType.chars ++ ')' :: rest) = .ok (ts, rest) := by
  induction ts with
  | nil => exact readParameters_close rest
  | cons t ts ih =>
    have hts := ih fun t' ht' => h t' (List.mem_cons_of_mem t ht')
    rw [List.flatMap_cons, List.append_assoc,
      readParameters_of_read (FieldType.read_chars (h t List.mem_cons_self) _), hts]

/-- What is accepted as parameters is their written form, closed by the parenthesis. -/
theorem chars_of_readParameters {cs rest : List Char} {ts : List FieldType}
    (h : readParameters cs = .ok (ts, rest)) :
    (∀ t ∈ ts, t.WellFormed) ∧ cs = ts.flatMap FieldType.chars ++ ')' :: rest := by
  induction cs using readParameters.induct generalizing ts with
  | case1 rest' =>
    rw [readParameters_close] at h
    cases h
    exact ⟨nofun, rfl⟩
  | case2 cs hclose e hread =>
    rw [readParameters] at h
    · rw [hread] at h
      cases h
    · exact hclose
  | case3 cs hclose t rest' hread e hrest ih =>
    rw [readParameters_of_read hread, hrest] at h
    cases h
  | case4 cs hclose t rest' hread ts' rest'' hrest ih =>
    rw [readParameters_of_read hread, hrest] at h
    cases h
    obtain ⟨ht, hcs⟩ := FieldType.chars_of_read hread
    obtain ⟨hts, hcs'⟩ := ih hrest
    refine ⟨List.forall_mem_cons.2 ⟨ht, hts⟩, ?_⟩
    rw [hcs, hcs', List.flatMap_cons, List.append_assoc]

/-! ## Results -/

/-- The written form of a result. -/
def resultChars : Option FieldType → List Char
  | none => ['V']
  | some t => t.chars

/-- The written form of a well-formed result is read back. -/
theorem readResult_chars {result : Option FieldType} (h : ∀ t ∈ result, t.WellFormed)
    (rest : List Char) : readResult (resultChars result ++ rest) = .ok (result, rest) := by
  cases result with
  | none => rfl
  | some t =>
    have hread := FieldType.read_chars (h t rfl) rest
    rw [resultChars, readResult]
    · rw [hread]
    · intro rest'
      exact t.chars_append_ne (by decide) rest rest'

/-- What is accepted as a result is its written form followed by the rest. -/
theorem chars_of_readResult {cs rest : List Char} {result : Option FieldType}
    (h : readResult cs = .ok (result, rest)) :
    (∀ t ∈ result, t.WellFormed) ∧ cs = resultChars result ++ rest := by
  unfold readResult at h
  split at h
  · cases h
    exact ⟨nofun, rfl⟩
  · split at h
    · cases h
    · rename_i t rest' hread
      cases h
      obtain ⟨ht, hcs⟩ := FieldType.chars_of_read hread
      refine ⟨fun t' ht' => ?_, hcs⟩
      cases ht'
      exact ht

/-! ## Methods -/

theorem MethodType.toList_write (t : MethodType) :
    t.write.toList =
      '(' :: (t.parameters.flatMap FieldType.chars ++ ')' :: resultChars t.result) := by
  rw [write, String.toList_ofList, chars]
  cases t.result <;> rfl

/-- A text is read as exactly the well-formed method type it is the written form of. -/
theorem MethodType.parse_eq_ok_iff {desc : String} {t : MethodType} :
    parse desc = .ok t ↔ t.WellFormed ∧ t.write = desc := by
  constructor
  · intro h
    unfold parse at h
    split at h
    · rename_i cs hdesc
      split at h
      · cases h
      · rename_i parameters cs' hparameters
        split at h
        · cases h
        · rename_i result hresult
          cases h
          obtain ⟨hps, hcs⟩ := chars_of_readParameters hparameters
          obtain ⟨hr, hcs'⟩ := chars_of_readResult hresult
          refine ⟨⟨hps, hr⟩, String.toList_injective ?_⟩
          rw [toList_write, hdesc, hcs, hcs', List.append_nil]
        · cases h
    · cases h
  · rintro ⟨⟨hps, hr⟩, rfl⟩
    have hresult := readResult_chars hr []
    rw [List.append_nil] at hresult
    rw [parse, toList_write]
    simp only [readParameters_chars hps, hresult]

/-- **Descriptors and types.**  A text is read as a field type or a method type if and only if the
type is well-formed and the text is its written form. -/
theorem parse_eq_ok_iff_write :
    (∀ (desc : String) (t : FieldType),
      FieldType.parse desc = .ok t ↔ t.WellFormed ∧ t.write = desc) ∧
    ∀ (desc : String) (t : MethodType),
      MethodType.parse desc = .ok t ↔ t.WellFormed ∧ t.write = desc :=
  ⟨fun _ _ => FieldType.parse_eq_ok_iff, fun _ _ => MethodType.parse_eq_ok_iff⟩

end SymbolMap
