import SymbolMap.Text.Hidden

/-!
# Quoted text

Messages show the values they speak of in a quoted form, so that blanks, empty texts and unusual
characters can be told apart: a text stands between double quotes, a character between single ones,
a list between brackets, and a value that may be missing is `None` or `Some(…)`.

Inside quotes the quote itself and the backslash follow a backslash, the usual controls have their
letters, and a hidden character is written by its number.  A text of ordinary characters is only
put between the quotes (`quoted_of_ordinary`).
-/

namespace SymbolMap.Text

/-- A character by its number, in hexadecimal without leading zeros: `\u\x7b301\x7d`. -/
def byNumber (c : Char) : List Char :=
  ['\\', 'u', '\x7b'] ++ Nat.toDigits 16 c.toNat ++ ['\x7d']

/-- How one character is written between two `quote` characters. -/
def escape (quote c : Char) : List Char :=
  if c = '\x00' then ['\\', '0']
  else if c = '\t' then ['\\', 't']
  else if c = '\r' then ['\\', 'r']
  else if c = '\n' then ['\\', 'n']
  else if c = quote || c = '\\' then ['\\', c]
  else if isHidden c then byNumber c
  else [c]

/-- The characters between two `quote` characters, each as `escape` writes it. -/
def quoteWith (quote : Char) (cs : List Char) : List Char :=
  quote :: cs.flatMap (escape quote) ++ [quote]

/-- A text in double quotes. -/
def quoted (s : String) : String :=
  String.ofList (quoteWith '"' s.toList)

/-- A character in single quotes. -/
def quotedChar (c : Char) : String :=
  String.ofList (quoteWith '\'' [c])

/-- A list of values that are already shown. -/
def bracketed (shown : List String) : String :=
  "[" ++ ", ".intercalate shown ++ "]"

/-- A list of texts, each quoted. -/
def quotedList (texts : List String) : String :=
  bracketed (texts.map quoted)

/-- A value that may be missing, shown with `render` when it is there. -/
def optional {α : Type} (render : α → String) : Option α → String
  | none => "None"
  | some a => "Some(" ++ render a ++ ")"

/-- A table in braces, each entry as key and value. -/
def braced (entries : List (String × String)) : String :=
  "\x7b" ++ ", ".intercalate (entries.map fun e => e.1 ++ ": " ++ e.2) ++ "\x7d"

/-- A record: its name, then its fields in braces. -/
def record (name : String) (fields : List (String × String)) : String :=
  name ++ " \x7b " ++ ", ".intercalate (fields.map fun e => e.1 ++ ": " ++ e.2) ++ " \x7d"

/-- An ordinary character stands for itself between `quote` characters. -/
theorem escape_of_ordinary {quote c : Char} (hq : c ≠ quote) (hb : c ≠ '\\')
    (lo : 0x20 ≤ c.toNat) (hi : c.toNat ≤ 0x7e) : escape quote c = [c] := by
  have hc : ∀ d : Char, d.toNat < 0x20 → c ≠ d := by rintro d hd rfl; omega
  simp [escape, hc '\x00' (by decide), hc '\t' (by decide), hc '\r' (by decide),
    hc '\n' (by decide), hq, hb, isHidden_ascii c lo hi]

/-- A text of ordinary characters is put between the quotes unchanged. -/
theorem quoted_of_ordinary (s : String)
    (h : ∀ c ∈ s.toList, c ≠ '"' ∧ c ≠ '\\' ∧ 0x20 ≤ c.toNat ∧ c.toNat ≤ 0x7e) :
    quoted s = String.ofList ('"' :: s.toList ++ ['"']) := by
  have : ∀ cs : List Char, (∀ c ∈ cs, escape '"' c = [c]) → cs.flatMap (escape '"') = cs := by
    intro cs hcs
    induction cs with
    | nil => rfl
    | cons c cs ih =>
      rw [List.flatMap_cons, hcs c (by simp), ih fun d hd => hcs d (by simp [hd])]
      rfl
  rw [quoted, quoteWith, this]
  intro c hc
  obtain ⟨hq, hb, lo, hi⟩ := h c hc
  exact escape_of_ordinary hq hb lo hi

end SymbolMap.Text
