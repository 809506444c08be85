import SymbolMap.Descriptor.Renaming
import SymbolMap.Proofs.Descriptor.Grammar
import SymbolMap.Proofs.Outcomes

/-!
# Descriptors renamed there and back

The class names in a descriptor are replaced by one renaming and then by another one.  If no name
between is empty or holds a `;`, this is the same as replacing them at once (`renameClasses_trans`);
in particular, a renaming that takes each name back gives the descriptor back
(`renameClasses_back`).

Without the condition on empty names the renamed descriptor cannot be read again.  It still belongs
to one descriptor only (`renameClasses_injective`): the written form tells types apart as long as no
class name holds the `;` that closes it (`Delimited`).
-/

namespace SymbolMap

/-! ## Written forms tell types apart -/

/-- The class name of the type holds no `;`. -/
def ElementType.Delimited (e : ElementType) : Prop :=
  ∀ name ∈ e.className?, ';' ∉ name.toList

/-- The class name of the type holds no `;`, and an array has a dimension. -/
def FieldType.Delimited : FieldType → Prop
  | .single e => e.Delimited
  | .array n e => 1 ≤ n ∧ e.Delimited

/-- Parameters and result are delimited. -/
def MethodType.Delimited (t : MethodType) : Prop :=
  (∀ p ∈ t.parameters, p.Delimited) ∧ ∀ r ∈ t.result, r.Delimited

theorem Primitive.letter_injective {p q : Primitive} (h : p.letter = q.letter) : p = q := by
  have hsome : some p = some q := by rw [← ofLetter?_letter p, h, ofLetter?_letter]
  exact Option.some.inj hsome

/-- A text up to the first `;` is determined. -/
theorem append_semicolon_inj {xs ys rest rest' : List Char} (hx : ';' ∉ xs) (hy : ';' ∉ ys)
    (h : xs ++ ';' :: rest = ys ++ ';' :: rest') : xs = ys ∧ rest = rest' := by
  have hname : ∀ {zs : List Char} (more : List Char), ';' ∉ zs →
      (zs ++ ';' :: more).takeWhile (· != ';') = zs := by
    intro zs more hz
    have hall : ∀ c ∈ zs, (c != ';') = true := by
      intro c hc
      simpa using fun heq : c = ';' => hz (heq ▸ hc)
    rw [List.takeWhile_append_of_pos hall]
    simp
  have hxy : xs = ys := by rw [← hname rest hx, h, hname rest' hy]
  subst hxy
  exact ⟨rfl, List.tail_eq_of_cons_eq (List.append_cancel_left h)⟩

theorem ElementType.chars_append_inj {e e' : ElementType} {rest rest' : List Char}
    (he : e.Delimited) (he' : e'.Delimited) (h : e.chars ++ rest = e'.chars ++ rest') :
    e = e' ∧ rest = rest' := by
  have hletter : ∀ p : Primitive, p.letter ≠ 'L' := by
    intro p
    cases p <;> decide
  rcases e with p | name <;> rcases e' with p' | name'
  · obtain ⟨hp, hrest⟩ := List.cons.inj h
    exact ⟨congrArg _ (Primitive.letter_injective hp), hrest⟩
  · exact absurd (List.cons.inj h).1 (hletter p)
  · exact absurd (List.cons.inj h).1.symm (hletter p')
  · simp only [chars, List.cons_append, List.append_assoc, List.nil_append, List.cons.injEq,
      true_and] at h
    obtain ⟨hname, hrest⟩ := append_semicolon_inj (he name rfl) (he' name' rfl) h
    exact ⟨congrArg _ (String.toList_injective hname), hrest⟩

theorem ElementType.replicate_append_inj {n n' : Nat} {e e' : ElementType}
    {rest rest' : List Char} (he : e.Delimited) (he' : e'.Delimited)
    (h : List.replicate n '[' ++ (e.chars ++ rest) =
      List.replicate n' '[' ++ (e'.chars ++ rest')) : n = n' ∧ e = e' ∧ rest = rest' := by
  -- an element does not begin with a dimension
  induction n generalizing n' with
  | zero =>
    cases n' with
    | zero =>
      obtain ⟨heq, hrest⟩ := chars_append_inj he he' (by simpa using h)
      exact ⟨rfl, heq, hrest⟩
    | succ n' => exact absurd h (e.chars_append_ne (by decide) _ _)
  | succ n ih =>
    cases n' with
    | zero => exact absurd h.symm (e'.chars_append_ne (by decide) _ _)
    | succ n' =>
      obtain ⟨hn, heq, hrest⟩ := ih (List.cons.inj h).2
      exact ⟨congrArg _ hn, heq, hrest⟩

theorem FieldType.chars_append_inj {t t' : FieldType} {rest rest' : List Char}
    (ht : t.Delimited) (ht' : t'.Delimited) (h : t.chars ++ rest = t'.chars ++ rest') :
    t = t' ∧ rest = rest' := by
  cases t with
  | single e =>
    cases t' with
    | single e' =>
      obtain ⟨rfl, hrest⟩ := ElementType.chars_append_inj ht ht' h
      exact ⟨rfl, hrest⟩
    | array n' e' =>
      have hnone : List.replicate 0 '[' ++ (e.chars ++ rest) =
          List.replicate n' '[' ++ (e'.chars ++ rest') := by simpa [chars] using h
      obtain ⟨hn, -⟩ := ElementType.replicate_append_inj ht ht'.2 hnone
      exact absurd ht'.1 (by omega)
  | array n e =>
    cases t' with
    | single e' =>
      have hnone : List.replicate n '[' ++ (e.chars ++ rest) =
          List.replicate 0 '[' ++ (e'.chars ++ rest') := by simpa [chars] using h
      obtain ⟨hn, -⟩ := ElementType.replicate_append_inj ht.2 ht' hnone
      exact absurd ht.1 (by omega)
    | array n' e' =>
      obtain ⟨rfl, rfl, hrest⟩ := ElementType.replicate_append_inj ht.2 ht'.2
        (by simpa [chars] using h)
      exact ⟨rfl, hrest⟩

theorem flatMap_chars_append_inj {ts ts' : List FieldType} {rest rest' : List Char}
    (hts : ∀ t ∈ ts, t.Delimited) (hts' : ∀ t ∈ ts', t.Delimited)
    (h : ts.flatMap FieldType.chars ++ ')' :: rest =
      ts'.flatMap FieldType.chars ++ ')' :: rest') : ts = ts' ∧ rest = rest' := by
  -- where a parameter begins, the list is not closed
  induction ts generalizing ts' with
  | nil =>
    cases ts' with
    | nil => exact ⟨rfl, (List.cons.inj h).2⟩
    | cons t' ts' =>
      rw [List.flatMap_cons, List.append_assoc] at h
      exact absurd h.symm (t'.chars_append_ne (by decide) _ _)
  | cons t ts ih =>
    rw [List.flatMap_cons, List.append_assoc] at h
    cases ts' with
    | nil => exact absurd h (t.chars_append_ne (by decide) _ _)
    | cons t' ts' =>
      rw [List.flatMap_cons, List.append_assoc] at h
      obtain ⟨ht, hmore⟩ := List.forall_mem_cons.1 hts
      obtain ⟨ht', hmore'⟩ := List.forall_mem_cons.1 hts'
      obtain ⟨rfl, heq⟩ := FieldType.chars_append_inj ht ht' h
      obtain ⟨rfl, hrest⟩ := ih hmore hmore' heq
      exact ⟨rfl, hrest⟩

theorem FieldType.write_injective {t t' : FieldType} (ht : t.Delimited) (ht' : t'.Delimited)
    (h : t.write = t'.write) : t = t' := by
  have hchars : t.chars ++ [] = t'.chars ++ [] := by
    simpa only [write, String.toList_ofList, List.append_nil] using congrArg String.toList h
  exact (chars_append_inj ht ht' hchars).1

theorem resultChars_injective {r r' : Option FieldType} (hr : ∀ t ∈ r, t.Delimited)
    (hr' : ∀ t ∈ r', t.Delimited) (h : resultChars r = resultChars r') : r = r' := by
  have hvoid : ∀ t : FieldType, t.chars ≠ ['V'] := by
    intro t heq
    have happend : t.chars ++ [] = 'V' :: [] := by rw [List.append_nil, heq]
    exact t.chars_append_ne (by decide) [] [] happend
  rcases r with _ | t <;> rcases r' with _ | t'
  · rfl
  · exact absurd h.symm (hvoid t')
  · exact absurd h (hvoid t)
  · have hchars : t.chars ++ [] = t'.chars ++ [] := congrArg (· ++ []) h
    rw [(FieldType.chars_append_inj (hr t rfl) (hr' t' rfl) hchars).1]

theorem MethodType.write_injective {t t' : MethodType} (ht : t.Delimited) (ht' : t'.Delimited)
    (h : t.write = t'.write) : t = t' := by
  have hchars := congrArg String.toList h
  rw [toList_write, toList_write] at hchars
  obtain ⟨hparameters, hresult⟩ :=
    flatMap_chars_append_inj ht.1 ht'.1 (List.cons.inj hchars).2
  have hresult := resultChars_injective ht.2 ht'.2 hresult
  cases t
  cases t'
  cases hparameters
  cases hresult
  rfl

/-! ## Types renamed -/

section

variable {f g k : String → Outcome String}

namespace FieldType

variable {t t' : FieldType} {x y : String}

theorem className?_withClass (h : t.className? = some x) :
    (t.withClass y).className? = some y := by
  rcases t with (p | name) | ⟨n, p | name⟩ <;> cases h <;> rfl

theorem withClass_withClass (t : FieldType) (x y : String) :
    (t.withClass x).withClass y = t.withClass y := by
  rcases t with (p | name) | ⟨n, p | name⟩ <;> rfl

theorem withClass_same (h : t.className? = some x) : t.withClass x = t := by
  rcases t with (p | name) | ⟨n, p | name⟩ <;> cases h <;> rfl

/-- Renaming leaves a type without a class, or replaces the class by what is given for it. -/
theorem renameClass_eq_ok_iff :
    t.renameClass f = .ok t' ↔
      (t.className? = none ∧ t' = t) ∨
        ∃ x y, t.className? = some x ∧ f x = .ok y ∧ t' = t.withClass y := by
  cases hname : t.className? with
  | none =>
    rw [renameClass_of_none hname]
    constructor
    · intro h
      exact .inl ⟨rfl, (Except.ok.inj h).symm⟩
    · rintro (⟨-, rfl⟩ | ⟨x, y, hx, -⟩)
      · rfl
      · cases hx
  | some x =>
    rw [renameClass_of_some hname]
    constructor
    · intro h
      cases hf : f x with
      | error e =>
        rw [hf] at h
        cases h
      | ok y =>
        rw [hf] at h
        exact .inr ⟨x, y, rfl, hf, (Except.ok.inj h).symm⟩
    · rintro (⟨hx, -⟩ | ⟨x', y, hx, hf, rfl⟩)
      · cases hx
      · cases hx
        rw [hf]
        rfl

theorem renameClass_mono (hfg : ∀ x ∈ t.className?, ∀ y, f x = .ok y → g x = .ok y)
    (h : t.renameClass f = .ok t') : t.renameClass g = .ok t' := by
  rcases renameClass_eq_ok_iff.1 h with ⟨hnone, rfl⟩ | ⟨x, y, hx, hf, rfl⟩
  · exact renameClass_eq_ok_iff.2 (.inl ⟨hnone, rfl⟩)
  · exact renameClass_eq_ok_iff.2 (.inr ⟨x, y, hx, hfg x hx y hf, rfl⟩)

theorem renameClass_same (t : FieldType) :
    t.renameClass (pure : String → Outcome String) = .ok t := by
  cases hname : t.className? with
  | none => exact renameClass_eq_ok_iff.2 (.inl ⟨hname, rfl⟩)
  | some x => exact renameClass_eq_ok_iff.2 (.inr ⟨x, x, hname, rfl, (withClass_same hname).symm⟩)

/-- Renaming what was renamed is renaming at once, if it is so for the class of the type. -/
theorem renameClass_trans {u : FieldType}
    (hcomp : ∀ x ∈ t.className?, ∀ y z, f x = .ok y → k x = .ok z → g y = .ok z)
    (h : t.renameClass f = .ok t') (hk : t.renameClass k = .ok u) : t'.renameClass g = .ok u := by
  rcases renameClass_eq_ok_iff.1 h with ⟨hnone, rfl⟩ | ⟨x, y, hx, hf, rfl⟩ <;>
    rcases renameClass_eq_ok_iff.1 hk with ⟨hnone', rfl⟩ | ⟨x', z, hx', hz, rfl⟩
  · exact renameClass_eq_ok_iff.2 (.inl ⟨hnone, rfl⟩)
  · exact absurd (hnone.symm.trans hx') (by simp)
  · exact absurd (hnone'.symm.trans hx) (by simp)
  · obtain rfl : x = x' := Option.some.inj (hx.symm.trans hx')
    exact renameClass_eq_ok_iff.2 (.inr ⟨y, z, className?_withClass hx, hcomp x hx y z hf hz,
      (withClass_withClass t y z).symm⟩)

theorem renameClass_back (hback : ∀ x ∈ t.className?, ∀ y, f x = .ok y → g y = .ok x)
    (h : t.renameClass f = .ok t') : t'.renameClass g = .ok t := by
  refine renameClass_trans (fun x hx y z hy hz => ?_) h t.renameClass_same
  obtain rfl := Except.ok.inj hz
  exact hback x hx y hy

theorem wellFormed_of_renameClass (ht : t.WellFormed)
    (hnames : ∀ x ∈ t.className?, ∀ y, f x = .ok y → y.toList ≠ [] ∧ ';' ∉ y.toList)
    (h : t.renameClass f = .ok t') : t'.WellFormed := by
  rcases renameClass_eq_ok_iff.1 h with ⟨-, rfl⟩ | ⟨x, y, hx, hf, rfl⟩
  · exact ht
  · have hy := hnames x hx y hf
    rcases t with (p | name) | ⟨n, p | name⟩
    · cases hx
    · exact hy
    · cases hx
    · exact ⟨ht.1, ht.2.1, hy⟩

theorem delimited_of_wellFormed (h : t.WellFormed) : t.Delimited := by
  have helement : ∀ e : ElementType, e.WellFormed → e.Delimited := by
    intro e he name hname
    cases e with
    | primitive p => cases hname
    | object name' =>
      cases hname
      exact he.2
  cases t with
  | single e => exact helement e h
  | array n e => exact ⟨h.1, helement e h.2.2⟩

theorem delimited_of_renameClass (ht : t.WellFormed)
    (hnames : ∀ x ∈ t.className?, ∀ y, f x = .ok y → ';' ∉ y.toList)
    (h : t.renameClass f = .ok t') : t'.Delimited := by
  rcases renameClass_eq_ok_iff.1 h with ⟨-, rfl⟩ | ⟨x, y, hx, hf, rfl⟩
  · exact delimited_of_wellFormed ht
  · have hy : ElementType.Delimited (.object y) := by
      intro name hname
      cases hname
      exact hnames x hx y hf
    rcases t with (p | name) | ⟨n, p | name⟩
    · cases hx
    · exact hy
    · cases hx
    · exact ⟨ht.1, hy⟩

end FieldType

namespace MethodType

variable {t t' : MethodType}

/-- Renaming a method type renames its parameters and its result. -/
theorem renameClasses_eq_ok_iff :
    t.renameClasses f = .ok t' ↔
      List.Forall₂ (fun p p' => p.renameClass f = .ok p') t.parameters t'.parameters ∧
        Option.Rel (fun r r' => r.renameClass f = .ok r') t.result t'.result := by
  have heq : t.renameClasses f = (do
      let parameters ← t.parameters.mapM (FieldType.renameClass f)
      let result ← t.result.mapM (FieldType.renameClass f)
      return { parameters, result }) := by
    rw [renameClasses]
    cases t.result <;> rfl
  simp only [heq, Outcome.bind_eq_ok_iff, Outcome.mapM_eq_ok_iff, Outcome.mapM_option_eq_ok_iff]
  constructor
  · rintro ⟨parameters, hparameters, result, hresult, h⟩
    cases h
    exact ⟨hparameters, hresult⟩
  · rintro ⟨hparameters, hresult⟩
    exact ⟨_, hparameters, _, hresult, rfl⟩

theorem mem_classNames {x : String} :
    x ∈ t.classNames ↔
      (∃ p ∈ t.parameters, x ∈ p.className?) ∨ ∃ r ∈ t.result, x ∈ r.className? := by
  rw [classNames, List.mem_append, List.mem_filterMap, Option.mem_toList]
  refine or_congr Iff.rfl ?_
  cases t.result <;> simp

theorem renameClasses_same (t : MethodType) :
    t.renameClasses (pure : String → Outcome String) = .ok t := by
  refine renameClasses_eq_ok_iff.2 ⟨List.forall₂_same.2 fun p _ => p.renameClass_same, ?_⟩
  cases t.result with
  | none => exact .none
  | some r => exact .some r.renameClass_same

/-- Renaming what was renamed is renaming at once, if it is so for the classes of the type. -/
theorem renameClasses_trans {u : MethodType}
    (hcomp : ∀ x ∈ t.classNames, ∀ y z, f x = .ok y → k x = .ok z → g y = .ok z)
    (h : t.renameClasses f = .ok t') (hk : t.renameClasses k = .ok u) :
    t'.renameClasses g = .ok u := by
  obtain ⟨hps, hr⟩ := renameClasses_eq_ok_iff.1 h
  obtain ⟨hps', hr'⟩ := renameClasses_eq_ok_iff.1 hk
  refine renameClasses_eq_ok_iff.2 ⟨?_, ?_⟩
  · have hmem := (List.forall₂_and_left _ _).2 ⟨fun p hp => hp, hps⟩
    refine forall₂_comp (List.Forall₂.flip hmem) hps' ?_
    rintro p' p q ⟨hp, hrename⟩ hrename'
    refine FieldType.renameClass_trans (fun x hx => hcomp x ?_) hrename hrename'
    exact mem_classNames.2 (.inl ⟨p, hp, hx⟩)
  · generalize hresult : t.result = r at hr hr'
    generalize t'.result = r' at hr
    generalize u.result = r'' at hr'
    cases hr with
    | none =>
      cases hr'
      exact .none
    | some hrename =>
      obtain ⟨hrename'⟩ := hr'
      refine .some (FieldType.renameClass_trans (fun x hx => hcomp x ?_) hrename hrename')
      exact mem_classNames.2 (.inr ⟨_, hresult, hx⟩)

theorem renameClasses_back (hback : ∀ x ∈ t.classNames, ∀ y, f x = .ok y → g y = .ok x)
    (h : t.renameClasses f = .ok t') : t'.renameClasses g = .ok t := by
  refine renameClasses_trans (fun x hx y z hy hz => ?_) h t.renameClasses_same
  obtain rfl := Except.ok.inj hz
  exact hback x hx y hy

/-- What follows for a type that is renamed follows for all parameters and the result. -/
theorem forall_of_renameClasses {P : FieldType → Prop} (ht : t.WellFormed)
    (himp : ∀ p p' : FieldType, p.WellFormed → (∀ x ∈ p.className?, x ∈ t.classNames) →
      p.renameClass f = .ok p' → P p') (h : t.renameClasses f = .ok t') :
    (∀ p' ∈ t'.parameters, P p') ∧ ∀ r' ∈ t'.result, P r' := by
  obtain ⟨hps, hr⟩ := renameClasses_eq_ok_iff.1 h
  constructor
  · intro p' hp'
    obtain ⟨p, hp, hrename⟩ := exists_left_of_forall₂ hps hp'
    exact himp p p' (ht.1 p hp) (fun x hx => mem_classNames.2 (.inl ⟨p, hp, hx⟩)) hrename
  · intro r' hr'
    rw [Option.mem_def.1 hr'] at hr
    generalize hresult : t.result = result at hr
    cases hr with
    | @some r _ hrename =>
      have hmem : ∀ x ∈ r.className?, x ∈ t.classNames := fun x hx =>
        mem_classNames.2 (.inr ⟨r, hresult, hx⟩)
      exact himp r r' (ht.2 r hresult) hmem hrename

theorem wellFormed_of_renameClasses (ht : t.WellFormed)
    (hnames : ∀ x ∈ t.classNames, ∀ y, f x = .ok y → y.toList ≠ [] ∧ ';' ∉ y.toList)
    (h : t.renameClasses f = .ok t') : t'.WellFormed :=
  forall_of_renameClasses ht (fun _ _ hp hmem => FieldType.wellFormed_of_renameClass hp
    fun x hx => hnames x (hmem x hx)) h

theorem delimited_of_wellFormed (h : t.WellFormed) : t.Delimited :=
  ⟨fun p hp => FieldType.delimited_of_wellFormed (h.1 p hp),
    fun r hr => FieldType.delimited_of_wellFormed (h.2 r hr)⟩

theorem delimited_of_renameClasses (ht : t.WellFormed)
    (hnames : ∀ x ∈ t.classNames, ∀ y, f x = .ok y → ';' ∉ y.toList)
    (h : t.renameClasses f = .ok t') : t'.Delimited :=
  forall_of_renameClasses ht (fun _ _ hp hmem => FieldType.delimited_of_renameClass hp
    fun x hx => hnames x (hmem x hx)) h

end MethodType

/-! ## Descriptors renamed -/

namespace Descriptor

variable {desc desc' : String}

/-- The class is named in the descriptor. -/
def Mentions (desc x : String) : Prop :=
  ∃ names, classNames desc = .ok names ∧ x ∈ names

theorem isMethod_write (t : MethodType) : isMethod t.write = true := by
  rw [isMethod, MethodType.toList_write]
  rfl

theorem not_isMethod_write (t : FieldType) : isMethod t.write = false := by
  rw [isMethod, FieldType.write, String.toList_ofList]
  cases hchars : t.chars with
  | nil => rfl
  | cons c cs =>
    have hc : c ≠ '(' := by
      intro hc
      have happend : t.chars ++ [] = '(' :: cs := by rw [List.append_nil, hchars, hc]
      exact t.chars_append_ne (by decide) [] cs happend
    simpa using hc

theorem isMethod_of_parse {t : MethodType} (h : MethodType.parse desc = .ok t) :
    isMethod desc = true := by
  rw [← (MethodType.parse_eq_ok_iff.1 h).2]
  exact isMethod_write t

theorem not_isMethod_of_parse {t : FieldType} (h : FieldType.parse desc = .ok t) :
    isMethod desc = false := by
  rw [← (FieldType.parse_eq_ok_iff.1 h).2]
  exact not_isMethod_write t

theorem orThrow_eq_ok_iff {α : Type} {r : Except DescriptorError α} {a : α} :
    (orThrow r : Outcome α) = .ok a ↔ r = .ok a := by
  cases r with
  | ok b => exact ⟨fun h => congrArg _ (Except.ok.inj h), fun h => congrArg _ (Except.ok.inj h)⟩
  | error e => exact ⟨fun h => (nomatch h), fun h => (nomatch h)⟩

/-- Renaming reads a method type or a field type, renames it and writes it again. -/
theorem renameClasses_eq_ok_iff :
    renameClasses f desc = .ok desc' ↔
      (∃ t t' : MethodType, MethodType.parse desc = .ok t ∧ t.renameClasses f = .ok t' ∧
        t'.write = desc') ∨
      ∃ t t' : FieldType, FieldType.parse desc = .ok t ∧ t.renameClass f = .ok t' ∧
        t'.write = desc' := by
  rw [renameClasses_eq_reread, reread]
  by_cases hmethod : isMethod desc = true
  · rw [if_pos hmethod, Outcome.bind_eq_ok_iff]
    constructor
    · rintro ⟨t, ht, h⟩
      obtain ⟨t', ht', h⟩ := Outcome.bind_eq_ok_iff.1 h
      exact .inl ⟨t, t', orThrow_eq_ok_iff.1 ht, ht', Except.ok.inj h⟩
    · rintro (⟨t, t', ht, ht', rfl⟩ | ⟨t, t', ht, -⟩)
      · exact ⟨t, orThrow_eq_ok_iff.2 ht, Outcome.bind_eq_ok_iff.2 ⟨t', ht', rfl⟩⟩
      · exact absurd (not_isMethod_of_parse ht) (by rw [hmethod]; decide)
  · rw [if_neg hmethod, Outcome.bind_eq_ok_iff]
    constructor
    · rintro ⟨t, ht, h⟩
      obtain ⟨t', ht', h⟩ := Outcome.bind_eq_ok_iff.1 h
      exact .inr ⟨t, t', orThrow_eq_ok_iff.1 ht, ht', Except.ok.inj h⟩
    · rintro (⟨t, t', ht, -⟩ | ⟨t, t', ht, ht', rfl⟩)
      · exact absurd (isMethod_of_parse ht) hmethod
      · exact ⟨t, orThrow_eq_ok_iff.2 ht, Outcome.bind_eq_ok_iff.2 ⟨t', ht', rfl⟩⟩

/-- Renaming only depends on what is given for each name. -/
theorem renameClasses_mono (hfg : ∀ x y, f x = .ok y → g x = .ok y)
    (h : renameClasses f desc = .ok desc') : renameClasses g desc = .ok desc' := by
  have hfield : ∀ t t' : FieldType, t.renameClass f = .ok t' → t.renameClass g = .ok t' :=
    fun t t' => FieldType.renameClass_mono fun x _ => hfg x
  rcases renameClasses_eq_ok_iff.1 h with ⟨t, t', hparse, hrename, hwrite⟩ |
    ⟨t, t', hparse, hrename, hwrite⟩
  · obtain ⟨hps, hr⟩ := MethodType.renameClasses_eq_ok_iff.1 hrename
    have hr' : Option.Rel (fun r r' => r.renameClass g = .ok r') t.result t'.result := by
      generalize t.result = r at hr
      generalize t'.result = r' at hr
      cases hr with
      | none => exact .none
      | some hr => exact .some (hfield _ _ hr)
    exact renameClasses_eq_ok_iff.2 (.inl ⟨t, t', hparse,
      MethodType.renameClasses_eq_ok_iff.2 ⟨hps.imp hfield, hr'⟩, hwrite⟩)
  · exact renameClasses_eq_ok_iff.2 (.inr ⟨t, t', hparse, hfield t t' hrename, hwrite⟩)

theorem mentions_of_method {t : MethodType} {x : String} (h : MethodType.parse desc = .ok t)
    (hx : x ∈ t.classNames) : Mentions desc x := by
  refine ⟨t.classNames, ?_, hx⟩
  rw [classNames, if_pos (isMethod_of_parse h), h]

theorem mentions_of_field {t : FieldType} {x : String} (h : FieldType.parse desc = .ok t)
    (hx : x ∈ t.className?) : Mentions desc x := by
  refine ⟨t.className?.toList, ?_, Option.mem_toList.2 hx⟩
  rw [classNames, not_isMethod_of_parse h, h]
  rfl

/-- **One renaming after another.**  Renaming what was renamed is renaming at once, if it is so for
the class names in the descriptor and the names between are not empty and hold no `;`. -/
theorem renameClasses_trans {desc'' : String}
    (hnames : ∀ x, Mentions desc x → ∀ y, f x = .ok y → y.toList ≠ [] ∧ ';' ∉ y.toList)
    (hcomp : ∀ x, Mentions desc x → ∀ y z, f x = .ok y → k x = .ok z → g y = .ok z)
    (h : renameClasses f desc = .ok desc') (hk : renameClasses k desc = .ok desc'') :
    renameClasses g desc' = .ok desc'' := by
  rcases renameClasses_eq_ok_iff.1 h with ⟨t, t', hparse, hrename, rfl⟩ |
      ⟨t, t', hparse, hrename, rfl⟩ <;>
    rcases renameClasses_eq_ok_iff.1 hk with ⟨t₀, u, hparse₀, hrename₀, hwrite⟩ |
      ⟨t₀, u, hparse₀, hrename₀, hwrite⟩
  · obtain rfl : t = t₀ := Except.ok.inj (hparse.symm.trans hparse₀)
    have hmentions := fun x (hx : x ∈ t.classNames) => mentions_of_method hparse hx
    have hwf' := MethodType.wellFormed_of_renameClasses (MethodType.parse_eq_ok_iff.1 hparse).1
      (fun x hx => hnames x (hmentions x hx)) hrename
    exact renameClasses_eq_ok_iff.2 (.inl ⟨t', u, MethodType.parse_eq_ok_iff.2 ⟨hwf', rfl⟩,
      MethodType.renameClasses_trans (fun x hx => hcomp x (hmentions x hx)) hrename hrename₀,
      hwrite⟩)
  · exact absurd (isMethod_of_parse hparse) (by rw [not_isMethod_of_parse hparse₀]; decide)
  · exact absurd (isMethod_of_parse hparse₀) (by rw [not_isMethod_of_parse hparse]; decide)
  · obtain rfl : t = t₀ := Except.ok.inj (hparse.symm.trans hparse₀)
    have hmentions := fun x (hx : x ∈ t.className?) => mentions_of_field hparse hx
    have hwf' := FieldType.wellFormed_of_renameClass (FieldType.parse_eq_ok_iff.1 hparse).1
      (fun x hx => hnames x (hmentions x hx)) hrename
    exact renameClasses_eq_ok_iff.2 (.inr ⟨t', u, FieldType.parse_eq_ok_iff.2 ⟨hwf', rfl⟩,
      FieldType.renameClass_trans (fun x hx => hcomp x (hmentions x hx)) hrename hrename₀,
      hwrite⟩)

/-- A descriptor that can be renamed stays as it is when all names do. -/
theorem renameClasses_same (h : renameClasses f desc = .ok desc') :
    renameClasses (pure : String → Outcome String) desc = .ok desc := by
  rcases renameClasses_eq_ok_iff.1 h with ⟨t, -, hparse, -⟩ | ⟨t, -, hparse, -⟩
  · exact renameClasses_eq_ok_iff.2 (.inl ⟨t, t, hparse, t.renameClasses_same,
      (MethodType.parse_eq_ok_iff.1 hparse).2⟩)
  · exact renameClasses_eq_ok_iff.2 (.inr ⟨t, t, hparse, t.renameClass_same,
      (FieldType.parse_eq_ok_iff.1 hparse).2⟩)

/-- **There and back.**  A descriptor whose class names are replaced by names that are taken back to
them, none of which is empty or holds a `;`, is given back. -/
theorem renameClasses_back
    (hback : ∀ x, Mentions desc x → ∀ y, f x = .ok y →
      g y = .ok x ∧ y.toList ≠ [] ∧ ';' ∉ y.toList)
    (h : renameClasses f desc = .ok desc') : renameClasses g desc' = .ok desc := by
  refine renameClasses_trans (fun x hx y hy => (hback x hx y hy).2) (fun x hx y z hy hz => ?_) h
    (renameClasses_same h)
  obtain rfl := Except.ok.inj hz
  exact (hback x hx y hy).1

/-- **Descriptors stay apart.**  Two descriptors with the same renamed form are the same, if the
names in them are taken back and no new one holds a `;`. -/
theorem renameClasses_injective {desc₀ : String}
    (hback : ∀ x, Mentions desc x ∨ Mentions desc₀ x → ∀ y, f x = .ok y →
      g y = .ok x ∧ ';' ∉ y.toList)
    (h : renameClasses f desc = .ok desc') (h₀ : renameClasses f desc₀ = .ok desc') :
    desc = desc₀ := by
  rcases renameClasses_eq_ok_iff.1 h with ⟨t, t', hparse, hrename, rfl⟩ |
      ⟨t, t', hparse, hrename, rfl⟩ <;>
    rcases renameClasses_eq_ok_iff.1 h₀ with ⟨t₀, t₀', hparse₀, hrename₀, heq⟩ |
      ⟨t₀, t₀', hparse₀, hrename₀, heq⟩
  · obtain ⟨hwf, rfl⟩ := MethodType.parse_eq_ok_iff.1 hparse
    obtain ⟨hwf₀, rfl⟩ := MethodType.parse_eq_ok_iff.1 hparse₀
    have hnames := fun x hx => hback x (.inl (mentions_of_method hparse hx))
    have hnames₀ := fun x hx => hback x (.inr (mentions_of_method hparse₀ hx))
    -- the renamed types are the same, and both are taken back
    have hsame : t₀' = t' := MethodType.write_injective
      (MethodType.delimited_of_renameClasses hwf₀ (fun x hx y hy => (hnames₀ x hx y hy).2)
        hrename₀)
      (MethodType.delimited_of_renameClasses hwf (fun x hx y hy => (hnames x hx y hy).2) hrename)
      heq
    subst hsame
    have htake := MethodType.renameClasses_back (fun x hx y hy => (hnames x hx y hy).1) hrename
    have htake₀ := MethodType.renameClasses_back (fun x hx y hy => (hnames₀ x hx y hy).1) hrename₀
    rw [Outcome.eq_of_eq_ok htake htake₀]
  · have hmethod := isMethod_write t'
    rw [← heq, not_isMethod_write] at hmethod
    cases hmethod
  · have hmethod := isMethod_write t₀'
    rw [heq, not_isMethod_write] at hmethod
    cases hmethod
  · obtain ⟨hwf, rfl⟩ := FieldType.parse_eq_ok_iff.1 hparse
    obtain ⟨hwf₀, rfl⟩ := FieldType.parse_eq_ok_iff.1 hparse₀
    have hnames := fun x hx => hback x (.inl (mentions_of_field hparse hx))
    have hnames₀ := fun x hx => hback x (.inr (mentions_of_field hparse₀ hx))
    have hsame : t₀' = t' := FieldType.write_injective
      (FieldType.delimited_of_renameClass hwf₀ (fun x hx y hy => (hnames₀ x hx y hy).2) hrename₀)
      (FieldType.delimited_of_renameClass hwf (fun x hx y hy => (hnames x hx y hy).2) hrename)
      heq
    subst hsame
    have htake := FieldType.renameClass_back (fun x hx y hy => (hnames x hx y hy).1) hrename
    have htake₀ := FieldType.renameClass_back (fun x hx y hy => (hnames₀ x hx y hy).1) hrename₀
    rw [Outcome.eq_of_eq_ok htake htake₀]

end Descriptor

end

end SymbolMap
