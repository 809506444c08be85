import SymbolMap.Name
import SymbolMap.Proofs.Descriptor.RoundTrip

/-!
# Class names in and out of descriptors

A class name stands in a descriptor up to the next `;`, so what is read there has a character and
holds no `;` (`delimited_of_mentions`).  A valid class name that is not an array's is of this kind
(`Name.delimited_of_isClassName`).  The name of an array of classes is not, but the name of an array
of primitives is; it names no class (`Name.exists_parse_of_isArray`).

The class names in a descriptor can be replaced exactly if it can be read and there is a new name
for each of them (`exists_renameClasses_iff`), and then these are the class names of what comes out
(`exists_classNames_of_renameClasses`).  A descriptor stays the same exactly if all of them do
(`renameClasses_eq_self_iff`), also if they are replaced twice (`exists_renameClasses_back_iff`).
-/

namespace SymbolMap

/-! ## Names of classes -/

namespace Name

/-- Every character is a slash or stands in a piece. -/
theorem mem_segments_of_mem {c : Char} {cs : List Char} (h : c ∈ cs) :
    c = '/' ∨ ∃ s ∈ segments cs, c ∈ s := by
  induction cs with
  | nil => cases h
  | cons d cs ih =>
    rw [segments]
    by_cases hd : d = '/'
    · rw [if_pos hd]
      rcases List.mem_cons.1 h with rfl | h
      · exact .inl hd
      · rcases ih h with hc | ⟨s, hs, hc⟩
        · exact .inl hc
        · exact .inr ⟨s, List.mem_cons_of_mem _ hs, hc⟩
    · rw [if_neg hd]
      obtain ⟨t, ts, hsegments⟩ := List.exists_cons_of_ne_nil (segments_ne_nil cs)
      rw [hsegments] at ih ⊢
      rcases List.mem_cons.1 h with rfl | h
      · exact .inr ⟨c :: t, List.mem_cons_self, List.mem_cons_self⟩
      · rcases ih h with hc | ⟨s, hs, hc⟩
        · exact .inl hc
        · -- the first piece is the one that got longer
          rcases List.mem_cons.1 hs with rfl | hs
          · exact .inr ⟨d :: s, List.mem_cons_self, List.mem_cons_of_mem _ hc⟩
          · exact .inr ⟨s, List.mem_cons_of_mem _ hs, hc⟩

/-- A class name that is not an array's has a character and holds no `;`. -/
theorem delimited_of_isClassName {x : String} (harray : isArray x = false)
    (h : isClassName x = true) : x.toList ≠ [] ∧ ';' ∉ x.toList := by
  rw [isClassName_iff_segments harray] at h
  constructor
  · intro hnil
    rw [hnil] at h
    exact absurd (h [] (by simp [segments])) (by decide)
  · intro hmem
    rcases mem_segments_of_mem hmem with hslash | ⟨s, hs, hc⟩
    · exact absurd hslash (by decide)
    · have hchars : s.all isUnqualifiedChar = true := by
        have := h s hs
        rw [isUnqualifiedChars, Bool.and_eq_true] at this
        exact this.2
      exact absurd (List.all_eq_true.1 hchars _ hc) (by decide)

end Name

theorem FieldType.className?_eq_none {t : FieldType} (h : ';' ∉ t.write.toList) :
    t.className? = none := by
  rw [write, String.toList_ofList] at h
  rcases t with (p | name) | ⟨n, p | name⟩
  · rfl
  · exact absurd (by simp [chars, ElementType.chars]) h
  · rfl
  · exact absurd (by simp [chars, ElementType.chars]) h

/-- The name of an array without a `;` is that of a type that names no class. -/
theorem Name.exists_parse_of_isArray {x : String} (harray : isArray x = true)
    (h : isClassName x = true) (hx : ';' ∉ x.toList) :
    ∃ t, FieldType.parse x = .ok t ∧ t.className? = none := by
  rw [isClassName, if_pos harray] at h
  cases hparse : FieldType.parse x with
  | error e =>
    rw [hparse] at h
    cases h
  | ok t =>
    refine ⟨t, rfl, FieldType.className?_eq_none ?_⟩
    rwa [(FieldType.parse_eq_ok_iff.1 hparse).2]

/-! ## New names for all of them -/

variable {f : String → Outcome String} {desc desc' : String}

theorem FieldType.exists_renameClass_iff {t : FieldType} :
    (∃ t', t.renameClass f = .ok t') ↔ ∀ x ∈ t.className?, ∃ y, f x = .ok y := by
  constructor
  · rintro ⟨t', h⟩ x hx
    rcases renameClass_eq_ok_iff.1 h with ⟨hnone, -⟩ | ⟨x', y, hx', hy, -⟩
    · rw [hnone] at hx
      cases hx
    · obtain rfl : x = x' := Option.some.inj (hx.symm.trans hx')
      exact ⟨y, hy⟩
  · intro h
    cases hname : t.className? with
    | none => exact ⟨t, renameClass_eq_ok_iff.2 (.inl ⟨hname, rfl⟩)⟩
    | some x =>
      obtain ⟨y, hy⟩ := h x hname
      exact ⟨t.withClass y, renameClass_eq_ok_iff.2 (.inr ⟨x, y, hname, hy, rfl⟩)⟩

/-- The class of a renamed type is the new name of its class. -/
theorem FieldType.exists_className_of_renameClass {t t' : FieldType} {y : String}
    (h : t.renameClass f = .ok t') (hy : y ∈ t'.className?) :
    ∃ x ∈ t.className?, f x = .ok y := by
  rcases renameClass_eq_ok_iff.1 h with ⟨hnone, rfl⟩ | ⟨x, y', hx, hf, rfl⟩
  · rw [hnone] at hy
    cases hy
  · obtain rfl : y' = y := Option.some.inj ((className?_withClass hx).symm.trans hy)
    exact ⟨x, hx, hf⟩

/-- A type is left as it is if its class keeps its name. -/
theorem FieldType.renameClass_eq_self_iff {t : FieldType} :
    t.renameClass f = .ok t ↔ ∀ x ∈ t.className?, f x = .ok x := by
  constructor
  · intro h x hx
    obtain ⟨x', hx', hf⟩ := exists_className_of_renameClass h hx
    obtain rfl : x = x' := Option.some.inj (hx.symm.trans hx')
    exact hf
  · intro h
    refine renameClass_mono (f := pure) (fun x hx y hy => ?_) t.renameClass_same
    obtain rfl := Except.ok.inj hy
    exact h x hx

theorem MethodType.renameClasses_eq_self_iff {t : MethodType} :
    t.renameClasses f = .ok t ↔ ∀ x ∈ t.classNames, f x = .ok x := by
  rw [renameClasses_eq_ok_iff, List.forall₂_same]
  constructor
  · rintro ⟨hps, hr⟩ x hx
    rcases mem_classNames.1 hx with ⟨p, hp, hx⟩ | ⟨r, hresult, hx⟩
    · exact FieldType.renameClass_eq_self_iff.1 (hps p hp) x hx
    · rw [Option.mem_def.1 hresult] at hr
      obtain ⟨hrename⟩ := hr
      exact FieldType.renameClass_eq_self_iff.1 hrename x hx
  · intro h
    refine ⟨fun p hp => FieldType.renameClass_eq_self_iff.2 fun x hx =>
      h x (mem_classNames.2 (.inl ⟨p, hp, hx⟩)), ?_⟩
    cases hresult : t.result with
    | none => exact .none
    | some r =>
      exact .some (FieldType.renameClass_eq_self_iff.2 fun x hx =>
        h x (mem_classNames.2 (.inr ⟨r, hresult, hx⟩)))

theorem MethodType.exists_renameClasses_iff {t : MethodType} :
    (∃ t', t.renameClasses f = .ok t') ↔ ∀ x ∈ t.classNames, ∃ y, f x = .ok y := by
  constructor
  · rintro ⟨t', h⟩ x hx
    obtain ⟨hps, hr⟩ := renameClasses_eq_ok_iff.1 h
    rcases mem_classNames.1 hx with ⟨p, hp, hx⟩ | ⟨r, hresult, hx⟩
    · obtain ⟨p', -, hrename⟩ := exists_right_of_forall₂ hps hp
      exact FieldType.exists_renameClass_iff.1 ⟨p', hrename⟩ x hx
    · rw [Option.mem_def.1 hresult] at hr
      generalize t'.result = r' at hr
      obtain ⟨hrename⟩ := hr
      exact FieldType.exists_renameClass_iff.1 ⟨_, hrename⟩ x hx
  · intro h
    obtain ⟨ps, hps⟩ := Outcome.exists_mapM_iff.2 fun p (hp : p ∈ t.parameters) =>
      FieldType.exists_renameClass_iff.2 fun x hx => h x (mem_classNames.2 (.inl ⟨p, hp, hx⟩))
    obtain ⟨result, hresult⟩ : ∃ result,
        Option.Rel (fun r r' => r.renameClass f = .ok r') t.result result := by
      cases hr : t.result with
      | none => exact ⟨none, .none⟩
      | some r =>
        obtain ⟨r', hrename⟩ := FieldType.exists_renameClass_iff.2 fun x hx =>
          h x (mem_classNames.2 (.inr ⟨r, hr, hx⟩))
        exact ⟨some r', .some hrename⟩
    exact ⟨⟨ps, result⟩, renameClasses_eq_ok_iff.2 ⟨Outcome.mapM_eq_ok_iff.1 hps, hresult⟩⟩

namespace Descriptor

/-- The class names in a descriptor are those of the type it is read as. -/
theorem classNames_eq_ok_iff {names : List String} :
    classNames desc = .ok names ↔
      (∃ t, MethodType.parse desc = .ok t ∧ t.classNames = names) ∨
        ∃ t, FieldType.parse desc = .ok t ∧ t.className?.toList = names := by
  constructor
  · intro h
    rw [classNames] at h
    split at h
    · split at h
      · rename_i t ht
        exact .inl ⟨t, ht, Except.ok.inj h⟩
      · cases h
    · split at h
      · rename_i t ht
        exact .inr ⟨t, ht, Except.ok.inj h⟩
      · cases h
  · rintro (⟨t, ht, rfl⟩ | ⟨t, ht, rfl⟩)
    · rw [classNames, if_pos (isMethod_of_parse ht), ht]
    · rw [classNames, not_isMethod_of_parse ht, ht]
      rfl

/-- A text is a descriptor if the class names in it can be told. -/
theorem check_eq_ok_iff : check desc = .ok () ↔ ∃ names, classNames desc = .ok names := by
  rw [check, classNames]
  split <;> split <;> simp

theorem mentions_iff {names : List String} {x : String} (h : classNames desc = .ok names) :
    Mentions desc x ↔ x ∈ names := by
  constructor
  · rintro ⟨names', hnames', hx⟩
    exact Except.ok.inj (h.symm.trans hnames') ▸ hx
  · intro hx
    exact ⟨names, h, hx⟩

/-- A class name in a descriptor has a character and holds no `;`. -/
theorem delimited_of_mentions {x : String} (h : Mentions desc x) :
    x.toList ≠ [] ∧ ';' ∉ x.toList := by
  have hfield : ∀ t : FieldType, t.WellFormed → x ∈ t.className? →
      x.toList ≠ [] ∧ ';' ∉ x.toList := by
    rintro ((p | name) | ⟨n, p | name⟩) hwf hx
    · cases hx
    · cases hx
      exact hwf
    · cases hx
    · cases hx
      exact hwf.2.2
  obtain ⟨names, hnames, hx⟩ := h
  rcases classNames_eq_ok_iff.1 hnames with ⟨t, ht, rfl⟩ | ⟨t, ht, rfl⟩
  · obtain ⟨hwf, -⟩ := MethodType.parse_eq_ok_iff.1 ht
    rcases MethodType.mem_classNames.1 hx with ⟨p, hp, hx⟩ | ⟨r, hr, hx⟩
    · exact hfield p (hwf.1 p hp) hx
    · exact hfield r (hwf.2 r hr) hx
  · exact hfield t (FieldType.parse_eq_ok_iff.1 ht).1 (Option.mem_toList.1 hx)

/-- **The class names in a descriptor are replaced if there is a new name for each of them.** -/
theorem exists_renameClasses_iff :
    (∃ desc', renameClasses f desc = .ok desc') ↔
      ∃ names, classNames desc = .ok names ∧ ∀ x ∈ names, ∃ y, f x = .ok y := by
  constructor
  · rintro ⟨desc', h⟩
    rcases renameClasses_eq_ok_iff.1 h with ⟨t, t', ht, hrename, -⟩ | ⟨t, t', ht, hrename, -⟩
    · exact ⟨_, classNames_eq_ok_iff.2 (.inl ⟨t, ht, rfl⟩),
        MethodType.exists_renameClasses_iff.1 ⟨t', hrename⟩⟩
    · refine ⟨_, classNames_eq_ok_iff.2 (.inr ⟨t, ht, rfl⟩), fun x hx => ?_⟩
      exact FieldType.exists_renameClass_iff.1 ⟨t', hrename⟩ x (Option.mem_toList.1 hx)
  · rintro ⟨names, hnames, h⟩
    rcases classNames_eq_ok_iff.1 hnames with ⟨t, ht, rfl⟩ | ⟨t, ht, rfl⟩
    · obtain ⟨t', hrename⟩ := MethodType.exists_renameClasses_iff.2 h
      exact ⟨_, renameClasses_eq_ok_iff.2 (.inl ⟨t, t', ht, hrename, rfl⟩)⟩
    · obtain ⟨t', hrename⟩ := FieldType.exists_renameClass_iff.2 fun x hx =>
        h x (Option.mem_toList.2 hx)
      exact ⟨_, renameClasses_eq_ok_iff.2 (.inr ⟨t, t', ht, hrename, rfl⟩)⟩

/-- What new names come out depends on the class names in the descriptor only. -/
theorem renameClasses_of_mentions {g : String → Outcome String}
    (hfg : ∀ x, Mentions desc x → ∀ y, f x = .ok y → g x = .ok y)
    (h : renameClasses f desc = .ok desc') : renameClasses g desc = .ok desc' := by
  refine renameClasses_trans (fun x hx y hy => ?_) (fun x hx y z hy hz => ?_) (renameClasses_same h)
    h
  · exact Except.ok.inj hy ▸ delimited_of_mentions hx
  · exact Except.ok.inj hy ▸ hfg x hx z hz

/-- **A descriptor is left as it is exactly if each class name in it is**, where no new name holds a
`;`. -/
theorem renameClasses_eq_self_iff
    (hnames : ∀ x, Mentions desc x → ∀ y, f x = .ok y → ';' ∉ y.toList) :
    renameClasses f desc = .ok desc ↔
      ∃ names, classNames desc = .ok names ∧ ∀ x ∈ names, f x = .ok x := by
  constructor
  · intro h
    rcases renameClasses_eq_ok_iff.1 h with ⟨t, t', ht, hrename, hwrite⟩ |
      ⟨t, t', ht, hrename, hwrite⟩
    · obtain ⟨hwf, hwrite'⟩ := MethodType.parse_eq_ok_iff.1 ht
      -- the written forms of the two types are the same, and tell them apart
      obtain rfl : t' = t := MethodType.write_injective
        (MethodType.delimited_of_renameClasses hwf
          (fun x hx => hnames x (mentions_of_method ht hx)) hrename)
        (MethodType.delimited_of_wellFormed hwf) (hwrite.trans hwrite'.symm)
      exact ⟨_, classNames_eq_ok_iff.2 (.inl ⟨t', ht, rfl⟩),
        MethodType.renameClasses_eq_self_iff.1 hrename⟩
    · obtain ⟨hwf, hwrite'⟩ := FieldType.parse_eq_ok_iff.1 ht
      obtain rfl : t' = t := FieldType.write_injective
        (FieldType.delimited_of_renameClass hwf
          (fun x hx => hnames x (mentions_of_field ht hx)) hrename)
        (FieldType.delimited_of_wellFormed hwf) (hwrite.trans hwrite'.symm)
      refine ⟨_, classNames_eq_ok_iff.2 (.inr ⟨t', ht, rfl⟩), fun x hx => ?_⟩
      exact FieldType.renameClass_eq_self_iff.1 hrename x (Option.mem_toList.1 hx)
  · rintro ⟨names, hclassNames, h⟩
    rcases classNames_eq_ok_iff.1 hclassNames with ⟨t, ht, rfl⟩ | ⟨t, ht, rfl⟩
    · exact renameClasses_eq_ok_iff.2 (.inl ⟨t, t, ht, MethodType.renameClasses_eq_self_iff.2 h,
        (MethodType.parse_eq_ok_iff.1 ht).2⟩)
    · exact renameClasses_eq_ok_iff.2 (.inr ⟨t, t, ht, FieldType.renameClass_eq_self_iff.2
        fun x hx => h x (Option.mem_toList.2 hx), (FieldType.parse_eq_ok_iff.1 ht).2⟩)

/-- **The class names after a replacement are the new names**, if these have a character and hold no
`;`. -/
theorem exists_classNames_of_renameClasses
    (hnames : ∀ x, Mentions desc x → ∀ y, f x = .ok y → y.toList ≠ [] ∧ ';' ∉ y.toList)
    (h : renameClasses f desc = .ok desc') :
    ∃ names', classNames desc' = .ok names' ∧
      ∀ y ∈ names', ∃ x, Mentions desc x ∧ f x = .ok y := by
  rcases renameClasses_eq_ok_iff.1 h with ⟨t, t', ht, hrename, rfl⟩ | ⟨t, t', ht, hrename, rfl⟩
  · have hmentions := fun x (hx : x ∈ t.classNames) => mentions_of_method ht hx
    obtain ⟨hwf, -⟩ := MethodType.parse_eq_ok_iff.1 ht
    have hwf' := MethodType.wellFormed_of_renameClasses hwf
      (fun x hx => hnames x (hmentions x hx)) hrename
    have hnew := MethodType.forall_of_renameClasses
      (P := fun p' => ∀ y ∈ p'.className?, ∃ x, Mentions desc x ∧ f x = .ok y) hwf
      (fun p p' _ hmem hp y hy => by
        obtain ⟨x, hx, hf⟩ := FieldType.exists_className_of_renameClass hp hy
        exact ⟨x, hmentions x (hmem x hx), hf⟩) hrename
    refine ⟨_, classNames_eq_ok_iff.2 (.inl ⟨t', MethodType.parse_eq_ok_iff.2 ⟨hwf', rfl⟩, rfl⟩),
      fun y hy => ?_⟩
    rcases MethodType.mem_classNames.1 hy with ⟨p', hp', hy⟩ | ⟨r', hr', hy⟩
    · exact hnew.1 p' hp' y hy
    · exact hnew.2 r' hr' y hy
  · obtain ⟨hwf, -⟩ := FieldType.parse_eq_ok_iff.1 ht
    have hwf' := FieldType.wellFormed_of_renameClass hwf
      (fun x hx => hnames x (mentions_of_field ht hx)) hrename
    refine ⟨_, classNames_eq_ok_iff.2 (.inr ⟨t', FieldType.parse_eq_ok_iff.2 ⟨hwf', rfl⟩, rfl⟩),
      fun y hy => ?_⟩
    obtain ⟨x, hx, hf⟩ := FieldType.exists_className_of_renameClass hrename
      (Option.mem_toList.1 hy)
    exact ⟨x, mentions_of_field ht hx, hf⟩

/-- **There and back, name by name.**  Where each class name in a descriptor is taken to a name that
can stand there and on to one without a `;`, so is the descriptor, and it comes back exactly if each
name does. -/
theorem exists_renameClasses_back_iff {g : String → Outcome String} {names : List String}
    (hnames : classNames desc = .ok names)
    (h : ∀ x ∈ names, ∃ y z, f x = .ok y ∧ g y = .ok z ∧ (y.toList ≠ [] ∧ ';' ∉ y.toList) ∧
      ';' ∉ z.toList) :
    ∃ desc' desc'', renameClasses f desc = .ok desc' ∧ renameClasses g desc' = .ok desc'' ∧
      (desc'' = desc ↔ ∀ x ∈ names, (f x >>= g) = .ok x) := by
  have hmem : ∀ x, Mentions desc x → x ∈ names := fun x => (mentions_iff hnames).1
  obtain ⟨desc', hdesc'⟩ := exists_renameClasses_iff.2 ⟨names, hnames, fun x hx => by
    obtain ⟨y, z, hy, -⟩ := h x hx
    exact ⟨y, hy⟩⟩
  -- both renamings at once
  obtain ⟨desc'', hdesc''⟩ := exists_renameClasses_iff.2 ⟨names, hnames, fun x hx => by
    obtain ⟨y, z, hy, hz, -⟩ := h x hx
    exact ⟨z, Outcome.bind_eq_ok_iff.2 ⟨y, hy, hz⟩⟩⟩
  refine ⟨desc', desc'', hdesc', ?_, ?_⟩
  · refine renameClasses_trans (fun x hx y hy => ?_) (fun x hx y z hy hz => ?_) hdesc' hdesc''
    · obtain ⟨y', z, hy', -, hdelimited, -⟩ := h x (hmem x hx)
      exact Outcome.eq_of_eq_ok hy hy' ▸ hdelimited
    · obtain ⟨y', hy', hz⟩ := Outcome.bind_eq_ok_iff.1 hz
      exact Outcome.eq_of_eq_ok hy hy' ▸ hz
  · have hself : desc'' = desc ↔ renameClasses (fun x => f x >>= g) desc = .ok desc := by
      rw [hdesc'', Except.ok.injEq]
    rw [hself, renameClasses_eq_self_iff fun x hx z hz => by
      obtain ⟨y, z', hy, hz', -, hdelimited⟩ := h x (hmem x hx)
      have hz' := Outcome.bind_eq_ok_iff.2 ⟨y, hy, hz'⟩
      exact Outcome.eq_of_eq_ok hz hz' ▸ hdelimited]
    simp only [hnames, Except.ok.injEq, exists_eq_left']

end Descriptor

end SymbolMap
