import SymbolMap.Proofs.Descriptor.ClassNames

/-!
# The shape of a descriptor

Two descriptors have the same shape if they differ in class names only: both are field descriptors
or both are method descriptors, with the same primitive types, the same dimensions and classes in
the same places (`Descriptor.SameShape`).

Replacing the class names in a descriptor keeps its shape, as long as the new names can stand in a
descriptor (`sameShape_of_renameClasses`).
-/

namespace SymbolMap

/-- Both types are the same primitive, or both are classes. -/
inductive ElementType.SameShape : ElementType → ElementType → Prop where
  | primitive (p : Primitive) : SameShape (.primitive p) (.primitive p)
  | object (x y : String) : SameShape (.object x) (.object y)

/-- The elements have the same shape, and the dimensions are the same. -/
inductive FieldType.SameShape : FieldType → FieldType → Prop where
  | single {e e' : ElementType} (h : e.SameShape e') : SameShape (.single e) (.single e')
  | array (n : Nat) {e e' : ElementType} (h : e.SameShape e') : SameShape (.array n e) (.array n e')

/-- Parameters and results have the same shape one by one. -/
structure MethodType.SameShape (t t' : MethodType) : Prop where
  parameters : List.Forall₂ FieldType.SameShape t.parameters t'.parameters
  result : Option.Rel FieldType.SameShape t.result t'.result

/-- Both texts are read as field types or both as method types, and these have the same shape. -/
inductive Descriptor.SameShape (desc desc' : String) : Prop where
  | field {t t' : FieldType} (hparse : FieldType.parse desc = .ok t)
    (hparse' : FieldType.parse desc' = .ok t') (h : t.SameShape t')
  | method {t t' : MethodType} (hparse : MethodType.parse desc = .ok t)
    (hparse' : MethodType.parse desc' = .ok t') (h : t.SameShape t')

variable {f : String → Outcome String}

/-- Renaming the class of a type keeps its shape. -/
theorem FieldType.sameShape_of_renameClass {t t' : FieldType} (h : t.renameClass f = .ok t') :
    t.SameShape t' := by
  rcases renameClass_eq_ok_iff.1 h with ⟨hnone, rfl⟩ | ⟨x, y, hx, -, rfl⟩
  · rcases t' with (p | name) | ⟨n, p | name⟩
    · exact .single (.primitive p)
    · cases hnone
    · exact .array n (.primitive p)
    · cases hnone
  · rcases t with (p | name) | ⟨n, p | name⟩
    · cases hx
    · exact .single (.object name y)
    · cases hx
    · exact .array n (.object name y)

theorem MethodType.sameShape_of_renameClasses {t t' : MethodType}
    (h : t.renameClasses f = .ok t') : t.SameShape t' := by
  obtain ⟨hps, hr⟩ := renameClasses_eq_ok_iff.1 h
  refine ⟨hps.imp fun _ _ => FieldType.sameShape_of_renameClass, ?_⟩
  generalize t.result = r at hr
  generalize t'.result = r' at hr
  cases hr with
  | none => exact .none
  | some hrename => exact .some (FieldType.sameShape_of_renameClass hrename)

namespace Descriptor

variable {desc desc' : String}

/-- Texts of the same shape are descriptors. -/
theorem SameShape.check (h : SameShape desc desc') :
    Descriptor.check desc = .ok () ∧ Descriptor.check desc' = .ok () := by
  cases h with
  | field hparse hparse' _ =>
    exact ⟨check_eq_ok_iff.2 ⟨_, classNames_eq_ok_iff.2 (.inr ⟨_, hparse, rfl⟩)⟩,
      check_eq_ok_iff.2 ⟨_, classNames_eq_ok_iff.2 (.inr ⟨_, hparse', rfl⟩)⟩⟩
  | method hparse hparse' _ =>
    exact ⟨check_eq_ok_iff.2 ⟨_, classNames_eq_ok_iff.2 (.inl ⟨_, hparse, rfl⟩)⟩,
      check_eq_ok_iff.2 ⟨_, classNames_eq_ok_iff.2 (.inl ⟨_, hparse', rfl⟩)⟩⟩

/-- **Replacing class names keeps the shape**, if the new names have a character and hold no `;`. -/
theorem sameShape_of_renameClasses
    (hnames : ∀ x, Mentions desc x → ∀ y, f x = .ok y → y.toList ≠ [] ∧ ';' ∉ y.toList)
    (h : renameClasses f desc = .ok desc') : SameShape desc desc' := by
  rcases renameClasses_eq_ok_iff.1 h with ⟨t, t', hparse, hrename, rfl⟩ |
    ⟨t, t', hparse, hrename, rfl⟩
  · have hwf := MethodType.wellFormed_of_renameClasses (MethodType.parse_eq_ok_iff.1 hparse).1
      (fun x hx => hnames x (mentions_of_method hparse hx)) hrename
    exact .method hparse (MethodType.parse_eq_ok_iff.2 ⟨hwf, rfl⟩)
      (MethodType.sameShape_of_renameClasses hrename)
  · have hwf := FieldType.wellFormed_of_renameClass (FieldType.parse_eq_ok_iff.1 hparse).1
      (fun x hx => hnames x (mentions_of_field hparse hx)) hrename
    exact .field hparse (FieldType.parse_eq_ok_iff.2 ⟨hwf, rfl⟩)
      (FieldType.sameShape_of_renameClass hrename)

end Descriptor

end SymbolMap
