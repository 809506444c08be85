import SymbolMap.Proofs.Renamer.TranslationShape

/-!
# Translated descriptors, name by name

A descriptor is translated class name by class name: what comes out has the shape of the descriptor
and the new names in the places of the old ones (`Descriptor.Replaces`).  A class name in it that
begins like an array's is refused unless it is the name of an array of primitives, which keeps it
(`Name.isClassName_iff_of_isArray`).  A refused descriptor is a malformed mapping.

The name of an array is translated as a field descriptor, and that asks for the translation of a
class name again.  This goes on for one round only: the class name holds no `;`, so if it is an
array's, the array has no class inside (`fieldDescriptorBy_classNameBy`).
-/

namespace SymbolMap

/-! ## Names in their places -/

/-- The second type has new names in the places of the class names of the first. -/
def MethodType.Replaces (f : String → Outcome String) (t t' : MethodType) : Prop :=
  t.SameShape t' ∧ List.Forall₂ (fun x y => f x = .ok y) t.classNames t'.classNames

/-- The second type has a new name in the place of the class name of the first. -/
def FieldType.Replaces (f : String → Outcome String) (t t' : FieldType) : Prop :=
  t.SameShape t' ∧ Option.Rel (fun x y => f x = .ok y) t.className? t'.className?

/-- The second text is the written form of the type the first is read as, with new names in the
places of the class names. -/
def Descriptor.Replaces (f : String → Outcome String) (desc desc' : String) : Prop :=
  (∃ t t', MethodType.parse desc = .ok t ∧ t.Replaces f t' ∧ t'.write = desc') ∨
    ∃ t t', FieldType.parse desc = .ok t ∧ t.Replaces f t' ∧ t'.write = desc'

variable {f : String → Outcome String}

theorem FieldType.replaces_of_renameClass {t t' : FieldType} (h : t.renameClass f = .ok t') :
    t.Replaces f t' := by
  refine ⟨sameShape_of_renameClass h, ?_⟩
  rcases renameClass_eq_ok_iff.1 h with ⟨hnone, rfl⟩ | ⟨x, y, hx, hy, rfl⟩
  · rw [hnone]
    exact .none
  · rw [hx, className?_withClass hx]
    exact .some hy

theorem MethodType.replaces_of_renameClasses {t t' : MethodType}
    (h : t.renameClasses f = .ok t') : t.Replaces f t' := by
  refine ⟨sameShape_of_renameClasses h, ?_⟩
  obtain ⟨hps, hr⟩ := renameClasses_eq_ok_iff.1 h
  refine List.rel_append (List.rel_filterMap (fun p p' hp => ?_) hps) ?_
  · exact (FieldType.replaces_of_renameClass hp).2
  · apply forall₂_toList
    generalize t.result = r at hr
    generalize t'.result = r' at hr
    cases hr with
    | none => exact .none
    | some hrename => exact (FieldType.replaces_of_renameClass hrename).2

theorem Descriptor.replaces_of_renameClasses {desc desc' : String}
    (h : renameClasses f desc = .ok desc') : Replaces f desc desc' := by
  rcases renameClasses_eq_ok_iff.1 h with ⟨t, t', ht, hrename, hwrite⟩ |
    ⟨t, t', ht, hrename, hwrite⟩
  · exact .inl ⟨t, t', ht, MethodType.replaces_of_renameClasses hrename, hwrite⟩
  · exact .inr ⟨t, t', ht, FieldType.replaces_of_renameClass hrename, hwrite⟩

/-! ## Arrays of primitives -/

/-- Between 1 and 255 times `[`, and then the letter of a primitive. -/
def Name.IsPrimitiveArray (x : String) : Prop :=
  ∃ n c, 1 ≤ n ∧ n ≤ 255 ∧ c ∈ ['B', 'C', 'D', 'F', 'I', 'J', 'S', 'Z'] ∧
    x.toList = List.replicate n '[' ++ [c]

/-- A name that begins like an array's and holds no `;` is valid if it is that of an array of
primitives. -/
theorem Name.isClassName_iff_of_isArray {x : String} (harray : isArray x = true)
    (hx : ';' ∉ x.toList) : isClassName x = true ↔ IsPrimitiveArray x := by
  constructor
  · intro hname
    obtain ⟨t, hparse, hclass⟩ := exists_parse_of_isArray harray hname hx
    obtain ⟨hwf, rfl⟩ := FieldType.parse_eq_ok_iff.1 hparse
    rcases t with (p | name) | ⟨n, p | name⟩
    · have hletter : isArray (FieldType.write (.single (.primitive p))) = false := by
        cases p <;> decide
      rw [hletter] at harray
      cases harray
    · cases hclass
    · refine ⟨n, p.letter, hwf.1, hwf.2.1, by cases p <;> decide, ?_⟩
      rw [FieldType.write, String.toList_ofList]
      rfl
    · cases hclass
  · rintro ⟨n, c, hn, hn', hc, hchars⟩
    obtain ⟨p, hp⟩ : ∃ p, Primitive.ofLetter? c = some p := by
      simp only [List.mem_cons, List.not_mem_nil, or_false] at hc
      rcases hc with rfl | rfl | rfl | rfl | rfl | rfl | rfl | rfl <;> exact ⟨_, rfl⟩
    have hparse : FieldType.parse x = .ok (.array n (.primitive p)) := by
      refine FieldType.parse_eq_ok_iff.2 ⟨⟨hn, hn', trivial⟩, String.toList_injective ?_⟩
      rw [FieldType.write, String.toList_ofList, hchars, ← Primitive.letter_of_ofLetter? hp]
      rfl
    rw [isClassName, if_pos harray, hparse]

namespace ClassRenames

variable {t : ClassRenames} {d : Direction}

/-! ## One round -/

/-- The name of a class on the other side, where that of an array is taken from `field`. -/
def classNameBy (t : ClassRenames) (d : Direction) (field : String → Outcome String)
    (x : String) : Outcome String :=
  if Name.isArray x then field x else .ok ((t.lookup d x).getD x)

/-- The field descriptor on the other side, where the name of its class is taken from `name`. -/
def fieldDescriptorBy (d : Direction) (name : String → Outcome String) (desc : String) :
    Outcome String :=
  Outcome.within (.malformed (.unrenamedField d desc)) do
    let type ← Outcome.ofReading (FieldType.parse desc)
    let type ← type.renameClass name
    return type.write

theorem className_eq_by (t : ClassRenames) (d : Direction) :
    t.className d = t.classNameBy d (t.fieldDescriptor d) := by
  funext x
  rw [classNameBy]
  split
  · rename_i harray
    exact className_of_array t d harray
  · rename_i harray
    exact className_of_not_array t d (by simpa using harray)

theorem fieldDescriptor_eq_by (t : ClassRenames) (d : Direction) :
    t.fieldDescriptor d = fieldDescriptorBy d (t.className d) := rfl

/-- The translation of a field descriptor depends on what its class becomes only. -/
theorem fieldDescriptorBy_congr {name name' : String → Outcome String} {desc : String}
    (h : ∀ type x, FieldType.parse desc = .ok type → type.className? = some x →
      name x = name' x) : fieldDescriptorBy d name desc = fieldDescriptorBy d name' desc := by
  rw [fieldDescriptorBy, fieldDescriptorBy]
  cases hparse : FieldType.parse desc with
  | error e => rfl
  | ok type =>
    have hsame : type.renameClass name = type.renameClass name' := by
      cases hclass : type.className? with
      | none =>
        rw [FieldType.renameClass_of_none hclass, FieldType.renameClass_of_none hclass]
      | some x =>
        rw [FieldType.renameClass_of_some hclass, FieldType.renameClass_of_some hclass,
          h type x hparse hclass]
    simp only [Outcome.ofReading, Outcome.ok_bind, hsame]

/-- **The recursion ends after one round**, whatever stands in for the next one. -/
theorem fieldDescriptorBy_classNameBy (t : ClassRenames) (d : Direction)
    (inner : String → Outcome String) :
    fieldDescriptorBy d (t.classNameBy d (fieldDescriptorBy d inner)) = t.fieldDescriptor d := by
  funext desc
  rw [fieldDescriptor_eq_by]
  refine fieldDescriptorBy_congr fun type x hparse hx => ?_
  rw [className_eq_by, classNameBy, classNameBy, fieldDescriptor_eq_by]
  split
  · refine fieldDescriptorBy_congr fun type' x' hparse' hx' => ?_
    -- the class name holds no `;`, so there is no class in it
    have hdelimited := Descriptor.delimited_of_mentions (Descriptor.mentions_of_field hparse hx)
    have hnone : type'.className? = none := FieldType.className?_eq_none <| by
      rw [(FieldType.parse_eq_ok_iff.1 hparse').2]
      exact hdelimited.2
    rw [hnone] at hx'
    cases hx'
  · rfl

/-! ## Translated descriptors -/

theorem kind_of_descriptor_eq_error {desc : String} {e : Failure}
    (h : t.descriptor d desc = .error e) : e.kind = .malformed := by
  rw [descriptor] at h
  cases hrename : Descriptor.renameClasses (t.className d) desc with
  | ok desc' =>
    rw [hrename] at h
    cases h
  | error e' =>
    rw [hrename] at h
    obtain rfl := Except.error.inj h
    rw [Failure.kind_within]
    rfl

/-- **Descriptors are translated name by name.**  A text is translated if it is a descriptor in which
every class name that begins like an array's is that of an array of primitives.  Then each class name
is replaced by its translation, and those of arrays are kept; otherwise it is a malformed mapping.
The recursion between class names and field descriptors goes no deeper than two of each. -/
theorem descriptor_name_by_name (t : ClassRenames) (d : Direction) :
    (∀ desc, (∃ desc', t.descriptor d desc = .ok desc') ↔
      Descriptor.check desc = .ok () ∧ ∀ x, Descriptor.Mentions desc x → Name.isArray x = true →
        Name.IsPrimitiveArray x) ∧
    (∀ desc desc', t.descriptor d desc = .ok desc' →
      Descriptor.Replaces (t.className d) desc desc' ∧
        ∀ x, Descriptor.Mentions desc x → Name.isArray x = true → t.className d x = .ok x) ∧
    (∀ desc e, t.descriptor d desc = .error e → e.kind = .malformed) ∧
    t.className d = t.classNameBy d (t.fieldDescriptor d) ∧
    t.fieldDescriptor d = fieldDescriptorBy d (t.className d) ∧
    ∀ inner, t.className d =
      t.classNameBy d (fieldDescriptorBy d (t.classNameBy d (fieldDescriptorBy d inner))) := by
  have hdelimited : ∀ {desc x}, Descriptor.Mentions desc x → ';' ∉ x.toList := fun h =>
    (Descriptor.delimited_of_mentions h).2
  refine ⟨fun desc => ?_, fun desc desc' h => ⟨?_, fun x hx harray => ?_⟩,
    fun _ _ => kind_of_descriptor_eq_error, className_eq_by t d, fieldDescriptor_eq_by t d,
    fun inner => ?_⟩
  · rw [exists_descriptor_iff, Descriptor.check_eq_ok_iff]
    constructor
    · rintro ⟨names, hnames, harrays⟩
      refine ⟨⟨names, hnames⟩, fun x hx harray => ?_⟩
      rw [← Name.isClassName_iff_of_isArray harray (hdelimited hx)]
      exact harrays x ((Descriptor.mentions_iff hnames).1 hx) harray
    · rintro ⟨⟨names, hnames⟩, harrays⟩
      refine ⟨names, hnames, fun x hx harray => ?_⟩
      have hmentions := (Descriptor.mentions_iff hnames).2 hx
      rw [Name.isClassName_iff_of_isArray harray (hdelimited hmentions)]
      exact harrays x hmentions harray
  · rw [descriptor, Outcome.within_eq_ok_iff] at h
    exact Descriptor.replaces_of_renameClasses h
  · obtain ⟨names, hnames, harrays⟩ := exists_descriptor_iff.1 ⟨desc', h⟩
    exact className_of_isArray harray
      (harrays x ((Descriptor.mentions_iff hnames).1 hx) harray) (hdelimited hx)
  · rw [fieldDescriptorBy_classNameBy, ← className_eq_by]

/-- A method that takes an array of primitives by its name is translated, and the array stays.  An
array of a class cannot be named in a descriptor. -/
theorem arrays_name_by_name : ∃ t, ofMappings (classAndPackage "b" "q") = .ok t ∧
    (∃ desc', t.descriptor .toMapped "(L[[I;La;)Lp/C;" = .ok desc' ∧
      Descriptor.Replaces (t.className .toMapped) "(L[[I;La;)Lp/C;" desc' ∧
      t.className .toMapped "[[I" = .ok "[[I") ∧
    ∃ e, t.descriptor .toMapped "L[La;" = .error e ∧ e.kind = .malformed := by
  obtain ⟨t, ht⟩ : ∃ t, ofMappings (classAndPackage "b" "q") = .ok t :=
    Outcome.exists_eq_ok (by decide +kernel)
  obtain ⟨hexists, hreplaces, herror, -⟩ := descriptor_name_by_name t .toMapped
  refine ⟨t, ht, ?_, ?_⟩
  · have hread : Descriptor.classNames "(L[[I;La;)Lp/C;" = .ok ["[[I", "a", "p/C"] := by
      decide +kernel
    obtain ⟨desc', hdesc'⟩ := (hexists "(L[[I;La;)Lp/C;").2
      ⟨Descriptor.check_eq_ok_iff.2 ⟨_, hread⟩, fun x hx harray => by
        rw [Descriptor.mentions_iff hread] at hx
        have hall : ∀ x ∈ ["[[I", "a", "p/C"], Name.isArray x = true → x = "[[I" := by decide
        obtain rfl := hall x hx harray
        exact ⟨2, 'I', by decide, by decide, by decide, by decide⟩⟩
    obtain ⟨hnames, hkept⟩ := hreplaces _ _ hdesc'
    exact ⟨desc', hdesc', hnames, hkept "[[I" ⟨_, hread, by decide⟩ (by decide)⟩
  · have hnone : (ofMappings (classAndPackage "b" "q") >>= fun t =>
        t.descriptor .toMapped "L[La;").toOption = none := by
      decide +kernel
    rw [ht, Outcome.ok_bind] at hnone
    cases hdesc : t.descriptor .toMapped "L[La;" with
    | ok desc' =>
      rw [hdesc] at hnone
      cases hnone
    | error e => exact ⟨e, rfl, herror _ e hdesc⟩

end ClassRenames

end SymbolMap
