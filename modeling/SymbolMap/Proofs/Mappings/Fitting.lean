import Mathlib.Data.List.Nodup
import SymbolMap.Proofs.Mappings.Identities
import SymbolMap.Proofs.Renamer.MemberTables

/-!
# Symbols that fit

The check of a collection asks the same of each of its symbols: it is valid, it is named in the way
of the collection, and its names fit what it names.  Such a symbol **fits** (`Symbol.Fits`), and so
does a class whose symbols do (`MappedClass.Fits`).

A collection is valid if its classes and packages fit, identities and owners are right, and no
unmapped class name repeats (`GroupedMappings.validate_iff_fits`).  The second of these holds of
every collection that is built, so for a collection that was made of a valid one it is the other
two that have to be seen to.
-/

namespace SymbolMap

/-- What the names of a member of a kind have to be. -/
def MemberKind.nameRule : MemberKind → String → Bool
  | .field => Name.isUnqualified
  | .method => Name.isMethodName

/-- The symbol is valid, is named in the way of a collection, and its names fit a rule. -/
structure Symbol.Fits (namespaces : Option Namespaces) (rule : String → Bool) (s : Symbol) :
    Prop where
  shape : checkShape namespaces s = .ok ()
  valid : s.validate = .ok ()
  names : s.NamesFit rule

/-- The class and its members fit. -/
structure MappedClass.Fits (namespaces : Option Namespaces) (c : MappedClass) : Prop where
  info : c.info.Fits namespaces Name.isClassName
  members : ∀ kind, ∀ s ∈ c.membersOf kind, s.Fits namespaces kind.nameRule

/-! ## Keys that do not repeat -/

section

variable {α : Type} {scope : Scope} {key : α → Outcome String} {xs : List α} {keys : List String}

theorem map_keyed (h : xs.map key = keys.map .ok) :
    (xs.map fun a => (do return (← key a, a) : Outcome (String × α))) = (keys.zip xs).map .ok := by
  induction xs generalizing keys with
  | nil =>
    rw [List.zip_nil_right]
    rfl
  | cons a xs ih =>
    cases keys with
    | nil => cases h
    | cons k keys =>
      obtain ⟨hk, hrest⟩ := List.cons.inj h
      rw [List.map_cons, List.zip_cons_cons, List.map_cons, ih hrest, hk]
      rfl

/-- An index of elements that have keys is made if no key repeats. -/
theorem exists_indexInOrder_iff (h : xs.map key = keys.map .ok) :
    (∃ t, indexInOrder scope (xs.map fun a => do return (← key a, a)) = .ok t) ↔
      (xs.map key).Nodup := by
  have hlength : keys.length = xs.length := by simpa using (congrArg List.length h).symm
  have hkeys : (keys.zip xs).map Prod.fst = keys := List.map_fst_zip (by omega)
  rw [h, List.nodup_map_iff fun _ _ => Except.ok.inj, map_keyed h]
  constructor
  · rintro ⟨t, ht⟩
    have hentries : t.entries = keys.zip xs :=
      (List.map_injective_iff.2 (fun _ _ => Except.ok.inj) (entries_indexInOrder ht)).symm
    rw [← hkeys, ← hentries]
    exact t.nodup
  · intro hnodup
    exact ⟨⟨keys.zip xs, hkeys.symm ▸ hnodup⟩, indexOnto_of_entries rfl⟩

end

/-! ## Symbols -/

namespace Symbol

variable {namespaces : Option Namespaces} {rule : String → Bool} {s s' : Symbol}

/-- A valid symbol has an unmapped name. -/
theorem exists_unmappedName_of_validate (h : s.validate = .ok ()) :
    ∃ x, s.unmappedName = .ok x := by
  obtain ⟨names, tags, locals⟩ := s
  cases names with
  | paired unmapped mapped => exact ⟨unmapped, rfl⟩
  | row r =>
    have hpresent : (SymbolNames.row r).checkPresent = .ok () := (validate_eq_ok_iff.1 h).1
    rw [SymbolNames.checkPresent] at hpresent
    split at hpresent
    · cases hpresent
    · split at hpresent
      · rename_i x hx
        exact ⟨x, hx⟩
      · cases hpresent

/-- A symbol with the names, descriptors and local variables of a valid one is valid. -/
theorem Fits.congr (h : s.Fits namespaces rule) (hnames : s'.names = s.names)
    (hdescs : ∀ desc ∈ s'.tags.descriptors, Descriptor.check desc = .ok ())
    (hlocals : s'.locals = s.locals) : s'.Fits namespaces rule := by
  obtain ⟨hpresent, -, hvalid⟩ := validate_eq_ok_iff.1 h.valid
  refine ⟨?_, validate_eq_ok_iff.2 ⟨hnames ▸ hpresent, hdescs, hlocals ▸ hvalid⟩, ?_⟩
  · have hshape := h.shape
    rw [checkShape.eq_def] at hshape ⊢
    rw [hnames]
    exact hshape
  · rw [NamesFit, hnames]
    exact h.names

theorem Fits.descriptors (h : s.Fits namespaces rule) :
    ∀ desc ∈ s.tags.descriptors, Descriptor.check desc = .ok () :=
  (validate_eq_ok_iff.1 h.valid).2.1

theorem Fits.ownedBy (h : s.Fits namespaces rule) (id : ClassId) :
    (s.ownedBy id).Fits namespaces rule :=
  h.congr rfl h.descriptors rfl

/-- A symbol named by a pair fits a paired collection if both names are there and fit. -/
theorem fits_of_paired {x y : String} (hnames : s.names = .paired x y) (hx : x ≠ "") (hy : y ≠ "")
    (hrule : rule x = true ∧ rule y = true)
    (hdescs : ∀ desc ∈ s.tags.descriptors, Descriptor.check desc = .ok ())
    (hlocals : ∀ table, s.locals = some table → ∀ e ∈ table, e.2.ValidLocal e.1) :
    s.Fits none rule := by
  refine ⟨?_, validate_eq_ok_iff.2 ⟨?_, hdescs, hlocals⟩, ?_⟩
  · rw [checkShape.eq_def, hnames]
  · rw [hnames, SymbolNames.checkPresent, if_neg (by simp [hx, hy])]
  · intro name hname
    rw [hnames] at hname
    rcases List.mem_cons.1 hname with rfl | hname
    · exact hrule.1
    · rw [List.mem_singleton.1 hname]
      exact hrule.2

/-- What fits a paired collection is named by a pair of two names that are there and fit. -/
theorem Fits.exists_paired (h : s.Fits none rule) :
    ∃ x y, s.names = .paired x y ∧ x ≠ "" ∧ y ≠ "" ∧ rule x = true ∧ rule y = true := by
  have hshape := h.shape
  have hpresent := (validate_eq_ok_iff.1 h.valid).1
  have hrule := h.names
  rw [NamesFit] at hrule
  rw [checkShape.eq_def] at hshape
  cases hnames : s.names with
  | row r =>
    rw [hnames] at hshape
    cases hshape
  | paired x y =>
    rw [hnames] at hpresent hrule
    rw [SymbolNames.checkPresent] at hpresent
    split at hpresent
    · cases hpresent
    · rename_i hne
      rw [not_or] at hne
      exact ⟨x, y, rfl, hne.1, hne.2, hrule x List.mem_cons_self,
        hrule y (List.mem_cons_of_mem _ List.mem_cons_self)⟩

theorem Fits.exists_mappedName (h : s.Fits none rule) : ∃ y, s.mappedName = .ok y := by
  obtain ⟨x, y, hnames, -⟩ := h.exists_paired
  exact ⟨y, by rw [mappedName, hnames]; rfl⟩

end Symbol

/-! ## Classes and collections -/

namespace MappedClass

variable {namespaces : Option Namespaces} {c : MappedClass}

theorem exists_kind_of_mem_members {s : Symbol} (h : s ∈ c.members) :
    ∃ kind, s ∈ c.membersOf kind := by
  rcases List.mem_append.1 h with h | h
  · exact ⟨.field, h⟩
  · exact ⟨.method, h⟩

/-- A class that passed its checks fits. -/
theorem fits_of_validate (hshape : ∀ s ∈ c.info :: c.members, checkShape namespaces s = .ok ())
    (hvalid : c.validate = .ok ()) : c.Fits namespaces := by
  obtain ⟨hinfo, hnames, hfields, hmethods, hmembers⟩ := validate_eq_ok_iff.1 hvalid
  refine ⟨⟨hshape _ List.mem_cons_self, hinfo, hnames⟩, fun kind s hs => ?_⟩
  have hmem := mem_members_of_membersOf hs
  refine ⟨hshape s (List.mem_cons_of_mem _ hmem), (hmembers s hmem).1, ?_⟩
  cases kind with
  | field => exact hfields s hs
  | method => exact hmethods s hs

theorem Fits.checkShape (h : c.Fits namespaces) :
    ∀ s ∈ c.info :: c.members, SymbolMap.checkShape namespaces s = .ok () := by
  intro s hs
  rcases List.mem_cons.1 hs with rfl | hs
  · exact h.info.shape
  · obtain ⟨kind, hs⟩ := exists_kind_of_mem_members hs
    exact (h.members kind s hs).shape

/-- A class that fits passes its checks if its members are owned by it. -/
theorem Fits.validate_eq_ok (h : c.Fits namespaces)
    (howner : ∀ s ∈ c.members, s.tags.owner = some c.id) : c.validate = .ok () := by
  refine validate_eq_ok_iff.2 ⟨h.info.valid, h.info.names, fun s hs => ?_, fun s hs => ?_,
    fun s hs => ⟨?_, howner s hs⟩⟩
  · exact (h.members .field s hs).names
  · exact (h.members .method s hs).names
  · obtain ⟨kind, hs⟩ := exists_kind_of_mem_members hs
    exact (h.members kind s hs).valid

end MappedClass

theorem MappedClass.Fits.withId {namespaces : Option Namespaces} {c : MappedClass}
    (h : c.Fits namespaces) (id : ClassId) : (c.withId id).Fits namespaces := by
  refine ⟨h.info, fun kind s hs => ?_⟩
  have hmarked : (c.withId id).membersOf kind = (c.membersOf kind).map (Symbol.ownedBy id) := by
    cases kind <;> rfl
  rw [hmarked] at hs
  obtain ⟨s₀, hs₀, rfl⟩ := List.mem_map.1 hs
  exact (h.members kind s₀ hs₀).ownedBy id

namespace GroupedMappings

variable {m m' : GroupedMappings}

theorem inPlace_iff_zipIdx : m.InPlace ↔ ∀ e ∈ m.classes.zipIdx,
    e.1.id = ⟨e.2⟩ ∧ ∀ s ∈ e.1.members, s.tags.owner = some e.1.id := by
  constructor
  · rintro h ⟨c, i⟩ hmem
    obtain ⟨hid, howner⟩ := h i c (List.mem_zipIdx_iff_getElem?.1 hmem)
    exact ⟨hid, fun s hs => hid ▸ howner s hs⟩
  · intro h i c hc
    obtain ⟨hid, howner⟩ := h (c, i) (List.mem_zipIdx_iff_getElem?.2 hc)
    exact ⟨hid, fun s hs => by rw [howner s hs, hid]⟩

/-- **A collection is valid** if identities and owners are right, its classes and packages fit, and
no unmapped class name repeats. -/
theorem validate_iff_fits : m.validate = .ok () ↔ m.InPlace ∧
    (∀ c ∈ m.classes, c.Fits m.namespaces) ∧
    (∀ p ∈ m.packages, p.Fits m.namespaces Name.isClassName) ∧
    (m.classes.map MappedClass.unmappedName).Nodup := by
  have hindex : (∀ c ∈ m.classes, c.Fits m.namespaces) →
      ((∃ t, m.classesByUnmappedName = .ok t) ↔
        (m.classes.map MappedClass.unmappedName).Nodup) := by
    intro hfits
    obtain ⟨keys, hkeys⟩ := Outcome.exists_mapM_iff.2 fun c (hc : c ∈ m.classes) =>
      Symbol.exists_unmappedName_of_validate (hfits c hc).info.valid
    have hmap : m.classes.map MappedClass.unmappedName = keys.map .ok :=
      map_eq_map_of_forall₂ (Outcome.mapM_eq_ok_iff.1 hkeys) fun _ _ h => h
    exact exists_indexInOrder_iff hmap
  constructor
  · intro h
    obtain ⟨hclasses, hpackages, hnames⟩ := validate_eq_ok_iff.1 h
    have hfits : ∀ c ∈ m.classes, c.Fits m.namespaces := by
      intro c hc
      obtain ⟨hshape, hvalid⟩ := validate_of_mem h hc
      exact MappedClass.fits_of_validate hshape hvalid
    refine ⟨inPlace_iff_zipIdx.2 fun e he => ?_, hfits, fun p hp => ?_, (hindex hfits).1 hnames⟩
    · obtain ⟨hid, -, hvalid⟩ := hclasses e he
      obtain ⟨-, -, -, -, hmembers⟩ := MappedClass.validate_eq_ok_iff.1 hvalid
      exact ⟨hid, fun s hs => (hmembers s hs).2⟩
    · obtain ⟨hshape, hvalid, hfit⟩ := hpackages p hp
      exact ⟨hshape, hvalid, hfit⟩
  · rintro ⟨hplace, hfits, hpackages, hnames⟩
    refine validate_eq_ok_iff.2 ⟨fun e he => ?_, fun p hp => ?_, (hindex hfits).2 hnames⟩
    · obtain ⟨hid, howner⟩ := inPlace_iff_zipIdx.1 hplace e he
      have hclass := hfits e.1 (List.mem_of_getElem? (List.mem_zipIdx_iff_getElem?.1 he))
      exact ⟨hid, hclass.checkShape, hclass.validate_eq_ok howner⟩
    · obtain ⟨hshape, hvalid, hfit⟩ := hpackages p hp
      exact ⟨hshape, hvalid, hfit⟩

end GroupedMappings

end SymbolMap
