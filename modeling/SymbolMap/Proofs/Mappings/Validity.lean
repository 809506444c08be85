import SymbolMap.Mappings.Basic
import SymbolMap.Proofs.Descriptor.ClassNames
import SymbolMap.Proofs.Mappings.PairTables
import SymbolMap.Proofs.Mappings.Parts

/-!
# What is checked

`validate` goes through a collection and stops at the first thing that is wrong.  Here it is said
what has been checked when nothing was: for a symbol and its local variables
(`Symbol.validate_eq_ok_iff`), for a class and its members (`MappedClass.validate_eq_ok_iff`), and
for collections of either form (`GroupedMappings.validate_eq_ok_iff`,
`FlatMappings.validate_eq_ok_iff`).

Each statement lists all checks and no more, so what is missing in it is not checked: the shape of
the names of local variables, and the namespaces descriptors are written in.
-/

namespace SymbolMap

/-! ## Checks in a row -/

namespace Outcome

/-- Checking one thing and then another succeeds when both checks do. -/
theorem seq_eq_ok_iff {r q : Outcome Unit} :
    (r >>= fun _ => q) = .ok () ↔ r = .ok () ∧ q = .ok () := by
  rw [bind_eq_ok_iff]
  exact ⟨fun ⟨_, hr, hq⟩ => ⟨hr, hq⟩, fun ⟨hr, hq⟩ => ⟨(), hr, hq⟩⟩

/-- Going on under a condition succeeds when it holds and the rest succeeds. -/
theorem guard_eq_ok_iff {p : Prop} [Decidable p] {reason : Malformed} {q : Outcome Unit} :
    (if p then q else (malformed reason : Outcome Unit) >>= fun _ => q) = .ok () ↔
      p ∧ q = .ok () := by
  by_cases hp : p
  · rw [if_pos hp]
    exact ⟨fun h => ⟨hp, h⟩, fun h => h.2⟩
  · rw [if_neg hp]
    exact ⟨fun h => (nomatch h), fun h => absurd h.1 hp⟩

end Outcome

/-! ## Symbols -/

namespace Symbol

variable {names : SymbolNames} {s : Symbol}

/-- Every name of the symbol fits the rule. -/
def NamesFit (rule : String → Bool) (s : Symbol) : Prop :=
  ∀ name ∈ s.names.toList, rule name = true

instance (rule : String → Bool) (s : Symbol) : Decidable (s.NamesFit rule) :=
  inferInstanceAs (Decidable (∀ name ∈ s.names.toList, rule name = true))

theorem checkNames_eq_ok_iff {what : String} {rule : String → Bool} :
    s.checkNames what rule = .ok () ↔ s.NamesFit rule :=
  SymbolNames.check_eq_ok_iff

theorem checkDescriptor_eq_ok_iff {desc : String} :
    checkDescriptor names desc = .ok () ↔ Descriptor.check desc = .ok () := by
  rw [checkDescriptor, Outcome.within_eq_ok_iff, Outcome.ofReading_eq_ok_iff]

theorem NamesFit.of_isNamed {rule : String → Bool} {s : Symbol} (h : s.NamesFit rule)
    {x y : String} (hnamed : s.IsNamed (x, y)) : rule x = true ∧ rule y = true := by
  obtain ⟨names, tags, locals⟩ := s
  cases names with
  | row r => cases hnamed.2
  | paired unmapped mapped =>
    obtain rfl : unmapped = x := Except.ok.inj hnamed.1
    obtain rfl : mapped = y := Except.ok.inj hnamed.2
    exact ⟨h unmapped List.mem_cons_self, h mapped (List.mem_cons_of_mem _ List.mem_cons_self)⟩

/-- The symbol can be a local variable with the index. -/
structure ValidLocal (index : Nat) (v : Symbol) : Prop where
  index : index ≤ maxLocalIndex
  valid : v.validate = .ok ()
  names : v.NamesFit Name.isUnqualified

theorem validateLocals_eq_ok_iff {table : LocalTable} :
    validateLocals names table = .ok () ↔ ∀ e ∈ table, e.2.ValidLocal e.1 := by
  induction table with
  | nil => exact ⟨fun _ e he => (nomatch he), fun _ => by rw [validateLocals]; rfl⟩
  | cons e rest ih =>
    obtain ⟨index, v⟩ := e
    rw [validateLocals, List.forall_mem_cons, ← ih]
    simp only [Outcome.guard_eq_ok_iff, Outcome.seq_eq_ok_iff, Outcome.within_eq_ok_iff,
      checkNames_eq_ok_iff]
    constructor
    · rintro ⟨hindex, ⟨hvalid, hnames⟩, hrest⟩
      exact ⟨⟨hindex, hvalid, hnames⟩, hrest⟩
    · rintro ⟨⟨hindex, hvalid, hnames⟩, hrest⟩
      exact ⟨hindex, ⟨hvalid, hnames⟩, hrest⟩

/-- **A symbol is valid** if its names are there, its descriptors can be read and its local
variables are valid. -/
theorem validate_eq_ok_iff :
    s.validate = .ok () ↔ s.names.checkPresent = .ok () ∧
      (∀ desc ∈ s.tags.descriptors, Descriptor.check desc = .ok ()) ∧
      ∀ table, s.locals = some table → ∀ e ∈ table, e.2.ValidLocal e.1 := by
  obtain ⟨names, tags, locals⟩ := s
  rw [validate.eq_def, Outcome.seq_eq_ok_iff, Outcome.seq_eq_ok_iff, Outcome.forM_eq_ok_iff]
  simp only [checkDescriptor_eq_ok_iff]
  refine and_congr Iff.rfl (and_congr Iff.rfl ?_)
  cases locals with
  | none => exact ⟨fun _ table h => (nomatch h), fun _ => rfl⟩
  | some table =>
    refine validateLocals_eq_ok_iff.trans ?_
    exact ⟨fun h table' htable' => Option.some.inj htable' ▸ h, fun h => h table rfl⟩

end Symbol

/-! ## Collections -/

/-- A symbol that fits a collection is a pair where there are no namespaces. -/
theorem isPaired_of_checkShape {namespaces : Option Namespaces} {s : Symbol}
    (h : checkShape namespaces s = .ok ()) : s.names.isPaired = namespaces.isNone := by
  rw [checkShape.eq_def] at h
  split at h
  · rename_i hnames
    rw [hnames]
    rfl
  · rename_i hnames
    rw [hnames]
    rfl
  · cases h

namespace MappedClass

variable {c : MappedClass} {s : Symbol}

theorem validateMember_eq_ok_iff :
    c.validateMember s = .ok () ↔ s.validate = .ok () ∧ s.tags.owner = some c.id := by
  rw [validateMember, Outcome.seq_eq_ok_iff, Outcome.within_eq_ok_iff]
  refine and_congr Iff.rfl ?_
  split
  · rename_i hnone
    rw [hnone]
    exact ⟨fun h => (nomatch h), fun h => (nomatch h)⟩
  · rename_i owner howner
    rw [howner, Option.some.injEq]
    by_cases hid : owner = c.id
    · rw [if_pos hid]
      exact ⟨fun _ => hid, fun _ => rfl⟩
    · rw [if_neg hid]
      exact ⟨fun h => (nomatch h), fun h => absurd h hid⟩

/-- **A class is valid** if its symbols are valid and have names fit for what they name, and its
members are owned by it. -/
theorem validate_eq_ok_iff :
    c.validate = .ok () ↔ c.info.validate = .ok () ∧ c.info.NamesFit Name.isClassName ∧
      (∀ s ∈ c.fields, s.NamesFit Name.isUnqualified) ∧
      (∀ s ∈ c.methods, s.NamesFit Name.isMethodName) ∧
      ∀ s ∈ c.members, s.validate = .ok () ∧ s.tags.owner = some c.id := by
  simp only [validate, Outcome.seq_eq_ok_iff, Outcome.forM_eq_ok_iff, Outcome.within_eq_ok_iff,
    Symbol.checkNames_eq_ok_iff, validateMember_eq_ok_iff]

end MappedClass

namespace GroupedMappings

variable {m : GroupedMappings} {c : MappedClass}

theorem validateClass_eq_ok_iff {position : Nat} :
    m.validateClass c position = .ok () ↔ c.id = ⟨position⟩ ∧
      (∀ s ∈ c.info :: c.members, checkShape m.namespaces s = .ok ()) ∧ c.validate = .ok () := by
  simp only [validateClass, Outcome.guard_eq_ok_iff, Outcome.seq_eq_ok_iff, Outcome.forM_eq_ok_iff]

theorem validatePackage_eq_ok_iff {p : Symbol} :
    m.validatePackage p = .ok () ↔ checkShape m.namespaces p = .ok () ∧ p.validate = .ok () ∧
      p.NamesFit Name.isClassName := by
  rw [validatePackage, Outcome.seq_eq_ok_iff, Outcome.within_eq_ok_iff, Outcome.seq_eq_ok_iff,
    Symbol.checkNames_eq_ok_iff]

/-- **A collection is valid** if its classes have the identities of their positions, its symbols are
valid and named in the way of the collection, and the unmapped names of classes do not repeat. -/
theorem validate_eq_ok_iff :
    m.validate = .ok () ↔
      (∀ e ∈ m.classes.zipIdx, e.1.id = ⟨e.2⟩ ∧
        (∀ s ∈ e.1.info :: e.1.members, checkShape m.namespaces s = .ok ()) ∧
        e.1.validate = .ok ()) ∧
      (∀ p ∈ m.packages, checkShape m.namespaces p = .ok () ∧ p.validate = .ok () ∧
        p.NamesFit Name.isClassName) ∧
      ∃ t, m.classesByUnmappedName = .ok t := by
  rw [validate, Outcome.seq_eq_ok_iff, Outcome.seq_eq_ok_iff, Outcome.forM_eq_ok_iff,
    Outcome.forM_eq_ok_iff, Outcome.bind_eq_ok_iff]
  simp only [validateClass_eq_ok_iff, validatePackage_eq_ok_iff]
  refine and_congr Iff.rfl (and_congr Iff.rfl ?_)
  exact ⟨fun ⟨t, ht, _⟩ => ⟨t, ht⟩, fun ⟨t, ht⟩ => ⟨t, ht, rfl⟩⟩

/-- The classes of a valid collection are valid, and named in the way of the collection. -/
theorem validate_of_mem (h : m.validate = .ok ()) (hc : c ∈ m.classes) :
    (∀ s ∈ c.info :: c.members, checkShape m.namespaces s = .ok ()) ∧ c.validate = .ok () := by
  obtain ⟨position, hposition, hget⟩ := List.mem_iff_getElem.1 hc
  have hmem : (c, position) ∈ m.classes.zipIdx := by
    rw [List.mem_zipIdx_iff_getElem?, ← hget]
    exact List.getElem?_eq_getElem hposition
  exact ((validate_eq_ok_iff.1 h).1 _ hmem).2

/-- Every symbol of a valid collection is named in the way of the collection, if those are that
stand in others. -/
theorem named_of_validate (h : m.validate = .ok ())
    (hlocals : ∀ s, m.Holds s → ∀ v, s.HoldsInside v → v.names.isPaired = m.isPaired) :
    ∀ v, m.Holds v → v.names.isPaired = m.isPaired := by
  have hnamed : ∀ s, m.Holds s → checkShape m.namespaces s = .ok () →
      ∀ v, s.Holds v → v.names.isPaired = m.isPaired := by
    intro s hs hshape v hv
    rcases Symbol.holds_iff.1 hv with rfl | hv
    · exact isPaired_of_checkShape hshape
    · exact hlocals s hs v hv
  refine forall_holds (fun c hc => ?_) (fun s hs => ?_) (fun p hp => ?_)
  · have hinfo := (validate_of_mem h hc).1 c.info List.mem_cons_self
    exact hnamed c.info (.inr (.inClass hc (.self _))) hinfo
  · obtain ⟨c, hc, hmem⟩ := hs
    have hmember := (validate_of_mem h hc).1 s (List.mem_cons_of_mem _ hmem)
    exact hnamed s (.inl ⟨c, hc, hmem⟩) hmember
  · exact hnamed p (.inr (.inPackage hp (.self p))) ((validate_eq_ok_iff.1 h).2.1 p hp).1

end GroupedMappings

namespace FlatMappings

variable {m : FlatMappings}

/-- **Flat mappings are valid** if their symbols are, have names fit for what they name, and the
unmapped names of each kind do not repeat. -/
theorem validate_eq_ok_iff :
    m.validate = .ok () ↔
      (∀ s ∈ m.classes ++ m.fields ++ m.methods,
        checkShape m.namespaces s = .ok () ∧ s.validate = .ok ()) ∧
      (∀ s ∈ m.classes, s.NamesFit Name.isClassName) ∧
      (∀ s ∈ m.fields, s.NamesFit Name.isUnqualified) ∧
      (∀ s ∈ m.methods, s.NamesFit Name.isMethodName) ∧
      (∃ t, m.classesByUnmappedName = .ok t) ∧ (∃ t, m.fieldsByUnmappedName = .ok t) ∧
      ∃ t, m.methodsByUnmappedName = .ok t := by
  rw [validate, Outcome.seq_eq_ok_iff, Outcome.seq_eq_ok_iff, Outcome.seq_eq_ok_iff,
    Outcome.seq_eq_ok_iff]
  simp only [Outcome.forM_eq_ok_iff, Outcome.seq_eq_ok_iff, Symbol.checkNames_eq_ok_iff]
  refine and_congr Iff.rfl (and_congr Iff.rfl (and_congr Iff.rfl (and_congr Iff.rfl ?_)))
  simp only [Outcome.bind_eq_ok_iff]
  constructor
  · rintro ⟨classes, hclasses, fields, hfields, methods, hmethods, -⟩
    exact ⟨⟨classes, hclasses⟩, ⟨fields, hfields⟩, ⟨methods, hmethods⟩⟩
  · rintro ⟨⟨classes, hclasses⟩, ⟨fields, hfields⟩, ⟨methods, hmethods⟩⟩
    exact ⟨classes, hclasses, fields, hfields, methods, hmethods, rfl⟩

end FlatMappings

end SymbolMap
