import Mathlib.Data.List.Nodup
import SymbolMap.Proofs.Mappings.Validity
import SymbolMap.Proofs.Renamer.MovedMembers
import SymbolMap.Proofs.Renamer.Readiness
import SymbolMap.Renamer.Building

/-!
# Building renamers of valid collections

A collection is checked before a renamer is built from it.  The check does not look at everything
the construction needs.  What is missing is said by `GroupedMappings.Coherent`; a collection that is
valid and coherent makes a renamer in either direction unless there are duplicates
(`ofCollection_of_coherent`).

A paired collection of this kind is ready as it is.  In a collection with namespaces the descriptors
are moved to the first one and the collection is projected to the first and the last; each of the
conditions keeps one of these steps from stopping, and what comes out is ready.
-/

namespace SymbolMap

/-! ## Namespaces by name -/

namespace Namespaces

variable {ns : Namespaces}

/-- A namespace is found by its name. -/
theorem find_of_name? {n : NamespaceId} {name : String} (h : ns.name? n = some name) :
    ns.find name = .ok n := by
  obtain ⟨hlt, hname⟩ := List.getElem?_eq_some_iff.1 h
  have hindex : ns.names.findIdx? (· == name) = some n.index := by
    rw [List.findIdx?_eq_some_iff_getElem]
    refine ⟨hlt, by simpa using hname, fun j hj => ?_⟩
    have hne : ns.names[j] ≠ ns.names[n.index] := by
      intro heq
      have := ns.nodup.getElem_inj_iff.1 heq
      omega
    simpa [hname] using hne
  rw [find, hindex]

theorem name?_first (ns : Namespaces) : ns.name? ⟨0⟩ = some ns.first := by
  rw [name?, first, ← List.head?_eq_getElem?, List.head?_eq_some_head]

theorem name?_last (ns : Namespaces) : ns.name? ⟨ns.size - 1⟩ = some ns.last := by
  rw [name?, last, size, ← List.getLast?_eq_getElem?, List.getLast?_eq_some_getLast]

end Namespaces

/-! ## Tables for moving descriptors -/

namespace GroupedMappings

/-- The tables for moving descriptors are made unless there are duplicates. -/
theorem onlyDuplicates_classNamesBetween {classes : List MappedClass}
    {source target : NamespaceId} : (classNamesBetween classes source target).OnlyDuplicates := by
  refine Outcome.onlyDuplicates_foldlM (fun entry hentry t => ?_) _
  obtain ⟨c, -, hc⟩ := List.mem_filterMap.1 hentry
  split at hc
  · obtain rfl := Option.some.inj hc
    exact Table.onlyDuplicates_addNew
  · cases hc

/-! ## Coherent collections -/

/-- What a valid collection must have besides, so that nothing but duplicates stops a renamer. -/
structure Coherent (m : GroupedMappings) : Prop where
  /-- Local variables are named in the way of the collection. -/
  locals : ∀ s, m.Holds s → ∀ v, s.HoldsInside v → v.names.isPaired = m.isPaired
  /-- A class name in a member's descriptor that begins like an array's is one. -/
  arrays : ∀ s, m.Declares s → ∀ desc ∈ s.tags.descriptors, ∀ x, Descriptor.Mentions desc x →
    Name.isArray x = true → Name.isClassName x = true
  /-- The descriptor of a member is written in one of the namespaces. -/
  inRange : ∀ ns, m.namespaces = some ns → ∀ s, m.Declares s →
    ∀ d ∈ s.tags.namespacedDescriptor, d.writtenIn.index < ns.size
  /-- Any other descriptor is written in the first namespace or in the last. -/
  aside : ∀ ns, m.namespaces = some ns → ∀ s, m.Aside s → ∀ d ∈ s.tags.namespacedDescriptor,
    ns.name? d.writtenIn = some ns.first ∨ ns.name? d.writtenIn = some ns.last
  /-- No class is called in the first namespace by a name with a `;`. -/
  delimited : ∀ ns, m.namespaces = some ns → ∀ c ∈ m.classes, ∀ x, c.unmappedName = .ok x →
    ';' ∉ x.toList

section

variable {m : GroupedMappings} {ns : Namespaces} (h : m.Coherent) (hvalid : m.validate = .ok ())

include h hvalid

/-- Every symbol of a valid and coherent collection is named in the way of the collection. -/
theorem Coherent.named : ∀ v, m.Holds v → v.names.isPaired = m.isPaired :=
  named_of_validate hvalid h.locals

/-- Every descriptor of a member of a valid and coherent collection can be translated. -/
theorem Coherent.translatable {s : Symbol} (hs : m.Declares s) {desc : String}
    (hdesc : desc ∈ s.tags.descriptors) : Descriptor.Translatable desc := by
  have hcheck : Descriptor.check desc = .ok () := by
    obtain ⟨c, hc, hs⟩ := hs
    obtain ⟨-, -, -, -, hmembers⟩ := MappedClass.validate_eq_ok_iff.1 (validate_of_mem hvalid hc).2
    exact (Symbol.validate_eq_ok_iff.1 (hmembers s hs).1).2.1 desc hdesc
  obtain ⟨names, hnames⟩ := Descriptor.check_eq_ok_iff.1 hcheck
  exact ⟨names, hnames, fun x hx => h.arrays s hs desc hdesc x ⟨names, hnames, hx⟩⟩

/-- A paired collection that is valid and coherent is ready. -/
theorem Coherent.ready (hpaired : m.isPaired = true) : m.Ready where
  paired := hpaired
  named s hs := (h.named hvalid s hs).trans hpaired
  translatable s hs desc hdesc := by
    refine h.translatable hvalid hs (Tags.mem_descriptors_iff.2 ?_)
    rcases hdesc with hdesc | hdesc
    · exact .inl hdesc
    · exact .inr (.inl hdesc)

variable (hns : m.namespaces = some ns)

include hns

/-- A name in the first namespace can stand in a descriptor. -/
theorem Coherent.fits_of_first {c : MappedClass} (hc : c ∈ m.classes) {y : String}
    (hy : c.info.names.get? ⟨0⟩ = some y) :
    (y.toList ≠ [] ∧ ';' ∉ y.toList) ∧ Name.isClassName y = true := by
  obtain ⟨-, hnames, -⟩ := MappedClass.validate_eq_ok_iff.1 (validate_of_mem hvalid hc).2
  cases hinfo : c.info.names with
  | paired unmapped mapped =>
    rw [hinfo] at hy
    cases hy
  | row r =>
    rw [hinfo] at hy
    have hslot : r.slots[0]? = some (some y) := Option.join_eq_some_iff.1 hy
    have hfirst : r.firstName = .ok y := by
      rw [NameRow.firstName]
      cases hslots : r.slots with
      | nil =>
        rw [hslots] at hslot
        cases hslot
      | cons slot slots =>
        rw [hslots] at hslot
        obtain rfl : slot = some y := Option.some.inj hslot
        rfl
    refine ⟨⟨fun hnil => ?_, h.delimited ns hns c hc y ?_⟩, hnames y ?_⟩
    · exact NameRow.ne_empty_of_get? hy (String.toList_eq_nil_iff.1 hnil)
    · rw [MappedClass.unmappedName, Symbol.unmappedName, hinfo]
      exact hfirst
    · rw [hinfo]
      exact List.mem_filterMap.2 ⟨some y, List.mem_of_getElem? hslot, rfl⟩

/-- A moved descriptor can be translated. -/
theorem Coherent.translatable_of_move {tables : List (Table String String)}
    (htables : (List.range ns.size).mapM (fun source => classNamesBetween m.classes ⟨source⟩ ⟨0⟩) =
      .ok tables) {s s' : Symbol} (hs : m.Declares s)
    (hmove : s.moveDescriptor ns ⟨0⟩ tables = .ok s') {desc : String}
    (hdesc : desc ∈ s'.tags.descriptors) : Descriptor.Translatable desc := by
  rcases Symbol.moveDescriptor_cases hmove with
    ⟨rfl, -⟩ | ⟨d, names, moved, hd, hnames, hmoved, rfl⟩
  · exact h.translatable hvalid hs hdesc
  · have hold : d.desc ∈ s.tags.descriptors := Tags.mem_descriptors_iff.2 (.inr (.inr ⟨d, hd, rfl⟩))
    obtain ⟨source, -, hsource⟩ := exists_left_of_forall₂ (Outcome.mapM_eq_ok_iff.1 htables)
      (List.mem_of_getElem? hnames)
    -- a new name is that of a class in the first namespace, any other name was there before
    have hfits : ∀ x, Descriptor.Mentions d.desc x →
        ((tabulatedName names x).toList ≠ [] ∧ ';' ∉ (tabulatedName names x).toList) ∧
          (Name.isArray (tabulatedName names x) = true →
            Name.isClassName (tabulatedName names x) = true) := by
      intro x hx
      rw [tabulatedName]
      cases hy : names.get? x with
      | none => exact ⟨Descriptor.delimited_of_mentions hx, h.arrays s hs d.desc hold x hx⟩
      | some y =>
        obtain ⟨c, hc, -, hget⟩ := (get?_of_classNamesBetween hsource).1 hy
        obtain ⟨hdelimited, hname⟩ := h.fits_of_first hvalid hns hc hget
        exact ⟨hdelimited, fun _ => hname⟩
    rcases Tags.mem_descriptors_iff.1 hdesc with hdesc | hdesc | ⟨d', hd', rfl⟩
    · exact h.translatable hvalid hs (Tags.mem_descriptors_iff.2 (.inl hdesc))
    · exact h.translatable hvalid hs (Tags.mem_descriptors_iff.2 (.inr (.inl hdesc)))
    · obtain rfl := Option.some.inj hd'
      obtain ⟨names', hnames', hnew⟩ := Descriptor.exists_classNames_of_renameClasses
        (fun x hx y hy => Except.ok.inj hy ▸ (hfits x hx).1) hmoved
      refine ⟨names', hnames', fun y hy => ?_⟩
      obtain ⟨x, hx, hxy⟩ := hnew y hy
      obtain rfl := Except.ok.inj hxy
      exact (hfits x hx).2

/-- Descriptors are moved to the first namespace unless there are duplicates. -/
theorem Coherent.onlyDuplicates_descriptorsIn : (m.descriptorsIn ns.first).OnlyDuplicates := by
  simp only [descriptorsIn, hns, Namespaces.find_of_name? ns.name?_first, Outcome.ok_bind]
  refine (Outcome.onlyDuplicates_mapM fun source _ => onlyDuplicates_classNamesBetween).bind
    fun tables htables => ?_
  have hlength : tables.length = ns.size := by
    rw [← (Outcome.mapM_eq_ok_iff.1 htables).length_eq, List.length_range]
  have hmembers : ∀ s, m.Declares s → ∀ d, s.tags.namespacedDescriptor = some d →
      d.writtenIn.index < ns.size ∧ Descriptor.check d.desc = .ok () := by
    intro s hs d hd
    have hdesc : d.desc ∈ s.tags.descriptors :=
      Tags.mem_descriptors_iff.2 (.inr (.inr ⟨d, hd, rfl⟩))
    obtain ⟨names, hnames, -⟩ := h.translatable hvalid hs hdesc
    exact ⟨h.inRange ns hns s hs d hd, Descriptor.check_eq_ok_iff.2 ⟨names, hnames⟩⟩
  have hmoved := exists_mapM_moveDescriptor ⟨0⟩ hlength hmembers
  exact (Outcome.onlyDuplicates_of_ok hmoved).bind fun _ _ => Outcome.onlyDuplicates_of_ok ⟨_, rfl⟩

/-- The projection from the first to the last namespace does not stop after the move. -/
theorem Coherent.exists_project {moved : GroupedMappings}
    (hmoved : m.descriptorsIn ns.first = .ok moved) :
    ∃ paired, moved.project ns.first ns.last = .ok paired := by
  obtain ⟨ns₀, target, tables, hns₀, hfirst, -, hns', -, hclasses⟩ := descriptorsIn_eq_ok hmoved
  obtain rfl : ns = ns₀ := Option.some.inj (hns.symm.trans hns₀)
  have hlast := ns.name?_last
  cases hproject : moved.project ns.first ns.last with
  | ok paired => exact ⟨paired, rfl⟩
  | error f =>
    obtain ⟨v, hv, hstops⟩ := exists_stops_of_project hns' hfirst (Namespaces.find_of_name? hlast)
      hproject
    rcases hstops with hpair | ⟨hd, hsource, htarget⟩
    · -- no symbol of the collection is a pair, and a move does not make one
      have hnamed : v.names.isPaired = m.isPaired := by
        rcases hv with hv | hv
        · obtain ⟨s, hs, made, id, hmove, rfl⟩ := exists_of_declares hclasses hv
          have hnames : (made.ownedBy id).names = s.names :=
            (Symbol.keeps_of_moveDescriptor hmove).1
          rw [hnames]
          exact h.named hvalid s (.inl hs)
        · exact h.named hvalid v (.inr ((aside_iff_of_descriptorsIn hmoved).1 hv))
      rw [hpair, isPaired, hns] at hnamed
      cases hnamed
    · -- descriptors are written in the first namespace, those that stand aside also in the last
      rcases hv with hv | hv
      · exact absurd (writtenIn_of_declares hclasses hv _ hd) hsource
      · rcases h.aside ns hns v ((aside_iff_of_descriptorsIn hmoved).1 hv) _ hd with hname | hname
        · exact absurd (Outcome.eq_of_eq_ok (Namespaces.find_of_name? hname) hfirst) hsource
        · have hfind := Namespaces.find_of_name? hname
          exact absurd (Outcome.eq_of_eq_ok hfind (Namespaces.find_of_name? hlast)) htarget

/-- The projected collection is ready. -/
theorem Coherent.ready_of_project {moved paired : GroupedMappings}
    (hmoved : m.descriptorsIn ns.first = .ok moved)
    (hpaired : moved.project ns.first ns.last = .ok paired) : paired.Ready := by
  obtain ⟨ns₀, target, tables, hns₀, hfirst, htables, -, -, hclasses⟩ := descriptorsIn_eq_ok hmoved
  obtain rfl : ns = ns₀ := Option.some.inj (hns.symm.trans hns₀)
  obtain rfl : target = ⟨0⟩ :=
    Outcome.eq_of_eq_ok hfirst (Namespaces.find_of_name? ns.name?_first)
  obtain ⟨-, source, last, -, -, -, hnone, hinfos, hmembers, hpackages⟩ := project_eq_ok hpaired
  refine ⟨hnone, forall_holds ?_ ?_ ?_, ?_⟩
  · intro c' hc' v hv
    obtain ⟨c, -, hproject⟩ := hinfos c' hc'
    exact Symbol.isPaired_of_project hproject hv
  · intro s' hs'
    obtain ⟨s, made, id, -, hproject, rfl⟩ := hmembers s' hs'
    have hall : made.AllPaired := fun v => Symbol.isPaired_of_project hproject
    exact hall.ownedBy id
  · intro p' hp' v hv
    obtain ⟨p, -, hproject⟩ := hpackages p' hp'
    exact Symbol.isPaired_of_project hproject hv
  · intro s' hs' desc hdesc
    obtain ⟨s, made, id, hs, hproject, rfl⟩ := hmembers s' hs'
    obtain ⟨s₀, hs₀, made₀, id₀, hmove, rfl⟩ := exists_of_declares hclasses hs
    have hmem : desc ∈ made.tags.descriptors :=
      Tags.mem_descriptors_iff.2 (or_assoc.1 (.inl hdesc))
    have hmem₀ : desc ∈ made₀.tags.descriptors :=
      Tags.mem_descriptors_of_project (Symbol.project_eq_some hproject).2.1 hmem
    exact h.translatable_of_move hvalid hns htables hs₀ hmove hmem₀

end

end GroupedMappings

/-! ## Renamers -/

namespace Renamer

variable {m : GroupedMappings}

/-- The paired collection of a valid and coherent one is made unless there are duplicates, and is
ready. -/
theorem onlyDuplicates_pairedFrom (hvalid : m.validate = .ok ()) (h : m.Coherent) :
    (pairedFrom m).OnlyDuplicates ∧ ∀ paired, pairedFrom m = .ok paired → paired.Ready := by
  rw [pairedFrom]
  split
  · rename_i hnone
    refine ⟨Outcome.onlyDuplicates_of_ok ⟨m, rfl⟩, fun paired hpaired => ?_⟩
    obtain rfl := Except.ok.inj hpaired
    exact h.ready hvalid (by rw [GroupedMappings.isPaired, hnone]; rfl)
  · rename_i ns hns
    constructor
    · refine (h.onlyDuplicates_descriptorsIn hvalid hns).bind fun moved hmoved => ?_
      exact Outcome.onlyDuplicates_of_ok (h.exists_project hvalid hns hmoved)
    · intro paired hpaired
      obtain ⟨moved, hmoved, hproject⟩ := Outcome.bind_eq_ok_iff.1 hpaired
      exact h.ready_of_project hvalid hns hmoved hproject

/-- **What is valid and coherent can be built.**  From a valid and coherent collection a renamer is
built in either direction, or there is a duplicate. -/
theorem ofCollection_of_coherent (hvalid : m.validate = .ok ()) (h : m.Coherent) (d : Direction)
    (a : Option Ancestry) :
    (∃ r, ofCollection (.grouped m) d a = .ok r) ∨
      ∃ f, ofCollection (.grouped m) d a = .error f ∧ f.kind = .duplicate := by
  obtain ⟨hfrom, hready⟩ := onlyDuplicates_pairedFrom hvalid h
  apply Outcome.OnlyDuplicates.ok_or
  simp only [ofCollection, hvalid, Outcome.within_ok, Outcome.ok_bind]
  refine hfrom.bind fun paired hpaired => ?_
  have hpairedReady := hready paired hpaired
  have hdirected : (directed paired d).OnlyDuplicates ∧
      ∀ m', directed paired d = .ok m' → m'.Ready := by
    cases d with
    | toMapped =>
      refine ⟨Outcome.onlyDuplicates_of_ok ⟨paired, rfl⟩, fun m' hm' => ?_⟩
      obtain rfl := Except.ok.inj hm'
      exact hpairedReady
    | toUnmapped =>
      exact ⟨Outcome.onlyDuplicates_of_ok hpairedReady.exists_reverse,
        fun m' hm' => hpairedReady.reverse hm'⟩
  refine hdirected.1.bind fun m' hm' => ?_
  refine (hdirected.2 m' hm').onlyDuplicates_renamer.bind fun r _ => ?_
  exact Outcome.onlyDuplicates_of_ok ⟨_, rfl⟩

/-! ### Valid collections that are coherent, and that are not -/

/-- Two namespaces. -/
def twoNamespaces : Namespaces where
  names := ["x", "y"]
  two_le := by decide
  nonempty := by decide
  nodup := by decide

/-- A class with a method whose descriptor is written in the second namespace. -/
def coherentMappings : GroupedMappings :=
  .ofParts (some twoNamespaces)
    [(MappedClass.ofInfo (.ofNames (.row (.ofNames ["A", "a"])))).addMethod
      (((Symbol.ofNames (.row (.ofNames ["m", "n"]))).set
        (.namespacedDescriptor ⟨⟨1⟩, "(La;)V"⟩)).set
        (.locals [(1, .ofNames (.row (.ofNames ["p", "q"])))]))] []

/-- The collection makes renamers in both directions. -/
theorem coherentMappings_builds : coherentMappings.validate = .ok () ∧ coherentMappings.Coherent ∧
    ∀ d a, (∃ r, ofCollection (.grouped coherentMappings) d a = .ok r) ∨
      ∃ f, ofCollection (.grouped coherentMappings) d a = .error f ∧ f.kind = .duplicate := by
  have hvalid : coherentMappings.validate = .ok () := by decide +kernel
  have hmember : ∀ s, coherentMappings.Declares s →
      s.tags.namespacedDescriptor = some ⟨⟨1⟩, "(La;)V"⟩ ∧ s.tags.descriptors = ["(La;)V"] ∧
      s.locals = some [(1, .ofNames (.row (.ofNames ["p", "q"])))] := by
    rintro s ⟨c, hc, hs⟩
    obtain rfl := List.mem_singleton.1 hc
    obtain rfl := List.mem_singleton.1 hs
    exact ⟨rfl, rfl, rfl⟩
  have haside : ∀ s, coherentMappings.Aside s → s.names.isPaired = false ∧
      s.tags.namespacedDescriptor = none ∧ s.locals = none := by
    rintro s (⟨hc, h⟩ | ⟨hs, table, htable, e, he, h⟩ | ⟨hp, -⟩)
    · obtain rfl := List.mem_singleton.1 hc
      obtain rfl := Symbol.eq_of_holds rfl h
      exact ⟨rfl, rfl, rfl⟩
    · obtain rfl := Option.some.inj ((hmember _ hs).2.2.symm.trans htable)
      obtain rfl := List.mem_singleton.1 he
      obtain rfl := Symbol.eq_of_holds rfl h
      exact ⟨rfl, rfl, rfl⟩
    · cases hp
  have hcoherent : coherentMappings.Coherent := by
    refine ⟨?_, ?_, ?_, ?_, ?_⟩
    · rintro s (hs | hs) v hv
      · exact (haside v (.inMember hs hv)).1
      · obtain ⟨table, htable, -⟩ := hv
        exact absurd ((haside s hs).2.2.symm.trans htable) (by simp)
    · intro s hs desc hdesc x hx harray
      rw [(hmember s hs).2.1, List.mem_singleton] at hdesc
      subst hdesc
      have hnames : Descriptor.classNames "(La;)V" = .ok ["a"] := by decide +kernel
      obtain ⟨names, hnames', hmem⟩ := hx
      obtain rfl := Except.ok.inj (hnames.symm.trans hnames')
      obtain rfl := List.mem_singleton.1 hmem
      exact absurd harray (by decide)
    · intro ns hns s hs d hd
      obtain rfl := Option.some.inj hns
      obtain rfl := Option.some.inj ((hmember s hs).1.symm.trans hd)
      decide
    · intro ns hns s hs d hd
      exact absurd ((haside s hs).2.1.symm.trans hd) (by simp)
    · intro ns hns c hc x hx
      obtain rfl := List.mem_singleton.1 hc
      obtain rfl := Except.ok.inj hx
      decide
  exact ⟨hvalid, hcoherent, fun d a => ofCollection_of_coherent hvalid hcoherent d a⟩

/-- Five collections, each without one of the conditions for a coherent one. -/
def incoherentMappings : List GroupedMappings :=
  [ -- a local variable named by a row among pairs
    .ofParts none
      [(MappedClass.ofInfo (.ofNames (.paired "a" "b"))).addMethod
        ((Symbol.ofNames (.paired "m" "n")).set
          (.locals [(0, .ofNames (.row (.ofNames ["x", "y"])))]))] [],
    -- a class name that begins like an array's
    .ofParts none
      [(MappedClass.ofInfo (.ofNames (.paired "a" "b"))).addField
        ((Symbol.ofNames (.paired "f" "g")).set (.unmappedDescriptor "L[X;"))] [],
    -- a descriptor in a namespace that is not there
    .ofParts (some twoNamespaces)
      [(MappedClass.ofInfo (.ofNames (.row (.ofNames ["a", "b"])))).addField
        ((Symbol.ofNames (.row (.ofNames ["f", "g"]))).set
          (.namespacedDescriptor ⟨⟨7⟩, "I"⟩))] [],
    -- the descriptor of a class in a third namespace
    .ofParts (some GroupedMappings.threeNamespaces)
      [.ofInfo ((Symbol.ofNames (.row (.ofNames ["a", "b", "c"]))).set
        (.namespacedDescriptor ⟨⟨1⟩, "I"⟩))] [],
    -- the name of an array of classes, which does not fit into a descriptor
    .ofParts (some twoNamespaces)
      [(MappedClass.ofInfo (.ofNames (.row (.ofNames ["[La;", "b"])))).addField
        ((Symbol.ofNames (.row (.ofNames ["f", "g"]))).set
          (.namespacedDescriptor ⟨⟨1⟩, "Lb;"⟩))] []]

/-- Each of the five is valid and malformed for a renamer in either direction. -/
theorem incoherentMappings_fail : incoherentMappings.Forall fun m => m.validate = .ok () ∧
    ∀ d, ∃ f, ofCollection (.grouped m) d none = .error f ∧ f.kind = .malformed := by
  have hvalid : ∀ m ∈ incoherentMappings, m.validate = .ok () := by decide +kernel
  have hkinds : ∀ m ∈ incoherentMappings, ∀ d ∈ [Direction.toMapped, .toUnmapped],
      (ofCollection (.grouped m) d none).failureKind? = some .malformed := by decide +kernel
  refine List.forall_iff_forall_mem.2 fun m hm => ⟨hvalid m hm, fun d => ?_⟩
  exact Outcome.exists_error_of_failureKind? (hkinds m hm d (by cases d <;> decide))

end Renamer

end SymbolMap
