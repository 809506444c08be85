import SymbolMap.Mappings.Reversal
import SymbolMap.Proofs.Descriptor.RoundTrip
import SymbolMap.Proofs.Mappings.Parts
import SymbolMap.Proofs.Renamer.MemberTables

/-!
# What a reversed collection says

The reversed collection has the classes and packages of the collection in the same order, and each
class has the reversed members in the same order (`isReverse_of_reverse`).  Its class renames are
those of the collection with the directions exchanged (`ofMappings_reverse`), so what it renames is
renamed by the collection in the other direction (`className_flip`, `descriptor_flip`).

A member of a collection **links** a name and a descriptor on the unmapped side to a name and a
descriptor on the mapped side (`Symbol.Links`).  The reversed member links them the other way round,
also where only one of the descriptors is given and the other one has to be found.
-/

namespace SymbolMap

/-! ## The reversed collection -/

/-- The second symbol has the names and the descriptors of the first on the other side. -/
structure Symbol.IsReverse (s s' : Symbol) : Prop where
  named : ∀ pair, s.IsNamed pair ↔ s'.IsNamed pair.swap
  unmapped : s'.tags.unmappedDescriptor = s.tags.mappedDescriptor
  mapped : s'.tags.mappedDescriptor = s.tags.unmappedDescriptor

/-- The symbols of the second class are those of the first, reversed. -/
structure MappedClass.IsReverse (c c' : MappedClass) : Prop where
  info : c.info.IsReverse c'.info
  members : ∀ kind, List.Forall₂ Symbol.IsReverse (c.membersOf kind) (c'.membersOf kind)

theorem Symbol.IsReverse.symm {s s' : Symbol} (h : s.IsReverse s') : s'.IsReverse s where
  named pair := by rw [h.named, Prod.swap_swap]
  unmapped := h.mapped.symm
  mapped := h.unmapped.symm

theorem MappedClass.IsReverse.symm {c c' : MappedClass} (h : c.IsReverse c') : c'.IsReverse c where
  info := h.info.symm
  members kind := List.Forall₂.flip ((h.members kind).imp fun _ _ hs => hs.symm)

theorem Symbol.isReverse_of_reverse {s s' : Symbol} (h : s.reverse = .ok s') :
    s.IsReverse s' := by
  obtain ⟨names, tags, locals⟩ := s
  -- local variables have no part in this
  obtain ⟨names', locals', hnames, rfl⟩ :
      ∃ names' locals', names.reverse = .ok names' ∧ s' = mk names' tags.reverse locals' := by
    cases locals with
    | none =>
      rw [reverse, Outcome.bind_eq_ok_iff] at h
      obtain ⟨names', hnames, h⟩ := h
      exact ⟨names', none, hnames, (Except.ok.inj h).symm⟩
    | some table =>
      rw [reverse, Outcome.bind_eq_ok_iff] at h
      obtain ⟨names', hnames, h⟩ := h
      obtain ⟨table', -, h⟩ := Outcome.bind_eq_ok_iff.1 h
      exact ⟨names', some table', hnames, (Except.ok.inj h).symm⟩
  refine ⟨fun pair => ?_, rfl, rfl⟩
  cases names with
  | paired unmapped mapped =>
    cases hnames
    exact and_comm
  | row r => cases hnames

/-- Reversal gives a paired collection in which every symbol is reversed. -/
theorem GroupedMappings.reverse_eq_ok {m m' : GroupedMappings} (h : m.reverse = .ok m') :
    m.isPaired = true ∧ m'.isPaired = true ∧
      List.Forall₂ (MappedClass.Becomes Symbol.reverse Symbol.reverse Symbol.reverse)
        m.classes m'.classes ∧
      List.Forall₂ (fun s s' => s.reverse = .ok s') m.packages m'.packages := by
  rw [reverse] at h
  by_cases hpaired : m.isPaired = true
  · simp only [hpaired, if_true] at h
    obtain ⟨classes, hclasses, h⟩ := Outcome.bind_eq_ok_iff.1 h
    obtain ⟨packages, hpackages, h⟩ := Outcome.bind_eq_ok_iff.1 h
    obtain rfl := Except.ok.inj h
    obtain ⟨hnamespaces, -, hsame⟩ := ofParts_spec none classes packages
    refine ⟨hpaired, by rw [isPaired, hnamespaces]; rfl, forall₂_becomes hclasses, ?_⟩
    rw [hsame]
    exact Outcome.mapM_eq_ok_iff.1 hpackages
  · rw [if_neg hpaired] at h
    cases h

/-- Marking a symbol with an owner changes neither its names nor its descriptors. -/
theorem Symbol.isReverse_of_becomes {s s' : Symbol} (h : s.Becomes Symbol.reverse s') :
    s.IsReverse s' := by
  obtain ⟨made, id, hreverse, rfl⟩ := h
  obtain ⟨hnamed, hunmapped, hmapped⟩ := isReverse_of_reverse hreverse
  exact ⟨hnamed, hunmapped, hmapped⟩

theorem MappedClass.isReverse_of_becomes {c c' : MappedClass}
    (h : c.Becomes Symbol.reverse Symbol.reverse Symbol.reverse c') : c.IsReverse c' where
  info := Symbol.isReverse_of_reverse h.info
  members kind :=
    (h.membersOf (fun _ => Symbol.reverse) kind).imp fun _ _ => Symbol.isReverse_of_becomes

/-- **The reversed collection has the reversed classes and packages, in order.** -/
theorem GroupedMappings.isReverse_of_reverse {m m' : GroupedMappings} (h : m.reverse = .ok m') :
    m'.isPaired = true ∧ List.Forall₂ MappedClass.IsReverse m.classes m'.classes ∧
      List.Forall₂ Symbol.IsReverse m.packages m'.packages := by
  obtain ⟨-, hpaired, hclasses, hpackages⟩ := reverse_eq_ok h
  exact ⟨hpaired, hclasses.imp fun _ _ => MappedClass.isReverse_of_becomes,
    hpackages.imp fun _ _ => Symbol.isReverse_of_reverse⟩

/-! ## Its class renames -/

namespace ClassRenames

variable {t : ClassRenames}

/-- The class renames of a collection with reversed classes and packages are exchanged. -/
theorem ofMappings_of_isReverse {m m' : GroupedMappings} (ht : ofMappings m = .ok t)
    (hpaired : m'.isPaired = true)
    (hclasses : List.Forall₂ MappedClass.IsReverse m.classes m'.classes)
    (hpackages : List.Forall₂ Symbol.IsReverse m.packages m'.packages) :
    ofMappings m' = .ok t.flip := by
  obtain ⟨-, htables, hpackageTables⟩ := ofMappings_eq_ok_iff.1 ht
  refine ofMappings_eq_ok_iff.2 ⟨hpaired, pairTables_swap htables ?_,
    pairTables_swap hpackageTables ?_⟩
  · rw [List.forall₂_map_left_iff, List.forall₂_map_right_iff]
    exact hclasses.imp fun c c' hc pair => (hc.info.named pair).1
  · exact hpackages.imp fun s s' hs pair => (hs.named pair).1

/-- The class renames of the reversed collection are those of the collection, exchanged. -/
theorem ofMappings_reverse {m m' : GroupedMappings} (ht : ofMappings m = .ok t)
    (hreverse : m.reverse = .ok m') : ofMappings m' = .ok t.flip := by
  obtain ⟨hpaired, hclasses, hpackages⟩ := GroupedMappings.isReverse_of_reverse hreverse
  exact ofMappings_of_isReverse ht hpaired hclasses hpackages

theorem className_of_flip {d : Direction} {x y : String} (h : t.flip.className d x = .ok y) :
    t.className d.flip x = .ok y := by
  by_cases harray : Name.isArray x = true
  · rw [className_of_array _ _ harray, fieldDescriptor, Outcome.within_eq_ok_iff,
      Outcome.bind_eq_ok_iff] at h
    obtain ⟨type, htype, h⟩ := h
    obtain ⟨type', hrename, h⟩ := Outcome.bind_eq_ok_iff.1 h
    have hparse := Outcome.ofReading_eq_ok_iff.1 htype
    rw [className_of_array _ _ harray, fieldDescriptor, Outcome.within_eq_ok_iff,
      Outcome.bind_eq_ok_iff]
    refine ⟨type, htype, Outcome.bind_eq_ok_iff.2 ⟨type', ?_, h⟩⟩
    refine FieldType.renameClass_mono (fun inner hinner renamed hrenamed => ?_) hrename
    -- the class inside an array is named by a shorter text
    have hlt : inner.toList.length < x.toList.length := by
      have := FieldType.length_className_lt hinner
      rwa [(FieldType.parse_eq_ok_iff.1 hparse).2] at this
    exact className_of_flip hrenamed
  · have harray : Name.isArray x = false := by simpa using harray
    rw [className_of_not_array _ _ harray, lookup_flip] at h
    rw [className_of_not_array _ _ harray, h]
termination_by x.toList.length

/-- The flipped renames rename a class as the renames do in the other direction. -/
theorem className_flip {d : Direction} {x y : String} :
    t.flip.className d x = .ok y ↔ t.className d.flip x = .ok y := by
  refine ⟨className_of_flip, fun h => ?_⟩
  have hflip : t.flip.flip.className d.flip x = .ok y := h
  simpa using className_of_flip hflip

/-- The flipped renames rename a descriptor as the renames do in the other direction. -/
theorem descriptor_flip {d : Direction} {desc desc' : String} :
    t.flip.descriptor d desc = .ok desc' ↔ t.descriptor d.flip desc = .ok desc' := by
  rw [descriptor, descriptor, Outcome.within_eq_ok_iff, Outcome.within_eq_ok_iff]
  constructor
  · exact Descriptor.renameClasses_mono fun x y => className_flip.1
  · exact Descriptor.renameClasses_mono fun x y => className_flip.2

end ClassRenames

/-! ## Its members -/

/-- The member stands for a name and a descriptor on the unmapped side, and for a name and a
descriptor on the mapped side. -/
structure Symbol.Links (classes : ClassRenames) (s : Symbol) (name : String)
    (desc : Option String) (target : MemberTarget) : Prop where
  unmapped : s.unmappedName = .ok name
  mapped : s.mappedName = .ok target.name
  descriptors : memberDescriptors classes s.tags = .ok (desc, target.desc)

/-- The reversed member has the descriptors the other way round. -/
theorem memberDescriptors_reverse {classes : ClassRenames} {s s' : Symbol}
    {unmapped mapped : Option String} (hs : s.IsReverse s')
    (h : memberDescriptors classes s.tags = .ok (unmapped, mapped)) :
    memberDescriptors classes.flip s'.tags = .ok (mapped, unmapped) := by
  rw [memberDescriptors] at h ⊢
  rw [hs.unmapped, hs.mapped]
  cases hu : s.tags.unmappedDescriptor with
  | none =>
    cases hm : s.tags.mappedDescriptor with
    | none =>
      rw [hu, hm] at h
      cases h
      rfl
    | some m =>
      rw [hu, hm] at h
      obtain ⟨u, hdesc, h⟩ := Outcome.bind_eq_ok_iff.1 h
      cases h
      exact Outcome.bind_eq_ok_iff.2 ⟨u, ClassRenames.descriptor_flip.2 hdesc, rfl⟩
  | some u =>
    cases hm : s.tags.mappedDescriptor with
    | none =>
      rw [hu, hm] at h
      obtain ⟨m, hdesc, h⟩ := Outcome.bind_eq_ok_iff.1 h
      cases h
      exact Outcome.bind_eq_ok_iff.2 ⟨m, ClassRenames.descriptor_flip.2 hdesc, rfl⟩
    | some m =>
      rw [hu, hm] at h
      cases h
      rfl

/-- The reversed member links the other way round. -/
theorem Symbol.Links.reverse {classes : ClassRenames} {s s' : Symbol} {name name' : String}
    {desc desc' : Option String} (h : s.Links classes name desc ⟨name', desc'⟩)
    (hs : s.IsReverse s') : s'.Links classes.flip name' desc' ⟨name, desc⟩ := by
  obtain ⟨hunmapped, hmapped⟩ := (hs.named (name, name')).1 ⟨h.unmapped, h.mapped⟩
  exact ⟨hunmapped, hmapped, memberDescriptors_reverse hs h.descriptors⟩

/-- The symbol is a member of a kind in the collection. -/
def GroupedMappings.HasMember (m : GroupedMappings) (kind : MemberKind) (s : Symbol) : Prop :=
  ∃ c ∈ m.classes, s ∈ c.membersOf kind

/-- A class with the two names has a member of the kind that links a name and a descriptor to a
target. -/
def GroupedMappings.HasRow (m : GroupedMappings) (classes : ClassRenames) (kind : MemberKind)
    (owner owner' name : String) (desc : Option String) (target : MemberTarget) : Prop :=
  ∃ c ∈ m.classes, c.info.IsNamed (owner, owner') ∧
    ∃ s ∈ c.membersOf kind, s.Links classes name desc target

theorem GroupedMappings.HasRow.turn {m m' : GroupedMappings} {classes : ClassRenames}
    {kind : MemberKind} {owner owner' name name' : String} {desc desc' : Option String}
    (hreverse : List.Forall₂ MappedClass.IsReverse m.classes m'.classes)
    (h : m.HasRow classes kind owner owner' name desc ⟨name', desc'⟩) :
    m'.HasRow classes.flip kind owner' owner name' desc' ⟨name, desc⟩ := by
  obtain ⟨c, hc, hnamed, s, hs, hlinks⟩ := h
  obtain ⟨c', hc', hturned⟩ := exists_right_of_forall₂ hreverse hc
  obtain ⟨s', hs', hsturned⟩ := exists_right_of_forall₂ (hturned.members kind) hs
  exact ⟨c', hc', (hturned.info.named _).1 hnamed, s', hs', hlinks.reverse hsturned⟩

/-- **The rows of the reversed collection are the rows of the collection, turned round.** -/
theorem GroupedMappings.hasRow_reverse_iff {m m' : GroupedMappings} {classes : ClassRenames}
    {kind : MemberKind} {owner owner' name name' : String} {desc desc' : Option String}
    (hreverse : m.reverse = .ok m') :
    m'.HasRow classes.flip kind owner' owner name' desc' ⟨name, desc⟩ ↔
      m.HasRow classes kind owner owner' name desc ⟨name', desc'⟩ := by
  obtain ⟨-, hclasses, -⟩ := isReverse_of_reverse hreverse
  constructor
  · intro h
    exact h.turn (List.Forall₂.flip (hclasses.imp fun _ _ hc => hc.symm))
  · intro h
    exact h.turn hclasses

/-! ## Rows and look-ups -/

namespace Renamer

variable {r : Renamer} {m : GroupedMappings} {kind : MemberKind} {owner name : String}
  {desc : Option String}

/-- The classes of a collection that class renames are made of have two names. -/
theorem exists_isNamed_of_mem {classes : ClassRenames}
    (hclasses : ClassRenames.ofMappings m = .ok classes) {c : MappedClass} (hc : c ∈ m.classes) :
    ∃ pair, c.info.IsNamed pair ∧ pair ∈ classes.toMapped.classes.entries ∧
      pair.swap ∈ classes.toUnmapped.classes.entries := by
  obtain ⟨-, htables, -⟩ := ClassRenames.ofMappings_eq_ok_iff.1 hclasses
  obtain ⟨pairs, hpairs, hentries, hback⟩ := pairTables_eq_ok_iff.1 htables
  rw [List.forall₂_map_left_iff] at hpairs
  obtain ⟨pair, hpair, hnamed⟩ := exists_right_of_forall₂ hpairs hc
  exact ⟨pair, hnamed, hentries ▸ hpair, hback ▸ List.mem_map_of_mem hpair⟩

/-- An entry is found exactly where there is a row. -/
theorem Represents.exists_entryAt_iff (h : r.Represents m) {target : MemberTarget} :
    (∃ entry, r.entryAt kind owner name desc = some entry ∧ entry.target = target) ↔
      ∃ owner', m.HasRow r.classes kind owner owner' name desc target := by
  constructor
  · rintro ⟨entry, hentry, rfl⟩
    obtain ⟨c, hc, howner, s, hs, henters⟩ := (h.entryAt_iff ..).1 hentry
    obtain ⟨⟨owner₀, owner'⟩, hnamed, -⟩ := exists_isNamed_of_mem h.classes hc
    obtain rfl : owner₀ = owner := Outcome.eq_of_eq_ok hnamed.1 howner
    exact ⟨owner', c, hc, hnamed, s, hs, henters.name, henters.mapped, henters.descriptors⟩
  · rintro ⟨owner', c, hc, hnamed, s, hs, hlinks⟩
    obtain ⟨name₀, desc₀, entry, henters⟩ := h.enters c hc kind s hs
    -- the row of a member is determined by the member
    obtain rfl : name₀ = name := Outcome.eq_of_eq_ok henters.name hlinks.unmapped
    have hdescs := Outcome.eq_of_eq_ok henters.descriptors hlinks.descriptors
    obtain ⟨rfl, htarget⟩ := Prod.mk.inj hdescs
    have hname := Outcome.eq_of_eq_ok henters.mapped hlinks.mapped
    refine ⟨entry, (h.entryAt_iff ..).2 ⟨c, hc, hnamed.1, s, hs, henters⟩, ?_⟩
    cases ht : entry.target
    cases target
    simp_all

/-- The names of a class in a row are a class rename. -/
theorem Represents.get?_of_row (h : r.Represents m) {owner' : String} {target : MemberTarget}
    (hrow : m.HasRow r.classes kind owner owner' name desc target) :
    r.classes.toMapped.classes.get? owner = some owner' ∧
      r.classes.toUnmapped.classes.get? owner' = some owner := by
  obtain ⟨c, hc, hnamed, -⟩ := hrow
  obtain ⟨pair, hpair, hmem, hmem'⟩ := exists_isNamed_of_mem h.classes hc
  obtain rfl := hpair.unique hnamed
  exact ⟨Table.get?_eq_some_iff.2 hmem, Table.get?_eq_some_iff.2 hmem'⟩

/-- The member of a representing renamer has two names. -/
theorem Represents.exists_isNamed (h : r.Represents m) {s : Symbol} (hs : m.HasMember kind s) :
    ∃ pair, s.IsNamed pair := by
  obtain ⟨c, hc, hs⟩ := hs
  obtain ⟨name, desc, entry, henters⟩ := h.enters c hc kind s hs
  exact ⟨(name, entry.target.name), henters.name, henters.mapped⟩

/-! ## Opposite renamers -/

/-- The renamers are those of a collection and of the reversed collection. -/
structure Opposite (r r' : Renamer) (m : GroupedMappings) : Prop where
  forth : r.Represents m
  back : ∃ reversed, m.reverse = .ok reversed ∧ r'.Represents reversed

variable {r' : Renamer}

theorem Opposite.classes_eq (h : r.Opposite r' m) : r'.classes = r.classes.flip := by
  obtain ⟨reversed, hreverse, hback⟩ := h.back
  have hflip := ClassRenames.ofMappings_reverse h.forth.classes hreverse
  exact Outcome.eq_of_eq_ok hback.classes hflip

/-- The opposite renamer finds an entry exactly where there is a row for its target. -/
theorem Opposite.exists_entryAt_iff (h : r.Opposite r' m) {owner' name' : String}
    {desc' : Option String} :
    (∃ entry, r'.entryAt kind owner' name' desc' = some entry ∧ entry.target = ⟨name, desc⟩) ↔
      ∃ owner, m.HasRow r.classes kind owner owner' name desc ⟨name', desc'⟩ := by
  obtain ⟨reversed, hreverse, hback⟩ := h.back
  rw [hback.exists_entryAt_iff, h.classes_eq]
  simp only [GroupedMappings.hasRow_reverse_iff hreverse]

/-- The opposite renamer has the mapped names of all members. -/
theorem Opposite.mem_mappedNames_iff (h : r.Opposite r' m) {name' : String} :
    name' ∈ r'.mappedNames kind ↔ ∃ s, m.HasMember kind s ∧ s.mappedName = .ok name' := by
  obtain ⟨reversed, hreverse, hback⟩ := h.back
  obtain ⟨-, hclasses, -⟩ := GroupedMappings.isReverse_of_reverse hreverse
  rw [hback.mem_mappedNames_iff]
  constructor
  · rintro ⟨c', hc', s', hs', hname⟩
    obtain ⟨c, hc, hturned⟩ := exists_left_of_forall₂ hclasses hc'
    obtain ⟨s, hs, hsturned⟩ := exists_left_of_forall₂ (hturned.members kind) hs'
    obtain ⟨pair, hpair⟩ := h.forth.exists_isNamed ⟨c, hc, hs⟩
    have hpair' := (hsturned.named pair).1 hpair
    refine ⟨s, ⟨c, hc, hs⟩, ?_⟩
    rw [hpair.2, ← Outcome.eq_of_eq_ok hpair'.1 hname]
    rfl
  · rintro ⟨s, ⟨c, hc, hs⟩, hname⟩
    obtain ⟨c', hc', hturned⟩ := exists_right_of_forall₂ hclasses hc
    obtain ⟨s', hs', hsturned⟩ := exists_right_of_forall₂ (hturned.members kind) hs
    obtain ⟨pair, hpair⟩ := h.forth.exists_isNamed ⟨c, hc, hs⟩
    have hpair' := (hsturned.named pair).1 hpair
    refine ⟨c', hc', s', hs', ?_⟩
    rw [hpair'.1, ← Outcome.eq_of_eq_ok hpair.2 hname]
    rfl

end Renamer

end SymbolMap
