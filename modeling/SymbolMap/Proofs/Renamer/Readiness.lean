import SymbolMap.Proofs.Renamer.Reversal
import SymbolMap.Proofs.Renamer.Translation

/-!
# Collections that are ready

A paired collection is **ready** for a renamer if every symbol in it, at any depth, is named by a
pair, and the descriptors of its members can be translated (`GroupedMappings.Ready`).  Then nothing
but a duplicate can stop the renamer from being built (`Ready.onlyDuplicates_renamer`), and since a
ready collection can be reversed to a ready one (`Ready.exists_reverse`, `Ready.reverse`), the same
goes for the renamer in the other direction.

`Outcome.OnlyDuplicates` is what is carried through the construction: a sequence, a run through a
list and a fold fail with a duplicate if their parts do.
-/

namespace SymbolMap

/-! ## Success or a duplicate -/

namespace Outcome

variable {α β : Type}

/-- If the outcome is a failure, it is that of a duplicate. -/
def OnlyDuplicates (r : Outcome α) : Prop :=
  ∀ f, r = .error f → f.kind = .duplicate

theorem onlyDuplicates_of_ok {r : Outcome α} (h : ∃ a, r = .ok a) : r.OnlyDuplicates :=
  failsOnly_of_ok h

theorem onlyDuplicates_duplicate (scope : Scope) (key : String) :
    (duplicate scope key : Outcome α).OnlyDuplicates :=
  failsOnly_error rfl

theorem OnlyDuplicates.bind {r : Outcome α} {f : α → Outcome β} (hr : r.OnlyDuplicates)
    (hf : ∀ a, r = .ok a → (f a).OnlyDuplicates) : (r >>= f).OnlyDuplicates :=
  FailsOnly.bind hr hf

theorem onlyDuplicates_mapM {f : α → Outcome β} {xs : List α}
    (h : ∀ x ∈ xs, (f x).OnlyDuplicates) : (xs.mapM f).OnlyDuplicates := by
  intro e he
  obtain ⟨x, hx, herror⟩ := exists_error_of_mapM he
  exact h x hx e herror

theorem onlyDuplicates_foldlM {f : β → α → Outcome β} {xs : List α}
    (h : ∀ x ∈ xs, ∀ b, (f b x).OnlyDuplicates) (b : β) : (xs.foldlM f b).OnlyDuplicates :=
  failsOnly_foldlM h b

/-- A success or a duplicate. -/
theorem OnlyDuplicates.ok_or {r : Outcome α} (h : r.OnlyDuplicates) :
    (∃ a, r = .ok a) ∨ ∃ f, r = .error f ∧ f.kind = .duplicate := by
  cases hr : r with
  | ok a => exact .inl ⟨a, rfl⟩
  | error f => exact .inr ⟨f, rfl, h f hr⟩

end Outcome

theorem Table.onlyDuplicates_addNew {β : Type} {scope : Scope} {t : Table String β} {key : String}
    {value : β} : (t.addNew scope key value).OnlyDuplicates := by
  rw [addNew]
  split
  · exact Outcome.onlyDuplicates_of_ok ⟨_, rfl⟩
  · exact Outcome.onlyDuplicates_duplicate scope key

/-! ## Collections that are ready -/

theorem Symbol.exists_isNamed_of_isPaired {s : Symbol} (h : s.names.isPaired = true) :
    ∃ pair, s.IsNamed pair := by
  obtain ⟨names, tags, locals⟩ := s
  cases names with
  | paired unmapped mapped => exact ⟨(unmapped, mapped), rfl, rfl⟩
  | row r => cases h

/-- A paired collection of pairs at every depth, with members whose descriptors can be
translated. -/
structure GroupedMappings.Ready (m : GroupedMappings) : Prop where
  paired : m.isPaired = true
  named : ∀ s, m.Holds s → s.names.isPaired = true
  translatable : ∀ s, m.Declares s → s.tags.Translatable

theorem onlyDuplicates_pairTables {scope mappedScope : Scope} {symbols : List Symbol}
    (h : ∀ s ∈ symbols, s.names.isPaired = true) :
    (pairTables scope mappedScope symbols).OnlyDuplicates := by
  rw [pairTables_eq]
  refine Outcome.onlyDuplicates_foldlM (fun s hs tables => ?_) _
  obtain ⟨pair, hunmapped, hmapped⟩ := Symbol.exists_isNamed_of_isPaired (h s hs)
  simp only [enterPair, hunmapped, hmapped, Outcome.ok_bind]
  refine Table.onlyDuplicates_addNew.bind fun t _ => ?_
  refine Table.onlyDuplicates_addNew.bind fun u _ => ?_
  exact Outcome.onlyDuplicates_of_ok ⟨_, rfl⟩

namespace GroupedMappings

variable {m : GroupedMappings}

theorem Ready.onlyDuplicates_classRenames (h : m.Ready) :
    (ClassRenames.ofMappings m).OnlyDuplicates := by
  have hinfos : ∀ s ∈ m.classes.map MappedClass.info, s.names.isPaired = true := by
    intro s hs
    obtain ⟨c, hc, rfl⟩ := List.mem_map.1 hs
    exact h.named _ (.inr (.inClass hc (.self _)))
  have hpackages : ∀ s ∈ m.packages, s.names.isPaired = true := fun s hs =>
    h.named s (.inr (.inPackage hs (.self s)))
  simp only [ClassRenames.ofMappings, h.paired, if_true]
  refine (onlyDuplicates_pairTables hinfos).bind fun classes _ => ?_
  refine (onlyDuplicates_pairTables hpackages).bind fun packages _ => ?_
  exact Outcome.onlyDuplicates_of_ok ⟨_, rfl⟩

/-- The local variables of a member have mapped names if all symbols are named by pairs. -/
theorem exists_mappedLocals (hnamed : ∀ s, m.Holds s → s.names.isPaired = true) {s : Symbol}
    (hs : m.Declares s) : ∃ locals, mappedLocals s = .ok locals := by
  refine Outcome.exists_mapM_iff.2 fun e he => ?_
  have hpaired : e.2.names.isPaired = true := by
    cases hlocals : s.locals with
    | none =>
      rw [hlocals] at he
      cases he
    | some table =>
      rw [hlocals] at he
      exact hnamed _ (.inr (.inMember hs ⟨table, hlocals, e, he, .self _⟩))
  obtain ⟨pair, -, hmapped⟩ := Symbol.exists_isNamed_of_isPaired hpaired
  exact ⟨_, Outcome.bind_eq_ok_iff.2 ⟨_, hmapped, rfl⟩⟩

theorem Ready.onlyDuplicates_ofSymbols (h : m.Ready) {classes : ClassRenames} {scope : Scope}
    {owner : String} {symbols : List Symbol} (hsymbols : ∀ s ∈ symbols, m.Declares s) :
    (MemberTable.ofSymbols classes scope owner symbols).OnlyDuplicates := by
  refine Outcome.onlyDuplicates_foldlM (fun s hs t => ?_) _
  have hdeclared := hsymbols s hs
  obtain ⟨pair, hunmapped, hmapped⟩ :=
    Symbol.exists_isNamed_of_isPaired (h.named s (.inl hdeclared))
  obtain ⟨descs, hdescs⟩ := exists_memberDescriptors classes (h.translatable s hdeclared)
  obtain ⟨locals, hlocals⟩ := exists_mappedLocals h.named hdeclared
  simp only [MemberTable.enterSymbol, hunmapped, hdescs, hlocals, hmapped, Outcome.ok_bind]
  rw [MemberTable.enter]
  split
  · exact Outcome.onlyDuplicates_of_ok ⟨_, rfl⟩
  · exact Outcome.onlyDuplicates_duplicate _ _

/-- A renamer of a collection that is ready is built unless there are duplicates. -/
theorem Ready.onlyDuplicates_renamer (h : m.Ready) : (Renamer.ofMappings m).OnlyDuplicates := by
  refine h.onlyDuplicates_classRenames.bind fun classes _ => ?_
  refine (Outcome.onlyDuplicates_mapM fun c hc => ?_).bind fun members _ =>
    Outcome.onlyDuplicates_of_ok ⟨_, rfl⟩
  obtain ⟨pair, hunmapped, -⟩ := Symbol.exists_isNamed_of_isPaired
    (h.named _ (.inr (.inClass hc (.self c.info))))
  simp only [MappedClass.unmappedName, hunmapped, Outcome.ok_bind]
  have hfields : (MemberTable.ofSymbols classes .field pair.1 c.fields).OnlyDuplicates :=
    h.onlyDuplicates_ofSymbols fun s hs => ⟨c, hc, List.mem_append_left _ hs⟩
  have hmethods : (MemberTable.ofSymbols classes .method pair.1 c.methods).OnlyDuplicates :=
    h.onlyDuplicates_ofSymbols fun s hs => ⟨c, hc, List.mem_append_right _ hs⟩
  have hclass : (ClassMembers.ofClass classes pair.1 c).OnlyDuplicates :=
    hfields.bind fun fields _ => hmethods.bind fun methods _ =>
      Outcome.onlyDuplicates_of_ok ⟨_, rfl⟩
  exact hclass.bind fun members _ => Outcome.onlyDuplicates_of_ok ⟨_, rfl⟩

end GroupedMappings

/-! ## Reversed collections -/

namespace Symbol

/-- The symbol is named by a pair, and so is everything in it. -/
def AllPaired (s : Symbol) : Prop :=
  ∀ v, s.Holds v → v.names.isPaired = true

theorem AllPaired.ownedBy {s : Symbol} (h : s.AllPaired) (id : ClassId) :
    (s.ownedBy id).AllPaired := by
  intro v hv
  rcases holds_iff.1 hv with rfl | hv
  · exact h s (.self s)
  · exact h v (holds_iff.2 (.inr hv))

theorem exists_reverseLocals_iff {table : LocalTable} :
    (∃ table', reverseLocals table = .ok table') ↔ ∀ e ∈ table, ∃ s', e.2.reverse = .ok s' := by
  induction table with
  | nil => exact ⟨fun _ e he => (nomatch he), fun _ => ⟨[], by rw [reverseLocals]; rfl⟩⟩
  | cons e rest ih =>
    obtain ⟨index, s⟩ := e
    rw [List.forall_mem_cons, ← ih]
    simp only [reverseLocals, Outcome.bind_eq_ok_iff]
    constructor
    · rintro ⟨table', s', hs, rest', hrest, -⟩
      exact ⟨⟨s', hs⟩, ⟨rest', hrest⟩⟩
    · rintro ⟨⟨s', hs⟩, ⟨rest', hrest⟩⟩
      exact ⟨_, s', hs, rest', hrest, rfl⟩

/-- A symbol can be reversed if it is named by a pair and its local variables can be reversed. -/
theorem exists_reverse_iff {s : Symbol} :
    (∃ s', s.reverse = .ok s') ↔ s.names.isPaired = true ∧
      ∀ table, s.locals = some table → ∀ e ∈ table, ∃ s', e.2.reverse = .ok s' := by
  have hnames : ∀ names : SymbolNames,
      (∃ names', names.reverse = .ok names') ↔ names.isPaired = true := by
    rintro (⟨unmapped, mapped⟩ | r)
    · exact ⟨fun _ => rfl, fun _ => ⟨_, rfl⟩⟩
    · exact ⟨fun ⟨_, h⟩ => (nomatch h), fun h => (nomatch h)⟩
  obtain ⟨names, tags, locals⟩ := s
  show _ ↔ names.isPaired = true ∧ ∀ table, locals = some table → _
  rw [← hnames]
  cases locals with
  | none =>
    simp only [reverse, Outcome.bind_eq_ok_iff]
    constructor
    · rintro ⟨s', names', hnames', -⟩
      exact ⟨⟨names', hnames'⟩, fun table h => nomatch h⟩
    · rintro ⟨⟨names', hnames'⟩, -⟩
      exact ⟨_, names', hnames', rfl⟩
  | some table =>
    simp only [reverse, Outcome.bind_eq_ok_iff]
    constructor
    · rintro ⟨s', names', hnames', table', htable', -⟩
      refine ⟨⟨names', hnames'⟩, fun table₀ h => ?_⟩
      obtain rfl := Option.some.inj h
      exact exists_reverseLocals_iff.1 ⟨table', htable'⟩
    · rintro ⟨⟨names', hnames'⟩, h⟩
      obtain ⟨table', htable'⟩ := exists_reverseLocals_iff.2 (h table rfl)
      exact ⟨_, names', hnames', table', htable', rfl⟩

/-- **A symbol can be reversed if it is named by pairs at every depth.** -/
theorem exists_reverse_iff_allPaired {s : Symbol} : (∃ s', s.reverse = .ok s') ↔ s.AllPaired := by
  induction s using rec_locals with
  | h names tags locals ih =>
    rw [exists_reverse_iff]
    constructor
    · rintro ⟨hnames, hlocals⟩ v hv
      rcases holds_iff.1 hv with rfl | ⟨table, htable, e, he, hv⟩
      · exact hnames
      · exact (ih table htable e he).1 (hlocals table htable e he) v hv
    · intro h
      refine ⟨h _ (.self _), fun table htable e he => ?_⟩
      exact (ih table htable e he).2 fun v hv => h v (.inLocal htable he hv)

/-- A reversed symbol is named by pairs at every depth. -/
theorem allPaired_of_reverse {s s' : Symbol} (h : s.reverse = .ok s') : s'.AllPaired :=
  exists_reverse_iff_allPaired.1 ⟨s, reverse_reverse h⟩

end Symbol

namespace GroupedMappings

variable {m m' : GroupedMappings}

/-- A paired collection can be reversed if all of its symbols are named by pairs. -/
theorem exists_reverse (hpaired : m.isPaired = true)
    (hnamed : ∀ s, m.Holds s → s.names.isPaired = true) : ∃ m', m.reverse = .ok m' := by
  have hmember : ∀ s, m.Declares s → ∃ s', s.reverse = .ok s' := by
    intro s hs
    refine Symbol.exists_reverse_iff_allPaired.2 fun v hv => ?_
    obtain ⟨c, hc, hs⟩ := hs
    exact hnamed v (holds_of_class hc (List.mem_cons_of_mem _ hs) hv)
  have hclass : ∀ c ∈ m.classes,
      ∃ c', c.traverse Symbol.reverse Symbol.reverse Symbol.reverse = .ok c' := by
    intro c hc
    refine MappedClass.exists_traverse ?_
      (fun s hs => hmember s ⟨c, hc, List.mem_append_left _ hs⟩)
      (fun s hs => hmember s ⟨c, hc, List.mem_append_right _ hs⟩)
    exact Symbol.exists_reverse_iff_allPaired.2 fun v hv => hnamed v (.inr (.inClass hc hv))
  obtain ⟨classes, hclasses⟩ := Outcome.exists_mapM_iff.2 hclass
  obtain ⟨packages, hpackages⟩ := Outcome.exists_mapM_iff.2 fun p (hp : p ∈ m.packages) =>
    Symbol.exists_reverse_iff_allPaired.2 fun v hv => hnamed v (.inr (.inPackage hp hv))
  refine ⟨ofParts none classes packages, ?_⟩
  rw [reverse, if_pos hpaired, hclasses, hpackages]
  rfl

/-- A collection that is ready can be reversed. -/
theorem Ready.exists_reverse (h : m.Ready) : ∃ m', m.reverse = .ok m' :=
  GroupedMappings.exists_reverse h.paired h.named

/-- The reversed collection of one that is ready is ready. -/
theorem Ready.reverse (h : m.Ready) (hreverse : m.reverse = .ok m') : m'.Ready := by
  obtain ⟨-, hpaired, hclasses, hpackages⟩ := reverse_eq_ok hreverse
  refine ⟨hpaired, forall_holds ?_ ?_ ?_, ?_⟩
  · intro c' hc'
    obtain ⟨c, -, hbecomes⟩ := exists_left_of_forall₂ hclasses hc'
    exact Symbol.allPaired_of_reverse hbecomes.info
  · intro s' hs'
    obtain ⟨s, -, made, id, hmade, rfl⟩ := exists_of_declares hclasses hs'
    exact (Symbol.allPaired_of_reverse hmade).ownedBy id
  · intro p' hp'
    obtain ⟨p, -, hp⟩ := exists_left_of_forall₂ hpackages hp'
    exact Symbol.allPaired_of_reverse hp
  · intro s' hs' desc hdesc
    obtain ⟨s, hs, hbecomes⟩ := exists_of_declares hclasses hs'
    have hturned := Symbol.isReverse_of_becomes hbecomes
    rw [hturned.unmapped, hturned.mapped] at hdesc
    exact h.translatable s hs desc hdesc.symm

end GroupedMappings

end SymbolMap
