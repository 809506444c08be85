import SymbolMap.Mappings.Projection
import SymbolMap.Proofs.Mappings.Parts

/-!
# What stops a projection

A projection to two namespaces of a collection goes through all of its symbols.  It can stop at two
things only (`Symbol.Stops`): a symbol that is named by a pair, and a descriptor that is written in
neither of the two namespaces.  Whatever failure comes out, it is that of such a symbol somewhere in
the collection (`exists_stops_of_project`), so a collection without one is projected.

What comes out otherwise is named by pairs at every depth (`isPaired_of_project`), and its
descriptors are descriptors of the collection (`mem_descriptors_of_project`).
-/

namespace SymbolMap

variable {source target : NamespaceId}

/-! ## Tags -/

/-- The projection of plain attributes fails only for a descriptor of a third namespace. -/
theorem Tags.exists_third_of_project {names : SymbolNames} {t : Tags} {f : Failure}
    (h : t.project names source target = .error f) :
    ∃ d, t.namespacedDescriptor = some d ∧ d.writtenIn ≠ source ∧ d.writtenIn ≠ target ∧
      f = .of (.malformed (.thirdNamespace d.desc names d.writtenIn source target)) := by
  simp only [project] at h
  split at h
  · cases h
  · rename_i d hd
    by_cases hsource : d.writtenIn = source
    · rw [if_pos hsource] at h
      cases h
    · rw [if_neg hsource] at h
      by_cases htarget : d.writtenIn = target
      · rw [if_pos htarget] at h
        cases h
      · rw [if_neg htarget] at h
        exact ⟨d, hd, hsource, htarget, (Except.error.inj h).symm⟩

theorem Tags.mem_descriptors_iff {t : Tags} {desc : String} :
    desc ∈ t.descriptors ↔ t.unmappedDescriptor = some desc ∨ t.mappedDescriptor = some desc ∨
      ∃ d, t.namespacedDescriptor = some d ∧ d.desc = desc := by
  simp only [descriptors, List.mem_append, Option.mem_toList, Option.map_eq_some_iff, or_assoc]

/-- A projected descriptor was there before, perhaps with a namespace. -/
theorem Tags.mem_descriptors_of_project {names : SymbolNames} {t t' : Tags} {desc : String}
    (h : t.project names source target = .ok t') (hdesc : desc ∈ t'.descriptors) :
    desc ∈ t.descriptors := by
  rw [mem_descriptors_iff] at hdesc ⊢
  simp only [project] at h
  split at h
  · obtain rfl := Except.ok.inj h
    rcases hdesc with hunmapped | hmapped | ⟨d, hd, -⟩
    · exact .inl hunmapped
    · exact .inr (.inl hmapped)
    · cases hd
  · rename_i d hd
    by_cases hsource : d.writtenIn = source
    · rw [if_pos hsource] at h
      obtain rfl := Except.ok.inj h
      rcases hdesc with hmoved | hmapped | ⟨d', hd', -⟩
      · exact .inr (.inr ⟨d, hd, Option.some.inj hmoved⟩)
      · exact .inr (.inl hmapped)
      · cases hd'
    · rw [if_neg hsource] at h
      by_cases htarget : d.writtenIn = target
      · rw [if_pos htarget] at h
        obtain rfl := Except.ok.inj h
        rcases hdesc with hunmapped | hmoved | ⟨d', hd', -⟩
        · exact .inl hunmapped
        · exact .inr (.inr ⟨d, hd, Option.some.inj hmoved⟩)
        · cases hd'
      · rw [if_neg htarget] at h
        cases h

/-! ## Symbols -/

namespace Symbol

variable {s s' v : Symbol} {f : Failure}

/-- The projection of a symbol stops at the symbol itself, with a failure. -/
inductive Stops (source target : NamespaceId) (s : Symbol) : Failure → Prop where
  | paired (h : s.names.isPaired = true) :
    Stops source target s (.of (.malformed (.projectingPair s.names)))
  | third {d : NamespacedDescriptor} (hd : s.tags.namespacedDescriptor = some d)
    (hsource : d.writtenIn ≠ source) (htarget : d.writtenIn ≠ target) :
    Stops source target s
      (.of (.malformed (.thirdNamespace d.desc s.names d.writtenIn source target)))

/-- The projection of local variables fails with the failure of one of them. -/
theorem exists_error_of_projectLocals {table : LocalTable}
    (h : projectLocals source target table = .error f) :
    ∃ e ∈ table, e.2.project source target = .error f := by
  induction table with
  | nil => cases h
  | cons e rest ih =>
    obtain ⟨index, s⟩ := e
    rw [projectLocals] at h
    rcases Outcome.bind_eq_error_iff.1 h with h | ⟨s', -, h⟩
    · exact ⟨(index, s), List.mem_cons_self, h⟩
    · rcases Outcome.bind_eq_error_iff.1 h with h | ⟨rest', -, h⟩
      · obtain ⟨e, he, herror⟩ := ih h
        exact ⟨e, List.mem_cons_of_mem _ he, herror⟩
      · cases h

/-- Projected local variables come from local variables with the same indices. -/
theorem exists_of_mem_projectLocals {table table' : LocalTable}
    (h : projectLocals source target table = .ok table') {e' : Nat × Symbol} (he' : e' ∈ table') :
    ∃ e ∈ table, e'.1 = e.1 ∧ e.2.project source target = .ok (some e'.2) := by
  induction table generalizing table' with
  | nil =>
    obtain rfl := Except.ok.inj h
    cases he'
  | cons e rest ih =>
    obtain ⟨index, s⟩ := e
    rw [projectLocals, Outcome.bind_eq_ok_iff] at h
    obtain ⟨s', hs, h⟩ := h
    obtain ⟨rest', hrest, h⟩ := Outcome.bind_eq_ok_iff.1 h
    obtain rfl := Except.ok.inj h
    have htail : e' ∈ rest' → ∃ e ∈ (index, s) :: rest,
        e'.1 = e.1 ∧ e.2.project source target = .ok (some e'.2) := by
      intro he'
      obtain ⟨e, he, hproject⟩ := ih hrest he'
      exact ⟨e, List.mem_cons_of_mem _ he, hproject⟩
    cases s' with
    | none => exact htail he'
    | some s' =>
      rcases List.mem_cons.1 he' with rfl | he'
      · exact ⟨_, List.mem_cons_self, rfl, hs⟩
      · exact htail he'

/-- A failure is that of the symbol itself or that of one of its local variables. -/
theorem project_eq_error (h : s.project source target = .error f) :
    Stops source target s f ∨
      ∃ table, s.locals = some table ∧ ∃ e ∈ table, e.2.project source target = .error f := by
  obtain ⟨names, tags, locals⟩ := s
  cases names with
  | paired unmapped mapped =>
    rw [project] at h
    obtain rfl := Except.error.inj h
    exact .inl (.paired rfl)
  | row r =>
    rw [project] at h
    split at h
    · cases h
    · rcases Outcome.bind_eq_error_iff.1 h with h | ⟨tags', -, h⟩
      · obtain ⟨d, hd, hsource, htarget, rfl⟩ := Tags.exists_third_of_project h
        exact .inl (.third hd hsource htarget)
      · cases locals with
        | none => cases h
        | some table =>
          rcases Outcome.bind_eq_error_iff.1 h with h | ⟨table', -, h⟩
          · exact .inr ⟨table, rfl, exists_error_of_projectLocals h⟩
          · cases h

/-- A projected symbol is named by a pair, and its attributes and local variables are projected. -/
theorem project_eq_some (h : s.project source target = .ok (some s')) :
    s'.names.isPaired = true ∧ s.tags.project s.names source target = .ok s'.tags ∧
      ∀ table', s'.locals = some table' →
        ∃ table, s.locals = some table ∧ projectLocals source target table = .ok table' := by
  obtain ⟨names, tags, locals⟩ := s
  cases names with
  | paired unmapped mapped => cases h
  | row r =>
    rw [project] at h
    split at h
    · cases h
    · obtain ⟨tags', htags, h⟩ := Outcome.bind_eq_ok_iff.1 h
      cases locals with
      | none =>
        obtain rfl := Option.some.inj (Except.ok.inj h)
        exact ⟨rfl, htags, fun table' htable' => nomatch htable'⟩
      | some table =>
        obtain ⟨table₀, htable, h⟩ := Outcome.bind_eq_ok_iff.1 h
        obtain rfl := Option.some.inj (Except.ok.inj h)
        refine ⟨rfl, htags, fun table' htable' => ⟨table, rfl, ?_⟩⟩
        obtain rfl : table₀ = table' := Option.some.inj htable'
        exact htable

/-- **A projection stops at a symbol in the symbol.** -/
theorem exists_stops_of_project (h : s.project source target = .error f) :
    ∃ v, s.Holds v ∧ v.Stops source target f := by
  induction s using rec_locals with
  | h names tags locals ih =>
    rcases project_eq_error h with hstops | ⟨table, htable, e, he, herror⟩
    · exact ⟨_, .self _, hstops⟩
    · obtain ⟨v, hv, hstops⟩ := ih table htable e he herror
      exact ⟨v, .inLocal htable he hv, hstops⟩

/-- A projected symbol is named by pairs at every depth. -/
theorem isPaired_of_project (h : s.project source target = .ok (some s')) (hv : s'.Holds v) :
    v.names.isPaired = true := by
  induction hv generalizing s with
  | self s' => exact (project_eq_some h).1
  | @inLocal s' v table' e' htable' he' _ ih =>
    obtain ⟨table, -, hproject⟩ := (project_eq_some h).2.2 table' htable'
    obtain ⟨e, -, -, he⟩ := exists_of_mem_projectLocals hproject he'
    exact ih he

end Symbol

/-! ## Collections -/

theorem exists_error_of_projectAll {symbols : List Symbol} {f : Failure}
    (h : projectAll source target symbols = .error f) :
    ∃ s ∈ symbols, s.project source target = .error f := by
  rcases Outcome.bind_eq_error_iff.1 h with h | ⟨projected, -, h⟩
  · exact Outcome.exists_error_of_mapM h
  · cases h

theorem exists_of_mem_projectAll {symbols projected : List Symbol} {s' : Symbol}
    (h : projectAll source target symbols = .ok projected) (hs' : s' ∈ projected) :
    ∃ s ∈ symbols, s.project source target = .ok (some s') := by
  obtain ⟨all, hall, h⟩ := Outcome.bind_eq_ok_iff.1 h
  obtain rfl := Except.ok.inj h
  obtain ⟨_, hmem, rfl⟩ := List.mem_filterMap.1 hs'
  exact exists_left_of_forall₂ (Outcome.mapM_eq_ok_iff.1 hall) hmem

namespace MappedClass

variable {c c' : MappedClass}

theorem exists_error_of_project {f : Failure} (h : c.project source target = .error f) :
    ∃ s ∈ c.info :: c.members, s.project source target = .error f := by
  rcases Outcome.bind_eq_error_iff.1 h with h | ⟨info, -, h⟩
  · exact ⟨c.info, List.mem_cons_self, h⟩
  · have hmember : ∀ s ∈ c.members, s ∈ c.info :: c.members := fun s =>
      List.mem_cons_of_mem c.info
    cases info with
    | none => cases h
    | some info =>
      rcases Outcome.bind_eq_error_iff.1 h with h | ⟨fields, -, h⟩
      · obtain ⟨s, hs, herror⟩ := exists_error_of_projectAll h
        exact ⟨s, hmember s (List.mem_append_left _ hs), herror⟩
      · rcases Outcome.bind_eq_error_iff.1 h with h | ⟨methods, -, h⟩
        · obtain ⟨s, hs, herror⟩ := exists_error_of_projectAll h
          exact ⟨s, hmember s (List.mem_append_right _ hs), herror⟩
        · cases h

/-- The symbols of a projected class come from those of the class. -/
theorem project_eq_some (h : c.project source target = .ok (some c')) :
    c.info.project source target = .ok (some c'.info) ∧
      ∀ s' ∈ c'.members, ∃ s ∈ c.members, s.project source target = .ok (some s') := by
  obtain ⟨info, hinfo, h⟩ := Outcome.bind_eq_ok_iff.1 h
  cases info with
  | none => cases h
  | some info =>
    obtain ⟨fields, hfields, h⟩ := Outcome.bind_eq_ok_iff.1 h
    obtain ⟨methods, hmethods, h⟩ := Outcome.bind_eq_ok_iff.1 h
    obtain rfl := Option.some.inj (Except.ok.inj h)
    refine ⟨hinfo, fun s' hs' => ?_⟩
    rcases List.mem_append.1 hs' with hs' | hs'
    · obtain ⟨s, hs, hproject⟩ := exists_of_mem_projectAll hfields hs'
      exact ⟨s, List.mem_append_left _ hs, hproject⟩
    · obtain ⟨s, hs, hproject⟩ := exists_of_mem_projectAll hmethods hs'
      exact ⟨s, List.mem_append_right _ hs, hproject⟩

end MappedClass

namespace GroupedMappings

variable {m m' : GroupedMappings} {ns : Namespaces} {name name' : String}

/-- **The projection of a collection stops at a symbol of the collection.** -/
theorem exists_stops_of_project {f : Failure} (hns : m.namespaces = some ns)
    (hsource : ns.find name = .ok source) (htarget : ns.find name' = .ok target)
    (h : m.project name name' = .error f) : ∃ v, m.Holds v ∧ v.Stops source target f := by
  rw [project, hns] at h
  simp only [hsource, htarget, Outcome.ok_bind] at h
  rcases Outcome.bind_eq_error_iff.1 h with h | ⟨classes, -, h⟩
  · obtain ⟨c, hc, hclass⟩ := Outcome.exists_error_of_mapM h
    obtain ⟨s, hs, herror⟩ := MappedClass.exists_error_of_project hclass
    obtain ⟨v, hv, hstops⟩ := Symbol.exists_stops_of_project herror
    exact ⟨v, holds_of_class hc hs hv, hstops⟩
  · rcases Outcome.bind_eq_error_iff.1 h with h | ⟨packages, -, h⟩
    · obtain ⟨p, hp, herror⟩ := exists_error_of_projectAll h
      obtain ⟨v, hv, hstops⟩ := Symbol.exists_stops_of_project herror
      exact ⟨v, .inr (.inPackage hp hv), hstops⟩
    · cases h

/-- A collection is projected class by class and package by package. -/
theorem exists_of_project (h : m.project name name' = .ok m') :
    ∃ ns source target classes, m.namespaces = some ns ∧ ns.find name = .ok source ∧
      ns.find name' = .ok target ∧ m.classes.mapM (MappedClass.project source target) = .ok classes ∧
      m'.isPaired = true ∧
      List.Forall₂ (fun made c' => ∃ id, c' = MappedClass.withId made id) (classes.filterMap id)
        m'.classes ∧
      projectAll source target m.packages = .ok m'.packages := by
  rw [project] at h
  split at h
  · cases h
  · rename_i ns hns
    obtain ⟨source, hsource, h⟩ := Outcome.bind_eq_ok_iff.1 h
    obtain ⟨target, htarget, h⟩ := Outcome.bind_eq_ok_iff.1 h
    obtain ⟨classes, hclasses, h⟩ := Outcome.bind_eq_ok_iff.1 h
    obtain ⟨packages, hpackages, h⟩ := Outcome.bind_eq_ok_iff.1 h
    obtain rfl := Except.ok.inj h
    obtain ⟨hnamespaces, hadded, hsame⟩ := ofParts_spec none (classes.filterMap id) packages
    exact ⟨ns, source, target, classes, hns, hsource, htarget, hclasses,
      by rw [isPaired, hnamespaces]; rfl, hadded, hsame.symm ▸ hpackages⟩

/-- The symbols of a projected collection are projected symbols of the collection. -/
theorem project_eq_ok (h : m.project name name' = .ok m') :
    ∃ ns source target, m.namespaces = some ns ∧ ns.find name = .ok source ∧
      ns.find name' = .ok target ∧ m'.isPaired = true ∧
      (∀ c' ∈ m'.classes, ∃ c ∈ m.classes, c.info.project source target = .ok (some c'.info)) ∧
      (∀ s', m'.Declares s' → ∃ s made id, m.Declares s ∧
        s.project source target = .ok (some made) ∧ s' = made.ownedBy id) ∧
      ∀ p' ∈ m'.packages, ∃ p ∈ m.packages, p.project source target = .ok (some p') := by
  obtain ⟨ns, source, target, classes, hns, hsource, htarget, hclasses, hpaired, hadded, hpackages⟩ :=
    exists_of_project h
  -- a class of the result is a projected class under another identity
  have hclass : ∀ c' ∈ m'.classes, ∃ c ∈ m.classes, ∃ made id,
      c.project source target = .ok (some made) ∧ c' = made.withId id := by
    intro c' hc'
    obtain ⟨made, hmade, id, rfl⟩ := exists_left_of_forall₂ hadded hc'
    obtain ⟨_, hmem, rfl⟩ := List.mem_filterMap.1 hmade
    obtain ⟨c, hc, hproject⟩ := exists_left_of_forall₂ (Outcome.mapM_eq_ok_iff.1 hclasses) hmem
    exact ⟨c, hc, made, id, hproject, rfl⟩
  refine ⟨ns, source, target, hns, hsource, htarget, hpaired, ?_, ?_, ?_⟩
  · intro c' hc'
    obtain ⟨c, hc, made, id, hproject, rfl⟩ := hclass c' hc'
    exact ⟨c, hc, (MappedClass.project_eq_some hproject).1⟩
  · rintro s' ⟨c', hc', hs'⟩
    obtain ⟨c, hc, made, id, hproject, rfl⟩ := hclass c' hc'
    rw [MappedClass.members_withId] at hs'
    obtain ⟨s₀, hs₀, rfl⟩ := List.mem_map.1 hs'
    obtain ⟨s, hs, hmade⟩ := (MappedClass.project_eq_some hproject).2 s₀ hs₀
    exact ⟨s, s₀, id, ⟨c, hc, hs⟩, hmade, rfl⟩
  · intro p' hp'
    exact exists_of_mem_projectAll hpackages hp'

end GroupedMappings

end SymbolMap
