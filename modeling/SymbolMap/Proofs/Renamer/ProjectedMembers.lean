import SymbolMap.Proofs.Mappings.Projection
import SymbolMap.Proofs.Renamer.MemberTables

/-!
# Members of a projection

What has a name in the source of a projection is in the projection, and nothing else is.  It is
named by the pair of its names in source and target, or twice by the one in the source
(`Symbol.IsProjected`), and a descriptor that is written in the source becomes its unmapped one.

So the class renames of a projection take the names of classes and packages in the source to those
in the target (`ClassRenames.get?_of_project`).
-/

namespace SymbolMap

variable {source target : NamespaceId}

/-- The second symbol is the first one with its names in the two namespaces, with a descriptor of
the source as unmapped descriptor, and with its local variables projected. -/
structure Symbol.IsProjected (source target : NamespaceId) (s s' : Symbol) : Prop where
  named : ∃ x, s.names.get? source = some x ∧ s'.IsNamed (x, (s.names.get? target).getD x)
  descriptors : ∀ d, s.tags.namespacedDescriptor = some d → d.writtenIn = source →
    s'.tags.unmappedDescriptor = some d.desc ∧
      s'.tags.mappedDescriptor = s.tags.mappedDescriptor
  locals : Option.Rel (fun table table' => projectLocals source target table = .ok table')
    s.locals s'.locals

/-- The symbols of the second class are those of the first that have a name in the source,
projected. -/
structure MappedClass.IsProjected (source target : NamespaceId) (c c' : MappedClass) : Prop where
  info : c.info.IsProjected source target c'.info
  members : ∀ kind, ∀ s ∈ c.membersOf kind, ∀ x, s.names.get? source = some x →
    ∃ s' ∈ c'.membersOf kind, s.IsProjected source target s'

namespace Symbol

variable {s s' : Symbol} {projected : Option Symbol} {x : String}

/-- A symbol with a name in the source is projected to a symbol with two names. -/
theorem exists_of_project (h : s.project source target = .ok projected)
    (hx : s.names.get? source = some x) :
    ∃ s', projected = some s' ∧ s'.names = .paired x ((s.names.get? target).getD x) := by
  obtain ⟨names, tags, locals⟩ := s
  cases names with
  | paired unmapped mapped => cases hx
  | row r =>
    have hget : r.get? source = some x := hx
    rw [project, hget] at h
    obtain ⟨tags', -, h⟩ := Outcome.bind_eq_ok_iff.1 h
    cases locals with
    | none => exact ⟨_, (Except.ok.inj h).symm, rfl⟩
    | some table =>
      obtain ⟨table', -, h⟩ := Outcome.bind_eq_ok_iff.1 h
      exact ⟨_, (Except.ok.inj h).symm, rfl⟩

/-- A projected symbol has a table of local variables if the symbol has one. -/
theorem rel_locals_of_project (h : s.project source target = .ok (some s')) :
    Option.Rel (fun table table' => projectLocals source target table = .ok table')
      s.locals s'.locals := by
  obtain ⟨names, tags, locals⟩ := s
  cases names with
  | paired unmapped mapped => cases h
  | row r =>
    rw [project] at h
    split at h
    · cases h
    · obtain ⟨tags', -, h⟩ := Outcome.bind_eq_ok_iff.1 h
      cases locals with
      | none =>
        obtain rfl := Option.some.inj (Except.ok.inj h)
        exact .none
      | some table =>
        obtain ⟨table', htable, h⟩ := Outcome.bind_eq_ok_iff.1 h
        obtain rfl := Option.some.inj (Except.ok.inj h)
        exact .some htable

theorem isProjected_of_project (h : s.project source target = .ok (some s')) :
    s.IsProjected source target s' := by
  obtain ⟨-, htags, -⟩ := project_eq_some h
  refine ⟨?_, fun d hd hsource => ?_, rel_locals_of_project h⟩
  · cases hx : s.names.get? source with
    | some x =>
      obtain ⟨s₀, hs₀, hnames⟩ := exists_of_project h hx
      obtain rfl := Option.some.inj hs₀
      refine ⟨x, rfl, ?_, ?_⟩
      · rw [unmappedName, hnames]
        rfl
      · rw [mappedName, hnames]
        rfl
    | none =>
      obtain ⟨names, tags, locals⟩ := s
      cases names with
      | paired unmapped mapped => cases h
      | row r =>
        have hget : r.get? source = none := hx
        rw [project, hget] at h
        cases h
  · rw [Tags.project, hd] at htags
    simp only [if_pos hsource] at htags
    rw [← Except.ok.inj htags]
    exact ⟨rfl, rfl⟩

theorem IsProjected.ownedBy (h : s.IsProjected source target s') (id : ClassId) :
    s.IsProjected source target (s'.ownedBy id) :=
  ⟨h.named, h.descriptors, h.locals⟩

end Symbol

/-- A symbol with a name in the source is among the projected ones. -/
theorem exists_mem_of_projectAll {symbols projected : List Symbol} {s : Symbol} {x : String}
    (h : projectAll source target symbols = .ok projected) (hs : s ∈ symbols)
    (hx : s.names.get? source = some x) :
    ∃ s' ∈ projected, s.project source target = .ok (some s') := by
  obtain ⟨all, hall, h⟩ := Outcome.bind_eq_ok_iff.1 h
  obtain rfl := Except.ok.inj h
  obtain ⟨made, hmade, hproject⟩ := exists_right_of_forall₂ (Outcome.mapM_eq_ok_iff.1 hall) hs
  obtain ⟨s', rfl, -⟩ := Symbol.exists_of_project hproject hx
  exact ⟨s', List.mem_filterMap.2 ⟨_, hmade, rfl⟩, hproject⟩

namespace MappedClass

variable {c c' : MappedClass} {projected : Option MappedClass} {x : String}

/-- A class with a name in the source is projected to a class. -/
theorem exists_of_project (h : c.project source target = .ok projected)
    (hx : c.info.names.get? source = some x) : ∃ c', projected = some c' := by
  obtain ⟨info, hinfo, h⟩ := Outcome.bind_eq_ok_iff.1 h
  obtain ⟨info, rfl, -⟩ := Symbol.exists_of_project hinfo hx
  obtain ⟨fields, -, h⟩ := Outcome.bind_eq_ok_iff.1 h
  obtain ⟨methods, -, h⟩ := Outcome.bind_eq_ok_iff.1 h
  exact ⟨_, (Except.ok.inj h).symm⟩

theorem isProjected_of_project (h : c.project source target = .ok (some c')) (id : ClassId) :
    c.IsProjected source target (c'.withId id) := by
  obtain ⟨info, hinfo, h⟩ := Outcome.bind_eq_ok_iff.1 h
  cases info with
  | none => cases h
  | some info =>
    obtain ⟨fields, hfields, h⟩ := Outcome.bind_eq_ok_iff.1 h
    obtain ⟨methods, hmethods, h⟩ := Outcome.bind_eq_ok_iff.1 h
    obtain rfl := Option.some.inj (Except.ok.inj h)
    have hmember : ∀ {symbols projected : List Symbol},
        projectAll source target symbols = .ok projected →
        ∀ s ∈ symbols, ∀ x, s.names.get? source = some x →
          ∃ s' ∈ projected.map (Symbol.ownedBy id), s.IsProjected source target s' := by
      intro symbols projected hall s hs x hx
      obtain ⟨s', hs', hproject⟩ := exists_mem_of_projectAll hall hs hx
      exact ⟨_, List.mem_map_of_mem hs', (Symbol.isProjected_of_project hproject).ownedBy id⟩
    refine ⟨Symbol.isProjected_of_project hinfo, fun kind => ?_⟩
    cases kind with
    | field => exact hmember hfields
    | method => exact hmember hmethods

/-- A member of a projected class was projected. -/
theorem exists_of_mem_membersOf {kind : MemberKind} {s' : Symbol} {id : ClassId}
    (h : c.project source target = .ok (some c')) (hs' : s' ∈ (c'.withId id).membersOf kind) :
    ∃ s ∈ c.membersOf kind, s.IsProjected source target s' := by
  obtain ⟨info, -, h⟩ := Outcome.bind_eq_ok_iff.1 h
  cases info with
  | none => cases h
  | some info =>
    obtain ⟨fields, hfields, h⟩ := Outcome.bind_eq_ok_iff.1 h
    obtain ⟨methods, hmethods, h⟩ := Outcome.bind_eq_ok_iff.1 h
    obtain rfl := Option.some.inj (Except.ok.inj h)
    have hmember : ∀ {symbols projected : List Symbol},
        projectAll source target symbols = .ok projected →
        s' ∈ projected.map (Symbol.ownedBy id) →
        ∃ s ∈ symbols, s.IsProjected source target s' := by
      intro symbols projected hall hs'
      obtain ⟨made, hmade, rfl⟩ := List.mem_map.1 hs'
      obtain ⟨s, hs, hproject⟩ := exists_of_mem_projectAll hall hmade
      exact ⟨s, hs, (Symbol.isProjected_of_project hproject).ownedBy id⟩
    cases kind with
    | field => exact hmember hfields hs'
    | method => exact hmember hmethods hs'

end MappedClass

namespace GroupedMappings

variable {m m' : GroupedMappings} {ns : Namespaces} {name name' : String}

/-- **A projection has the classes that have a name in the source, and the packages.** -/
theorem project_isProjected (hns : m.namespaces = some ns) (hsource : ns.find name = .ok source)
    (htarget : ns.find name' = .ok target) (h : m.project name name' = .ok m') :
    (∀ c ∈ m.classes, ∀ x, c.info.names.get? source = some x →
        ∃ c' ∈ m'.classes, c.IsProjected source target c') ∧
      (∀ c' ∈ m'.classes, ∃ c ∈ m.classes, c.IsProjected source target c') ∧
      (∀ p ∈ m.packages, ∀ x, p.names.get? source = some x →
        ∃ p' ∈ m'.packages, p.IsProjected source target p') ∧
      ∀ p' ∈ m'.packages, ∃ p ∈ m.packages, p.IsProjected source target p' := by
  obtain ⟨ns₀, source₀, target₀, classes, hns₀, hsource₀, htarget₀, hclasses, -, hadded, hpackages⟩ :=
    exists_of_project h
  obtain rfl : ns = ns₀ := Option.some.inj (hns.symm.trans hns₀)
  obtain rfl := Outcome.eq_of_eq_ok hsource hsource₀
  obtain rfl := Outcome.eq_of_eq_ok htarget htarget₀
  have hmade := Outcome.mapM_eq_ok_iff.1 hclasses
  refine ⟨fun c hc x hx => ?_, fun c' hc' => ?_, fun p hp x hx => ?_, fun p' hp' => ?_⟩
  · obtain ⟨projected, hmem, hproject⟩ := exists_right_of_forall₂ hmade hc
    obtain ⟨made, rfl⟩ := MappedClass.exists_of_project hproject hx
    obtain ⟨c', hc', id, rfl⟩ := exists_right_of_forall₂ hadded
      (List.mem_filterMap.2 ⟨_, hmem, rfl⟩)
    exact ⟨_, hc', MappedClass.isProjected_of_project hproject id⟩
  · obtain ⟨made, hmem, id, rfl⟩ := exists_left_of_forall₂ hadded hc'
    obtain ⟨_, hmem, rfl⟩ := List.mem_filterMap.1 hmem
    obtain ⟨c, hc, hproject⟩ := exists_left_of_forall₂ hmade hmem
    exact ⟨c, hc, MappedClass.isProjected_of_project hproject id⟩
  · obtain ⟨p', hp', hproject⟩ := exists_mem_of_projectAll hpackages hp hx
    exact ⟨p', hp', Symbol.isProjected_of_project hproject⟩
  · obtain ⟨p, hp, hproject⟩ := exists_of_mem_projectAll hpackages hp'
    exact ⟨p, hp, Symbol.isProjected_of_project hproject⟩

/-- A member of a projection was projected. -/
theorem exists_member_of_project (hns : m.namespaces = some ns) (hsource : ns.find name = .ok source)
    (htarget : ns.find name' = .ok target) (h : m.project name name' = .ok m') {kind : MemberKind}
    {c' : MappedClass} (hc' : c' ∈ m'.classes) {s' : Symbol} (hs' : s' ∈ c'.membersOf kind) :
    ∃ c ∈ m.classes, ∃ s ∈ c.membersOf kind, s.IsProjected source target s' := by
  obtain ⟨ns₀, source₀, target₀, classes, hns₀, hsource₀, htarget₀, hclasses, -, hadded, -⟩ :=
    exists_of_project h
  obtain rfl : ns = ns₀ := Option.some.inj (hns.symm.trans hns₀)
  obtain rfl := Outcome.eq_of_eq_ok hsource hsource₀
  obtain rfl := Outcome.eq_of_eq_ok htarget htarget₀
  obtain ⟨made, hmem, id, rfl⟩ := exists_left_of_forall₂ hadded hc'
  obtain ⟨_, hmem, rfl⟩ := List.mem_filterMap.1 hmem
  obtain ⟨c, hc, hproject⟩ := exists_left_of_forall₂ (Outcome.mapM_eq_ok_iff.1 hclasses) hmem
  obtain ⟨s, hs, hprojected⟩ := MappedClass.exists_of_mem_membersOf hproject hs'
  exact ⟨c, hc, s, hs, hprojected⟩

end GroupedMappings

/-- The names of projected symbols are those in source and target. -/
theorem exists_isNamed_iff_of_isProjected {α : Type} (info : α → Symbol) {xs xs' : List α}
    (h : ∀ a ∈ xs, ∀ x, (info a).names.get? source = some x →
      ∃ a' ∈ xs', (info a).IsProjected source target (info a'))
    (h' : ∀ a' ∈ xs', ∃ a ∈ xs, (info a).IsProjected source target (info a')) {x y : String} :
    (∃ a' ∈ xs', (info a').IsNamed (x, y)) ↔
      ∃ a ∈ xs, (info a).names.get? source = some x ∧ ((info a).names.get? target).getD x = y := by
  constructor
  · rintro ⟨a', ha', hnamed⟩
    obtain ⟨a, ha, hprojected⟩ := h' a' ha'
    obtain ⟨x', hx', hnamed'⟩ := hprojected.named
    obtain rfl : x' = x := Outcome.eq_of_eq_ok hnamed'.1 hnamed.1
    exact ⟨a, ha, hx', Outcome.eq_of_eq_ok hnamed'.2 hnamed.2⟩
  · rintro ⟨a, ha, hx, rfl⟩
    obtain ⟨a', ha', hprojected⟩ := h a ha x hx
    obtain ⟨x', hx', hnamed⟩ := hprojected.named
    obtain rfl := Option.some.inj (hx.symm.trans hx')
    exact ⟨a', ha', hnamed⟩

/-- **The class renames of a projection** take names in the source to names in the target. -/
theorem ClassRenames.get?_of_project {m paired : GroupedMappings} {ns : Namespaces}
    {name name' : String} {t : ClassRenames} (hns : m.namespaces = some ns)
    (hsource : ns.find name = .ok source) (htarget : ns.find name' = .ok target)
    (hpaired : m.project name name' = .ok paired) (ht : ofMappings paired = .ok t) :
    (∀ x y, t.toMapped.classes.get? x = some y ↔ ∃ c ∈ m.classes,
        c.info.names.get? source = some x ∧ (c.info.names.get? target).getD x = y) ∧
      ∀ x y, t.toMapped.packages.get? x = some y ↔ ∃ p ∈ m.packages,
        p.names.get? source = some x ∧ (p.names.get? target).getD x = y := by
  obtain ⟨hclass, hclass', hpackage, hpackage'⟩ :=
    GroupedMappings.project_isProjected hns hsource htarget hpaired
  refine ⟨fun x y => (get?_iff ht).1.trans ?_, fun x y => (packages_get?_iff ht).1.trans ?_⟩
  · refine exists_isNamed_iff_of_isProjected MappedClass.info (fun c hc x hx => ?_) (fun c' hc' => ?_)
    · obtain ⟨c', hc', hprojected⟩ := hclass c hc x hx
      exact ⟨c', hc', hprojected.info⟩
    · obtain ⟨c, hc, hprojected⟩ := hclass' c' hc'
      exact ⟨c, hc, hprojected.info⟩
  · exact exists_isNamed_iff_of_isProjected id hpackage hpackage'

end SymbolMap
