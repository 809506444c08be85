import SymbolMap.Mappings.Reversal
import SymbolMap.Proofs.Mappings.DescriptorMove

/-!
# Reversing a projection

A projection from one namespace to another, reversed, is the projection the other way round, if
every symbol has a name in both namespaces (`reverse_of_project`).  Where a symbol lacks one of the
names this fails: without a name in the source it is left out, and without one in the target it has
the same name twice.  A descriptor that is not written in a namespace would be kept on its side by
the projection and change sides in the reversal, so that a symbol must have none
(`Symbol.IsBilingual`).

Owners and identities are given anew when a collection is put together, and stay the same in both
directions (`ofParts_eq`, `reverse_ofParts`).
-/

namespace SymbolMap

variable {source target : NamespaceId}

namespace Namespaces

variable {ns : Namespaces} {name name' : String} {n n' : NamespaceId}

theorem name?_of_find (h : ns.find name = .ok n) : ns.name? n = some name := by
  rw [find] at h
  split at h
  · rename_i i hi
    obtain rfl := Except.ok.inj h
    obtain ⟨hlt, hname, -⟩ := List.findIdx?_eq_some_iff_getElem.1 hi
    rw [name?, List.getElem?_eq_getElem hlt, beq_iff_eq.1 hname]
  · cases h

/-- Namespaces with different names are different. -/
theorem ne_of_find (h : ns.find name = .ok n) (h' : ns.find name' = .ok n') (hne : name ≠ name') :
    n ≠ n' := by
  rintro rfl
  apply hne
  exact Option.some.inj ((name?_of_find h).symm.trans (name?_of_find h'))

end Namespaces

/-! ## There and back for one element -/

/-- Whatever the first projection makes of the element is there, and reversed it is what the second
one makes of it. -/
def TurnsRound {α β : Type} (forth back : α → Outcome (Option β)) (reverse : β → Outcome β)
    (x : α) : Prop :=
  ∀ made, forth x = .ok made →
    ∃ there here, made = some there ∧ back x = .ok (some here) ∧ reverse there = .ok here

/-- What holds of each element holds of all that is made of a list. -/
theorem TurnsRound.mapM {α β : Type} {forth back : α → Outcome (Option β)}
    {reverse : β → Outcome β} {xs : List α} (h : ∀ x ∈ xs, TurnsRound forth back reverse x)
    {made : List (Option β)} (hmade : xs.mapM forth = .ok made) :
    ∃ made', xs.mapM back = .ok made' ∧
      (made.filterMap id).mapM reverse = .ok (made'.filterMap id) := by
  simp only [Outcome.mapM_eq_ok_iff] at hmade ⊢
  induction hmade with
  | nil => exact ⟨[], .nil, .nil⟩
  | cons hx _ ih =>
    obtain ⟨there, here, rfl, hback, hreverse⟩ := h _ List.mem_cons_self _ hx
    obtain ⟨made', hmade', hrest⟩ := ih fun x' hx' => h x' (List.mem_cons_of_mem _ hx')
    exact ⟨some here :: made', .cons hback hmade', .cons hreverse hrest⟩

/-! ## Symbols -/

/-- The symbol has a name in both namespaces, and no descriptor without a namespace. -/
structure Symbol.IsBilingual (source target : NamespaceId) (s : Symbol) : Prop where
  source : (s.names.get? source).isSome = true
  target : (s.names.get? target).isSome = true
  unmapped : s.tags.unmappedDescriptor = none
  mapped : s.tags.mappedDescriptor = none

theorem Symbol.IsBilingual.symm {s : Symbol} (h : s.IsBilingual source target) :
    s.IsBilingual target source :=
  ⟨h.target, h.source, h.unmapped, h.mapped⟩

/-- A descriptor goes to the other side if the sides are exchanged. -/
theorem Tags.project_swap {names : SymbolNames} {t t' : Tags} (hne : source ≠ target)
    (hunmapped : t.unmappedDescriptor = none) (hmapped : t.mappedDescriptor = none)
    (h : t.project names source target = .ok t') :
    t.project names target source = .ok t'.reverse := by
  obtain ⟨unmapped, mapped, namespaced, documentation, owner, isStatic, side⟩ := t
  obtain rfl : unmapped = none := hunmapped
  obtain rfl : mapped = none := hmapped
  cases namespaced with
  | none =>
    obtain rfl := Except.ok.inj h
    rfl
  | some d =>
    simp only [project] at h ⊢
    by_cases hsource : d.writtenIn = source
    · rw [if_pos hsource] at h
      obtain rfl := Except.ok.inj h
      rw [if_neg (hsource ▸ hne), if_pos hsource]
      rfl
    · rw [if_neg hsource] at h
      by_cases htarget : d.writtenIn = target
      · rw [if_pos htarget] at h
        obtain rfl := Except.ok.inj h
        rw [if_pos htarget]
        rfl
      · rw [if_neg htarget] at h
        cases h

namespace Symbol

theorem projectLocals_swap {table table' : LocalTable}
    (hturns : ∀ e ∈ table, TurnsRound (project source target) (project target source) reverse e.2)
    (h : projectLocals source target table = .ok table') :
    ∃ table'', projectLocals target source table = .ok table'' ∧
      reverseLocals table' = .ok table'' := by
  induction table generalizing table' with
  | nil =>
    obtain rfl := Except.ok.inj h
    exact ⟨[], rfl, rfl⟩
  | cons e rest ih =>
    obtain ⟨index, s⟩ := e
    rw [projectLocals, Outcome.bind_eq_ok_iff] at h
    obtain ⟨made, hmade, h⟩ := h
    obtain ⟨rest', hrest, h⟩ := Outcome.bind_eq_ok_iff.1 h
    obtain rfl := Except.ok.inj h
    obtain ⟨there, here, rfl, hback, hreverse⟩ := hturns _ List.mem_cons_self made hmade
    obtain ⟨rest'', hrest', hreversed⟩ :=
      ih (fun e he => hturns e (List.mem_cons_of_mem _ he)) hrest
    refine ⟨(index, here) :: rest'', ?_, ?_⟩
    · rw [projectLocals, hback, hrest']
      rfl
    · rw [reverseLocals, hreverse, hreversed]
      rfl

/-- A symbol with a name in the source is projected by projecting its attributes and its local
variables. -/
theorem project_row {r : NameRow} {x : String} (hx : r.get? source = some x) (tags : Tags)
    (locals : Option LocalTable) :
    (mk (.row r) tags locals).project source target = (do
      let tags ← tags.project (.row r) source target
      let locals ← locals.mapM (projectLocals source target)
      return some (mk (.paired x ((r.get? target).getD x)) tags locals)) := by
  rw [project, hx]
  cases locals with
  | none => rfl
  | some table =>
    simp only [Option.mapM_some, map_eq_pure_bind, bind_assoc, pure_bind]

/-- A symbol is reversed by reversing its names, its attributes and its local variables. -/
theorem reverse_mk (names : SymbolNames) (tags : Tags) (locals : Option LocalTable) :
    (mk names tags locals).reverse = (do
      let names ← names.reverse
      let locals ← locals.mapM reverseLocals
      return mk names tags.reverse locals) := by
  cases locals with
  | none => rfl
  | some table =>
    simp only [reverse, Option.mapM_some, map_eq_pure_bind, bind_assoc, pure_bind]

/-- **A projected symbol, reversed, is projected the other way round**, with its local variables at
every depth. -/
theorem turnsRound {s : Symbol} (hne : source ≠ target)
    (hall : ∀ v, s.Holds v → v.IsBilingual source target) :
    TurnsRound (project source target) (project target source) reverse s := by
  induction s using rec_locals with
  | h names tags locals ih =>
    intro made hmade
    obtain ⟨⟨hsource, htarget, hunmapped, hmapped⟩, hinside⟩ := forall_holds_iff.1 hall
    cases names with
    | paired unmapped mapped => cases hmade
    | row r =>
      obtain ⟨x, hx⟩ : ∃ x, r.get? source = some x := Option.isSome_iff_exists.1 hsource
      obtain ⟨y, hy⟩ : ∃ y, r.get? target = some y := Option.isSome_iff_exists.1 htarget
      rw [project_row hx] at hmade
      obtain ⟨tags', htags, hmade⟩ := Outcome.bind_eq_ok_iff.1 hmade
      obtain ⟨locals', hlocals, hmade⟩ := Outcome.bind_eq_ok_iff.1 hmade
      obtain rfl := Except.ok.inj hmade
      have htags' : tags.project (.row r) target source = .ok tags'.reverse :=
        Tags.project_swap hne hunmapped hmapped htags
      obtain ⟨locals'', hback, hreverse⟩ : ∃ locals'',
          locals.mapM (projectLocals target source) = .ok locals'' ∧
          locals'.mapM reverseLocals = .ok locals'' := by
        simp only [Outcome.mapM_option_eq_ok_iff] at hlocals ⊢
        cases hlocals with
        | none => exact ⟨none, .none, .none⟩
        | @some table table' htable =>
          obtain ⟨table'', hback, hreverse⟩ := projectLocals_swap (fun e he =>
            ih table rfl e he (hinside table rfl e he)) htable
          exact ⟨some table'', .some hback, .some hreverse⟩
      refine ⟨_, mk (.paired y x) tags'.reverse locals'', rfl, ?_, ?_⟩
      · rw [project_row hy, htags', Outcome.ok_bind, hback, hx]
        rfl
      · rw [reverse_mk, hreverse, hy]
        rfl

/-- The reversal of a symbol keeps its owner. -/
theorem ignoresOwner_reverse : IgnoresOwner reverse := by
  intro s s' id h
  obtain ⟨names, tags, locals⟩ := s
  rw [reverse_mk] at h
  obtain ⟨names', hnames, h⟩ := Outcome.bind_eq_ok_iff.1 h
  obtain ⟨locals', hlocals, h⟩ := Outcome.bind_eq_ok_iff.1 h
  obtain rfl := Except.ok.inj h
  show (mk names { tags with owner := some id } locals).reverse = _
  rw [reverse_mk, hnames, Outcome.ok_bind, hlocals]
  rfl

end Symbol

theorem projectAll_swap {symbols projected : List Symbol} (hne : source ≠ target)
    (hall : ∀ s ∈ symbols, ∀ v, s.Holds v → v.IsBilingual source target)
    (h : projectAll source target symbols = .ok projected) :
    ∃ projected', projectAll target source symbols = .ok projected' ∧
      projected.mapM Symbol.reverse = .ok projected' := by
  obtain ⟨made, hmade, h⟩ := Outcome.bind_eq_ok_iff.1 h
  obtain rfl := Except.ok.inj h
  obtain ⟨made', hmade', hreverse⟩ :=
    TurnsRound.mapM (fun s hs => Symbol.turnsRound hne (hall s hs)) hmade
  refine ⟨made'.filterMap id, ?_, hreverse⟩
  rw [projectAll, hmade']
  rfl

/-! ## Classes -/

namespace MappedClass

/-- The class with its two sides swapped. -/
def reverse (c : MappedClass) : Outcome MappedClass :=
  c.traverse Symbol.reverse Symbol.reverse Symbol.reverse

theorem turnsRound {c : MappedClass} (hne : source ≠ target)
    (hall : ∀ s ∈ c.info :: c.members, ∀ v, s.Holds v → v.IsBilingual source target) :
    TurnsRound (project source target) (project target source) reverse c := by
  intro made hmade
  obtain ⟨info, hinfo, hmade⟩ := Outcome.bind_eq_ok_iff.1 hmade
  obtain ⟨there, here, rfl, hback, hreverse⟩ :=
    Symbol.turnsRound hne (hall _ List.mem_cons_self) info hinfo
  obtain ⟨fields, hfields, hmade⟩ := Outcome.bind_eq_ok_iff.1 hmade
  obtain ⟨methods, hmethods, hmade⟩ := Outcome.bind_eq_ok_iff.1 hmade
  obtain rfl := Except.ok.inj hmade
  obtain ⟨fields', hfields', hreversed⟩ := projectAll_swap hne (fun s hs =>
    hall s (List.mem_cons_of_mem _ (List.mem_append_left _ hs))) hfields
  obtain ⟨methods', hmethods', hreversed'⟩ := projectAll_swap hne (fun s hs =>
    hall s (List.mem_cons_of_mem _ (List.mem_append_right _ hs))) hmethods
  refine ⟨_, ⟨c.id, here, fields', methods'⟩, rfl, ?_, ?_⟩
  · rw [project, hback, Outcome.ok_bind]
    show (projectAll target source c.fields >>= _) = _
    rw [hfields', Outcome.ok_bind, hmethods']
    rfl
  · rw [reverse, traverse, hreverse, Outcome.ok_bind, hreversed, Outcome.ok_bind, hreversed']
    rfl

/-- Marking a member anew does not change what becomes of it in a reversal. -/
theorem reverse_withId {c c' : MappedClass} (h : c.reverse = .ok c') (id : ClassId) :
    (c.withId id).reverse = .ok (c'.withId id) :=
  traverse_withId Symbol.ignoresOwner_reverse Symbol.ignoresOwner_reverse h id

end MappedClass

/-! ## Collections -/

namespace GroupedMappings

/-- **A collection put together of parts is reversed by reversing the parts.** -/
theorem reverse_ofParts {classes classes' : List MappedClass} {packages packages' : List Symbol}
    (hclasses : classes.mapM MappedClass.reverse = .ok classes')
    (hpackages : packages.mapM Symbol.reverse = .ok packages') :
    (ofParts none classes packages).reverse = .ok (ofParts none classes' packages') := by
  obtain ⟨made, hmade, hsame⟩ := exists_mapM_ofParts none packages
    (fun c c' id h => MappedClass.reverse_withId h id) hclasses
  rw [reverse, ofParts_eq none classes]
  rw [ofParts_eq] at hmade
  show (classes.mapIdx fun i c => c.withId ⟨i⟩).mapM MappedClass.reverse >>= _ = _
  rw [hmade, Outcome.ok_bind]
  show packages.mapM Symbol.reverse >>= _ = _
  rw [hpackages, Outcome.ok_bind, hsame]
  rfl

/-- A collection is projected by projecting its parts. -/
theorem project_eq_ok_iff {m p : GroupedMappings} {ns : Namespaces} {name name' : String}
    (hns : m.namespaces = some ns) (hsource : ns.find name = .ok source)
    (htarget : ns.find name' = .ok target) :
    m.project name name' = .ok p ↔
      ∃ classes packages, m.classes.mapM (MappedClass.project source target) = .ok classes ∧
        projectAll source target m.packages = .ok packages ∧
        p = ofParts none (classes.filterMap id) packages := by
  rw [project, hns]
  simp only [hsource, htarget, Outcome.ok_bind, Outcome.bind_eq_ok_iff, pure, Except.pure,
    Except.ok.injEq, eq_comm (a := p), exists_and_left]

/-- A projection, reversed, is the projection the other way round. -/
theorem reverse_of_project {m p : GroupedMappings} {ns : Namespaces} {name name' : String}
    (hns : m.namespaces = some ns) (hsource : ns.find name = .ok source)
    (htarget : ns.find name' = .ok target) (hne : source ≠ target)
    (hall : ∀ v, m.Holds v → v.IsBilingual source target) (h : m.project name name' = .ok p) :
    ∃ q, m.project name' name = .ok q ∧ p.reverse = .ok q := by
  obtain ⟨classes, packages, hclasses, hpackages, rfl⟩ :=
    (project_eq_ok_iff hns hsource htarget).1 h
  obtain ⟨classes', hclasses', hreverse⟩ := TurnsRound.mapM (fun c hc =>
    MappedClass.turnsRound hne fun s hs v hv => hall v (holds_of_class hc hs hv)) hclasses
  obtain ⟨packages', hpackages', hreverse'⟩ := projectAll_swap hne (fun s hs v hv =>
    hall v (.inr (.inPackage hs hv))) hpackages
  exact ⟨_, (project_eq_ok_iff hns htarget hsource).2 ⟨_, _, hclasses', hpackages', rfl⟩,
    reverse_ofParts hreverse hreverse'⟩

/-- **Projecting and reversing commute.** -/
theorem project_commutes_with_reverse {m : GroupedMappings} {ns : Namespaces} {name name' : String}
    (hns : m.namespaces = some ns) (hsource : ns.find name = .ok source)
    (htarget : ns.find name' = .ok target) (hne : name ≠ name')
    (hall : ∀ v, m.Holds v → v.IsBilingual source target) :
    ((∃ p, m.project name name' = .ok p) ↔ ∃ q, m.project name' name = .ok q) ∧
      ∀ p, m.project name name' = .ok p →
        ∃ q, p.reverse = .ok q ∧ m.project name' name = .ok q := by
  have hids : source ≠ target := Namespaces.ne_of_find hsource htarget hne
  have hall' : ∀ v, m.Holds v → v.IsBilingual target source := fun v hv => (hall v hv).symm
  refine ⟨⟨?_, ?_⟩, ?_⟩
  · rintro ⟨p, hp⟩
    obtain ⟨q, hq, -⟩ := reverse_of_project hns hsource htarget hids hall hp
    exact ⟨q, hq⟩
  · rintro ⟨q, hq⟩
    obtain ⟨p, hp, -⟩ := reverse_of_project hns htarget hsource hids.symm hall' hq
    exact ⟨p, hp⟩
  · intro p hp
    obtain ⟨q, hq, hreverse⟩ := reverse_of_project hns hsource htarget hids hall hp
    exact ⟨q, hreverse, hq⟩

/-- A class with a documented method, a package, and names in three namespaces.  The descriptor of
the method is written in the second one, and its local variable has a local variable itself. -/
def nestedLocals : GroupedMappings :=
  .ofParts (some threeNamespaces)
    [(MappedClass.ofInfo (.ofNames (.row (.ofNames ["A", "a", "b"])))).addMethod
      ((((Symbol.ofNames (.row (.ofNames ["m", "n", ""]))).set
        (.namespacedDescriptor ⟨⟨1⟩, "(La;)V"⟩)).set (.documentation "twice")).set
        (.locals [(1, (Symbol.ofNames (.row (.ofNames ["p", "q", "r"]))).set
          (.locals [(0, .ofNames (.row (.ofNames ["u", "v", ""])))]))]))]
    [.ofNames (.row (.ofNames ["s/t", "t", ""]))]

/-- It is projected, and the projection reversed is the projection the other way round. -/
theorem nestedLocals_reversed :
    (∀ v, nestedLocals.Holds v → v.IsBilingual ⟨0⟩ ⟨1⟩) ∧
    ∃ p q, nestedLocals.project "x" "y" = .ok p ∧ p.reverse = .ok q ∧
      nestedLocals.project "y" "x" = .ok q := by
  have hsource : threeNamespaces.find "x" = .ok ⟨0⟩ := by decide
  have htarget : threeNamespaces.find "y" = .ok ⟨1⟩ := by decide
  have hall : ∀ v, nestedLocals.Holds v → v.IsBilingual ⟨0⟩ ⟨1⟩ := by
    have bare : ∀ {s : Symbol}, s.locals = none → s.IsBilingual ⟨0⟩ ⟨1⟩ →
        ∀ v, s.Holds v → v.IsBilingual ⟨0⟩ ⟨1⟩ := by
      intro s hnone hs v hv
      exact Symbol.eq_of_holds hnone hv ▸ hs
    refine forall_holds (fun c hc => ?_) ?_ fun p hp => ?_
    · obtain rfl := List.mem_singleton.1 hc
      exact bare rfl ⟨rfl, rfl, rfl, rfl⟩
    · rintro s ⟨c, hc, hs⟩
      obtain rfl := List.mem_singleton.1 hc
      obtain rfl := List.mem_singleton.1 hs
      -- the method, its local variable and the local variable of that
      refine Symbol.forall_holds_iff.2 ⟨⟨rfl, rfl, rfl, rfl⟩, fun table htable e he => ?_⟩
      obtain rfl := Option.some.inj htable
      obtain rfl := List.mem_singleton.1 he
      refine Symbol.forall_holds_iff.2 ⟨⟨rfl, rfl, rfl, rfl⟩, fun table htable e he => ?_⟩
      obtain rfl := Option.some.inj htable
      obtain rfl := List.mem_singleton.1 he
      exact bare rfl ⟨rfl, rfl, rfl, rfl⟩
    · obtain rfl := List.mem_singleton.1 hp
      exact bare rfl ⟨rfl, rfl, rfl, rfl⟩
  obtain ⟨-, hreverse⟩ := project_commutes_with_reverse rfl hsource htarget (by decide) hall
  obtain ⟨p, hp⟩ : ∃ p, nestedLocals.project "x" "y" = .ok p :=
    Outcome.exists_eq_ok (by decide +kernel)
  obtain ⟨q, hq⟩ := hreverse p hp
  exact ⟨hall, p, q, hp, hq⟩

end GroupedMappings

end SymbolMap
