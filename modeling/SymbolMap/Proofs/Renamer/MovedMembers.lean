import SymbolMap.Proofs.Descriptor.ClassNames
import SymbolMap.Proofs.Mappings.DescriptorMove
import SymbolMap.Proofs.Renamer.MemberTables

/-!
# Members with moved descriptors

Moving the descriptors of a collection keeps every class and every member at its place.  What is
moved is the descriptor of a member: the class names in it are replaced by the names of the same
classes in the other namespace (`NamesBetween`), unless it is there already
(`NamespacedDescriptor.MovesTo`).  `descriptorsIn_isMoved` says this of a whole collection.

Nothing stops a move if class names do not repeat in a namespace and all descriptors of members can
be read (`exists_descriptorsIn`).
-/

namespace SymbolMap

/-! ## Class names in two namespaces -/

section

variable {classes : List MappedClass} {source target : NamespaceId} {names : Table String String}

/-- The names of the classes that have one in both namespaces. -/
def namePairs (classes : List MappedClass) (source target : NamespaceId) :
    List (String × String) :=
  classes.filterMap fun c =>
    match c.info.names.get? source, c.info.names.get? target with
    | some old, some new => some (old, new)
    | _, _ => none

theorem mem_namePairs {x y : String} :
    (x, y) ∈ namePairs classes source target ↔
      ∃ c ∈ classes, c.info.names.get? source = some x ∧ c.info.names.get? target = some y := by
  rw [namePairs, List.mem_filterMap]
  refine exists_congr fun c => and_congr Iff.rfl ?_
  cases c.info.names.get? source <;> cases c.info.names.get? target <;> simp

/-- The table of names in two namespaces lists the pairs of names. -/
theorem classNamesBetween_eq_ok_iff :
    classNamesBetween classes source target = .ok names ↔
      names.entries = namePairs classes source target := by
  have heq : classNamesBetween classes source target =
      indexInOrder .className ((namePairs classes source target).map .ok) := by
    rw [classNamesBetween, namePairs, List.map_filterMap]
    congr 2
    funext c
    cases c.info.names.get? source <;> cases c.info.names.get? target <;> rfl
  rw [heq]
  constructor
  · intro h
    exact (List.map_injective_iff.2 (fun _ _ => Except.ok.inj) (entries_indexInOrder h)).symm
  · intro h
    exact indexOnto_of_entries (by simpa [Table.empty] using h)

/-- The table has the names of each class under each other. -/
theorem get?_of_classNamesBetween (h : classNamesBetween classes source target = .ok names)
    {x y : String} :
    names.get? x = some y ↔ ∃ c ∈ classes,
      c.info.names.get? source = some x ∧ c.info.names.get? target = some y := by
  rw [Table.get?_eq_some_iff, classNamesBetween_eq_ok_iff.1 h, mem_namePairs]

/-- The table is made where no name of a class in the source repeats. -/
theorem exists_classNamesBetween
    (h : (classes.filterMap fun c => c.info.names.get? source).Nodup) :
    ∃ names, classNamesBetween classes source target = .ok names := by
  have hsublist : ((namePairs classes source target).map Prod.fst).Sublist
      (classes.filterMap fun c => c.info.names.get? source) := by
    clear h
    induction classes with
    | nil => exact .slnil
    | cons c classes ih =>
      rw [namePairs] at ih ⊢
      cases hsource : c.info.names.get? source with
      | none => simpa [hsource] using ih
      | some old =>
        cases htarget : c.info.names.get? target with
        | none => simpa [hsource, htarget] using ih.cons old
        | some new => simpa [hsource, htarget] using ih
  exact ⟨⟨_, h.sublist hsublist⟩, classNamesBetween_eq_ok_iff.2 rfl⟩

/-- The function takes the name of a class in one namespace to its name in another, and keeps every
other name. -/
structure NamesBetween (classes : List MappedClass) (source target : NamespaceId)
    (f : String → String) : Prop where
  ofClass : ∀ c ∈ classes, ∀ x y, c.info.names.get? source = some x →
    c.info.names.get? target = some y → f x = y
  kept : ∀ x, (∀ c ∈ classes, c.info.names.get? source = some x →
    c.info.names.get? target = none) → f x = x

/-- A name is kept or taken to the name of a class in the target. -/
theorem NamesBetween.kept_or_class {f : String → String} (h : NamesBetween classes source target f)
    (x : String) : f x = x ∨
      ∃ c ∈ classes, c.info.names.get? source = some x ∧ c.info.names.get? target = some (f x) := by
  by_cases hclass : ∃ c ∈ classes, ∃ y,
      c.info.names.get? source = some x ∧ c.info.names.get? target = some y
  · obtain ⟨c, hc, y, hx, hy⟩ := hclass
    exact .inr ⟨c, hc, hx, h.ofClass c hc x y hx hy ▸ hy⟩
  · refine .inl (h.kept x fun c hc hx => ?_)
    cases hy : c.info.names.get? target with
    | none => rfl
    | some y => exact absurd ⟨c, hc, y, hx, hy⟩ hclass

theorem namesBetween_of_table (h : classNamesBetween classes source target = .ok names) :
    NamesBetween classes source target (tabulatedName names) := by
  refine ⟨fun c hc x y hx hy => ?_, fun x hx => ?_⟩
  · rw [tabulatedName, (get?_of_classNamesBetween h).2 ⟨c, hc, hx, hy⟩]
    rfl
  · rw [tabulatedName]
    cases hy : names.get? x with
    | none => rfl
    | some y =>
      obtain ⟨c, hc, hsource, htarget⟩ := (get?_of_classNamesBetween h).1 hy
      rw [hx c hc hsource] at htarget
      cases htarget

theorem namesBetween_same (classes : List MappedClass) (n : NamespaceId) :
    NamesBetween classes n n id :=
  ⟨fun _ _ _ _ hx hy => Option.some.inj (hx.symm.trans hy), fun _ _ => rfl⟩

end

/-! ## Moved descriptors -/

/-- A descriptor that is written in the namespace is moved to itself, and any other to what it is
with the class names of the namespace. -/
def NamespacedDescriptor.MovesTo (classes : List MappedClass) (target : NamespaceId)
    (d : NamespacedDescriptor) (desc : String) : Prop :=
  d.writtenIn = target ∧ desc = d.desc ∨
    ∃ f, NamesBetween classes d.writtenIn target f ∧
      Descriptor.renameClasses (m := Outcome) (fun x => pure (f x)) d.desc = .ok desc

/-- A descriptor that can be read gets the class names of the namespace it is moved to. -/
theorem NamespacedDescriptor.MovesTo.exists_namesBetween {classes : List MappedClass}
    {target : NamespaceId} {d : NamespacedDescriptor} {desc : String}
    (h : d.MovesTo classes target desc)
    (hcheck : d.writtenIn = target → Descriptor.check d.desc = .ok ()) :
    ∃ f, NamesBetween classes d.writtenIn target f ∧
      Descriptor.renameClasses (m := Outcome) (fun x => pure (f x)) d.desc = .ok desc := by
  rcases h with ⟨hplace, rfl⟩ | hmoved
  · refine ⟨id, hplace ▸ namesBetween_same classes _, ?_⟩
    obtain ⟨names, hnames⟩ := Descriptor.check_eq_ok_iff.1 (hcheck hplace)
    exact (Descriptor.renameClasses_eq_self_iff fun x hx y hy =>
      Except.ok.inj hy ▸ (Descriptor.delimited_of_mentions hx).2).2 ⟨names, hnames, fun _ _ => rfl⟩
  · exact hmoved

/-- The second symbol is the first one with its descriptor moved. -/
structure Symbol.IsMoved (classes : List MappedClass) (target : NamespaceId) (s s' : Symbol) :
    Prop where
  names : s'.names = s.names
  unmapped : s'.tags.unmappedDescriptor = s.tags.unmappedDescriptor
  mapped : s'.tags.mappedDescriptor = s.tags.mappedDescriptor
  descriptor : ∀ d, s.tags.namespacedDescriptor = some d →
    ∃ desc, s'.tags.namespacedDescriptor = some ⟨target, desc⟩ ∧ d.MovesTo classes target desc

/-- The second class is the first one with the descriptors of its members moved. -/
structure MappedClass.IsMoved (classes : List MappedClass) (target : NamespaceId)
    (c c' : MappedClass) : Prop where
  info : c'.info = c.info
  members : ∀ kind, List.Forall₂ (Symbol.IsMoved classes target) (c.membersOf kind)
    (c'.membersOf kind)

theorem Symbol.isMoved_of_becomes {ns : Namespaces} {target : NamespaceId}
    {classes : List MappedClass} {tables : List (Table String String)} {s s' : Symbol}
    (htables : (List.range ns.size).mapM (fun source => classNamesBetween classes ⟨source⟩ target) =
      .ok tables) (h : s.Becomes (moveDescriptor ns target tables) s') :
    s.IsMoved classes target s' := by
  obtain ⟨made, id, hmove, rfl⟩ := h
  rcases moveDescriptor_cases hmove with ⟨rfl, hplace⟩ | ⟨d, names, desc, hd, hnames, hdesc, rfl⟩
  · refine ⟨rfl, rfl, rfl, fun d hd => ⟨d.desc, ?_, .inl ⟨hplace d hd, rfl⟩⟩⟩
    rw [← hplace d hd]
    exact hd
  · -- the table of a namespace stands at its position
    have hrange := List.Forall₂.flip (Outcome.mapM_eq_ok_iff.1 htables)
    obtain ⟨source, hsource, htable⟩ := exists_getElem?_of_forall₂ hrange hnames
    obtain ⟨hlt, hsource⟩ := List.getElem?_eq_some_iff.1 hsource
    rw [List.getElem_range] at hsource
    subst hsource
    refine ⟨rfl, rfl, rfl, fun d' hd' => ⟨desc, rfl, .inr ?_⟩⟩
    obtain rfl := Option.some.inj (hd.symm.trans hd')
    exact ⟨_, namesBetween_of_table htable, hdesc⟩

namespace GroupedMappings

variable {m m' : GroupedMappings} {name : String}

/-- **A move keeps every class and every member at its place and moves the descriptors of
members.** -/
theorem descriptorsIn_isMoved (h : m.descriptorsIn name = .ok m') :
    ∃ ns target, m.namespaces = some ns ∧ ns.find name = .ok target ∧ m'.namespaces = some ns ∧
      m'.packages = m.packages ∧
      List.Forall₂ (MappedClass.IsMoved m.classes target) m.classes m'.classes := by
  obtain ⟨ns, target, tables, hns, htarget, htables, hns', hpackages, hclasses⟩ :=
    descriptorsIn_eq_ok h
  refine ⟨ns, target, hns, htarget, hns', hpackages, hclasses.imp fun c c' hc => ?_⟩
  refine ⟨(Except.ok.inj hc.info).symm, fun kind => ?_⟩
  exact (hc.membersOf (fun _ => Symbol.moveDescriptor ns target tables) kind).imp fun s s' =>
    Symbol.isMoved_of_becomes htables

/-- The descriptor with a namespace of a member that is given by its position: the class, the kind
and the place among the members of the kind. -/
def descriptorAt (m : GroupedMappings) (i : Nat) (kind : MemberKind) (j : Nat) :
    Option NamespacedDescriptor :=
  m.classes[i]?.bind fun c => (c.membersOf kind)[j]?.bind fun s => s.tags.namespacedDescriptor

theorem descriptorAt_eq_some_iff {i j : Nat} {kind : MemberKind} {d : NamespacedDescriptor} :
    m.descriptorAt i kind j = some d ↔ ∃ c, m.classes[i]? = some c ∧
      ∃ s, (c.membersOf kind)[j]? = some s ∧ s.tags.namespacedDescriptor = some d := by
  simp only [descriptorAt, Option.bind_eq_some_iff]

/-- The descriptor at a position is moved. -/
theorem exists_descriptorAt {target : NamespaceId}
    (h : List.Forall₂ (MappedClass.IsMoved m.classes target) m.classes m'.classes) {i j : Nat}
    {kind : MemberKind} {d : NamespacedDescriptor} (hd : m.descriptorAt i kind j = some d) :
    ∃ desc, m'.descriptorAt i kind j = some ⟨target, desc⟩ ∧ d.MovesTo m.classes target desc := by
  obtain ⟨c, hc, s, hs, hd⟩ := descriptorAt_eq_some_iff.1 hd
  obtain ⟨c', hc', hclass⟩ := exists_getElem?_of_forall₂ h hc
  obtain ⟨s', hs', hmember⟩ := exists_getElem?_of_forall₂ (hclass.members kind) hs
  obtain ⟨desc, hd', hmoves⟩ := hmember.descriptor d hd
  exact ⟨desc, descriptorAt_eq_some_iff.2 ⟨c', hc', s', hs', hd'⟩, hmoves⟩

end GroupedMappings

/-! ## Moves that succeed -/

/-- A descriptor that can be read can be moved from any of the namespaces. -/
theorem Symbol.exists_moveDescriptor {ns : Namespaces} {target : NamespaceId}
    {tables : List (Table String String)} {s : Symbol} (hlength : tables.length = ns.size)
    (h : ∀ d, s.tags.namespacedDescriptor = some d →
      d.writtenIn.index < ns.size ∧ Descriptor.check d.desc = .ok ()) :
    ∃ s', s.moveDescriptor ns target tables = .ok s' := by
  rw [moveDescriptor]
  split
  · exact ⟨s, rfl⟩
  · rename_i d hd
    obtain ⟨hrange, hcheck⟩ := h d hd
    rw [← hlength] at hrange
    rw [List.getElem?_eq_getElem hrange]
    by_cases hplace : d.writtenIn = target
    · exact ⟨s, by simp [hplace]⟩
    · obtain ⟨names, hnames⟩ := Descriptor.check_eq_ok_iff.1 hcheck
      obtain ⟨desc, hdesc⟩ := Descriptor.exists_renameClasses_iff.2
        ⟨names, hnames, fun x _ => ⟨tabulatedName tables[d.writtenIn.index] x, rfl⟩⟩
      refine ⟨s.set (.namespacedDescriptor ⟨target, desc⟩), ?_⟩
      simp only [if_neg hplace]
      exact Outcome.bind_eq_ok_iff.2 ⟨desc, Outcome.within_eq_ok_iff.2 hdesc, rfl⟩

namespace GroupedMappings

variable {m : GroupedMappings} {ns : Namespaces} {target : NamespaceId}

/-- The descriptors of all members are moved if that of each member can be. -/
theorem exists_mapM_moveDescriptor (target : NamespaceId) {tables : List (Table String String)}
    (hlength : tables.length = ns.size)
    (h : ∀ s, m.Declares s → ∀ d, s.tags.namespacedDescriptor = some d →
      d.writtenIn.index < ns.size ∧ Descriptor.check d.desc = .ok ()) :
    ∃ classes, m.classes.mapM (MappedClass.traverse pure (Symbol.moveDescriptor ns target tables)
      (Symbol.moveDescriptor ns target tables)) = .ok classes := by
  refine Outcome.exists_mapM_iff.2 fun c hc => MappedClass.exists_traverse ⟨_, rfl⟩ ?_ ?_
  · intro s hs
    exact Symbol.exists_moveDescriptor hlength (h s ⟨c, hc, List.mem_append_left _ hs⟩)
  · intro s hs
    exact Symbol.exists_moveDescriptor hlength (h s ⟨c, hc, List.mem_append_right _ hs⟩)

/-- **Descriptors can be moved** to a namespace if class names do not repeat in a namespace, and the
descriptors of members can be read and are written in one of the namespaces. -/
theorem exists_descriptorsIn {name : String} (hns : m.namespaces = some ns)
    (htarget : ns.find name = .ok target)
    (hdistinct : ∀ n : NamespaceId, n.index < ns.size →
      (m.classes.filterMap fun c => c.info.names.get? n).Nodup)
    (h : ∀ s, m.Declares s → ∀ d, s.tags.namespacedDescriptor = some d →
      d.writtenIn.index < ns.size ∧ Descriptor.check d.desc = .ok ()) :
    ∃ m', m.descriptorsIn name = .ok m' := by
  obtain ⟨tables, htables⟩ : ∃ tables, (List.range ns.size).mapM (fun source =>
      classNamesBetween m.classes ⟨source⟩ target) = .ok tables :=
    Outcome.exists_mapM_iff.2 fun source hsource =>
      exists_classNamesBetween (hdistinct ⟨source⟩ (List.mem_range.1 hsource))
  have hlength : tables.length = ns.size := by
    rw [← (Outcome.mapM_eq_ok_iff.1 htables).length_eq, List.length_range]
  obtain ⟨classes, hclasses⟩ := exists_mapM_moveDescriptor target hlength h
  simp only [descriptorsIn, hns, htarget, htables, Outcome.ok_bind]
  exact ⟨_, Outcome.bind_eq_ok_iff.2 ⟨classes, hclasses, rfl⟩⟩

end GroupedMappings

end SymbolMap
