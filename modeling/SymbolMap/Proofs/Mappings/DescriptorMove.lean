import SymbolMap.Mappings.DescriptorMove
import SymbolMap.Proofs.Mappings.Projection

/-!
# Which descriptors are moved

Moving the descriptors of a collection to a namespace changes the fields and methods of its classes
and nothing else (`descriptorsIn_eq_ok`).  So the descriptors of members are all written in that
namespace afterwards, and a descriptor that stands aside, on a class, on a package or on a local
variable, is still written where it was (`descriptorsIn_moves`).  A projection from that namespace
reads those as well, and stops at one that is written in a third namespace.
-/

namespace SymbolMap

/-- The descriptor of the symbol, if it has one with a namespace, is written in the namespace. -/
def Symbol.WrittenIn (n : NamespaceId) (s : Symbol) : Prop :=
  ∀ d ∈ s.tags.namespacedDescriptor, d.writtenIn = n

namespace Symbol

variable {ns : Namespaces} {target : NamespaceId} {tables : List (Table String String)}
  {s s' : Symbol}

/-- A descriptor that is in place stays, and any other is renamed with the table of its
namespace. -/
theorem moveDescriptor_cases (h : s.moveDescriptor ns target tables = .ok s') :
    (s' = s ∧ s.WrittenIn target) ∨
      ∃ d names desc, s.tags.namespacedDescriptor = some d ∧
        tables[d.writtenIn.index]? = some names ∧
        Descriptor.renameClasses (m := Outcome) (fun name => pure (tabulatedName names name))
          d.desc = .ok desc ∧
        s' = s.set (.namespacedDescriptor ⟨target, desc⟩) := by
  rw [moveDescriptor] at h
  split at h
  · rename_i hnone
    refine .inl ⟨(Except.ok.inj h).symm, fun d hd => ?_⟩
    rw [hnone] at hd
    cases hd
  · rename_i d hd
    split at h
    · cases h
    · rename_i names hnames
      by_cases hplace : d.writtenIn = target
      · rw [if_pos hplace] at h
        refine .inl ⟨(Except.ok.inj h).symm, fun d' hd' => ?_⟩
        obtain rfl : d = d' := Option.some.inj (hd.symm.trans hd')
        exact hplace
      · rw [if_neg hplace, Outcome.bind_eq_ok_iff] at h
        obtain ⟨desc, hdesc, h⟩ := h
        exact .inr ⟨d, names, desc, hd, hnames, Outcome.within_eq_ok_iff.1 hdesc,
          (Except.ok.inj h).symm⟩

theorem writtenIn_of_moveDescriptor (h : s.moveDescriptor ns target tables = .ok s') :
    s'.WrittenIn target := by
  rcases moveDescriptor_cases h with ⟨rfl, hplace⟩ | ⟨d, names, desc, -, -, -, rfl⟩
  · exact hplace
  · intro d' hd'
    obtain rfl := Option.some.inj hd'
    rfl

/-- A move keeps the names of the symbol and what is nested in it. -/
theorem keeps_of_moveDescriptor (h : s.moveDescriptor ns target tables = .ok s') :
    s'.names = s.names ∧ s'.locals = s.locals := by
  rcases moveDescriptor_cases h with ⟨rfl, -⟩ | ⟨d, names, desc, -, -, -, rfl⟩
  · exact ⟨rfl, rfl⟩
  · exact ⟨rfl, rfl⟩

end Symbol

/-- The failure is that a descriptor is written in a third namespace. -/
def Failure.IsThirdNamespace (f : Failure) : Prop :=
  ∃ desc names written source target,
    f.cause = .malformed (.thirdNamespace desc names written source target)

/-- A symbol that stops a projection by a descriptor of a third namespace has it. -/
theorem Symbol.Stops.not_writtenIn {source target : NamespaceId} {s : Symbol} {f : Failure}
    (h : s.Stops source target f) (hf : f.IsThirdNamespace) : ¬ s.WrittenIn source := by
  obtain ⟨desc, names, written, source', target', hcause⟩ := hf
  rcases h with ⟨-⟩ | ⟨hd, hsource, -⟩
  · cases hcause
  · intro hwritten
    exact hsource (hwritten _ hd)

/-- The second class is the first one with the descriptors of its members moved. -/
abbrev MappedClass.Moves (ns : Namespaces) (target : NamespaceId)
    (tables : List (Table String String)) : MappedClass → MappedClass → Prop :=
  Becomes pure (Symbol.moveDescriptor ns target tables) (Symbol.moveDescriptor ns target tables)

namespace GroupedMappings

variable {m m' : GroupedMappings} {name : String} {v : Symbol}

/-- Moving descriptors keeps the packages and moves the descriptors of each class. -/
theorem descriptorsIn_eq_ok (h : m.descriptorsIn name = .ok m') :
    ∃ ns target tables, m.namespaces = some ns ∧ ns.find name = .ok target ∧
      (List.range ns.size).mapM (fun source => classNamesBetween m.classes ⟨source⟩ target) =
        .ok tables ∧
      m'.namespaces = some ns ∧ m'.packages = m.packages ∧
      List.Forall₂ (MappedClass.Moves ns target tables) m.classes m'.classes := by
  rw [descriptorsIn] at h
  split at h
  · cases h
  · rename_i ns hns
    obtain ⟨target, htarget, h⟩ := Outcome.bind_eq_ok_iff.1 h
    obtain ⟨tables, htables, h⟩ := Outcome.bind_eq_ok_iff.1 h
    obtain ⟨classes, hclasses, h⟩ := Outcome.bind_eq_ok_iff.1 h
    obtain rfl := Except.ok.inj h
    obtain ⟨hnamespaces, -, hpackages⟩ := ofParts_spec (some ns) classes m.packages
    exact ⟨ns, target, tables, hns, htarget, htables, hnamespaces, hpackages,
      forall₂_becomes hclasses⟩

/-- The descriptors of members are in place after the move. -/
theorem writtenIn_of_declares {ns : Namespaces} {target : NamespaceId}
    {tables : List (Table String String)} {s : Symbol}
    (h : List.Forall₂ (MappedClass.Moves ns target tables) m.classes m'.classes)
    (hs : m'.Declares s) : s.WrittenIn target := by
  obtain ⟨s₀, -, moved, id, hmove, rfl⟩ := exists_of_declares h hs
  have hwritten : moved.WrittenIn target := Symbol.writtenIn_of_moveDescriptor hmove
  exact hwritten

/-- What is aside stays aside where classes, packages and nested symbols are the same. -/
theorem Aside.of_forall₂ (hv : m.Aside v)
    (hclasses : List.Forall₂ (fun c c' : MappedClass => c.info = c'.info ∧
      List.Forall₂ (fun s s' : Symbol => s.locals = s'.locals) c.members c'.members)
      m.classes m'.classes)
    (hpackages : m.packages = m'.packages) : m'.Aside v := by
  rcases hv with ⟨hc, h⟩ | ⟨⟨c, hc, hs⟩, h⟩ | ⟨hp, h⟩
  · obtain ⟨c', hc', hinfo, -⟩ := exists_right_of_forall₂ hclasses hc
    exact .inClass hc' (hinfo ▸ h)
  · obtain ⟨c', hc', -, hmembers⟩ := exists_right_of_forall₂ hclasses hc
    obtain ⟨s', hs', hlocals⟩ := exists_right_of_forall₂ hmembers hs
    obtain ⟨table, htable, hin⟩ := h
    exact .inMember ⟨c', hc', hs'⟩ ⟨table, hlocals ▸ htable, hin⟩
  · exact .inPackage (hpackages ▸ hp) h

/-- Moving descriptors leaves alone what is aside. -/
theorem aside_iff_of_descriptorsIn (h : m.descriptorsIn name = .ok m') :
    m'.Aside v ↔ m.Aside v := by
  obtain ⟨ns, target, tables, -, -, -, -, hpackages, hclasses⟩ := descriptorsIn_eq_ok h
  have hsame : List.Forall₂ (fun c c' : MappedClass => c.info = c'.info ∧
      List.Forall₂ (fun s s' : Symbol => s.locals = s'.locals) c.members c'.members)
      m.classes m'.classes := by
    refine hclasses.imp fun c c' hc => ⟨Except.ok.inj hc.info, hc.members.imp ?_⟩
    rintro s s' ⟨moved, id, hmove, rfl⟩
    exact (Symbol.keeps_of_moveDescriptor hmove).2.symm
  constructor
  · intro hv
    refine hv.of_forall₂ (List.Forall₂.flip (hsame.imp ?_)) hpackages
    rintro c c' ⟨hinfo, hmembers⟩
    exact ⟨hinfo.symm, List.Forall₂.flip (hmembers.imp fun s s' hlocals => hlocals.symm)⟩
  · intro hv
    exact hv.of_forall₂ hsame hpackages.symm

/-- A projection that stops at a descriptor has found both namespaces. -/
theorem find_of_third_of_project {ns : Namespaces} {source : NamespaceId} {other : String}
    {f : Failure} (hns : m.namespaces = some ns) (hsource : ns.find name = .ok source)
    (h : m.project name other = .error f) (hf : f.IsThirdNamespace) :
    ∃ n, ns.find other = .ok n := by
  obtain ⟨desc, names, written, source', target', hcause⟩ := hf
  rw [project, hns] at h
  simp only [hsource, Outcome.ok_bind] at h
  rcases Outcome.bind_eq_error_iff.1 h with h | ⟨n, hn, -⟩
  · rw [Namespaces.find] at h
    split at h
    · cases h
    · obtain rfl := Except.error.inj h
      cases hcause
  · exact ⟨n, hn⟩

/-- **Moving descriptors moves those of members.**  Afterwards every descriptor of a field or a
method is written in the namespace.  All descriptors of the collection are if and only if those
that stand aside were before; and if a projection from the namespace stops at a descriptor of a
third one, then it is a descriptor that stood aside. -/
theorem descriptorsIn_moves (h : m.descriptorsIn name = .ok m') :
    ∃ ns target, m.namespaces = some ns ∧ ns.find name = .ok target ∧
      (∀ s, m'.Declares s → s.WrittenIn target) ∧
      ((∀ s, m'.Holds s → s.WrittenIn target) ↔ ∀ s, m.Aside s → s.WrittenIn target) ∧
      ∀ other f, m'.project name other = .error f → f.IsThirdNamespace →
        ∃ n s, ns.find other = .ok n ∧ m.Aside s ∧ s.Stops target n f ∧ ¬ s.WrittenIn target := by
  obtain ⟨ns, target, tables, hns, htarget, -, hns', -, hclasses⟩ := descriptorsIn_eq_ok h
  have hmembers : ∀ s, m'.Declares s → s.WrittenIn target := fun s =>
    writtenIn_of_declares hclasses
  refine ⟨ns, target, hns, htarget, hmembers, ⟨fun hall s hs => ?_, fun hall s hs => ?_⟩, ?_⟩
  · exact hall s (.inr ((aside_iff_of_descriptorsIn h).2 hs))
  · rcases hs with hs | hs
    · exact hmembers s hs
    · exact hall s ((aside_iff_of_descriptorsIn h).1 hs)
  · intro other f herror hthird
    obtain ⟨n, hn⟩ := find_of_third_of_project hns' htarget herror hthird
    obtain ⟨s, hs, hstops⟩ := exists_stops_of_project hns' htarget hn herror
    have hwritten := hstops.not_writtenIn hthird
    -- the symbol is no member, since the descriptors of members are in place
    rcases hs with hs | hs
    · exact absurd (hmembers s hs) hwritten
    · exact ⟨n, s, hn, (aside_iff_of_descriptorsIn h).1 hs, hstops, hwritten⟩

/-! ### A descriptor that stands aside -/

/-- Three namespaces. -/
def threeNamespaces : Namespaces where
  names := ["x", "y", "z"]
  two_le := by decide
  nonempty := by decide
  nodup := by decide

/-- A class with a field of its own type, whose descriptor is written in the second namespace. -/
def fieldInSecond : GroupedMappings :=
  .ofParts (some threeNamespaces)
    [(MappedClass.ofInfo (.ofNames (.row (.ofNames ["A", "a", "b"])))).addField
      ((Symbol.ofNames (.row (.ofNames ["f", "g", "h"]))).set
        (.namespacedDescriptor ⟨⟨1⟩, "La;"⟩))] []

/-- A class that has a descriptor itself, which is written in the second namespace. -/
def classInSecond : GroupedMappings :=
  .ofParts (some threeNamespaces)
    [.ofInfo ((Symbol.ofNames (.row (.ofNames ["A", "a", "b"]))).set
      (.namespacedDescriptor ⟨⟨1⟩, "I"⟩))] []

/-- The descriptor of the field is moved. -/
theorem fieldInSecond_moves : ∃ m', fieldInSecond.descriptorsIn "x" = .ok m' ∧
    (∀ s, m'.Holds s → s.WrittenIn ⟨0⟩) ∧
    ∀ other f, m'.project "x" other = .error f → ¬ f.IsThirdNamespace := by
  obtain ⟨m', hm'⟩ : ∃ m', fieldInSecond.descriptorsIn "x" = .ok m' :=
    Outcome.exists_eq_ok (by decide +kernel)
  obtain ⟨ns, target, hns, htarget, -, hall, hthird⟩ := descriptorsIn_moves hm'
  obtain rfl := Option.some.inj hns
  obtain rfl : target = ⟨0⟩ := Outcome.eq_of_eq_ok htarget (by decide)
  -- nothing but the field has a descriptor
  have haside : ∀ s, fieldInSecond.Aside s → s.WrittenIn ⟨0⟩ := by
    rintro s (⟨hc, h⟩ | ⟨⟨c, hc, hmember⟩, table, htable, -⟩ | ⟨hp, -⟩)
    · obtain rfl := List.mem_singleton.1 hc
      obtain rfl := Symbol.eq_of_holds rfl h
      exact fun d hd => nomatch hd
    · obtain rfl := List.mem_singleton.1 hc
      obtain rfl := List.mem_singleton.1 hmember
      cases htable
    · cases hp
  refine ⟨m', hm', hall.2 haside, fun other f herror hf => ?_⟩
  obtain ⟨n, s, -, hs, -, hwritten⟩ := hthird other f herror hf
  exact hwritten (haside s hs)

/-- The descriptor of the class stays where it is, and the projection from the namespace that
descriptors were moved to stops there. -/
theorem classInSecond_stays : ∃ m', classInSecond.descriptorsIn "x" = .ok m' ∧
    (¬ ∀ s, m'.Holds s → s.WrittenIn ⟨0⟩) ∧
    ∃ f, m'.project "x" "z" = .error f ∧ f.IsThirdNamespace := by
  have hmoved : classInSecond.descriptorsIn "x" = .ok classInSecond := by decide +kernel
  have hstops : classInSecond.project "x" "z" = .error (.of (.malformed
      (.thirdNamespace "I" (.row (.ofNames ["A", "a", "b"])) ⟨1⟩ ⟨0⟩ ⟨2⟩))) := by decide +kernel
  refine ⟨_, hmoved, fun hall => ?_, _, hstops, _, _, _, _, _, rfl⟩
  have hwritten := hall _ (.inr (.inClass (List.mem_singleton.2 rfl) (.self _))) ⟨⟨1⟩, "I"⟩ rfl
  exact absurd hwritten (by decide)

end GroupedMappings

end SymbolMap
