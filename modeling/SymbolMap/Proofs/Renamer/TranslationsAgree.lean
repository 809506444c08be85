import SymbolMap.Proofs.Descriptor.Shape
import SymbolMap.Proofs.Renamer.MovedMembers
import SymbolMap.Proofs.Renamer.ProjectedMembers
import SymbolMap.Proofs.Renamer.Translation

/-!
# Two ways from one namespace to another

There are two ways to take a descriptor from one namespace of a collection to another.  It can be
moved, which replaces the class names in it by those of the same classes.  Or the collection is
projected to the two namespaces, and the descriptor is translated by the class renames of the
projection.

The two ways agree on the name of a class and on a name that nothing changes
(`className_of_namesBetween`).  They differ in two points.  A move leaves packages alone, while a
translation renames them; and a move does not read a descriptor that is in place, while a
translation does.  Apart from that they agree on whole descriptors (`descriptor_eq_moved`).
-/

namespace SymbolMap

/-- The class name is that of a class in the first namespace, or it does not lie in a package that
has another name in the second. -/
def GroupedMappings.KeepsPackage (m : GroupedMappings) (source target : NamespaceId) (x : String) :
    Prop :=
  (∃ c ∈ m.classes, c.info.names.get? source = some x) ∨
    ∀ package simple, Name.splitPackage x = (some package, simple) →
      ∀ p ∈ m.packages, p.names.get? source = some package →
        (p.names.get? target).getD package = package

/-- A name in a namespace has a character. -/
theorem SymbolNames.ne_nil_of_get? {names : SymbolNames} {n : NamespaceId} {x : String}
    (h : names.get? n = some x) : x.toList ≠ [] := by
  cases names with
  | paired unmapped mapped => cases h
  | row r =>
    intro hnil
    exact NameRow.ne_empty_of_get? h (String.toList_eq_nil_iff.1 hnil)

variable {ns : Namespaces} {source target : NamespaceId} {a b : String}

/-- A name in a descriptor is not empty and holds no `;` in another namespace either, if that is so
for the names of classes there. -/
theorem NamesBetween.delimited {classes : List MappedClass} {f : String → String}
    (hf : NamesBetween classes source target f)
    (hnames : ∀ c ∈ classes, ∀ x, c.info.names.get? target = some x → ';' ∉ x.toList)
    {desc x : String} (hx : Descriptor.Mentions desc x) :
    ∀ y, (pure (f x) : Outcome String) = .ok y → y.toList ≠ [] ∧ ';' ∉ y.toList := by
  intro y hy
  obtain rfl := Except.ok.inj hy
  rcases hf.kept_or_class x with hsame | ⟨c, hc, -, hname⟩
  · rw [hsame]
    exact Descriptor.delimited_of_mentions hx
  · exact ⟨SymbolNames.ne_nil_of_get? hname, hnames c hc _ hname⟩

/-- A descriptor that is moved to a namespace can be read there, if the names of classes in the
namespace hold no `;` and it could be read where it is not changed. -/
theorem NamespacedDescriptor.MovesTo.check {classes : List MappedClass} {d : NamespacedDescriptor}
    {desc : String} (h : d.MovesTo classes target desc)
    (hnames : ∀ c ∈ classes, ∀ x, c.info.names.get? target = some x → ';' ∉ x.toList)
    (hcheck : d.writtenIn = target → Descriptor.check d.desc = .ok ()) :
    Descriptor.check desc = .ok () := by
  obtain ⟨f, hf, hrename⟩ := h.exists_namesBetween hcheck
  exact (Descriptor.sameShape_of_renameClasses (fun x => hf.delimited hnames) hrename).check.2

namespace ClassRenames

variable {m paired : GroupedMappings} {t : ClassRenames} {x : String}

/-- **A class name is translated to its name in the other namespace**, if it keeps its package. -/
theorem className_of_namesBetween (hns : m.namespaces = some ns)
    (hsource : ns.find a = .ok source) (htarget : ns.find b = .ok target)
    (hpaired : m.project a b = .ok paired) (ht : ofMappings paired = .ok t) {f : String → String}
    (hf : NamesBetween m.classes source target f) (harray : Name.isArray x = false)
    (hkeeps : m.KeepsPackage source target x) : t.className .toMapped x = .ok (f x) := by
  obtain ⟨hclasses, hpackages⟩ := get?_of_project hns hsource htarget hpaired ht
  obtain ⟨y, htakes⟩ : ∃ y, t.toMapped.Takes x y := ⟨_, t.toMapped.takes_lookup x⟩
  suffices heq : y = f x from className_of_takes harray (heq ▸ htakes)
  rcases hf.kept_or_class x with hsame | ⟨c, hc, hx, hy⟩
  · rw [hsame]
    cases htakes with
    | kept => rfl
    | ofClass hentry =>
      obtain ⟨c, hc, hx, rfl⟩ := (hclasses x _).1 hentry
      cases hy : c.info.names.get? target with
      | none => rfl
      | some y => exact (hf.ofClass c hc x y hx hy).symm.trans hsame
    | @ofPackage package simple package' hnone hsplit hentry =>
      -- the package has the same name in the two namespaces
      obtain ⟨p, hp, hpackage, rfl⟩ := (hpackages package _).1 hentry
      rcases hkeeps with ⟨c, hc, hx⟩ | hkept
      · rw [(hclasses x _).2 ⟨c, hc, hx, rfl⟩] at hnone
        cases hnone
      · rw [hkept package simple hsplit p hp hpackage]
        exact Name.splitPackage_join hsplit
  · exact htakes.unique (.ofClass ((hclasses x _).2 ⟨c, hc, hx, by rw [hy]; rfl⟩))

/-- **Moving and translating agree.**  Let the descriptors of a collection be moved to a namespace
and from there to another, and let the collection between be projected to the two, where no class
has a name with a `;` in the first.  The descriptor of a member is then translated by the class
renames of the projection to what it was moved to, if no class name in it is that of an array and
each of them keeps its package.  Where the two namespaces are the same and the descriptor was
written there from the start, it must also be one that can be read. -/
theorem descriptor_eq_moved {first second : GroupedMappings} (hns : m.namespaces = some ns)
    (hsource : ns.find a = .ok source) (htarget : ns.find b = .ok target)
    (hnames : ∀ c ∈ m.classes, ∀ x, c.info.names.get? source = some x → ';' ∉ x.toList)
    (hfirst : m.descriptorsIn a = .ok first) (hsecond : first.descriptorsIn b = .ok second)
    (hpaired : first.project a b = .ok paired) (ht : ofMappings paired = .ok t) :
    ∀ i kind j d, m.descriptorAt i kind j = some d →
      ∃ desc desc', first.descriptorAt i kind j = some ⟨source, desc⟩ ∧
        second.descriptorAt i kind j = some ⟨target, desc'⟩ ∧
        ((∀ x, Descriptor.Mentions desc x → Name.isArray x = false) →
          (∀ x, Descriptor.Mentions desc x → m.KeepsPackage source target x) →
          (source = target → d.writtenIn = source → Descriptor.check d.desc = .ok ()) →
          t.descriptor .toMapped desc = .ok desc') := by
  intro i kind j d hd
  obtain ⟨ns₁, source₁, hns₁, hsource₁, hns', hpackages, hmoved⟩ :=
    GroupedMappings.descriptorsIn_isMoved hfirst
  obtain rfl : ns = ns₁ := Option.some.inj (hns.symm.trans hns₁)
  obtain rfl := Outcome.eq_of_eq_ok hsource hsource₁
  obtain ⟨ns₂, target₂, hns₂, htarget₂, -, -, hmoved'⟩ :=
    GroupedMappings.descriptorsIn_isMoved hsecond
  obtain rfl : ns = ns₂ := Option.some.inj (hns'.symm.trans hns₂)
  obtain rfl := Outcome.eq_of_eq_ok htarget htarget₂
  obtain ⟨desc, hdesc, hmoves⟩ := GroupedMappings.exists_descriptorAt hmoved hd
  obtain ⟨desc', hdesc', hmoves'⟩ := GroupedMappings.exists_descriptorAt hmoved' hdesc
  refine ⟨desc, desc', hdesc, hdesc', fun harray hkeeps hcheck => ?_⟩
  -- the classes between have the names the classes had
  have hkeeps' : ∀ x, Descriptor.Mentions desc x → first.KeepsPackage source target x := by
    intro x hx
    rw [GroupedMappings.KeepsPackage, hpackages]
    refine (hkeeps x hx).imp_left ?_
    rintro ⟨c, hc, hname⟩
    obtain ⟨c', hc', hclass⟩ := exists_right_of_forall₂ hmoved hc
    exact ⟨c', hc', hclass.info ▸ hname⟩
  obtain ⟨f, hf, hrename⟩ := hmoves'.exists_namesBetween fun hsame =>
    hmoves.check hnames (hcheck hsame)
  rw [descriptor, Outcome.within_eq_ok_iff]
  refine Descriptor.renameClasses_of_mentions (fun x hx y hy => ?_) hrename
  rw [className_of_namesBetween hns' hsource htarget hpaired ht hf (harray x hx) (hkeeps' x hx)]
  exact hy

/-! ### Descriptors on which the two ways agree, and on which they do not -/

/-- A class with a method whose descriptor is written in a namespace, and a package. -/
def methodAndPackage (d : NamespacedDescriptor) (packages : List String) : GroupedMappings :=
  .ofParts (some GroupedMappings.threeNamespaces)
    [(MappedClass.ofInfo (.ofNames (.row (.ofNames ["A", "a", "b"])))).addMethod
      ((Symbol.ofNames (.row (.ofNames ["m", "n", "o"]))).set (.namespacedDescriptor d))]
    [.ofNames (.row (.ofNames packages))]

/-- A descriptor of the second namespace is moved to the first and from there to the last, where the
package has the same name, and is translated from the first to the last. -/
theorem methodAndPackage_agrees : ∃ first second paired t,
    (methodAndPackage ⟨⟨1⟩, "(La;Lp/C;)V"⟩ ["p", "q", "p"]).descriptorsIn "x" = .ok first ∧
    first.descriptorsIn "z" = .ok second ∧ first.project "x" "z" = .ok paired ∧
    ofMappings paired = .ok t ∧
    first.descriptorAt 0 .method 0 = some ⟨⟨0⟩, "(LA;Lp/C;)V"⟩ ∧
    second.descriptorAt 0 .method 0 = some ⟨⟨2⟩, "(Lb;Lp/C;)V"⟩ ∧
    t.descriptor .toMapped "(LA;Lp/C;)V" = .ok "(Lb;Lp/C;)V" := by
  have hrun : (do
      let first ← (methodAndPackage ⟨⟨1⟩, "(La;Lp/C;)V"⟩ ["p", "q", "p"]).descriptorsIn "x"
      let second ← first.descriptorsIn "z"
      let paired ← first.project "x" "z"
      let _ ← ofMappings paired
      return (first.descriptorAt 0 .method 0, second.descriptorAt 0 .method 0)) =
      .ok (some ⟨⟨0⟩, "(LA;Lp/C;)V"⟩, some ⟨⟨2⟩, "(Lb;Lp/C;)V"⟩) := by
    decide +kernel
  obtain ⟨first, hfirst, hrun⟩ := Outcome.bind_eq_ok_iff.1 hrun
  obtain ⟨second, hsecond, hrun⟩ := Outcome.bind_eq_ok_iff.1 hrun
  obtain ⟨paired, hpaired, hrun⟩ := Outcome.bind_eq_ok_iff.1 hrun
  obtain ⟨t, ht, hrun⟩ := Outcome.bind_eq_ok_iff.1 hrun
  obtain ⟨hdesc, hdesc'⟩ := Prod.mk.inj (Except.ok.inj hrun)
  have hsource : GroupedMappings.threeNamespaces.find "x" = .ok ⟨0⟩ := by decide
  have htarget : GroupedMappings.threeNamespaces.find "z" = .ok ⟨2⟩ := by decide
  refine ⟨first, second, paired, t, hfirst, hsecond, hpaired, ht, hdesc, hdesc', ?_⟩
  obtain ⟨desc, desc', hmoved, hmoved', htranslated⟩ := descriptor_eq_moved rfl hsource htarget
    (by decide +kernel) hfirst hsecond hpaired ht 0 .method 0 ⟨⟨1⟩, "(La;Lp/C;)V"⟩ rfl
  cases Option.some.inj (hdesc.symm.trans hmoved)
  cases Option.some.inj (hdesc'.symm.trans hmoved')
  have hread : Descriptor.classNames "(LA;Lp/C;)V" = .ok ["A", "p/C"] := by decide +kernel
  simp only [Descriptor.mentions_iff hread] at htranslated
  refine htranslated (by decide) (fun x hx => ?_) (fun hsame => absurd hsame (by decide))
  rcases List.mem_pair.1 hx with rfl | rfl
  · exact .inl ⟨_, List.mem_singleton.2 rfl, rfl⟩
  · refine .inr fun package simple hsplit p hp hname => ?_
    obtain rfl := List.mem_singleton.1 hp
    obtain rfl : "p" = package := Option.some.inj hname
    rfl

/-- Collections with two of their namespaces and a descriptor in the first of these: a class in a
package that has another name in the second one, and a text that is no descriptor. -/
def disagreeing : List (GroupedMappings × String × String × String) :=
  [(methodAndPackage ⟨⟨0⟩, "(Lp/C;)V"⟩ ["p", "q", "p"], "x", "y", "(Lp/C;)V"),
    (methodAndPackage ⟨⟨0⟩, "Q"⟩ ["p", "q", "p"], "x", "x", "Q")]

/-- The descriptor is moved to itself but not translated to itself. -/
theorem disagreeing_differ : disagreeing.Forall fun e =>
    (∀ c ∈ e.1.classes, c.info.names = .row (.ofNames ["A", "a", "b"])) ∧
    (∀ x, Descriptor.Mentions e.2.2.2 x → Name.isArray x = false) ∧
    ∃ first second paired t, e.1.descriptorsIn e.2.1 = .ok first ∧
      first.descriptorsIn e.2.2.1 = .ok second ∧ first.project e.2.1 e.2.2.1 = .ok paired ∧
      ofMappings paired = .ok t ∧
      (first.descriptorAt 0 .method 0).map NamespacedDescriptor.desc = some e.2.2.2 ∧
      (second.descriptorAt 0 .method 0).map NamespacedDescriptor.desc = some e.2.2.2 ∧
      t.descriptor .toMapped e.2.2.2 ≠ .ok e.2.2.2 := by
  have hclasses : ∀ e ∈ disagreeing, ∀ c ∈ e.1.classes,
      c.info.names = .row (.ofNames ["A", "a", "b"]) := by decide +kernel
  have harray : ∀ e ∈ disagreeing,
      ∀ x ∈ (Descriptor.classNames e.2.2.2).toOption.getD [], Name.isArray x = false := by
    decide +kernel
  have hrun : ∀ e ∈ disagreeing, (do
      let first ← e.1.descriptorsIn e.2.1
      let second ← first.descriptorsIn e.2.2.1
      let paired ← first.project e.2.1 e.2.2.1
      let t ← ofMappings paired
      return ((first.descriptorAt 0 .method 0).map NamespacedDescriptor.desc,
        (second.descriptorAt 0 .method 0).map NamespacedDescriptor.desc,
        decide (t.descriptor .toMapped e.2.2.2 = Except.ok e.2.2.2))) =
      .ok (some e.2.2.2, some e.2.2.2, false) := by decide +kernel
  refine List.forall_iff_forall_mem.2 fun e he => ⟨hclasses e he, ?_, ?_⟩
  · rintro x ⟨names, hnames, hx⟩
    exact harray e he x (by rwa [hnames])
  · obtain ⟨first, hfirst, hrun⟩ := Outcome.bind_eq_ok_iff.1 (hrun e he)
    obtain ⟨second, hsecond, hrun⟩ := Outcome.bind_eq_ok_iff.1 hrun
    obtain ⟨paired, hpaired, hrun⟩ := Outcome.bind_eq_ok_iff.1 hrun
    obtain ⟨t, ht, hrun⟩ := Outcome.bind_eq_ok_iff.1 hrun
    obtain ⟨hdesc, hrun⟩ := Prod.mk.inj (Except.ok.inj hrun)
    obtain ⟨hdesc', hdiffer⟩ := Prod.mk.inj hrun
    exact ⟨first, second, paired, t, hfirst, hsecond, hpaired, ht, hdesc, hdesc',
      of_decide_eq_false hdiffer⟩

end ClassRenames

end SymbolMap
