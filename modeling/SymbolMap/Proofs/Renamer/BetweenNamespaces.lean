import SymbolMap.Proofs.Renamer.OwnMembers
import SymbolMap.Proofs.Renamer.TranslationsAgree
import SymbolMap.Renamer.Building

/-!
# Renamers between two namespaces

A renamer between two namespaces is made in stages.  The descriptors of members are moved to the
source, the collection is projected, and the descriptors on the mapped side are found by the class
renames of the projection.  In the end a member has the descriptor it would have been moved to
directly, whatever namespace its own is written in (`between_renames`).

This holds of collections in which everything has a name in every namespace
(`GroupedMappings.FullyNamed`).  The class names in a descriptor must then be names of classes in
the namespace it is written in; a name that is no class at all must not be met as a class in one of
the other namespaces.
-/

namespace SymbolMap

theorem Namespaces.lt_of_find {ns : Namespaces} {name : String} {n : NamespaceId}
    (h : ns.find name = .ok n) : n.index < ns.size := by
  rw [find] at h
  split at h
  · rename_i i hi
    obtain rfl := Except.ok.inj h
    exact (List.findIdx?_eq_some_iff_getElem.1 hi).1
  · cases h

/-- The collection has no packages, and its classes and members have names in all namespaces.  Class
names do not repeat in a namespace, are not those of arrays and hold no `;`.  Each member has one
descriptor, which is written in one of the namespaces, and a class name in it is that of a class
there or of none anywhere. -/
structure GroupedMappings.FullyNamed (m : GroupedMappings) (ns : Namespaces) : Prop where
  namespaces : m.namespaces = some ns
  packages : m.packages = []
  classes : ∀ c ∈ m.classes, ∀ n : NamespaceId, n.index < ns.size →
    ∃ x, c.info.names.get? n = some x
  members : ∀ s, m.Declares s → ∀ n : NamespaceId, n.index < ns.size → ∃ x, s.names.get? n = some x
  distinct : ∀ n : NamespaceId, n.index < ns.size →
    (m.classes.filterMap fun c => c.info.names.get? n).Nodup
  plain : ∀ c ∈ m.classes, ∀ n : NamespaceId, n.index < ns.size →
    ∀ x, c.info.names.get? n = some x → Name.isArray x = false ∧ ';' ∉ x.toList
  unpaired : ∀ s, m.Declares s →
    s.tags.unmappedDescriptor = none ∧ s.tags.mappedDescriptor = none
  described : ∀ s, m.Declares s → ∃ d, s.tags.namespacedDescriptor = some d ∧
    d.writtenIn.index < ns.size ∧ Descriptor.check d.desc = .ok () ∧
    ∀ x, Descriptor.Mentions d.desc x → Name.isArray x = false ∧
      ((∃ c ∈ m.classes, c.info.names.get? d.writtenIn = some x) ∨
        ∀ c ∈ m.classes, ∀ n : NamespaceId, n.index < ns.size → c.info.names.get? n ≠ some x)

namespace Renamer

variable {m first paired : GroupedMappings} {ns : Namespaces} {source target : NamespaceId}
  {a b : String} {r : Renamer}

/-- The renamer is that between two namespaces of a fully named collection, with the collections it
is made of on the way. -/
structure IsBetween (r : Renamer) (m first paired : GroupedMappings) (ns : Namespaces)
    (source target : NamespaceId) : Prop where
  named : m.FullyNamed ns
  source_lt : source.index < ns.size
  target_lt : target.index < ns.size
  moved : List.Forall₂ (MappedClass.IsMoved m.classes source) m.classes first.classes
  projected : ∀ c ∈ first.classes, ∀ x, c.info.names.get? source = some x →
    ∃ c' ∈ paired.classes, c.IsProjected source target c'
  classes_iff : ∀ x y, r.classes.toMapped.classes.get? x = some y ↔ ∃ c ∈ first.classes,
    c.info.names.get? source = some x ∧ (c.info.names.get? target).getD x = y
  packages : ∀ x, r.classes.toMapped.packages.get? x = none
  represents : r.Represents paired

/-- What the stages of building a renamer between two namespaces give. -/
theorem exists_isBetween (h : m.FullyNamed ns) (hr : between m a b = .ok r) :
    ∃ source target first paired, ns.find a = .ok source ∧ ns.find b = .ok target ∧
      m.descriptorsIn a = .ok first ∧ r.IsBetween m first paired ns source target := by
  obtain ⟨paired, hpaired, hr⟩ := Outcome.bind_eq_ok_iff.1 hr
  obtain ⟨first, hfirst, hpaired⟩ := Outcome.bind_eq_ok_iff.1 hpaired
  obtain ⟨ns₁, source, hns₁, hsource, hns', hpackages, hmoved⟩ :=
    GroupedMappings.descriptorsIn_isMoved hfirst
  obtain rfl : ns = ns₁ := Option.some.inj (h.namespaces.symm.trans hns₁)
  obtain ⟨ns₂, -, target, -, hns₂, -, htarget, -⟩ := GroupedMappings.exists_of_project hpaired
  obtain rfl : ns = ns₂ := Option.some.inj (hns'.symm.trans hns₂)
  have hrepresents := represents_of_ofMappings hr
  obtain ⟨hclasses, hpackage⟩ :=
    ClassRenames.get?_of_project hns' hsource htarget hpaired hrepresents.classes
  refine ⟨source, target, first, paired, hsource, htarget, hfirst, h, Namespaces.lt_of_find hsource,
    Namespaces.lt_of_find htarget, hmoved,
    (GroupedMappings.project_isProjected hns' hsource htarget hpaired).1, hclasses, fun x => ?_,
    hrepresents⟩
  cases hentry : r.classes.toMapped.packages.get? x with
  | none => rfl
  | some y =>
    obtain ⟨p, hp, -⟩ := (hpackage x y).1 hentry
    rw [hpackages, h.packages] at hp
    cases hp

namespace IsBetween

variable (h : r.IsBetween m first paired ns source target)

include h

/-- A class is taken from its name in the source to its name in the target. -/
theorem className_of_class {c : MappedClass} (hc : c ∈ m.classes) {x y : String}
    (hx : c.info.names.get? source = some x) (hy : c.info.names.get? target = some y) :
    r.classes.className .toMapped x = .ok y := by
  obtain ⟨harray, -⟩ := h.named.plain c hc source h.source_lt x hx
  obtain ⟨c', hc', hclass⟩ := exists_right_of_forall₂ h.moved hc
  refine ClassRenames.className_of_takes harray (.ofClass ((h.classes_iff x y).2 ⟨c', hc', ?_⟩))
  rw [hclass.info, hx, hy]
  exact ⟨rfl, rfl⟩

/-- The name of no class in the source is kept. -/
theorem className_of_none {x : String} (harray : Name.isArray x = false)
    (hx : ∀ c ∈ m.classes, c.info.names.get? source ≠ some x) :
    r.classes.className .toMapped x = .ok x := by
  refine ClassRenames.className_of_takes harray (.kept ?_ fun package _ _ => h.packages package)
  cases hentry : (r.classes.renames .toMapped).classes.get? x with
  | none => rfl
  | some y =>
    obtain ⟨c', hc', hname, -⟩ := (h.classes_iff x y).1 hentry
    obtain ⟨c, hc, hclass⟩ := exists_left_of_forall₂ h.moved hc'
    exact absurd (hclass.info ▸ hname) (hx c hc)

/-- **Moving to the source and translating is moving to the target.** -/
theorem descriptor_eq {s : Symbol} (hs : m.Declares s) {d : NamespacedDescriptor}
    (hd : s.tags.namespacedDescriptor = some d) {desc desc' : String}
    (hdesc : d.MovesTo m.classes source desc) (hdesc' : d.MovesTo m.classes target desc') :
    r.classes.descriptor .toMapped desc = .ok desc' := by
  obtain ⟨d₀, hd₀, hrange, hcheck, hmentions⟩ := h.named.described s hs
  obtain rfl : d = d₀ := Option.some.inj (hd.symm.trans hd₀)
  obtain ⟨f, hf, hrename⟩ := hdesc.exists_namesBetween fun _ => hcheck
  obtain ⟨g, hg, hrename'⟩ := hdesc'.exists_namesBetween fun _ => hcheck
  rw [ClassRenames.descriptor, Outcome.within_eq_ok_iff]
  refine Descriptor.renameClasses_trans (fun x hx => hf.delimited (fun c hc y hy => ?_) hx)
    (fun x hx y z hy hz => ?_) hrename hrename'
  · exact (h.named.plain c hc source h.source_lt y hy).2
  · obtain rfl := Except.ok.inj hy
    obtain rfl := Except.ok.inj hz
    obtain ⟨harray, ⟨c, hc, hx⟩ | hnone⟩ := hmentions x hx
    · obtain ⟨y, hy⟩ := h.named.classes c hc source h.source_lt
      obtain ⟨z, hz⟩ := h.named.classes c hc target h.target_lt
      rw [hf.ofClass c hc x y hx hy, hg.ofClass c hc x z hx hz]
      exact h.className_of_class hc hy hz
    · have hunnamed : ∀ c ∈ m.classes, c.info.names.get? d.writtenIn ≠ some x := fun c hc =>
        hnone c hc d.writtenIn hrange
      rw [hf.kept x fun c hc hx => absurd hx (hunnamed c hc),
        hg.kept x fun c hc hx => absurd hx (hunnamed c hc)]
      exact h.className_of_none harray fun c hc => hnone c hc source h.source_lt

/-- A member is found under its name and its moved descriptor in the source. -/
theorem exists_member {i j : Nat} {kind : MemberKind} {c : MappedClass} {s : Symbol}
    (hc : m.classes[i]? = some c) (hs : (c.membersOf kind)[j]? = some s) {owner desc' : String}
    (howner : c.info.names.get? source = some owner) {d : NamespacedDescriptor}
    (hd : s.tags.namespacedDescriptor = some d) (hdesc' : d.MovesTo m.classes target desc') :
    ∃ name name' desc, s.names.get? source = some name ∧ s.names.get? target = some name' ∧
      first.descriptorAt i kind j = some ⟨source, desc⟩ ∧
      (Name.isInitializer name = false →
        r.member? owner ⟨kind, name, desc⟩ = .ok (some ⟨name', desc'⟩)) := by
  obtain ⟨c₁, hc₁, hclass⟩ := exists_getElem?_of_forall₂ h.moved hc
  obtain ⟨s₁, hs₁, hmember⟩ := exists_getElem?_of_forall₂ (hclass.members kind) hs
  obtain ⟨desc, hdesc, hmoves⟩ := hmember.descriptor d hd
  have hdeclares : m.Declares s := ⟨c, List.mem_of_getElem? hc,
    MappedClass.mem_members_of_membersOf (List.mem_of_getElem? hs)⟩
  obtain ⟨name, hname⟩ := h.named.members s hdeclares source h.source_lt
  obtain ⟨name', hname'⟩ := h.named.members s hdeclares target h.target_lt
  refine ⟨name, name', desc, hname, hname',
    GroupedMappings.descriptorAt_eq_some_iff.2 ⟨c₁, hc₁, s₁, hs₁, hdesc⟩, fun hinit => ?_⟩
  -- the moved class and the moved member have partners in the projection
  obtain ⟨c', hc', hprojected⟩ := h.projected c₁ (List.mem_of_getElem? hc₁) owner
    (hclass.info ▸ howner)
  obtain ⟨owner₀, howner₀, hnamed⟩ := hprojected.info.named
  obtain rfl : owner = owner₀ := by
    rw [hclass.info, howner] at howner₀
    exact Option.some.inj howner₀
  obtain ⟨s', hs', hsymbol⟩ := hprojected.members kind s₁ (List.mem_of_getElem? hs₁) name
    (hmember.names ▸ hname)
  obtain ⟨name₀, hname₀, hpair⟩ := hsymbol.named
  rw [hmember.names, hname] at hname₀
  obtain rfl := Option.some.inj hname₀
  rw [hmember.names, hname', Option.getD_some] at hpair
  -- its one descriptor is that of the unmapped side
  obtain ⟨hunmapped, hmapped⟩ := hsymbol.descriptors _ hdesc rfl
  rw [hmember.mapped, (h.named.unpaired s hdeclares).2] at hmapped
  have hdescs : memberDescriptors r.classes s'.tags = .ok (some desc, some desc') := by
    rw [memberDescriptors, hunmapped, hmapped]
    exact Outcome.bind_eq_ok_iff.2 ⟨desc', h.descriptor_eq hdeclares hd hmoves hdesc', rfl⟩
  obtain ⟨entry, hentry, hentry', -⟩ :=
    h.represents.exists_lookup hc' hnamed.1 hs' hpair hdescs
  exact member?_of_lookup hinit hentry hentry'

end IsBetween

/-- **Renamers between namespaces rename every member.**  Let a collection be fully named, and let
there be a renamer between two of its namespaces.  The descriptors of the collection can be moved to
either of them.  The renamer takes each class from its name in the source to its name in the target.
It takes each member that is not an initializer from its name and its descriptor in the source to
its name and its descriptor in the target. -/
theorem between_renames (h : m.FullyNamed ns) (hr : between m a b = .ok r) :
    ∃ source target first second, ns.find a = .ok source ∧ ns.find b = .ok target ∧
      m.descriptorsIn a = .ok first ∧ m.descriptorsIn b = .ok second ∧
      ∀ i c, m.classes[i]? = some c →
        ∃ owner owner', c.info.names.get? source = some owner ∧
          c.info.names.get? target = some owner' ∧
          r.classes.className .toMapped owner = .ok owner' ∧
          ∀ kind j s, (c.membersOf kind)[j]? = some s →
            ∃ name name' desc desc', s.names.get? source = some name ∧
              s.names.get? target = some name' ∧
              first.descriptorAt i kind j = some ⟨source, desc⟩ ∧
              second.descriptorAt i kind j = some ⟨target, desc'⟩ ∧
              (Name.isInitializer name = false →
                r.member? owner ⟨kind, name, desc⟩ = .ok (some ⟨name', desc'⟩)) := by
  obtain ⟨source, target, first, paired, hsource, htarget, hfirst, hbetween⟩ :=
    exists_isBetween h hr
  have hmembers : ∀ s, m.Declares s → ∀ d, s.tags.namespacedDescriptor = some d →
      d.writtenIn.index < ns.size ∧ Descriptor.check d.desc = .ok () := by
    intro s hs d hd
    obtain ⟨d₀, hd₀, hrange, hcheck, -⟩ := h.described s hs
    obtain rfl : d = d₀ := Option.some.inj (hd.symm.trans hd₀)
    exact ⟨hrange, hcheck⟩
  obtain ⟨second, hsecond⟩ :=
    GroupedMappings.exists_descriptorsIn h.namespaces htarget h.distinct hmembers
  obtain ⟨ns₂, target₂, hns₂, htarget₂, -, -, hmoved⟩ :=
    GroupedMappings.descriptorsIn_isMoved hsecond
  obtain rfl : ns = ns₂ := Option.some.inj (h.namespaces.symm.trans hns₂)
  obtain rfl := Outcome.eq_of_eq_ok htarget htarget₂
  refine ⟨source, target, first, second, hsource, htarget, hfirst, hsecond, fun i c hc => ?_⟩
  have hmem := List.mem_of_getElem? hc
  obtain ⟨owner, howner⟩ := h.classes c hmem source hbetween.source_lt
  obtain ⟨owner', howner'⟩ := h.classes c hmem target hbetween.target_lt
  refine ⟨owner, owner', howner, howner', hbetween.className_of_class hmem howner howner',
    fun kind j s hs => ?_⟩
  obtain ⟨d, hd, -⟩ := h.described s
    ⟨c, hmem, MappedClass.mem_members_of_membersOf (List.mem_of_getElem? hs)⟩
  obtain ⟨desc', hdesc', hmoves'⟩ := GroupedMappings.exists_descriptorAt hmoved
    (GroupedMappings.descriptorAt_eq_some_iff.2 ⟨c, hc, s, hs, hd⟩)
  obtain ⟨name, name', desc, hname, hname', hdesc, hfound⟩ :=
    hbetween.exists_member hc hs howner hd hmoves'
  exact ⟨name, name', desc, desc', hname, hname', hdesc, hdesc', hfound⟩

/-- A class with a method that takes the class and one that is not in the collection.  Its
descriptor is written in the second of three namespaces. -/
def methodInSecond : GroupedMappings :=
  .ofParts (some GroupedMappings.threeNamespaces)
    [(MappedClass.ofInfo (.ofNames (.row (.ofNames ["A", "a", "b"])))).addMethod
      ((Symbol.ofNames (.row (.ofNames ["m", "n", "o"]))).set
        (.namespacedDescriptor ⟨⟨1⟩, "(La;Lu;)V"⟩))] []

theorem fullyNamed_methodInSecond : methodInSecond.FullyNamed GroupedMappings.threeNamespaces := by
  have hmember : ∀ s, methodInSecond.Declares s → ∃ c ∈ methodInSecond.classes, s ∈ c.methods := by
    rintro s ⟨c, hc, hs⟩
    obtain rfl := List.mem_singleton.1 hc
    exact ⟨_, hc, hs⟩
  have hclasses : ∀ c ∈ methodInSecond.classes, ∀ i < 3,
      (c.info.names.get? ⟨i⟩).isSome = true ∧ c.info.names.get? ⟨i⟩ ≠ some "u" ∧
      ∀ x, c.info.names.get? ⟨i⟩ = some x → Name.isArray x = false ∧ ';' ∉ x.toList := by
    decide +kernel
  have hmethods : ∀ c ∈ methodInSecond.classes, ∀ s ∈ c.methods,
      (∀ i < 3, (s.names.get? ⟨i⟩).isSome = true) ∧ s.tags.unmappedDescriptor = none ∧
      s.tags.mappedDescriptor = none ∧
      s.tags.namespacedDescriptor = some ⟨⟨1⟩, "(La;Lu;)V"⟩ := by
    decide +kernel
  have hdistinct : ∀ i < 3,
      (methodInSecond.classes.filterMap fun c => c.info.names.get? ⟨i⟩).Nodup := by
    decide +kernel
  refine ⟨rfl, rfl, fun c hc n hn => ?_, fun s hs n hn => ?_, fun n hn => hdistinct n.index hn,
    fun c hc n hn => (hclasses c hc n.index hn).2.2, fun s hs => ?_, fun s hs => ?_⟩
  · exact Option.isSome_iff_exists.1 (hclasses c hc n.index hn).1
  · obtain ⟨c, hc, hs⟩ := hmember s hs
    exact Option.isSome_iff_exists.1 ((hmethods c hc s hs).1 n.index hn)
  · obtain ⟨c, hc, hs⟩ := hmember s hs
    exact ⟨(hmethods c hc s hs).2.1, (hmethods c hc s hs).2.2.1⟩
  · obtain ⟨c, hc, hs⟩ := hmember s hs
    have hread : Descriptor.classNames "(La;Lu;)V" = .ok ["a", "u"] := by decide +kernel
    refine ⟨_, (hmethods c hc s hs).2.2.2, by decide, Descriptor.check_eq_ok_iff.2 ⟨_, hread⟩,
      fun x hx => ?_⟩
    rcases List.mem_pair.1 ((Descriptor.mentions_iff hread).1 hx) with rfl | rfl
    · exact ⟨by decide, .inl ⟨_, List.mem_singleton.2 rfl, rfl⟩⟩
    · exact ⟨by decide, .inr fun c hc n hn => (hclasses c hc n.index hn).2.1⟩

/-- The renamer from the first to the last namespace takes the class and its method there. -/
theorem methodInSecond_renamed : ∃ r, between methodInSecond "x" "z" = .ok r ∧
    r.classes.className .toMapped "A" = .ok "b" ∧
    r.member? "A" ⟨.method, "m", "(LA;Lu;)V"⟩ = .ok (some ⟨"o", "(Lb;Lu;)V"⟩) := by
  obtain ⟨r, hr⟩ : ∃ r, between methodInSecond "x" "z" = .ok r :=
    Outcome.exists_eq_ok (by decide +kernel)
  obtain ⟨source, target, first, second, hsource, htarget, hfirst, hsecond, hrenamed⟩ :=
    between_renames fullyNamed_methodInSecond hr
  obtain rfl := Outcome.eq_of_eq_ok hsource (b := ⟨0⟩) (by decide)
  obtain rfl := Outcome.eq_of_eq_ok htarget (b := ⟨2⟩) (by decide)
  have hmoved : (methodInSecond.descriptorsIn "x" >>= fun first =>
      pure (first.descriptorAt 0 .method 0)) = .ok (some ⟨⟨0⟩, "(LA;Lu;)V"⟩) := by decide +kernel
  have hmoved' : (methodInSecond.descriptorsIn "z" >>= fun second =>
      pure (second.descriptorAt 0 .method 0)) = .ok (some ⟨⟨2⟩, "(Lb;Lu;)V"⟩) := by decide +kernel
  obtain ⟨owner, owner', howner, howner', hclass, hmembers⟩ := hrenamed 0 _ rfl
  obtain rfl : "A" = owner := Option.some.inj howner
  obtain rfl : "b" = owner' := Option.some.inj howner'
  obtain ⟨name, name', desc, desc', hname, hname', hdesc, hdesc', hfound⟩ :=
    hmembers .method 0 _ rfl
  obtain rfl : "m" = name := Option.some.inj hname
  obtain rfl : "o" = name' := Option.some.inj hname'
  rw [hfirst, Outcome.ok_bind, hdesc] at hmoved
  rw [hsecond, Outcome.ok_bind, hdesc'] at hmoved'
  obtain rfl : desc = "(LA;Lu;)V" := by cases hmoved; rfl
  obtain rfl : desc' = "(Lb;Lu;)V" := by cases hmoved'; rfl
  exact ⟨r, hr, hclass, hfound (by decide)⟩

end Renamer

end SymbolMap
