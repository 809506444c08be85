import SymbolMap.Proofs.Program.Acyclic

/-!
# The super types of a renamed program

A renamed program has the renamed classes in order, with the access of each member, and for each
class the new names of the super types (`superTypes_of_declaredClass`).  The platform is left out
and repetitions are dropped after renaming, where before they were judged by the old names; this
makes no difference if a class of the platform stays one and no other becomes one
(`Renamer.KeepsPlatform`).

So a renamed program extends along the image of the relation of the program (`extends_renamed`).  A
loop has an image, but the image can have loops of its own: two super types that get one name join
chains that had nothing to do with each other.  If all names that classes mention stay apart, chains
can be followed back (`exists_chain_of_map`), and the renamed program has loops exactly if the
program has.

The names of the classes must stay apart in any case, since a program has no class twice.
-/

namespace SymbolMap

open Relation

/-! ## Images of relations and lists -/

section

variable {α β : Type} {f : α → β}

/-- A chain in the image is the image of a chain, if the map is injective where the relation is. -/
theorem exists_chain_of_map {R : α → α → Prop} {N : α → Prop} (hfield : ∀ x y, R x y → N x ∧ N y)
    (hinj : ∀ x y, N x → N y → f x = f y → x = y) {u v : β}
    (h : TransGen (Relation.Map R f f) u v) :
    ∃ x y, TransGen R x y ∧ N x ∧ N y ∧ f x = u ∧ f y = v := by
  induction h with
  | single hstep =>
    obtain ⟨x, y, hxy, rfl, rfl⟩ := hstep
    obtain ⟨hx, hy⟩ := hfield x y hxy
    exact ⟨x, y, .single hxy, hx, hy, rfl, rfl⟩
  | tail _ hstep ih =>
    obtain ⟨x, y, hchain, hx, hy, rfl, hmid⟩ := ih
    obtain ⟨y', z, hyz, rfl, rfl⟩ := hstep
    obtain ⟨hy', hz⟩ := hfield y' z hyz
    -- the step goes on from where the chain ends, and not only from something with its image
    obtain rfl := hinj y y' hy hy' hmid
    exact ⟨x, z, hchain.tail hyz, hx, hz, rfl, rfl⟩

/-- The image has loops exactly if the relation has. -/
theorem exists_loop_map_iff {R : α → α → Prop} {N : α → Prop} (hfield : ∀ x y, R x y → N x ∧ N y)
    (hinj : ∀ x y, N x → N y → f x = f y → x = y) :
    (∃ u, TransGen (Relation.Map R f f) u u) ↔ ∃ x, TransGen R x x := by
  constructor
  · rintro ⟨u, hloop⟩
    obtain ⟨x, y, hchain, hx, hy, hxu, hyu⟩ := exists_chain_of_map hfield hinj hloop
    obtain rfl := hinj x y hx hy (hxu.trans hyu.symm)
    exact ⟨x, hchain⟩
  · rintro ⟨x, hloop⟩
    exact ⟨f x, hloop.lift f fun a b hab => ⟨a, b, hab, rfl, rfl⟩⟩

/-- Among the images of different elements, a repeated one is that of two elements. -/
theorem duplicate_map_iff {xs : List α} (hxs : xs.Nodup) {y : β} :
    List.Duplicate y (xs.map f) ↔ ∃ a ∈ xs, ∃ b ∈ xs, a ≠ b ∧ f a = y ∧ f b = y := by
  induction xs with
  | nil => simp [List.not_duplicate_nil]
  | cons x xs ih =>
    obtain ⟨hx, hxs⟩ := List.nodup_cons.1 hxs
    rw [List.map_cons, List.duplicate_cons_iff, ih hxs, List.mem_map]
    constructor
    · rintro (⟨hfx, b, hb, hfb⟩ | ⟨a, ha, b, hb, hab⟩)
      · exact ⟨x, List.mem_cons_self, b, List.mem_cons_of_mem x hb, fun h => hx (h ▸ hb), hfx, hfb⟩
      · exact ⟨a, List.mem_cons_of_mem x ha, b, List.mem_cons_of_mem x hb, hab⟩
    · rintro ⟨a, ha, b, hb, hne, hfa, hfb⟩
      rcases List.mem_cons.1 ha with rfl | ha'
      · rcases List.mem_cons.1 hb with rfl | hb'
        · exact absurd rfl hne
        · exact .inl ⟨hfa, b, hb', hfb⟩
      · rcases List.mem_cons.1 hb with rfl | hb'
        · exact .inl ⟨hfb, a, ha', hfa⟩
        · exact .inr ⟨a, ha', b, hb', hne, hfa, hfb⟩

end

/-! ## Renamed classes -/

namespace DeclaredClass

/-- The super class and the interfaces as they are declared. -/
def parents (c : DeclaredClass) : List String :=
  c.superClass.toList ++ c.interfaces

/-- The names of the class and of its parents. -/
def mentioned (c : DeclaredClass) : List String :=
  c.name :: c.parents

theorem mem_parents_of_superTypes {c : DeclaredClass} {s : String} (h : s ∈ c.superTypes) :
    s ∈ c.parents := by
  rw [superTypes, mem_distinct] at h
  exact List.mem_of_mem_filter h

end DeclaredClass

namespace Renamer

variable {r : Renamer} {c c' : DeclaredClass} {cs cs' : List DeclaredClass} {p p' : Program}

/-- A parent is of the platform under its new name exactly if it is under the old one. -/
def KeepsPlatform (r : Renamer) (cs : List DeclaredClass) : Prop :=
  ∀ c ∈ cs, ∀ s ∈ c.parents, ∀ s', r.classes.className .toMapped s = .ok s' →
    Name.isPlatform s' = Name.isPlatform s

/-- Different names of classes and parents stay different. -/
def KeepsApart (r : Renamer) (cs : List DeclaredClass) : Prop :=
  ∀ x ∈ cs.flatMap DeclaredClass.mentioned, ∀ y ∈ cs.flatMap DeclaredClass.mentioned, ∀ z,
    r.classes.className .toMapped x = .ok z → r.classes.className .toMapped y = .ok z → x = y

/-- Two of the classes get the name. -/
def Merges (r : Renamer) (cs : List DeclaredClass) (x : String) : Prop :=
  ∃ c ∈ cs, ∃ d ∈ cs, c.name ≠ d.name ∧ r.classes.className .toMapped c.name = .ok x ∧
    r.classes.className .toMapped d.name = .ok x

/-- The new name of a class, if there is one. -/
def newName (r : Renamer) (x : String) : String :=
  (r.classes.className .toMapped x).toOption.getD x

theorem newName_of_className {x x' : String} (h : r.classes.className .toMapped x = .ok x') :
    r.newName x = x' := by
  rw [newName, h]
  rfl

theorem name_of_declaredClass (h : r.declaredClass c = .ok c') : c'.name = r.newName c.name :=
  (newName_of_className (declaredClass_eq_ok_iff.1 h).2.1).symm

theorem forall₂_parents (h : r.declaredClass c = .ok c') :
    List.Forall₂ (fun s s' => r.classes.className .toMapped s = .ok s') c.parents c'.parents := by
  obtain ⟨-, -, hsuper, hinterfaces⟩ := declaredClass_eq_ok_iff.1 h
  exact List.rel_append (forall₂_toList hsuper) hinterfaces

/-- Everything that a renamed class mentions has a new name. -/
theorem className_of_mentioned (h : r.declaredClass c = .ok c') {x : String}
    (hx : x ∈ c.mentioned) : r.classes.className .toMapped x = .ok (r.newName x) := by
  obtain ⟨x', hx'⟩ : ∃ x', r.classes.className .toMapped x = .ok x' := by
    rcases List.mem_cons.1 hx with rfl | hx
    · obtain ⟨-, hname, -⟩ := declaredClass_eq_ok_iff.1 h
      exact ⟨_, hname⟩
    · obtain ⟨x', -, hx'⟩ := exists_right_of_forall₂ (forall₂_parents h) hx
      exact ⟨x', hx'⟩
  rw [newName_of_className hx', hx']

theorem access_of_declaredClass (h : r.declaredClass c = .ok c') (kind : MemberKind) :
    (c'.members kind).map DeclaredMember.access = (c.members kind).map DeclaredMember.access := by
  obtain ⟨hmembers, -⟩ := declaredClass_eq_ok_iff.1 h
  refine (map_eq_map_of_forall₂ (hmembers kind) fun d d' hd => ?_).symm
  exact (declaredMember_eq_ok_iff.1 hd).2.symm

/-- **The super types of a renamed class** are the new names of those of the class, each once. -/
theorem superTypes_of_declaredClass (h : r.declaredClass c = .ok c')
    (hplatform : ∀ s ∈ c.parents, Name.isPlatform (r.newName s) = Name.isPlatform s) :
    c'.superTypes = distinct (c.superTypes.map r.newName) := by
  have hparents : c'.parents = c.parents.map r.newName := by
    have hsame := map_eq_map_of_forall₂ (forall₂_parents h) fun s s' => newName_of_className
    rw [hsame, List.map_id']
  have hfilter : (c.parents.filter fun s => !Name.isPlatform (r.newName s)) =
      c.parents.filter fun s => !Name.isPlatform s :=
    List.filter_congr fun s hs => by rw [hplatform s hs]
  calc c'.superTypes
      = distinct ((c.parents.map r.newName).filter fun s => !Name.isPlatform s) := by
        rw [← hparents]
        rfl
    _ = distinct ((c.parents.filter fun s => !Name.isPlatform (r.newName s)).map r.newName) := by
        rw [List.filter_map]
        rfl
    _ = distinct ((distinct (c.parents.filter fun s => !Name.isPlatform s)).map r.newName) := by
        rw [hfilter, distinct_map_distinct]

/-! ## Renamed programs -/

theorem program_eq (hp : Program.ofClasses cs = .ok p)
    (hclasses : List.Forall₂ (fun c c' => r.declaredClass c = .ok c') cs cs') :
    r.program p = Program.ofClasses cs' := by
  rw [program, Program.values_of_ofClasses hp, Outcome.mapM_eq_ok_iff.2 hclasses]
  rfl

theorem KeepsPlatform.newName (h : r.KeepsPlatform cs) (hc : c ∈ cs)
    (hrenamed : r.declaredClass c = .ok c') {s : String} (hs : s ∈ c.parents) :
    Name.isPlatform (r.newName s) = Name.isPlatform s :=
  h c hc s hs _ (className_of_mentioned hrenamed (List.mem_cons_of_mem _ hs))

/-- **A renamed program extends along the image of what the program extends.** -/
theorem extends_renamed (hp : Program.ofClasses cs = .ok p) (hp' : Program.ofClasses cs' = .ok p')
    (hclasses : List.Forall₂ (fun c c' => r.declaredClass c = .ok c') cs cs')
    (hplatform : r.KeepsPlatform cs) :
    p'.Extends = Relation.Map p.Extends r.newName r.newName := by
  have hsuper : ∀ {c c'}, c ∈ cs → r.declaredClass c = .ok c' →
      c'.superTypes = distinct (c.superTypes.map r.newName) := fun hc h =>
    superTypes_of_declaredClass h fun s hs => hplatform.newName hc h hs
  funext x' s'
  simp only [Relation.Map, Program.extends_iff hp, Program.extends_iff hp',
    ← DeclaredClass.mem_superTypes, eq_iff_iff]
  constructor
  · rintro ⟨c', hc', rfl, hs'⟩
    obtain ⟨c, hc, hrenamed⟩ := exists_left_of_forall₂ hclasses hc'
    rw [hsuper hc hrenamed, mem_distinct, List.mem_map] at hs'
    obtain ⟨s, hs, rfl⟩ := hs'
    exact ⟨c.name, s, ⟨c, hc, rfl, hs⟩, (name_of_declaredClass hrenamed).symm, rfl⟩
  · rintro ⟨x, s, ⟨c, hc, rfl, hs⟩, rfl, rfl⟩
    obtain ⟨c', hc', hrenamed⟩ := exists_right_of_forall₂ hclasses hc
    refine ⟨c', hc', name_of_declaredClass hrenamed, ?_⟩
    rw [hsuper hc hrenamed, mem_distinct]
    exact List.mem_map_of_mem hs

/-- Loops are neither lost nor made, if names stay apart. -/
theorem checkAcyclic_renamed (hp : Program.ofClasses cs = .ok p)
    (hp' : Program.ofClasses cs' = .ok p')
    (hclasses : List.Forall₂ (fun c c' => r.declaredClass c = .ok c') cs cs')
    (hplatform : r.KeepsPlatform cs) (hapart : r.KeepsApart cs) :
    p'.checkAcyclic = .ok () ↔ p.checkAcyclic = .ok () := by
  rw [Program.checkAcyclic_eq_ok_iff_no_loop, Program.checkAcyclic_eq_ok_iff_no_loop,
    extends_renamed hp hp' hclasses hplatform]
  refine not_congr (exists_loop_map_iff (N := (· ∈ cs.flatMap DeclaredClass.mentioned)) ?_ ?_)
  · intro x s hextends
    obtain ⟨c, hc, rfl, hs⟩ := (Program.extends_iff hp).1 hextends
    have hparent := DeclaredClass.mem_parents_of_superTypes (DeclaredClass.mem_superTypes.2 hs)
    exact ⟨List.mem_flatMap.2 ⟨c, hc, List.mem_cons_self⟩,
      List.mem_flatMap.2 ⟨c, hc, List.mem_cons_of_mem _ hparent⟩⟩
  · intro x y hx hy hsame
    have hnamed : ∀ x ∈ cs.flatMap DeclaredClass.mentioned,
        r.classes.className .toMapped x = .ok (r.newName x) := by
      intro x hx
      obtain ⟨c, hc, hx⟩ := List.mem_flatMap.1 hx
      obtain ⟨c', -, hrenamed⟩ := exists_right_of_forall₂ hclasses hc
      exact className_of_mentioned hrenamed hx
    exact hapart x hx y hy (r.newName y) (hsame ▸ hnamed x hx) (hnamed y hy)

/-- The names of renamed classes repeat where two classes get one name. -/
theorem merges_iff_duplicate (hp : Program.ofClasses cs = .ok p)
    (hclasses : List.Forall₂ (fun c c' => r.declaredClass c = .ok c') cs cs') {x : String} :
    r.Merges cs x ↔ List.Duplicate x (cs'.map DeclaredClass.name) := by
  have hnames : cs'.map DeclaredClass.name = (cs.map DeclaredClass.name).map r.newName := by
    rw [List.map_map]
    refine (map_eq_map_of_forall₂ hclasses fun c c' hrenamed => ?_).symm
    exact (name_of_declaredClass hrenamed).symm
  have hnamed : ∀ c ∈ cs, r.classes.className .toMapped c.name = .ok (r.newName c.name) := by
    intro c hc
    obtain ⟨c', -, hrenamed⟩ := exists_right_of_forall₂ hclasses hc
    exact className_of_mentioned hrenamed List.mem_cons_self
  rw [hnames, duplicate_map_iff (Program.exists_ofClasses_iff.1 ⟨p, hp⟩)]
  constructor
  · rintro ⟨c, hc, d, hd, hne, hcx, hdx⟩
    exact ⟨_, List.mem_map_of_mem hc, _, List.mem_map_of_mem hd, hne,
      newName_of_className hcx, newName_of_className hdx⟩
  · rintro ⟨a, ha, b, hb, hne, rfl, hb'⟩
    obtain ⟨c, hc, rfl⟩ := List.mem_map.1 ha
    obtain ⟨d, hd, rfl⟩ := List.mem_map.1 hb
    exact ⟨c, hc, d, hd, hne, hnamed c hc, hb' ▸ hnamed d hd⟩

/-- **Renaming a program carries its super types over.**  The renamed program has the renamed
classes in order.  If the platform is kept, their super types are the new names of the super types,
each once, and if all names stay apart, the check for loops has the same result.  Renamed classes
make a program unless two of them have one name. -/
theorem program_carried_over (hp : Program.ofClasses cs = .ok p) :
    (∀ p', r.program p = .ok p' →
      List.Forall₂ (fun c c' => r.declaredClass c = .ok c' ∧
          r.classes.className .toMapped c.name = .ok c'.name ∧ p'.get? c'.name = some c' ∧
          ∀ kind, (c'.members kind).map DeclaredMember.access =
            (c.members kind).map DeclaredMember.access) cs p'.classes.values ∧
      (r.KeepsPlatform cs →
        (∀ c ∈ cs, ∃ x' superTypes superTypes', r.classes.className .toMapped c.name = .ok x' ∧
          p.superTypes.get? c.name = some superTypes ∧
          List.Forall₂ (fun s s' => r.classes.className .toMapped s = .ok s')
            superTypes superTypes' ∧
          p'.superTypes.get? x' = some (distinct superTypes')) ∧
        (r.KeepsApart cs → (p'.checkAcyclic = .ok () ↔ p.checkAcyclic = .ok ())))) ∧
    ((∀ c ∈ cs, ∃ c', r.declaredClass c = .ok c') →
      ((∃ f, r.program p = .error f) ↔ ∃ x, r.Merges cs x) ∧
      ∀ f, r.program p = .error f → ∃ x, r.Merges cs x ∧
        f = .of (.duplicate .declaredClass x)) := by
  refine ⟨fun p' hrenamed => ?_, fun hall => ?_⟩
  · obtain ⟨cs', hclasses, hp'⟩ := (program_eq_ok_iff hp).1 hrenamed
    refine ⟨?_, fun hplatform => ⟨fun c hc => ?_, checkAcyclic_renamed hp hp' hclasses hplatform⟩⟩
    · rw [Program.values_of_ofClasses hp', List.forall₂_iff_get]
      refine ⟨hclasses.length_eq, fun i hi hi' => ?_⟩
      have h := hclasses.get hi hi'
      exact ⟨h, (declaredClass_eq_ok_iff.1 h).2.1, Program.get?_of_mem hp' (List.get_mem ..),
        access_of_declaredClass h⟩
    · obtain ⟨c', hc', h⟩ := exists_right_of_forall₂ hclasses hc
      refine ⟨c'.name, c.superTypes, c.superTypes.map r.newName, (declaredClass_eq_ok_iff.1 h).2.1,
        Program.get?_superTypes hp hc, ?_, ?_⟩
      · rw [List.forall₂_map_right_iff, List.forall₂_same]
        intro s hs
        exact className_of_mentioned h
          (List.mem_cons_of_mem _ (DeclaredClass.mem_parents_of_superTypes hs))
      · rw [Program.get?_superTypes hp' hc',
          superTypes_of_declaredClass h fun s hs => hplatform.newName hc h hs]
  · obtain ⟨cs', hcs'⟩ := Outcome.exists_mapM_iff.2 hall
    have hclasses := Outcome.mapM_eq_ok_iff.1 hcs'
    have hfails : ∀ f, r.program p = .error f →
        ∃ x, r.Merges cs x ∧ f = .of (.duplicate .declaredClass x) := by
      intro f hf
      rw [program_eq hp hclasses] at hf
      obtain ⟨x, hx, rfl⟩ := Program.duplicate_of_ofClasses hf
      exact ⟨x, (merges_iff_duplicate hp hclasses).2 hx, rfl⟩
    refine ⟨⟨?_, ?_⟩, hfails⟩
    · rintro ⟨f, hf⟩
      obtain ⟨x, hx, -⟩ := hfails f hf
      exact ⟨x, hx⟩
    · rintro ⟨x, hx⟩
      rw [program_eq hp hclasses]
      cases hmade : Program.ofClasses cs' with
      | error f => exact ⟨f, rfl⟩
      | ok p' =>
        have hnodup := Program.exists_ofClasses_iff.1 ⟨p', hmade⟩
        exact absurd hnodup ((merges_iff_duplicate hp hclasses).1 hx).not_nodup

/-! ### An interface that is named twice -/

/-- A class with a method gets a new name, and so does an interface. -/
def twoRenames : GroupedMappings :=
  .ofParts none
    [(MappedClass.ofInfo (.ofNames (.paired "A" "a"))).addMethod
        ((Symbol.ofNames (.paired "m" "n")).set (.unmappedDescriptor "()V")),
      .ofInfo (.ofNames (.paired "I" "B"))] []

/-- A class with a private method that names an interface twice, and another that extends it. -/
def namedTwice : List DeclaredClass :=
  [⟨"A", some "java/lang/Object", ["I", "I"], [], [⟨Access.privateFlag, "m", "()V"⟩]⟩,
    ⟨"C", some "A", ["I"], [], []⟩]

/-- The same classes, the interface, and a class that has the new name of the interface. -/
def withNameTaken : List DeclaredClass :=
  namedTwice ++ [⟨"I", none, [], [], []⟩, ⟨"B", none, [], [], []⟩]

/-- The classes are renamed one by one, and the first ones mention nothing that gets a name of the
platform or of another class. -/
theorem exists_renamer_of_twoRenames : ∃ r, ofMappings twoRenames = .ok r ∧
    (∀ c ∈ withNameTaken, ∃ c', r.declaredClass c = .ok c') ∧
    r.KeepsPlatform namedTwice ∧ r.KeepsApart namedTwice ∧
    r.classes.className .toMapped "A" = .ok "a" ∧ r.classes.className .toMapped "I" = .ok "B" ∧
    r.classes.className .toMapped "B" = .ok "B" := by
  obtain ⟨r, hr, hdeclared, hplatform, hapart, hnames⟩ : ∃ r, ofMappings twoRenames = .ok r ∧
      (∀ c ∈ withNameTaken, (r.declaredClass c).toOption.isSome = true) ∧
      (∀ c ∈ namedTwice, ∀ s ∈ c.parents, (r.classes.className .toMapped s).toOption.map
        Name.isPlatform = some (Name.isPlatform s)) ∧
      (∀ x ∈ namedTwice.flatMap DeclaredClass.mentioned,
        ∀ y ∈ namedTwice.flatMap DeclaredClass.mentioned,
          r.classes.className .toMapped x = r.classes.className .toMapped y → x = y) ∧
      r.classes.className .toMapped "A" = .ok "a" ∧ r.classes.className .toMapped "I" = .ok "B" ∧
      r.classes.className .toMapped "B" = .ok "B" :=
    ⟨_, rfl, by decide +kernel, by decide +kernel, by decide +kernel, by decide +kernel,
      by decide +kernel, by decide +kernel⟩
  refine ⟨r, hr, fun c hc => Outcome.exists_eq_ok (hdeclared c hc), ?_, ?_, hnames⟩
  · intro c hc s hs s' hs'
    have hsame := hplatform c hc s hs
    rw [hs'] at hsame
    exact Option.some.inj hsame
  · intro x hx y hy z hxz hyz
    exact hapart x hx y hy (hxz.trans hyz.symm)

/-- The first classes are renamed, and the interface is a super type of the class once.  The others
are not, since two of them get one name. -/
theorem namedTwice_carried_over : ∃ r p p' q,
    ofMappings twoRenames = .ok r ∧ Program.ofClasses namedTwice = .ok p ∧
    r.program p = .ok p' ∧ r.KeepsPlatform namedTwice ∧ r.KeepsApart namedTwice ∧
    p.superTypes.get? "A" = some ["I"] ∧ p'.superTypes.get? "a" = some ["B"] ∧
    p'.checkAcyclic = .ok () ∧ Program.ofClasses withNameTaken = .ok q ∧
    ∃ x, r.Merges withNameTaken x ∧ r.program q = .error (.of (.duplicate .declaredClass x)) := by
  obtain ⟨r, hr, hdeclared, hplatform, hapart, hA, hI, hB⟩ := exists_renamer_of_twoRenames
  obtain ⟨p, hp⟩ : ∃ p, Program.ofClasses namedTwice = .ok p :=
    Outcome.exists_eq_ok (by decide +kernel)
  obtain ⟨q, hq⟩ : ∃ q, Program.ofClasses withNameTaken = .ok q :=
    Outcome.exists_eq_ok (by decide +kernel)
  have hacyclic : (Program.ofClasses namedTwice >>= Program.checkAcyclic) = .ok () := by
    decide +kernel
  rw [hp] at hacyclic
  obtain ⟨hcarried, hfails⟩ := program_carried_over (r := r) hp
  obtain ⟨-, hfails'⟩ := program_carried_over (r := r) hq
  -- no two of the first classes get one name
  obtain ⟨p', hp'⟩ : ∃ p', r.program p = .ok p' := by
    cases hprogram : r.program p with
    | ok p' => exact ⟨p', rfl⟩
    | error f =>
      obtain ⟨x, c, hc, d, hd, hne, hcx, hdx⟩ :=
        (hfails fun c hc => hdeclared c (List.mem_append_left _ hc)).1.1 ⟨f, hprogram⟩
      have hmem : ∀ c ∈ namedTwice, c.name ∈ namedTwice.flatMap DeclaredClass.mentioned :=
        fun c hc => List.mem_flatMap.2 ⟨c, hc, List.mem_cons_self⟩
      exact absurd (hapart _ (hmem c hc) _ (hmem d hd) x hcx hdx) hne
  obtain ⟨-, hkept⟩ := hcarried p' hp'
  obtain ⟨hsupers, hloops⟩ := hkept hplatform
  obtain ⟨x', superTypes, superTypes', hx', hget, himages, hget'⟩ := hsupers _ List.mem_cons_self
  obtain rfl : x' = "a" := Outcome.eq_of_eq_ok hx' hA
  have hsuper : p.superTypes.get? "A" = some ["I"] :=
    Program.get?_superTypes hp List.mem_cons_self
  obtain rfl : superTypes = ["I"] := Option.some.inj (hget.symm.trans hsuper)
  obtain ⟨s', rest, hs', hrest, rfl⟩ := List.forall₂_cons_left_iff.1 himages
  obtain rfl : s' = "B" := Outcome.eq_of_eq_ok hs' hI
  obtain rfl := List.forall₂_nil_left_iff.1 hrest
  obtain ⟨hiff, hduplicate⟩ := hfails' hdeclared
  obtain ⟨f, hf⟩ := hiff.2 ⟨"B", ⟨"I", none, [], [], []⟩, by decide, ⟨"B", none, [], [], []⟩,
    by decide, by decide, hI, hB⟩
  obtain ⟨x, hx, rfl⟩ := hduplicate f hf
  exact ⟨r, p, p', q, hr, hp, hp', hplatform, hapart, hsuper, hget', (hloops hapart).2 hacyclic, hq,
    x, hx, hf⟩

end Renamer

end SymbolMap
