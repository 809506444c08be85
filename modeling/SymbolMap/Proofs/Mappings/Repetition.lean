import SymbolMap.Proofs.Mappings.Identities
import SymbolMap.Proofs.Mappings.ReversedProjection
import SymbolMap.Proofs.Renamer.BetweenNamespaces
import SymbolMap.Proofs.Renamer.Reversal

/-!
# Operations one after another

A collection that is reversed twice is itself again (`reverse_reverse_of_built`), and of two moves
of its descriptors only the last one counts (`last_move_counts`).  Both are shown for one symbol and
carried over to classes and to lists of them, as instances of one notion: doing one thing and then
another gives what a third gives at once (`Composes`).

A move to a namespace can lose what the next one needs.  A class that has no name there keeps the
one of the namespace before, and a name that belongs to no class may be the name of a class there
and be taken for it.  `Passable` excludes both.
-/

namespace SymbolMap

/-! ## One thing after another -/

/-- Where `f` and `h` both succeed, `g` makes of what `f` gives what `h` gives. -/
def Composes {α β γ : Type} (f : α → Outcome β) (g : β → Outcome γ) (h : α → Outcome γ) (a : α) :
    Prop :=
  ∀ b c, f a = .ok b → h a = .ok c → g b = .ok c

theorem Composes.mapM {α β γ : Type} {f : α → Outcome β} {g : β → Outcome γ} {h : α → Outcome γ}
    {as : List α} (hall : ∀ a ∈ as, Composes f g h a) :
    Composes (List.mapM f) (List.mapM g) (List.mapM h) as := by
  intro bs cs hbs hcs
  rw [Outcome.mapM_eq_ok_iff] at hbs hcs ⊢
  induction hbs generalizing cs with
  | nil =>
    obtain rfl := List.forall₂_nil_left_iff.1 hcs
    exact .nil
  | cons hb _ ih =>
    obtain ⟨c, rest, hc, hrest, rfl⟩ := List.forall₂_cons_left_iff.1 hcs
    exact .cons (hall _ List.mem_cons_self _ _ hb hc)
      (ih (fun a ha => hall a (List.mem_cons_of_mem _ ha)) rest hrest)

/-- What is undone for each element of a list is undone for the list. -/
theorem Composes.undo {α β : Type} {f : α → Outcome β} {g : β → Outcome α} {as : List α}
    {bs : List β} (h : ∀ a, Composes f g pure a) (hbs : as.mapM f = .ok bs) :
    bs.mapM g = .ok as := by
  refine mapM (fun a _ => h a) bs as hbs ?_
  rw [List.mapM_pure, List.map_id']
  rfl

/-- What composes for the symbols of a class composes for the class. -/
theorem MappedClass.composes_traverse {onInfo onInfo' onInfo'' f g h : Symbol → Outcome Symbol}
    {c : MappedClass} (hinfo : Composes onInfo onInfo' onInfo'' c.info)
    (hmembers : ∀ s ∈ c.members, Composes f g h s) :
    Composes (traverse onInfo f f) (traverse onInfo' g g) (traverse onInfo'' h h) c := by
  intro c₁ c₂ h₁ h₂
  obtain ⟨info₁, hinfo₁, h₁⟩ := Outcome.bind_eq_ok_iff.1 h₁
  obtain ⟨fields₁, hfields₁, h₁⟩ := Outcome.bind_eq_ok_iff.1 h₁
  obtain ⟨methods₁, hmethods₁, h₁⟩ := Outcome.bind_eq_ok_iff.1 h₁
  obtain rfl := Except.ok.inj h₁
  obtain ⟨info₂, hinfo₂, h₂⟩ := Outcome.bind_eq_ok_iff.1 h₂
  obtain ⟨fields₂, hfields₂, h₂⟩ := Outcome.bind_eq_ok_iff.1 h₂
  obtain ⟨methods₂, hmethods₂, h₂⟩ := Outcome.bind_eq_ok_iff.1 h₂
  obtain rfl := Except.ok.inj h₂
  have hfields : fields₁.mapM g = .ok fields₂ :=
    Composes.mapM (fun s hs => hmembers s (List.mem_append_left _ hs)) _ _ hfields₁ hfields₂
  have hmethods : methods₁.mapM g = .ok methods₂ :=
    Composes.mapM (fun s hs => hmembers s (List.mem_append_right _ hs)) _ _ hmethods₁ hmethods₂
  rw [traverse, hinfo _ _ hinfo₁ hinfo₂, Outcome.ok_bind, hfields, Outcome.ok_bind, hmethods]
  rfl

/-! ## Reversing twice -/

theorem Symbol.ownedBy_eq_self {s : Symbol} {id : ClassId} (h : s.tags.owner = some id) :
    s.ownedBy id = s := by
  obtain ⟨names, tags, locals⟩ := s
  have howner : tags.owner = some id := h
  show mk names { tags with owner := some id } locals = _
  rw [← howner]

theorem MappedClass.withId_eq_self {c : MappedClass}
    (h : ∀ s ∈ c.members, s.tags.owner = some c.id) : c.withId c.id = c := by
  have hsame : ∀ {symbols : List Symbol}, (∀ s ∈ symbols, s ∈ c.members) →
      symbols.map (Symbol.ownedBy c.id) = symbols := by
    intro symbols hmembers
    have howned : ∀ s ∈ symbols, s.ownedBy c.id = s := fun s hs =>
      Symbol.ownedBy_eq_self (h s (hmembers s hs))
    rw [List.map_congr_left howned, List.map_id']
  rw [withId, hsame fun s hs => List.mem_append_left _ hs,
    hsame fun s hs => List.mem_append_right _ hs]

/-- Where identities and owners are right, putting the parts together again changes nothing. -/
theorem GroupedMappings.InPlace.ofParts_eq_self {m : GroupedMappings} (h : m.InPlace) :
    ofParts m.namespaces m.classes m.packages = m := by
  have hclasses : (m.classes.mapIdx fun i c => c.withId ⟨i⟩) = m.classes := by
    refine List.ext_getElem? fun i => ?_
    rw [List.getElem?_mapIdx]
    cases hc : m.classes[i]? with
    | none => rfl
    | some c =>
      obtain ⟨hid, howner⟩ := h i c hc
      rw [← hid] at howner
      rw [Option.map_some, ← hid, MappedClass.withId_eq_self howner]
  rw [ofParts_eq, hclasses]

theorem Symbol.composes_reverse (s : Symbol) : Composes reverse reverse pure s := by
  intro s' s'' hs' hs''
  obtain rfl := Except.ok.inj hs''
  exact reverse_reverse hs'

theorem MappedClass.composes_reverse (c : MappedClass) : Composes reverse reverse pure c := by
  intro c' c'' hc' hc''
  obtain rfl := Except.ok.inj hc''
  refine composes_traverse c.info.composes_reverse (fun s _ => s.composes_reverse) c' c hc' ?_
  rw [traverse, List.mapM_pure, List.mapM_pure]
  simp only [pure_bind, List.map_id']
  rfl

namespace GroupedMappings

variable {m m' : GroupedMappings}

/-- **Reversal is an involution.**  A collection that is built and can be reversed is given back by
reversing it once more: its names, descriptors and other attributes, the local variables at any
depth, owners, identities and packages.  In between the two sides of every symbol are swapped. -/
theorem reverse_reverse_of_built (hm : m.Built) (h : m.reverse = .ok m') :
    m'.reverse = .ok m ∧ List.Forall₂ MappedClass.IsReverse m.classes m'.classes ∧
      List.Forall₂ Symbol.IsReverse m.packages m'.packages := by
  obtain ⟨-, hclasses, hpackages⟩ := isReverse_of_reverse h
  refine ⟨?_, hclasses, hpackages⟩
  rw [reverse] at h
  split at h
  · rename_i hpaired
    obtain ⟨classes, hmade, h⟩ := Outcome.bind_eq_ok_iff.1 h
    obtain ⟨packages, hmade', h⟩ := Outcome.bind_eq_ok_iff.1 h
    obtain rfl := Except.ok.inj h
    have hback : classes.mapM MappedClass.reverse = .ok m.classes :=
      Composes.undo MappedClass.composes_reverse hmade
    have hback' : packages.mapM Symbol.reverse = .ok m.packages :=
      Composes.undo Symbol.composes_reverse hmade'
    have hnone : m.namespaces = none := Option.isNone_iff_eq_none.1 hpaired
    rw [reverse_ofParts hback hback', ← hnone, hm.inPlace.ofParts_eq_self]
  · cases h

/-- A method with a descriptor and local variables in local variables, and a package, are reversed
and given back. -/
theorem nestedLocals_given_back : ∃ p q, nestedLocals.project "x" "y" = .ok p ∧ p.Built ∧
    p.reverse = .ok q ∧ q ≠ p ∧ q.reverse = .ok p ∧
    List.Forall₂ MappedClass.IsReverse p.classes q.classes ∧
    List.Forall₂ Symbol.IsReverse p.packages q.packages := by
  obtain ⟨p, hp⟩ : ∃ p, nestedLocals.project "x" "y" = .ok p :=
    Outcome.exists_eq_ok (by decide +kernel)
  have hreversed : (nestedLocals.project "x" "y" >>= fun p => p.reverse >>= fun q =>
      pure (decide (q ≠ p))) = .ok true := by decide +kernel
  rw [hp, Outcome.ok_bind] at hreversed
  obtain ⟨q, hq, hne⟩ := Outcome.bind_eq_ok_iff.1 hreversed
  have hbuilt : p.Built := .step (built_ofParts _ _ _) (.project "x" "y" hp)
  exact ⟨p, q, hp, hbuilt, hq, of_decide_eq_true (Except.ok.inj hne),
    reverse_reverse_of_built hbuilt hq⟩

end GroupedMappings

/-! ## Moving twice -/

section

variable {classes : List MappedClass} {source through target : NamespaceId}
  {f g h : String → String}

/-- The table of names looks at the symbols of classes only. -/
theorem classNamesBetween_congr {classes' : List MappedClass}
    (hinfo : classes.map MappedClass.info = classes'.map MappedClass.info) :
    classNamesBetween classes source target = classNamesBetween classes' source target := by
  have heq : ∀ classes : List MappedClass, classNamesBetween classes source target =
      classNamesBetween ((classes.map MappedClass.info).map .ofInfo) source target := by
    intro classes
    rw [classNamesBetween, classNamesBetween, List.map_map, List.filterMap_map]
    rfl
  rw [heq classes, heq classes', hinfo]

/-- What the function gives is determined by the classes and the namespaces. -/
theorem NamesBetween.unique (hf : NamesBetween classes source target f)
    (hg : NamesBetween classes source target g) : f = g := by
  funext x
  rcases hf.kept_or_class x with hkept | ⟨c, hc, hx, hy⟩
  · rcases hg.kept_or_class x with hkept' | ⟨c, hc, hx, hy⟩
    · rw [hkept, hkept']
    · exact hf.ofClass c hc x _ hx hy
  · exact (hg.ofClass c hc x _ hx hy).symm

/-- Going through a namespace in which all classes have names leads to the same name, unless the
name is taken for that of a class there. -/
theorem NamesBetween.comp (hf : NamesBetween classes source through f)
    (hg : NamesBetween classes through target g) (hh : NamesBetween classes source target h)
    (hthrough : ∀ c ∈ classes, ∃ y, c.info.names.get? through = some y)
    (htarget : ∀ c ∈ classes, ∃ z, c.info.names.get? target = some z) {x : String}
    (hx : (∃ c ∈ classes, c.info.names.get? source = some x) ∨
      ∀ c ∈ classes, c.info.names.get? through ≠ some x) : g (f x) = h x := by
  by_cases hclass : ∃ c ∈ classes, c.info.names.get? source = some x
  · obtain ⟨c, hc, hx⟩ := hclass
    obtain ⟨y, hy⟩ := hthrough c hc
    obtain ⟨z, hz⟩ := htarget c hc
    rw [hf.ofClass c hc x y hx hy, hg.ofClass c hc y z hy hz, hh.ofClass c hc x z hx hz]
  · have hnone : ∀ c ∈ classes, c.info.names.get? source ≠ some x := fun c hc hx =>
      hclass ⟨c, hc, hx⟩
    have hfree := hx.resolve_left hclass
    rw [hf.kept x fun c hc hx => absurd hx (hnone c hc),
      hg.kept x fun c hc hx => absurd hx (hfree c hc),
      hh.kept x fun c hc hx => absurd hx (hnone c hc)]

end

/-- The tables, one for each namespace, take the names of classes there to those in the target. -/
abbrev TablesTo (classes : List MappedClass) (ns : Namespaces) (target : NamespaceId)
    (tables : List (Table String String)) : Prop :=
  (List.range ns.size).mapM (fun source => classNamesBetween classes ⟨source⟩ target) = .ok tables

theorem TablesTo.exists_table {classes : List MappedClass} {ns : Namespaces}
    {source target : NamespaceId} {tables : List (Table String String)}
    (h : TablesTo classes ns target tables) (hlt : source.index < ns.size) :
    ∃ names, tables[source.index]? = some names ∧
      NamesBetween classes source target (tabulatedName names) := by
  obtain ⟨names, hnames, htable⟩ :=
    exists_getElem?_of_forall₂ (Outcome.mapM_eq_ok_iff.1 h) (List.getElem?_range hlt)
  exact ⟨names, hnames, namesBetween_of_table htable⟩

/-- The descriptor can be read, is written in one of the namespaces, and a class name in it is that
of a class there or of none in the namespace that is passed through. -/
structure NamespacedDescriptor.Passable (classes : List MappedClass) (ns : Namespaces)
    (through : NamespaceId) (d : NamespacedDescriptor) : Prop where
  lt : d.writtenIn.index < ns.size
  check : Descriptor.check d.desc = .ok ()
  known : ∀ x, Descriptor.Mentions d.desc x →
    (∃ c ∈ classes, c.info.names.get? d.writtenIn = some x) ∨
      ∀ c ∈ classes, c.info.names.get? through ≠ some x

namespace Symbol

variable {classes : List MappedClass} {ns : Namespaces} {through target : NamespaceId}
  {tables tables' : List (Table String String)} {s s' : Symbol} {d : NamespacedDescriptor}

theorem set_eq_self (hd : s.tags.namespacedDescriptor = some d) :
    s.set (.namespacedDescriptor d) = s := by
  obtain ⟨names, tags, locals⟩ := s
  have htags : tags.namespacedDescriptor = some d := hd
  show mk names { tags with namespacedDescriptor := some d } locals = _
  rw [← htags]

theorem moveDescriptor_of_none (hd : s.tags.namespacedDescriptor = none) :
    s.moveDescriptor ns target tables = .ok s := by
  rw [moveDescriptor, hd]

/-- A descriptor with a table is in place or gets the names in the table. -/
theorem moveDescriptor_of_some {names : Table String String}
    (hd : s.tags.namespacedDescriptor = some d) (hnames : tables[d.writtenIn.index]? = some names) :
    s.moveDescriptor ns target tables =
      if d.writtenIn = target then .ok s
      else do
        let desc ← Outcome.within (.malformed (.invalidDescriptor d.desc s.names))
          (Descriptor.renameClasses (fun name => pure (tabulatedName names name)) d.desc)
        return s.set (.namespacedDescriptor ⟨target, desc⟩) := by
  simp only [moveDescriptor, hd, hnames]

/-- A move does not look at the owner. -/
theorem ignoresOwner_moveDescriptor : IgnoresOwner (moveDescriptor ns target tables) := by
  intro s s' id h
  have htags : (s.ownedBy id).tags.namespacedDescriptor = s.tags.namespacedDescriptor := rfl
  cases hd : s.tags.namespacedDescriptor with
  | none =>
    rw [moveDescriptor_of_none hd] at h
    obtain rfl := Except.ok.inj h
    exact moveDescriptor_of_none hd
  | some d =>
    cases hnames : tables[d.writtenIn.index]? with
    | none =>
      simp only [moveDescriptor, hd, hnames] at h
      cases h
    | some names =>
      rw [moveDescriptor_of_some hd hnames] at h
      rw [moveDescriptor_of_some (htags.trans hd) hnames]
      by_cases hplace : d.writtenIn = target
      · rw [if_pos hplace] at h ⊢
        obtain rfl := Except.ok.inj h
        rfl
      · rw [if_neg hplace] at h ⊢
        obtain ⟨desc, hdesc, h⟩ := Outcome.bind_eq_ok_iff.1 h
        obtain rfl := Except.ok.inj h
        exact Outcome.bind_eq_ok_iff.2 ⟨desc, hdesc, rfl⟩

/-- **A descriptor that can be read is moved by renaming its classes**, also where it is in place
already. -/
theorem moveDescriptor_eq_ok_iff
    (htables : TablesTo classes ns target tables) (hd : s.tags.namespacedDescriptor = some d)
    (hlt : d.writtenIn.index < ns.size) (hcheck : Descriptor.check d.desc = .ok ()) :
    s.moveDescriptor ns target tables = .ok s' ↔ ∃ f desc,
      NamesBetween classes d.writtenIn target f ∧
      Descriptor.renameClasses (m := Outcome) (fun x => pure (f x)) d.desc = .ok desc ∧
      s' = s.set (.namespacedDescriptor ⟨target, desc⟩) := by
  obtain ⟨names, hnames, hbetween⟩ := htables.exists_table hlt
  rw [moveDescriptor_of_some hd hnames]
  by_cases hplace : d.writtenIn = target
  · have hset : s.set (.namespacedDescriptor ⟨target, d.desc⟩) = s := by
      rw [← hplace]
      exact set_eq_self hd
    obtain ⟨f₀, hf₀, hsame⟩ : ∃ f, NamesBetween classes d.writtenIn target f ∧
        Descriptor.renameClasses (m := Outcome) (fun x => pure (f x)) d.desc = .ok d.desc :=
      NamespacedDescriptor.MovesTo.exists_namesBetween (.inl ⟨hplace, rfl⟩) fun _ => hcheck
    rw [if_pos hplace]
    constructor
    · intro hs'
      obtain rfl := Except.ok.inj hs'
      exact ⟨f₀, d.desc, hf₀, hsame, hset.symm⟩
    · rintro ⟨f, desc, hf, hdesc, rfl⟩
      rw [hf.unique hf₀] at hdesc
      rw [Outcome.eq_of_eq_ok hdesc hsame, hset]
  · rw [if_neg hplace, Outcome.bind_eq_ok_iff]
    constructor
    · rintro ⟨desc, hdesc, hs'⟩
      exact ⟨_, desc, hbetween, Outcome.within_eq_ok_iff.1 hdesc, (Except.ok.inj hs').symm⟩
    · rintro ⟨f, desc, hf, hdesc, rfl⟩
      rw [hf.unique hbetween] at hdesc
      exact ⟨desc, Outcome.within_eq_ok_iff.2 hdesc, rfl⟩

/-- **A descriptor that is moved twice is where the second move takes it**, if it can be passed
through the first namespace and all classes have names in both. -/
theorem composes_moveDescriptor
    (htables : TablesTo classes ns through tables) (htables' : TablesTo classes ns target tables')
    (hlt : through.index < ns.size)
    (hdelimited : ∀ c ∈ classes, ∀ y, c.info.names.get? through = some y → ';' ∉ y.toList)
    (hthrough : ∀ c ∈ classes, ∃ y, c.info.names.get? through = some y)
    (htarget : ∀ c ∈ classes, ∃ z, c.info.names.get? target = some z)
    (hs : ∀ d, s.tags.namespacedDescriptor = some d → d.Passable classes ns through) :
    Composes (moveDescriptor ns through tables) (moveDescriptor ns target tables')
      (moveDescriptor ns target tables') s := by
  intro s₁ s₂ h₁ h₂
  cases hd : s.tags.namespacedDescriptor with
  | none =>
    rw [moveDescriptor_of_none hd] at h₁
    obtain rfl := Except.ok.inj h₁
    exact h₂
  | some d =>
    have hpass := hs d hd
    obtain ⟨f, desc₁, hf, hdesc₁, rfl⟩ :=
      (moveDescriptor_eq_ok_iff htables hd hpass.lt hpass.check).1 h₁
    obtain ⟨h, desc₂, hh, hdesc₂, rfl⟩ :=
      (moveDescriptor_eq_ok_iff htables' hd hpass.lt hpass.check).1 h₂
    obtain ⟨names, -, hg⟩ := htables'.exists_table hlt
    have hcheck : Descriptor.check desc₁ = .ok () :=
      (Descriptor.sameShape_of_renameClasses (fun x => hf.delimited hdelimited) hdesc₁).check.2
    refine (moveDescriptor_eq_ok_iff (d := ⟨through, desc₁⟩) htables' rfl hlt hcheck).2
      ⟨_, desc₂, hg, ?_, rfl⟩
    -- the second table takes each name on to where one move would have taken it
    refine Descriptor.renameClasses_trans (fun x => hf.delimited hdelimited)
      (fun x hx y z hy hz => ?_) hdesc₁ hdesc₂
    obtain rfl := Except.ok.inj hy
    obtain rfl := Except.ok.inj hz
    rw [hf.comp hg hh hthrough htarget (hpass.known x hx)]
    rfl

/-- A descriptor that was moved is in place. -/
theorem composes_moveDescriptor_same (hlt : target.index < tables.length) :
    Composes (moveDescriptor ns target tables) (moveDescriptor ns target tables)
      (moveDescriptor ns target tables) s := by
  intro s₁ s₂ h₁ h₂
  obtain rfl := Outcome.eq_of_eq_ok h₁ h₂
  rcases moveDescriptor_cases h₁ with ⟨rfl, -⟩ | ⟨d, names, desc, -, -, -, rfl⟩
  · exact h₁
  · rw [moveDescriptor_of_some (d := ⟨target, desc⟩) rfl (List.getElem?_eq_getElem hlt), if_pos rfl]

end Symbol

/-- The class with the descriptors of its members moved. -/
def MappedClass.moveDescriptors (ns : Namespaces) (target : NamespaceId)
    (tables : List (Table String String)) (c : MappedClass) : Outcome MappedClass :=
  c.traverse pure (Symbol.moveDescriptor ns target tables) (Symbol.moveDescriptor ns target tables)

theorem MappedClass.moveDescriptors_withId {ns : Namespaces} {target : NamespaceId}
    {tables : List (Table String String)} (c c' : MappedClass) (id : ClassId)
    (h : c.moveDescriptors ns target tables = .ok c') :
    (c.withId id).moveDescriptors ns target tables = .ok (c'.withId id) :=
  traverse_withId Symbol.ignoresOwner_moveDescriptor Symbol.ignoresOwner_moveDescriptor h id

namespace GroupedMappings

variable {m m₁ m₂ : GroupedMappings} {ns : Namespaces} {through target : NamespaceId}
  {name other : String}

/-- Descriptors are moved by moving those of each class and putting the collection together. -/
theorem descriptorsIn_eq_ok_iff (hns : m.namespaces = some ns)
    (htarget : ns.find name = .ok target) :
    m.descriptorsIn name = .ok m₁ ↔ ∃ tables classes,
      TablesTo m.classes ns target tables ∧
      m.classes.mapM (MappedClass.moveDescriptors ns target tables) = .ok classes ∧
      m₁ = ofParts (some ns) classes m.packages := by
  rw [descriptorsIn, hns]
  simp only [htarget, Outcome.ok_bind, Outcome.bind_eq_ok_iff, exists_and_left]
  constructor
  · rintro ⟨tables, htables, classes, hclasses, h⟩
    exact ⟨tables, htables, classes, hclasses, (Except.ok.inj h).symm⟩
  · rintro ⟨tables, htables, classes, hclasses, rfl⟩
    exact ⟨tables, htables, classes, hclasses, rfl⟩

/-- **A move after a move**, where it is the second one that counts for each member. -/
theorem descriptorsIn_of_composes (hns : m.namespaces = some ns)
    (hthrough : ns.find name = .ok through) (htarget : ns.find other = .ok target)
    (h₁ : m.descriptorsIn name = .ok m₁) (h₂ : m.descriptorsIn other = .ok m₂)
    (hmembers : ∀ tables tables', TablesTo m.classes ns through tables →
      TablesTo m.classes ns target tables' → ∀ s, m.Declares s →
      Composes (Symbol.moveDescriptor ns through tables)
        (Symbol.moveDescriptor ns target tables') (Symbol.moveDescriptor ns target tables') s) :
    m₁.descriptorsIn other = .ok m₂ := by
  obtain ⟨tables, classes₁, htables, hclasses₁, hm₁⟩ := (descriptorsIn_eq_ok_iff hns hthrough).1 h₁
  obtain ⟨tables', classes₂, htables', hclasses₂, hm₂⟩ := (descriptorsIn_eq_ok_iff hns htarget).1 h₂
  -- the classes have the names they had, so that the tables are the same
  obtain ⟨_, _, hns', -, hns₁, hpackages, hmoved⟩ := descriptorsIn_isMoved h₁
  obtain rfl := Option.some.inj (hns.symm.trans hns')
  have hinfo : m₁.classes.map MappedClass.info = m.classes.map MappedClass.info :=
    (map_eq_map_of_forall₂ hmoved fun c c' hc => hc.info.symm).symm
  refine (descriptorsIn_eq_ok_iff hns₁ htarget).2 ?_
  simp only [TablesTo, classNamesBetween_congr hinfo, hpackages]
  have hagain : classes₁.mapM (MappedClass.moveDescriptors ns target tables') = .ok classes₂ := by
    refine Composes.mapM (fun c hc => ?_) _ _ hclasses₁ hclasses₂
    refine MappedClass.composes_traverse ?_ fun s hs =>
      hmembers tables tables' htables htables' s ⟨c, hc, hs⟩
    intro info info' hinfo hinfo'
    obtain rfl := Except.ok.inj hinfo
    exact hinfo'
  obtain ⟨made, hmade, hsame⟩ :=
    exists_mapM_ofParts (some ns) m.packages MappedClass.moveDescriptors_withId hagain
  rw [← hm₁] at hmade
  exact ⟨tables', made, htables', hmade, by rw [hm₂, hsame]⟩

/-- Every class has a name in every namespace, none of which repeats there or holds a `;`, and the
descriptors of members can be passed through the namespace. -/
structure Passable (m : GroupedMappings) (ns : Namespaces) (through : NamespaceId) : Prop where
  named : ∀ c ∈ m.classes, ∀ n : NamespaceId, n.index < ns.size →
    ∃ x, c.info.names.get? n = some x
  distinct : ∀ n : NamespaceId, n.index < ns.size →
    (m.classes.filterMap fun c => c.info.names.get? n).Nodup
  delimited : ∀ c ∈ m.classes, ∀ n : NamespaceId, n.index < ns.size →
    ∀ x, c.info.names.get? n = some x → ';' ∉ x.toList
  descriptors : ∀ s, m.Declares s → ∀ d, s.tags.namespacedDescriptor = some d →
    d.Passable m.classes ns through

theorem Passable.exists_descriptorsIn (h : m.Passable ns through) (hns : m.namespaces = some ns)
    (htarget : ns.find name = .ok target) : ∃ m', m.descriptorsIn name = .ok m' :=
  GroupedMappings.exists_descriptorsIn hns htarget h.distinct fun s hs d hd =>
    ⟨(h.descriptors s hs d hd).lt, (h.descriptors s hs d hd).check⟩

theorem descriptorsIn_descriptorsIn (h : m.descriptorsIn name = .ok m₁) :
    m₁.descriptorsIn name = .ok m₁ := by
  obtain ⟨ns, target, tables, hns, htarget, -⟩ := descriptorsIn_eq_ok h
  refine descriptorsIn_of_composes hns htarget htarget h h
    fun tables tables' htables htables' s _ => ?_
  obtain rfl := Outcome.eq_of_eq_ok htables htables'
  refine Symbol.composes_moveDescriptor_same ?_
  rw [← (Outcome.mapM_eq_ok_iff.1 htables).length_eq, List.length_range]
  exact Namespaces.lt_of_find htarget

theorem Passable.descriptorsIn_eq (h : m.Passable ns through) (hns : m.namespaces = some ns)
    (hthrough : ns.find name = .ok through) (h₁ : m.descriptorsIn name = .ok m₁) (other : String) :
    m₁.descriptorsIn other = m.descriptorsIn other := by
  cases htarget : ns.find other with
  | error e =>
    obtain ⟨ns', -, hns', -, hns₁, -⟩ := descriptorsIn_isMoved h₁
    obtain rfl := Option.some.inj (hns.symm.trans hns')
    simp only [descriptorsIn, hns, hns₁, htarget]
    rfl
  | ok target =>
    have hlt := Namespaces.lt_of_find hthrough
    obtain ⟨m₂, h₂⟩ := h.exists_descriptorsIn hns htarget
    rw [h₂]
    refine descriptorsIn_of_composes hns hthrough htarget h₁ h₂
      fun tables tables' htables htables' s hs => ?_
    exact Symbol.composes_moveDescriptor htables htables' hlt
      (fun c hc => h.delimited c hc through hlt) (fun c hc => h.named c hc through hlt)
      (fun c hc => h.named c hc target (Namespaces.lt_of_find htarget)) (h.descriptors s hs)

/-- **Only the last move counts.**  A collection whose descriptors are moved to a namespace stays as
it is when they are moved there again.  If the collection can be passed through the namespace, then
its descriptors are moved there, where those of members are all written then, and from there to any
namespace as if they had not been. -/
theorem last_move_counts (m : GroupedMappings) (name : String) :
    (∀ m', m.descriptorsIn name = .ok m' → m'.descriptorsIn name = .ok m') ∧
    ∀ ns through, m.namespaces = some ns → ns.find name = .ok through → m.Passable ns through →
      ∃ m', m.descriptorsIn name = .ok m' ∧ (∀ s, m'.Declares s → s.WrittenIn through) ∧
        ∀ other, m'.descriptorsIn other = m.descriptorsIn other ∧
          ∀ n, ns.find other = .ok n → ∃ m'', m.descriptorsIn other = .ok m'' := by
  refine ⟨fun m' => descriptorsIn_descriptorsIn, fun ns through hns hthrough hpass => ?_⟩
  obtain ⟨m', hm'⟩ := hpass.exists_descriptorsIn hns hthrough
  obtain ⟨ns₀, through₀, tables, hns₀, hthrough₀, -, -, -, hclasses⟩ := descriptorsIn_eq_ok hm'
  obtain rfl := Option.some.inj (hns.symm.trans hns₀)
  obtain rfl := Outcome.eq_of_eq_ok hthrough hthrough₀
  exact ⟨m', hm', fun s => writtenIn_of_declares hclasses,
    fun other => ⟨hpass.descriptorsIn_eq hns hthrough hm' other,
      fun n hn => hpass.exists_descriptorsIn hns hn⟩⟩

/-- Two classes, each with the name in the third namespace that the other one has in the first, and
a method that takes both and a class that is not mapped. -/
def crossedNames : GroupedMappings :=
  .ofParts (some threeNamespaces)
    [(MappedClass.ofInfo (.ofNames (.row (.ofNames ["A", "a", "B"])))).addMethod
      ((Symbol.ofNames (.row (.ofNames ["m", "n", "o"]))).set
        (.namespacedDescriptor ⟨⟨1⟩, "(La;Lb;Lu;)V"⟩)),
      .ofInfo (.ofNames (.row (.ofNames ["B", "b", "A"])))] []

theorem passable_crossedNames : crossedNames.Passable threeNamespaces ⟨2⟩ := by
  have hclasses : ∀ c ∈ crossedNames.classes, ∀ i < 3,
      (c.info.names.get? ⟨i⟩).isSome = true ∧
      ∀ x, c.info.names.get? ⟨i⟩ = some x → ';' ∉ x.toList := by
    decide +kernel
  have hdistinct : ∀ i < 3,
      (crossedNames.classes.filterMap fun c => c.info.names.get? ⟨i⟩).Nodup := by
    decide +kernel
  have hmembers : ∀ c ∈ crossedNames.classes, ∀ s ∈ c.members,
      s.tags.namespacedDescriptor = some ⟨⟨1⟩, "(La;Lb;Lu;)V"⟩ := by
    decide +kernel
  have hread : Descriptor.classNames "(La;Lb;Lu;)V" = .ok ["a", "b", "u"] := by decide +kernel
  refine ⟨fun c hc n hn => Option.isSome_iff_exists.1 (hclasses c hc n.index hn).1,
    fun n hn => hdistinct n.index hn, fun c hc n hn => (hclasses c hc n.index hn).2, ?_⟩
  rintro s ⟨c, hc, hs⟩ d hd
  obtain rfl := Option.some.inj ((hmembers c hc s hs).symm.trans hd)
  refine ⟨by decide, Descriptor.check_eq_ok_iff.2 ⟨_, hread⟩, fun x hx => ?_⟩
  have hknown : ∀ x ∈ ["a", "b", "u"],
      (∃ c ∈ crossedNames.classes, c.info.names.get? ⟨1⟩ = some x) ∨
        ∀ c ∈ crossedNames.classes, c.info.names.get? ⟨2⟩ ≠ some x := by
    decide +kernel
  exact hknown x ((Descriptor.mentions_iff hread).1 hx)

/-- The descriptor of the method is moved to the third namespace, and stays there or goes on. -/
theorem crossedNames_moved : crossedNames.Passable threeNamespaces ⟨2⟩ ∧
    ∃ m' m'', crossedNames.descriptorsIn "z" = .ok m' ∧ m' ≠ crossedNames ∧
      (∀ s, m'.Declares s → s.WrittenIn ⟨2⟩) ∧
      m'.descriptorsIn "z" = .ok m' ∧ crossedNames.descriptorsIn "x" = .ok m'' ∧ m'' ≠ m' ∧
      m'.descriptorsIn "x" = .ok m'' := by
  obtain ⟨hagain, hthrough⟩ := last_move_counts crossedNames "z"
  obtain ⟨m', hm', hwritten, hmoves⟩ :=
    hthrough threeNamespaces ⟨2⟩ rfl (by decide) passable_crossedNames
  obtain ⟨hsame, hexists⟩ := hmoves "x"
  obtain ⟨m'', hm''⟩ := hexists ⟨0⟩ (by decide)
  have hdifferent : (crossedNames.descriptorsIn "z" >>= fun m' =>
      crossedNames.descriptorsIn "x" >>= fun m'' =>
        pure (decide (m' ≠ crossedNames ∧ m'' ≠ m'))) = .ok true := by decide +kernel
  rw [hm', Outcome.ok_bind, hm'', Outcome.ok_bind] at hdifferent
  obtain ⟨hne, hne'⟩ := of_decide_eq_true (Except.ok.inj hdifferent)
  exact ⟨passable_crossedNames, m', m'', hm', hne, hwritten, hagain m' hm', hm'', hne',
    hsame.trans hm''⟩

end GroupedMappings

end SymbolMap
