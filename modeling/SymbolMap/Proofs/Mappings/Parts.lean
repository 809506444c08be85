import SymbolMap.Mappings.Basic
import SymbolMap.Proofs.Outcomes

/-!
# The symbols of a collection

A collection is put together from classes and packages (`ofParts_spec`), often after something was
done to every symbol of each class.  Identities and the owners of members are given anew on the way,
so that a member becomes what was made of it but for its owner (`forall₂_becomes`).  What looks at
neither can be done before a collection is put together or after (`exists_mapM_ofParts`).

Symbols stand in a collection at any depth, since local variables are symbols that can have local
variables.  `Symbol.Holds` is this nesting for one symbol, and `GroupedMappings.Holds` is all of a
collection.  What is **aside** is everything but the members themselves: classes, packages, and
whatever is nested in a class, a member or a package.
-/

namespace SymbolMap

/-! ## Putting collections together -/

namespace GroupedMappings

theorem foldl_addPackage (packages : List Symbol) (m : GroupedMappings) :
    packages.foldl addPackage m = { m with packages := m.packages ++ packages } := by
  induction packages generalizing m with
  | nil => simp
  | cons package packages ih =>
    rw [List.foldl_cons, ih]
    simp [addPackage]

/-- Added classes follow those that were there, with identities that continue the count. -/
theorem foldl_addClass (classes : List MappedClass) (m : GroupedMappings) :
    classes.foldl addClass m = { m with
      classes := m.classes ++ classes.mapIdx fun i c => c.withId ⟨m.classes.length + i⟩ } := by
  induction classes generalizing m with
  | nil => simp
  | cons c classes ih =>
    rw [List.foldl_cons, ih]
    simp [addClass, nextId, Nat.add_assoc, Nat.add_comm 1]

/-- A collection has the classes it was made of, each with its position as identity, and the
packages. -/
theorem ofParts_eq (namespaces : Option Namespaces) (classes : List MappedClass)
    (packages : List Symbol) :
    ofParts namespaces classes packages =
      ⟨namespaces, classes.mapIdx fun i c => c.withId ⟨i⟩, packages⟩ := by
  rw [ofParts, foldl_addClass, foldl_addPackage]
  simp [empty]

/-- A collection has the classes it was made of, with other identities, and the packages. -/
theorem ofParts_spec (namespaces : Option Namespaces) (classes : List MappedClass)
    (packages : List Symbol) :
    (ofParts namespaces classes packages).namespaces = namespaces ∧
      List.Forall₂ (fun c c' => ∃ id, c' = MappedClass.withId c id) classes
        (ofParts namespaces classes packages).classes ∧
      (ofParts namespaces classes packages).packages = packages := by
  rw [ofParts_eq]
  refine ⟨rfl, List.forall₂_iff_get.2 ⟨by simp, fun i _ _ => ⟨⟨i⟩, by simp⟩⟩, rfl⟩

end GroupedMappings

theorem MappedClass.members_withId (c : MappedClass) (id : ClassId) :
    (c.withId id).members = c.members.map (Symbol.ownedBy id) := by
  rw [members, members, List.map_append]
  rfl

@[simp] theorem MappedClass.withId_withId (c : MappedClass) (id id' : ClassId) :
    (c.withId id).withId id' = c.withId id' := by
  simp [withId, Symbol.ownedBy, Symbol.set, Symbol.withTags, Symbol.names, Symbol.tags,
    Symbol.locals]

/-! ## Doing something to every symbol -/

section

variable {onInfo onField onMethod : Symbol → Outcome Symbol}

/-- The second symbol is what is made of the first, but for its owner. -/
def Symbol.Becomes (f : Symbol → Outcome Symbol) (s s' : Symbol) : Prop :=
  ∃ made id, f s = .ok made ∧ s' = made.ownedBy id

/-- The symbols of the second class are what is made of those of the first. -/
structure MappedClass.Becomes (onInfo onField onMethod : Symbol → Outcome Symbol)
    (c c' : MappedClass) : Prop where
  info : onInfo c.info = .ok c'.info
  fields : List.Forall₂ (Symbol.Becomes onField) c.fields c'.fields
  methods : List.Forall₂ (Symbol.Becomes onMethod) c.methods c'.methods

theorem MappedClass.becomes_of_traverse {c c' : MappedClass} (id : ClassId)
    (h : c.traverse onInfo onField onMethod = .ok c') :
    c.Becomes onInfo onField onMethod (c'.withId id) := by
  obtain ⟨info, hinfo, h⟩ := Outcome.bind_eq_ok_iff.1 h
  obtain ⟨fields, hfields, h⟩ := Outcome.bind_eq_ok_iff.1 h
  obtain ⟨methods, hmethods, h⟩ := Outcome.bind_eq_ok_iff.1 h
  obtain rfl := Except.ok.inj h
  have hmade : ∀ {f : Symbol → Outcome Symbol} {symbols made : List Symbol},
      symbols.mapM f = .ok made →
      List.Forall₂ (Symbol.Becomes f) symbols (made.map (Symbol.ownedBy id)) := by
    intro f symbols made hmap
    rw [List.forall₂_map_right_iff]
    exact (Outcome.mapM_eq_ok_iff.1 hmap).imp fun s s' hs => ⟨s', id, hs, rfl⟩
  exact ⟨hinfo, hmade hfields, hmade hmethods⟩

/-- The classes of a collection that is put together are what is made of the given classes. -/
theorem GroupedMappings.forall₂_becomes {namespaces : Option Namespaces}
    {classes made : List MappedClass} {packages : List Symbol}
    (h : classes.mapM (MappedClass.traverse onInfo onField onMethod) = .ok made) :
    List.Forall₂ (MappedClass.Becomes onInfo onField onMethod) classes
      (ofParts namespaces made packages).classes := by
  obtain ⟨-, hadded, -⟩ := ofParts_spec namespaces made packages
  refine forall₂_comp (Outcome.mapM_eq_ok_iff.1 h) hadded ?_
  rintro c c' _ htraverse ⟨id, rfl⟩
  exact MappedClass.becomes_of_traverse id htraverse

/-- Where the same is done to fields and methods, members become what is made of them. -/
theorem MappedClass.Becomes.members {f : Symbol → Outcome Symbol} {c c' : MappedClass}
    (h : c.Becomes onInfo f f c') : List.Forall₂ (Symbol.Becomes f) c.members c'.members :=
  List.rel_append h.fields h.methods

/-- Something can be done to the symbols of a class if it can be done to each of them. -/
theorem MappedClass.exists_traverse {c : MappedClass} (hinfo : ∃ s', onInfo c.info = .ok s')
    (hfields : ∀ s ∈ c.fields, ∃ s', onField s = .ok s')
    (hmethods : ∀ s ∈ c.methods, ∃ s', onMethod s = .ok s') :
    ∃ c', c.traverse onInfo onField onMethod = .ok c' := by
  obtain ⟨info, hinfo⟩ := hinfo
  obtain ⟨fields, hfields⟩ := Outcome.exists_mapM_iff.2 hfields
  obtain ⟨methods, hmethods⟩ := Outcome.exists_mapM_iff.2 hmethods
  refine ⟨⟨c.id, info, fields, methods⟩, ?_⟩
  rw [traverse, hinfo, hfields, hmethods]
  rfl

/-- What is made of a symbol does not depend on its owner, and has the same one. -/
def Symbol.IgnoresOwner (f : Symbol → Outcome Symbol) : Prop :=
  ∀ s s' id, f s = .ok s' → f (s.ownedBy id) = .ok (s'.ownedBy id)

/-- A class under another identity is made into what it was made into, under that identity. -/
theorem MappedClass.traverse_withId {c c' : MappedClass} (hfield : Symbol.IgnoresOwner onField)
    (hmethod : Symbol.IgnoresOwner onMethod) (h : c.traverse onInfo onField onMethod = .ok c')
    (id : ClassId) :
    (c.withId id).traverse onInfo onField onMethod = .ok (c'.withId id) := by
  obtain ⟨info, hinfo, h⟩ := Outcome.bind_eq_ok_iff.1 h
  obtain ⟨fields, hfields, h⟩ := Outcome.bind_eq_ok_iff.1 h
  obtain ⟨methods, hmethods, h⟩ := Outcome.bind_eq_ok_iff.1 h
  obtain rfl := Except.ok.inj h
  have hmembers : ∀ {f : Symbol → Outcome Symbol} {symbols made : List Symbol},
      Symbol.IgnoresOwner f → symbols.mapM f = .ok made →
      (symbols.map (Symbol.ownedBy id)).mapM f = .ok (made.map (Symbol.ownedBy id)) := by
    intro f symbols made hf hmade
    rw [Outcome.mapM_eq_ok_iff, List.forall₂_map_left_iff, List.forall₂_map_right_iff]
    exact (Outcome.mapM_eq_ok_iff.1 hmade).imp fun s s' hs => hf s s' id hs
  rw [traverse, withId, hinfo, Outcome.ok_bind, hmembers hfield hfields, Outcome.ok_bind,
    hmembers hmethod hmethods]
  rfl

/-- What is done to the classes of a collection gives what it gave for the classes that the
collection was put together of, up to identities. -/
theorem GroupedMappings.exists_mapM_ofParts {f : MappedClass → Outcome MappedClass}
    {classes made : List MappedClass} (namespaces : Option Namespaces) (packages : List Symbol)
    (hf : ∀ c c' id, f c = .ok c' → f (c.withId id) = .ok (c'.withId id))
    (h : classes.mapM f = .ok made) :
    ∃ made', (ofParts namespaces classes packages).classes.mapM f = .ok made' ∧
      ∀ namespaces packages,
        ofParts namespaces made' packages = ofParts namespaces made packages := by
  refine ⟨made.mapIdx fun i c => c.withId ⟨i⟩, ?_, fun _ _ => ?_⟩
  · rw [ofParts_eq, Outcome.mapM_eq_ok_iff]
    rw [Outcome.mapM_eq_ok_iff] at h
    refine List.forall₂_iff_get.2 ⟨by simp [h.length_eq], fun i hi hi' => ?_⟩
    rw [List.length_mapIdx] at hi hi'
    simpa using hf _ _ ⟨i⟩ (h.get hi hi')
  · simp [ofParts_eq, Function.comp_def]

end

/-! ## Symbols within symbols -/

namespace Symbol

/-- The second symbol is the first one or stands in it, as a local variable at any depth. -/
inductive Holds : Symbol → Symbol → Prop where
  | self (s : Symbol) : Holds s s
  | inLocal {s v : Symbol} {table : LocalTable} {e : Nat × Symbol} (htable : s.locals = some table)
    (he : e ∈ table) (h : Holds e.2 v) : Holds s v

/-- The second symbol stands in the first one, as a local variable at any depth. -/
def HoldsInside (s v : Symbol) : Prop :=
  ∃ table, s.locals = some table ∧ ∃ e ∈ table, e.2.Holds v

theorem holds_iff {s v : Symbol} : s.Holds v ↔ v = s ∨ s.HoldsInside v := by
  constructor
  · intro h
    cases h with
    | self => exact .inl rfl
    | inLocal htable he h => exact .inr ⟨_, htable, _, he, h⟩
  · rintro (rfl | ⟨table, htable, e, he, h⟩)
    · exact .self v
    · exact .inLocal htable he h

/-- What holds of everything in a symbol holds of the symbol and of everything in its local
variables. -/
theorem forall_holds_iff {s : Symbol} {P : Symbol → Prop} :
    (∀ v, s.Holds v → P v) ↔
      P s ∧ ∀ table, s.locals = some table → ∀ e ∈ table, ∀ v, e.2.Holds v → P v := by
  constructor
  · intro h
    exact ⟨h s (.self s), fun table htable e he v hv => h v (.inLocal htable he hv)⟩
  · rintro ⟨hself, hlocals⟩ v hv
    rcases holds_iff.1 hv with rfl | ⟨table, htable, e, he, hv⟩
    · exact hself
    · exact hlocals table htable e he v hv

/-- A symbol without local variables holds itself only. -/
theorem eq_of_holds {s v : Symbol} (hlocals : s.locals = none) (h : s.Holds v) : v = s := by
  rcases holds_iff.1 h with rfl | ⟨table, htable, -⟩
  · rfl
  · rw [hlocals] at htable
    cases htable

end Symbol

namespace GroupedMappings

/-- The symbol is a field or a method of a class. -/
def Declares (m : GroupedMappings) (s : Symbol) : Prop :=
  ∃ c ∈ m.classes, s ∈ c.members

/-- The symbol stands in the collection, but not as a field or a method of a class. -/
inductive Aside (m : GroupedMappings) (v : Symbol) : Prop where
  | inClass {c : MappedClass} (hc : c ∈ m.classes) (h : c.info.Holds v) : Aside m v
  | inMember {s : Symbol} (hs : m.Declares s) (h : s.HoldsInside v) : Aside m v
  | inPackage {p : Symbol} (hp : p ∈ m.packages) (h : p.Holds v) : Aside m v

/-- The symbol stands in the collection. -/
def Holds (m : GroupedMappings) (v : Symbol) : Prop :=
  m.Declares v ∨ m.Aside v

/-- Where the same is done to fields and methods, a member is what was made of a member. -/
theorem exists_of_declares {onInfo f : Symbol → Outcome Symbol} {m m' : GroupedMappings}
    {s' : Symbol} (h : List.Forall₂ (MappedClass.Becomes onInfo f f) m.classes m'.classes)
    (hs' : m'.Declares s') : ∃ s, m.Declares s ∧ s.Becomes f s' := by
  obtain ⟨c', hc', hs'⟩ := hs'
  obtain ⟨c, hc, hbecomes⟩ := exists_left_of_forall₂ h hc'
  obtain ⟨s, hs, hmade⟩ := exists_left_of_forall₂ hbecomes.members hs'
  exact ⟨s, ⟨c, hc, hs⟩, hmade⟩

/-- What holds of everything in classes, members and packages holds of the whole collection. -/
theorem forall_holds {m : GroupedMappings} {P : Symbol → Prop}
    (hclasses : ∀ c ∈ m.classes, ∀ v, c.info.Holds v → P v)
    (hmembers : ∀ s, m.Declares s → ∀ v, s.Holds v → P v)
    (hpackages : ∀ p ∈ m.packages, ∀ v, p.Holds v → P v) : ∀ v, m.Holds v → P v := by
  rintro v (hs | ⟨hc, h⟩ | ⟨hs, h⟩ | ⟨hp, h⟩)
  · exact hmembers v hs v (.self v)
  · exact hclasses _ hc v h
  · exact hmembers _ hs v (Symbol.holds_iff.2 (.inr h))
  · exact hpackages _ hp v h

/-- What holds of every local variable holds at any depth where local variables have none. -/
theorem forall_holdsInside {m : GroupedMappings} {P : Symbol → Prop}
    (h : ∀ s ∈ m.packages ++ m.classes.flatMap (fun c => c.info :: c.members),
      ∀ table ∈ s.locals, ∀ e ∈ table, e.2.locals = none ∧ P e.2) :
    ∀ s, m.Holds s → ∀ v, s.HoldsInside v → P v := by
  have hnested : ∀ top ∈ m.packages ++ m.classes.flatMap (fun c => c.info :: c.members),
      ∀ s, top.Holds s → ∀ v, s.HoldsInside v → P v := by
    rintro top htop s hs v ⟨table, htable, e, he, hv⟩
    rcases Symbol.holds_iff.1 hs with rfl | ⟨outer, houter, e', he', hs⟩
    · obtain ⟨hnone, hP⟩ := h _ htop table htable e he
      exact Symbol.eq_of_holds hnone hv ▸ hP
    · obtain ⟨hnone, -⟩ := h top htop outer houter e' he'
      obtain rfl := Symbol.eq_of_holds hnone hs
      rw [hnone] at htable
      cases htable
  refine forall_holds (fun c hc => hnested c.info ?_) (fun s ⟨c, hc, hs⟩ => hnested s ?_)
    fun p hp => hnested p (List.mem_append_left _ hp)
  · exact List.mem_append_right _ (List.mem_flatMap.2 ⟨c, hc, List.mem_cons_self⟩)
  · exact List.mem_append_right _ (List.mem_flatMap.2 ⟨c, hc, List.mem_cons_of_mem _ hs⟩)

theorem holds_of_class {m : GroupedMappings} {c : MappedClass} {s v : Symbol} (hc : c ∈ m.classes)
    (hs : s ∈ c.info :: c.members) (h : s.Holds v) : m.Holds v := by
  rcases List.mem_cons.1 hs with rfl | hs
  · exact .inr (.inClass hc h)
  · rcases Symbol.holds_iff.1 h with rfl | h
    · exact .inl ⟨c, hc, hs⟩
    · exact .inr (.inMember ⟨c, hc, hs⟩ h)

end GroupedMappings

end SymbolMap
