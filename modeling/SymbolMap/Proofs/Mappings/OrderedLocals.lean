import SymbolMap.Proofs.Mappings.Identities
import SymbolMap.Proofs.Mappings.TransformedValidity

/-!
# Local variables in order

A table of local variables is a finite map if it is sorted, and nothing in the type of a symbol says
that it is.  A collection is **ordered** (`GroupedMappings.Ordered`) if every table in it is, that
of a member as well as that of a local variable of a local variable.  Each operation on collections
keeps this: reversal keeps the indices of a table, projection picks some of them, and the others
leave local variables alone.  So a collection is ordered if it is built of classes and packages that
are (`BuiltInOrder.ordered`).

Order is what lets a projection be read index by index (`LocalTable.Sorted.get?_projectLocals`).  In
a table with a repeated index, a variable that is left out would uncover another one.
-/

namespace SymbolMap

/-! ## Symbols -/

namespace Symbol

variable {source target : NamespaceId} {s s' : Symbol} {table table' : LocalTable}

theorem Ordered.ownedBy (h : s.Ordered) (id : ClassId) : (s.ownedBy id).Ordered :=
  h.of_locals_eq rfl

/-- What is made of an ordered symbol is ordered. -/
def KeepsOrder (f : Symbol → Outcome Symbol) : Prop :=
  ∀ s s', f s = .ok s' → s.Ordered → s'.Ordered

theorem keepsOrder_of_locals_eq {f : Symbol → Outcome Symbol}
    (h : ∀ s s', f s = .ok s' → s'.locals = s.locals) : KeepsOrder f :=
  fun s s' hmade hs => hs.of_locals_eq (h s s' hmade)

theorem keepsOrder_renameMapped (members : Table String Symbol) :
    KeepsOrder (renameMapped members) := by
  refine keepsOrder_of_locals_eq fun s s' h => ?_
  rcases renameMapped_cases h with rfl | ⟨x, y, y', target, -, -, -, rfl⟩
  · rfl
  · rfl

theorem keepsOrder_chainMember (members classes : Table String Symbol) :
    KeepsOrder (chainMember members classes) := by
  intro s s' h hs
  rw [chainMember, Outcome.bind_eq_ok_iff] at h
  obtain ⟨renamed, hrenamed, h⟩ := h
  have hordered := keepsOrder_renameMapped members s renamed hrenamed hs
  split at h
  · exact Except.ok.inj h ▸ hordered
  · obtain ⟨desc, -, h⟩ := Outcome.bind_eq_ok_iff.1 h
    obtain rfl := Except.ok.inj h
    exact hordered.of_locals_eq rfl

theorem keepsOrder_moveDescriptor (ns : Namespaces) (target : NamespaceId)
    (tables : List (Table String String)) : KeepsOrder (moveDescriptor ns target tables) :=
  keepsOrder_of_locals_eq fun _ _ h => (keeps_of_moveDescriptor h).2

/-- **Reversal keeps the order**, since a reversed table has the same indices. -/
theorem keepsOrder_reverse : KeepsOrder reverse := by
  intro s s' h hs
  induction hs generalizing s' with
  | @intro s sorted _ ih =>
    obtain ⟨x, y, -, -, -, hlocals⟩ := reverse_cases h
    refine ordered_iff.2 fun table' htable' => ?_
    obtain ⟨table, htable, hreversed⟩ := hlocals table' htable'
    have hindices : table.map Prod.fst = table'.map Prod.fst :=
      map_eq_map_of_forall₂ hreversed fun e e' he => he.1.symm
    refine ⟨(sorted table htable).of_sublist (hindices ▸ List.Sublist.refl _), fun e' he' => ?_⟩
    obtain ⟨e, he, -, hlocal⟩ := exists_left_of_forall₂ hreversed he'
    exact ih table htable e he e'.2 hlocal

/-- A projected table has some of the indices. -/
theorem sublist_projectLocals (h : projectLocals source target table = .ok table') :
    (table'.map Prod.fst).Sublist (table.map Prod.fst) := by
  induction table generalizing table' with
  | nil =>
    obtain rfl := Except.ok.inj h
    exact List.Sublist.refl _
  | cons e rest ih =>
    obtain ⟨index, s⟩ := e
    rw [projectLocals, Outcome.bind_eq_ok_iff] at h
    obtain ⟨s', -, h⟩ := h
    obtain ⟨rest', hrest, h⟩ := Outcome.bind_eq_ok_iff.1 h
    obtain rfl := Except.ok.inj h
    cases s' with
    | none => exact (ih hrest).cons _
    | some s' => exact (ih hrest).cons_cons _

/-- **Projection keeps the order**, since a projected table has some of the indices. -/
theorem Ordered.project (h : s.Ordered) (hproject : s.project source target = .ok (some s')) :
    s'.Ordered := by
  induction h generalizing s' with
  | @intro s sorted _ ih =>
    obtain ⟨-, -, hlocals⟩ := project_eq_some hproject
    refine ordered_iff.2 fun table' htable' => ?_
    obtain ⟨table, htable, hprojected⟩ := hlocals table' htable'
    refine ⟨(sorted table htable).of_sublist (sublist_projectLocals hprojected), fun e' he' => ?_⟩
    obtain ⟨e, he, -, hlocal⟩ := exists_of_mem_projectLocals hprojected he'
    exact ih table htable e he hlocal

/-- Each local variable of a projected table is projected; what it becomes, if anything, is in the
new table under its index. -/
theorem exists_project_of_mem (h : projectLocals source target table = .ok table')
    {e : Nat × Symbol} (he : e ∈ table) :
    ∃ projected, e.2.project source target = .ok projected ∧
      ∀ s', projected = some s' → (e.1, s') ∈ table' := by
  induction table generalizing table' with
  | nil => cases he
  | cons first rest ih =>
    obtain ⟨index, v⟩ := first
    rw [projectLocals, Outcome.bind_eq_ok_iff] at h
    obtain ⟨v', hv, h⟩ := h
    obtain ⟨rest', hrest, h⟩ := Outcome.bind_eq_ok_iff.1 h
    obtain rfl := Except.ok.inj h
    rcases List.mem_cons.1 he with rfl | he
    · refine ⟨v', hv, fun s' hs' => ?_⟩
      subst hs'
      exact List.mem_cons_self
    · obtain ⟨projected, hproject, hmem⟩ := ih hrest he
      refine ⟨projected, hproject, fun s' hs' => ?_⟩
      cases v' with
      | none => exact hmem s' hs'
      | some v' => exact List.mem_cons_of_mem _ (hmem s' hs')

/-- A local variable with a name in the source is in the projected table, under its index. -/
theorem mem_projectLocals_of_mem (h : projectLocals source target table = .ok table')
    {e : Nat × Symbol} (he : e ∈ table) (hs : e.2.project source target = .ok (some s')) :
    (e.1, s') ∈ table' := by
  obtain ⟨projected, hproject, hmem⟩ := exists_project_of_mem h he
  obtain rfl := Outcome.eq_of_eq_ok hs hproject
  exact hmem s' rfl

end Symbol

/-- **A sorted table is projected index by index.** -/
theorem LocalTable.Sorted.get?_projectLocals {source target : NamespaceId} {t t' : LocalTable}
    {index : Nat} {v' : Symbol} (ht : t.Sorted)
    (h : Symbol.projectLocals source target t = .ok t') :
    t'.get? index = some v' ↔
      ∃ v, t.get? index = some v ∧ v.project source target = .ok (some v') := by
  rw [(ht.of_sublist (Symbol.sublist_projectLocals h)).get?_eq_some_iff]
  simp only [ht.get?_eq_some_iff]
  constructor
  · intro hmem
    obtain ⟨e, he, rfl, hproject⟩ := Symbol.exists_of_mem_projectLocals h hmem
    exact ⟨e.2, he, hproject⟩
  · intro hfound
    obtain ⟨v, hv, hproject⟩ := hfound
    exact Symbol.mem_projectLocals_of_mem h hv hproject

/-! ## Classes -/

/-- The symbols of the class and of its members are ordered. -/
structure MappedClass.Ordered (c : MappedClass) : Prop where
  info : c.info.Ordered
  fields : ∀ s ∈ c.fields, s.Ordered
  methods : ∀ s ∈ c.methods, s.Ordered

/-- Symbols that are made of ordered ones, but for their owners, are ordered. -/
theorem Symbol.ordered_of_becomes {f : Symbol → Outcome Symbol} {symbols made : List Symbol}
    (h : List.Forall₂ (Symbol.Becomes f) symbols made) (hf : KeepsOrder f)
    (hordered : ∀ s ∈ symbols, s.Ordered) : ∀ s' ∈ made, s'.Ordered := by
  intro s' hs'
  obtain ⟨s, hs, made, id, hmade, rfl⟩ := exists_left_of_forall₂ h hs'
  exact (hf s made hmade (hordered s hs)).ownedBy id

namespace MappedClass

variable {c c' : MappedClass}

theorem Ordered.member (h : c.Ordered) {s : Symbol} (hs : s ∈ c.members) : s.Ordered :=
  (List.mem_append.1 hs).elim (h.fields s) (h.methods s)

theorem ordered_ofInfo {info : Symbol} (h : info.Ordered) : (ofInfo info).Ordered :=
  ⟨h, fun _ hs => (nomatch hs), fun _ hs => (nomatch hs)⟩

theorem Ordered.addField (h : c.Ordered) {field : Symbol} (hfield : field.Ordered) :
    (c.addField field).Ordered := by
  refine ⟨h.info, fun s hs => ?_, h.methods⟩
  rcases List.mem_append.1 hs with hs | hs
  · exact h.fields s hs
  · obtain rfl := List.mem_singleton.1 hs
    exact hfield.ownedBy _

theorem Ordered.addMethod (h : c.Ordered) {method : Symbol} (hmethod : method.Ordered) :
    (c.addMethod method).Ordered := by
  refine ⟨h.info, h.fields, fun s hs => ?_⟩
  rcases List.mem_append.1 hs with hs | hs
  · exact h.methods s hs
  · obtain rfl := List.mem_singleton.1 hs
    exact hmethod.ownedBy _

theorem Ordered.withId (h : c.Ordered) (id : ClassId) : (c.withId id).Ordered where
  info := h.info
  fields := List.forall_mem_map.2 fun s hs => (h.fields s hs).ownedBy id
  methods := List.forall_mem_map.2 fun s hs => (h.methods s hs).ownedBy id

theorem Becomes.ordered {onInfo onField onMethod : Symbol → Outcome Symbol}
    (h : c.Becomes onInfo onField onMethod c') (hinfo : Symbol.KeepsOrder onInfo)
    (hfield : Symbol.KeepsOrder onField) (hmethod : Symbol.KeepsOrder onMethod)
    (hc : c.Ordered) : c'.Ordered where
  info := hinfo _ _ h.info hc.info
  fields := Symbol.ordered_of_becomes h.fields hfield hc.fields
  methods := Symbol.ordered_of_becomes h.methods hmethod hc.methods

end MappedClass

/-! ## Collections -/

namespace GroupedMappings

/-- All tables of local variables in the collection are sorted. -/
structure Ordered (m : GroupedMappings) : Prop where
  classes : ∀ c ∈ m.classes, c.Ordered
  packages : ∀ p ∈ m.packages, p.Ordered

variable {m m' : GroupedMappings} {c : MappedClass} {s p : Symbol} {name name' : String}

theorem Ordered.member (h : m.Ordered) (hs : m.Declares s) : s.Ordered := by
  obtain ⟨c, hc, hs⟩ := hs
  exact (h.classes c hc).member hs

theorem ordered_empty (namespaces : Option Namespaces) : (empty namespaces).Ordered :=
  ⟨fun _ hc => (nomatch hc), fun _ hp => (nomatch hp)⟩

theorem Ordered.addClass (h : m.Ordered) (hc : c.Ordered) : (m.addClass c).Ordered := by
  refine ⟨fun c' hc' => ?_, h.packages⟩
  rcases List.mem_append.1 hc' with hc' | hc'
  · exact h.classes c' hc'
  · obtain rfl := List.mem_singleton.1 hc'
    exact hc.withId _

theorem Ordered.addPackage (h : m.Ordered) (hp : p.Ordered) : (m.addPackage p).Ordered := by
  refine ⟨h.classes, fun p' hp' => ?_⟩
  rcases List.mem_append.1 hp' with hp' | hp'
  · exact h.packages p' hp'
  · obtain rfl := List.mem_singleton.1 hp'
    exact hp

theorem Ordered.reverse (h : m.Ordered) (hreverse : m.reverse = .ok m') : m'.Ordered := by
  obtain ⟨-, -, hclasses, hpackages⟩ := reverse_eq_ok hreverse
  refine ⟨fun c' hc' => ?_, fun p' hp' => ?_⟩
  · obtain ⟨c, hc, hbecomes⟩ := exists_left_of_forall₂ hclasses hc'
    exact hbecomes.ordered Symbol.keepsOrder_reverse Symbol.keepsOrder_reverse
      Symbol.keepsOrder_reverse (h.classes c hc)
  · obtain ⟨p, hp, hmade⟩ := exists_left_of_forall₂ hpackages hp'
    exact Symbol.keepsOrder_reverse p p' hmade (h.packages p hp)

theorem Ordered.chain {flat : FlatMappings} (h : m.Ordered) (hchain : m.chain flat = .ok m') :
    m'.Ordered := by
  obtain ⟨classes, fields, methods, -, -, -, -, hpackages, hclasses⟩ := chain_eq_ok hchain
  refine ⟨fun c' hc' => ?_, hpackages ▸ h.packages⟩
  obtain ⟨c, hc, hbecomes⟩ := exists_left_of_forall₂ hclasses hc'
  exact hbecomes.ordered (Symbol.keepsOrder_renameMapped classes)
    (Symbol.keepsOrder_chainMember fields classes) (Symbol.keepsOrder_chainMember methods classes)
    (h.classes c hc)

theorem Ordered.descriptorsIn (h : m.Ordered) (hmove : m.descriptorsIn name = .ok m') :
    m'.Ordered := by
  obtain ⟨ns, target, tables, -, -, -, -, hpackages, hclasses⟩ := descriptorsIn_eq_ok hmove
  refine ⟨fun c' hc' => ?_, hpackages ▸ h.packages⟩
  obtain ⟨c, hc, hbecomes⟩ := exists_left_of_forall₂ hclasses hc'
  have hmember := Symbol.keepsOrder_moveDescriptor ns target tables
  exact hbecomes.ordered (Symbol.keepsOrder_of_locals_eq fun s s' hs => Except.ok.inj hs ▸ rfl)
    hmember hmember (h.classes c hc)

theorem Ordered.project (h : m.Ordered) (hproject : m.project name name' = .ok m') :
    m'.Ordered := by
  obtain ⟨ns, source, target, -, -, -, -, hclasses, hmembers, hpackages⟩ := project_eq_ok hproject
  have hmember : ∀ s', m'.Declares s' → s'.Ordered := by
    intro s' hs'
    obtain ⟨s, made, id, hs, hmade, rfl⟩ := hmembers s' hs'
    exact ((h.member hs).project hmade).ownedBy id
  refine ⟨fun c' hc' => ⟨?_, fun s' hs' => ?_, fun s' hs' => ?_⟩, fun p' hp' => ?_⟩
  · obtain ⟨c, hc, hinfo⟩ := hclasses c' hc'
    exact (h.classes c hc).info.project hinfo
  · exact hmember s' ⟨c', hc', List.mem_append_left _ hs'⟩
  · exact hmember s' ⟨c', hc', List.mem_append_right _ hs'⟩
  · obtain ⟨p, hp, hmade⟩ := hpackages p' hp'
    exact (h.packages p hp).project hmade

/-- The collection comes from an empty one by operations, and the classes and packages that are
added are ordered. -/
inductive BuiltInOrder : GroupedMappings → Prop where
  | empty (namespaces : Option Namespaces) : BuiltInOrder (empty namespaces)
  | addClass {m : GroupedMappings} {c : MappedClass} (hm : BuiltInOrder m) (hc : c.Ordered) :
    BuiltInOrder (m.addClass c)
  | addPackage {m : GroupedMappings} {p : Symbol} (hm : BuiltInOrder m) (hp : p.Ordered) :
    BuiltInOrder (m.addPackage p)
  | reverse {m m' : GroupedMappings} (hm : BuiltInOrder m) (h : m.reverse = .ok m') :
    BuiltInOrder m'
  | chain {m m' : GroupedMappings} {flat : FlatMappings} (hm : BuiltInOrder m)
    (h : m.chain flat = .ok m') : BuiltInOrder m'
  | project {m m' : GroupedMappings} {source target : String} (hm : BuiltInOrder m)
    (h : m.project source target = .ok m') : BuiltInOrder m'
  | descriptorsIn {m m' : GroupedMappings} {target : String} (hm : BuiltInOrder m)
    (h : m.descriptorsIn target = .ok m') : BuiltInOrder m'

theorem BuiltInOrder.built (h : m.BuiltInOrder) : m.Built := by
  induction h with
  | empty namespaces => exact .empty namespaces
  | addClass _ _ ih => exact .step ih (.addClass _ _)
  | addPackage _ _ ih => exact .step ih (.addPackage _ _)
  | reverse _ h ih => exact .step ih (.reverse h)
  | chain _ h ih => exact .step ih (.chain _ h)
  | project _ h ih => exact .step ih (.project _ _ h)
  | descriptorsIn _ h ih => exact .step ih (.descriptorsIn _ h)

/-- **A collection that is built of ordered parts is ordered.** -/
theorem BuiltInOrder.ordered (h : m.BuiltInOrder) : m.Ordered := by
  induction h with
  | empty namespaces => exact ordered_empty namespaces
  | addClass _ hc ih => exact ih.addClass hc
  | addPackage _ hp ih => exact ih.addPackage hp
  | reverse _ h ih => exact ih.reverse h
  | chain _ h ih => exact ih.chain h
  | project _ h ih => exact ih.project h
  | descriptorsIn _ h ih => exact ih.descriptorsIn h

end GroupedMappings

end SymbolMap
