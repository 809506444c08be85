import SymbolMap.Proofs.Mappings.PairTables
import SymbolMap.Proofs.Mappings.Parts
import SymbolMap.Renamer.Basic

/-!
# What a renamer has in its tables

A renamer is built from a paired collection.  Each member of the collection has a row in its tables:
the unmapped name and descriptor, and the entry they lead to (`Symbol.Enters`).  The tables hold the
rows of all members and nothing else, by class and kind, and the names kept beside them are the
unmapped names of all members (`Represents`).

This is what every statement about member queries rests on, so nothing after this module opens the
tables again: `Renamer.lookup` is read off the rows by `lookup_eq`.
-/

namespace SymbolMap

/-- The members of a kind. -/
def MappedClass.membersOf (c : MappedClass) : MemberKind → List Symbol
  | .field => c.fields
  | .method => c.methods

theorem MappedClass.mem_members_of_membersOf {c : MappedClass} {kind : MemberKind} {s : Symbol}
    (h : s ∈ c.membersOf kind) : s ∈ c.members := by
  cases kind with
  | field => exact List.mem_append_left _ h
  | method => exact List.mem_append_right _ h

/-- The members of a kind become what is made of members of that kind. -/
theorem MappedClass.Becomes.membersOf {onInfo : Symbol → Outcome Symbol} {c c' : MappedClass}
    (onMember : MemberKind → Symbol → Outcome Symbol)
    (h : c.Becomes onInfo (onMember .field) (onMember .method) c') (kind : MemberKind) :
    List.Forall₂ (Symbol.Becomes (onMember kind)) (c.membersOf kind) (c'.membersOf kind) := by
  cases kind with
  | field => exact h.fields
  | method => exact h.methods

namespace Table

variable {α β : Type} [DecidableEq α]

theorem get?_insert (t : Table α β) (k : α) (v : β) (x : α) :
    (t.insert k v).get? x = if x = k then some v else t.get? x := by
  rw [insert]
  split
  · rename_i hk
    apply Option.ext
    intro w
    rw [get?_eq_some_iff, List.mem_map]
    by_cases hx : x = k
    · subst hx
      obtain ⟨⟨a, old⟩, he, rfl⟩ := List.mem_map.1 hk
      rw [if_pos rfl, Option.some.injEq]
      constructor
      · rintro ⟨e, -, heq⟩
        split at heq
        · exact congrArg Prod.snd heq
        · rename_i hne
          exact absurd (congrArg Prod.fst heq) hne
      · rintro rfl
        exact ⟨_, he, by simp⟩
    · rw [if_neg hx, get?_eq_some_iff]
      constructor
      · rintro ⟨e, he, heq⟩
        split at heq
        · rename_i hek
          exact absurd ((congrArg Prod.fst heq).symm.trans hek) hx
        · exact heq ▸ he
      · intro he
        exact ⟨_, he, if_neg hx⟩
  · exact get?_push ..

theorem mem_keys_insert {t : Table α β} {k : α} {v : β} {x : α} :
    x ∈ (t.insert k v).keys ↔ x = k ∨ x ∈ t.keys := by
  by_cases hk : k ∈ t.keys
  · rw [keys_insert_of_mem v hk]
    exact ⟨.inr, fun h => h.elim (· ▸ hk) id⟩
  · rw [keys_insert_of_not_mem v hk, List.mem_append, List.mem_singleton, or_comm]

/-- A table filled with entries of different keys has these entries and those it began with. -/
theorem get?_foldl_insert {es : List (α × β)} (hnodup : (es.map Prod.fst).Nodup) (t : Table α β)
    {k : α} {v : β} :
    (es.foldl (fun t e => t.insert e.1 e.2) t).get? k = some v ↔
      (k, v) ∈ es ∨ (k ∉ es.map Prod.fst ∧ t.get? k = some v) := by
  induction es generalizing t with
  | nil => simp
  | cons e es ih =>
    obtain ⟨a, b⟩ := e
    rw [List.map_cons, List.nodup_cons] at hnodup
    rw [List.foldl_cons, ih hnodup.2, get?_insert, List.mem_cons, List.map_cons, List.mem_cons,
      not_or, Prod.mk.injEq]
    by_cases hk : k = a
    · subst hk
      have hnot : (k, v) ∉ es := fun h => hnodup.1 (List.mem_map.2 ⟨_, h, rfl⟩)
      simp [hnot, hnodup.1, eq_comm]
    · simp [hk]

end Table

/-! ## The table of a list of members -/

/-- The member has a row: its unmapped name and descriptor, and the entry they lead to. -/
structure Symbol.Enters (classes : ClassRenames) (s : Symbol) (name : String)
    (desc : Option String) (entry : MemberEntry) : Prop where
  name : s.unmappedName = .ok name
  descriptors : memberDescriptors classes s.tags = .ok (desc, entry.target.desc)
  locals : mappedLocals s = .ok entry.locals
  mapped : s.mappedName = .ok entry.target.name

namespace MemberTable

/-- The entry of a row. -/
def entryAt (t : MemberTable) (name : String) (desc : Option String) : Option MemberEntry :=
  (t.get? name).bind fun overloads => overloads.get? desc

variable {classes : ClassRenames} {scope : Scope} {owner name : String} {desc : Option String}
  {entry : MemberEntry} {t t' : MemberTable} {s : Symbol} {symbols : List Symbol}

theorem enterSymbol_eq_ok_iff :
    t.enterSymbol classes scope owner s = .ok t' ↔
      ∃ name desc entry, s.Enters classes name desc entry ∧
        t.enter scope owner name desc entry = .ok t' := by
  simp only [enterSymbol, Outcome.bind_eq_ok_iff]
  constructor
  · rintro ⟨name, hname, ⟨desc, mappedDesc⟩, hdesc, locals, hlocals, mapped, hmapped, h⟩
    exact ⟨name, desc, ⟨⟨mapped, mappedDesc⟩, locals⟩, ⟨hname, hdesc, hlocals, hmapped⟩, h⟩
  · rintro ⟨name, desc, entry, henters, h⟩
    exact ⟨name, henters.name, _, henters.descriptors, _, henters.locals, _, henters.mapped, h⟩

/-- Entering a row adds it under a name and descriptor that no row had. -/
theorem entryAt_of_enter (h : t.enter scope owner name desc entry = .ok t') :
    t.entryAt name desc = none ∧
      (∀ n d, t'.entryAt n d = if n = name ∧ d = desc then some entry else t.entryAt n d) ∧
      ∀ n, n ∈ t'.keys ↔ n = name ∨ n ∈ t.keys := by
  rw [enter] at h
  split at h
  · rename_i overloads hadd
    cases h
    obtain ⟨hnew, rfl⟩ := Table.add?_eq_some_iff.1 hadd
    have hold : ∀ d, ((t.get? name).getD .empty).get? d = t.entryAt name d := by
      intro d
      rw [entryAt]
      cases t.get? name <;> rfl
    refine ⟨?_, fun n d => ?_, fun n => Table.mem_keys_insert⟩
    · rw [← hold, Table.get?_eq_none_iff]
      exact hnew
    · rw [entryAt, Table.get?_insert]
      by_cases hn : n = name
      · subst hn
        rw [if_pos rfl, Option.bind_some, Table.get?_push, hold]
        simp
      · simp [hn, entryAt]
  · cases h

theorem entryAt_of_foldlM (h : symbols.foldlM (enterSymbol classes scope owner) t = .ok t') :
    (∀ n d e, t'.entryAt n d = some e ↔
        t.entryAt n d = some e ∨ ∃ s ∈ symbols, s.Enters classes n d e) ∧
      (∀ n, n ∈ t'.keys ↔ n ∈ t.keys ∨ ∃ s ∈ symbols, s.unmappedName = .ok n) ∧
      ∀ s ∈ symbols, ∃ n d e, s.Enters classes n d e := by
  induction symbols generalizing t with
  | nil =>
    cases h
    simp
  | cons s symbols ih =>
    rw [List.foldlM_cons, Outcome.bind_eq_ok_iff] at h
    obtain ⟨t₁, hs, hrest⟩ := h
    obtain ⟨name, desc, entry, henters, henter⟩ := enterSymbol_eq_ok_iff.1 hs
    obtain ⟨hnew, hentry, hkeys⟩ := entryAt_of_enter henter
    obtain ⟨ihentry, ihkeys, ihall⟩ := ih hrest
    -- the row of a symbol is determined by the symbol
    have hrow : ∀ n d e, s.Enters classes n d e ↔ n = name ∧ d = desc ∧ e = entry := by
      intro n d e
      constructor
      · intro h
        have hn := Outcome.eq_of_eq_ok h.name henters.name
        have hd := Prod.mk.inj (Outcome.eq_of_eq_ok h.descriptors henters.descriptors)
        have hl := Outcome.eq_of_eq_ok h.locals henters.locals
        have hm := Outcome.eq_of_eq_ok h.mapped henters.mapped
        obtain ⟨⟨en, ed⟩, el⟩ := e
        obtain ⟨⟨en', ed'⟩, el'⟩ := entry
        simp_all
      · rintro ⟨rfl, rfl, rfl⟩
        exact henters
    refine ⟨fun n d e => ?_, fun n => ?_, ?_⟩
    · rw [ihentry, hentry]
      simp only [List.mem_cons, exists_eq_or_imp, hrow]
      by_cases hnd : n = name ∧ d = desc
      · obtain ⟨rfl, rfl⟩ := hnd
        simp [hnew, eq_comm]
      · rw [if_neg hnd]
        have : ¬ (n = name ∧ d = desc ∧ e = entry) := fun h => hnd ⟨h.1, h.2.1⟩
        simp [this]
    · rw [ihkeys, hkeys]
      simp only [List.mem_cons, exists_eq_or_imp, henters.name, Except.ok.injEq]
      rw [or_comm (a := n = name), or_assoc, eq_comm (a := n)]
    · intro s' hs'
      rcases List.mem_cons.1 hs' with rfl | hs'
      · exact ⟨name, desc, entry, henters⟩
      · exact ihall s' hs'

/-- **The table of a list of members holds exactly their rows.** -/
theorem entryAt_of_ofSymbols (h : ofSymbols classes scope owner symbols = .ok t) :
    (∀ n d e, t.entryAt n d = some e ↔ ∃ s ∈ symbols, s.Enters classes n d e) ∧
      (∀ n, n ∈ t.keys ↔ ∃ s ∈ symbols, s.unmappedName = .ok n) ∧
      ∀ s ∈ symbols, ∃ n d e, s.Enters classes n d e := by
  obtain ⟨hentry, hkeys, hall⟩ := entryAt_of_foldlM h
  refine ⟨fun n d e => ?_, fun n => ?_, hall⟩
  · rw [hentry]
    simp [entryAt]
  · rw [hkeys]
    simp

end MemberTable

/-! ## All classes -/

namespace Renamer

/-- The entry of a row of a class. -/
def entryAt (r : Renamer) (kind : MemberKind) (owner name : String) (desc : Option String) :
    Option MemberEntry :=
  (r.members.get? owner).bind fun c => (c.table kind).entryAt name desc

/-- The renamer has exactly the rows of the members of a collection, under its class renames. -/
structure Represents (r : Renamer) (m : GroupedMappings) : Prop where
  /-- The class renames are those of the collection. -/
  classes : ClassRenames.ofMappings m = .ok r.classes
  /-- An entry comes from a row of a member of the class. -/
  entryAt_iff : ∀ kind owner name desc entry, r.entryAt kind owner name desc = some entry ↔
    ∃ c ∈ m.classes, c.unmappedName = .ok owner ∧
      ∃ s ∈ c.membersOf kind, s.Enters r.classes name desc entry
  /-- The names kept beside the rows are those of the members. -/
  mem_mappedNames_iff : ∀ kind name, name ∈ r.mappedNames kind ↔
    ∃ c ∈ m.classes, ∃ s ∈ c.membersOf kind, s.unmappedName = .ok name
  /-- Every member has a row. -/
  enters : ∀ c ∈ m.classes, ∀ kind, ∀ s ∈ c.membersOf kind,
    ∃ name desc entry, s.Enters r.classes name desc entry

variable {r : Renamer} {m : GroupedMappings}

/-- A look-up takes the row with the descriptor; without one, a row without descriptor answers for a
field and stops the query for a method. -/
theorem lookup_eq (r : Renamer) (declaring : String) (m : MemberRef) :
    r.lookup declaring m =
      match r.entryAt m.kind declaring m.name (some m.desc) with
      | some entry => .ok (some entry)
      | none =>
        match m.kind, r.entryAt m.kind declaring m.name none with
        | .field, entry => .ok entry
        | .method, none => .ok none
        | .method, some _ => .malformed (.methodWithoutDescriptor declaring m.name m.desc) := by
  obtain ⟨kind, name, desc⟩ := m
  simp only [lookup, entryAt, MemberTable.entryAt]
  cases r.members.get? declaring with
  | none => cases kind <;> rfl
  | some c =>
    simp only [Option.bind_some]
    cases (c.table kind).get? name with
    | none => cases kind <;> rfl
    | some overloads => rfl

/-- Where no row is without a descriptor, a look-up takes the row with the descriptor. -/
theorem lookup_eq_entryAt {declaring : String} {m : MemberRef}
    (h : r.entryAt m.kind declaring m.name none = none) :
    r.lookup declaring m = .ok (r.entryAt m.kind declaring m.name (some m.desc)) := by
  rw [lookup_eq, h]
  cases r.entryAt m.kind declaring m.name (some m.desc) with
  | some entry => rfl
  | none => cases m.kind <;> rfl

/-- A look-up finds nothing where neither a row with the descriptor nor one without is there. -/
theorem lookup_eq_none_iff {declaring : String} {m : MemberRef} :
    r.lookup declaring m = .ok none ↔
      r.entryAt m.kind declaring m.name (some m.desc) = none ∧
        r.entryAt m.kind declaring m.name none = none := by
  constructor
  · intro h
    rw [lookup_eq] at h
    split at h
    · cases h
    · rename_i hdesc
      refine ⟨hdesc, ?_⟩
      split at h
      · exact Except.ok.inj h
      · rename_i hnone
        exact hnone
      · cases h
  · rintro ⟨hdesc, hnone⟩
    rw [lookup_eq_entryAt hnone, hdesc]

/-- What a look-up finds is a row with the descriptor or one without. -/
theorem entryAt_of_lookup {declaring : String} {m : MemberRef} {entry : MemberEntry}
    (h : r.lookup declaring m = .ok (some entry)) :
    r.entryAt m.kind declaring m.name (some m.desc) = some entry ∨
      r.entryAt m.kind declaring m.name none = some entry := by
  rw [lookup_eq] at h
  split at h
  · rename_i found hfound
    obtain rfl := Option.some.inj (Except.ok.inj h)
    exact .inl hfound
  · split at h
    · exact .inr (Except.ok.inj h)
    · cases h
    · cases h

/-- The row of a class in the member tables. -/
theorem members_of_mapM {classes : ClassRenames} {members : List (String × ClassMembers)}
    (h : m.classes.mapM (fun c => do
      let owner ← c.unmappedName
      let members ← ClassMembers.ofClass classes owner c
      return (owner, members)) = .ok members) :
    List.Forall₂ (fun c (e : String × ClassMembers) => c.unmappedName = .ok e.1 ∧
      ∀ kind, MemberTable.ofSymbols classes kind.scope e.1 (c.membersOf kind) =
        .ok (e.2.table kind)) m.classes members := by
  refine (Outcome.mapM_eq_ok_iff.1 h).imp fun c e he => ?_
  obtain ⟨owner, howner, he⟩ := Outcome.bind_eq_ok_iff.1 he
  obtain ⟨members, hmembers, he⟩ := Outcome.bind_eq_ok_iff.1 he
  obtain rfl := Except.ok.inj he
  obtain ⟨fields, hfields, hmembers⟩ := Outcome.bind_eq_ok_iff.1 hmembers
  obtain ⟨methods, hmethods, hmembers⟩ := Outcome.bind_eq_ok_iff.1 hmembers
  obtain rfl := Except.ok.inj hmembers
  refine ⟨howner, fun kind => ?_⟩
  cases kind with
  | field => exact hfields
  | method => exact hmethods

/-- The unmapped names of the classes are those of the class renames, so they do not repeat. -/
theorem nodup_of_unmappedNames {classes : ClassRenames} {owners : List String}
    (hclasses : ClassRenames.ofMappings m = .ok classes)
    (h : List.Forall₂ (fun c owner => c.unmappedName = .ok owner) m.classes owners) :
    owners.Nodup := by
  obtain ⟨-, htables, -⟩ := ClassRenames.ofMappings_eq_ok_iff.1 hclasses
  obtain ⟨pairs, hpairs, hentries, -⟩ := pairTables_eq_ok_iff.1 htables
  have hnames : List.Forall₂ (fun c owner => MappedClass.unmappedName c = .ok owner) m.classes
      (pairs.map Prod.fst) := by
    rw [List.forall₂_map_right_iff]
    rw [List.forall₂_map_left_iff] at hpairs
    exact hpairs.imp fun c pair hnamed => hnamed.1
  have heq : owners = pairs.map Prod.fst := by
    refine List.right_unique_forall₂' (fun c x y hx hy => ?_) h hnames
    exact Outcome.eq_of_eq_ok hx hy
  rw [heq, ← hentries]
  exact classes.toMapped.classes.nodup

/-- **A renamer that is built has the rows of all members of its collection.** -/
theorem represents_of_ofMappings (h : ofMappings m = .ok r) : r.Represents m := by
  rw [ofMappings, Outcome.bind_eq_ok_iff] at h
  obtain ⟨classes, hclasses, h⟩ := h
  obtain ⟨members, hmembers, h⟩ := Outcome.bind_eq_ok_iff.1 h
  obtain rfl := Except.ok.inj h
  have hrows := members_of_mapM hmembers
  have hnodup : (members.map Prod.fst).Nodup := by
    refine nodup_of_unmappedNames hclasses ?_
    rw [List.forall₂_map_right_iff]
    exact hrows.imp fun c e he => he.1
  have hget : ∀ owner c,
      (members.foldl (fun t e => Table.insert t e.1 e.2) Table.empty).get? owner = some c ↔
        (owner, c) ∈ members := by
    intro owner c
    rw [Table.get?_foldl_insert hnodup]
    simp
  refine ⟨hclasses, fun kind owner name desc entry => ?_, fun kind name => ?_,
    fun c hc kind s hs => ?_⟩
  · simp only [entryAt, Option.bind_eq_some_iff, hget]
    constructor
    · rintro ⟨t, ht, hentry⟩
      obtain ⟨c, hc, howner, htable⟩ := exists_left_of_forall₂ hrows ht
      exact ⟨c, hc, howner, ((MemberTable.entryAt_of_ofSymbols (htable kind)).1 ..).1 hentry⟩
    · rintro ⟨c, hc, howner, hs⟩
      obtain ⟨⟨owner', t⟩, ht, howner', htable⟩ := exists_right_of_forall₂ hrows hc
      obtain rfl : owner = owner' := Outcome.eq_of_eq_ok howner howner'
      exact ⟨t, ht, ((MemberTable.entryAt_of_ofSymbols (htable kind)).1 ..).2 hs⟩
  · have hnames : ∀ kind : MemberKind,
        name ∈ distinct (members.flatMap fun e => (e.2.table kind).keys) ↔
          ∃ c ∈ m.classes, ∃ s ∈ c.membersOf kind, s.unmappedName = .ok name := by
      intro kind
      rw [mem_distinct, List.mem_flatMap]
      constructor
      · rintro ⟨e, he, hname⟩
        obtain ⟨c, hc, -, htable⟩ := exists_left_of_forall₂ hrows he
        exact ⟨c, hc, ((MemberTable.entryAt_of_ofSymbols (htable kind)).2.1 name).1 hname⟩
      · rintro ⟨c, hc, hs⟩
        obtain ⟨e, he, -, htable⟩ := exists_right_of_forall₂ hrows hc
        exact ⟨e, he, ((MemberTable.entryAt_of_ofSymbols (htable kind)).2.1 name).2 hs⟩
    cases kind with
    | field => exact hnames .field
    | method => exact hnames .method
  · obtain ⟨e, -, -, htable⟩ := exists_right_of_forall₂ hrows hc
    exact (MemberTable.entryAt_of_ofSymbols (htable kind)).2.2 s hs

/-- An ancestry changes nothing in the tables. -/
theorem Represents.withAncestry (h : r.Represents m) (a : Ancestry) :
    (r.withAncestry a).Represents m :=
  ⟨h.classes, h.entryAt_iff, h.mem_mappedNames_iff, h.enters⟩

end Renamer

end SymbolMap
