import SymbolMap.Proofs.Renamer.MemberTables
import SymbolMap.Renamer.Resolution

/-!
# What a class maps itself

A member that a class of the collection maps is found in that class under its unmapped name and
descriptor, whatever ancestry there is (`Represents.exists_lookup`).  So its answer is the row it
has in the tables, and so are the answers for its local variables (`localName_of_lookup`).
-/

namespace SymbolMap

variable {classes : ClassRenames} {t : Tags}

/-- A member with a descriptor on one side has descriptors on both. -/
theorem exists_descriptors_of_memberDescriptors {key key' : Option String}
    (hgiven : t.unmappedDescriptor ≠ none ∨ t.mappedDescriptor ≠ none)
    (h : memberDescriptors classes t = .ok (key, key')) :
    ∃ desc desc', key = some desc ∧ key' = some desc' := by
  rw [memberDescriptors] at h
  split at h
  · cases h
    exact ⟨_, _, rfl, rfl⟩
  · obtain ⟨mapped, -, h⟩ := Outcome.bind_eq_ok_iff.1 h
    cases h
    exact ⟨_, _, rfl, rfl⟩
  · obtain ⟨unmapped, -, h⟩ := Outcome.bind_eq_ok_iff.1 h
    cases h
    exact ⟨_, _, rfl, rfl⟩
  · rename_i hunmapped hmapped
    rw [hunmapped, hmapped] at hgiven
    exact absurd hgiven (by simp)

/-- The mapped names of the local variables are listed as the variables are. -/
theorem forall₂_of_mappedLocals {s : Symbol} {locals : List (Nat × String)}
    (h : mappedLocals s = .ok locals) :
    List.Forall₂ (fun (e : Nat × Symbol) (l : Nat × String) =>
      l.1 = e.1 ∧ e.2.mappedName = .ok l.2) (s.locals.getD []) locals := by
  rw [mappedLocals, Outcome.mapM_eq_ok_iff] at h
  refine h.imp fun e l hl => ?_
  obtain ⟨name, hname, heq⟩ := Outcome.bind_eq_ok_iff.1 hl
  obtain rfl := Except.ok.inj heq
  exact ⟨rfl, hname⟩

/-- The mapped names of the local variables are kept by index. -/
theorem lookup_of_mappedLocals {s v : Symbol} {table : LocalTable} {locals : List (Nat × String)}
    {index : Nat} (h : mappedLocals s = .ok locals) (htable : s.locals = some table)
    (hv : table.get? index = some v) :
    ∃ name, v.mappedName = .ok name ∧ locals.lookup index = some name := by
  have hnames := forall₂_of_mappedLocals h
  rw [htable, Option.getD_some] at hnames
  obtain ⟨name, hname, hmapped⟩ := exists_lookup_of_forall₂
    (R := fun (v : Symbol) (name : String) => v.mappedName = .ok name) hnames hv
  exact ⟨name, hmapped, hname⟩

/-- No name is kept under an index that no local variable has. -/
theorem lookup_eq_none_of_mappedLocals {s : Symbol} {locals : List (Nat × String)} {index : Nat}
    (h : mappedLocals s = .ok locals)
    (hnone : ∀ table, s.locals = some table → index ∉ table.map Prod.fst) :
    locals.lookup index = none := by
  refine List.lookup_eq_none_iff.2 fun l hl => ?_
  obtain ⟨e, he, hindex, -⟩ := exists_left_of_forall₂ (forall₂_of_mappedLocals h) hl
  cases htable : s.locals with
  | none =>
    rw [htable] at he
    cases he
  | some table =>
    rw [htable] at he
    have hne : index ≠ l.1 := fun heq =>
      hnone table htable (List.mem_map.2 ⟨e, he, (heq.trans hindex).symm⟩)
    simpa using hne

namespace Renamer

variable {r : Renamer} {m : GroupedMappings} {kind : MemberKind} {owner name desc : String}
  {entry : MemberEntry}

/-- A member with a descriptor on one side has one on both. -/
theorem Represents.exists_descriptors (h : r.Represents m) {c : MappedClass} {s : Symbol}
    (hc : c ∈ m.classes) (hs : s ∈ c.membersOf kind)
    (hgiven : s.tags.unmappedDescriptor ≠ none ∨ s.tags.mappedDescriptor ≠ none) :
    ∃ key desc, memberDescriptors r.classes s.tags = .ok (some key, some desc) := by
  obtain ⟨name, key?, entry, henters⟩ := h.enters c hc kind s hs
  obtain ⟨key, desc, rfl, hdesc⟩ :=
    exists_descriptors_of_memberDescriptors hgiven henters.descriptors
  exact ⟨key, desc, hdesc ▸ henters.descriptors⟩

/-- **A member with a descriptor is found in its class**, with its target and local variables. -/
theorem Represents.exists_lookup (h : r.Represents m) {c : MappedClass} {s : Symbol}
    {name' : String} {desc' : Option String} (hc : c ∈ m.classes)
    (howner : c.unmappedName = .ok owner) (hs : s ∈ c.membersOf kind)
    (hname : s.IsNamed (name, name'))
    (hdesc : memberDescriptors r.classes s.tags = .ok (some desc, desc')) :
    ∃ entry, r.lookup owner ⟨kind, name, desc⟩ = .ok (some entry) ∧
      entry.target = ⟨name', desc'⟩ ∧ mappedLocals s = .ok entry.locals := by
  obtain ⟨name₀, desc₀, entry, henters⟩ := h.enters c hc kind s hs
  -- the row of a member is determined by the member
  obtain rfl : name₀ = name := Outcome.eq_of_eq_ok henters.name hname.1
  obtain ⟨rfl, htarget⟩ := Prod.mk.inj (Outcome.eq_of_eq_ok henters.descriptors hdesc)
  have hmapped : entry.target.name = name' := Outcome.eq_of_eq_ok henters.mapped hname.2
  have hentry : r.entryAt kind owner name₀ (some desc) = some entry :=
    (h.entryAt_iff ..).2 ⟨c, hc, howner, s, hs, henters⟩
  refine ⟨entry, ?_, ?_, henters.locals⟩
  · rw [lookup_eq, hentry]
  · rw [← hmapped, ← htarget]

/-- What is found in the class itself is the answer. -/
theorem member?_of_lookup {name' desc' : String} (hname : Name.isInitializer name = false)
    (h : r.lookup owner ⟨kind, name, desc⟩ = .ok (some entry))
    (htarget : entry.target = ⟨name', some desc'⟩) :
    r.member? owner ⟨kind, name, desc⟩ = .ok (some ⟨name', desc'⟩) := by
  have hresolve : r.resolve owner ⟨kind, name, desc⟩ = .ok (some ⟨name', some desc'⟩) := by
    rw [resolve, h]
    simp [hname, htarget]
  rw [member?, hresolve]
  rfl

/-- A local variable of a method that is found has the name kept for its index, or its own. -/
theorem localName_eq_of_lookup {index : Nat}
    (h : r.lookup owner ⟨.method, name, desc⟩ = .ok (some entry)) (x : String) :
    r.localName owner name desc index x = .ok ((entry.locals.lookup index).getD x) := by
  rw [localName, h]
  rfl

/-- The local variables of a method that is found have the names kept for it. -/
theorem localName_of_lookup {index : Nat} {mapped : String}
    (h : r.lookup owner ⟨.method, name, desc⟩ = .ok (some entry))
    (hmapped : entry.locals.lookup index = some mapped) (x : String) :
    r.localName owner name desc index x = .ok mapped := by
  rw [localName_eq_of_lookup h, hmapped]
  rfl

end Renamer

end SymbolMap
