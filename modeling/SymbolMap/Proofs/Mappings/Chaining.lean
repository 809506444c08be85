import SymbolMap.Mappings.Chaining
import SymbolMap.Proofs.Mappings.PairTables
import SymbolMap.Proofs.Mappings.Parts

/-!
# What chaining renames

Flat mappings give a name to every name: the mapped name of the symbol it is the unmapped name of,
or the name itself where there is no such symbol (`GivenName`).  Chaining them onto a collection
replaces the mapped names of classes and members by the names given to them, and so the class names
in mapped descriptors (`Symbol.IsChained`).  Unmapped names, unmapped descriptors and packages stay
(`chain_eq_ok`).
-/

namespace SymbolMap

/-! ## Given names -/

/-- The symbols give the second name to the first: as the mapped name of one of them, or because
none of them has the first as its unmapped name and the two are the same. -/
def GivenName (symbols : List Symbol) (name name' : String) : Prop :=
  (∃ s ∈ symbols, s.IsNamed (name, name')) ∨
    (∀ s ∈ symbols, s.unmappedName ≠ .ok name) ∧ name' = name

section

variable {scope : Scope} {symbols : List Symbol} {t : Table String Symbol} {name name' : String}
  {s : Symbol}

/-- The table by unmapped names has every symbol under its unmapped name. -/
theorem get?_eq_some_iff_of_symbols (h : symbolsByUnmappedName scope symbols = .ok t) :
    t.get? name = some s ↔ s ∈ symbols ∧ s.unmappedName = .ok name := by
  have hentries := entries_indexInOrder h
  rw [Table.get?_eq_some_iff]
  constructor
  · intro hmem
    have hok : Except.ok (name, s) ∈ t.entries.map (Except.ok : _ → Outcome (String × Symbol)) :=
      List.mem_map_of_mem hmem
    rw [← hentries] at hok
    obtain ⟨s₀, hs₀, hentry⟩ := List.mem_map.1 hok
    obtain ⟨name₀, hname₀, hpair⟩ := Outcome.bind_eq_ok_iff.1 hentry
    obtain ⟨rfl, rfl⟩ := Prod.mk.inj (Except.ok.inj hpair)
    exact ⟨hs₀, hname₀⟩
  · rintro ⟨hs, hname⟩
    have hentry : (do return (← s.unmappedName, s) : Outcome (String × Symbol)) =
        .ok (name, s) := Outcome.bind_eq_ok_iff.2 ⟨name, hname, rfl⟩
    have hok : Except.ok (name, s) ∈
        symbols.map fun s => (do return (← s.unmappedName, s) : Outcome (String × Symbol)) :=
      List.mem_map.2 ⟨s, hs, hentry⟩
    rw [hentries] at hok
    obtain ⟨entry, hmem, heq⟩ := List.mem_map.1 hok
    exact Except.ok.inj heq ▸ hmem

/-- What is looked up for a name is the name given to it. -/
theorem chainedClassName_eq_ok_iff (h : symbolsByUnmappedName scope symbols = .ok t) :
    chainedClassName t name = .ok name' ↔ GivenName symbols name name' := by
  rw [chainedClassName]
  cases hget : t.get? name with
  | some s =>
    obtain ⟨hs, hname⟩ := (get?_eq_some_iff_of_symbols h).1 hget
    constructor
    · intro hmapped
      exact .inl ⟨s, hs, hname, hmapped⟩
    · rintro (⟨s', hs', hname', hmapped⟩ | ⟨hnone, -⟩)
      · have hget' := (get?_eq_some_iff_of_symbols h).2 ⟨hs', hname'⟩
        obtain rfl := Option.some.inj (hget.symm.trans hget')
        exact hmapped
      · exact absurd hname (hnone s hs)
  | none =>
    have hnone : ∀ s ∈ symbols, s.unmappedName ≠ .ok name := by
      intro s hs hname
      rw [(get?_eq_some_iff_of_symbols h).2 ⟨hs, hname⟩] at hget
      cases hget
    constructor
    · intro hsame
      exact .inr ⟨hnone, (Except.ok.inj hsame).symm⟩
    · rintro (⟨s, hs, hname, -⟩ | ⟨-, rfl⟩)
      · exact absurd hname (hnone s hs)
      · rfl

end

/-! ## Chained symbols -/

/-- The second symbol is the first with the mapped side renamed by the tables. -/
structure Symbol.IsChained (members classes : Table String Symbol) (s s' : Symbol) : Prop where
  named : ∀ x y, s.IsNamed (x, y) → ∃ y', chainedClassName members y = .ok y' ∧ s'.IsNamed (x, y')
  unmapped : s'.tags.unmappedDescriptor = s.tags.unmappedDescriptor
  mapped : Option.Rel (fun desc desc' =>
      Descriptor.renameClasses (chainedClassName classes) desc = .ok desc')
    s.tags.mappedDescriptor s'.tags.mappedDescriptor

namespace Symbol

variable {members classes : Table String Symbol} {s s' : Symbol}

/-- Renaming the mapped side of a symbol changes its mapped name only. -/
theorem renameMapped_eq_ok (h : s.renameMapped members = .ok s') :
    s'.tags = s.tags ∧ ∀ x y, s.IsNamed (x, y) →
      ∃ y', chainedClassName members y = .ok y' ∧ s'.IsNamed (x, y') := by
  obtain ⟨names, tags, locals⟩ := s
  cases names with
  | row r =>
    obtain rfl := Except.ok.inj h
    exact ⟨rfl, fun x y hnamed => nomatch hnamed.2⟩
  | paired unmapped mapped =>
    rw [renameMapped] at h
    show s'.tags = tags ∧ _
    simp only [names] at h
    split at h
    · rename_i hnone
      obtain rfl := Except.ok.inj h
      refine ⟨rfl, fun x y hnamed => ⟨y, ?_, hnamed⟩⟩
      obtain rfl : mapped = y := Except.ok.inj hnamed.2
      rw [chainedClassName, hnone]
    · rename_i target hsome
      obtain ⟨name, hname, h⟩ := Outcome.bind_eq_ok_iff.1 h
      obtain rfl := Except.ok.inj h
      refine ⟨rfl, fun x y hnamed => ⟨name, ?_, hnamed.1, rfl⟩⟩
      obtain rfl : mapped = y := Except.ok.inj hnamed.2
      rw [chainedClassName, hsome]
      exact hname

/-- **A chained member has its mapped side renamed.** -/
theorem isChained_of_becomes (h : s.Becomes (chainMember members classes) s') :
    s.IsChained members classes s' := by
  obtain ⟨made, id, h, rfl⟩ := h
  rw [chainMember, Outcome.bind_eq_ok_iff] at h
  obtain ⟨renamed, hrenamed, h⟩ := h
  obtain ⟨htags, hnamed⟩ := renameMapped_eq_ok hrenamed
  have hunmapped : renamed.tags.unmappedDescriptor = s.tags.unmappedDescriptor := by rw [htags]
  -- setting the mapped descriptor and the owner leaves the rest alone
  split at h
  · rename_i hnone
    obtain rfl := Except.ok.inj h
    refine ⟨hnamed, hunmapped, ?_⟩
    have hmapped : (renamed.ownedBy id).tags.mappedDescriptor = none := hnone
    rw [hmapped, ← htags, hnone]
    exact .none
  · rename_i desc hsome
    obtain ⟨desc', hdesc', h⟩ := Outcome.bind_eq_ok_iff.1 h
    obtain rfl := Except.ok.inj h
    refine ⟨hnamed, hunmapped, ?_⟩
    rw [← htags, hsome]
    exact .some hdesc'

end Symbol

/-- A chained member has a descriptor if the member has. -/
theorem Symbol.IsChained.given {members classes : Table String Symbol} {s s' : Symbol}
    (h : s.IsChained members classes s')
    (hgiven : s.tags.unmappedDescriptor ≠ none ∨ s.tags.mappedDescriptor ≠ none) :
    s'.tags.unmappedDescriptor ≠ none ∨ s'.tags.mappedDescriptor ≠ none := by
  rcases hgiven with hunmapped | hmapped
  · exact .inl (h.unmapped ▸ hunmapped)
  · right
    intro hnone
    have hrel := h.mapped
    rw [hnone] at hrel
    generalize s.tags.mappedDescriptor = old at hrel hmapped
    cases hrel
    exact hmapped rfl

/-! ## Chained collections -/

/-- **Chaining renames the mapped side of classes and members and keeps packages.** -/
theorem GroupedMappings.chain_eq_ok {m chained : GroupedMappings} {flat : FlatMappings}
    (h : m.chain flat = .ok chained) :
    ∃ classes fields methods, flat.classesByUnmappedName = .ok classes ∧
      flat.fieldsByUnmappedName = .ok fields ∧ flat.methodsByUnmappedName = .ok methods ∧
      chained.namespaces = none ∧ chained.packages = m.packages ∧
      List.Forall₂ (MappedClass.Becomes (Symbol.renameMapped classes)
        (Symbol.chainMember fields classes) (Symbol.chainMember methods classes))
        m.classes chained.classes := by
  rw [chain] at h
  by_cases hpaired : (m.isPaired && flat.namespaces.isNone) = true
  · simp only [hpaired, if_true] at h
    obtain ⟨classes, hclasses, h⟩ := Outcome.bind_eq_ok_iff.1 h
    obtain ⟨fields, hfields, h⟩ := Outcome.bind_eq_ok_iff.1 h
    obtain ⟨methods, hmethods, h⟩ := Outcome.bind_eq_ok_iff.1 h
    obtain ⟨made, hmade, h⟩ := Outcome.bind_eq_ok_iff.1 h
    obtain rfl := Except.ok.inj h
    obtain ⟨hnone, -, hpackages⟩ := ofParts_spec none made m.packages
    exact ⟨classes, fields, methods, hclasses, hfields, hmethods, hnone, hpackages,
      forall₂_becomes hmade⟩
  · rw [if_neg hpaired] at h
    cases h

end SymbolMap
