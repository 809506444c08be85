import SymbolMap.Proofs.Mappings.OrderedLocals
import SymbolMap.Proofs.Renamer.OwnMembers
import SymbolMap.Proofs.Renamer.Registration

/-!
# Names of local variables

A renamer keeps the mapped names of the local variables of a method by their indices, and looks an
index up.  In an ordered collection this finds every local variable of every method
(`localNames_of_mappings`): each index is that of one variable, so none is hidden by another.

The same holds of a renamer for a projection, and can be said of the collection that was projected
(`localNames_of_project`).  A local variable with a name in the source gets its name in the target,
or keeps the one in the source if there is none; every other index keeps the name it is asked for.
-/

namespace SymbolMap

namespace Symbol

variable {source target : NamespaceId} {s s' : Symbol} {table table' : LocalTable}

/-- A local variable with a name in the source is mapped to the one in the target by the projected
symbol. -/
theorem IsProjected.exists_mapped (h : s.IsProjected source target s')
    (htable : s.locals = some table) {e : Nat × Symbol} (he : e ∈ table) {u : String}
    (hu : e.2.names.get? source = some u) :
    ∃ table' v, s'.locals = some table' ∧ (e.1, v) ∈ table' ∧
      v.mappedName = .ok ((e.2.names.get? target).getD u) := by
  have hlocals := h.locals
  rw [htable] at hlocals
  generalize htable' : s'.locals = locals' at hlocals
  obtain @⟨_, table', hprojected⟩ := hlocals
  obtain ⟨projected, hproject, hmem⟩ := exists_project_of_mem hprojected he
  obtain ⟨v, rfl, hnames⟩ := exists_of_project hproject hu
  refine ⟨table', v, rfl, hmem v rfl, ?_⟩
  rw [mappedName, hnames]
  rfl

/-- The local variables of a projected symbol have the indices of those with a name in the source.
-/
theorem IsProjected.exists_local (h : s.IsProjected source target s')
    (htable' : s'.locals = some table') {index : Nat} (hmem : index ∈ table'.map Prod.fst) :
    ∃ table, s.locals = some table ∧ ∃ e ∈ table, e.1 = index ∧
      ∃ u, e.2.names.get? source = some u := by
  have hlocals := h.locals
  rw [htable'] at hlocals
  generalize htable : s.locals = locals at hlocals
  obtain @⟨table, _, hprojected⟩ := hlocals
  obtain ⟨e', he', rfl⟩ := List.mem_map.1 hmem
  obtain ⟨e, he, hsame, hproject⟩ := exists_of_mem_projectLocals hprojected he'
  obtain ⟨u, hu, -⟩ := (isProjected_of_project hproject).named
  exact ⟨table, rfl, e, he, hsame.symm, u, hu⟩

end Symbol

namespace Renamer

variable {r : Renamer} {m paired : GroupedMappings} {c : MappedClass} {s : Symbol}
  {owner name desc : String}

/-- The local variables of a method that the collection maps. -/
theorem Represents.localNames (h : r.Represents m) (hordered : m.Ordered) (hc : c ∈ m.classes)
    (howner : c.unmappedName = .ok owner) (hs : s ∈ c.methods) {name' : String}
    (hname : s.IsNamed (name, name')) {desc' : Option String}
    (hdesc : memberDescriptors r.classes s.tags = .ok (some desc, desc')) :
    (∀ table, s.locals = some table → ∀ e ∈ table,
      ∃ mapped, e.2.mappedName = .ok mapped ∧ ∀ x, r.localName owner name desc e.1 x = .ok mapped) ∧
    ∀ index, (∀ table, s.locals = some table → index ∉ table.map Prod.fst) →
      ∀ x, r.localName owner name desc index x = .ok x := by
  have hmethod : s ∈ c.membersOf .method := hs
  obtain ⟨entry, hentry, -, hlocals⟩ := h.exists_lookup hc howner hmethod hname hdesc
  have hsymbol := (hordered.classes c hc).methods s hs
  refine ⟨fun table htable e he => ?_, fun index hnone x => ?_⟩
  · -- an entry of the table is what is found under its index, since the table is sorted
    have hget : table.get? e.1 = some e.2 := (hsymbol.locals htable).sorted.get?_eq_some_iff.2 he
    obtain ⟨mapped, hmapped, hlookup⟩ := lookup_of_mappedLocals hlocals htable hget
    exact ⟨mapped, hmapped, localName_of_lookup hentry hlookup⟩
  · rw [localName_eq_of_lookup hentry, lookup_eq_none_of_mappedLocals hlocals hnone]
    rfl

/-- **Every local variable is renamed.**  Let a collection be ordered, and let there be a renamer
for it.  Each local variable of a method, which is asked for by its index, gets its mapped name; an
index that no local variable of the method has keeps the name it is asked with. -/
theorem localNames_of_mappings (hr : ofMappings m = .ok r) (hordered : m.Ordered)
    (hc : c ∈ m.classes) (hs : s ∈ c.methods)
    (hgiven : s.tags.unmappedDescriptor ≠ none ∨ s.tags.mappedDescriptor ≠ none) :
    ∃ owner name desc desc', c.unmappedName = .ok owner ∧ s.unmappedName = .ok name ∧
      memberDescriptors r.classes s.tags = .ok (some desc, some desc') ∧
      (∀ table, s.locals = some table → ∀ e ∈ table, ∃ mapped, e.2.mappedName = .ok mapped ∧
        ∀ x, r.localName owner name desc e.1 x = .ok mapped) ∧
      ∀ index, (∀ table, s.locals = some table → index ∉ table.map Prod.fst) →
        ∀ x, r.localName owner name desc index x = .ok x := by
  have hrepresents := represents_of_ofMappings hr
  obtain ⟨⟨owner, owner'⟩, howner, -⟩ := exists_isNamed_of_mem hrepresents.classes hc
  have hmethod : s ∈ c.membersOf .method := hs
  obtain ⟨⟨name, name'⟩, hname⟩ := hrepresents.exists_isNamed ⟨c, hc, hmethod⟩
  obtain ⟨desc, desc', hdesc⟩ := hrepresents.exists_descriptors hc hmethod hgiven
  exact ⟨owner, name, desc, desc', howner.1, hname.1, hdesc,
    hrepresents.localNames hordered hc howner.1 hs hname hdesc⟩

/-- **Local variables are taken from the source to the target.**  Let an ordered collection be
projected, and let there be a renamer for the projection.  In a method with a descriptor written in
the source, each local variable with a name in the source gets its name in the target, or the one in
the source if it has none there.  Every other index keeps the name it is asked with. -/
theorem localNames_of_project {ns : Namespaces} {source target : NamespaceId} {a b : String}
    (hns : m.namespaces = some ns) (hsource : ns.find a = .ok source)
    (htarget : ns.find b = .ok target) (hordered : m.Ordered) (hpaired : m.project a b = .ok paired)
    (hr : ofMappings paired = .ok r) (hc : c ∈ m.classes)
    (howner : c.info.names.get? source = some owner) (hs : s ∈ c.methods)
    (hname : s.names.get? source = some name)
    (hdesc : s.tags.namespacedDescriptor = some ⟨source, desc⟩) :
    (∀ table, s.locals = some table → ∀ e ∈ table, ∀ u, e.2.names.get? source = some u →
      ∀ x, r.localName owner name desc e.1 x = .ok ((e.2.names.get? target).getD u)) ∧
    ∀ index, (∀ table, s.locals = some table → ∀ e ∈ table, e.1 = index →
        e.2.names.get? source = none) →
      ∀ x, r.localName owner name desc index x = .ok x := by
  have hrepresents := represents_of_ofMappings hr
  -- the class and the method have partners in the projection, with the same names in the source
  obtain ⟨hclasses, -⟩ := GroupedMappings.project_isProjected hns hsource htarget hpaired
  obtain ⟨c', hc', hclass⟩ := hclasses c hc owner howner
  obtain ⟨owner₀, howner₀, howner'⟩ := hclass.info.named
  obtain rfl := Option.some.inj (howner.symm.trans howner₀)
  obtain ⟨s', hs', hmethod⟩ := hclass.members .method s hs name hname
  obtain ⟨name₀, hname₀, hname'⟩ := hmethod.named
  obtain rfl := Option.some.inj (hname.symm.trans hname₀)
  obtain ⟨hunmapped, -⟩ := hmethod.descriptors _ hdesc rfl
  obtain ⟨key, desc', hdescs⟩ := hrepresents.exists_descriptors hc' hs'
    (.inl (by rw [hunmapped]; exact Option.some_ne_none desc))
  obtain rfl : key = desc := by
    have hkey := (key_of_memberDescriptors hdescs).1
    rw [Symbol.key, hunmapped] at hkey
    exact (Option.some.inj (Except.ok.inj hkey)).symm
  obtain ⟨hmapped, hkept⟩ := hrepresents.localNames (hordered.project hpaired) hc' howner'.1 hs'
    hname' hdescs
  refine ⟨fun table htable e he u hu x => ?_, fun index hindex x => ?_⟩
  · obtain ⟨table', v, htable', hv, hname⟩ := hmethod.exists_mapped htable he hu
    obtain ⟨mapped, hmapped, hlocal⟩ := hmapped table' htable' _ hv
    obtain rfl := Outcome.eq_of_eq_ok hname hmapped
    exact hlocal x
  · refine hkept index (fun table' htable' hmem => ?_) x
    obtain ⟨table, htable, e, he, hsame, u, hu⟩ := hmethod.exists_local htable' hmem
    rw [hindex table htable e he hsame] at hu
    cases hu

end Renamer

end SymbolMap
