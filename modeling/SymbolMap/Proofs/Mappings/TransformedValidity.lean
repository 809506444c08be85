import SymbolMap.Proofs.Mappings.Fitting
import SymbolMap.Proofs.Renamer.Chained
import SymbolMap.Proofs.Renamer.Inverse
import SymbolMap.Proofs.Renamer.ProjectedMembers
import SymbolMap.Proofs.Renamer.Readiness
import SymbolMap.Proofs.Renamer.TranslationsAgree

/-!
# Transformed collections are valid

Reversing, chaining, projecting and moving descriptors make a new collection, and each of them
touches other parts of a symbol: the order of its names, its mapped name, the namespaces it keeps,
or the class names in its descriptors.  A symbol that fits is taken to one that fits by all four,
down to nested local variables.

Identities and owners are given anew by each of them.  So one thing is left that can be wrong with a
transformed collection: the unmapped names of its classes are other names than before, and may
repeat.  Chaining and moving descriptors keep them; after reversing they are the mapped names, and
after projecting the names in the source (`transformed_valid`).
-/

namespace SymbolMap

/-! ## Reversed symbols -/

namespace Symbol

variable {rule : String → Bool} {s s' : Symbol}

/-- A reversed symbol has its names and descriptors on the other side, and its local variables
reversed. -/
theorem reverse_cases (h : s.reverse = .ok s') :
    ∃ x y, s.names = .paired x y ∧ s'.names = .paired y x ∧ s'.tags = s.tags.reverse ∧
      ∀ table', s'.locals = some table' → ∃ table, s.locals = some table ∧
        List.Forall₂ (fun e e' => e'.1 = e.1 ∧ e.2.reverse = .ok e'.2) table table' := by
  obtain ⟨names, tags, locals⟩ := s
  cases names with
  | row r => cases locals <;> cases h
  | paired x y =>
    cases locals with
    | none =>
      obtain rfl := Except.ok.inj h
      exact ⟨x, y, rfl, rfl, rfl, fun table' htable' => nomatch htable'⟩
    | some table =>
      rw [reverse, Outcome.bind_eq_ok_iff] at h
      obtain ⟨names', hnames', h⟩ := h
      obtain ⟨table₀, htable₀, h⟩ := Outcome.bind_eq_ok_iff.1 h
      obtain rfl := Except.ok.inj hnames'
      obtain rfl := Except.ok.inj h
      refine ⟨x, y, rfl, rfl, rfl, fun table' htable' => ⟨table, rfl, ?_⟩⟩
      obtain rfl : table₀ = table' := Option.some.inj htable'
      exact forall₂_of_reverseLocals htable₀

/-- **A reversed symbol fits as the symbol does.** -/
theorem Fits.reverse (h : s.Fits none rule) (hreverse : s.reverse = .ok s') :
    s'.Fits none rule := by
  induction s using rec_locals generalizing s' rule with
  | h names tags locals ih =>
    obtain ⟨x, y, hnames, hnames', htags, hlocals⟩ := reverse_cases hreverse
    obtain ⟨x₀, y₀, hnames₀, hx, hy, hrule⟩ := h.exists_paired
    rw [hnames] at hnames₀
    obtain ⟨rfl, rfl⟩ := SymbolNames.paired.inj hnames₀
    refine fits_of_paired hnames' hy hx hrule.symm (fun desc hdesc => ?_) fun table' htable' => ?_
    · refine h.descriptors desc ?_
      rw [htags, Tags.mem_descriptors_iff] at hdesc
      rw [Tags.mem_descriptors_iff]
      rcases hdesc with hdesc | hdesc | hdesc
      · exact .inr (.inl hdesc)
      · exact .inl hdesc
      · exact .inr (.inr hdesc)
    · obtain ⟨table, htable, hforall⟩ := hlocals table' htable'
      intro e' he'
      obtain ⟨e, he, hindex, hlocal⟩ := exists_left_of_forall₂ hforall he'
      have hvalid := (validate_eq_ok_iff.1 h.valid).2.2 table htable e he
      -- a local variable that can be reversed is named by a pair, so it fits a paired collection
      obtain ⟨x', y', hpair, -⟩ := reverse_cases hlocal
      have hfits : e.2.Fits none Name.isUnqualified :=
        ⟨by rw [checkShape.eq_def, hpair], hvalid.valid, hvalid.names⟩
      have hfits' := ih table htable e he hfits hlocal
      exact ⟨hindex ▸ hvalid.index, hfits'.valid, hfits'.names⟩

end Symbol

/-! ## Chained symbols -/

namespace Symbol

variable {rule : String → Bool} {s s' : Symbol} {members classes : Table String Symbol}

/-- A symbol stays or gets the mapped name of a flat one. -/
theorem renameMapped_cases (h : s.renameMapped members = .ok s') :
    s' = s ∨ ∃ x y y' target, s.names = .paired x y ∧ members.get? y = some target ∧
      target.mappedName = .ok y' ∧ s' = s.withNames (.paired x y') := by
  rw [renameMapped] at h
  split at h
  · rename_i x y hnames
    split at h
    · exact .inl (Except.ok.inj h).symm
    · rename_i target htarget
      obtain ⟨y', hy', h⟩ := Outcome.bind_eq_ok_iff.1 h
      exact .inr ⟨x, y, y', target, hnames, htarget, hy', (Except.ok.inj h).symm⟩
  · exact .inl (Except.ok.inj h).symm

theorem exists_renameMapped
    (h : ∀ x target, members.get? x = some target → target.Fits none rule) (s : Symbol) :
    ∃ s', s.renameMapped members = .ok s' := by
  rw [renameMapped]
  split
  · split
    · exact ⟨s, rfl⟩
    · rename_i target htarget
      obtain ⟨y, hy⟩ := (h _ target htarget).exists_mappedName
      exact ⟨_, Outcome.bind_eq_ok_iff.2 ⟨y, hy, rfl⟩⟩
  · exact ⟨s, rfl⟩

/-- A symbol with another mapped name fits if the flat symbols do. -/
theorem Fits.renameMapped (h : s.Fits none rule)
    (hmembers : ∀ x target, members.get? x = some target → target.Fits none rule)
    (hrename : s.renameMapped members = .ok s') : s'.Fits none rule := by
  rcases renameMapped_cases hrename with rfl | ⟨x, y, y', target, hnames, htarget, hy', rfl⟩
  · exact h
  · obtain ⟨x₀, y₀, hnames₀, hx, -, hrule, -⟩ := h.exists_paired
    rw [hnames] at hnames₀
    obtain ⟨rfl, rfl⟩ := SymbolNames.paired.inj hnames₀
    obtain ⟨u, v, htarget', -, hv, -, hrule'⟩ := (hmembers y target htarget).exists_paired
    obtain rfl : v = y' := by
      rw [mappedName, htarget'] at hy'
      exact Except.ok.inj hy'
    exact fits_of_paired rfl hx hv ⟨hrule, hrule'⟩ h.descriptors
      (validate_eq_ok_iff.1 h.valid).2.2

/-- **A chained member fits** if the flat symbols do, and flat classes have names that can stand in a
descriptor. -/
theorem Fits.chainMember (h : s.Fits none rule)
    (hmembers : ∀ x target, members.get? x = some target → target.Fits none rule)
    (hclasses : ∀ desc x y, Descriptor.Mentions desc x → chainedClassName classes x = .ok y →
      y.toList ≠ [] ∧ ';' ∉ y.toList)
    (hchain : s.chainMember members classes = .ok s') : s'.Fits none rule := by
  rw [Symbol.chainMember, Outcome.bind_eq_ok_iff] at hchain
  obtain ⟨renamed, hrenamed, hchain⟩ := hchain
  have hfits := h.renameMapped hmembers hrenamed
  split at hchain
  · exact Except.ok.inj hchain ▸ hfits
  · rename_i desc hdesc
    obtain ⟨desc', hdesc', hchain⟩ := Outcome.bind_eq_ok_iff.1 hchain
    obtain rfl := Except.ok.inj hchain
    refine hfits.congr rfl (fun given hgiven => ?_) rfl
    rcases Tags.mem_descriptors_iff.1 hgiven with hgiven | hgiven | hgiven
    · exact hfits.descriptors given (Tags.mem_descriptors_iff.2 (.inl hgiven))
    · obtain rfl : desc' = given := Option.some.inj hgiven
      obtain ⟨names, hnames, -⟩ := Descriptor.exists_classNames_of_renameClasses
        (fun x hx y hy => hclasses desc x y hx hy) hdesc'
      exact Descriptor.check_eq_ok_iff.2 ⟨names, hnames⟩
    · exact hfits.descriptors given (Tags.mem_descriptors_iff.2 (.inr (.inr hgiven)))

theorem exists_chainMember (h : s.Fits none rule)
    (hmembers : ∀ x target, members.get? x = some target → target.Fits none rule)
    (hclasses : ∀ x, ∃ y, chainedClassName classes x = .ok y) :
    ∃ s', s.chainMember members classes = .ok s' := by
  obtain ⟨renamed, hrenamed⟩ := exists_renameMapped hmembers s
  have hfits := h.renameMapped hmembers hrenamed
  simp only [Symbol.chainMember, hrenamed, Outcome.ok_bind]
  split
  · exact ⟨_, rfl⟩
  · rename_i desc hdesc
    obtain ⟨names, hnames⟩ := Descriptor.check_eq_ok_iff.1
      (hfits.descriptors desc (Tags.mem_descriptors_iff.2 (.inr (.inl hdesc))))
    obtain ⟨desc', hdesc'⟩ := Descriptor.exists_renameClasses_iff.2
      ⟨names, hnames, fun x _ => hclasses x⟩
    exact ⟨_, Outcome.bind_eq_ok_iff.2 ⟨desc', hdesc', rfl⟩⟩

end Symbol

/-- The tables in which flat mappings are looked up, by unmapped names.  What is in them fits. -/
structure FlatMappings.Tables (flat : FlatMappings) (classes : Table String Symbol)
    (members : MemberKind → Table String Symbol) : Prop where
  classTable : flat.classesByUnmappedName = .ok classes
  fieldTable : flat.fieldsByUnmappedName = .ok (members .field)
  methodTable : flat.methodsByUnmappedName = .ok (members .method)
  classFits : ∀ x s, classes.get? x = some s → s.Fits none Name.isClassName
  memberFits : ∀ kind x s, (members kind).get? x = some s → s.Fits none kind.nameRule

/-- Valid flat mappings that are paired have tables. -/
theorem FlatMappings.exists_tables {flat : FlatMappings} (hpairs : flat.namespaces = none)
    (hvalid : flat.validate = .ok ()) : ∃ classes members, flat.Tables classes members := by
  obtain ⟨hsymbols, hclasses, hfields, hmethods, ⟨classes, hclassTable⟩, ⟨fields, hfieldTable⟩,
    ⟨methods, hmethodTable⟩⟩ := validate_eq_ok_iff.1 hvalid
  rw [hpairs] at hsymbols
  have hfits : ∀ {symbols : List Symbol} {scope : Scope} {t : Table String Symbol}
      {rule : String → Bool}, symbolsByUnmappedName scope symbols = .ok t →
      (∀ s ∈ symbols, s ∈ flat.classes ++ flat.fields ++ flat.methods) →
      (∀ s ∈ symbols, s.NamesFit rule) → ∀ x s, t.get? x = some s → s.Fits none rule := by
    intro symbols scope t rule ht hmem hnames x s hs
    obtain ⟨hs, -⟩ := (get?_eq_some_iff_of_symbols ht).1 hs
    obtain ⟨hshape, hvalid⟩ := hsymbols s (hmem s hs)
    exact ⟨hshape, hvalid, hnames s hs⟩
  refine ⟨classes, fun kind => kind.casesOn fields methods, hclassTable, hfieldTable,
    hmethodTable, hfits hclassTable (fun s hs => ?_) hclasses, fun kind => ?_⟩
  · exact List.mem_append_left _ (List.mem_append_left _ hs)
  · cases kind with
    | field =>
      refine hfits hfieldTable (fun s hs => ?_) hfields
      exact List.mem_append_left _ (List.mem_append_right _ hs)
    | method => exact hfits hmethodTable (fun s hs => List.mem_append_right _ hs) hmethods

/-! ## Symbols with moved descriptors and projected symbols -/

/-- A name in a namespace is one of the names. -/
theorem SymbolNames.mem_toList_of_get? {names : SymbolNames} {n : NamespaceId} {x : String}
    (h : names.get? n = some x) : x ∈ names.toList := by
  cases names with
  | paired unmapped mapped => cases h
  | row r =>
    have hslot : r.slots[n.index]? = some (some x) := Option.join_eq_some_iff.1 h
    exact List.mem_filterMap.2 ⟨some x, List.mem_of_getElem? hslot, rfl⟩

theorem SymbolNames.ne_empty_of_get? {names : SymbolNames} {n : NamespaceId} {x : String}
    (h : names.get? n = some x) : x ≠ "" :=
  fun hx => ne_nil_of_get? h (by rw [hx]; rfl)

namespace Symbol

variable {namespaces : Option Namespaces} {rule : String → Bool} {s s' : Symbol}
  {source target : NamespaceId}

/-- A symbol with a moved descriptor fits, if the names of classes in the namespace hold no `;`. -/
theorem Fits.moveDescriptor {ns : Namespaces} {classes : List MappedClass}
    {tables : List (Table String String)} (h : s.Fits namespaces rule)
    (htables : (List.range ns.size).mapM (fun source => classNamesBetween classes ⟨source⟩ target) =
      .ok tables)
    (hnames : ∀ c ∈ classes, ∀ x, c.info.names.get? target = some x → ';' ∉ x.toList)
    (hmove : s.moveDescriptor ns target tables = .ok s') : s'.Fits namespaces rule := by
  rcases moveDescriptor_cases hmove with ⟨rfl, -⟩ | ⟨d, names, desc, hd, -, -, rfl⟩
  · exact h
  · obtain ⟨desc', hdesc', hmoves⟩ :=
      (isMoved_of_becomes htables ⟨_, ⟨0⟩, hmove, rfl⟩).descriptor d hd
    obtain rfl : desc = desc' := congrArg NamespacedDescriptor.desc (Option.some.inj hdesc')
    have hcheck : Descriptor.check d.desc = .ok () :=
      h.descriptors d.desc (Tags.mem_descriptors_iff.2 (.inr (.inr ⟨d, hd, rfl⟩)))
    refine h.congr rfl (fun given hgiven => ?_) rfl
    rcases Tags.mem_descriptors_iff.1 hgiven with hgiven | hgiven | ⟨d', hd', rfl⟩
    · exact h.descriptors given (Tags.mem_descriptors_iff.2 (.inl hgiven))
    · exact h.descriptors given (Tags.mem_descriptors_iff.2 (.inr (.inl hgiven)))
    · obtain rfl := Option.some.inj hd'
      exact hmoves.check hnames fun _ => hcheck

/-- **A projected symbol fits** a paired collection, whatever names its local variables have. -/
theorem fits_of_project (hvalid : s.validate = .ok ()) (hnames : s.NamesFit rule)
    (hproject : s.project source target = .ok (some s')) : s'.Fits none rule := by
  induction s using rec_locals generalizing s' rule with
  | h names tags locals ih =>
    obtain ⟨-, htags, hlocals⟩ := project_eq_some hproject
    obtain ⟨x, hx, -⟩ := (isProjected_of_project hproject).named
    obtain ⟨s₀, hs₀, hpair⟩ := exists_of_project hproject hx
    obtain rfl := Option.some.inj hs₀
    obtain ⟨-, hdescs, hvalidLocals⟩ := validate_eq_ok_iff.1 hvalid
    have hname : ∀ n y, names.get? n = some y → rule y = true ∧ y ≠ "" := fun n y hy =>
      ⟨hnames y (SymbolNames.mem_toList_of_get? hy), SymbolNames.ne_empty_of_get? hy⟩
    obtain ⟨hrule, hne⟩ := hname source x hx
    have htarget : rule ((names.get? target).getD x) = true ∧ (names.get? target).getD x ≠ "" := by
      cases hy : names.get? target with
      | none => exact ⟨hrule, hne⟩
      | some y => exact hname target y hy
    refine fits_of_paired hpair hne htarget.2 ⟨hrule, htarget.1⟩ (fun desc hdesc => ?_)
      fun table' htable' e' he' => ?_
    · exact hdescs desc (Tags.mem_descriptors_of_project htags hdesc)
    · obtain ⟨table, htable, hprojected⟩ := hlocals table' htable'
      obtain ⟨e, he, hindex, hlocal⟩ := exists_of_mem_projectLocals hprojected he'
      have hentry := hvalidLocals table htable e he
      have hfits := ih table htable e he hentry.valid hentry.names hlocal
      exact ⟨hindex ▸ hentry.index, hfits.valid, hfits.names⟩

end Symbol

/-! ## Classes -/

namespace MappedClass

variable {namespaces : Option Namespaces} {source target : NamespaceId} {c c' : MappedClass}

/-- A class fits if what was made of its symbols does. -/
theorem Becomes.fits {onInfo : Symbol → Outcome Symbol}
    (onMember : MemberKind → Symbol → Outcome Symbol)
    (h : c.Becomes onInfo (onMember .field) (onMember .method) c')
    (hinfo : c'.info.Fits namespaces Name.isClassName)
    (hmembers : ∀ kind, ∀ s ∈ c.membersOf kind, ∀ s', onMember kind s = .ok s' →
      s'.Fits namespaces kind.nameRule) : c'.Fits namespaces := by
  refine ⟨hinfo, fun kind s' hs' => ?_⟩
  obtain ⟨s, hs, made, id, hmade, rfl⟩ := exists_left_of_forall₂ (h.membersOf onMember kind) hs'
  exact (hmembers kind s hs made hmade).ownedBy id

theorem Fits.project (h : c.Fits namespaces) (hproject : c.project source target = .ok (some c')) :
    c'.Fits none := by
  obtain ⟨info, hinfo, hproject⟩ := Outcome.bind_eq_ok_iff.1 hproject
  cases info with
  | none => cases hproject
  | some info =>
    obtain ⟨fields, hfields, hproject⟩ := Outcome.bind_eq_ok_iff.1 hproject
    obtain ⟨methods, hmethods, hproject⟩ := Outcome.bind_eq_ok_iff.1 hproject
    obtain rfl := Option.some.inj (Except.ok.inj hproject)
    have hmember : ∀ kind {projected : List Symbol},
        projectAll source target (c.membersOf kind) = .ok projected →
        ∀ s' ∈ projected, s'.Fits none kind.nameRule := by
      intro kind projected hall s' hs'
      obtain ⟨s, hs, hmade⟩ := exists_of_mem_projectAll hall hs'
      exact Symbol.fits_of_project (h.members kind s hs).valid (h.members kind s hs).names hmade
    refine ⟨Symbol.fits_of_project h.info.valid h.info.names hinfo, fun kind => ?_⟩
    cases kind with
    | field => exact hmember .field hfields
    | method => exact hmember .method hmethods

end MappedClass

/-! ## Collections -/

namespace GroupedMappings

variable {m m' : GroupedMappings} {flat : FlatMappings}

/-- **A reversed collection is valid if no mapped class name repeats.** -/
theorem validate_reverse_iff (hvalid : m.validate = .ok ()) (h : m.reverse = .ok m') :
    m'.validate = .ok () ↔ (m.classes.map MappedClass.mappedName).Nodup := by
  obtain ⟨hplace, hclasses, hpackages, -⟩ := validate_iff_fits.1 hvalid
  obtain ⟨hpaired, hpaired', hbecomes, hreversed⟩ := reverse_eq_ok h
  rw [isPaired, Option.isNone_iff_eq_none] at hpaired hpaired'
  rw [hpaired] at hclasses hpackages
  have hnames : m.classes.map MappedClass.mappedName = m'.classes.map MappedClass.unmappedName := by
    refine map_eq_map_of_forall₂ hbecomes fun c c' hc => ?_
    obtain ⟨x, y, hnames, hnames', -⟩ := Symbol.reverse_cases hc.info
    rw [MappedClass.mappedName, Symbol.mappedName, hnames, MappedClass.unmappedName,
      Symbol.unmappedName, hnames']
    rfl
  rw [validate_iff_fits, hpaired', hnames]
  refine ⟨fun hvalid' => hvalid'.2.2.2, fun hnodup => ?_⟩
  refine ⟨(Step.reverse h).inPlace hplace, fun c' hc' => ?_, fun p' hp' => ?_, hnodup⟩
  · obtain ⟨c, hc, hmade⟩ := exists_left_of_forall₂ hbecomes hc'
    exact hmade.fits (fun _ => Symbol.reverse) ((hclasses c hc).info.reverse hmade.info)
      fun kind s hs s' hs' => ((hclasses c hc).members kind s hs).reverse hs'
  · obtain ⟨p, hp, hmade⟩ := exists_left_of_forall₂ hreversed hp'
    exact (hpackages p hp).reverse hmade

/-- A paired collection can be chained with flat mappings that fit. -/
theorem exists_chain {classes : Table String Symbol} {members : MemberKind → Table String Symbol}
    (hvalid : m.validate = .ok ()) (hpaired : m.isPaired = true) (hpairs : flat.namespaces = none)
    (htables : flat.Tables classes members) : ∃ m', m.chain flat = .ok m' := by
  obtain ⟨-, hclasses, -⟩ := validate_iff_fits.1 hvalid
  rw [Option.isNone_iff_eq_none.1 hpaired] at hclasses
  have hnamed : ∀ x, ∃ y, chainedClassName classes x = .ok y := by
    intro x
    rw [chainedClassName]
    cases hget : classes.get? x with
    | none => exact ⟨x, rfl⟩
    | some target => exact (htables.classFits x target hget).exists_mappedName
  have hclass : ∀ c ∈ m.classes, ∃ c', c.traverse (Symbol.renameMapped classes)
      (Symbol.chainMember (members .field) classes)
      (Symbol.chainMember (members .method) classes) = .ok c' := by
    intro c hc
    have hmember : ∀ kind, ∀ s ∈ c.membersOf kind,
        ∃ s', s.chainMember (members kind) classes = .ok s' := fun kind s hs =>
      Symbol.exists_chainMember ((hclasses c hc).members kind s hs) (htables.memberFits kind) hnamed
    exact MappedClass.exists_traverse (Symbol.exists_renameMapped htables.classFits c.info)
      (hmember .field) (hmember .method)
  obtain ⟨chained, hchained⟩ := Outcome.exists_mapM_iff.2 hclass
  refine ⟨ofParts none chained m.packages, ?_⟩
  simp only [chain, hpaired, hpairs, Option.isNone_none, Bool.and_self, if_true, htables.classTable,
    htables.fieldTable, htables.methodTable, hchained, Outcome.ok_bind]
  rfl

/-- **A chained collection is valid**, if no class of the flat mappings has the name of an array. -/
theorem validate_chain {classes : Table String Symbol} {members : MemberKind → Table String Symbol}
    (hvalid : m.validate = .ok ()) (hpaired : m.isPaired = true) (hflat : flat.validate = .ok ())
    (hnoArray : ∀ s ∈ flat.classes, s.NoArray) (htables : flat.Tables classes members)
    (h : m.chain flat = .ok m') : m'.validate = .ok () := by
  obtain ⟨hplace, hclasses, hpackages, hnodup⟩ := validate_iff_fits.1 hvalid
  obtain ⟨classes₀, fields, methods, hclasses₀, hfields, hmethods, hnone, hsame, hbecomes⟩ :=
    chain_eq_ok h
  obtain rfl := Outcome.eq_of_eq_ok hclasses₀ htables.classTable
  obtain rfl := Outcome.eq_of_eq_ok hfields htables.fieldTable
  obtain rfl := Outcome.eq_of_eq_ok hmethods htables.methodTable
  rw [Option.isNone_iff_eq_none.1 hpaired] at hclasses hpackages
  have hdelimited : ∀ desc x y, Descriptor.Mentions desc x → chainedClassName classes₀ x = .ok y →
      y.toList ≠ [] ∧ ';' ∉ y.toList := by
    intro desc x y hx hy
    rcases FlatMappings.fits_of_chained hflat hnoArray htables.classTable hy with rfl | ⟨-, hfits⟩
    · exact Descriptor.delimited_of_mentions hx
    · exact hfits
  have hnames : m.classes.map MappedClass.unmappedName =
      m'.classes.map MappedClass.unmappedName := by
    refine map_eq_map_of_forall₂ hbecomes fun c c' hc => ?_
    rcases Symbol.renameMapped_cases hc.info with hkept | ⟨x, y, y', -, hnames, -, -, hrenamed⟩
    · rw [MappedClass.unmappedName, MappedClass.unmappedName, hkept]
    · rw [MappedClass.unmappedName, Symbol.unmappedName, hnames, MappedClass.unmappedName, hrenamed]
      rfl
  rw [validate_iff_fits, hnone, hsame, ← hnames]
  refine ⟨(Step.chain flat h).inPlace hplace, fun c' hc' => ?_, hpackages, hnodup⟩
  obtain ⟨c, hc, hmade⟩ := exists_left_of_forall₂ hbecomes hc'
  refine hmade.fits (fun kind => Symbol.chainMember (members kind) classes₀) ?_ ?_
  · exact (hclasses c hc).info.renameMapped htables.classFits hmade.info
  · intro kind s hs s' hs'
    exact ((hclasses c hc).members kind s hs).chainMember (htables.memberFits kind) hdelimited hs'

/-- **A collection with moved descriptors is valid**, if no class has the name of an array. -/
theorem validate_descriptorsIn {name : String} (hvalid : m.validate = .ok ())
    (hnoArray : ∀ c ∈ m.classes, c.info.NoArray) (h : m.descriptorsIn name = .ok m') :
    m'.validate = .ok () := by
  obtain ⟨hplace, hclasses, hpackages, hnodup⟩ := validate_iff_fits.1 hvalid
  obtain ⟨ns, target, tables, hns, -, htables, hns', hsame, hmoves⟩ := descriptorsIn_eq_ok h
  have hdelimited : ∀ c ∈ m.classes, ∀ x, c.info.names.get? target = some x → ';' ∉ x.toList := by
    intro c hc x hx
    have hmem := SymbolNames.mem_toList_of_get? hx
    have harray : Name.isArray x = false := by simpa using hnoArray c hc x hmem
    exact (Name.delimited_of_isClassName harray ((hclasses c hc).info.names x hmem)).2
  have hnames : m.classes.map MappedClass.unmappedName =
      m'.classes.map MappedClass.unmappedName := by
    refine map_eq_map_of_forall₂ hmoves fun c c' hc => ?_
    rw [MappedClass.unmappedName, MappedClass.unmappedName, Except.ok.inj hc.info]
  rw [validate_iff_fits, hns', ← hns, hsame, ← hnames]
  refine ⟨(Step.descriptorsIn name h).inPlace hplace, fun c' hc' => ?_, hpackages, hnodup⟩
  obtain ⟨c, hc, hmade⟩ := exists_left_of_forall₂ hmoves hc'
  refine hmade.fits (fun _ => Symbol.moveDescriptor ns target tables) ?_ ?_
  · exact Except.ok.inj hmade.info ▸ (hclasses c hc).info
  · intro kind s hs s' hs'
    exact ((hclasses c hc).members kind s hs).moveDescriptor htables hdelimited hs'

/-- The classes of a projection are called by their names in the source. -/
theorem map_unmappedName_of_project {source target : NamespaceId} {classes : List MappedClass}
    {projected : List (Option MappedClass)}
    (h : classes.mapM (MappedClass.project source target) = .ok projected) :
    (projected.filterMap id).map MappedClass.unmappedName =
      (classes.filterMap fun c => c.info.names.get? source).map .ok := by
  have hforall := Outcome.mapM_eq_ok_iff.1 h
  clear h
  induction hforall with
  | nil => rfl
  | @cons c made classes projected hproject _ ih =>
    cases hx : c.info.names.get? source with
    | none =>
      obtain rfl : made = none := by
        cases made with
        | none => rfl
        | some c' =>
          obtain ⟨x, hx', -⟩ := (MappedClass.isProjected_of_project hproject c.id).info.named
          rw [hx] at hx'
          cases hx'
      simpa only [List.filterMap_cons, hx, id_eq] using ih
    | some x =>
      obtain ⟨c', rfl⟩ := MappedClass.exists_of_project hproject hx
      obtain ⟨x', hx', hnamed⟩ := (MappedClass.isProjected_of_project hproject c.id).info.named
      obtain rfl : x = x' := Option.some.inj (hx.symm.trans hx')
      have hname : c'.unmappedName = .ok x := hnamed.1
      simpa only [List.filterMap_cons, hx, id_eq, List.map_cons, hname, List.cons.injEq, true_and]
        using ih

/-- **A projected collection is valid if no class name in the source repeats.** -/
theorem validate_project_iff {ns : Namespaces} {name name' : String} {source : NamespaceId}
    (hvalid : m.validate = .ok ()) (hns : m.namespaces = some ns)
    (hsource : ns.find name = .ok source) (h : m.project name name' = .ok m') :
    m'.validate = .ok () ↔ (m.classes.filterMap fun c => c.info.names.get? source).Nodup := by
  obtain ⟨hplace, hclasses, hpackages, -⟩ := validate_iff_fits.1 hvalid
  obtain ⟨ns₀, source₀, target, projected, hns₀, hsource₀, -, hprojected, hpaired, hadded, hsame⟩ :=
    exists_of_project h
  obtain rfl := Option.some.inj (hns.symm.trans hns₀)
  obtain rfl := Outcome.eq_of_eq_ok hsource hsource₀
  have hnames : m'.classes.map MappedClass.unmappedName =
      (m.classes.filterMap fun c => c.info.names.get? source).map .ok := by
    rw [← map_unmappedName_of_project hprojected]
    refine (map_eq_map_of_forall₂ hadded ?_).symm
    rintro c _ ⟨id, rfl⟩
    rfl
  rw [validate_iff_fits, Option.isNone_iff_eq_none.1 hpaired, hnames,
    List.nodup_map_iff fun _ _ => Except.ok.inj]
  refine ⟨fun hvalid' => hvalid'.2.2.2, fun hnodup => ?_⟩
  refine ⟨(Step.project name name' h).inPlace hplace, fun c' hc' => ?_, fun p' hp' => ?_, hnodup⟩
  · obtain ⟨made, hmade, id, rfl⟩ := exists_left_of_forall₂ hadded hc'
    obtain ⟨_, hmem, rfl⟩ := List.mem_filterMap.1 hmade
    obtain ⟨c, hc, hproject⟩ := exists_left_of_forall₂ (Outcome.mapM_eq_ok_iff.1 hprojected) hmem
    exact ((hclasses c hc).project hproject).withId id
  · obtain ⟨p, hp, hproject⟩ := exists_of_mem_projectAll hsame hp'
    exact Symbol.fits_of_project (hpackages p hp).valid (hpackages p hp).names hproject

/-- **Transformed collections are valid.**  Let a collection be valid, no class of it have the name
of an array, and its local variables be named in its way.  If it is paired, it can be reversed, and
is valid then if and only if no mapped class name repeats; and it can be chained with valid flat
mappings in which no class has the name of an array, and is valid then.  If it has namespaces, it is
valid with its descriptors moved, and its projections are valid if and only if no class name in the
source repeats. -/
theorem transformed_valid (hvalid : m.validate = .ok ())
    (hnoArray : ∀ c ∈ m.classes, c.info.NoArray)
    (hlocals : ∀ s, m.Holds s → ∀ v, s.HoldsInside v → v.names.isPaired = m.isPaired) :
    (m.isPaired = true →
      (∃ r, m.reverse = .ok r ∧
        (r.validate = .ok () ↔ (m.classes.map MappedClass.mappedName).Nodup)) ∧
      ∀ flat : FlatMappings, flat.namespaces = none → flat.validate = .ok () →
        (∀ s ∈ flat.classes, s.NoArray) → ∃ r, m.chain flat = .ok r ∧ r.validate = .ok ()) ∧
    ∀ ns, m.namespaces = some ns →
      (∀ name r, m.descriptorsIn name = .ok r → r.validate = .ok ()) ∧
      ∀ name name' source r, ns.find name = .ok source → m.project name name' = .ok r →
        (r.validate = .ok () ↔
          (m.classes.filterMap fun c => c.info.names.get? source).Nodup) := by
  refine ⟨fun hpaired => ⟨?_, fun flat hpairs hflat hnoFlatArray => ?_⟩, fun ns hns => ⟨?_, ?_⟩⟩
  · obtain ⟨r, hr⟩ := exists_reverse hpaired fun s hs =>
      (named_of_validate hvalid hlocals s hs).trans hpaired
    exact ⟨r, hr, validate_reverse_iff hvalid hr⟩
  · obtain ⟨classes, members, htables⟩ := FlatMappings.exists_tables hpairs hflat
    obtain ⟨r, hr⟩ := exists_chain hvalid hpaired hpairs htables
    exact ⟨r, hr, validate_chain hvalid hpaired hflat hnoFlatArray htables hr⟩
  · intro name r hr
    exact validate_descriptorsIn hvalid hnoArray hr
  · intro name name' source r hsource hr
    exact validate_project_iff hvalid hns hsource hr

/-! ### Two classes with one mapped name -/

/-- Two classes with one mapped name, and a method that takes the first. -/
def oneMappedName : GroupedMappings :=
  .ofParts none
    [(MappedClass.ofInfo (.ofNames (.paired "a" "c"))).addMethod
      (((Symbol.ofNames (.paired "m" "n")).set (.mappedDescriptor "(Lc;)V")).set
        (.locals [(1, .ofNames (.paired "p" "q"))])),
      .ofInfo (.ofNames (.paired "b" "c"))] []

/-- Another name for the mapped name. -/
def renameMappedName : FlatMappings where
  namespaces := none
  classes := [.ofNames (.paired "c" "d")]
  fields := []
  methods := [.ofNames (.paired "n" "k")]

/-- A class without a name in the third of three namespaces, and a method that takes it. -/
def methodOfTwo : GroupedMappings :=
  .ofParts (some threeNamespaces)
    [(MappedClass.ofInfo (.ofNames (.row (.ofNames ["A", "a", ""])))).addMethod
      (((Symbol.ofNames (.row (.ofNames ["m", "n", "k"]))).set
        (.namespacedDescriptor ⟨⟨1⟩, "(La;)V"⟩)).set
        (.locals [(1, .ofNames (.row (.ofNames ["p", "q", ""])))]))] []

/-- Reversing the two classes gives an invalid collection, and every other transformation of the two
collections a valid one. -/
theorem oneMappedName_transformed :
    oneMappedName.validate = .ok () ∧ methodOfTwo.validate = .ok () ∧
    (∃ r, oneMappedName.reverse = .ok r ∧ r.validate ≠ .ok ()) ∧
    (∃ r, oneMappedName.chain renameMappedName = .ok r ∧ r.validate = .ok ()) ∧
    (∃ r, methodOfTwo.descriptorsIn "x" = .ok r ∧ r.validate = .ok ()) ∧
    ∃ r, methodOfTwo.project "y" "z" = .ok r ∧ r.validate = .ok () := by
  have hvalid : oneMappedName.validate = .ok () := by decide +kernel
  have hvalid' : methodOfTwo.validate = .ok () := by decide +kernel
  obtain ⟨hpaired, -⟩ := transformed_valid hvalid (by decide +kernel)
    (forall_holdsInside (by decide +kernel))
  obtain ⟨-, hrows⟩ := transformed_valid hvalid' (by decide +kernel)
    (forall_holdsInside (by decide +kernel))
  obtain ⟨⟨r, hr, hiff⟩, hchain⟩ := hpaired rfl
  obtain ⟨hmove, hproject⟩ := hrows threeNamespaces rfl
  obtain ⟨moved, hmoved⟩ : ∃ r, methodOfTwo.descriptorsIn "x" = .ok r :=
    Outcome.exists_eq_ok (by decide +kernel)
  obtain ⟨projected, hprojected⟩ : ∃ r, methodOfTwo.project "y" "z" = .ok r :=
    Outcome.exists_eq_ok (by decide +kernel)
  refine ⟨hvalid, hvalid', ⟨r, hr, fun h => ?_⟩, ?_, ⟨moved, hmoved, hmove "x" moved hmoved⟩, ?_⟩
  · exact absurd (hiff.1 h) (by decide +kernel)
  · exact hchain renameMappedName rfl (by decide +kernel) (by decide +kernel)
  · exact ⟨projected, hprojected,
      (hproject "y" "z" ⟨1⟩ projected (by decide +kernel) hprojected).2 (by decide +kernel)⟩

end GroupedMappings

end SymbolMap
