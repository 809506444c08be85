import SymbolMap.Proofs.Renamer.MemberTables
import SymbolMap.Proofs.Renamer.Search

/-!
# Inherited members

What a member referred to through a class that does not map it comes to.  The answer is given by
the candidates, the super types of open classes that map the member, without a word on how they are
found: nothing if there is none, the target of the most visible ones if they agree on it, and an
ambiguity that lists their targets and classes otherwise (`resolve_eq_of_candidates`).
-/

namespace SymbolMap.Renamer

variable (r : Renamer) (a : Ancestry) (m : MemberRef)

/-- The class is a candidate for a member of `owner`: a super type of an open class that maps the
member. -/
def IsCandidate (owner s : String) : Prop :=
  (∃ c, r.OpenClass a m owner c ∧ a.SuperType c s) ∧ ∃ entry, r.lookup s m = .ok (some entry)

/-- The class `d.declaring` is a candidate that offers `d.target`, and no candidate offers anything
with a higher visibility. -/
def MostVisible (owner : String) (d : Declaration) : Prop :=
  ∃ v, r.Candidate a m owner v d ∧
    ∀ v' d', r.Candidate a m owner v' d' → v'.rank ≤ v.rank

variable {r a m} {owner : String}

theorem Candidate.isCandidate {v : Visibility} {d : Declaration}
    (h : r.Candidate a m owner v d) : r.IsCandidate a m owner d.declaring := by
  obtain ⟨c, hopen, hsuper, entry, _, _, hlookup, -⟩ := h
  exact ⟨⟨c, hopen, hsuper⟩, entry, hlookup⟩

/-- Where nothing goes wrong, every candidate offers something. -/
theorem IsCandidate.exists_candidate {s : String} (h : r.IsCandidate a m owner s)
    (hclear : ∀ c, r.OpenClass a m owner c → r.Clear a m c) :
    ∃ v t, r.Candidate a m owner v ⟨t, s⟩ := by
  obtain ⟨⟨c, hopen, hsuper⟩, entry, hlookup⟩ := h
  obtain ⟨access, haccess⟩ := (hclear c hopen).access s entry hsuper hlookup
  obtain ⟨desc, hdesc⟩ := (hclear c hopen).descriptor s entry hsuper hlookup
  exact ⟨access.visibility, ⟨entry.target.name, some desc⟩, c, hopen, hsuper, entry, desc, access,
    hlookup, hdesc, haccess, rfl, rfl⟩

/-- A mapped name that is not mapped by the class itself is searched for. -/
theorem resolve_eq_inherited (hname : Name.isInitializer m.name = false)
    (howner : r.lookup owner m = .ok none) (hmapped : m.name ∈ r.mappedNames m.kind) :
    r.resolve owner m = r.inherited owner m := by
  rw [resolve, hname, howner]
  simp only [Bool.false_eq_true, if_false, if_pos hmapped]

/-- Where nothing goes wrong, the member is picked from candidates that are the most visible ones. -/
theorem inherited_eq_pick (hancestry : r.ancestry = some a)
    (howner : r.lookup owner m = .ok none)
    (hclear : ∀ c, r.OpenClass a m owner c → r.Clear a m c) :
    ∃ found : Candidates, r.inherited owner m = found.pick owner m.name m.desc ∧
      (∀ d, d ∈ found.declarations ↔ r.MostVisible a m owner d) ∧
      ∀ {v d}, r.Candidate a m owner v d → ∃ d, d ∈ found.declarations := by
  obtain ⟨found, hfound⟩ := (searchFrom_eq_ok_iff howner).2 hclear
  have hbest := isBestOf_searchFrom howner hfound
  refine ⟨found, ?_, fun d => hbest.mem_iff_forall_le, hbest.exists_mem⟩
  rw [inherited_eq hancestry, hfound]
  rfl

/-- What a member is resolved to is found in the class itself or searched for. -/
theorem resolve_eq_some {t : MemberTarget} (h : r.resolve owner m = .ok (some t)) :
    Name.isInitializer m.name = false ∧
      ((∃ entry, r.lookup owner m = .ok (some entry) ∧ t = entry.target) ∨
        (r.lookup owner m = .ok none ∧ r.inherited owner m = .ok (some t))) := by
  rw [resolve] at h
  split at h
  · cases h
  · rename_i hname
    refine ⟨by simpa using hname, ?_⟩
    split at h
    · cases h
    · rename_i entry hlookup
      cases h
      exact .inl ⟨entry, hlookup, rfl⟩
    · rename_i hlookup
      split at h
      · exact .inr ⟨hlookup, h⟩
      · cases h

/-- The target of an inherited member is that of a candidate. -/
theorem exists_candidate_of_inherited {t : MemberTarget} (hancestry : r.ancestry = some a)
    (howner : r.lookup owner m = .ok none) (h : r.inherited owner m = .ok (some t)) :
    ∃ v s, r.Candidate a m owner v ⟨t, s⟩ := by
  rw [inherited_eq hancestry] at h
  obtain ⟨found, hfound, hpick⟩ := Outcome.bind_eq_ok_iff.1 h
  obtain ⟨d, hd, rfl⟩ := Candidates.exists_of_pick_eq_some hpick
  obtain ⟨v, hcandidate, -⟩ := ((isBestOf_searchFrom howner hfound).mem_iff d).1 hd
  exact ⟨v, d.declaring, hcandidate⟩

/-- A class that maps the member and is reached through super types makes a candidate, itself or
one that comes before it. -/
theorem exists_isCandidate_of_chain {s : String} {entry : MemberEntry}
    (hlookup : ∀ c, ∃ entry, r.lookup c m = .ok entry) (howner : r.lookup owner m = .ok none)
    (hchain : Relation.ReflTransGen a.SuperType owner s)
    (hs : r.lookup s m = .ok (some entry)) : ∃ c, r.IsCandidate a m owner c := by
  -- along the chain, classes are open up to the first one that maps the member
  have hopen : r.OpenClass a m owner s ∨ ∃ c, r.IsCandidate a m owner c := by
    clear hs
    induction hchain with
    | refl => exact .inl .owner
    | @tail c s _ hsuper ih =>
      rcases ih with hopen | hfound
      · obtain ⟨entry, hentry⟩ := hlookup s
        cases entry with
        | none => exact .inl (.up hopen hsuper hentry)
        | some entry => exact .inr ⟨s, ⟨c, hopen, hsuper⟩, entry, hentry⟩
      · exact .inr hfound
  rcases hopen with hopen | hfound
  · rw [hopen.lookup_eq_none howner] at hs
    cases hs
  · exact hfound

/-- **Resolution to an only target.**  If every class that maps the member has one target with a
descriptor for it, the ancestry answers all questions, and some class that maps the member is
reached through super types, then the member is resolved to that target. -/
theorem resolve_eq_of_only_target {s name desc : String} {entry : MemberEntry}
    (hancestry : r.ancestry = some a) (hname : Name.isInitializer m.name = false)
    (hmapped : m.name ∈ r.mappedNames m.kind)
    (hsuperTypes : ∀ c, ∃ superTypes, a.superTypes c = .ok superTypes)
    (haccess : ∀ c, ∃ access, a.access c m = .ok access)
    (hlookup : ∀ c, ∃ entry, r.lookup c m = .ok entry)
    (honly : ∀ c entry, r.lookup c m = .ok (some entry) → entry.target = ⟨name, some desc⟩)
    (hchain : Relation.ReflTransGen a.SuperType owner s)
    (hs : r.lookup s m = .ok (some entry)) :
    r.resolve owner m = .ok (some ⟨name, some desc⟩) := by
  obtain ⟨direct, howner⟩ := hlookup owner
  cases direct with
  | some direct =>
    rw [resolve, hname, howner, ← honly owner direct howner]
    rfl
  | none =>
    have hdesc : ∀ c entry, r.lookup c m = .ok (some entry) →
        r.targetDescriptor entry.target m.desc = .ok desc := by
      intro c entry hentry
      rw [honly c entry hentry]
      rfl
    have hclear : ∀ c, r.OpenClass a m owner c → r.Clear a m c := by
      intro c _
      exact ⟨hsuperTypes c, fun s _ => hlookup s, fun s _ _ _ => haccess s,
        fun s entry _ hentry => ⟨desc, hdesc s entry hentry⟩⟩
    obtain ⟨found, hpick, hmem, hsome⟩ := inherited_eq_pick hancestry howner hclear
    obtain ⟨c, hc⟩ := exists_isCandidate_of_chain hlookup howner hchain hs
    obtain ⟨v, t, hcandidate⟩ := hc.exists_candidate hclear
    obtain ⟨d, hd⟩ := hsome hcandidate
    rw [resolve_eq_inherited hname howner hmapped, hpick]
    refine Candidates.pick_of_one_target hd fun d' hd' => ?_
    obtain ⟨v', ⟨c', -, -, entry', desc', -, hentry, hdesc', -, -, ht⟩, -⟩ := (hmem d').1 hd'
    have heq : desc' = desc := Outcome.eq_of_eq_ok hdesc' (hdesc _ _ hentry)
    rw [ht, honly _ _ hentry, heq]

/-! ## Members with their descriptors -/

theorem member_of_resolve_some {t : MemberTarget} (h : r.resolve owner m = .ok (some t)) :
    r.member owner m = do return ⟨t.name, ← r.targetDescriptor t m.desc⟩ := by
  rw [member, member?, h]
  show ((r.targetDescriptor t m.desc >>= _) >>= _) = _
  cases r.targetDescriptor t m.desc <;> rfl

theorem member_of_resolve_none (h : r.resolve owner m = .ok none) :
    r.member owner m = do return ⟨m.name, ← r.classes.descriptor .toMapped m.desc⟩ := by
  rw [member, member?, h]
  rfl

/-- A member that is not resolved has no mapped name. -/
theorem member?_of_resolve_none (h : r.resolve owner m = .ok none) :
    r.member? owner m = .ok none := by
  rw [member?, h]
  rfl

/-- A member with an outcome is resolved, to something or to nothing. -/
theorem exists_resolve_of_member {mapped : NameAndDesc} (h : r.member owner m = .ok mapped) :
    ∃ target, r.resolve owner m = .ok target := by
  rw [member] at h
  obtain ⟨_, hmember, -⟩ := Outcome.bind_eq_ok_iff.1 h
  obtain ⟨target, htarget, -⟩ := Outcome.bind_eq_ok_iff.1 hmember
  exact ⟨target, htarget⟩

/-! ## Resolution by candidates -/

/-- **Resolution by candidates.**  Let a member not be mapped by the class it is referred to
through, and its name be mapped in some class.  If nothing goes wrong at the open classes, then the
member is not mapped if there is no candidate, has the target of the most visible candidates if
these agree on it, and is ambiguous otherwise; the ambiguity lists the targets of the most visible
candidates, each with the classes that offer it. -/
theorem resolve_eq_of_candidates {mappings : GroupedMappings} {base : Renamer}
    (built : ofMappings mappings = .ok base) (hr : base.withAncestry a = r)
    (hname : Name.isInitializer m.name = false)
    (howner : r.lookup owner m = .ok none)
    (hmapped : ∃ c ∈ mappings.classes, ∃ s ∈ c.membersOf m.kind, s.unmappedName = .ok m.name)
    (hclear : ∀ c, r.OpenClass a m owner c → r.Clear a m c) :
    ((¬ ∃ s, r.IsCandidate a m owner s) → r.resolve owner m = .ok none) ∧
    ((∃ s, r.IsCandidate a m owner s) →
      (∀ t, (∀ d, r.MostVisible a m owner d → d.target = t) →
        r.resolve owner m = .ok (some t)) ∧
      ((¬ ∃ t, ∀ d, r.MostVisible a m owner d → d.target = t) →
        ∃ listing, Lists (fun t s => r.MostVisible a m owner ⟨t, s⟩) listing ∧
          r.resolve owner m = .error (.of (.ambiguous owner m.name m.desc
            (listing.map Candidates.describeTarget))))) := by
  have hrepresents : r.Represents mappings := hr ▸ (represents_of_ofMappings built).withAncestry a
  have hancestry : r.ancestry = some a := hr ▸ rfl
  have hnames := (hrepresents.mem_mappedNames_iff m.kind m.name).2 hmapped
  obtain ⟨found, hpick, hmem, hsome⟩ := inherited_eq_pick hancestry howner hclear
  rw [resolve_eq_inherited hname howner hnames, hpick]
  refine ⟨fun hno => ?_, fun ⟨s, hs⟩ => ?_⟩
  · apply Candidates.pick_of_no_declaration
    apply List.eq_nil_iff_forall_not_mem.2
    intro d hd
    obtain ⟨v, hcandidate, -⟩ := (hmem d).1 hd
    exact hno ⟨_, hcandidate.isCandidate⟩
  · obtain ⟨v, t, hcandidate⟩ := hs.exists_candidate hclear
    obtain ⟨d, hd⟩ := hsome hcandidate
    refine ⟨fun t ht => ?_, fun hno => ?_⟩
    · exact Candidates.pick_of_one_target hd fun d' hd' => ht d' ((hmem d').1 hd')
    · -- not all of the most visible candidates have the target of this one
      obtain ⟨d', hd', hne⟩ : ∃ d', r.MostVisible a m owner d' ∧ d'.target ≠ d.target := by
        by_contra hall
        refine hno ⟨d.target, fun d' hd' => ?_⟩
        by_contra hne
        exact hall ⟨d', hd', hne⟩
      refine ⟨found.targets, ?_, Candidates.pick_of_two_targets ((hmem d').2 hd') hd hne⟩
      have hlists := found.lists_targets
      simp only [hmem] at hlists
      exact hlists

/-- Two classes map the field `f`. -/
def loopMappings : GroupedMappings :=
  let field (mapped : String) : Symbol :=
    (Symbol.ofNames (.paired "f" mapped)).set (.unmappedDescriptor "I")
  .ofParts none
    [(MappedClass.ofInfo (.ofNames (.paired "A" "a"))).addField (field "g"),
      (MappedClass.ofInfo (.ofNames (.paired "B" "b"))).addField (field "h")] []

/-- The classes `C` and `D` extend each other; `C` extends `A` as well, and `D` extends `B`, whose
members are private. -/
def loopAncestry : Ancestry where
  superTypes c :=
    if c = "C" then .ok (some ["D", "A"])
    else if c = "D" then .ok (some ["C", "B"])
    else .ok none
  access c _ := .ok (if c = "B" then Access.privateFlag else Access.publicFlag)
  known := ["C", "D"]
  mem_known c s h := by
    by_cases hC : c = "C"
    · simp [hC]
    · by_cases hD : c = "D"
      · simp [hD]
      · simp [hC, hD] at h

theorem mem_of_superType_loopAncestry {c s : String} (h : loopAncestry.SuperType c s) :
    s ∈ ["A", "B", "C", "D"] := by
  obtain ⟨superTypes, heq, hs, -⟩ := h
  simp only [loopAncestry] at heq
  split at heq
  · cases heq
    exact (by decide : ["D", "A"] ⊆ ["A", "B", "C", "D"]) hs
  · split at heq
    · cases heq
      exact (by decide : ["C", "B"] ⊆ ["A", "B", "C", "D"]) hs
    · cases heq

/-- Of the two candidates for `f` in the loop, the one that is not private counts. -/
theorem resolve_in_loop : ∃ base, ofMappings loopMappings = .ok base ∧
    (base.withAncestry loopAncestry).resolve "C" ⟨.field, "f", "I"⟩ =
      .ok (some ⟨"g", some "I"⟩) := by
  have built : ofMappings loopMappings = .ok _ := rfl
  refine ⟨_, built, ?_⟩
  generalize hr : Renamer.withAncestry _ loopAncestry = r
  have hlookup : ∀ s ∈ ["A", "B", "C", "D"], r.lookup s ⟨.field, "f", "I"⟩ =
      .ok (if s = "A" then some ⟨⟨"g", some "I"⟩, []⟩
        else if s = "B" then some ⟨⟨"h", some "I"⟩, []⟩ else none) := by
    rw [← hr]
    decide
  have hclear : ∀ c, r.OpenClass loopAncestry ⟨.field, "f", "I"⟩ "C" c →
      r.Clear loopAncestry ⟨.field, "f", "I"⟩ c := by
    intro c _
    refine ⟨?_, fun s hs => ⟨_, hlookup s (mem_of_superType_loopAncestry hs)⟩,
      fun s entry _ _ => ⟨_, rfl⟩, fun s entry hs hentry => ?_⟩
    · simp only [loopAncestry]
      split
      · exact ⟨_, rfl⟩
      · split
        · exact ⟨_, rfl⟩
        · exact ⟨_, rfl⟩
    · rw [hlookup s (mem_of_superType_loopAncestry hs)] at hentry
      split at hentry
      · cases hentry
        exact ⟨_, rfl⟩
      · split at hentry
        · cases hentry
          exact ⟨_, rfl⟩
        · cases hentry
  have hsuper : loopAncestry.SuperType "C" "A" := ⟨_, rfl, by decide, by decide⟩
  have hA : r.Candidate loopAncestry ⟨.field, "f", "I"⟩ "C" .inheritable ⟨⟨"g", some "I"⟩, "A"⟩ :=
    ⟨"C", .owner, hsuper, _, _, _, hlookup "A" (by decide), rfl, rfl, by decide, rfl⟩
  refine ((resolve_eq_of_candidates built hr (by decide) (hlookup "C" (by decide)) (by decide)
    hclear).2 ⟨"A", hA.isCandidate⟩).1 _ ?_
  rintro ⟨t, s⟩ ⟨v, ⟨c, -, hs, entry, desc, access, hentry, hdesc, haccess, hv, ht⟩, hmax⟩
  -- nothing restricted is among the most visible candidates
  have hrank := hmax _ _ hA
  rw [hlookup s (mem_of_superType_loopAncestry hs)] at hentry
  split at hentry
  · cases hentry
    cases hdesc
    exact ht
  · split at hentry
    · rename_i hsB
      subst hv hsB
      cases haccess
      rw [if_pos rfl] at hrank
      exact absurd hrank (by decide)
    · cases hentry

end SymbolMap.Renamer
