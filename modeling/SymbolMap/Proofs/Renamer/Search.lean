import SymbolMap.Proofs.Renamer.MostVisible
import SymbolMap.Proofs.Renamer.OpenClasses

/-!
# What a search finds

A class that a search stops at **offers** a target with a visibility (`Offers`).  The search from an
owner succeeds exactly if nothing goes wrong at any open class (`Clear`), and then its result is
what the offers of all super types of open classes leave (`exists_search_eq_ok`).  Otherwise it
fails with a failure that was raised at an open class (`raises_of_search_eq_error`).

None of this speaks of paths or of the order of super types.  It is so for every lineage that is
searched deep enough (`HasRoom`); that there is such a depth follows from the finitely many classes
of an ancestry (`hasRoom_firstStage`).
-/

namespace SymbolMap.Renamer

variable (r : Renamer) (a : Lineage) (m : MemberRef)

/-- The class `s` maps the member to the target `t` and declares it with the visibility `v`.  The
descriptor of the target is filled in where the mappings give none. -/
def Offers (s : String) (v : Visibility) (t : MemberTarget) : Prop :=
  ∃ entry desc access, r.lookup s m = .ok (some entry) ∧
    r.targetDescriptor entry.target m.desc = .ok desc ∧ a.access s m = .ok access ∧
    v = access.visibility ∧ t = ⟨entry.target.name, some desc⟩

/-- The declaration is one that a super type of `c` offers. -/
def Declares (c : String) (v : Visibility) (d : Declaration) : Prop :=
  a.SuperType c d.declaring ∧ r.Offers a m d.declaring v d.target

/-- A search for a member of `owner` meets the declaration. -/
def Candidate (owner : String) (v : Visibility) (d : Declaration) : Prop :=
  ∃ c, r.OpenClass a m owner c ∧ r.Declares a m c v d

/-- Nothing goes wrong at a class: it can be asked for its super types, these can be looked up, and
the access and the descriptor of those that map the member can be found. -/
structure Clear (c : String) : Prop where
  superTypes : ∃ superTypes, a.superTypes c = .ok superTypes
  lookup : ∀ s, a.SuperType c s → ∃ entry, r.lookup s m = .ok entry
  access : ∀ s entry, a.SuperType c s → r.lookup s m = .ok (some entry) →
    ∃ access, a.access s m = .ok access
  descriptor : ∀ s entry, a.SuperType c s → r.lookup s m = .ok (some entry) →
    ∃ desc, r.targetDescriptor entry.target m.desc = .ok desc

/-- The failure is raised at a class: by the lineage, by a look-up or by the translation of the
descriptor. -/
inductive Raises (c : String) (e : Failure) : Prop
  | superTypes : a.superTypes c = .error e → Raises c e
  | lookup {s : String} : a.SuperType c s → r.lookup s m = .error e → Raises c e
  | access {s : String} {entry : MemberEntry} : a.SuperType c s →
      r.lookup s m = .ok (some entry) → a.access s m = .error e → Raises c e
  | descriptor {s : String} {entry : MemberEntry} : a.SuperType c s →
      r.lookup s m = .ok (some entry) → r.targetDescriptor entry.target m.desc = .error e →
      Raises c e

/-- What a search does with one super type. -/
def probe (depth : Nat) (path : List String) (s : String) : Outcome Candidates :=
  match r.lookup s m with
  | .error e => .error e
  | .ok (some entry) => r.candidate a m s entry
  | .ok none => r.search a m depth (path ++ [s]) s

variable {r a m} {owner c s : String} {depth : Nat} {path : List String} {stage : Stage}
  {entry : MemberEntry} {e : Failure}

theorem search_succ {superTypes : List String} (h : a.superTypes c = .ok (some superTypes)) :
    r.search a m (depth + 1) path c =
      (openSuperTypes path superTypes).foldlM
        (fun found s => do return found.merge (← r.probe a m depth path s)) .empty := by
  rw [search, h]
  refine congrArg (fun f => List.foldlM f _ _) (funext fun found => funext fun s => ?_)
  rw [probe]
  cases r.lookup s m with
  | error e => rfl
  | ok entry => cases entry <;> rfl

/-! ## One super type -/

/-- A class that maps the member makes one candidate, if its access and descriptor are found. -/
theorem candidate_eq_ok_iff {found : Candidates} :
    r.candidate a m s entry = .ok found ↔
      ∃ desc access, r.targetDescriptor entry.target m.desc = .ok desc ∧
        a.access s m = .ok access ∧
        found = .single access.visibility ⟨⟨entry.target.name, some desc⟩, s⟩ := by
  rw [candidate, Outcome.bind_eq_ok_iff]
  constructor
  · intro hrun
    obtain ⟨desc, hdesc, h⟩ := hrun
    obtain ⟨access, haccess, h⟩ := Outcome.bind_eq_ok_iff.1 h
    exact ⟨desc, access, hdesc, haccess, (Except.ok.inj h).symm⟩
  · intro hparts
    obtain ⟨desc, access, hdesc, haccess, rfl⟩ := hparts
    exact ⟨desc, hdesc, Outcome.bind_eq_ok_iff.2 ⟨access, haccess, rfl⟩⟩

theorem candidate_eq_error (h : r.candidate a m s entry = .error e) :
    r.targetDescriptor entry.target m.desc = .error e ∨ a.access s m = .error e := by
  rw [candidate, Outcome.bind_eq_error_iff] at h
  rcases h with h | ⟨desc, -, h⟩
  · exact .inl h
  · rcases Outcome.bind_eq_error_iff.1 h with h | ⟨access, -, h⟩
    · exact .inr h
    · cases h

/-- A class that maps the member contributes exactly what it offers. -/
theorem isBestOf_candidate {found : Candidates} (hlookup : r.lookup s m = .ok (some entry))
    (h : r.candidate a m s entry = .ok found) :
    found.IsBestOf fun v d => d.declaring = s ∧ r.Offers a m s v d.target := by
  obtain ⟨desc, access, hdesc, haccess, rfl⟩ := candidate_eq_ok_iff.1 h
  refine (Candidates.isBestOf_single _ _).congr fun v d => ?_
  constructor
  · intro hsingle
    obtain ⟨rfl, rfl⟩ := hsingle
    exact ⟨rfl, entry, desc, access, hlookup, hdesc, haccess, rfl, rfl⟩
  · intro hoffer
    obtain ⟨rfl, entry', desc', access', hlookup', hdesc', haccess', rfl, ht⟩ := hoffer
    obtain rfl := Option.some.inj (Outcome.eq_of_eq_ok hlookup hlookup')
    obtain rfl := Outcome.eq_of_eq_ok hdesc hdesc'
    obtain rfl := Outcome.eq_of_eq_ok haccess haccess'
    exact ⟨rfl, by rw [← ht]⟩

/-! ## All paths -/

/-- The depth is enough for every path that goes on from the stage. -/
def HasRoom (r : Renamer) (a : Lineage) (m : MemberRef) (depth : Nat) (stage : Stage) : Prop :=
  ∀ stage', r.Reaches a m stage stage' → stage'.1.length < stage.1.length + depth

theorem HasRoom.goes {stage' : Stage} (h : HasRoom r a m (depth + 1) stage)
    (hgoes : r.Goes a m stage stage') : HasRoom r a m depth stage' := by
  intro last hreach
  have := h last (.head hgoes hreach)
  obtain @⟨path, c, s, -, -, -⟩ := hgoes
  simp only [List.length_append, List.length_cons, List.length_nil] at this ⊢
  omega

theorem HasRoom.not_zero (h : HasRoom r a m 0 stage) : False :=
  Nat.lt_irrefl _ (h stage .refl)

/-- No class on the path maps the member, and the depth is enough for every path that goes on from
the stage. -/
structure Ready (r : Renamer) (a : Lineage) (m : MemberRef) (depth : Nat) (stage : Stage) :
    Prop where
  lookup : ∀ x ∈ stage.1, r.lookup x m = .ok none
  room : ∀ stage', r.Reaches a m stage stage' → stage'.1.length < stage.1.length + depth

theorem Ready.goes {stage' : Stage} (h : Ready r a m (depth + 1) stage)
    (hgoes : r.Goes a m stage stage') : Ready r a m depth stage' := by
  refine ⟨fun x hx => ?_, HasRoom.goes h.room hgoes⟩
  obtain @⟨path, c, s, -, -, hlookup⟩ := hgoes
  rcases List.mem_append.1 hx with hx | hx
  · exact h.lookup x hx
  · exact List.mem_singleton.1 hx ▸ hlookup

theorem Ready.not_zero (h : Ready r a m 0 stage) : False :=
  HasRoom.not_zero h.room

/-- Without super types a stage is the last one. -/
theorem eq_of_reaches {stage' : Stage} (h : ∀ s, ¬ a.SuperType stage.2 s)
    (hreach : r.Reaches a m stage stage') : stage = stage' := by
  rcases hreach.cases_head with heq | ⟨_, hgoes, -⟩
  · exact heq
  · obtain ⟨hsuper, -, -⟩ := hgoes
    exact (h _ hsuper).elim

/-- What a super type contributes to a search that has come along a path: its own offer, or, if it
does not map the member, what the super types of the classes beyond it offer. -/
def Contributes (r : Renamer) (a : Lineage) (m : MemberRef) (path : List String) (s : String)
    (v : Visibility) (d : Declaration) : Prop :=
  (d.declaring = s ∧ r.Offers a m s v d.target) ∨
    (r.lookup s m = .ok none ∧
      ∃ stage, r.Reaches a m (path ++ [s], s) stage ∧ r.Declares a m stage.2 v d)

/-- The super types of a class together contribute what is declared at the stages that come after
it. -/
theorem exists_contributes_iff {superTypes : List String} {v : Visibility} {d : Declaration}
    (hsupers : a.superTypes c = .ok (some superTypes))
    (hpath : ∀ x ∈ path, r.lookup x m = .ok none) :
    (∃ s ∈ openSuperTypes path superTypes, r.Contributes a m path s v d) ↔
      ∃ stage, r.Reaches a m (path, c) stage ∧ r.Declares a m stage.2 v d := by
  have hopen : ∀ s, s ∈ openSuperTypes path superTypes ↔ a.SuperType c s ∧ s ∉ path := by
    intro s
    rw [mem_openSuperTypes, ← and_assoc]
    refine and_congr_left' ⟨fun h => ⟨superTypes, hsupers, h⟩, ?_⟩
    intro hsuper
    obtain ⟨superTypes', h, hs⟩ := hsuper
    obtain rfl := Option.some.inj (Outcome.eq_of_eq_ok hsupers h)
    exact hs
  constructor
  · intro h
    obtain ⟨s, hs, ⟨rfl, hoffers⟩ | ⟨hlookup, stage, hreach, hdeclares⟩⟩ := h
    · exact ⟨_, .refl, ((hopen _).1 hs).1, hoffers⟩
    · obtain ⟨hcs, hnew⟩ := (hopen s).1 hs
      exact ⟨stage, .head (.up hcs hnew hlookup) hreach, hdeclares⟩
  · intro h
    obtain ⟨stage, hreach, hdeclares⟩ := h
    rcases hreach.cases_head with rfl | ⟨stage', hgoes, hreach⟩
    · obtain ⟨hsuper, hoffers⟩ := hdeclares
      -- a class that maps the member is not on the path
      have hnew : d.declaring ∉ path := by
        intro hon
        obtain ⟨entry, _, _, hlookup, -⟩ := hoffers
        exact nomatch Outcome.eq_of_eq_ok (hpath _ hon) hlookup
      exact ⟨_, (hopen _).2 ⟨hsuper, hnew⟩, .inl ⟨rfl, hoffers⟩⟩
    · obtain ⟨hcs, hnew, hlookup⟩ := hgoes
      exact ⟨_, (hopen _).2 ⟨hcs, hnew⟩, .inr ⟨hlookup, stage, hreach, hdeclares⟩⟩

/-- A super type that maps the member is dealt with at once. -/
theorem exists_probe_of_some (hclear : r.Clear a m c) (hcs : a.SuperType c s)
    (hlookup : r.lookup s m = .ok (some entry)) :
    ∃ found, r.probe a m depth path s = .ok found ∧
      found.IsBestOf (r.Contributes a m path s) := by
  obtain ⟨desc, hdesc⟩ := hclear.descriptor s entry hcs hlookup
  obtain ⟨access, haccess⟩ := hclear.access s entry hcs hlookup
  have hcandidate := candidate_eq_ok_iff.2 ⟨desc, access, hdesc, haccess, rfl⟩
  refine ⟨_, by rw [probe, hlookup]; exact hcandidate,
    (isBestOf_candidate hlookup hcandidate).congr fun v d => ?_⟩
  refine ⟨.inl, fun h => ?_⟩
  rcases h with h | ⟨hnone, -⟩
  · exact h
  · exact nomatch Outcome.eq_of_eq_ok hnone hlookup

/-- **Where nothing goes wrong, a search finds what the super types of all classes it comes to
offer.** -/
theorem exists_search_eq_ok (hready : Ready r a m depth (path, c))
    (hclear : ∀ stage, r.Reaches a m (path, c) stage → r.Clear a m stage.2) :
    ∃ found, r.search a m depth path c = .ok found ∧
      found.IsBestOf fun v d => ∃ stage, r.Reaches a m (path, c) stage ∧
        r.Declares a m stage.2 v d := by
  induction depth generalizing path c with
  | zero => exact hready.not_zero.elim
  | succ depth ih =>
    obtain ⟨superTypes, hsupers⟩ := (hclear _ .refl).superTypes
    cases superTypes with
    | none =>
      have hno : ∀ s, ¬ a.SuperType c s := by
        intro s hsuper
        obtain ⟨superTypes, h, -⟩ := hsuper
        exact nomatch Outcome.eq_of_eq_ok hsupers h
      refine ⟨.empty, by rw [search, hsupers], Candidates.isBestOf_empty.congr fun v d => ?_⟩
      refine ⟨False.elim, fun h => ?_⟩
      obtain ⟨stage, hreach, hdeclares⟩ := h
      obtain rfl := eq_of_reaches hno hreach
      exact hno _ hdeclares.1
    | some superTypes =>
      have hparts : ∀ s ∈ openSuperTypes path superTypes,
          ∃ found, r.probe a m depth path s = .ok found ∧
            found.IsBestOf (r.Contributes a m path s) := by
        intro s hs
        obtain ⟨hmem, hplatform, hnew⟩ := mem_openSuperTypes.1 hs
        have hcs : a.SuperType c s := ⟨superTypes, hsupers, hmem, hplatform⟩
        obtain ⟨entry, hlookup⟩ := (hclear _ .refl).lookup s hcs
        cases entry with
        | some entry => exact exists_probe_of_some (hclear _ .refl) hcs hlookup
        | none =>
          have hgoes : r.Goes a m (path, c) (path ++ [s], s) := .up hcs hnew hlookup
          obtain ⟨found, hfound, hbest⟩ :=
            ih (hready.goes hgoes) fun stage hreach => hclear stage (.head hgoes hreach)
          refine ⟨found, by rw [probe, hlookup]; exact hfound, hbest.congr fun v d => ?_⟩
          refine ⟨fun h => .inr ⟨hlookup, h⟩, fun h => ?_⟩
          rcases h with ⟨-, entry, _, _, hsome, -⟩ | ⟨-, h⟩
          · exact nomatch Outcome.eq_of_eq_ok hlookup hsome
          · exact h
      obtain ⟨found, hrun, hbest⟩ :=
        Candidates.foldlM_merge_eq_ok hparts Candidates.isBestOf_empty
      refine ⟨found, by rw [search_succ hsupers]; exact hrun, hbest.congr fun v d => ?_⟩
      rw [false_or]
      exact exists_contributes_iff hsupers hready.lookup

/-- Where a search succeeds, nothing has gone wrong at any class it came to. -/
theorem clear_of_search_eq_ok {found : Candidates} (hready : Ready r a m depth (path, c))
    (h : r.search a m depth path c = .ok found) (hreach : r.Reaches a m (path, c) stage) :
    r.Clear a m stage.2 := by
  induction depth generalizing path c found with
  | zero => exact hready.not_zero.elim
  | succ depth ih =>
    cases hsupers : a.superTypes c with
    | error e =>
      rw [search, hsupers] at h
      cases h
    | ok superTypes =>
      -- every super type that is not on the path has been dealt with, without a failure
      have hprobe : ∀ s, a.SuperType c s → s ∉ path →
          ∃ found, r.probe a m depth path s = .ok found := by
        intro s hsuper hnew
        obtain ⟨superTypes', hsome, hmem, hplatform⟩ := hsuper
        rw [search_succ hsome] at h
        exact Candidates.part_eq_ok_of_foldlM h (mem_openSuperTypes.2 ⟨hmem, hplatform, hnew⟩)
      rcases hreach.cases_head with rfl | ⟨stage', hgoes, hreach⟩
      · have hcandidate : ∀ s entry, a.SuperType c s → r.lookup s m = .ok (some entry) →
            ∃ found, r.candidate a m s entry = .ok found := by
          intro s entry hcs hlookup
          have hnew : s ∉ path := by
            intro hon
            exact nomatch Outcome.eq_of_eq_ok (hready.lookup s hon) hlookup
          obtain ⟨found, hfound⟩ := hprobe s hcs hnew
          rw [probe, hlookup] at hfound
          exact ⟨found, hfound⟩
        refine ⟨⟨superTypes, hsupers⟩, fun s hcs => ?_, fun s entry hcs hlookup => ?_,
          fun s entry hcs hlookup => ?_⟩
        · by_cases hon : s ∈ path
          · exact ⟨none, hready.lookup s hon⟩
          · obtain ⟨found, hfound⟩ := hprobe s hcs hon
            cases hlookup : r.lookup s m with
            | ok entry => exact ⟨entry, rfl⟩
            | error e =>
              rw [probe, hlookup] at hfound
              cases hfound
        · obtain ⟨found, hfound⟩ := hcandidate s entry hcs hlookup
          obtain ⟨desc, access, -, haccess, -⟩ := candidate_eq_ok_iff.1 hfound
          exact ⟨access, haccess⟩
        · obtain ⟨found, hfound⟩ := hcandidate s entry hcs hlookup
          obtain ⟨desc, access, hdesc, -, -⟩ := candidate_eq_ok_iff.1 hfound
          exact ⟨desc, hdesc⟩
      · obtain @⟨_, _, s, hcs, hnew, hlookup⟩ := hgoes
        obtain ⟨found', hfound⟩ := hprobe s hcs hnew
        rw [probe, hlookup] at hfound
        exact ih (hready.goes (.up hcs hnew hlookup)) hfound hreach

/-- A search that fails has the failure from a class it came to. -/
theorem raises_of_search_eq_error (h : r.search a m depth path c = .error e) :
    ∃ stage, r.Reaches a m (path, c) stage ∧ r.Raises a m stage.2 e := by
  induction depth generalizing path c with
  | zero => cases h
  | succ depth ih =>
    cases hsupers : a.superTypes c with
    | error e' =>
      rw [search, hsupers] at h
      cases h
      exact ⟨_, .refl, .superTypes hsupers⟩
    | ok superTypes =>
      cases superTypes with
      | none =>
        rw [search, hsupers] at h
        cases h
      | some superTypes =>
        rw [search_succ hsupers] at h
        obtain ⟨s, hs, hprobe⟩ := Candidates.foldlM_merge_eq_error h
        obtain ⟨hmem, hplatform, hnew⟩ := mem_openSuperTypes.1 hs
        have hcs : a.SuperType c s := ⟨superTypes, hsupers, hmem, hplatform⟩
        rw [probe] at hprobe
        split at hprobe
        · rename_i e' hlookup
          cases hprobe
          exact ⟨_, .refl, .lookup hcs hlookup⟩
        · rename_i entry hlookup
          rcases candidate_eq_error hprobe with hdesc | haccess
          · exact ⟨_, .refl, .descriptor hcs hlookup hdesc⟩
          · exact ⟨_, .refl, .access hcs hlookup haccess⟩
        · rename_i hlookup
          obtain ⟨stage, hreach, hraises⟩ := ih hprobe
          exact ⟨stage, .head (.up hcs hnew hlookup) hreach, hraises⟩

/-! ## The search from an owner -/

section

variable {a : Ancestry}

/-- A depth that fills a path up to one class more than are known is enough. -/
theorem hasRoom_of_reaches (hreach : r.Reaches a m (firstStage owner) stage)
    (hle : a.knownClasses.length + 2 ≤ stage.1.length + depth) : HasRoom r a m depth stage := by
  intro last hlast
  have := length_le_of_reaches (hreach.trans hlast)
  omega

/-- The depth of one more than the known classes is enough at the first stage. -/
theorem hasRoom_firstStage (hdepth : a.knownClasses.length + 1 ≤ depth) :
    HasRoom r a m depth (firstStage owner) := by
  refine hasRoom_of_reaches .refl ?_
  simp only [firstStage, List.length_cons, List.length_nil]
  omega

/-- The search from an owner that does not map the member has the depth it needs. -/
theorem ready_firstStage (howner : r.lookup owner m = .ok none) :
    Ready r a m (a.known.length + 1) (firstStage owner) where
  lookup x hx := by
    obtain rfl : x = owner := List.mem_singleton.1 hx
    exact howner
  room := hasRoom_firstStage (Nat.succ_le_succ a.length_knownClasses_le)

/-- What a search for an inherited member of `owner` finds. -/
def searchFrom (r : Renamer) (a : Ancestry) (m : MemberRef) (owner : String) : Outcome Candidates :=
  r.search a m (a.known.length + 1) [owner] owner

theorem inherited_eq (h : r.ancestry = some a) :
    r.inherited owner m = r.searchFrom a m owner >>= Candidates.pick owner m.name m.desc := by
  rw [inherited, h]
  rfl

/-- **The search from an owner succeeds exactly if nothing goes wrong at an open class.** -/
theorem searchFrom_eq_ok_iff (howner : r.lookup owner m = .ok none) :
    (∃ c, r.searchFrom a m owner = .ok c) ↔ ∀ c, r.OpenClass a m owner c → r.Clear a m c := by
  constructor
  · intro hok c hopen
    obtain ⟨found, h⟩ := hok
    obtain ⟨path, hreach⟩ := openClass_iff_exists_reaches.1 hopen
    exact clear_of_search_eq_ok (ready_firstStage howner) h hreach
  · intro hclear
    obtain ⟨found, h, -⟩ := exists_search_eq_ok (ready_firstStage howner)
      fun stage hreach => hclear stage.2 (openClass_of_reaches hreach)
    exact ⟨found, h⟩

/-- **What the search from an owner finds is what the candidates leave.** -/
theorem isBestOf_searchFrom {found : Candidates} (howner : r.lookup owner m = .ok none)
    (h : r.searchFrom a m owner = .ok found) : found.IsBestOf (r.Candidate a m owner) := by
  have hclear := (searchFrom_eq_ok_iff howner).1 ⟨found, h⟩
  obtain ⟨found', h', hbest⟩ := exists_search_eq_ok (ready_firstStage howner)
    fun stage hreach => hclear stage.2 (openClass_of_reaches hreach)
  obtain rfl := Outcome.eq_of_eq_ok h h'
  refine hbest.congr fun v d => ?_
  constructor
  · intro hfound
    obtain ⟨stage, hreach, hdeclares⟩ := hfound
    exact ⟨stage.2, openClass_of_reaches hreach, hdeclares⟩
  · intro hcandidate
    obtain ⟨c, hopen, hdeclares⟩ := hcandidate
    obtain ⟨path, hreach⟩ := openClass_iff_exists_reaches.1 hopen
    exact ⟨_, hreach, hdeclares⟩

/-- A search from an owner that fails has the failure from an open class. -/
theorem raises_of_searchFrom_eq_error (h : r.searchFrom a m owner = .error e) :
    ∃ c, r.OpenClass a m owner c ∧ r.Raises a m c e := by
  obtain ⟨stage, hreach, hraises⟩ := raises_of_search_eq_error h
  exact ⟨stage.2, openClass_of_reaches hreach, hraises⟩

end

end SymbolMap.Renamer
