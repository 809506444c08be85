import SymbolMap.Proofs.Renamer.Inheritance

/-!
# The order of super types

Two ancestries that give every class the same super types, in whatever order, and the same access
give every member the same answer (`same_answers_of_sameUpToOrder`).  An ancestry may fail for
other reasons than the other one, but not at other places: either both answers are failures that an
ancestry, a look-up or the translation of a descriptor has raised, or neither is.

The paths that the two searches follow are not compared.  Both are described by the open classes and
the candidates at them, and these do not depend on an order.
-/

namespace SymbolMap

/-- Both outcomes are values, which are the same in the given sense, or both are failures. -/
inductive Outcome.Agree {α : Type} (same : α → α → Prop) : Outcome α → Outcome α → Prop
  | ok {x y : α} : same x y → Agree same (.ok x) (.ok y)
  | error {e e' : Failure} : Agree same (.error e) (.error e')

theorem Outcome.Agree.symm {α : Type} {same : α → α → Prop} {x y : Outcome α}
    (hsame : ∀ x y, same x y → same y x) (h : Agree same x y) : Agree same y x := by
  cases h with
  | ok h => exact .ok (hsame _ _ h)
  | error => exact .error

namespace Ancestry

/-- The lists have the same classes. -/
def SameClasses (s t : List String) : Prop :=
  ∀ c, c ∈ s ↔ c ∈ t

/-- The ancestries differ in the order of super types at most, and in what they fail with. -/
structure SameUpToOrder (a b : Ancestry) : Prop where
  superTypes : ∀ c, Outcome.Agree (Option.Rel SameClasses) (a.superTypes c) (b.superTypes c)
  access : ∀ c m, Outcome.Agree (· = ·) (a.access c m) (b.access c m)

variable {a b : Ancestry} {c s : String}

theorem SameUpToOrder.symm (h : a.SameUpToOrder b) : b.SameUpToOrder a where
  superTypes c := by
    refine (h.superTypes c).symm fun x y hxy => ?_
    cases hxy with
    | some hxy => exact .some fun c => (hxy c).symm
    | none => exact .none
  access c m := (h.access c m).symm fun _ _ => Eq.symm

theorem SameUpToOrder.superType (h : a.SameUpToOrder b) (hs : a.SuperType c s) :
    b.SuperType c s := by
  obtain ⟨superTypes, heq, hmem, hplatform⟩ := hs
  have hagree := h.superTypes c
  rw [heq] at hagree
  generalize hb : b.superTypes c = given at hagree
  obtain ⟨hrel⟩ := hagree
  obtain ⟨hsame⟩ := hrel
  exact ⟨_, hb, (hsame s).1 hmem, hplatform⟩

theorem SameUpToOrder.superTypes_eq_ok (h : a.SameUpToOrder b) {superTypes : Option (List String)}
    (hok : a.superTypes c = .ok superTypes) : ∃ superTypes, b.superTypes c = .ok superTypes := by
  have hagree := h.superTypes c
  rw [hok] at hagree
  generalize hb : b.superTypes c = given at hagree
  obtain ⟨-⟩ := hagree
  exact ⟨_, rfl⟩

theorem SameUpToOrder.access_eq_ok (h : a.SameUpToOrder b) {m : MemberRef} {access : Access}
    (hok : a.access c m = .ok access) : b.access c m = .ok access := by
  have hagree := h.access c m
  rw [hok] at hagree
  generalize hb : b.access c m = given at hagree
  obtain ⟨heq⟩ := hagree
  rw [heq]

/-- The ancestry with the super types of every class the other way round. -/
def turned (a : Ancestry) : Ancestry where
  superTypes c := do return (← a.superTypes c).map List.reverse
  access := a.access
  known := a.known
  mem_known c s h := by
    obtain ⟨superTypes, hok, h⟩ := Outcome.bind_eq_ok_iff.1 h
    obtain ⟨superTypes, rfl, -⟩ := Option.map_eq_some_iff.1 (Except.ok.inj h)
    exact a.mem_known c superTypes hok

theorem sameUpToOrder_turned (a : Ancestry) : a.SameUpToOrder a.turned where
  superTypes c := by
    show Outcome.Agree _ (a.superTypes c) (a.superTypes c >>= _)
    cases a.superTypes c with
    | error e => exact .error
    | ok superTypes =>
      refine .ok ?_
      cases superTypes with
      | none => exact .none
      | some superTypes => exact .some fun c => List.mem_reverse.symm
  access c m := by
    show Outcome.Agree _ (a.access c m) (a.access c m)
    cases a.access c m with
    | error e => exact .error
    | ok access => exact .ok rfl

end Ancestry

namespace Renamer

variable {r : Renamer} {a b : Ancestry} {m : MemberRef} {owner c : String}

/-! ## What the order leaves as it is -/

theorem OpenClass.reorder (h : a.SameUpToOrder b) (hopen : r.OpenClass a m owner c) :
    r.OpenClass b m owner c := by
  induction hopen with
  | owner => exact .owner
  | up _ hsuper hlookup ih => exact .up ih (h.superType hsuper) hlookup

theorem Clear.reorder (h : a.SameUpToOrder b) (hclear : r.Clear a m c) : r.Clear b m c where
  superTypes := by
    obtain ⟨superTypes, hok⟩ := hclear.superTypes
    exact h.superTypes_eq_ok hok
  lookup s hsuper := hclear.lookup s (h.symm.superType hsuper)
  access s entry hsuper hlookup := by
    obtain ⟨access, hok⟩ := hclear.access s entry (h.symm.superType hsuper) hlookup
    exact ⟨access, h.access_eq_ok hok⟩
  descriptor s entry hsuper hlookup :=
    hclear.descriptor s entry (h.symm.superType hsuper) hlookup

theorem Candidate.reorder {v : Visibility} {d : Declaration} (h : a.SameUpToOrder b)
    (hd : r.Candidate a m owner v d) : r.Candidate b m owner v d := by
  obtain ⟨c, hopen, hsuper, entry, desc, access, hlookup, hdesc, haccess, hv, ht⟩ := hd
  exact ⟨c, hopen.reorder h, h.superType hsuper, entry, desc, access, hlookup, hdesc,
    h.access_eq_ok haccess, hv, ht⟩

/-- If one of the two searches succeeds, so does the other, with the same candidates. -/
theorem searchFrom_reorder {found : Candidates} (h : a.SameUpToOrder b)
    (howner : r.lookup owner m = .ok none) (hfound : r.searchFrom a m owner = .ok found) :
    r.searchFrom b m owner = .ok found := by
  have hclear := (searchFrom_eq_ok_iff howner).1 ⟨found, hfound⟩
  obtain ⟨found', hfound'⟩ := (searchFrom_eq_ok_iff (a := b) howner).2 fun c hopen =>
    (hclear c (hopen.reorder h.symm)).reorder h
  -- one set of candidates leaves one collection
  have hbest : found.IsBestOf (r.Candidate b m owner) :=
    (isBestOf_searchFrom howner hfound).congr fun v d =>
      ⟨fun hd => hd.reorder h, fun hd => hd.reorder h.symm⟩
  rw [hfound', hbest.unique (isBestOf_searchFrom howner hfound')]

/-! ## Answers -/

theorem lookup_withAncestry {s : String} : (r.withAncestry a).lookup s m = r.lookup s m := rfl

/-- A search does not ask the ancestry that a renamer has of its own. -/
theorem search_withAncestry {depth : Nat} {path : List String} :
    (r.withAncestry b).search a m depth path c = r.search a m depth path c := by
  induction depth generalizing path c with
  | zero => rfl
  | succ depth ih =>
    rw [search, search]
    simp only [ih]
    rfl

/-- The failure comes from the look-up of the member, from the descriptor of what the class itself
maps it to, or from an open class. -/
inductive Fails (r : Renamer) (a : Ancestry) (m : MemberRef) (owner : String) (e : Failure) : Prop
  | lookup : r.lookup owner m = .error e → Fails r a m owner e
  | descriptor {entry : MemberEntry} : r.lookup owner m = .ok (some entry) →
      r.targetDescriptor entry.target m.desc = .error e → Fails r a m owner e
  | search {c : String} : r.OpenClass a m owner c → r.Raises a m c e → Fails r a m owner e

/-- The answers that two ancestries give are the same: one value, one ambiguity with the same list,
or failures that have been raised on the way. -/
inductive SameAnswer (r : Renamer) (a b : Ancestry) (m : MemberRef) (owner : String) {α : Type} :
    Outcome α → Outcome α → Prop
  | value (x : α) : SameAnswer r a b m owner (.ok x) (.ok x)
  | ambiguous (listing : List String) :
      SameAnswer r a b m owner (.error (.of (.ambiguous owner m.name m.desc listing)))
        (.error (.of (.ambiguous owner m.name m.desc listing)))
  | failure {e e' : Failure} : r.Fails a m owner e → r.Fails b m owner e' →
      SameAnswer r a b m owner (.error e) (.error e')

theorem resolve_withAncestry_of_search (hname : Name.isInitializer m.name = false)
    (howner : r.lookup owner m = .ok none) (hmapped : m.name ∈ r.mappedNames m.kind) :
    (r.withAncestry a).resolve owner m =
      r.searchFrom a m owner >>= Candidates.pick owner m.name m.desc := by
  have hresolve : (r.withAncestry a).resolve owner m = (r.withAncestry a).inherited owner m :=
    resolve_eq_inherited hname howner hmapped
  rw [hresolve, inherited_eq rfl, searchFrom, search_withAncestry, searchFrom]

/-- The answers of two searches are the same. -/
theorem sameAnswer_search (h : a.SameUpToOrder b) (howner : r.lookup owner m = .ok none) :
    r.SameAnswer a b m owner (r.searchFrom a m owner >>= Candidates.pick owner m.name m.desc)
      (r.searchFrom b m owner >>= Candidates.pick owner m.name m.desc) := by
  cases ha : r.searchFrom a m owner with
  | ok found =>
    rw [searchFrom_reorder h howner ha]
    show r.SameAnswer a b m owner (found.pick owner m.name m.desc) (found.pick owner m.name m.desc)
    cases hpick : found.pick owner m.name m.desc with
    | ok t => exact .value t
    | error e =>
      obtain ⟨listing, rfl⟩ := Candidates.ambiguous_of_pick_eq_error hpick
      exact .ambiguous listing
  | error e =>
    cases hb : r.searchFrom b m owner with
    | ok found =>
      rw [searchFrom_reorder h.symm howner hb] at ha
      cases ha
    | error e' =>
      obtain ⟨c, hopen, hraises⟩ := raises_of_searchFrom_eq_error ha
      obtain ⟨c', hopen', hraises'⟩ := raises_of_searchFrom_eq_error hb
      exact .failure (.search hopen hraises) (.search hopen' hraises')

/-- Two ancestries resolve a member to the same. -/
theorem sameAnswer_resolve (h : a.SameUpToOrder b) :
    r.SameAnswer a b m owner ((r.withAncestry a).resolve owner m)
      ((r.withAncestry b).resolve owner m) := by
  by_cases hname : Name.isInitializer m.name = true
  · rw [resolve, resolve, if_pos hname, if_pos hname]
    exact .value none
  have hname : Name.isInitializer m.name = false := by simpa using hname
  by_cases hsearch : r.lookup owner m = .ok none ∧ m.name ∈ r.mappedNames m.kind
  · obtain ⟨howner, hmapped⟩ := hsearch
    rw [resolve_withAncestry_of_search hname howner hmapped,
      resolve_withAncestry_of_search hname howner hmapped]
    exact sameAnswer_search h howner
  -- without a search no ancestry is asked
  · rw [resolve, resolve, hname, lookup_withAncestry, lookup_withAncestry]
    cases hlookup : r.lookup owner m with
    | error e => exact .failure (.lookup hlookup) (.lookup hlookup)
    | ok entry =>
      cases entry with
      | some entry => exact .value _
      | none =>
        have hmapped : m.name ∉ r.mappedNames m.kind := fun hmem => hsearch ⟨hlookup, hmem⟩
        show r.SameAnswer a b m owner (if m.name ∈ r.mappedNames m.kind then _ else _)
          (if m.name ∈ r.mappedNames m.kind then _ else _)
        rw [if_neg hmapped, if_neg hmapped]
        exact .value none

/-- The descriptor of what a member is resolved to can only be missing in the class itself. -/
theorem fails_of_resolve_eq_some {t : MemberTarget} {e : Failure}
    (h : (r.withAncestry a).resolve owner m = .ok (some t))
    (hdesc : r.targetDescriptor t m.desc = .error e) : r.Fails a m owner e := by
  obtain ⟨-, ⟨entry, hlookup, rfl⟩ | ⟨howner, hinherited⟩⟩ := resolve_eq_some h
  · exact .descriptor hlookup hdesc
  · -- a candidate has its descriptor filled in
    obtain ⟨v, s, c, -, -, entry, desc, access, -, -, -, -, rfl⟩ :=
      exists_candidate_of_inherited rfl howner hinherited
    cases hdesc

/-- **The order of super types.**  Under ancestries that differ in the order of super types at most,
a member comes to the same, both as it is resolved and with its descriptor. -/
theorem same_answers_of_sameUpToOrder (r : Renamer) (h : a.SameUpToOrder b) (owner : String)
    (m : MemberRef) :
    r.SameAnswer a b m owner ((r.withAncestry a).resolve owner m)
      ((r.withAncestry b).resolve owner m) ∧
    r.SameAnswer a b m owner ((r.withAncestry a).member? owner m)
      ((r.withAncestry b).member? owner m) := by
  have hresolve : r.SameAnswer a b m owner ((r.withAncestry a).resolve owner m)
      ((r.withAncestry b).resolve owner m) := sameAnswer_resolve h
  refine ⟨hresolve, ?_⟩
  rw [member?, member?]
  generalize hx : (r.withAncestry a).resolve owner m = x at hresolve
  generalize hy : (r.withAncestry b).resolve owner m = y at hresolve
  cases hresolve with
  | ambiguous listing => exact .ambiguous listing
  | failure hfails hfails' => exact .failure hfails hfails'
  | value t =>
    cases t with
    | none => exact .value none
    | some t =>
      show r.SameAnswer a b m owner (r.targetDescriptor t m.desc >>= _)
        (r.targetDescriptor t m.desc >>= _)
      cases hdesc : r.targetDescriptor t m.desc with
      | ok desc => exact .value _
      | error e =>
        exact .failure (fails_of_resolve_eq_some hx hdesc) (fails_of_resolve_eq_some hy hdesc)

/-- The field `f` of the loop, with the super types of `C` and `D` as they are and the other way
round. -/
theorem same_answers_in_loop : ∃ base, ofMappings loopMappings = .ok base ∧
    base.SameAnswer loopAncestry loopAncestry.turned ⟨.field, "f", "I"⟩ "C"
      ((base.withAncestry loopAncestry).resolve "C" ⟨.field, "f", "I"⟩)
      ((base.withAncestry loopAncestry.turned).resolve "C" ⟨.field, "f", "I"⟩) := by
  have built : ofMappings loopMappings = .ok _ := rfl
  exact ⟨_, built, (same_answers_of_sameUpToOrder _ loopAncestry.sameUpToOrder_turned _ _).1⟩

end Renamer

end SymbolMap
