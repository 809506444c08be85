import SymbolMap.Proofs.Renamer.Inheritance
import SymbolMap.Proofs.Renamer.Registration

/-!
# The names that rule out a search

Beside its tables a renamer keeps the unmapped names of all members, and a member whose name is not
among them is not searched for.  This is exact: a name is kept if and only if a look-up under it
comes to something, a row or a failure, in some class and for some descriptor
(`Represents.mem_mappedNames_iff_exists_lookup`).

Where no look-up comes to anything, every class that a search reaches is passed and none is a
candidate, so a search would have ended with nothing (`inherited_eq_none_of_lookup`).  It could only
have failed because an ancestry failed.  Hence nothing is lost by not searching, and without an
ancestry exactly those queries fail that a search could have answered.
-/

namespace SymbolMap

/-- The ancestry answers every question. -/
structure Ancestry.Answers (a : Ancestry) : Prop where
  superTypes : ∀ c, ∃ superTypes, a.superTypes c = .ok superTypes
  access : ∀ c m, ∃ access, a.access c m = .ok access

/-- The collection has a class named `owner` with a member of the kind and name, whose key is the
descriptor or missing. -/
def GroupedMappings.Matches (m : GroupedMappings) (classes : ClassRenames) (owner : String)
    (ref : MemberRef) : Prop :=
  ∃ c ∈ m.classes, c.unmappedName = .ok owner ∧ ∃ s ∈ c.membersOf ref.kind,
    s.unmappedName = .ok ref.name ∧
      (s.key classes = .ok (some ref.desc) ∨ s.key classes = .ok none)

namespace Renamer

/-- The target of a member, where one that the class itself does not map is searched for in any
case. -/
def resolveAlways (r : Renamer) (owner : String) (ref : MemberRef) :
    Outcome (Option MemberTarget) :=
  if Name.isInitializer ref.name then .ok none
  else
    match r.lookup owner ref with
    | .error e => .error e
    | .ok (some entry) => .ok (some entry.target)
    | .ok none => r.inherited owner ref

variable {r : Renamer} {a : Ancestry} {m : GroupedMappings} {kind : MemberKind}
  {owner name : String} {ref : MemberRef}

/-! ## Look-ups that come to nothing -/

/-- A row is there exactly if the class has a member with its name and key. -/
theorem Represents.entryAt_ne_none_iff (h : r.Represents m) {key : Option String} :
    r.entryAt kind owner name key ≠ none ↔
      ∃ c ∈ m.classes, c.unmappedName = .ok owner ∧ ∃ s ∈ c.membersOf kind,
        s.unmappedName = .ok name ∧ s.key r.classes = .ok key := by
  constructor
  · intro hsome
    obtain ⟨entry, hentry⟩ := Option.ne_none_iff_exists'.1 hsome
    obtain ⟨c, hc, howner, s, hs, henters⟩ := (h.entryAt_iff ..).1 hentry
    exact ⟨c, hc, howner, s, hs, henters.name, (key_of_memberDescriptors henters.descriptors).1⟩
  · rintro ⟨c, hc, howner, s, hs, hname, hkey⟩
    obtain ⟨name', key', entry, henters⟩ := h.enters c hc kind s hs
    obtain rfl : name' = name := Outcome.eq_of_eq_ok henters.name hname
    obtain rfl : key' = key :=
      Outcome.eq_of_eq_ok (key_of_memberDescriptors henters.descriptors).1 hkey
    rw [(h.entryAt_iff ..).2 ⟨c, hc, howner, s, hs, henters⟩]
    exact Option.some_ne_none entry

/-- **A look-up comes to nothing exactly if no member of the class matches.** -/
theorem Represents.lookup_eq_none_iff_not_matches (h : r.Represents m) :
    r.lookup owner ref = .ok none ↔ ¬ m.Matches r.classes owner ref := by
  rw [lookup_eq_none_iff, ← not_iff_not, not_not, Classical.not_and_iff_not_or_not]
  refine (or_congr h.entryAt_ne_none_iff h.entryAt_ne_none_iff).trans ?_
  constructor
  · rintro (⟨c, hc, howner, s, hs, hname, hkey⟩ | ⟨c, hc, howner, s, hs, hname, hkey⟩)
    · exact ⟨c, hc, howner, s, hs, hname, .inl hkey⟩
    · exact ⟨c, hc, howner, s, hs, hname, .inr hkey⟩
  · rintro ⟨c, hc, howner, s, hs, hname, hkey | hkey⟩
    · exact .inl ⟨c, hc, howner, s, hs, hname, hkey⟩
    · exact .inr ⟨c, hc, howner, s, hs, hname, hkey⟩

/-- **The names are those under which some look-up comes to something.** -/
theorem Represents.mem_mappedNames_iff_exists_lookup (h : r.Represents m) :
    name ∈ r.mappedNames kind ↔ ∃ c desc, r.lookup c ⟨kind, name, desc⟩ ≠ .ok none := by
  simp only [ne_eq, h.lookup_eq_none_iff_not_matches, not_not, h.mem_mappedNames_iff]
  constructor
  · rintro ⟨c, hc, s, hs, hname⟩
    obtain ⟨⟨owner, mapped⟩, hnamed, -⟩ := exists_isNamed_of_mem h.classes hc
    obtain ⟨name', key, entry, henters⟩ := h.enters c hc kind s hs
    have hkey := (key_of_memberDescriptors henters.descriptors).1
    -- a member without a key matches under every descriptor
    cases key with
    | some desc => exact ⟨owner, desc, c, hc, hnamed.1, s, hs, hname, .inl hkey⟩
    | none => exact ⟨owner, "", c, hc, hnamed.1, s, hs, hname, .inr hkey⟩
  · rintro ⟨owner, desc, c, hc, -, s, hs, hname, -⟩
    exact ⟨c, hc, s, hs, hname⟩

/-- A look-up fails only on a method without a descriptor. -/
theorem kind_of_lookup_eq_error {f : Failure} (h : r.lookup owner ref = .error f) :
    f.kind = .malformed := by
  rw [lookup_eq] at h
  split at h
  · cases h
  · split at h
    · cases h
    · cases h
    · cases h
      rfl

/-! ## Searches that are left out -/

/-- Where no class maps the member, a search passes every class and ends with nothing. -/
theorem inherited_eq_none_of_lookup (hancestry : r.ancestry = some a) (hanswers : a.Answers)
    (hnone : ∀ c, r.lookup c ref = .ok none) : r.inherited owner ref = .ok none := by
  have hsome : ∀ {c entry}, r.lookup c ref ≠ .ok (some entry) := by
    intro c entry hentry
    cases Outcome.eq_of_eq_ok (hnone c) hentry
  have hclear : ∀ c, r.OpenClass a ref owner c → r.Clear a ref c := by
    intro c _
    exact ⟨hanswers.superTypes c, fun s _ => ⟨none, hnone s⟩,
      fun s _ _ _ => hanswers.access s ref, fun _ _ _ hentry => absurd hentry hsome⟩
  obtain ⟨found, hpick, hmem, -⟩ := inherited_eq_pick hancestry (hnone owner) hclear
  rw [hpick]
  apply Candidates.pick_of_no_declaration
  apply List.eq_nil_iff_forall_not_mem.2
  intro d hd
  obtain ⟨v, ⟨c, -, -, entry, desc, access, hentry, -⟩, -⟩ := (hmem d).1 hd
  exact hsome hentry

/-- Nothing is lost by not searching for a name that no class maps. -/
theorem Represents.resolve_eq_resolveAlways (h : r.Represents m) (hancestry : r.ancestry = some a)
    (hanswers : a.Answers) : r.resolve owner ref = r.resolveAlways owner ref := by
  rw [resolve, resolveAlways]
  split
  · rfl
  cases r.lookup owner ref with
  | error e => rfl
  | ok entry =>
    cases entry with
    | some entry => rfl
    | none =>
      by_cases hname : ref.name ∈ r.mappedNames ref.kind
      · exact if_pos hname
      · have hnone : ∀ c, r.lookup c ref = .ok none := by
          intro c
          by_contra hsome
          exact hname (h.mem_mappedNames_iff_exists_lookup.2 ⟨c, ref.desc, hsome⟩)
        exact (if_neg hname).trans (inherited_eq_none_of_lookup hancestry hanswers hnone).symm

theorem ancestry_of_ofMappings (h : ofMappings m = .ok r) : r.ancestry = none := by
  rw [ofMappings, Outcome.bind_eq_ok_iff] at h
  obtain ⟨classes, -, h⟩ := h
  obtain ⟨members, -, h⟩ := Outcome.bind_eq_ok_iff.1 h
  obtain rfl := Except.ok.inj h
  rfl

/-- Without an ancestry, a query fails for want of one exactly if it comes to a search. -/
theorem resolve_eq_error_of_no_ancestry (hancestry : r.ancestry = none) {f : Failure} :
    r.resolve owner ref = .error f ∧ f.kind = .noAncestry ↔
      f = .of (.noAncestry owner ref.name ref.desc) ∧ Name.isInitializer ref.name = false ∧
        r.lookup owner ref = .ok none ∧ ref.name ∈ r.mappedNames ref.kind := by
  have hinherited : r.inherited owner ref = .error (.of (.noAncestry owner ref.name ref.desc)) := by
    rw [inherited, hancestry]
  constructor
  · rintro ⟨h, hkind⟩
    rw [resolve] at h
    split at h
    · cases h
    · rename_i hname
      split at h
      · rename_i e hlookup
        cases h
        cases (kind_of_lookup_eq_error hlookup).symm.trans hkind
      · cases h
      · rename_i hlookup
        split at h
        · rename_i hmapped
          rw [hinherited] at h
          exact ⟨(Except.error.inj h).symm, by simpa using hname, hlookup, hmapped⟩
        · cases h
  · rintro ⟨rfl, hname, hlookup, hmapped⟩
    exact ⟨(resolve_eq_inherited hname hlookup hmapped).trans hinherited, rfl⟩

/-- **The names rule out exactly the searches that would find nothing.**  A name is among the
unmapped names of the members of a kind if and only if a look-up under it comes to something.  With
an ancestry that answers every question, a member is resolved as if it were always searched for.
Without one, a query fails for want of an ancestry if and only if the member is no initializer, has
no match in the class it is referred to through, and shares its kind and name with a member of some
class. -/
theorem mappedNames_exact (built : ofMappings m = .ok r) :
    (∀ kind name, name ∈ r.mappedNames kind ↔
      ∃ c desc, r.lookup c ⟨kind, name, desc⟩ ≠ .ok none) ∧
    (∀ a : Ancestry, a.Answers → ∀ owner ref,
      (r.withAncestry a).resolve owner ref = (r.withAncestry a).resolveAlways owner ref) ∧
    ∀ owner ref f, r.resolve owner ref = .error f ∧ f.kind = .noAncestry ↔
      f = .of (.noAncestry owner ref.name ref.desc) ∧ Name.isInitializer ref.name = false ∧
        ¬ m.Matches r.classes owner ref ∧
        ∃ c ∈ m.classes, ∃ s ∈ c.membersOf ref.kind, s.unmappedName = .ok ref.name := by
  have hrepresents := represents_of_ofMappings built
  refine ⟨fun kind name => hrepresents.mem_mappedNames_iff_exists_lookup,
    fun a hanswers owner ref => ?_, fun owner ref f => ?_⟩
  · exact (hrepresents.withAncestry a).resolve_eq_resolveAlways rfl hanswers
  · rw [resolve_eq_error_of_no_ancestry (ancestry_of_ofMappings built),
      hrepresents.lookup_eq_none_iff_not_matches, hrepresents.mem_mappedNames_iff]

/-! ### A name that is mapped and one that is not -/

theorem answers_loopAncestry : loopAncestry.Answers where
  superTypes c := by
    simp only [loopAncestry]
    split
    · exact ⟨_, rfl⟩
    · split
      · exact ⟨_, rfl⟩
      · exact ⟨_, rfl⟩
  access _ _ := ⟨_, rfl⟩

/-- In the loop, `x` is not searched for, and would not be found; a search for `f` is wanting an
ancestry. -/
theorem loop_names_exact : ∃ base, ofMappings loopMappings = .ok base ∧
    "x" ∉ base.mappedNames .field ∧ (∀ c desc, base.lookup c ⟨.field, "x", desc⟩ = .ok none) ∧
    (base.withAncestry loopAncestry).resolveAlways "C" ⟨.field, "x", "I"⟩ = .ok none ∧
    base.resolve "C" ⟨.field, "f", "I"⟩ = .error (.of (.noAncestry "C" "f" "I")) := by
  have built : ofMappings loopMappings = .ok _ := rfl
  refine ⟨_, built, by decide, ?_⟩
  obtain ⟨hnames, halways, hwanting⟩ := mappedNames_exact built
  refine ⟨fun c desc => ?_, ?_, ?_⟩
  · by_contra hsome
    exact absurd ((hnames .field "x").2 ⟨c, desc, hsome⟩) (by decide)
  · rw [← halways loopAncestry answers_loopAncestry]
    rfl
  · refine ((hwanting "C" ⟨.field, "f", "I"⟩ _).2 ⟨rfl, by decide, ?_, by decide⟩).1
    unfold GroupedMappings.Matches
    decide

end Renamer

end SymbolMap
