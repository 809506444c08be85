import SymbolMap.Proofs.Renamer.Building
import SymbolMap.Proofs.Renamer.MemberDescriptors
import SymbolMap.Proofs.Renamer.ProjectedMembers
import SymbolMap.Proofs.Renamer.Reversal

/-!
# Where the names of members come from

A renamer answers a member query with the name that was asked for or with one it was built with.
Such a name has come a long way: from a super type that a search found, from the tables, from a
reversed collection, from a projection and from a move of descriptors.  None of these makes up a
name, so that it stands in the collection the renamer was built from, opposite the name that was
asked for (`memberName_of_ofCollection`).

This says when an answer is the name of an initializer.  One that is asked for is kept.  Any other
name is taken to that of an initializer only by a method of the collection that pairs the two
(`initializers_from_collection`), and there can be one: the check of a collection looks at each name
of a method by itself, and admits those of initializers (`methods_become_initializers`).
-/

namespace SymbolMap

/-! ## Two sides -/

/-- The names of the symbol on the two sides of its collection: its pair, or its names in the first
and the last of the namespaces.  Without a name in the last one it has the first name on both
sides. -/
def Symbol.sides (namespaces : Option Namespaces) (s : Symbol) : Option (String × String) :=
  match namespaces, s.names with
  | none, .paired unmapped mapped => some (unmapped, mapped)
  | some ns, .row r => (r.get? ⟨0⟩).map fun x => (x, (r.get? ⟨ns.size - 1⟩).getD x)
  | _, _ => none

/-- The pair of unmapped and mapped name of what a direction takes from the first name to the
second. -/
def Direction.orient : Direction → String × String → String × String
  | .toMapped, pair => pair
  | .toUnmapped, pair => pair.swap

theorem Symbol.IsNamed.sides_eq {s : Symbol} {pair : String × String} (h : s.IsNamed pair) :
    s.sides none = some pair := by
  obtain ⟨names, tags, locals⟩ := s
  obtain ⟨x, y⟩ := pair
  obtain ⟨hunmapped, hmapped⟩ := h
  cases names with
  | paired unmapped mapped =>
    obtain rfl : unmapped = x := Except.ok.inj hunmapped
    obtain rfl : mapped = y := Except.ok.inj hmapped
    rfl
  | row r => cases hmapped

theorem Symbol.sides_of_get? {s : Symbol} {x : String} (ns : Namespaces)
    (hx : s.names.get? ⟨0⟩ = some x) :
    s.sides (some ns) = some (x, (s.names.get? ⟨ns.size - 1⟩).getD x) := by
  obtain ⟨names, tags, locals⟩ := s
  cases names with
  | paired unmapped mapped => cases hx
  | row r =>
    show (r.get? ⟨0⟩).map _ = _
    rw [show r.get? ⟨0⟩ = some x from hx]
    rfl

/-! ## From the answer to the tables -/

namespace Renamer

variable {r : Renamer} {p : GroupedMappings} {owner : String} {ref : MemberRef}

/-- The name a member is resolved to is that of an entry that some class has for it. -/
theorem exists_lookup_of_resolve {t : MemberTarget} (h : r.resolve owner ref = .ok (some t)) :
    ∃ c entry, r.lookup c ref = .ok (some entry) ∧ t.name = entry.target.name := by
  obtain ⟨-, ⟨entry, hentry, rfl⟩ | ⟨howner, hinherited⟩⟩ := resolve_eq_some h
  · exact ⟨owner, entry, hentry, rfl⟩
  · obtain ⟨a, hancestry⟩ := exists_ancestry_of_inherited hinherited
    obtain ⟨v, c, _, -, -, entry, desc, access, hentry, -, -, -, rfl⟩ :=
      exists_candidate_of_inherited hancestry howner hinherited
    exact ⟨c, entry, hentry, rfl⟩

theorem Represents.exists_isNamed_of_lookup (h : r.Represents p) {c : String} {entry : MemberEntry}
    (hentry : r.lookup c ref = .ok (some entry)) :
    ∃ s, p.HasMember ref.kind s ∧ s.IsNamed (ref.name, entry.target.name) := by
  obtain ⟨desc, hat⟩ : ∃ desc, r.entryAt ref.kind c ref.name desc = some entry := by
    rcases entryAt_of_lookup hentry with hat | hat
    · exact ⟨_, hat⟩
    · exact ⟨_, hat⟩
  obtain ⟨c, hc, -, s, hs, henters⟩ := (h.entryAt_iff ..).1 hat
  exact ⟨s, ⟨c, hc, hs⟩, henters.name, henters.mapped⟩

/-- **The name of a member is the one that was asked for or its partner in the collection.** -/
theorem Represents.memberName_cases (h : r.Represents p) {x : String}
    (hx : r.memberName owner ref = .ok x) :
    x = ref.name ∨ Name.isInitializer ref.name = false ∧
      ∃ s, p.HasMember ref.kind s ∧ s.IsNamed (ref.name, x) := by
  obtain ⟨mapped, hmapped, hx⟩ := Outcome.bind_eq_ok_iff.1 hx
  obtain ⟨t, hresolve, hmapped⟩ := Outcome.bind_eq_ok_iff.1 hmapped
  cases t with
  | none =>
    obtain rfl := Except.ok.inj hmapped
    exact .inl (Except.ok.inj hx).symm
  | some t =>
    obtain ⟨desc, -, hmapped⟩ := Outcome.bind_eq_ok_iff.1 hmapped
    obtain rfl := Except.ok.inj hmapped
    obtain rfl : t.name = x := Except.ok.inj hx
    obtain ⟨c, entry, hentry, hname⟩ := exists_lookup_of_resolve hresolve
    rw [hname]
    exact .inr ⟨(resolve_eq_some hresolve).1, h.exists_isNamed_of_lookup hentry⟩

end Renamer

/-! ## From the tables to the collection -/

namespace GroupedMappings

variable {m m' : GroupedMappings} {kind : MemberKind} {s' : Symbol} {pair : String × String}

theorem exists_hasMember_of_descriptorsIn {name : String} (h : m.descriptorsIn name = .ok m')
    (hs' : m'.HasMember kind s') : ∃ s, m.HasMember kind s ∧ s'.names = s.names := by
  obtain ⟨ns, target, -, -, -, -, hclasses⟩ := descriptorsIn_isMoved h
  obtain ⟨c', hc', hs'⟩ := hs'
  obtain ⟨c, hc, hmoved⟩ := exists_left_of_forall₂ hclasses hc'
  obtain ⟨s, hs, hmoved⟩ := exists_left_of_forall₂ (hmoved.members kind) hs'
  exact ⟨s, ⟨c, hc, hs⟩, hmoved.names⟩

end GroupedMappings

namespace Renamer

variable {m p : GroupedMappings} {kind : MemberKind} {s' : Symbol} {pair : String × String}

/-- A member of the collection between the first and the last namespace has its names from
there. -/
theorem exists_sides_of_pairedFrom (h : pairedFrom m = .ok p) (hs' : p.HasMember kind s')
    (hnamed : s'.IsNamed pair) : ∃ s, m.HasMember kind s ∧ s.sides m.namespaces = some pair := by
  rw [pairedFrom] at h
  cases hns : m.namespaces with
  | none =>
    rw [hns] at h
    obtain rfl := Except.ok.inj h
    exact ⟨s', hs', hnamed.sides_eq⟩
  | some ns =>
    rw [hns] at h
    obtain ⟨moved, hmoved, hproject⟩ := Outcome.bind_eq_ok_iff.1 h
    obtain ⟨_, _, hns₀, -, hns', -⟩ := GroupedMappings.descriptorsIn_isMoved hmoved
    obtain rfl := Option.some.inj (hns.symm.trans hns₀)
    obtain ⟨c', hc', hs'⟩ := hs'
    obtain ⟨c, hc, s, hs, hprojected⟩ := GroupedMappings.exists_member_of_project hns'
      (Namespaces.find_of_name? ns.name?_first) (Namespaces.find_of_name? ns.name?_last)
      hproject hc' hs'
    obtain ⟨s₀, hs₀, hnames⟩ := GroupedMappings.exists_hasMember_of_descriptorsIn hmoved ⟨c, hc, hs⟩
    obtain ⟨x, hx, hnamed'⟩ := hprojected.named
    obtain rfl := hnamed.unique hnamed'
    rw [hnames] at hx ⊢
    exact ⟨s₀, hs₀, Symbol.sides_of_get? ns hx⟩

theorem exists_isNamed_of_directed {d : Direction} (h : directed m d = .ok p)
    (hs' : p.HasMember kind s') (hnamed : s'.IsNamed pair) :
    ∃ s, m.HasMember kind s ∧ s.IsNamed (d.orient pair) := by
  cases d with
  | toMapped =>
    obtain rfl := Except.ok.inj h
    exact ⟨s', hs', hnamed⟩
  | toUnmapped =>
    obtain ⟨c', hc', hs'⟩ := hs'
    obtain ⟨-, hclasses, -⟩ := GroupedMappings.isReverse_of_reverse h
    obtain ⟨c, hc, hreverse⟩ := exists_left_of_forall₂ hclasses hc'
    obtain ⟨s, hs, hreverse⟩ := exists_left_of_forall₂ (hreverse.members kind) hs'
    exact ⟨s, ⟨c, hc, hs⟩, (hreverse.named pair.swap).2 hnamed⟩

/-- The renamer of a collection has the tables of its paired and directed form. -/
theorem exists_represents_of_ofCollection {d : Direction} {a : Option Ancestry} {r : Renamer}
    (h : ofCollection (.grouped m) d a = .ok r) :
    ∃ paired p, pairedFrom m = .ok paired ∧ directed paired d = .ok p ∧ r.Represents p := by
  rw [ofCollection] at h
  obtain ⟨-, -, h⟩ := Outcome.bind_eq_ok_iff.1 h
  obtain ⟨paired, hpaired, h⟩ := Outcome.bind_eq_ok_iff.1 h
  obtain ⟨p, hp, h⟩ := Outcome.bind_eq_ok_iff.1 h
  obtain ⟨r₀, hr₀, h⟩ := Outcome.bind_eq_ok_iff.1 h
  obtain rfl := Except.ok.inj h
  exact ⟨paired, p, hpaired, hp, (represents_of_ofMappings hr₀).setAncestry a⟩

/-- **The name of a member is the one that was asked for or stands opposite it in the collection.**
That of an initializer is the one that was asked for. -/
theorem memberName_of_ofCollection {d : Direction} {a : Option Ancestry} {r : Renamer}
    {owner x : String} {ref : MemberRef} (h : ofCollection (.grouped m) d a = .ok r)
    (hx : r.memberName owner ref = .ok x) :
    x = ref.name ∨ Name.isInitializer ref.name = false ∧
      ∃ s, m.HasMember ref.kind s ∧ s.sides m.namespaces = some (d.orient (ref.name, x)) := by
  obtain ⟨paired, p, hpaired, hp, hr⟩ := exists_represents_of_ofCollection h
  rcases hr.memberName_cases hx with hsame | ⟨hinit, s', hs', hnamed⟩
  · exact .inl hsame
  · obtain ⟨s, hs, hnamed⟩ := exists_isNamed_of_directed hp hs' hnamed
    exact .inr ⟨hinit, exists_sides_of_pairedFrom hpaired hs hnamed⟩

/-! ## Initializers -/

/-- **Initializers keep their names, and no other method gets one that the collection does not give
it.**  In either direction and with any ancestry, an initializer that is asked for is kept; and
where the answer is the name of an initializer, it is the name that was asked for or that of a
method of the collection on the other side. -/
theorem initializers_from_collection {d : Direction} {a : Option Ancestry} {r : Renamer}
    {owner name desc x : String} (built : ofCollection (.grouped m) d a = .ok r)
    (hx : r.memberName owner ⟨.method, name, desc⟩ = .ok x) :
    (Name.isInitializer name = true → x = name) ∧
    (Name.isInitializer x = true → x = name ∨
      ∃ c ∈ m.classes, ∃ s ∈ c.methods, s.sides m.namespaces = some (d.orient (name, x))) := by
  rcases memberName_of_ofCollection built hx with rfl | ⟨hinit, s, ⟨c, hc, hs⟩, hsides⟩
  · exact ⟨fun _ => rfl, fun _ => .inl rfl⟩
  · refine ⟨fun hinit' => ?_, fun _ => .inr ⟨c, hc, s, hs, hsides⟩⟩
    have hnot : Name.isInitializer name = false := hinit
    rw [hnot] at hinit'
    cases hinit'

/-- A class with a method that is mapped to an initializer, and an initializer that is mapped to a
method. -/
def initializerMappings : GroupedMappings :=
  let method (unmapped mapped : String) : Symbol :=
    (Symbol.ofNames (.paired unmapped mapped)).set (.unmappedDescriptor "()V")
  .ofParts none
    [((MappedClass.ofInfo (.ofNames (.paired "a" "b"))).addMethod (method "m" "<init>")).addMethod
      (method "<clinit>" "n")] []

/-- The initializer keeps its name, and the method gets that of the initializer it is mapped to. -/
theorem initializerMappings_answers : ∃ r,
    ofCollection (.grouped initializerMappings) .toMapped none = .ok r ∧
    (∃ x, r.memberName "a" ⟨.method, "<clinit>", "()V"⟩ = .ok x ∧ x = "<clinit>") ∧
    ∃ x, r.memberName "a" ⟨.method, "m", "()V"⟩ = .ok x ∧ Name.isInitializer x = true ∧
      ∃ c ∈ initializerMappings.classes, ∃ s ∈ c.methods, s.sides none = some ("m", x) := by
  obtain ⟨r, hr⟩ : ∃ r, ofCollection (.grouped initializerMappings) .toMapped none = .ok r :=
    Outcome.exists_eq_ok (by decide +kernel)
  have hkept : (ofCollection (.grouped initializerMappings) .toMapped none >>= fun r =>
      r.memberName "a" ⟨.method, "<clinit>", "()V"⟩).toOption.isSome = true := by decide +kernel
  have hmapped : (ofCollection (.grouped initializerMappings) .toMapped none >>= fun r =>
      r.memberName "a" ⟨.method, "m", "()V"⟩) = .ok "<init>" := by decide +kernel
  rw [hr, Outcome.ok_bind] at hkept hmapped
  obtain ⟨x, hx⟩ := Outcome.exists_eq_ok hkept
  have hpaired := (initializers_from_collection hr hmapped).2 (by decide)
  exact ⟨r, hr, ⟨x, hx, (initializers_from_collection hr hx).1 (by decide)⟩, _, hmapped, by decide,
    hpaired.resolve_left (by decide)⟩

/-- **Methods can become initializers**, in either direction, by a collection that passes its
check. -/
theorem methods_become_initializers : initializerMappings.validate = .ok () ∧
    (∃ r, ofCollection (.grouped initializerMappings) .toMapped none = .ok r ∧
      r.memberName "a" ⟨.method, "m", "()V"⟩ = .ok "<init>") ∧
    ∃ r, ofCollection (.grouped initializerMappings) .toUnmapped none = .ok r ∧
      r.memberName "b" ⟨.method, "n", "()V"⟩ = .ok "<clinit>" := by
  refine ⟨by decide +kernel, Outcome.bind_eq_ok_iff.1 ?_, Outcome.bind_eq_ok_iff.1 ?_⟩
  · decide +kernel
  · decide +kernel

end Renamer

end SymbolMap
