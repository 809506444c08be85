import SymbolMap.Program.Basic
import SymbolMap.Proofs.Renamer.Inheritance
import SymbolMap.Proofs.Renamer.Registration

/-!
# The descriptors of members

A member query answers with a descriptor, and a descriptor can also be translated without any
member.  The descriptor of an answer comes from many places: it is given with the member, or was
translated from either side when the tables were filled; or it is translated for a class that a
search stops at, for what the class itself maps, or for a member that is not mapped at all.

If the mapped descriptors that a collection gives are themselves translations (`TranslatesKeys`),
it does not matter which of these it was: every row of the tables has the translation of its key
(`translated_of_memberDescriptors`).  A member query is then a resolution, which finds the name, and
a translation of the descriptor that was asked for, neither of which depends on the other
(`Represents.member_eq`).
-/

namespace SymbolMap

/-- The mapped descriptor of a member, if it has one, is the translation of its key. -/
def Symbol.TranslatesKey (classes : ClassRenames) (s : Symbol) : Prop :=
  ∀ key mapped, s.key classes = .ok (some key) → s.tags.mappedDescriptor = some mapped →
    classes.descriptor .toMapped key = .ok mapped

/-- Every mapped descriptor in the collection is the translation of the key of its member. -/
def GroupedMappings.TranslatesKeys (m : GroupedMappings) (classes : ClassRenames) : Prop :=
  ∀ s, m.Declares s → s.TranslatesKey classes

/-- The two descriptors of a row are both missing, or the second is the translation of the first. -/
theorem translated_of_memberDescriptors {classes : ClassRenames} {s : Symbol}
    {key desc : Option String} (htranslates : s.TranslatesKey classes)
    (h : memberDescriptors classes s.tags = .ok (key, desc)) :
    Option.Rel (fun key desc => classes.descriptor .toMapped key = .ok desc) key desc := by
  obtain ⟨hkey, hdesc⟩ := key_of_memberDescriptors h
  cases key with
  | some unmapped =>
    obtain ⟨mapped, rfl, hmapped | ⟨-, htaken⟩⟩ := hdesc unmapped rfl
    · exact .some (htranslates unmapped mapped hkey hmapped)
    · exact .some htaken
  | none =>
    -- a member with a descriptor on either side has a key
    have hnone : s.tags.unmappedDescriptor = none ∧ s.tags.mappedDescriptor = none := by
      by_contra hsome
      rw [Classical.not_and_iff_not_or_not] at hsome
      obtain ⟨_, _, hkey, -⟩ := exists_descriptors_of_memberDescriptors hsome h
      cases hkey
    rw [memberDescriptors, hnone.1, hnone.2] at h
    cases h
    exact .none

namespace Renamer

variable {r : Renamer} {m : GroupedMappings} {owner : String} {ref : MemberRef}

/-- What a class maps itself has the translated descriptor. -/
theorem Represents.targetDescriptor_of_lookup (h : r.Represents m)
    (htranslates : m.TranslatesKeys r.classes) {entry : MemberEntry}
    (hlookup : r.lookup owner ref = .ok (some entry)) :
    r.targetDescriptor entry.target ref.desc = r.classes.descriptor .toMapped ref.desc := by
  have hrow : ∀ {key : Option String}, r.entryAt ref.kind owner ref.name key = some entry →
      Option.Rel (fun key desc => r.classes.descriptor .toMapped key = .ok desc) key
        entry.target.desc := by
    intro key hentry
    obtain ⟨c, hc, -, s, hs, henters⟩ := (h.entryAt_iff ..).1 hentry
    have hdeclares : m.Declares s := ⟨c, hc, MappedClass.mem_members_of_membersOf hs⟩
    exact translated_of_memberDescriptors (htranslates s hdeclares) henters.descriptors
  rw [targetDescriptor]
  rcases entryAt_of_lookup hlookup with hentry | hentry
  · have hrel := hrow hentry
    generalize entry.target.desc = desc at hrel
    obtain ⟨htaken⟩ := hrel
    exact htaken.symm
  · have hrel := hrow hentry
    generalize entry.target.desc = desc at hrel
    obtain ⟨-⟩ := hrel
    rfl

theorem exists_ancestry_of_inherited {t : Option MemberTarget}
    (h : r.inherited owner ref = .ok t) : ∃ a, r.ancestry = some a := by
  rw [inherited] at h
  split at h
  · cases h
  · rename_i a hancestry
    exact ⟨a, hancestry⟩

/-- **What a member is resolved to has the translated descriptor**, wherever it was found. -/
theorem Represents.targetDescriptor_of_resolve (h : r.Represents m)
    (htranslates : m.TranslatesKeys r.classes) {t : MemberTarget}
    (hresolve : r.resolve owner ref = .ok (some t)) :
    r.targetDescriptor t ref.desc = r.classes.descriptor .toMapped ref.desc := by
  obtain ⟨-, ⟨entry, hlookup, rfl⟩ | ⟨howner, hinherited⟩⟩ := resolve_eq_some hresolve
  · exact h.targetDescriptor_of_lookup htranslates hlookup
  · obtain ⟨a, hancestry⟩ := exists_ancestry_of_inherited hinherited
    obtain ⟨v, s, c, -, -, entry, desc, access, hlookup, hdesc, -, -, rfl⟩ :=
      exists_candidate_of_inherited hancestry howner hinherited
    -- the search has filled in the descriptor of what it found
    rw [← h.targetDescriptor_of_lookup htranslates hlookup, hdesc]
    rfl

/-- **A member query is a resolution and a translation.**  The resolution finds the name, and the
translation of the descriptor does not depend on it. -/
theorem Represents.member_eq (h : r.Represents m) (htranslates : m.TranslatesKeys r.classes) :
    r.member owner ref = do
      let target ← r.resolve owner ref
      let desc ← r.classes.descriptor .toMapped ref.desc
      return ⟨(target.map MemberTarget.name).getD ref.name, desc⟩ := by
  cases hresolve : r.resolve owner ref with
  | error e =>
    rw [member, member?, hresolve]
    rfl
  | ok target =>
    cases target with
    | none =>
      rw [member_of_resolve_none hresolve]
      rfl
    | some t =>
      rw [member_of_resolve_some hresolve, h.targetDescriptor_of_resolve htranslates hresolve]
      rfl

/-- **Member queries and descriptor queries agree.**  Let every mapped descriptor of a collection be
the translation of the key of its member.  Whatever the ancestry is, and whether a member is found
in the class itself, with a descriptor or without, is inherited, is an initializer or is not mapped:
the descriptor in the answer is the translation of the descriptor asked for. -/
theorem descriptor_of_member {base : Renamer} (built : ofMappings m = .ok base)
    (htranslates : m.TranslatesKeys base.classes) (a : Option Ancestry) {answer : NameAndDesc}
    (h : ({ base with ancestry := a } : Renamer).member owner ref = .ok answer) :
    base.classes.descriptor .toMapped ref.desc = .ok answer.desc := by
  have hrepresents := (represents_of_ofMappings built).setAncestry a
  rw [hrepresents.member_eq htranslates] at h
  obtain ⟨target, -, h⟩ := Outcome.bind_eq_ok_iff.1 h
  obtain ⟨desc, hdesc, h⟩ := Outcome.bind_eq_ok_iff.1 h
  obtain rfl := Except.ok.inj h
  exact hdesc

/-! ### Descriptors from either side and from none -/

/-- A class with a field that has both descriptors, a namesake of the field that has none, and a
method with a mapped descriptor only. -/
def sidedMembers : GroupedMappings :=
  .ofParts none
    [(((MappedClass.ofInfo (.ofNames (.paired "a" "b"))).addField
      (((Symbol.ofNames (.paired "f" "g")).set (.unmappedDescriptor "La;")).set
        (.mappedDescriptor "Lb;"))).addField
      (.ofNames (.paired "f" "h"))).addMethod
      ((Symbol.ofNames (.paired "m" "n")).set (.mappedDescriptor "(Lb;)V"))] []

/-- Members that a class inherits from the mapped one, an initializer and a member that is not
mapped. -/
def sidedQueries : List MemberRef :=
  [⟨.field, "f", "La;"⟩, ⟨.field, "f", "[La;"⟩, ⟨.method, "m", "(La;)V"⟩,
    ⟨.method, "<init>", "(La;)V"⟩, ⟨.field, "x", "La;"⟩]

/-- All queries have answers, with the translated descriptors. -/
theorem sidedMembers_translated : ∃ base p, ofMappings sidedMembers = .ok base ∧
    Program.ofClasses [⟨"c", some "a", [], [], []⟩] = .ok p ∧
    sidedMembers.TranslatesKeys base.classes ∧
    ∀ ref ∈ sidedQueries, ∃ answer,
      ({ base with ancestry := some p.ancestry } : Renamer).member "c" ref = .ok answer ∧
      base.classes.descriptor .toMapped ref.desc = .ok answer.desc := by
  obtain ⟨base, built⟩ : ∃ base, ofMappings sidedMembers = .ok base :=
    Outcome.exists_eq_ok (by decide +kernel)
  obtain ⟨p, hp⟩ : ∃ p, Program.ofClasses [⟨"c", some "a", [], [], []⟩] = .ok p := ⟨_, rfl⟩
  have hfield : base.classes.descriptor .toMapped "La;" = .ok "Lb;" :=
    Outcome.eq_of_bind_eq built (f := fun r => r.classes.descriptor .toMapped "La;")
      (by decide +kernel)
  have hmethod : base.classes.descriptor .toMapped "(La;)V" = .ok "(Lb;)V" :=
    Outcome.eq_of_bind_eq built (f := fun r => r.classes.descriptor .toMapped "(La;)V")
      (by decide +kernel)
  have hback : base.classes.descriptor .toUnmapped "(Lb;)V" = .ok "(La;)V" :=
    Outcome.eq_of_bind_eq built (f := fun r => r.classes.descriptor .toUnmapped "(Lb;)V")
      (by decide +kernel)
  have htranslates : sidedMembers.TranslatesKeys base.classes := by
    rintro s ⟨c, hc, hs⟩ key mapped hkey hmapped
    obtain rfl := List.mem_singleton.1 hc
    rcases List.mem_cons.1 hs with rfl | hs
    · cases hkey
      cases hmapped
      exact hfield
    rcases List.mem_cons.1 hs with rfl | hs
    · cases hmapped
    · obtain rfl := List.mem_singleton.1 hs
      obtain ⟨key', hkey', heq⟩ := Outcome.bind_eq_ok_iff.1 hkey
      cases heq
      cases hmapped
      obtain rfl := Outcome.eq_of_eq_ok hkey' hback
      exact hmethod
  refine ⟨base, p, built, hp, htranslates, fun ref href => ?_⟩
  obtain ⟨answers, hanswers⟩ : ∃ answers, sidedQueries.mapM
      (({ base with ancestry := some p.ancestry } : Renamer).member "c") = .ok answers := by
    obtain ⟨answers, hanswers⟩ := Outcome.exists_eq_ok (r := do
      let base ← ofMappings sidedMembers
      let p ← Program.ofClasses [⟨"c", some "a", [], [], []⟩]
      sidedQueries.mapM (({ base with ancestry := some p.ancestry } : Renamer).member "c"))
      (by decide +kernel)
    rw [built, hp] at hanswers
    exact ⟨answers, hanswers⟩
  obtain ⟨answer, hanswer⟩ := Outcome.exists_mapM_iff.1 ⟨answers, hanswers⟩ ref href
  exact ⟨answer, hanswer, descriptor_of_member built htranslates _ hanswer⟩

end Renamer

end SymbolMap
