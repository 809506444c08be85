import Mathlib.Data.List.Nodup
import SymbolMap.Proofs.Mappings.Validity
import SymbolMap.Proofs.Renamer.OwnMembers
import SymbolMap.Proofs.Renamer.Readiness

/-!
# Which members are registered

A member is entered into the tables of its class under its unmapped name and its **key**: the
unmapped descriptor, or the mapped one taken to the unmapped side, or nothing (`Symbol.key`).  Only a
row that is there already stops it, so the tables of a class are filled if and only if no two of its
members of a kind have the same name and key (`MemberTable.exists_ofSymbols_iff`).  Other classes do
not matter: their names differ, so no class overwrites the tables of another.

Once the tables are filled nothing in them is lost or shadowed (`members_registered`).  A member with
a key answers for its key; a field without one answers for every descriptor that is not the key of a
namesake, and a method without one stops the query there.
-/

namespace SymbolMap

/-- The descriptor that a member is entered under. -/
def Symbol.key (classes : ClassRenames) (s : Symbol) : Outcome (Option String) :=
  match s.tags.unmappedDescriptor, s.tags.mappedDescriptor with
  | some unmapped, _ => .ok (some unmapped)
  | none, some mapped => do return some (← classes.descriptor .toUnmapped mapped)
  | none, none => .ok none

/-- The members have another name or another key. -/
def Symbol.Distinct (classes : ClassRenames) (s s' : Symbol) : Prop :=
  s.unmappedName = s'.unmappedName → s.key classes ≠ s'.key classes

section

variable {classes : ClassRenames} {s : Symbol} {key desc : Option String}

/-- The key of a member stands first among its descriptors; the other one is given, or it is the key
taken to the mapped side. -/
theorem key_of_memberDescriptors (h : memberDescriptors classes s.tags = .ok (key, desc)) :
    s.key classes = .ok key ∧ ∀ unmapped, key = some unmapped → ∃ mapped, desc = some mapped ∧
      (s.tags.mappedDescriptor = some mapped ∨ s.tags.mappedDescriptor = none ∧
        classes.descriptor .toMapped unmapped = .ok mapped) := by
  rw [memberDescriptors] at h
  rw [Symbol.key]
  split at h
  · rename_i unmapped mapped hunmapped hmapped
    obtain ⟨rfl, rfl⟩ := Prod.mk.inj (Except.ok.inj h)
    rw [hunmapped, hmapped]
    exact ⟨rfl, fun _ _ => ⟨mapped, rfl, .inl rfl⟩⟩
  · rename_i unmapped hunmapped hmapped
    obtain ⟨mapped, htaken, h⟩ := Outcome.bind_eq_ok_iff.1 h
    obtain ⟨rfl, rfl⟩ := Prod.mk.inj (Except.ok.inj h)
    rw [hunmapped, hmapped]
    refine ⟨rfl, fun unmapped' hkey => ⟨mapped, rfl, .inr ⟨rfl, ?_⟩⟩⟩
    obtain rfl := Option.some.inj hkey
    exact htaken
  · rename_i mapped hunmapped hmapped
    obtain ⟨unmapped, htaken, h⟩ := Outcome.bind_eq_ok_iff.1 h
    obtain ⟨rfl, rfl⟩ := Prod.mk.inj (Except.ok.inj h)
    rw [hunmapped, hmapped]
    exact ⟨Outcome.bind_eq_ok_iff.2 ⟨unmapped, htaken, rfl⟩, fun _ _ => ⟨mapped, rfl, .inl rfl⟩⟩
  · rename_i hunmapped hmapped
    obtain ⟨rfl, rfl⟩ := Prod.mk.inj (Except.ok.inj h)
    rw [hunmapped, hmapped]
    exact ⟨rfl, fun unmapped hkey => absurd hkey.symm (Option.some_ne_none unmapped)⟩

end

/-! ## Filling tables -/

namespace MemberTable

variable {classes : ClassRenames} {scope : Scope} {owner name : String} {desc : Option String}
  {entry : MemberEntry} {t : MemberTable} {symbols : List Symbol}

/-- A row is entered if there is none under its name and descriptor. -/
theorem exists_enter_iff :
    (∃ t', t.enter scope owner name desc entry = .ok t') ↔ t.entryAt name desc = none := by
  constructor
  · rintro ⟨t', h⟩
    exact (entryAt_of_enter h).1
  · intro hnone
    rw [enter]
    split
    · exact ⟨_, rfl⟩
    · rename_i hadd
      exfalso
      obtain ⟨entry', hentry'⟩ : ∃ e, ((t.get? name).getD .empty).get? desc = some e := by
        rw [← Option.ne_none_iff_exists', ne_eq, Table.get?_eq_none_iff, not_not]
        exact Table.add?_eq_none_iff.1 hadd
      rw [entryAt] at hnone
      cases hget : t.get? name with
      | none =>
        rw [hget] at hentry'
        cases hentry'
      | some overloads =>
        rw [hget] at hentry' hnone
        cases hentry'.symm.trans hnone

/-- Members are entered one after the other if none of them has a row already and no two have the
same name and key. -/
theorem exists_foldlM_iff (hrows : ∀ s ∈ symbols, ∃ n d e, s.Enters classes n d e) :
    (∃ t', symbols.foldlM (enterSymbol classes scope owner) t = .ok t') ↔
      (∀ s ∈ symbols, ∀ n d, s.unmappedName = .ok n → s.key classes = .ok d →
        t.entryAt n d = none) ∧ symbols.Pairwise (Symbol.Distinct classes) := by
  induction symbols generalizing t with
  | nil => exact ⟨fun _ => ⟨fun s hs => (nomatch hs), .nil⟩, fun _ => ⟨t, rfl⟩⟩
  | cons s symbols ih =>
    obtain ⟨name, desc, entry, henters⟩ := hrows s List.mem_cons_self
    have hkey := (key_of_memberDescriptors henters.descriptors).1
    have hrest : ∀ t', (∃ u, symbols.foldlM (enterSymbol classes scope owner) t' = .ok u) ↔ _ :=
      fun t' => ih fun s hs => hrows s (List.mem_cons_of_mem _ hs)
    have hstep : t.enterSymbol classes scope owner s = t.enter scope owner name desc entry := by
      simp only [enterSymbol, henters.name, henters.descriptors, henters.locals, henters.mapped,
        Outcome.ok_bind]
    rw [List.foldlM_cons, hstep, List.pairwise_cons]
    constructor
    · rintro ⟨u, hu⟩
      obtain ⟨t', ht', hu⟩ := Outcome.bind_eq_ok_iff.1 hu
      obtain ⟨hnew, hentry, -⟩ := entryAt_of_enter ht'
      obtain ⟨hnone, hpairwise⟩ := (hrest t').1 ⟨u, hu⟩
      refine ⟨fun s' hs' n d hn hd => ?_, fun s' hs' hname hkeys => ?_, hpairwise⟩
      · rcases List.mem_cons.1 hs' with rfl | hs'
        · obtain rfl := Outcome.eq_of_eq_ok hn henters.name
          obtain rfl := Outcome.eq_of_eq_ok hd hkey
          exact hnew
        · have hafter := hnone s' hs' n d hn hd
          rw [hentry] at hafter
          split at hafter
          · cases hafter
          · exact hafter
      · have hafter := hnone s' hs' name desc (hname ▸ henters.name) (hkeys ▸ hkey)
        rw [hentry, if_pos ⟨rfl, rfl⟩] at hafter
        cases hafter
    · rintro ⟨hnone, hdistinct, hpairwise⟩
      obtain ⟨t', ht'⟩ := exists_enter_iff.2
        (hnone s List.mem_cons_self name desc henters.name hkey)
      obtain ⟨-, hentry, -⟩ := entryAt_of_enter ht'
      obtain ⟨u, hu⟩ := (hrest t').2 ⟨fun s' hs' n d hn hd => by
        rw [hentry, if_neg]
        · exact hnone s' (List.mem_cons_of_mem _ hs') n d hn hd
        · rintro ⟨rfl, rfl⟩
          exact hdistinct s' hs' (henters.name.trans hn.symm) (hkey.trans hd.symm), hpairwise⟩
      exact ⟨u, Outcome.bind_eq_ok_iff.2 ⟨t', ht', hu⟩⟩

/-- **The table of a list of members is filled if no two have the same name and key.** -/
theorem exists_ofSymbols_iff (hrows : ∀ s ∈ symbols, ∃ n d e, s.Enters classes n d e) :
    (∃ t, ofSymbols classes scope owner symbols = .ok t) ↔
      symbols.Pairwise (Symbol.Distinct classes) := by
  rw [ofSymbols, exists_foldlM_iff hrows]
  exact ⟨fun h => h.2, fun h => ⟨fun _ _ _ _ _ _ => rfl, h⟩⟩

end MemberTable

namespace Renamer

variable {r : Renamer} {m : GroupedMappings}

/-- A renamer is built if the class renames are and the tables of each class are. -/
theorem exists_ofMappings_iff
    (hrows : ∀ t, ClassRenames.ofMappings m = .ok t → ∀ s, m.Declares s →
      ∃ n d e, s.Enters t n d e) :
    (∃ r, ofMappings m = .ok r) ↔ ∃ t, ClassRenames.ofMappings m = .ok t ∧
      ∀ c ∈ m.classes, ∀ kind, (c.membersOf kind).Pairwise (Symbol.Distinct t) := by
  have htable : ∀ {t : ClassRenames} {c : MappedClass} {owner : String},
      ClassRenames.ofMappings m = .ok t → c ∈ m.classes → ∀ kind : MemberKind,
      (∃ table, MemberTable.ofSymbols t kind.scope owner (c.membersOf kind) = .ok table) ↔
        (c.membersOf kind).Pairwise (Symbol.Distinct t) := by
    intro t c owner ht hc kind
    exact MemberTable.exists_ofSymbols_iff fun s hs =>
      hrows t ht s ⟨c, hc, MappedClass.mem_members_of_membersOf hs⟩
  constructor
  · rintro ⟨r, hr⟩
    rw [ofMappings, Outcome.bind_eq_ok_iff] at hr
    obtain ⟨t, ht, hr⟩ := hr
    obtain ⟨members, hmembers, -⟩ := Outcome.bind_eq_ok_iff.1 hr
    refine ⟨t, ht, fun c hc kind => ?_⟩
    obtain ⟨e, -, -, he⟩ := exists_right_of_forall₂ (members_of_mapM hmembers) hc
    exact (htable ht hc kind).1 ⟨_, he kind⟩
  · rintro ⟨t, ht, hdistinct⟩
    have hclass : ∀ c ∈ m.classes, ∃ e, (do
        let owner ← c.unmappedName
        let members ← ClassMembers.ofClass t owner c
        return (owner, members) : Outcome (String × ClassMembers)) = .ok e := by
      intro c hc
      obtain ⟨⟨owner, mapped⟩, hnamed, -⟩ := exists_isNamed_of_mem ht hc
      obtain ⟨fields, hfields⟩ := (htable ht hc .field).2 (hdistinct c hc .field)
      obtain ⟨methods, hmethods⟩ := (htable ht hc .method).2 (hdistinct c hc .method)
      refine ⟨(owner, ⟨fields, methods⟩), Outcome.bind_eq_ok_iff.2 ⟨owner, hnamed.1, ?_⟩⟩
      refine Outcome.bind_eq_ok_iff.2 ⟨⟨fields, methods⟩, ?_, rfl⟩
      refine Outcome.bind_eq_ok_iff.2 ⟨fields, hfields, ?_⟩
      exact Outcome.bind_eq_ok_iff.2 ⟨methods, hmethods, rfl⟩
    obtain ⟨members, hmembers⟩ := Outcome.exists_mapM_iff.2 hclass
    exact ⟨_, Outcome.bind_eq_ok_iff.2 ⟨t, ht, Outcome.bind_eq_ok_iff.2 ⟨members, hmembers, rfl⟩⟩⟩

/-! ## Answers -/

/-- No other class has the unmapped name of a class. -/
theorem Represents.eq_of_unmappedName (h : r.Represents m) {c c' : MappedClass} {owner : String}
    (hc : c ∈ m.classes) (hc' : c' ∈ m.classes) (howner : c.unmappedName = .ok owner)
    (howner' : c'.unmappedName = .ok owner) : c' = c := by
  have hnames : ∀ c ∈ m.classes, ∃ owner, c.unmappedName = .ok owner := by
    intro c hc
    obtain ⟨pair, hnamed, -⟩ := exists_isNamed_of_mem h.classes hc
    exact ⟨pair.1, hnamed.1⟩
  obtain ⟨owners, howners⟩ := Outcome.exists_mapM_iff.2 hnames
  have hforall := Outcome.mapM_eq_ok_iff.1 howners
  have hnodup : (m.classes.map MappedClass.unmappedName).Nodup := by
    rw [map_eq_map_of_forall₂ hforall fun _ _ hname => hname]
    exact (nodup_of_unmappedNames h.classes hforall).map fun _ _ => Except.ok.inj
  exact List.inj_on_of_nodup_map hnodup hc' hc (howner'.trans howner.symm)

/-- A member without a key has the only row that a descriptor leads to, unless it is the key of a
member with the same name. -/
theorem Represents.entryAt_of_no_key (h : r.Represents m) {c : MappedClass} {kind : MemberKind}
    {s : Symbol} {owner name name' desc : String} (hc : c ∈ m.classes)
    (howner : c.unmappedName = .ok owner) (hs : s ∈ c.membersOf kind)
    (hnamed : s.IsNamed (name, name')) (hunmapped : s.tags.unmappedDescriptor = none)
    (hmapped : s.tags.mappedDescriptor = none)
    (hother : ∀ s' ∈ c.membersOf kind, s'.unmappedName = .ok name →
      s'.key r.classes ≠ .ok (some desc)) :
    r.entryAt kind owner name (some desc) = none ∧
      ∃ entry, r.entryAt kind owner name none = some entry ∧ entry.target = ⟨name', none⟩ := by
  constructor
  · by_contra hsome
    obtain ⟨entry, hentry⟩ := Option.ne_none_iff_exists'.1 hsome
    obtain ⟨c', hc', howner', s', hs', henters'⟩ := (h.entryAt_iff ..).1 hentry
    obtain rfl := h.eq_of_unmappedName hc hc' howner howner'
    exact hother s' hs' henters'.name (key_of_memberDescriptors henters'.descriptors).1
  · obtain ⟨name₀, key, entry, henters⟩ := h.enters c hc kind s hs
    obtain rfl : name₀ = name := Outcome.eq_of_eq_ok henters.name hnamed.1
    have hdescs := henters.descriptors
    rw [memberDescriptors, hunmapped, hmapped] at hdescs
    obtain ⟨rfl, htarget⟩ := Prod.mk.inj (Except.ok.inj hdescs)
    have hname : entry.target.name = name' := Outcome.eq_of_eq_ok henters.mapped hnamed.2
    refine ⟨entry, (h.entryAt_iff ..).2 ⟨c, hc, howner, s, hs, henters⟩, ?_⟩
    rw [← hname, htarget]

theorem Represents.setAncestry (h : r.Represents m) (a : Option Ancestry) :
    ({ r with ancestry := a } : Renamer).Represents m :=
  ⟨h.classes, h.entryAt_iff, h.mem_mappedNames_iff, h.enters⟩

/-- **A field without a descriptor** is found under a descriptor that is no key of a namesake. -/
theorem member?_of_field_without {owner name name' desc desc' : String} {entry : MemberEntry}
    (hinit : Name.isInitializer name = false)
    (hnone : r.entryAt .field owner name (some desc) = none)
    (hentry : r.entryAt .field owner name none = some entry) (htarget : entry.target = ⟨name', none⟩)
    (hdesc : r.classes.descriptor .toMapped desc = .ok desc') :
    r.member? owner ⟨.field, name, desc⟩ = .ok (some ⟨name', desc'⟩) := by
  have hlookup : r.lookup owner ⟨.field, name, desc⟩ = .ok (some entry) := by
    rw [lookup_eq]
    simp only [hnone, hentry]
  have hresolve : r.resolve owner ⟨.field, name, desc⟩ = .ok (some ⟨name', none⟩) := by
    rw [resolve, hlookup]
    simp [hinit, htarget]
  rw [member?, hresolve]
  simp only [Outcome.ok_bind, targetDescriptor, hdesc]
  rfl

/-- **A method without a descriptor** stops a query for a descriptor that is no key of a
namesake. -/
theorem member?_of_method_without {owner name desc : String} {entry : MemberEntry}
    (hinit : Name.isInitializer name = false)
    (hnone : r.entryAt .method owner name (some desc) = none)
    (hentry : r.entryAt .method owner name none = some entry) :
    r.member? owner ⟨.method, name, desc⟩ =
      .malformed (.methodWithoutDescriptor owner name desc) := by
  have hlookup : r.lookup owner ⟨.method, name, desc⟩ =
      .malformed (.methodWithoutDescriptor owner name desc) := by
    rw [lookup_eq]
    simp only [hnone, hentry]
  have hresolve : r.resolve owner ⟨.method, name, desc⟩ =
      .malformed (.methodWithoutDescriptor owner name desc) := by
    rw [resolve, hlookup]
    simp [hinit, Outcome.malformed]
  rw [member?, hresolve]
  rfl

/-- **Members are registered unless there are true duplicates, and are found then.**  Let all symbols
of a collection be named by pairs and the descriptors of its members have both sides.  A renamer is
built if and only if the class renames are and no two members of a class and kind have the same
unmapped name and the same key.  In it, with any ancestry or none, a member that is not an
initializer is found in its class: under its key, if it has a descriptor, with its mapped descriptor;
a field without one under every descriptor that can be translated and is not the key of a namesake,
with the translation.  A method without one makes queries for such a descriptor fail. -/
theorem members_registered (hnamed : ∀ s, m.Holds s → s.names.isPaired = true)
    (hderive : ∀ t, ClassRenames.ofMappings m = .ok t → ∀ s, m.Declares s →
      ∃ descs, memberDescriptors t s.tags = .ok descs) :
    ((∃ r, ofMappings m = .ok r) ↔ ∃ t, ClassRenames.ofMappings m = .ok t ∧
      ∀ c ∈ m.classes, ∀ kind, (c.membersOf kind).Pairwise (Symbol.Distinct t)) ∧
    ∀ r, ofMappings m = .ok r → ∀ a : Option Ancestry, ∀ c ∈ m.classes, ∀ owner,
      c.unmappedName = .ok owner → ∀ kind, ∀ s ∈ c.membersOf kind, ∀ name name',
      s.IsNamed (name, name') → Name.isInitializer name = false →
      (s.tags.unmappedDescriptor ≠ none ∨ s.tags.mappedDescriptor ≠ none →
        ∃ key desc, s.key r.classes = .ok (some key) ∧
          (s.tags.mappedDescriptor = some desc ∨
            s.tags.mappedDescriptor = none ∧ r.classes.descriptor .toMapped key = .ok desc) ∧
          ({ r with ancestry := a } : Renamer).member? owner ⟨kind, name, key⟩ =
            .ok (some ⟨name', desc⟩)) ∧
      (s.tags.unmappedDescriptor = none → s.tags.mappedDescriptor = none → ∀ desc,
        (∀ s' ∈ c.membersOf kind, s'.unmappedName = .ok name →
          s'.key r.classes ≠ .ok (some desc)) →
        (kind = .field → ∀ desc', r.classes.descriptor .toMapped desc = .ok desc' →
          ({ r with ancestry := a } : Renamer).member? owner ⟨kind, name, desc⟩ =
            .ok (some ⟨name', desc'⟩)) ∧
        (kind = .method →
          ({ r with ancestry := a } : Renamer).member? owner ⟨kind, name, desc⟩ =
            .malformed (.methodWithoutDescriptor owner name desc))) := by
  have hrows : ∀ t, ClassRenames.ofMappings m = .ok t → ∀ s, m.Declares s →
      ∃ n d e, s.Enters t n d e := by
    intro t ht s hs
    obtain ⟨⟨name, name'⟩, hname, hname'⟩ :=
      Symbol.exists_isNamed_of_isPaired (hnamed s (.inl hs))
    obtain ⟨⟨key, desc⟩, hdescs⟩ := hderive t ht s hs
    obtain ⟨locals, hlocals⟩ := GroupedMappings.exists_mappedLocals hnamed hs
    exact ⟨name, key, ⟨⟨name', desc⟩, locals⟩, hname, hdescs, hlocals, hname'⟩
  refine ⟨exists_ofMappings_iff hrows, ?_⟩
  intro r hr a c hc owner howner kind s hs name name' hname hinit
  have hrep := (represents_of_ofMappings hr).setAncestry a
  refine ⟨fun hgiven => ?_, fun hunmapped hmapped desc hother => ?_⟩
  · obtain ⟨key, desc, hdescs⟩ := hrep.exists_descriptors hc hs hgiven
    obtain ⟨hkey, htarget⟩ := key_of_memberDescriptors hdescs
    obtain ⟨desc₀, hdesc₀, htarget⟩ := htarget key rfl
    obtain rfl := Option.some.inj hdesc₀
    obtain ⟨entry, hlookup, hentry, -⟩ := hrep.exists_lookup hc howner hs hname hdescs
    exact ⟨key, desc, hkey, htarget, member?_of_lookup hinit hlookup hentry⟩
  · obtain ⟨hnone, entry, hentry, htarget⟩ :=
      hrep.entryAt_of_no_key hc howner hs hname hunmapped hmapped hother
    refine ⟨?_, ?_⟩
    · rintro rfl desc' hdesc
      exact member?_of_field_without hinit hnone hentry htarget hdesc
    · rintro rfl
      exact member?_of_method_without hinit hnone hentry

/-! ### Members with one name -/

/-- A class with two fields of one name, one of them without a descriptor, a method with a mapped
descriptor only, and a method without a descriptor. -/
def namesakes : GroupedMappings :=
  .ofParts none
    [((((MappedClass.ofInfo (.ofNames (.paired "a" "b"))).addField
      (.ofNames (.paired "f" "g"))).addField
      ((Symbol.ofNames (.paired "f" "h")).set (.unmappedDescriptor "I"))).addMethod
      ((Symbol.ofNames (.paired "m" "n")).set (.mappedDescriptor "(Lb;)V"))).addMethod
      (.ofNames (.paired "m" "k"))] []

/-- Each of the four members has its answers. -/
theorem namesakes_registered : ∃ r, ofMappings namesakes = .ok r ∧ ∀ a : Option Ancestry,
    ({ r with ancestry := a } : Renamer).member? "a" ⟨.field, "f", "I"⟩ =
      .ok (some ⟨"h", "I"⟩) ∧
    ({ r with ancestry := a } : Renamer).member? "a" ⟨.field, "f", "La;"⟩ =
      .ok (some ⟨"g", "Lb;"⟩) ∧
    ({ r with ancestry := a } : Renamer).member? "a" ⟨.method, "m", "(La;)V"⟩ =
      .ok (some ⟨"n", "(Lb;)V"⟩) ∧
    ({ r with ancestry := a } : Renamer).member? "a" ⟨.method, "m", "()V"⟩ =
      .malformed (.methodWithoutDescriptor "a" "m" "()V") := by
  have hnamed := GroupedMappings.named_of_validate (m := namesakes) (by decide +kernel)
    (GroupedMappings.forall_holdsInside (by decide +kernel))
  have hderive : ∀ t, ClassRenames.ofMappings namesakes = .ok t → ∀ s, namesakes.Declares s →
      ∃ descs, memberDescriptors t s.tags = .ok descs := by
    rintro t ht s ⟨c, hc, hs⟩
    obtain ⟨all, hall⟩ : ∃ all, (ClassRenames.ofMappings namesakes >>= fun t =>
        (namesakes.classes.flatMap MappedClass.members).mapM fun s => memberDescriptors t s.tags) =
        .ok all := Outcome.exists_eq_ok (by decide +kernel)
    rw [ht] at hall
    exact Outcome.exists_mapM_iff.1 ⟨all, hall⟩ s (List.mem_flatMap.2 ⟨c, hc, hs⟩)
  obtain ⟨r, hr⟩ : ∃ r, ofMappings namesakes = .ok r := Outcome.exists_eq_ok (by decide +kernel)
  -- what is computed from the renamer is computed from the collection
  have heval : ∀ {β : Type} (f : Renamer → Outcome β) (b : β),
      (ofMappings namesakes >>= f) = .ok b → f r = .ok b := by
    intro β f b hb
    rw [hr] at hb
    exact hb
  have hkeys := Outcome.mapM_eq_ok_iff.1 (heval
    (fun r => (namesakes.classes.flatMap MappedClass.members).mapM (Symbol.key r.classes))
    [none, some "I", some "(La;)V", none] (by decide +kernel))
  have hother : ∀ {c : MappedClass} {kind : MemberKind} (desc : String), c ∈ namesakes.classes →
      some desc ∉ [none, some "I", some "(La;)V", none] →
      ∀ s ∈ c.membersOf kind, s.key r.classes ≠ .ok (some desc) := by
    intro c kind desc hc hdesc s hs hkey
    obtain ⟨key, hmem, hkey'⟩ := exists_right_of_forall₂ hkeys
      (List.mem_flatMap.2 ⟨c, hc, MappedClass.mem_members_of_membersOf hs⟩)
    exact hdesc (Outcome.eq_of_eq_ok hkey hkey' ▸ hmem)
  have hfound := fun a => (members_registered hnamed hderive).2 r hr a _
    (List.mem_singleton.2 rfl) "a" rfl
  have hmapped := heval (fun r => r.classes.descriptor .toMapped "I") "I" (by decide +kernel)
  have hmapped' := heval (fun r => r.classes.descriptor .toMapped "La;") "Lb;" (by decide +kernel)
  have hunmapped := heval (fun r => r.classes.descriptor .toUnmapped "(Lb;)V") "(La;)V"
    (by decide +kernel)
  refine ⟨r, hr, fun a => ⟨?_, ?_, ?_, ?_⟩⟩
  · obtain ⟨key, desc, hkey, htarget, hmember⟩ := (hfound a .field _
      (List.mem_cons_of_mem _ List.mem_cons_self) "f" "h" ⟨rfl, rfl⟩ (by decide)).1
      (.inl (by decide))
    obtain rfl : "I" = key := Option.some.inj (Except.ok.inj hkey)
    obtain ⟨-, hdesc⟩ := htarget.resolve_left fun h => nomatch h
    obtain rfl : desc = "I" := Outcome.eq_of_eq_ok hdesc hmapped
    exact hmember
  · obtain ⟨hfield, -⟩ := (hfound a .field _ List.mem_cons_self "f" "g" ⟨rfl, rfl⟩ (by decide)).2
      rfl rfl "La;" fun s hs _ => hother "La;" (List.mem_singleton.2 rfl) (by decide) s hs
    exact hfield rfl "Lb;" hmapped'
  · obtain ⟨key, desc, hkey, htarget, hmember⟩ := (hfound a .method _ List.mem_cons_self "m" "n"
      ⟨rfl, rfl⟩ (by decide)).1 (.inr (by decide))
    obtain ⟨unmapped, htaken, hkey⟩ := Outcome.bind_eq_ok_iff.1 hkey
    obtain rfl : unmapped = "(La;)V" := Outcome.eq_of_eq_ok htaken hunmapped
    obtain rfl : "(La;)V" = key := Option.some.inj (Except.ok.inj hkey)
    obtain rfl : "(Lb;)V" = desc := Option.some.inj (htarget.resolve_right fun h => nomatch h.1)
    exact hmember
  · obtain ⟨-, hmethod⟩ := (hfound a .method _ (List.mem_cons_of_mem _ List.mem_cons_self) "m" "k"
      ⟨rfl, rfl⟩ (by decide)).2 rfl rfl "()V" fun s hs _ =>
        hother "()V" (List.mem_singleton.2 rfl) (by decide) s hs
    exact hmethod rfl

end Renamer

end SymbolMap
