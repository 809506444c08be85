import SymbolMap.Mappings.Chaining
import SymbolMap.Mappings.DescriptorMove
import SymbolMap.Mappings.Projection
import SymbolMap.Mappings.Reversal
import SymbolMap.Proofs.Mappings.Validity

/-!
# Identities and owners

A class is known in its collection by its position, and a member refers to its class by that
position.  Nothing in the type of a collection says that these numbers are right: a class that is
added may come from another collection, and its members may carry any owner or none.

A collection is **built** (`GroupedMappings.Built`) if it comes from an empty one by operations:
adding a class or a package, reversing, chaining, projecting and moving descriptors.  Each of them
gives identities and owners anew or leaves them alone (`Step.inPlace`), so they are right in every
collection that is built (`identities_of_built`), and the check of a collection, which looks for
wrong ones, has nothing to say about them (`InPlace.failsOnly_validate`).
-/

namespace SymbolMap

/-! ## Failures about identities -/

/-- Is the mapping malformed because a class has a wrong identity, or a member no owner or a wrong
one? -/
def Malformed.concernsIdentity : Malformed → Bool
  | .misplacedClass .. | .unowned .. | .foreignOwner .. => true
  | _ => false

/-- Does the cause say that an identity or an owner is wrong? -/
def Cause.concernsIdentity : Cause → Bool
  | .malformed reason => reason.concernsIdentity
  | _ => false

/-- Does the context say that an identity or an owner is wrong? -/
def Context.concernsIdentity : Context → Bool
  | .malformed reason => reason.concernsIdentity
  | _ => false

/-- Does the failure say, in any of its parts, that an identity or an owner is wrong? -/
def Failure.concernsIdentity (f : Failure) : Bool :=
  f.contexts.any Context.concernsIdentity || f.cause.concernsIdentity

@[simp] theorem Failure.concernsIdentity_within (c : Context) (f : Failure) :
    (f.within c).concernsIdentity = (c.concernsIdentity || f.concernsIdentity) := by
  simp [concernsIdentity, within, Bool.or_assoc]

/-- If the outcome is a failure, it is not about identities. -/
abbrev Outcome.Impersonal {α : Type} (r : Outcome α) : Prop :=
  r.FailsOnly fun f => f.concernsIdentity = false

namespace Outcome

variable {α : Type}

theorem impersonal_malformed {reason : Malformed} (h : reason.concernsIdentity = false) :
    (malformed reason : Outcome α).Impersonal :=
  failsOnly_error h

theorem impersonal_duplicate (scope : Scope) (key : String) :
    (duplicate scope key : Outcome α).Impersonal :=
  failsOnly_error rfl

theorem Impersonal.within {r : Outcome α} {c : Context} (hr : r.Impersonal)
    (hc : c.concernsIdentity = false) : (r.within c).Impersonal := by
  refine FailsOnly.within fun f hf => ?_
  simp only [Failure.concernsIdentity_within, hc, hr f hf, Bool.or_false]

theorem impersonal_ofReading (r : Except DescriptorError α) : (ofReading r).Impersonal := by
  cases r with
  | ok a => exact failsOnly_of_ok ⟨a, rfl⟩
  | error e => exact failsOnly_error rfl

end Outcome

/-! ## What else is checked -/

theorem NameRow.impersonal_firstName (r : NameRow) : r.firstName.Impersonal := by
  rw [firstName]
  split
  · exact Outcome.failsOnly_of_ok ⟨_, rfl⟩
  · exact Outcome.impersonal_malformed rfl

theorem SymbolNames.impersonal_checkPresent (names : SymbolNames) :
    names.checkPresent.Impersonal := by
  cases names with
  | paired unmapped mapped =>
    rw [checkPresent]
    split
    · exact Outcome.impersonal_malformed rfl
    · exact Outcome.failsOnly_of_ok ⟨(), rfl⟩
  | row r =>
    rw [checkPresent]
    split
    · exact Outcome.impersonal_malformed rfl
    · split
      · exact Outcome.failsOnly_of_ok ⟨(), rfl⟩
      · rename_i e he
        exact Outcome.failsOnly_error (r.impersonal_firstName e he)

theorem checkShape_impersonal (namespaces : Option Namespaces) (s : Symbol) :
    (checkShape namespaces s).Impersonal := by
  rw [checkShape.eq_def]
  split
  · exact Outcome.failsOnly_of_ok ⟨(), rfl⟩
  · split
    · exact Outcome.failsOnly_of_ok ⟨(), rfl⟩
    · exact Outcome.impersonal_malformed rfl
  · exact Outcome.impersonal_malformed rfl

namespace Symbol

theorem impersonal_unmappedName (s : Symbol) : s.unmappedName.Impersonal := by
  obtain ⟨names, tags, locals⟩ := s
  cases names with
  | paired unmapped mapped => exact Outcome.failsOnly_of_ok ⟨unmapped, rfl⟩
  | row r => exact r.impersonal_firstName

theorem impersonal_checkNames (s : Symbol) (what : String) (rule : String → Bool) :
    (s.checkNames what rule).Impersonal := by
  rw [checkNames, SymbolNames.check]
  split
  · exact Outcome.impersonal_malformed rfl
  · exact Outcome.failsOnly_of_ok ⟨(), rfl⟩

theorem impersonal_validateLocals {names : SymbolNames} {table : LocalTable}
    (h : ∀ e ∈ table, e.2.validate.Impersonal) : (validateLocals names table).Impersonal := by
  induction table with
  | nil =>
    rw [validateLocals]
    exact Outcome.failsOnly_of_ok ⟨(), rfl⟩
  | cons e rest ih =>
    obtain ⟨index, v⟩ := e
    have hrest : (validateLocals names rest).Impersonal :=
      ih fun e he => h e (List.mem_cons_of_mem _ he)
    have hv : (Outcome.within (.inLocal index names) (do
        v.validate
        v.checkNames "local variable" Name.isUnqualified)).Impersonal := by
      refine Outcome.Impersonal.within ?_ rfl
      exact (h _ List.mem_cons_self).bind fun _ _ => v.impersonal_checkNames _ _
    rw [validateLocals]
    split
    · exact hv.bind fun _ _ => hrest
    · refine Outcome.FailsOnly.bind (Outcome.impersonal_malformed rfl) fun _ _ => ?_
      exact hv.bind fun _ _ => hrest

/-- The check of a symbol does not look at its owner. -/
theorem impersonal_validate (s : Symbol) : s.validate.Impersonal := by
  induction s using rec_locals with
  | h names tags locals ih =>
    rw [validate.eq_def]
    refine names.impersonal_checkPresent.bind fun _ _ => ?_
    refine Outcome.FailsOnly.bind (Outcome.failsOnly_forM fun desc _ => ?_) fun _ _ => ?_
    · exact (Outcome.impersonal_ofReading _).within rfl
    · cases locals with
      | none => exact Outcome.failsOnly_of_ok ⟨(), rfl⟩
      | some table => exact impersonal_validateLocals (ih table rfl)

end Symbol

namespace GroupedMappings

theorem impersonal_classesByUnmappedName (m : GroupedMappings) :
    m.classesByUnmappedName.Impersonal := by
  refine Outcome.failsOnly_foldlM (fun entry hentry t => ?_) _
  obtain ⟨c, -, rfl⟩ := List.mem_map.1 hentry
  have hname : (do return (← c.unmappedName, c) : Outcome (String × MappedClass)).Impersonal :=
    c.info.impersonal_unmappedName.bind fun _ _ => Outcome.failsOnly_of_ok ⟨_, rfl⟩
  refine hname.bind fun e _ => ?_
  show (t.addNew .className e.1 e.2).Impersonal
  rw [Table.addNew]
  split
  · exact Outcome.failsOnly_of_ok ⟨_, rfl⟩
  · exact Outcome.impersonal_duplicate _ _

/-! ## Identities by position -/

/-- Classes have the identities of their positions, and members are owned by their class. -/
def InPlace (m : GroupedMappings) : Prop :=
  ∀ (i : Nat) (c : MappedClass), m.classes[i]? = some c →
    c.id = ⟨i⟩ ∧ ∀ s ∈ c.members, s.tags.owner = some ⟨i⟩

variable {m m' : GroupedMappings}

theorem inPlace_empty (namespaces : Option Namespaces) : (empty namespaces).InPlace :=
  fun _ _ hc => nomatch hc

/-- An added class gets the identity of its position, whatever identity and owners it had. -/
theorem InPlace.addClass (h : m.InPlace) (c : MappedClass) : (m.addClass c).InPlace := by
  intro i c' hc'
  rw [classes_addClass, List.getElem?_append] at hc'
  split at hc'
  · exact h i c' hc'
  · obtain ⟨hlt, rfl⟩ := List.getElem?_eq_some_iff.1 hc'
    obtain rfl : i = m.classes.length := by
      simp only [List.length_cons, List.length_nil] at hlt
      omega
    refine ⟨by simp [MappedClass.withId, nextId], fun s hs => ?_⟩
    simp only [Nat.sub_self, List.getElem_cons_zero] at hs
    exact MappedClass.owner_of_mem_withId hs

theorem InPlace.addPackage (h : m.InPlace) (p : Symbol) : (m.addPackage p).InPlace := h

theorem inPlace_ofParts (namespaces : Option Namespaces) (classes : List MappedClass)
    (packages : List Symbol) : (ofParts namespaces classes packages).InPlace := by
  have hclasses : (classes.foldl GroupedMappings.addClass (empty namespaces)).InPlace :=
    List.foldlRecOn classes _ (inPlace_empty namespaces) fun m hm c _ => hm.addClass c
  exact List.foldlRecOn packages _ hclasses fun m hm p _ => hm.addPackage p

/-- The class that owns a member is found by the owner the member carries. -/
theorem InPlace.ownerOf_eq (h : m.InPlace) {i : Nat} {c : MappedClass}
    (hc : m.classes[i]? = some c) {s : Symbol} (hs : s ∈ c.members) : m.ownerOf s = .ok c := by
  have hclass : m.class? ⟨i⟩ = some c := hc
  rw [ownerOf, (h i c hc).2 s hs]
  simp only [hclass]

/-- Where identities and owners are right, the check of the collection fails for other reasons. -/
theorem InPlace.failsOnly_validate (h : m.InPlace) : m.validate.Impersonal := by
  refine Outcome.FailsOnly.bind (Outcome.failsOnly_forM ?_) fun _ _ => ?_
  · rintro ⟨c, i⟩ hmem
    obtain ⟨hid, howner⟩ := h i c (List.mem_zipIdx_iff_getElem?.1 hmem)
    have hmember : ∀ s ∈ c.members, (c.validateMember s).Impersonal := by
      intro s hs
      refine (s.impersonal_validate.within rfl).bind fun _ _ => ?_
      simp only [howner s hs, hid, if_true]
      exact Outcome.failsOnly_of_ok ⟨(), rfl⟩
    have hclass : c.validate.Impersonal := by
      refine c.info.impersonal_validate.bind fun _ _ => ?_
      refine (c.info.impersonal_checkNames _ _).bind fun _ _ => ?_
      refine Outcome.FailsOnly.bind (Outcome.failsOnly_forM fun s _ => ?_) fun _ _ => ?_
      · exact Outcome.Impersonal.within (s.impersonal_checkNames _ _) rfl
      · refine Outcome.FailsOnly.bind (Outcome.failsOnly_forM fun s _ => ?_) fun _ _ => ?_
        · exact Outcome.Impersonal.within (s.impersonal_checkNames _ _) rfl
        · exact Outcome.failsOnly_forM hmember
    show (m.validateClass c i).Impersonal
    simp only [validateClass, hid, if_true]
    refine (Outcome.failsOnly_forM fun s _ => ?_).bind fun _ _ => hclass
    exact checkShape_impersonal m.namespaces s
  · refine Outcome.FailsOnly.bind (Outcome.failsOnly_forM fun p _ => ?_) fun _ _ => ?_
    · refine (checkShape_impersonal m.namespaces p).bind fun _ _ => ?_
      refine Outcome.Impersonal.within ?_ rfl
      exact p.impersonal_validate.bind fun _ _ => p.impersonal_checkNames _ _
    · refine m.impersonal_classesByUnmappedName.bind fun _ _ => ?_
      exact Outcome.failsOnly_of_ok ⟨(), rfl⟩

/-! ## Collections that are built -/

/-- One operation makes the second collection of the first.  A class that is added may have any
identity, and its members any owners. -/
inductive Step : GroupedMappings → GroupedMappings → Prop where
  | addClass (m : GroupedMappings) (c : MappedClass) : Step m (m.addClass c)
  | addPackage (m : GroupedMappings) (p : Symbol) : Step m (m.addPackage p)
  | reverse {m m' : GroupedMappings} (h : m.reverse = .ok m') : Step m m'
  | chain {m m' : GroupedMappings} (flat : FlatMappings) (h : m.chain flat = .ok m') : Step m m'
  | project {m m' : GroupedMappings} (source target : String)
    (h : m.project source target = .ok m') : Step m m'
  | descriptorsIn {m m' : GroupedMappings} (target : String)
    (h : m.descriptorsIn target = .ok m') : Step m m'

/-- The collection comes from an empty one by operations. -/
inductive Built : GroupedMappings → Prop where
  | empty (namespaces : Option Namespaces) : Built (empty namespaces)
  | step {m m' : GroupedMappings} (hm : Built m) (h : Step m m') : Built m'

/-- A collection that is put together is built. -/
theorem built_ofParts (namespaces : Option Namespaces) (classes : List MappedClass)
    (packages : List Symbol) : (ofParts namespaces classes packages).Built := by
  have hclasses : (classes.foldl GroupedMappings.addClass (GroupedMappings.empty namespaces)).Built :=
    List.foldlRecOn classes _ (.empty namespaces) fun m hm c _ => .step hm (.addClass m c)
  exact List.foldlRecOn packages _ hclasses fun m hm p _ => .step hm (.addPackage m p)

/-- **An operation keeps identities and owners right.** -/
theorem Step.inPlace (h : Step m m') (hm : m.InPlace) : m'.InPlace := by
  cases h with
  | addClass c => exact hm.addClass c
  | addPackage p => exact hm.addPackage p
  | reverse h =>
    rw [GroupedMappings.reverse] at h
    split at h
    · obtain ⟨classes, -, h⟩ := Outcome.bind_eq_ok_iff.1 h
      obtain ⟨packages, -, h⟩ := Outcome.bind_eq_ok_iff.1 h
      obtain rfl := Except.ok.inj h
      exact inPlace_ofParts _ _ _
    · cases h
  | chain flat h =>
    rw [GroupedMappings.chain] at h
    split at h
    · obtain ⟨classes, -, h⟩ := Outcome.bind_eq_ok_iff.1 h
      obtain ⟨fields, -, h⟩ := Outcome.bind_eq_ok_iff.1 h
      obtain ⟨methods, -, h⟩ := Outcome.bind_eq_ok_iff.1 h
      obtain ⟨chained, -, h⟩ := Outcome.bind_eq_ok_iff.1 h
      obtain rfl := Except.ok.inj h
      exact inPlace_ofParts _ _ _
    · cases h
  | project source target h =>
    rw [GroupedMappings.project] at h
    split at h
    · cases h
    · obtain ⟨source, -, h⟩ := Outcome.bind_eq_ok_iff.1 h
      obtain ⟨target, -, h⟩ := Outcome.bind_eq_ok_iff.1 h
      obtain ⟨classes, -, h⟩ := Outcome.bind_eq_ok_iff.1 h
      obtain ⟨packages, -, h⟩ := Outcome.bind_eq_ok_iff.1 h
      obtain rfl := Except.ok.inj h
      exact inPlace_ofParts _ _ _
  | descriptorsIn target h =>
    rw [GroupedMappings.descriptorsIn] at h
    split at h
    · cases h
    · obtain ⟨target, -, h⟩ := Outcome.bind_eq_ok_iff.1 h
      obtain ⟨tables, -, h⟩ := Outcome.bind_eq_ok_iff.1 h
      obtain ⟨classes, -, h⟩ := Outcome.bind_eq_ok_iff.1 h
      obtain rfl := Except.ok.inj h
      exact inPlace_ofParts _ _ _

theorem Built.inPlace (h : m.Built) : m.InPlace := by
  induction h with
  | empty namespaces => exact inPlace_empty namespaces
  | step _ hstep ih => exact hstep.inPlace ih

/-- **Identities and owners are right in every collection that is built.**  The class at a position
has the identity of the position, its fields and methods carry that identity, and the class found
for them is that class; and if the check of the collection fails, it is not for any of this. -/
theorem identities_of_built (h : m.Built) :
    (∀ i c, m.classes[i]? = some c → c.id = ⟨i⟩ ∧
      ∀ s ∈ c.members, s.tags.owner = some ⟨i⟩ ∧ m.ownerOf s = .ok c) ∧
    ∀ f, m.validate = .error f → f.concernsIdentity = false := by
  have hplace := h.inPlace
  refine ⟨fun i c hc => ⟨(hplace i c hc).1, fun s hs => ?_⟩, hplace.failsOnly_validate⟩
  exact ⟨(hplace i c hc).2 s hs, hplace.ownerOf_eq hc hs⟩

/-! ### Classes from elsewhere -/

/-- A class with an identity from elsewhere, a field without an owner and a method that is owned by
another class. -/
def strayClass : MappedClass where
  id := ⟨7⟩
  info := .ofNames (.paired "a" "b")
  fields := [.ofNames (.paired "f" "g")]
  methods := [(Symbol.ofNames (.paired "m" "n")).ownedBy ⟨5⟩]

/-- The class twice, the second time as the collection has it. -/
def strayMappings : GroupedMappings :=
  let first := (empty none).addClass strayClass
  first.classes.foldl GroupedMappings.addClass first

/-- The reversed collection fails its check for the class that is there twice, and not for identities
or owners, which are right. -/
theorem strayMappings_inPlace : strayClass.validate ≠ .ok () ∧ ∃ m', strayMappings.reverse = .ok m' ∧
    m'.Built ∧ m'.validate = .error (.of (.duplicate .className "b")) ∧
    (∀ i c, m'.classes[i]? = some c → c.id = ⟨i⟩ ∧
      ∀ s ∈ c.members, s.tags.owner = some ⟨i⟩ ∧ m'.ownerOf s = .ok c) ∧
    ∀ f, m'.validate = .error f → f.concernsIdentity = false := by
  obtain ⟨m', hm'⟩ : ∃ m', strayMappings.reverse = .ok m' :=
    Outcome.exists_eq_ok (by decide +kernel)
  have hfirst : ((empty none).addClass strayClass).Built := .step (.empty none) (.addClass _ _)
  have hboth : strayMappings.Built := .step hfirst (.addClass _ _)
  have hbuilt : m'.Built := .step hboth (.reverse hm')
  have hduplicate : (strayMappings.reverse >>= validate) =
      .error (.of (.duplicate .className "b")) := by decide +kernel
  rw [hm'] at hduplicate
  exact ⟨by decide +kernel, m', hm', hbuilt, hduplicate, identities_of_built hbuilt⟩

end GroupedMappings

end SymbolMap
