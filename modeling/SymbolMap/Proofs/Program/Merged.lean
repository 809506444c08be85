import SymbolMap.Proofs.Program.Classes
import SymbolMap.Proofs.Renamer.SearchDepth

/-!
# Several programs as one

Several lineages are asked one after the other.  For super types the first answer is taken, and for
the access of a member the first lineage that knows the class is asked; these are two loops, which
stop at the same lineage (`firstKnowing_of_knows`, `firstKnowing_of_fails`).  Nothing is asked of
the lineages here; they may know any number of classes, and fail where they like.

So a list of programs answers as one program that has, for each class, the declaration of the first
program with that class (`Merges`).  A search for an inherited member goes from program to program
on its way up, and finds what it finds in the one program: the two ancestries have one lineage, and
what they list as known makes a difference to the bound of the search only, which is never met
(`resolve_of_toLineage_eq`).
-/

namespace SymbolMap

/-! ## Which lineage answers -/

namespace Lineage

variable {a : Lineage} {before : List Lineage} {c : String}

theorem knows_eq_false_iff : a.knows c = .ok false ↔ a.superTypes c = .ok none := by
  constructor
  · intro h
    obtain ⟨superTypes, hsuper, h⟩ := Outcome.bind_eq_ok_iff.1 h
    cases superTypes with
    | none => exact hsuper
    | some superTypes => cases h
  · intro h
    rw [knows, h]
    rfl

theorem knows_of_error {e : Failure} (h : a.superTypes c = .error e) : a.knows c = .error e := by
  rw [knows, h]
  rfl

/-- A lineage that does not know a class is passed over by both loops. -/
theorem firstKnowing_cons_of_none (h : a.superTypes c = .ok none) (rest : List Lineage) :
    (firstKnowing (a :: rest)).superTypes c = (firstKnowing rest).superTypes c ∧
      ∀ m, (firstKnowing (a :: rest)).access c m = (firstKnowing rest).access c m := by
  have hknows := knows_eq_false_iff.2 h
  refine ⟨?_, fun m => ?_⟩
  · show firstSuperTypes c (a :: rest) = _
    rw [firstSuperTypes, h]
    rfl
  · show firstAccess c m (a :: rest) = _
    rw [firstAccess, hknows]
    rfl

/-- Both loops pass over all lineages that do not know a class. -/
theorem firstKnowing_append_of_none (h : ∀ b ∈ before, b.superTypes c = .ok none)
    (rest : List Lineage) :
    (firstKnowing (before ++ rest)).superTypes c = (firstKnowing rest).superTypes c ∧
      ∀ m, (firstKnowing (before ++ rest)).access c m = (firstKnowing rest).access c m := by
  induction before with
  | nil => exact ⟨rfl, fun _ => rfl⟩
  | cons b before ih =>
    obtain ⟨hsuperTypes, haccess⟩ := ih fun b hb => h b (List.mem_cons_of_mem _ hb)
    obtain ⟨hsuperTypes', haccess'⟩ :=
      firstKnowing_cons_of_none (h b List.mem_cons_self) (before ++ rest)
    exact ⟨hsuperTypes'.trans hsuperTypes, fun m => (haccess' m).trans (haccess m)⟩

/-- **Super types and access come from the first lineage that knows the class**, if those before it
do not fail. -/
theorem firstKnowing_of_knows (hbefore : ∀ b ∈ before, b.knows c = .ok false)
    (h : a.knows c = .ok true) (rest : List Lineage) :
    (firstKnowing (before ++ a :: rest)).superTypes c = a.superTypes c ∧
      ∀ m, (firstKnowing (before ++ a :: rest)).access c m = a.access c m := by
  obtain ⟨hsuperTypes, haccess⟩ := firstKnowing_append_of_none
    (fun b hb => knows_eq_false_iff.1 (hbefore b hb)) (a :: rest)
  obtain ⟨superTypes, hsome⟩ := knows_eq_true_iff.1 h
  refine ⟨hsuperTypes.trans ?_, fun m => (haccess m).trans ?_⟩
  · show firstSuperTypes c (a :: rest) = _
    rw [firstSuperTypes, hsome]
  · show firstAccess c m (a :: rest) = _
    rw [firstAccess, h]
    rfl

/-- A class that no lineage knows has no super types, and counts as declaring everything public. -/
theorem firstKnowing_of_unknown (h : ∀ b ∈ before, b.knows c = .ok false) :
    (firstKnowing before).superTypes c = .ok none ∧
      ∀ m, (firstKnowing before).access c m = .ok Access.publicFlag := by
  have hpass := firstKnowing_append_of_none (fun b hb => knows_eq_false_iff.1 (h b hb)) []
  rw [List.append_nil] at hpass
  exact hpass

/-- **Both fail where a lineage fails before one that knows the class**, and with the same
failure. -/
theorem firstKnowing_of_fails (hbefore : ∀ b ∈ before, b.knows c ≠ .ok true)
    (hfails : ∃ b ∈ before, ∃ e, b.superTypes c = .error e) (rest : List Lineage) :
    ∃ e, (∃ b ∈ before, b.superTypes c = .error e) ∧
      (firstKnowing (before ++ rest)).superTypes c = .error e ∧
      ∀ m, (firstKnowing (before ++ rest)).access c m = .error e := by
  induction before with
  | nil =>
    obtain ⟨b, hb, -⟩ := hfails
    cases hb
  | cons b before ih =>
    cases hb : b.superTypes c with
    | error e =>
      refine ⟨e, ⟨b, List.mem_cons_self, hb⟩, ?_, fun m => ?_⟩
      · show firstSuperTypes c (b :: (before ++ rest)) = _
        rw [firstSuperTypes, hb]
      · show firstAccess c m (b :: (before ++ rest)) = _
        rw [firstAccess, knows_of_error hb]
        rfl
    | ok superTypes =>
      cases superTypes with
      | some superTypes =>
        exact absurd (knows_eq_true_iff.2 ⟨superTypes, hb⟩) (hbefore b List.mem_cons_self)
      | none =>
        -- the lineage that fails is one of the others
        have hfails' : ∃ b' ∈ before, ∃ e, b'.superTypes c = .error e := by
          obtain ⟨b', hb', e, he⟩ := hfails
          rcases List.mem_cons.1 hb' with rfl | hb'
          · rw [hb] at he
            cases he
          · exact ⟨b', hb', e, he⟩
        obtain ⟨e, ⟨b', hb', he⟩, hsuperTypes, haccess⟩ :=
          ih (fun b' hb' => hbefore b' (List.mem_cons_of_mem _ hb')) hfails'
        obtain ⟨hsuperTypes', haccess'⟩ := firstKnowing_cons_of_none hb (before ++ rest)
        exact ⟨e, ⟨b', List.mem_cons_of_mem _ hb', he⟩, hsuperTypes'.trans hsuperTypes,
          fun m => (haccess' m).trans (haccess m)⟩

end Lineage

/-! ## Ancestries of one lineage -/

namespace Renamer

variable {a b : Ancestry}

/-- **A search finds the same in ancestries of one lineage**, although its bound on the depth is
another one. -/
theorem searchFrom_of_toLineage_eq (h : a.toLineage = b.toLineage) (r : Renamer) (m : MemberRef)
    (owner : String) : r.searchFrom a m owner = r.searchFrom b m owner := by
  have hdepth : ∀ (a : Ancestry) (depth : Nat), a.known.length + 1 ≤ depth →
      r.searchFrom a m owner = r.search a m depth [owner] owner := by
    intro a depth hdepth
    have hknown := a.length_knownClasses_le
    exact searchAt_eq_of_hasRoom (hasRoom_firstStage (by omega)) (hasRoom_firstStage (by omega))
  let depth := max a.known.length b.known.length + 1
  calc r.searchFrom a m owner
      = r.search a m depth [owner] owner := hdepth a depth (by omega)
    _ = r.search b m depth [owner] owner := by rw [h]
    _ = r.searchFrom b m owner := (hdepth b depth (by omega)).symm

theorem resolve_of_toLineage_eq (h : a.toLineage = b.toLineage) (r : Renamer) (owner : String)
    (m : MemberRef) :
    (r.withAncestry a).resolve owner m = (r.withAncestry b).resolve owner m := by
  have hinherited :
      (r.withAncestry a).inherited owner m = (r.withAncestry b).inherited owner m := by
    rw [inherited_eq rfl, inherited_eq rfl, searchFrom, searchFrom, search_withAncestry,
      search_withAncestry]
    show r.searchFrom a m owner >>= _ = r.searchFrom b m owner >>= _
    rw [searchFrom_of_toLineage_eq h]
  rw [resolve, resolve, hinherited]
  rfl

end Renamer

/-! ## Programs -/

namespace Program

variable {p h : Program} {ps : List Program} {cs : List DeclaredClass} {c : DeclaredClass}
  {x : String}

/-- The program is made of classes. -/
def Made (p : Program) : Prop :=
  ∃ classes, ofClasses classes = .ok p

/-- The program has, for each name, the class of the first program in the list that has one. -/
def Merges (h : Program) (ps : List Program) : Prop :=
  ∀ name, h.get? name = ps.findSome? fun p => p.get? name

/-- The super types that are recorded are those of the class. -/
theorem Made.superTypes_get? (hp : p.Made) (x : String) :
    p.superTypes.get? x = (p.get? x).map DeclaredClass.superTypes := by
  obtain ⟨cs, hcs⟩ := hp
  refine Option.ext fun superTypes => ?_
  rw [Table.get?_eq_some_iff, (ofClasses_eq_ok_iff.1 hcs).2, List.mem_map, Option.map_eq_some_iff]
  constructor
  · rintro ⟨c, hc, heq⟩
    obtain ⟨rfl, rfl⟩ := Prod.mk.inj heq
    exact ⟨c, (get?_eq_some_iff hcs).2 ⟨hc, rfl⟩, rfl⟩
  · rintro ⟨c, hc, rfl⟩
    obtain ⟨hmem, rfl⟩ := (get?_eq_some_iff hcs).1 hc
    exact ⟨c, hmem, rfl⟩

theorem Made.knows_eq (hp : p.Made) (x : String) :
    p.ancestry.knows x = .ok (p.get? x).isSome := by
  show (Except.ok (p.superTypes.get? x).isSome : Outcome Bool) = _
  rw [hp.superTypes_get? x, Option.isSome_map]

/-- What a program answers is read off its class. -/
theorem Made.ancestry_of_get? (hp : p.Made) (hc : p.get? x = some c) :
    p.ancestry.superTypes x = .ok (some c.superTypes) ∧
      ∀ m, p.ancestry.access x m = .ok (c.access m) := by
  have hclass : p.classes.get? x = some c := hc
  refine ⟨?_, fun m => ?_⟩
  · show Except.ok (p.superTypes.get? x) = _
    rw [hp.superTypes_get? x, hc]
    rfl
  · show Except.ok (p.access x m) = _
    rw [access, hclass]

theorem Made.ancestry_of_none (hp : p.Made) (hnone : p.get? x = none) :
    p.ancestry.superTypes x = .ok none ∧
      ∀ m, p.ancestry.access x m = .ok Access.publicFlag := by
  have hclass : p.classes.get? x = none := hnone
  refine ⟨?_, fun m => ?_⟩
  · show Except.ok (p.superTypes.get? x) = _
    rw [hp.superTypes_get? x, hnone]
    rfl
  · show Except.ok (p.access x m) = _
    rw [access, hclass]

/-- **A list of programs answers as the program that merges them.** -/
theorem Merges.toLineage_eq (hps : ∀ p ∈ ps, p.Made) (hh : h.Made) (hmerges : h.Merges ps) :
    (Ancestry.firstKnowing (ps.map ancestry)).toLineage = h.ancestry.toLineage := by
  have hunknown : ∀ {x} {ps' : List Program}, (∀ p ∈ ps', p.Made) → (∀ p ∈ ps', p.get? x = none) →
      ∀ a ∈ (ps'.map ancestry).map Ancestry.toLineage, a.knows x = .ok false := by
    intro x ps' hmade hnone a ha
    rw [List.map_map] at ha
    obtain ⟨p, hp, rfl⟩ := List.mem_map.1 ha
    refine ((hmade p hp).knows_eq x).trans ?_
    rw [hnone p hp]
    rfl
  have hanswers : ∀ x, (Ancestry.firstKnowing (ps.map ancestry)).superTypes x =
        h.ancestry.superTypes x ∧
      ∀ m, (Ancestry.firstKnowing (ps.map ancestry)).access x m = h.ancestry.access x m := by
    intro x
    rw [Ancestry.firstKnowing]
    cases hfind : ps.findSome? fun p => p.get? x with
    | none =>
      -- no program has the class
      have hnone := List.findSome?_eq_none_iff.1 hfind
      obtain ⟨hsuperTypes, haccess⟩ := Lineage.firstKnowing_of_unknown (hunknown hps hnone)
      obtain ⟨hsuperTypes', haccess'⟩ := hh.ancestry_of_none ((hmerges x).trans hfind)
      exact ⟨hsuperTypes.trans hsuperTypes'.symm, fun m => (haccess m).trans (haccess' m).symm⟩
    | some c =>
      -- the programs before the one that has the class do not know it
      obtain ⟨before, p, rest, rfl, hc, hbefore⟩ := List.findSome?_eq_some_iff.1 hfind
      have hp : p.Made := hps p (List.mem_append_right _ List.mem_cons_self)
      have hknows : p.ancestry.knows x = .ok true := by
        rw [hp.knows_eq x, hc]
        rfl
      have hbefore' := hunknown (fun p hp => hps p (List.mem_append_left _ hp)) hbefore
      obtain ⟨hsuperTypes, haccess⟩ := hp.ancestry_of_get? hc
      obtain ⟨hsuperTypes', haccess'⟩ := hh.ancestry_of_get? ((hmerges x).trans hfind)
      obtain ⟨hfirst, hfirst'⟩ := Lineage.firstKnowing_of_knows hbefore' hknows
        ((rest.map ancestry).map Ancestry.toLineage)
      simp only [List.map_append, List.map_cons]
      exact ⟨hfirst.trans (hsuperTypes.trans hsuperTypes'.symm),
        fun m => (hfirst' m).trans ((haccess m).trans (haccess' m).symm)⟩
  exact Lineage.ext (funext fun x => (hanswers x).1) (funext₂ fun x m => (hanswers x).2 m)

/-- The classes of the first program, and with them those of the others that have names of their
own. -/
def mergedClasses : List Program → List DeclaredClass
  | [] => []
  | p :: ps => p.classes.values ++ (mergedClasses ps).filter fun c => (p.get? c.name).isNone

/-- **Programs can be merged.** -/
theorem exists_merges (hps : ∀ p ∈ ps, p.Made) :
    ∃ h, ofClasses (mergedClasses ps) = .ok h ∧ h.Merges ps := by
  induction ps with
  | nil => exact ⟨empty, rfl, fun _ => rfl⟩
  | cons p ps ih =>
    obtain ⟨cs, hcs⟩ := hps p List.mem_cons_self
    obtain ⟨h, hh, hmerges⟩ := ih fun p hp => hps p (List.mem_cons_of_mem _ hp)
    have hother : ∀ {c}, c ∈ (mergedClasses ps).filter (fun c => (p.get? c.name).isNone) ↔
        c ∈ mergedClasses ps ∧ p.get? c.name = none := by
      intro c
      rw [List.mem_filter, Option.isNone_iff_eq_none]
    have hnodup : ((mergedClasses (p :: ps)).map DeclaredClass.name).Nodup := by
      have hrest := exists_ofClasses_iff.1 ⟨h, hh⟩
      rw [mergedClasses, values_of_ofClasses hcs, List.map_append, List.nodup_append]
      refine ⟨exists_ofClasses_iff.1 ⟨p, hcs⟩, hrest.sublist (List.filter_sublist.map _), ?_⟩
      rintro x hx y hy rfl
      obtain ⟨c, hc, hname⟩ := List.mem_map.1 hx
      obtain ⟨c', hc', rfl⟩ := List.mem_map.1 hy
      exact (get?_eq_none_iff hcs).1 (hother.1 hc').2 c hc hname
    obtain ⟨merged, hmerged⟩ := exists_ofClasses_iff.2 hnodup
    refine ⟨merged, hmerged, fun x => ?_⟩
    rw [mergedClasses, values_of_ofClasses hcs] at hmerged
    rw [List.findSome?_cons, ← hmerges x]
    cases hfirst : p.get? x with
    | some c =>
      obtain ⟨hc, rfl⟩ := (get?_eq_some_iff hcs).1 hfirst
      exact get?_of_mem hmerged (List.mem_append_left _ hc)
    | none =>
      cases hrest : h.get? x with
      | some c =>
        obtain ⟨hc, rfl⟩ := (get?_eq_some_iff hh).1 hrest
        exact get?_of_mem hmerged (List.mem_append_right _ (hother.2 ⟨hc, hfirst⟩))
      | none =>
        refine (get?_eq_none_iff hmerged).2 fun c hc => ?_
        rcases List.mem_append.1 hc with hc | hc
        · exact (get?_eq_none_iff hcs).1 hfirst c hc
        · exact (get?_eq_none_iff hh).1 hrest c (hother.1 hc).1

/-- **One program split over several.**  Where each class goes to one program or to several of them,
the program merges them. -/
theorem merges_of_split {classes : List DeclaredClass} {parts : List (List DeclaredClass)}
    (hp : ofClasses classes = .ok p) (hnodup : ∀ part ∈ parts, part.Nodup)
    (hsplit : ∀ c, c ∈ classes ↔ ∃ part ∈ parts, c ∈ part) :
    ∃ ps, parts.mapM ofClasses = .ok ps ∧ (∀ q ∈ ps, q.Made) ∧ p.Merges ps := by
  have hnames := exists_ofClasses_iff.1 ⟨p, hp⟩
  have hparts : ∀ part ∈ parts, ∃ q, ofClasses part = .ok q := by
    intro part hpart
    refine exists_ofClasses_iff.2 ((hnodup part hpart).map_on fun c hc c' hc' => ?_)
    exact List.inj_on_of_nodup_map hnames ((hsplit c).2 ⟨part, hpart, hc⟩)
      ((hsplit c').2 ⟨part, hpart, hc'⟩)
  obtain ⟨ps, hps⟩ := Outcome.exists_mapM_iff.2 hparts
  have hmade := Outcome.mapM_eq_ok_iff.1 hps
  refine ⟨ps, hps, fun q hq => ?_, fun x => ?_⟩
  · obtain ⟨part, -, hpart⟩ := exists_left_of_forall₂ hmade hq
    exact ⟨part, hpart⟩
  · cases hfind : ps.findSome? fun q => q.get? x with
    | some c =>
      obtain ⟨q, hq, hc⟩ := List.exists_of_findSome?_eq_some hfind
      obtain ⟨part, hpart, hofClasses⟩ := exists_left_of_forall₂ hmade hq
      obtain ⟨hmem, rfl⟩ := (get?_eq_some_iff hofClasses).1 hc
      exact get?_of_mem hp ((hsplit c).2 ⟨part, hpart, hmem⟩)
    | none =>
      refine (get?_eq_none_iff hp).2 fun c hc => ?_
      obtain ⟨part, hpart, hc⟩ := (hsplit c).1 hc
      obtain ⟨q, hq, hofClasses⟩ := exists_right_of_forall₂ hmade hpart
      exact (get?_eq_none_iff hofClasses).1 (List.findSome?_eq_none_iff.1 hfind q hq) c hc

end Program

/-! ## Queries -/

/-- The ancestries answer alike, and so does every renamer that has the one or the other. -/
structure Ancestry.AnswersAs (a b : Ancestry) : Prop where
  superTypes : ∀ c, a.superTypes c = b.superTypes c
  knows : ∀ c, a.knows c = b.knows c
  access : ∀ c m, a.access c m = b.access c m
  resolve : ∀ (r : Renamer) owner m,
    (r.withAncestry a).resolve owner m = (r.withAncestry b).resolve owner m
  member? : ∀ (r : Renamer) owner m,
    (r.withAncestry a).member? owner m = (r.withAncestry b).member? owner m
  member : ∀ (r : Renamer) owner m,
    (r.withAncestry a).member owner m = (r.withAncestry b).member owner m
  memberName : ∀ (r : Renamer) owner m,
    (r.withAncestry a).memberName owner m = (r.withAncestry b).memberName owner m

/-- Ancestries of one lineage answer alike. -/
theorem Ancestry.answersAs_of_toLineage_eq {a b : Ancestry} (h : a.toLineage = b.toLineage) :
    a.AnswersAs b := by
  have hmember? : ∀ (r : Renamer) owner m,
      (r.withAncestry a).member? owner m = (r.withAncestry b).member? owner m := by
    intro r owner m
    rw [Renamer.member?, Renamer.member?, Renamer.resolve_of_toLineage_eq h]
    rfl
  refine ⟨fun c => by rw [h], fun c => by rw [h], fun c m => by rw [h],
    Renamer.resolve_of_toLineage_eq h, hmember?, fun r owner m => ?_, fun r owner m => ?_⟩
  · rw [Renamer.member, Renamer.member, hmember?]
    rfl
  · rw [Renamer.memberName, Renamer.memberName, hmember?]

/-- **A list of programs is like one program.**  A program that has, for each name, the class of the
first program with that name exists and answers as the list does, alone and for a renamer; so it
does not matter over which programs the classes of one are split.  For any lineages, and so for
ancestries, super types and access come from the first one that knows the class, and both fail if
one before it fails. -/
theorem programs_as_one :
    (∀ ps : List Program, (∀ p ∈ ps, p.Made) →
      (∃ h : Program, h.Made ∧ h.Merges ps) ∧
      ∀ h : Program, h.Made → h.Merges ps →
        (Ancestry.firstKnowing (ps.map Program.ancestry)).AnswersAs h.ancestry) ∧
    (∀ (classes : List DeclaredClass) (parts : List (List DeclaredClass)) (p : Program),
      Program.ofClasses classes = .ok p → (∀ part ∈ parts, part.Nodup) →
      (∀ c, c ∈ classes ↔ ∃ part ∈ parts, c ∈ part) →
      ∃ ps, parts.mapM Program.ofClasses = .ok ps ∧
        (Ancestry.firstKnowing (ps.map Program.ancestry)).AnswersAs p.ancestry) ∧
    (∀ as : List Ancestry,
      (Ancestry.firstKnowing as).toLineage = .firstKnowing (as.map Ancestry.toLineage)) ∧
    ∀ (before rest : List Lineage) (c : String),
      (∀ a, (∀ b ∈ before, b.knows c = .ok false) → a.knows c = .ok true →
        (Lineage.firstKnowing (before ++ a :: rest)).superTypes c = a.superTypes c ∧
        ∀ m, (Lineage.firstKnowing (before ++ a :: rest)).access c m = a.access c m) ∧
      ((∀ b ∈ before, b.knows c ≠ .ok true) → (∃ b ∈ before, ∃ e, b.superTypes c = .error e) →
        ∃ e, (∃ b ∈ before, b.superTypes c = .error e) ∧
          (Lineage.firstKnowing (before ++ rest)).superTypes c = .error e ∧
          ∀ m, (Lineage.firstKnowing (before ++ rest)).access c m = .error e) ∧
      ((∀ b ∈ before, b.knows c = .ok false) →
        (Lineage.firstKnowing before).superTypes c = .ok none ∧
        ∀ m, (Lineage.firstKnowing before).access c m = .ok Access.publicFlag) := by
  refine ⟨fun ps hps => ⟨?_, fun h hh hmerges => ?_⟩,
    fun classes parts p hp hnodup hsplit => ?_, fun as => rfl,
    fun before rest c => ⟨fun a hbefore ha => ?_, fun hbefore hfails => ?_,
      Lineage.firstKnowing_of_unknown⟩⟩
  · obtain ⟨h, hh, hmerges⟩ := Program.exists_merges hps
    exact ⟨h, ⟨_, hh⟩, hmerges⟩
  · exact Ancestry.answersAs_of_toLineage_eq (hmerges.toLineage_eq hps hh)
  · obtain ⟨ps, hps, hmade, hmerges⟩ := Program.merges_of_split hp hnodup hsplit
    exact ⟨ps, hps, Ancestry.answersAs_of_toLineage_eq (hmerges.toLineage_eq hmade ⟨classes, hp⟩)⟩
  · exact Lineage.firstKnowing_of_knows hbefore ha rest
  · exact Lineage.firstKnowing_of_fails hbefore hfails rest

/-! ### A class that is declared twice -/

/-- A class `C` that extends `D`. -/
def derivedClass : DeclaredClass := ⟨"C", some "D", [], [], []⟩

/-- Another class `C`, which extends nothing. -/
def plainClass : DeclaredClass := ⟨"C", none, [], [], []⟩

/-- A class `D` that extends `A`. -/
def baseClass : DeclaredClass := ⟨"D", some "A", [], [], []⟩

/-- A lineage that cannot be asked. -/
def Lineage.failing (e : Failure) : Lineage where
  superTypes _ := .error e
  access _ _ := .error e

/-- The first of two programs has one class, and the second one another class of that name and its
super class.  A field that `C` inherits through both of them is found as in the program of the two
classes that count; the same holds if these are split in another way.  A lineage that fails does
no harm after a program that knows the class, and makes both queries fail before it. -/
theorem declaredTwice_as_one : ∃ base p p' h,
    Renamer.ofMappings Renamer.loopMappings = .ok base ∧
    Program.ofClasses [derivedClass] = .ok p ∧
    Program.ofClasses [plainClass, baseClass] = .ok p' ∧
    Program.ofClasses [derivedClass, baseClass] = .ok h ∧ h.Merges [p, p'] ∧
    (base.withAncestry (.firstKnowing [p.ancestry, p'.ancestry])).memberName "C"
      ⟨.field, "f", "I"⟩ = .ok "g" ∧
    (∃ ps, [[baseClass], [derivedClass, baseClass]].mapM Program.ofClasses = .ok ps ∧
      (base.withAncestry (.firstKnowing (ps.map Program.ancestry))).memberName "C"
        ⟨.field, "f", "I"⟩ = .ok "g") ∧
    ∀ e, (Lineage.firstKnowing [p.ancestry, .failing e]).superTypes "C" = .ok (some ["D"]) ∧
      ∃ e', (Lineage.firstKnowing [.failing e, p.ancestry]).superTypes "C" = .error e' ∧
        ∀ m, (Lineage.firstKnowing [.failing e, p.ancestry]).access "C" m = .error e' := by
  obtain ⟨p, hp⟩ : ∃ p, Program.ofClasses [derivedClass] = .ok p :=
    Program.exists_ofClasses_iff.2 (by decide)
  obtain ⟨p', hp'⟩ : ∃ p, Program.ofClasses [plainClass, baseClass] = .ok p :=
    Program.exists_ofClasses_iff.2 (by decide)
  obtain ⟨base, hbase⟩ : ∃ base, Renamer.ofMappings Renamer.loopMappings = .ok base :=
    Outcome.exists_eq_ok (by decide +kernel)
  have hmade : ∀ q ∈ [p, p'], q.Made := by
    intro q hq
    rcases List.mem_pair.1 hq with rfl | rfl
    · exact ⟨_, hp⟩
    · exact ⟨_, hp'⟩
  have hp_C : p.get? "C" = some derivedClass :=
    Program.get?_of_mem (c := derivedClass) hp (by decide)
  have hp_D : p.get? "D" = none := (Program.get?_eq_none_iff hp).2 (by decide)
  have hmade_p : p.Made := ⟨_, hp⟩
  have hknows : p.ancestry.knows "C" = .ok true := by
    rw [hmade_p.knows_eq, hp_C]
    rfl
  obtain ⟨h, hh, hmerges⟩ := Program.exists_merges hmade
  have hclasses : Program.mergedClasses [p, p'] = [derivedClass, baseClass] := by
    simp [Program.mergedClasses, Program.values_of_ofClasses hp, Program.values_of_ofClasses hp',
      plainClass, baseClass, hp_C, hp_D]
  rw [hclasses] at hh
  have hanswer : (Renamer.ofMappings Renamer.loopMappings >>= fun base =>
      Program.ofClasses [derivedClass, baseClass] >>= fun h =>
        (base.withAncestry h.ancestry).memberName "C" ⟨.field, "f", "I"⟩) = .ok "g" := by
    decide +kernel
  rw [hbase, Outcome.ok_bind, hh, Outcome.ok_bind] at hanswer
  obtain ⟨hmerged, hsplit, -, hfirst⟩ := programs_as_one
  obtain ⟨ps, hps, hsame⟩ := hsplit _ [[baseClass], [derivedClass, baseClass]] h hh (by decide)
    (by simp [or_comm])
  have hlist := (hmerged [p, p'] hmade).2 h ⟨_, hh⟩ hmerges
  refine ⟨base, p, p', h, hbase, hp, hp', hh, hmerges, (hlist.memberName base _ _).trans hanswer,
    ⟨ps, hps, (hsame.memberName base _ _).trans hanswer⟩, fun e => ?_⟩
  have hfails : ∀ b ∈ [Lineage.failing e], b.knows "C" ≠ .ok true := by
    intro b hb
    obtain rfl := List.mem_singleton.1 hb
    exact nofun
  obtain ⟨hsuperTypes, -⟩ :=
    (hfirst [] [.failing e] "C").1 p.ancestry (fun _ hb => nomatch hb) hknows
  obtain ⟨e', -, hboth⟩ := (hfirst [.failing e] [p.ancestry] "C").2.1 hfails
    ⟨_, List.mem_singleton.2 rfl, e, rfl⟩
  exact ⟨hsuperTypes.trans (hmade_p.ancestry_of_get? hp_C).1, e', hboth⟩

end SymbolMap
