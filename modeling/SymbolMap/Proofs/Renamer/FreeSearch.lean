import SymbolMap.Proofs.Program.Acyclic
import SymbolMap.Proofs.Renamer.SearchDepth

/-!
# Searches without a path

`Renamer.search` carries the path it has come along, and passes over super types that are on it.
`freeSearch` is the same recursion without a path.  Nothing bounds its depth, so it is run to a
given depth and has no result if it goes deeper; it ends if it has a result from some depth on
(`EndsWith`).  Where it comes back to a class that it passes, it goes round for ever and does not
end (`not_endsWith_of_loop`).

The path is there for loops only.  All classes on it have the class at its end among their super
types (`chain_of_mem_path`), so a super type on the path would close a loop.  In an ancestry
without loops the two recursions therefore go on to the same classes, and since paths are
not longer than there are known classes, the one without a path ends as well
(`freeSearch_eq_searchAt`).

A program that passes `Program.checkAcyclic` is such an ancestry: it extends all super types that a
search looks at.
-/

namespace SymbolMap

/-- The results of a run through a list are the results for its elements, in order. -/
theorem mapM_eq_some_iff {α β : Type} {f : α → Option β} {xs : List α} {ys : List β} :
    xs.mapM f = some ys ↔ List.Forall₂ (fun x y => f x = some y) xs ys := by
  induction xs generalizing ys with
  | nil =>
    rw [List.mapM_nil, List.forall₂_nil_left_iff]
    exact ⟨fun h => (Option.some.inj h).symm, fun h => h ▸ rfl⟩
  | cons x xs ih =>
    simp only [List.mapM_cons, bind, Option.bind_eq_some_iff, List.forall₂_cons_left_iff, ih]
    constructor
    · rintro ⟨y, hy, ys', hys, h⟩
      exact ⟨y, ys', hy, hys, (Option.some.inj h).symm⟩
    · rintro ⟨y, ys', hy, hys, rfl⟩
      exact ⟨y, hy, ys', hys, rfl⟩

namespace Renamer

open Relation

/-- The candidates among the super types of a class, unless the search for them goes deeper than the
given number.  All super types are searched before what they give is merged, also when one of them
fails. -/
def freeSearch (r : Renamer) (a : Lineage) (m : MemberRef) :
    Nat → String → Option (Outcome Candidates)
  | 0, _ => none
  | depth + 1, c =>
    match a.superTypes c with
    | .error e => some (.error e)
    | .ok none => some (.ok .empty)
    | .ok (some superTypes) => do
      let parts ← (superTypes.filter fun s => !Name.isPlatform s).mapM fun s =>
        match r.lookup s m with
        | .error e => some (.error e)
        | .ok (some entry) => some (r.candidate a m s entry)
        | .ok none => r.freeSearch a m depth s
      return parts.foldlM (fun found part => do return found.merge (← part)) .empty

/-- What a super type contributes to a search without a path. -/
def freePart (r : Renamer) (a : Lineage) (m : MemberRef) (depth : Nat) (s : String) :
    Option (Outcome Candidates) :=
  match r.lookup s m with
  | .error e => some (.error e)
  | .ok (some entry) => some (r.candidate a m s entry)
  | .ok none => r.freeSearch a m depth s

/-- The search without a path ends at the class with the result: it has no other at any depth from
some depth on. -/
def EndsWith (r : Renamer) (a : Lineage) (m : MemberRef) (c : String)
    (found : Outcome Candidates) : Prop :=
  ∃ depth, ∀ depth', depth ≤ depth' → r.freeSearch a m depth' c = some found

/-- A search passes from the first class to the second: that is a super type which does not map the
member. -/
def Passes (r : Renamer) (a : Lineage) (m : MemberRef) (c s : String) : Prop :=
  a.SuperType c s ∧ r.lookup s m = .ok none

variable {r : Renamer} {a : Lineage} {m : MemberRef} {owner c s : String} {depth depth' : Nat}
  {stage : Stage} {found part : Outcome Candidates}

theorem freeSearch_of_superTypes {superTypes : List String}
    (h : a.superTypes c = .ok (some superTypes)) :
    r.freeSearch a m (depth + 1) c = (do
      let parts ← (superTypes.filter fun s => !Name.isPlatform s).mapM (r.freePart a m depth)
      return parts.foldlM (fun found part => do return found.merge (← part)) .empty) := by
  rw [freeSearch, h]
  rfl

theorem freePart_mono
    (h : ∀ found, r.freeSearch a m depth s = some found → r.freeSearch a m depth' s = some found)
    (hpart : r.freePart a m depth s = some part) : r.freePart a m depth' s = some part := by
  rw [freePart] at hpart ⊢
  cases hlookup : r.lookup s m with
  | error e => rwa [hlookup] at hpart
  | ok entry =>
    rw [hlookup] at hpart
    cases entry with
    | some entry => exact hpart
    | none => exact h part hpart

/-- A result that is there at some depth is there at every greater one. -/
theorem freeSearch_mono (hle : depth ≤ depth')
    (h : r.freeSearch a m depth c = some found) : r.freeSearch a m depth' c = some found := by
  induction depth generalizing depth' c found with
  | zero => cases h
  | succ depth ih =>
    obtain ⟨depth', rfl⟩ : ∃ n, depth' = n + 1 := ⟨depth' - 1, by omega⟩
    cases hsupers : a.superTypes c with
    | error e =>
      rw [freeSearch, hsupers] at h ⊢
      exact h
    | ok superTypes =>
      cases superTypes with
      | none =>
        rw [freeSearch, hsupers] at h ⊢
        exact h
      | some superTypes =>
        rw [freeSearch_of_superTypes hsupers] at h ⊢
        obtain ⟨parts, hparts, hfound⟩ := Option.bind_eq_some_iff.1 h
        have hparts' : (superTypes.filter fun s => !Name.isPlatform s).mapM
            (r.freePart a m depth') = some parts := by
          refine mapM_eq_some_iff.2 ((mapM_eq_some_iff.1 hparts).imp fun s part => ?_)
          exact freePart_mono fun found => ih (by omega)
        exact Option.bind_eq_some_iff.2 ⟨parts, hparts', hfound⟩

theorem endsWith_of_freeSearch (h : r.freeSearch a m depth c = some found) :
    r.EndsWith a m c found :=
  ⟨depth, fun _ hle => freeSearch_mono hle h⟩

/-! ## Loops -/

/-- A search that ends within a depth has ended within less at the classes it passes to. -/
theorem exists_freeSearch_of_passes
    (h : r.freeSearch a m (depth + 1) c = some found) (hpasses : r.Passes a m c s) :
    ∃ part, r.freeSearch a m depth s = some part := by
  obtain ⟨⟨superTypes, hsupers, hs, hplatform⟩, hlookup⟩ := hpasses
  rw [freeSearch_of_superTypes hsupers] at h
  obtain ⟨parts, hparts, -⟩ := Option.bind_eq_some_iff.1 h
  have hmem : s ∈ superTypes.filter fun s => !Name.isPlatform s := by
    simp [hs, hplatform]
  obtain ⟨part, -, hpart⟩ := exists_right_of_forall₂ (mapM_eq_some_iff.1 hparts) hmem
  rw [freePart, hlookup] at hpart
  exact ⟨part, hpart⟩

theorem freeSearch_eq_none_of_loop (h : TransGen (r.Passes a m) c c) (depth : Nat) :
    r.freeSearch a m depth c = none := by
  induction depth generalizing c with
  | zero => rfl
  | succ depth ih =>
    obtain ⟨s, hpasses, hback⟩ := TransGen.head'_iff.1 h
    cases hfound : r.freeSearch a m (depth + 1) c with
    | none => rfl
    | some found =>
      -- the next class is on the loop as well
      obtain ⟨part, hpart⟩ := exists_freeSearch_of_passes hfound hpasses
      rw [ih (TransGen.tail' hback hpasses)] at hpart
      cases hpart

/-- **On a loop the search without a path does not end.** -/
theorem not_endsWith_of_loop (h : TransGen (r.Passes a m) c c) (found : Outcome Candidates) :
    ¬ r.EndsWith a m c found := by
  rintro ⟨depth, hends⟩
  have hnone := freeSearch_eq_none_of_loop h depth
  rw [hends depth (Nat.le_refl _)] at hnone
  cases hnone

/-! ## Paths without loops -/

/-- Every class on the path of a stage leads up to the class of the stage. -/
theorem chain_of_mem_path (h : r.Reaches a m (firstStage owner) stage) {x : String}
    (hx : x ∈ stage.1) : ReflTransGen a.SuperType x stage.2 := by
  induction h with
  | refl =>
    obtain rfl : x = owner := List.mem_singleton.1 hx
    exact .refl
  | tail _ hgoes ih =>
    obtain @⟨path, c, s, hsuper, -, -⟩ := hgoes
    rcases List.mem_append.1 hx with hx | hx
    · exact (ih hx).tail hsuper
    · obtain rfl : x = s := List.mem_singleton.1 hx
      exact .refl

/-- Without loops no super type of a stage is on its path. -/
theorem not_mem_path (hacyclic : ∀ c, ¬ TransGen a.SuperType c c)
    (h : r.Reaches a m (firstStage owner) stage) (hsuper : a.SuperType stage.2 s) :
    s ∉ stage.1 := by
  intro hmem
  exact hacyclic s (TransGen.tail' (chain_of_mem_path h hmem) hsuper)

/-- Where no super type is on the path, the path takes nothing away. -/
theorem openSuperTypes_eq_filter {path superTypes : List String}
    (h : ∀ s ∈ superTypes, Name.isPlatform s = false → s ∉ path) :
    openSuperTypes path superTypes = superTypes.filter fun s => !Name.isPlatform s := by
  refine List.filter_congr fun s hs => ?_
  cases hplatform : Name.isPlatform s with
  | true => rfl
  | false => simp [h s hs hplatform]

/-- A super type contributes the same with a path and without, if the classes beyond it do. -/
theorem freePart_eq_contribution {next : Stage → Outcome Candidates} {path : List String}
    (h : r.lookup s m = .ok none → r.freeSearch a m depth s = some (next (path ++ [s], s))) :
    r.freePart a m depth s = some (r.contribution a m next path s) := by
  rw [freePart, contribution]
  cases hlookup : r.lookup s m with
  | error e => rfl
  | ok entry =>
    cases entry with
    | some entry => rfl
    | none => exact h hlookup

/-- **Without loops the path makes no difference**: the search without one ends, with the result of
a search that has depth enough. -/
theorem freeSearch_eq_searchAt (hacyclic : ∀ c, ¬ TransGen a.SuperType c c)
    (hreach : r.Reaches a m (firstStage owner) stage) (hroom : HasRoom r a m depth stage) :
    r.freeSearch a m depth stage.2 = some (r.searchAt a m depth stage) := by
  induction depth generalizing stage with
  | zero => exact hroom.not_zero.elim
  | succ depth ih =>
    rw [searchAt_succ, ascend]
    cases hsupers : a.superTypes stage.2 with
    | error e => rw [freeSearch, hsupers]
    | ok superTypes =>
      cases superTypes with
      | none => rw [freeSearch, hsupers]
      | some superTypes =>
        have hnew : ∀ s ∈ superTypes, Name.isPlatform s = false → s ∉ stage.1 :=
          fun s hs hplatform => not_mem_path hacyclic hreach ⟨superTypes, hsupers, hs, hplatform⟩
        have hparts : List.Forall₂ (fun s part => r.freePart a m depth s = some part)
            (openSuperTypes stage.1 superTypes) ((openSuperTypes stage.1 superTypes).map
              (r.contribution a m (r.searchAt a m depth) stage.1)) := by
          rw [List.forall₂_map_right_iff, List.forall₂_same]
          intro s hs
          obtain ⟨hmem, hplatform, hon⟩ := mem_openSuperTypes.1 hs
          refine freePart_eq_contribution fun hlookup => ?_
          have hgoes := Goes.up ⟨superTypes, hsupers, hmem, hplatform⟩ hon hlookup
          exact ih (hreach.tail hgoes) (hroom.goes hgoes)
        rw [freeSearch_of_superTypes hsupers, ← openSuperTypes_eq_filter hnew,
          mapM_eq_some_iff.2 hparts]
        exact congrArg some List.foldlM_map

end Renamer

/-! ## Programs -/

theorem Program.extends_of_superType {p : Program} {c s : String} (h : p.ancestry.SuperType c s) :
    p.Extends c s := by
  obtain ⟨superTypes, hsupers, hs, -⟩ := h
  exact extends_iff_get?.2 ⟨superTypes, Except.ok.inj hsupers, hs⟩

theorem Program.no_loop_of_checkAcyclic {p : Program} (h : p.checkAcyclic = .ok ()) (c : String) :
    ¬ Relation.TransGen p.ancestry.SuperType c c := by
  intro hloop
  exact checkAcyclic_eq_ok_iff_no_loop.1 h
    ⟨c, hloop.lift id fun _ _ => extends_of_superType⟩

namespace Renamer

/-- **In a checked program a search needs no path.**  Whatever member is searched for from whatever
owner, declared or not: no super type of a class that the search comes to is on the path to it, and
the recursion without a path ends there with the result of the search.  So it does at the owner, and
what is inherited is picked from that result. -/
theorem search_needs_no_path (p : Program) (h : p.checkAcyclic = .ok ()) (r : Renamer)
    (m : MemberRef) (owner : String) :
    (∀ stage, r.Reaches p.ancestry m (firstStage owner) stage →
      (∀ s, p.ancestry.SuperType stage.2 s → s ∉ stage.1) ∧
      r.EndsWith p.ancestry m stage.2
        (r.search p.ancestry m (p.ancestry.known.length + 1) stage.1 stage.2)) ∧
    ∃ found, r.EndsWith p.ancestry m owner found ∧
      r.search p.ancestry m (p.ancestry.known.length + 1) [owner] owner = found ∧
      (r.withAncestry p.ancestry).inherited owner m =
        found >>= Candidates.pick owner m.name m.desc := by
  have hacyclic := Program.no_loop_of_checkAcyclic h
  have hstage : ∀ stage, r.Reaches p.ancestry m (firstStage owner) stage →
      r.EndsWith p.ancestry m stage.2
        (r.search p.ancestry m (p.ancestry.known.length + 1) stage.1 stage.2) := by
    intro stage hreach
    have hknown := p.ancestry.length_knownClasses_le
    have hpos : 0 < stage.1.length :=
      List.length_pos_of_mem (List.mem_of_getLast? (sound_of_reaches hreach).last)
    have hroom : HasRoom r p.ancestry m (p.ancestry.known.length + 1) stage :=
      hasRoom_of_reaches hreach (by omega)
    exact endsWith_of_freeSearch (freeSearch_eq_searchAt hacyclic hreach hroom)
  refine ⟨fun stage hreach => ⟨fun s hs => not_mem_path hacyclic hreach hs, hstage stage hreach⟩,
    _, hstage _ .refl, rfl, ?_⟩
  rw [inherited_eq rfl, searchFrom, search_withAncestry]
  rfl

/-! ### Two ways up to one class -/

/-- A class that comes to `A` through its super class and through an interface.  The interface
extends `B` as well, which declares a private field. -/
def twoWaysUp : List DeclaredClass :=
  [⟨"C", some "D", ["E"], [], []⟩, ⟨"D", some "java/lang/Object", ["A"], [], []⟩,
    ⟨"E", none, ["A", "B"], [], []⟩, ⟨"B", none, [], [⟨Access.privateFlag, "f", "I"⟩], []⟩]

/-- Two classes that extend each other. -/
def twoInCircle : List DeclaredClass :=
  [⟨"C", some "D", ["A"], [], []⟩, ⟨"D", some "C", [], [], []⟩]

/-- The search without a path finds the field of `A` where there is no loop, and does not end on
one. -/
theorem twoWaysUp_needs_no_path : ∃ base, ofMappings loopMappings = .ok base ∧
    (∃ p, Program.ofClasses twoWaysUp = .ok p ∧ p.checkAcyclic = .ok () ∧
      base.EndsWith p.ancestry ⟨.field, "f", "I"⟩ "C"
        (.ok (.single .inheritable ⟨⟨"g", some "I"⟩, "A"⟩)) ∧
      (base.withAncestry p.ancestry).inherited "C" ⟨.field, "f", "I"⟩ =
        .ok (some ⟨"g", some "I"⟩)) ∧
    ∃ p, Program.ofClasses twoInCircle = .ok p ∧ p.checkAcyclic ≠ .ok () ∧
      ∀ found, ¬ base.EndsWith p.ancestry ⟨.field, "f", "I"⟩ "C" found := by
  obtain ⟨base, hbase⟩ : ∃ base, ofMappings loopMappings = .ok base :=
    Outcome.exists_eq_ok (by decide +kernel)
  refine ⟨base, hbase, ?_, ?_⟩
  · obtain ⟨p, hp⟩ : ∃ p, Program.ofClasses twoWaysUp = .ok p :=
      Program.exists_ofClasses_iff.2 (by decide)
    have hcheck : (Program.ofClasses twoWaysUp >>= Program.checkAcyclic) = .ok () := by
      decide +kernel
    have hsearch : (ofMappings loopMappings >>= fun base => Program.ofClasses twoWaysUp >>=
        fun p => base.search p.ancestry ⟨.field, "f", "I"⟩ (p.ancestry.known.length + 1) ["C"] "C")
        = .ok (.single .inheritable ⟨⟨"g", some "I"⟩, "A"⟩) := by
      decide +kernel
    rw [hp, Outcome.ok_bind] at hcheck
    rw [hbase, hp, Outcome.ok_bind, Outcome.ok_bind] at hsearch
    obtain ⟨-, found, hends, hfound, hinherited⟩ :=
      search_needs_no_path p hcheck base ⟨.field, "f", "I"⟩ "C"
    obtain rfl := hfound.symm.trans hsearch
    exact ⟨p, hp, hcheck, hends, hinherited⟩
  · obtain ⟨p, hp⟩ : ∃ p, Program.ofClasses twoInCircle = .ok p :=
      Program.exists_ofClasses_iff.2 (by decide)
    have hcheck : (Program.ofClasses twoInCircle >>= Program.checkAcyclic) ≠ .ok () := by
      decide +kernel
    have hlookup : ∀ s ∈ ["C", "D"], (ofMappings loopMappings >>= fun base =>
        base.lookup s ⟨.field, "f", "I"⟩) = .ok none := by
      decide +kernel
    rw [hp, Outcome.ok_bind] at hcheck
    simp only [hbase, Outcome.ok_bind] at hlookup
    have hup : base.Passes p.ancestry ⟨.field, "f", "I"⟩ "C" "D" :=
      ⟨(Program.superType_iff hp).2 (by decide), hlookup "D" (by decide)⟩
    have hback : base.Passes p.ancestry ⟨.field, "f", "I"⟩ "D" "C" :=
      ⟨(Program.superType_iff hp).2 (by decide), hlookup "C" (by decide)⟩
    exact ⟨p, hp, hcheck, not_endsWith_of_loop (.tail (.single hup) hback)⟩

end Renamer

end SymbolMap
