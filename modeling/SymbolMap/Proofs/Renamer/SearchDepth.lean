import SymbolMap.Program.Basic
import SymbolMap.Proofs.Renamer.SuperTypeOrder

/-!
# The depth of a search

A search keeps no record of the classes it has seen; only the path to the class it stands at ends
it.  So the ancestry may have loops of any kind, and it is the paths that have to be counted: a path
leads from the owner to the class at its end without a repetition, and all classes before the last
are known, so there are at most as many of them as known classes.

`Renamer.search` is given a bound on its depth and stops there without a word.  The recursion itself
has no bound: what is found at a stage is put together from what is found at the stages it goes on
to (`ascend`).  The bound is harmless if it is never met, which is said in three ways:

* a greater depth changes nothing (`searchAt_eq_of_hasRoom`);
* the bounded search satisfies the recursion without a bound, at every stage that is reached
  (`searchAt_eq_ascend`);
* whatever satisfies that recursion at these stages finds the same (`eq_searchAt_of_ascend`), so the
  recursion ends by itself, and has no other result than that of the bounded search.
-/

namespace SymbolMap.Renamer

variable (r : Renamer) (a : Lineage) (m : MemberRef)

/-- What a super type contributes, if `next` tells what is found at a stage that the search goes on
to. -/
def contribution (next : Stage → Outcome Candidates) (path : List String) (s : String) :
    Outcome Candidates :=
  match r.lookup s m with
  | .error e => .error e
  | .ok (some entry) => r.candidate a m s entry
  | .ok none => next (path ++ [s], s)

/-- What a search finds at a stage, if `next` tells what is found at those that it goes on to. -/
def ascend (next : Stage → Outcome Candidates) (stage : Stage) : Outcome Candidates :=
  match a.superTypes stage.2 with
  | .error e => .error e
  | .ok none => .ok .empty
  | .ok (some superTypes) =>
    (openSuperTypes stage.1 superTypes).foldlM (fun found s => do
      return found.merge (← r.contribution a m next stage.1 s)) .empty

/-- What a search with a bound on its depth finds at a stage. -/
def searchAt (depth : Nat) (stage : Stage) : Outcome Candidates :=
  r.search a m depth stage.1 stage.2

variable {r a m} {owner : String} {depth depth' : Nat} {stage : Stage}
  {next next' : Stage → Outcome Candidates}

/-- One step of the search spends one unit of depth. -/
theorem searchAt_succ :
    r.searchAt a m (depth + 1) stage = r.ascend a m (r.searchAt a m depth) stage := by
  rw [searchAt, ascend]
  cases hsupers : a.superTypes stage.2 with
  | error e => rw [search, hsupers]
  | ok superTypes =>
    cases superTypes with
    | none => rw [search, hsupers]
    | some superTypes =>
      rw [search_succ hsupers]
      rfl

/-- A step asks only for the stages that the search goes on to. -/
theorem ascend_congr (h : ∀ stage', r.Goes a m stage stage' → next stage' = next' stage') :
    r.ascend a m next stage = r.ascend a m next' stage := by
  rw [ascend, ascend]
  split
  · rfl
  · rfl
  · rename_i superTypes hsupers
    refine Candidates.foldlM_merge_congr fun s hs => ?_
    obtain ⟨hmem, hplatform, hnew⟩ := mem_openSuperTypes.1 hs
    rw [contribution, contribution]
    split
    · rfl
    · rfl
    · rename_i hlookup
      exact h _ (.up ⟨superTypes, hsupers, hmem, hplatform⟩ hnew hlookup)

/-- **Any two depths that are enough give the same result.** -/
theorem searchAt_eq_of_hasRoom (h : HasRoom r a m depth stage) (h' : HasRoom r a m depth' stage) :
    r.searchAt a m depth stage = r.searchAt a m depth' stage := by
  induction depth generalizing depth' stage with
  | zero => exact h.not_zero.elim
  | succ depth ih =>
    cases depth' with
    | zero => exact h'.not_zero.elim
    | succ depth' =>
      rw [searchAt_succ, searchAt_succ]
      exact ascend_congr fun stage' hgoes => ih (h.goes hgoes) (h'.goes hgoes)

/-- In an ancestry, a search that has come along a path from an owner and has the depth to go on
satisfies the recursion without a bound. -/
theorem searchAt_eq_ascend {a : Ancestry} (hreach : r.Reaches a m (firstStage owner) stage)
    (hdepth : a.knownClasses.length + 1 ≤ depth) :
    r.searchAt a m depth stage = r.ascend a m (r.searchAt a m depth) stage := by
  obtain ⟨depth, rfl⟩ : ∃ n, depth = n + 1 := ⟨depth - 1, by omega⟩
  rw [searchAt_succ]
  refine ascend_congr fun stage' hgoes => ?_
  have hreach' := hreach.tail hgoes
  -- the path has the owner and the class that the search goes on to
  have hlength : 2 ≤ stage'.1.length := by
    have hpos : 0 < stage.1.length := List.length_pos_of_mem
      (List.mem_of_getLast? (sound_of_reaches hreach).last)
    obtain @⟨path, c, s, -, -, -⟩ := hgoes
    simp only [List.length_append, List.length_cons, List.length_nil] at hpos ⊢
    omega
  exact searchAt_eq_of_hasRoom (hasRoom_of_reaches hreach' (by omega))
    (hasRoom_of_reaches hreach' (by omega))

/-- **The recursion without a bound has one result**, that of a search with enough depth. -/
theorem eq_searchAt_of_ascend (hroom : HasRoom r a m depth stage)
    (h : ∀ stage', r.Reaches a m stage stage' → next stage' = r.ascend a m next stage') :
    next stage = r.searchAt a m depth stage := by
  induction depth generalizing stage with
  | zero => exact hroom.not_zero.elim
  | succ depth ih =>
    rw [h stage .refl, searchAt_succ]
    refine ascend_congr fun stage' hgoes => ?_
    exact ih (hroom.goes hgoes) fun last hreach => h last (.head hgoes hreach)

/-- **A search ends.**  Whatever loops the ancestry has, every path that a search for a member of
`owner` follows is without repetition, leads from `owner` to the class that is searched, and has at
most one class more than the ancestry knows.  Hence with a depth of one more than the known classes
the search gives what every greater depth gives and what an inherited member is picked from; it
satisfies the recursion without a bound, and is the only result of that recursion. -/
theorem search_ends (r : Renamer) (a : Ancestry) (m : MemberRef) (owner : String) :
    (∀ stage, r.Reaches a m (firstStage owner) stage →
      stage.1.Nodup ∧ stage.1.head? = some owner ∧ stage.1.getLast? = some stage.2 ∧
        stage.1.length ≤ a.knownClasses.length + 1) ∧
    (∀ depth, a.knownClasses.length + 1 ≤ depth →
      r.search a m depth [owner] owner =
        r.search a m (a.knownClasses.length + 1) [owner] owner ∧
      (r.withAncestry a).inherited owner m =
        r.search a m depth [owner] owner >>= Candidates.pick owner m.name m.desc ∧
      ∀ stage, r.Reaches a m (firstStage owner) stage →
        r.searchAt a m depth stage = r.ascend a m (r.searchAt a m depth) stage) ∧
    ∀ found : Stage → Outcome Candidates,
      (∀ stage, r.Reaches a m (firstStage owner) stage →
        found stage = r.ascend a m found stage) →
      found (firstStage owner) = r.search a m (a.knownClasses.length + 1) [owner] owner := by
  have hdepths : ∀ {depth depth'}, a.knownClasses.length + 1 ≤ depth →
      a.knownClasses.length + 1 ≤ depth' →
      r.search a m depth [owner] owner = r.search a m depth' [owner] owner := by
    intro depth depth' hdepth hdepth'
    exact searchAt_eq_of_hasRoom (hasRoom_firstStage hdepth) (hasRoom_firstStage hdepth')
  refine ⟨fun stage hreach => ?_, fun depth hdepth => ⟨?_, ?_, fun stage hreach => ?_⟩,
    fun found hfound => ?_⟩
  · have hsound := sound_of_reaches hreach
    exact ⟨hsound.nodup, hsound.head, hsound.last, length_le_of_reaches hreach⟩
  · exact hdepths hdepth (Nat.le_refl _)
  · have hknown := a.length_knownClasses_le
    rw [inherited_eq rfl, searchFrom, search_withAncestry, hdepths (by omega) hdepth]
  · exact searchAt_eq_ascend hreach hdepth
  · exact eq_searchAt_of_ascend (hasRoom_firstStage (Nat.le_refl _)) hfound

/-! ### Two programs that share a class -/

/-- Two classes that extend each other, each with an interface that is not declared, and a second
program with another declaration of one of them. -/
def sharedClassPrograms : List (List DeclaredClass) :=
  [[⟨"C", some "D", ["A"], [], []⟩, ⟨"D", some "C", ["B"], [], []⟩],
    [⟨"C", some "java/lang/Object", [], [], []⟩]]

/-- The programs know two classes together, although they list three, and every search in them has
ended at a depth of three. -/
theorem sharedClass_search_ends : ∃ base programs, ofMappings loopMappings = .ok base ∧
    sharedClassPrograms.mapM Program.ofClasses = .ok programs ∧
    ∃ a, Ancestry.firstKnowing (programs.map Program.ancestry) = a ∧ a.known.length = 3 ∧
      a.knownClasses.length = 2 ∧
      (∃ path, base.Reaches a ⟨.field, "f", "I"⟩ (firstStage "C") (path, "D") ∧
        path.Nodup ∧ path.length ≤ 3) ∧
      ∀ depth, 3 ≤ depth → base.search a ⟨.field, "f", "I"⟩ depth ["C"] "C" =
        base.search a ⟨.field, "f", "I"⟩ 3 ["C"] "C" := by
  have built : ofMappings loopMappings = .ok _ := rfl
  have hprograms : sharedClassPrograms.mapM Program.ofClasses = .ok _ := rfl
  refine ⟨_, _, built, hprograms, _, rfl, by decide +kernel, ?_⟩
  generalize hr : Renamer.mk _ _ _ _ _ = r
  generalize ha : Ancestry.firstKnowing _ = a
  have hknown : a.knownClasses.length = 2 := by
    rw [← ha]
    decide +kernel
  have hgoes : r.Goes a ⟨.field, "f", "I"⟩ (firstStage "C") (["C", "D"], "D") := by
    refine .up ⟨["D", "A"], ?_, by decide, by decide⟩ (by decide) ?_
    · rw [← ha]
      rfl
    · rw [← hr]
      decide
  obtain ⟨hpaths, hdepths, -⟩ := search_ends r a ⟨.field, "f", "I"⟩ "C"
  rw [hknown] at hpaths hdepths
  have hreach : r.Reaches a ⟨.field, "f", "I"⟩ (firstStage "C") (["C", "D"], "D") := .single hgoes
  obtain ⟨hnodup, -, -, hlength⟩ := hpaths _ hreach
  exact ⟨hknown, ⟨_, hreach, hnodup, hlength⟩, fun depth hdepth => (hdepths depth hdepth).1⟩

end SymbolMap.Renamer
