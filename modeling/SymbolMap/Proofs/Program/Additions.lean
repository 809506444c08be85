import SymbolMap.Proofs.Program.Renamed
import SymbolMap.Proofs.Renamer.MemberTables

/-!
# Programs under additions that may fail

A program is filled by one addition after the other, and an addition that fails need not end this:
the program can be used and added to as before.  So we look at additions as calls that change the
program they are made on (`addInPlace`), step by step, the super types before the class.  Since the
name is checked before the first step, a call that fails has changed nothing, and `Program.add`
tells the whole result (`run_addInPlace`).

`leftBy` is the program that any list of calls leaves, starting without classes.  Both of its tables
list each name once, in the order of the first calls with it, with the class of that call and its
super types (`Holds`).  One call keeps this (`Holds.call`), and so does every list of them.

The super types of a class are described without the way they are computed (`Records`): what is
there, and that it is in the order of first mention.
-/

namespace SymbolMap

/-! ## Lists without repetitions -/

section

variable {α : Type} [DecidableEq α]

/-- An element at the end stays exactly if it is new. -/
theorem distinct_concat (xs : List α) (x : α) :
    distinct (xs ++ [x]) = if x ∈ xs then distinct xs else distinct xs ++ [x] := by
  induction xs with
  | nil => rfl
  | cons y ys ih =>
    rw [List.cons_append, distinct, ih, distinct]
    by_cases hxy : x = y
    · -- at the end it repeats the first element, and is dropped with its other repetitions
      subst hxy
      rw [if_pos List.mem_cons_self]
      split
      · rfl
      · simp
    · by_cases hys : x ∈ ys
      · rw [if_pos hys, if_pos (List.mem_cons_of_mem y hys)]
      · simp [hys, hxy]

/-- What is left is in the order of first occurrence. -/
theorem pairwise_distinct (xs : List α) :
    (distinct xs).Pairwise fun x y => xs.idxOf x < xs.idxOf y := by
  induction xs with
  | nil => exact List.Pairwise.nil
  | cons z zs ih =>
    have hne : ∀ {x}, x ∈ (distinct zs).filter (· ≠ z) → z ≠ x := by
      intro x hx
      exact Ne.symm (of_decide_eq_true (List.mem_filter.1 hx).2)
    rw [distinct, List.pairwise_cons]
    refine ⟨fun x hx => ?_, (ih.filter _).imp_of_mem fun {x y} hx hy hxy => ?_⟩
    · rw [List.idxOf_cons_self, List.idxOf_cons_ne zs (hne hx)]
      exact Nat.succ_pos _
    · rw [List.idxOf_cons_ne zs (hne hx), List.idxOf_cons_ne zs (hne hy)]
      exact Nat.succ_lt_succ hxy

end

/-! ## Recorded super types -/

namespace DeclaredClass

variable {c : DeclaredClass} {superTypes : List String}

/-- The list has the parents that are not of the platform, each once and in the order in which they
are first declared. -/
structure Records (c : DeclaredClass) (superTypes : List String) : Prop where
  mem_iff : ∀ s, s ∈ superTypes ↔ s ∈ c.parents ∧ Name.isPlatform s = false
  ordered : superTypes.Pairwise fun s s' => c.parents.idxOf s < c.parents.idxOf s'

theorem records_superTypes (c : DeclaredClass) : c.Records c.superTypes where
  mem_iff s := by
    rw [superTypes, mem_distinct, List.mem_filter, Bool.not_eq_true', parents]
  ordered := by
    have hfilter : c.superTypes = (distinct c.parents).filter fun s => !Name.isPlatform s :=
      (filter_distinct _ _).symm
    rw [hfilter]
    exact (pairwise_distinct c.parents).filter _

theorem Records.nodup (h : c.Records superTypes) : superTypes.Nodup := by
  refine h.ordered.imp ?_
  rintro s s' hlt rfl
  exact Nat.lt_irrefl _ hlt

/-- No other list is described. -/
theorem records_iff : c.Records superTypes ↔ superTypes = c.superTypes := by
  constructor
  · intro h
    have hc := c.records_superTypes
    have hperm : superTypes.Perm c.superTypes :=
      (List.perm_ext_iff_of_nodup h.nodup hc.nodup).2 fun s =>
        (h.mem_iff s).trans (hc.mem_iff s).symm
    refine hperm.eq_of_pairwise (fun s s' _ _ hlt hgt => ?_) h.ordered hc.ordered
    exact absurd hgt (Nat.lt_asymm hlt)
  · rintro rfl
    exact c.records_superTypes

end DeclaredClass

/-! ## Calls -/

namespace Program

variable {p p' : Program} {c : DeclaredClass} {cs : List DeclaredClass}

/-- Adds a class to the program at hand: the super types are computed, the name is checked, and the
two tables are changed one after the other. -/
def addInPlace (c : DeclaredClass) : EStateM Failure Program Unit := do
  let superTypes := c.superTypes
  if c.name ∈ (← get).classes.keys then
    throw (.of (.duplicate .declaredClass c.name))
  modify fun p => { p with superTypes := p.superTypes.insert c.name superTypes }
  modify fun p => { p with classes := p.classes.insert c.name c }

theorem run_addInPlace_of_mem (h : c.name ∈ p.classes.keys) :
    (addInPlace c).run p = .error (.of (.duplicate .declaredClass c.name)) p := by
  simp [addInPlace, h]

theorem run_addInPlace_of_not_mem (h : c.name ∉ p.classes.keys) :
    (addInPlace c).run p =
      .ok () ⟨p.classes.insert c.name c, p.superTypes.insert c.name c.superTypes⟩ := by
  simp [addInPlace, h]

/-- **A call does what `add` says, and changes nothing if it fails.** -/
theorem run_addInPlace (p : Program) (c : DeclaredClass) :
    (addInPlace c).run p =
      match p.add c with
      | .ok p' => .ok () p'
      | .error f => .error f p := by
  by_cases h : c.name ∈ p.classes.keys
  · rw [run_addInPlace_of_mem h, add, Table.add?_eq_none_iff.2 h]
    rfl
  · rw [run_addInPlace_of_not_mem h, add, Table.add?_eq_some_iff.2 ⟨h, rfl⟩, Table.insert,
      dif_neg h]

/-- The program that a call leaves, whether it fails or not. -/
def call (p : Program) (c : DeclaredClass) : Program :=
  match (addInPlace c).run p with
  | .ok () p' => p'
  | .error _ p' => p'

/-- The program that a list of calls leaves. -/
def leftBy (cs : List DeclaredClass) : Program :=
  cs.foldl call empty

theorem call_of_mem (h : c.name ∈ p.classes.keys) : p.call c = p := by
  rw [call, run_addInPlace_of_mem h]

theorem call_of_not_mem (h : c.name ∉ p.classes.keys) :
    p.call c = ⟨p.classes.insert c.name c, p.superTypes.insert c.name c.superTypes⟩ := by
  rw [call, run_addInPlace_of_not_mem h]

/-! ## Lists of calls -/

/-- The tables have the names of the classes in order, the first class with each of them, and its
super types. -/
structure Holds (p : Program) (cs : List DeclaredClass) : Prop where
  keys : p.classes.keys = distinct (cs.map DeclaredClass.name)
  superTypes_keys : p.superTypes.keys = p.classes.keys
  get? : ∀ x, p.get? x = cs.find? fun c => c.name = x
  superTypes_get? : ∀ x, p.superTypes.get? x = (p.get? x).map DeclaredClass.superTypes

theorem holds_empty : empty.Holds [] :=
  ⟨rfl, rfl, fun _ => rfl, fun _ => rfl⟩

theorem Holds.mem_keys_iff (h : p.Holds cs) {x : String} :
    x ∈ p.classes.keys ↔ ∃ c ∈ cs, c.name = x := by
  rw [h.keys, mem_distinct, List.mem_map]

/-- A call with a name that is there. -/
theorem Holds.call_of_mem (h : p.Holds cs) (hc : c.name ∈ p.classes.keys) :
    (p.call c).Holds (cs ++ [c]) := by
  rw [Program.call_of_mem hc]
  refine ⟨?_, h.superTypes_keys, fun x => ?_, h.superTypes_get?⟩
  · have hname : c.name ∈ cs.map DeclaredClass.name := List.mem_map.2 (h.mem_keys_iff.1 hc)
    rw [h.keys, List.map_append, List.map_singleton, distinct_concat, if_pos hname]
  · rw [h.get?, List.find?_append]
    by_cases hx : c.name = x
    · -- one of the classes before answers for the name
      obtain ⟨d, hd, hname⟩ := h.mem_keys_iff.1 hc
      have hfound : (cs.find? fun c => c.name = x).isSome :=
        List.find?_isSome.2 ⟨d, hd, decide_eq_true (hname.trans hx)⟩
      rw [Option.or_of_isSome hfound]
    · simp [hx]

/-- A call with a new name. -/
theorem Holds.call_of_not_mem (h : p.Holds cs) (hc : c.name ∉ p.classes.keys) :
    (p.call c).Holds (cs ++ [c]) := by
  have hget : ∀ x, (p.call c).get? x = if x = c.name then some c else p.get? x := by
    intro x
    rw [Program.call_of_not_mem hc]
    exact Table.get?_insert ..
  have hkeys : (p.call c).classes.keys = p.classes.keys ++ [c.name] := by
    rw [Program.call_of_not_mem hc]
    exact Table.keys_insert_of_not_mem c hc
  refine ⟨?_, ?_, fun x => ?_, fun x => ?_⟩
  · have hname : c.name ∉ cs.map DeclaredClass.name := fun hmem =>
      hc (h.mem_keys_iff.2 (List.mem_map.1 hmem))
    rw [hkeys, h.keys, List.map_append, List.map_singleton, distinct_concat, if_neg hname]
  · rw [hkeys, Program.call_of_not_mem hc,
      Table.keys_insert_of_not_mem _ (h.superTypes_keys ▸ hc), h.superTypes_keys]
  · rw [hget, h.get?, List.find?_append]
    by_cases hx : x = c.name
    · -- none of the classes before has the name
      have hnone : (cs.find? fun c => c.name = x) = none := by
        rw [← h.get?, Program.get?, Table.get?_eq_none_iff, hx]
        exact hc
      rw [if_pos hx, hnone]
      simp [hx]
    · simp [hx, Ne.symm hx]
  · rw [hget, Program.call_of_not_mem hc, Table.get?_insert, h.superTypes_get?]
    split <;> rfl

/-- One call keeps the tables in step. -/
theorem Holds.call (h : p.Holds cs) (c : DeclaredClass) : (p.call c).Holds (cs ++ [c]) := by
  by_cases hc : c.name ∈ p.classes.keys
  · exact h.call_of_mem hc
  · exact h.call_of_not_mem hc

/-- Every list of calls keeps the tables in step. -/
theorem Holds.calls (h : p.Holds cs) (ds : List DeclaredClass) :
    (ds.foldl Program.call p).Holds (cs ++ ds) := by
  induction ds generalizing p cs with
  | nil =>
    rw [List.append_nil]
    exact h
  | cons d ds ih =>
    rw [List.foldl_cons, List.append_cons]
    exact ih (h.call d)

theorem holds_leftBy (cs : List DeclaredClass) : (leftBy cs).Holds cs :=
  holds_empty.calls cs

/-- A call fails exactly if a class of that name was added before, and then changes nothing. -/
theorem Holds.error_iff (h : p.Holds cs) {f : Failure} :
    (addInPlace c).run p = .error f p' ↔
      (∃ d ∈ cs, d.name = c.name) ∧ f = .of (.duplicate .declaredClass c.name) ∧ p' = p := by
  rw [← h.mem_keys_iff]
  by_cases hc : c.name ∈ p.classes.keys
  · rw [run_addInPlace_of_mem hc, EStateM.Result.error.injEq]
    simp [hc, eq_comm]
  · rw [run_addInPlace_of_not_mem hc]
    simp [hc]

/-- **The tables of a program stay in step.**  After any calls, failing or not, both tables list the
names in the order in which they were first added.  Under each name is the first class that was
added with it, with its parents in order, without the platform and without repetitions.  The next
call fails exactly if a class of its name was added before; the failure names the class, and the
program is as it was. -/
theorem tables_in_step (cs : List DeclaredClass) :
    (leftBy cs).superTypes.keys = (leftBy cs).classes.keys ∧
    (leftBy cs).classes.keys = distinct (cs.map DeclaredClass.name) ∧
    (∀ x, (leftBy cs).get? x = cs.find? fun c => c.name = x) ∧
    (∀ x superTypes, (leftBy cs).superTypes.get? x = some superTypes ↔
      ∃ c, (leftBy cs).get? x = some c ∧ c.Records superTypes) ∧
    ∀ c : DeclaredClass,
      ((∃ f p', (addInPlace c).run (leftBy cs) = .error f p') ↔ ∃ d ∈ cs, d.name = c.name) ∧
      (∀ f p', (addInPlace c).run (leftBy cs) = .error f p' →
        f = .of (.duplicate .declaredClass c.name) ∧ p' = leftBy cs ∧
          (leftBy cs).add c = .error f) ∧
      ∀ p', (addInPlace c).run (leftBy cs) = .ok () p' → (leftBy cs).add c = .ok p' := by
  have h := holds_leftBy cs
  refine ⟨h.superTypes_keys, h.keys, h.get?, fun x superTypes => ?_,
    fun c => ⟨?_, fun f p' hf => ?_, fun p' hp' => ?_⟩⟩
  · rw [h.superTypes_get?, Option.map_eq_some_iff]
    simp only [DeclaredClass.records_iff, eq_comm]
  · constructor
    · rintro ⟨f, p', hf⟩
      exact (h.error_iff.1 hf).1
    · intro hc
      exact ⟨_, _, h.error_iff.2 ⟨hc, rfl, rfl⟩⟩
  · obtain ⟨-, hfailure, hleft⟩ := h.error_iff.1 hf
    refine ⟨hfailure, hleft, ?_⟩
    rw [run_addInPlace] at hf
    split at hf
    · cases hf
    · cases hf
      assumption
  · rw [run_addInPlace] at hp'
    split at hp'
    · cases hp'
      assumption
    · cases hp'

/-! ### A class that is refused -/

/-- A class that declares an interface twice, and one of the platform. -/
def repeatingClass : DeclaredClass :=
  ⟨"pkg/A", some "pkg/B", ["pkg/I", "java/io/Serializable", "pkg/I", "pkg/B"], [], []⟩

/-- Three classes are added, and the third one is refused, since it has the name of the first. -/
def refusedThird : List DeclaredClass :=
  [repeatingClass, ⟨"pkg/I", some "java/lang/Object", [], [], []⟩, ⟨"pkg/A", none, [], [], []⟩]

/-- The refused class leaves no trace, and one more of its name is refused too. -/
theorem refusedThird_in_step :
    (leftBy refusedThird).classes.keys = ["pkg/A", "pkg/I"] ∧
    (leftBy refusedThird).superTypes.keys = ["pkg/A", "pkg/I"] ∧
    (leftBy refusedThird).get? "pkg/A" = some repeatingClass ∧
    (leftBy refusedThird).superTypes.get? "pkg/A" = some ["pkg/B", "pkg/I"] ∧
    (leftBy refusedThird).superTypes.get? "pkg/I" = some [] ∧
    ∃ f, (addInPlace repeatingClass).run (leftBy refusedThird) = .error f (leftBy refusedThird) ∧
      f = .of (.duplicate .declaredClass "pkg/A") := by
  obtain ⟨hsame, hkeys, hget, hsuperTypes, hcalls⟩ := tables_in_step refusedThird
  obtain ⟨hfails, hfailure, -⟩ := hcalls repeatingClass
  have hnames : (leftBy refusedThird).classes.keys = ["pkg/A", "pkg/I"] := by
    rw [hkeys]
    decide
  have hA : (leftBy refusedThird).get? "pkg/A" = some repeatingClass := by
    rw [hget]
    decide
  have hI : (leftBy refusedThird).get? "pkg/I" =
      some ⟨"pkg/I", some "java/lang/Object", [], [], []⟩ := by
    rw [hget]
    decide
  obtain ⟨f, p', hrun⟩ := hfails.2 ⟨repeatingClass, List.mem_cons_self, rfl⟩
  obtain ⟨hname, rfl, -⟩ := hfailure f p' hrun
  exact ⟨hnames, hsame.trans hnames, hA,
    (hsuperTypes _ _).2 ⟨_, hA, DeclaredClass.records_iff.2 (by decide +kernel)⟩,
    (hsuperTypes _ _).2 ⟨_, hI, DeclaredClass.records_iff.2 (by decide +kernel)⟩, f, hrun, hname⟩

end Program

end SymbolMap
