import SymbolMap.Proofs.Program.Classes
import SymbolMap.Proofs.Program.StackSearch

/-!
# Programs without loops

A class extends the super types that are recorded for it, which are its super class and its
interfaces without those of the platform (`Program.extends_iff`).  `Program.checkAcyclic` searches
this relation for a loop, from class to super type and back from super type to class.

The search is decisive (`checkAcyclic_decides`): it succeeds if and only if no class extends itself
through others, and the class in its failure is one that does.
-/

namespace SymbolMap.Program

open Relation

variable {p : Program}

/-- The second class is recorded as a super type of the first. -/
def Extends (p : Program) (c s : String) : Prop :=
  s ∈ p.recorded c

theorem extends_iff_get? {c s : String} :
    p.Extends c s ↔ ∃ superTypes, p.superTypes.get? c = some superTypes ∧ s ∈ superTypes := by
  rw [Extends, recorded]
  cases p.superTypes.get? c with
  | none => simp
  | some superTypes => simp

/-- The classes of a program extend their super classes and interfaces, but for those of the
platform. -/
theorem extends_iff {cs : List DeclaredClass} (h : ofClasses cs = .ok p) {x s : String} :
    p.Extends x s ↔ ∃ c ∈ cs, c.name = x ∧ (s ∈ c.superClass ∨ s ∈ c.interfaces) ∧
      Name.isPlatform s = false := by
  simp only [extends_iff_get?, Table.get?_eq_some_iff, (ofClasses_eq_ok_iff.1 h).2, List.mem_map,
    Prod.mk.injEq, ← DeclaredClass.mem_superTypes]
  constructor
  · rintro ⟨superTypes, ⟨c, hc, hname, rfl⟩, hs⟩
    exact ⟨c, hc, hname, hs⟩
  · rintro ⟨c, hc, hname, hs⟩
    exact ⟨c.superTypes, ⟨c, hc, hname, rfl⟩, hs⟩

/-- The super types of a program are a relation of the classes it mentions. -/
theorem isRelation (p : Program) : Loop.IsRelation p.mentioned p.recorded p.subTypes where
  nodup := nodup_distinct _
  mem c s h := by
    obtain ⟨superTypes, hget, hs⟩ := extends_iff_get?.1 h
    have hentry := Table.get?_eq_some_iff.1 hget
    simp only [mentioned, mem_distinct, List.mem_flatMap]
    exact ⟨⟨_, hentry, List.mem_cons_self⟩, ⟨_, hentry, List.mem_cons_of_mem _ hs⟩⟩
  sources s c := by
    rw [subTypes, List.mem_filter, decide_eq_true_eq, and_iff_right_iff_imp]
    intro h
    obtain ⟨superTypes, hget, -⟩ := extends_iff_get?.1 h
    exact Table.mem_keys_of_get? hget

theorem checkAcyclic_eq_ok_iff :
    p.checkAcyclic = .ok () ↔ Loop.find? p.mentioned p.recorded p.subTypes = none := by
  rw [checkAcyclic]
  split
  · rename_i hfind
    rw [hfind]
    exact ⟨fun h => (nomatch h), fun h => (nomatch h)⟩
  · rename_i hfind
    exact ⟨fun _ => hfind, fun _ => rfl⟩

theorem checkAcyclic_eq_error_iff {f : Failure} :
    p.checkAcyclic = .error f ↔
      ∃ c, f = .of (.loop c) ∧ Loop.find? p.mentioned p.recorded p.subTypes = some c := by
  rw [checkAcyclic]
  split
  · rename_i c hfind
    rw [hfind]
    constructor
    · intro h
      exact ⟨c, (Except.error.inj h).symm, rfl⟩
    · rintro ⟨c', rfl, hc⟩
      rw [Option.some.inj hc]
  · rename_i hfind
    rw [hfind]
    exact ⟨fun h => (nomatch h), fun ⟨_, _, h⟩ => (nomatch h)⟩

theorem checkAcyclic_eq_ok_iff_no_loop :
    p.checkAcyclic = .ok () ↔ ¬ ∃ c, TransGen p.Extends c c := by
  rw [checkAcyclic_eq_ok_iff]
  constructor
  · rintro hnone ⟨c, hloop⟩
    exact Loop.find?_eq_none p.isRelation hnone c hloop
  · intro h
    cases hfind : Loop.find? p.mentioned p.recorded p.subTypes with
    | none => rfl
    | some c => exact absurd ⟨c, Loop.find?_eq_some p.isRelation hfind⟩ h

/-- **The check of a program for loops is decisive.**  It succeeds if and only if no class extends
itself through any number of classes, and the class in its failure does.  What it finds is what the
search with a stack finds, and that search ends in one way only. -/
theorem checkAcyclic_decides (p : Program) :
    (p.checkAcyclic = .ok () ↔ ∀ c, ¬ TransGen p.Extends c c) ∧
    (∀ f, p.checkAcyclic = .error f → ∃ c, f = .of (.loop c) ∧ TransGen p.Extends c c) ∧
    (p.checkAcyclic = .ok () ↔ Loop.Finds p.mentioned p.recorded p.subTypes none) ∧
    ∀ c, p.checkAcyclic = .error (.of (.loop c)) ↔
      Loop.Finds p.mentioned p.recorded p.subTypes (some c) := by
  have hrel := p.isRelation
  refine ⟨⟨fun h c => ?_, fun h => ?_⟩, fun f hf => ?_, ?_, fun c => ?_⟩
  · exact Loop.find?_eq_none hrel (checkAcyclic_eq_ok_iff.1 h) c
  · rw [checkAcyclic_eq_ok_iff]
    cases hfind : Loop.find? p.mentioned p.recorded p.subTypes with
    | none => rfl
    | some c => exact absurd (Loop.find?_eq_some hrel hfind) (h c)
  · obtain ⟨c, rfl, hfind⟩ := checkAcyclic_eq_error_iff.1 hf
    exact ⟨c, rfl, Loop.find?_eq_some hrel hfind⟩
  · rw [checkAcyclic_eq_ok_iff, Loop.finds_iff hrel, eq_comm]
  · rw [checkAcyclic_eq_error_iff, Loop.finds_iff hrel]
    constructor
    · rintro ⟨c', hc, hfind⟩
      obtain ⟨-, hcause⟩ := Failure.mk.inj hc
      rw [hfind, Cause.loop.inj hcause]
    · intro hfind
      exact ⟨c, rfl, hfind.symm⟩

/-! ### Three classes that extend each other -/

/-- Three classes on a loop through an interface, and one that extends the first of them. -/
def threeOnLoop : List DeclaredClass :=
  [⟨"A", some "B", [], [], []⟩, ⟨"B", some "C", ["java/lang/Runnable"], [], []⟩,
    ⟨"C", some "java/lang/Object", ["A"], [], []⟩, ⟨"D", some "A", [], [], []⟩]

/-- A class on the loop is found, and there is no loop without the third class. -/
theorem threeOnLoop_found :
    (∃ p c, ofClasses threeOnLoop = .ok p ∧ p.checkAcyclic = .error (.of (.loop c)) ∧
      TransGen p.Extends c c ∧ c ≠ "D") ∧
    ∃ p, ofClasses (threeOnLoop.eraseIdx 2) = .ok p ∧ p.checkAcyclic = .ok () ∧
      ∀ c, ¬ TransGen p.Extends c c := by
  constructor
  · obtain ⟨p, hp⟩ : ∃ p, ofClasses threeOnLoop = .ok p := Outcome.exists_eq_ok (by decide +kernel)
    have hcheck : (ofClasses threeOnLoop >>= checkAcyclic) = .error (.of (.loop "C")) := by
      decide +kernel
    rw [hp] at hcheck
    obtain ⟨c, hc, hloop⟩ := (checkAcyclic_decides p).2.1 _ hcheck
    obtain ⟨-, hcause⟩ := Failure.mk.inj hc
    exact ⟨p, "C", hp, hcheck, Cause.loop.inj hcause ▸ hloop, by decide⟩
  · obtain ⟨p, hp⟩ : ∃ p, ofClasses (threeOnLoop.eraseIdx 2) = .ok p :=
      Outcome.exists_eq_ok (by decide +kernel)
    have hcheck : (ofClasses (threeOnLoop.eraseIdx 2) >>= checkAcyclic) = .ok () := by
      decide +kernel
    rw [hp] at hcheck
    exact ⟨p, hp, hcheck, (checkAcyclic_decides p).1.1 hcheck⟩

end SymbolMap.Program
