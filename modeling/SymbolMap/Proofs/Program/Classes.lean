import Mathlib.Data.List.Duplicate
import SymbolMap.Proofs.Mappings.PairTables
import SymbolMap.Proofs.Renamer.OpenClasses
import SymbolMap.Renamer.Programs

/-!
# The classes of a program

A program is made of a list of classes with different names, and lists them in their order
(`ofClasses_eq_ok_iff`); a name that is there twice is the only thing that can go wrong
(`duplicate_of_ofClasses`).  Its super types are those of the classes (`superType_iff`).

`program_eq_ok_iff` says when a program is renamed: each class is, and the program of the renamed
classes can be made.  A class is renamed part by part (`declaredClass_eq_ok_iff`).
-/

namespace SymbolMap

/-! ## Making programs -/

namespace Program

variable {p p' : Program} {c : DeclaredClass} {cs : List DeclaredClass}

theorem ext_of_entries (hclasses : p.classes.entries = p'.classes.entries)
    (hsupers : p.superTypes.entries = p'.superTypes.entries) : p = p' := by
  cases p
  cases p'
  cases Table.ext hclasses
  cases Table.ext hsupers
  rfl

/-- A class is added at the end, if super types are recorded for the classes of the program and the
name is new among them. -/
theorem add_eq_ok_iff (hkeys : p.superTypes.keys = p.classes.keys) :
    p.add c = .ok p' ↔
      p'.classes.entries = p.classes.entries ++ [(c.name, c)] ∧
        p'.superTypes.entries = p.superTypes.entries ++ [(c.name, c.superTypes)] := by
  rw [add]
  constructor
  · intro h
    split at h
    · cases h
    · rename_i classes hadd
      obtain ⟨hnew, rfl⟩ := Table.add?_eq_some_iff.1 hadd
      cases h
      refine ⟨rfl, ?_⟩
      rw [Table.insert, dif_neg (hkeys ▸ hnew)]
      rfl
  · rintro ⟨hclasses, hsupers⟩
    have hnew := Table.not_mem_keys_of_entries hclasses
    rw [Table.add?_eq_some_iff.2 ⟨hnew, rfl⟩]
    refine congrArg Except.ok (ext_of_entries hclasses.symm ?_)
    rw [hsupers, Table.insert, dif_neg (hkeys ▸ hnew)]
    rfl

theorem foldlM_add_eq_ok_iff (hkeys : p.superTypes.keys = p.classes.keys) :
    cs.foldlM add p = .ok p' ↔
      p'.classes.entries = p.classes.entries ++ cs.map (fun c => (c.name, c)) ∧
        p'.superTypes.entries =
          p.superTypes.entries ++ cs.map fun c => (c.name, c.superTypes) := by
  induction cs generalizing p with
  | nil =>
    rw [List.foldlM_nil, List.map_nil, List.append_nil, List.map_nil, List.append_nil]
    constructor
    · intro h
      cases h
      exact ⟨rfl, rfl⟩
    · rintro ⟨hclasses, hsupers⟩
      rw [ext_of_entries hclasses hsupers]
      rfl
  | cons c cs ih =>
    rw [List.foldlM_cons, Outcome.bind_eq_ok_iff]
    have hstep : ∀ {q : Program}, p.add c = .ok q → q.superTypes.keys = q.classes.keys := by
      intro q hq
      obtain ⟨hclasses, hsupers⟩ := (add_eq_ok_iff hkeys).1 hq
      have hkeys' : p.superTypes.entries.map Prod.fst = p.classes.entries.map Prod.fst := hkeys
      rw [Table.keys, Table.keys, hclasses, hsupers, List.map_append, List.map_append, hkeys']
      rfl
    constructor
    · rintro ⟨q, hq, hrest⟩
      obtain ⟨hclasses, hsupers⟩ := (add_eq_ok_iff hkeys).1 hq
      obtain ⟨hclasses', hsupers'⟩ := (ih (hstep hq)).1 hrest
      simp [hclasses', hsupers', hclasses, hsupers]
    · rintro ⟨hclasses, hsupers⟩
      -- the name of the first class is new, since the result has no name twice
      have hnew := Table.not_mem_keys_of_entries hclasses
      have hq : p.add c = .ok ⟨p.classes.push c.name c hnew,
          p.superTypes.push c.name c.superTypes (hkeys ▸ hnew)⟩ :=
        (add_eq_ok_iff hkeys).2 ⟨rfl, rfl⟩
      refine ⟨_, hq, (ih (hstep hq)).2 ⟨?_, ?_⟩⟩
      · simp [hclasses, Table.push]
      · simp [hsupers, Table.push]

/-- **A program is made of classes exactly if it lists them and their super types in order.** -/
theorem ofClasses_eq_ok_iff :
    ofClasses cs = .ok p ↔
      p.classes.entries = cs.map (fun c => (c.name, c)) ∧
        p.superTypes.entries = cs.map fun c => (c.name, c.superTypes) := by
  rw [ofClasses, foldlM_add_eq_ok_iff rfl]
  rfl

theorem values_of_ofClasses (h : ofClasses cs = .ok p) : p.classes.values = cs := by
  rw [Table.values, (ofClasses_eq_ok_iff.1 h).1, List.map_map]
  exact List.map_id cs

theorem get?_of_mem (h : ofClasses cs = .ok p) (hc : c ∈ cs) : p.get? c.name = some c := by
  rw [get?, Table.get?_eq_some_iff, (ofClasses_eq_ok_iff.1 h).1]
  exact List.mem_map_of_mem hc

/-- The class with a name is the one that was given with it. -/
theorem get?_eq_some_iff (h : ofClasses cs = .ok p) {x : String} :
    p.get? x = some c ↔ c ∈ cs ∧ c.name = x := by
  rw [get?, Table.get?_eq_some_iff, (ofClasses_eq_ok_iff.1 h).1, List.mem_map]
  constructor
  · rintro ⟨c', hc', heq⟩
    obtain ⟨rfl, rfl⟩ := Prod.mk.inj heq
    exact ⟨hc', rfl⟩
  · rintro ⟨hc, rfl⟩
    exact ⟨c, hc, rfl⟩

theorem get?_eq_none_iff (h : ofClasses cs = .ok p) {x : String} :
    p.get? x = none ↔ ∀ c ∈ cs, c.name ≠ x := by
  rw [Option.eq_none_iff_forall_ne_some]
  constructor
  · intro hnone c hc hname
    exact hnone c ((get?_eq_some_iff h).2 ⟨hc, hname⟩)
  · intro hnone c hget
    obtain ⟨hc, hname⟩ := (get?_eq_some_iff h).1 hget
    exact hnone c hc hname

theorem get?_superTypes (h : ofClasses cs = .ok p) (hc : c ∈ cs) :
    p.superTypes.get? c.name = some c.superTypes := by
  rw [Table.get?_eq_some_iff, (ofClasses_eq_ok_iff.1 h).2]
  exact List.mem_map_of_mem hc

/-- A program is made of classes whose names do not repeat, and of no others. -/
theorem exists_ofClasses_iff :
    (∃ p, ofClasses cs = .ok p) ↔ (cs.map DeclaredClass.name).Nodup := by
  constructor
  · rintro ⟨p, hp⟩
    have hnodup := p.classes.nodup
    rw [(ofClasses_eq_ok_iff.1 hp).1, List.map_map] at hnodup
    exact hnodup
  · intro hnodup
    refine ⟨⟨⟨cs.map fun c => (c.name, c), ?_⟩, ⟨cs.map fun c => (c.name, c.superTypes), ?_⟩⟩,
      ofClasses_eq_ok_iff.2 ⟨rfl, rfl⟩⟩
    · rw [List.map_map]
      exact hnodup
    · rw [List.map_map]
      exact hnodup

/-- If no program is made of classes, the failure names a class that is there twice. -/
theorem duplicate_of_ofClasses {f : Failure} (h : ofClasses cs = .error f) :
    ∃ x, List.Duplicate x (cs.map DeclaredClass.name) ∧
      f = .of (.duplicate .declaredClass x) := by
  obtain ⟨earlier, c, later, p, rfl, hrun, hadd⟩ := Outcome.foldlM_eq_error_iff.1 h
  have hkeys : p.classes.keys = earlier.map DeclaredClass.name := by
    rw [Table.keys, (ofClasses_eq_ok_iff.1 hrun).1, List.map_map]
    rfl
  rw [add] at hadd
  split at hadd
  · rename_i hkey
    refine ⟨c.name, ?_, (Except.error.inj hadd).symm⟩
    have hpos := List.count_pos_iff.2 (hkeys ▸ Table.add?_eq_none_iff.1 hkey)
    rw [List.duplicate_iff_two_le_count, List.map_append, List.map_cons, List.count_append,
      List.count_cons_self]
    omega
  · cases hadd

end Program

theorem DeclaredClass.mem_superTypes {c : DeclaredClass} {s : String} :
    s ∈ c.superTypes ↔ (s ∈ c.superClass ∨ s ∈ c.interfaces) ∧ Name.isPlatform s = false := by
  rw [superTypes, mem_distinct, List.mem_filter, List.mem_append, Option.mem_toList]
  simp

namespace Program

variable {p : Program} {cs : List DeclaredClass}

/-- The super types in a program are those of its classes. -/
theorem superType_iff (h : ofClasses cs = .ok p) {x s : String} :
    p.ancestry.SuperType x s ↔ ∃ c ∈ cs, c.name = x ∧ s ∈ c.superTypes := by
  have hget : ∀ superTypes, p.superTypes.get? x = some superTypes ↔
      ∃ c ∈ cs, c.name = x ∧ c.superTypes = superTypes := by
    intro superTypes
    rw [Table.get?_eq_some_iff, (ofClasses_eq_ok_iff.1 h).2, List.mem_map]
    simp only [Prod.mk.injEq]
  constructor
  · rintro ⟨superTypes, heq, hs, -⟩
    obtain ⟨c, hc, hname, rfl⟩ := (hget superTypes).1 (Except.ok.inj heq)
    exact ⟨c, hc, hname, hs⟩
  · rintro ⟨c, hc, hname, hs⟩
    exact ⟨c.superTypes, congrArg _ ((hget _).2 ⟨c, hc, hname, rfl⟩), hs,
      (DeclaredClass.mem_superTypes.1 hs).2⟩

end Program

/-! ## Renaming them -/

namespace Renamer

variable {r : Renamer} {owner : String} {kind : MemberKind} {d d' : DeclaredMember}
  {c c' : DeclaredClass}

theorem declaredMember_eq_ok_iff :
    r.declaredMember owner kind d = .ok d' ↔
      r.member owner ⟨kind, d.name, d.desc⟩ = .ok ⟨d'.name, d'.desc⟩ ∧ d'.access = d.access := by
  rw [declaredMember, Outcome.bind_eq_ok_iff]
  constructor
  · rintro ⟨mapped, hmapped, h⟩
    cases h
    exact ⟨hmapped, rfl⟩
  · rintro ⟨hmapped, haccess⟩
    refine ⟨_, hmapped, ?_⟩
    rw [← haccess]
    rfl

/-- A class is renamed exactly if its members, its name and its super types are. -/
theorem declaredClass_eq_ok_iff :
    r.declaredClass c = .ok c' ↔
      (∀ kind, List.Forall₂ (fun d d' => r.declaredMember c.name kind d = .ok d')
        (c.members kind) (c'.members kind)) ∧
      r.classes.className .toMapped c.name = .ok c'.name ∧
      Option.Rel (fun s s' => r.classes.className .toMapped s = .ok s') c.superClass c'.superClass ∧
      List.Forall₂ (fun s s' => r.classes.className .toMapped s = .ok s')
        c.interfaces c'.interfaces := by
  simp only [declaredClass, Outcome.bind_eq_ok_iff, Outcome.mapM_eq_ok_iff,
    Outcome.mapM_option_eq_ok_iff, Outcome.within_eq_ok_iff]
  constructor
  · rintro ⟨fields, hfields, methods, hmethods, name, hname, superClass, hsuper, interfaces,
      hinterfaces, h⟩
    cases h
    refine ⟨fun kind => ?_, hname, hsuper, hinterfaces⟩
    cases kind with
    | field => exact hfields
    | method => exact hmethods
  · rintro ⟨hmembers, hname, hsuper, hinterfaces⟩
    exact ⟨_, hmembers .field, _, hmembers .method, _, hname, _, hsuper, _, hinterfaces, rfl⟩

/-- A program is renamed exactly if its classes are and the program of the renamed ones is made. -/
theorem program_eq_ok_iff {p p' : Program} {cs : List DeclaredClass}
    (hp : Program.ofClasses cs = .ok p) :
    r.program p = .ok p' ↔
      ∃ cs', List.Forall₂ (fun c c' => r.declaredClass c = .ok c') cs cs' ∧
        Program.ofClasses cs' = .ok p' := by
  rw [program, Program.values_of_ofClasses hp, Outcome.bind_eq_ok_iff]
  simp only [Outcome.mapM_eq_ok_iff]

end Renamer

end SymbolMap
