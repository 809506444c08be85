import Mathlib.Logic.Relation
import SymbolMap.Renamer.Resolution

/-!
# Open classes

A search for an inherited member goes up from the class the member is referred to through.  It
passes the classes that do not map the member, which are the **open** ones (`OpenClass`), and stops
at those that do.  The search itself knows only the path it has come along, and follows every path
that repeats no class; a class it stands at, with the path to it, is a `Stage`.

The two views agree: a class is open if and only if a stage at it is reached
(`openClass_iff_exists_reaches`).  A path that comes back to a class can be left out between the two
visits, so a path without repetitions is enough, whatever loops the ancestry has.

All of this can be said of any lineage.  In an ancestry, which knows finitely many classes, a path
without repetitions ends soon: all classes on it but the last have super types, so they are known
(`length_le_of_reaches`).  What counts is how many classes the ancestry knows
(`Ancestry.knownClasses`), which may be fewer than it lists.
-/

namespace SymbolMap

namespace Lineage

variable {a : Lineage} {c : String}

/-- The class `s` is a super type of `c` that a search looks at, one that is not of the platform. -/
def SuperType (a : Lineage) (c s : String) : Prop :=
  ∃ superTypes, a.superTypes c = .ok (some superTypes) ∧ s ∈ superTypes ∧
    Name.isPlatform s = false

theorem knows_eq_true_iff :
    a.knows c = .ok true ↔ ∃ superTypes, a.superTypes c = .ok (some superTypes) := by
  rw [knows]
  cases a.superTypes c with
  | error e => exact ⟨fun h => (nomatch h), fun ⟨_, h⟩ => (nomatch h)⟩
  | ok superTypes =>
    cases superTypes with
    | none => exact ⟨fun h => (nomatch h), fun ⟨_, h⟩ => (nomatch h)⟩
    | some superTypes => exact ⟨fun _ => ⟨superTypes, rfl⟩, fun _ => rfl⟩

/-- A class with super types is known. -/
theorem SuperType.knows {s : String} (h : a.SuperType c s) : a.knows c = .ok true := by
  obtain ⟨superTypes, heq, -, -⟩ := h
  exact knows_eq_true_iff.2 ⟨superTypes, heq⟩

end Lineage

namespace Ancestry

variable {a : Ancestry} {c : String}

/-- The classes that an ancestry knows, each once. -/
def knownClasses (a : Ancestry) : List String :=
  (distinct a.known).filter fun c => decide (a.knows c = .ok true)

theorem mem_knownClasses_iff : c ∈ a.knownClasses ↔ a.knows c = .ok true := by
  rw [knownClasses, List.mem_filter, mem_distinct, decide_eq_true_eq, and_iff_right_iff_imp]
  intro h
  obtain ⟨superTypes, hsuper⟩ := Lineage.knows_eq_true_iff.1 h
  exact a.mem_known c superTypes hsuper

theorem nodup_knownClasses (a : Ancestry) : a.knownClasses.Nodup :=
  (nodup_distinct a.known).filter _

theorem length_knownClasses_le (a : Ancestry) : a.knownClasses.length ≤ a.known.length := by
  refine a.nodup_knownClasses.length_le_of_subset fun c hc => ?_
  exact mem_distinct.1 (List.mem_filter.1 hc).1

end Ancestry

namespace Renamer

variable (r : Renamer) (a : Lineage) (m : MemberRef)

/-- The classes a search for a member of `owner` passes: `owner`, and with a class those of its
super types that do not map the member. -/
inductive OpenClass (owner : String) : String → Prop
  | owner : OpenClass owner owner
  | up {c s : String} : OpenClass owner c → a.SuperType c s → r.lookup s m = .ok none →
      OpenClass owner s

/-- The path a search has come along and the class at its end. -/
abbrev Stage := List String × String

/-- From a stage the search goes on to the super types that do not map the member and are not on the
path. -/
inductive Goes : Stage → Stage → Prop
  | up {path : List String} {c s : String} : a.SuperType c s → s ∉ path →
      r.lookup s m = .ok none → Goes (path, c) (path ++ [s], s)

/-- One stage comes after another. -/
abbrev Reaches : Stage → Stage → Prop := Relation.ReflTransGen (r.Goes a m)

/-- Where a search begins. -/
def firstStage (owner : String) : Stage := ([owner], owner)

variable {r a m} {owner c s : String} {stage : Stage}

theorem mem_openSuperTypes {path superTypes : List String} :
    s ∈ openSuperTypes path superTypes ↔
      s ∈ superTypes ∧ Name.isPlatform s = false ∧ s ∉ path := by
  simp [openSuperTypes]

/-- An open class does not map the member, if the class the search begins at does not. -/
theorem OpenClass.lookup_eq_none (howner : r.lookup owner m = .ok none)
    (h : r.OpenClass a m owner c) : r.lookup c m = .ok none := by
  cases h with
  | owner => exact howner
  | up _ _ hlookup => exact hlookup

/-- An open class is reached through super types. -/
theorem OpenClass.chain (h : r.OpenClass a m owner c) :
    Relation.ReflTransGen a.SuperType owner c := by
  induction h with
  | owner => exact .refl
  | up _ hsuper _ ih => exact ih.tail hsuper

/-! ## Paths and open classes -/

/-- Every class a search comes to is open. -/
theorem openClass_of_reaches (h : r.Reaches a m (firstStage owner) stage) :
    r.OpenClass a m owner stage.2 := by
  induction h with
  | refl => exact .owner
  | tail _ hgoes ih =>
    obtain ⟨hsuper, -, hlookup⟩ := hgoes
    exact .up ih hsuper hlookup

/-- A class on the path of a stage has been the end of the path before. -/
theorem exists_reaches_of_mem (h : r.Reaches a m (firstStage owner) stage) {x : String}
    (hx : x ∈ stage.1) : ∃ path, r.Reaches a m (firstStage owner) (path, x) := by
  induction h with
  | refl =>
    obtain rfl : x = owner := List.mem_singleton.1 hx
    exact ⟨_, .refl⟩
  | tail hreach hgoes ih =>
    obtain @⟨path, c, s, hsuper, hnew, hlookup⟩ := hgoes
    rcases List.mem_append.1 hx with hx | hx
    · exact ih hx
    · obtain rfl : x = s := List.mem_singleton.1 hx
      exact ⟨_, hreach.tail (.up hsuper hnew hlookup)⟩

/-- **A class is open exactly if the search comes to it along some path.** -/
theorem openClass_iff_exists_reaches :
    r.OpenClass a m owner c ↔ ∃ path, r.Reaches a m (firstStage owner) (path, c) := by
  constructor
  · intro h
    induction h with
    | owner => exact ⟨_, .refl⟩
    | @up c s _ hsuper hlookup ih =>
      obtain ⟨path, hreach⟩ := ih
      -- a super type on the path was reached earlier; any other is the next class of it
      by_cases hs : s ∈ path
      · exact exists_reaches_of_mem hreach hs
      · exact ⟨_, hreach.tail (.up hsuper hs hlookup)⟩
  · rintro ⟨path, hreach⟩
    exact openClass_of_reaches hreach

/-! ## The length of paths -/

section

variable {a : Ancestry}

/-- What holds of the path of every stage: it has no repetition, leads from the owner to the class
of the stage, and all classes before that are known. -/
structure Sound (a : Ancestry) (owner : String) (stage : Stage) : Prop where
  nodup : stage.1.Nodup
  head : stage.1.head? = some owner
  last : stage.1.getLast? = some stage.2
  known : ∀ x ∈ stage.1, x ≠ stage.2 → x ∈ a.knownClasses

theorem Sound.goes {stage' : Stage} (h : Sound a owner stage) (hgoes : r.Goes a m stage stage') :
    Sound a owner stage' := by
  obtain @⟨path, c, s, hsuper, hnew, -⟩ := hgoes
  refine ⟨?_, ?_, by simp, ?_⟩
  · refine List.nodup_append.2 ⟨h.nodup, by simp, ?_⟩
    rintro x hx y hy rfl
    exact hnew (List.mem_singleton.1 hy ▸ hx)
  · rw [List.head?_append, h.head, Option.some_or]
  · intro x hx hne
    rcases List.mem_append.1 hx with hx | hx
    · by_cases hxc : x = c
      · exact hxc ▸ Ancestry.mem_knownClasses_iff.2 hsuper.knows
      · exact h.known x hx hxc
    · exact absurd (List.mem_singleton.1 hx) hne

theorem sound_of_reaches (h : r.Reaches a m (firstStage owner) stage) :
    Sound a owner stage := by
  induction h with
  | refl => exact ⟨by simp [firstStage], rfl, rfl, by simp [firstStage]⟩
  | tail _ hgoes ih => exact ih.goes hgoes

/-- A path has at most one class more than the ancestry knows. -/
theorem length_le_of_reaches (h : r.Reaches a m (firstStage owner) stage) :
    stage.1.length ≤ a.knownClasses.length + 1 := by
  have hsound := sound_of_reaches h
  have hsubset : stage.1.erase stage.2 ⊆ a.knownClasses := by
    intro x hx
    obtain ⟨hne, hmem⟩ := hsound.nodup.mem_erase_iff.1 hx
    exact hsound.known x hmem hne
  have hle := (hsound.nodup.erase stage.2).length_le_of_subset hsubset
  rw [List.length_erase_of_mem (List.mem_of_getLast? hsound.last)] at hle
  omega

end

end Renamer

end SymbolMap
