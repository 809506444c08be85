import SymbolMap.Access
import SymbolMap.Failure
import SymbolMap.SortedList
import SymbolMap.Table

/-!
# Candidates for an inherited member

A member that a class inherits may be declared by several super types.  `Candidates` are the
declarations of the highest visibility met so far: each has the target the member is mapped to and
the declaring class.  Merging two collections of candidates keeps the more visible ones, or all of
them if they are equally visible, so it does not matter in which order declarations are found.

Declarations are kept in a fixed order, by target and then by class: the key of a declaration is
that of its target with the class put after it.  `Candidates.mem_merge` says which of them a merge
keeps.
-/

namespace SymbolMap

/-- What a member is mapped to: a name, and a descriptor if the mappings give one. -/
structure MemberTarget where
  name : String
  desc : Option String
deriving DecidableEq

namespace MemberTarget

/-- The parts targets are ordered by.  A blank in front of a descriptor puts it after a missing one.
-/
def key (t : MemberTarget) : List (List Char) :=
  [t.name.toList,
    match t.desc with
    | none => []
    | some desc => ' ' :: desc.toList]

/-- Targets by name and then by descriptor, each by the numbers of its characters. -/
def before (a b : MemberTarget) : Bool :=
  lexBefore (lexBefore charBefore) a.key b.key

theorem key_injective (a b : MemberTarget) (h : a.key = b.key) : a = b := by
  obtain ⟨name, desc⟩ := a
  obtain ⟨name', desc'⟩ := b
  simp only [key, List.cons.injEq, and_true] at h
  obtain ⟨hname, hdesc⟩ := h
  have hdesc : desc = desc' := by
    cases desc <;> cases desc' <;> simp_all [String.toList_inj]
  rw [String.toList_injective hname, hdesc]

theorem strictOrder_before : StrictOrder before :=
  strictOrder_charBefore.lexBefore.lexBefore.onKey key_injective

end MemberTarget

/-- A target and a class that declares the member so mapped. -/
structure Declaration where
  target : MemberTarget
  declaring : String
deriving DecidableEq

namespace Declaration

/-- The parts declarations are ordered by: those of the target, and the declaring class. -/
def key (d : Declaration) : List (List Char) :=
  d.target.key ++ [d.declaring.toList]

/-- Declarations by mapped name, mapped descriptor and declaring class, each by the numbers of its
characters. -/
def before (a b : Declaration) : Bool :=
  lexBefore (lexBefore charBefore) a.key b.key

theorem key_injective (a b : Declaration) (h : a.key = b.key) : a = b := by
  obtain ⟨htarget, hdeclaring⟩ := List.append_inj' h rfl
  have hclass := String.toList_injective (List.singleton_inj.1 hdeclaring)
  cases a
  cases b
  cases MemberTarget.key_injective _ _ htarget
  cases hclass
  rfl

theorem strictOrder_before : StrictOrder before :=
  strictOrder_charBefore.lexBefore.lexBefore.onKey key_injective

end Declaration

/-- The most visible declarations of a member met so far, in their order. -/
structure Candidates where
  /-- How visible they are; missing when there are none. -/
  visibility : Option Visibility
  declarations : List Declaration
  ascending : Ascending Declaration.before declarations
deriving DecidableEq

namespace Candidates

/-- No declaration. -/
def empty : Candidates := ⟨none, [], List.Pairwise.nil⟩

/-- One declaration. -/
def single (v : Visibility) (d : Declaration) : Candidates :=
  ⟨some v, [d], List.pairwise_singleton _ _⟩

/-- The visibility as a number, lowest for no declaration. -/
def rank (c : Candidates) : Nat :=
  match c.visibility with
  | none => 0
  | some v => v.rank + 1

/-- The more visible of two collections, or both together. -/
def merge (a b : Candidates) : Candidates :=
  if b.rank < a.rank then a
  else if a.rank < b.rank then b
  else
    { visibility := a.visibility
      declarations := unionSorted Declaration.before a.declarations b.declarations
      ascending := ascending_unionSorted Declaration.strictOrder_before a.ascending }

/-- The different targets in order, each with the classes that declare it. -/
def targets (c : Candidates) : List (MemberTarget × List String) :=
  (distinct (c.declarations.map Declaration.target)).map fun t =>
    (t, (c.declarations.filter fun d => decide (d.target = t)).map Declaration.declaring)

/-- A target with its classes in words. -/
def describeTarget (t : MemberTarget × List String) : String :=
  t.1.name ++ t.1.desc.getD "" ++ " from " ++ ", ".intercalate t.2

/-- The only target, if there is one; several are ambiguous. -/
def pick (owner name desc : String) (c : Candidates) : Outcome (Option MemberTarget) :=
  match c.targets with
  | [] => .ok none
  | [t] => .ok (some t.1)
  | ts => .error (.of (.ambiguous owner name desc (ts.map describeTarget)))

/-- The visibility can be told from its number. -/
theorem visibility_of_rank {a b : Candidates} (h : a.rank = b.rank) :
    a.visibility = b.visibility := by
  unfold rank at h
  cases ha : a.visibility <;> cases hb : b.visibility <;> simp_all
  exact Visibility.rank_injective h

/-- A merge is as visible as the more visible part. -/
theorem rank_merge (a b : Candidates) : (a.merge b).rank = max a.rank b.rank := by
  rw [merge]
  split
  · omega
  · split
    · omega
    · show a.rank = _
      omega

/-- A merge has the declarations of the parts that are as visible as the result. -/
theorem mem_merge {a b : Candidates} {d : Declaration} :
    d ∈ (a.merge b).declarations ↔
      (b.rank ≤ a.rank ∧ d ∈ a.declarations) ∨ (a.rank ≤ b.rank ∧ d ∈ b.declarations) := by
  rw [merge]
  split
  · rename_i h
    exact ⟨fun hd => .inl ⟨by omega, hd⟩, fun hd => hd.elim And.right fun hd => by omega⟩
  · split
    · rename_i h
      exact ⟨fun hd => .inr ⟨by omega, hd⟩, fun hd => hd.elim (fun hd => by omega) And.right⟩
    · rw [mem_unionSorted]
      exact ⟨fun hd => hd.imp (fun hd => ⟨by omega, hd⟩) fun hd => ⟨by omega, hd⟩,
        fun hd => hd.imp And.right And.right⟩

/-- Candidates with equal visibility and the same declarations are equal. -/
theorem ext_of_mem {a b : Candidates} (hrank : a.rank = b.rank)
    (h : ∀ d, d ∈ a.declarations ↔ d ∈ b.declarations) : a = b := by
  have hv := visibility_of_rank hrank
  have hd := eq_of_ascending Declaration.strictOrder_before a.ascending b.ascending h
  cases a
  cases b
  cases hv
  cases hd
  rfl

end Candidates

end SymbolMap
