import SymbolMap.Proofs.Program.FinishOrder

/-!
# The search with a stack

The walk of `Loop.find?` is a recursion.  The same search can be made with a stack of elements that
are still to be walked to, and a set of those that were discovered (`Stacked.turn`).  The element on
top of the stack stays there when it is discovered, with what it leads to above it; when it is on
top again the walk is done with it.  An element can stand on the stack several times, but is done
only once.

What stands above an entered element was put there after the element was discovered, so no copy of
it is among them.  This is why a copy that comes to the top belongs to an element that is done or
undiscovered, and why the turns of the stack follow the recursion (`follows_visit`).  The second
part of the search reads the list backwards, with a stack again, and stops at the second element
that it reaches from one start (`secondReached?`).  Together the two find what `Loop.find?` finds
(`finds_iff`).
-/

namespace SymbolMap.Loop

open Relation

variable {α : Type} [DecidableEq α]

/-- Puts elements on a stack, one after the other, unless they were discovered. -/
def push (discovered : List α) (xs stack : List α) : List α :=
  xs.foldl (fun stack x => if x ∈ discovered then stack else x :: stack) stack

/-- How far a walk with a stack has come: where it has still to start, its stack from the top, the
elements it has discovered, and those it is done with, in order. -/
structure Stacked (α : Type) where
  starts : List α
  stack : List α
  discovered : List α
  finished : List α

namespace Stacked

/-- The walk before its first start. -/
def start (elements : List α) : Stacked α :=
  { starts := elements, stack := [], discovered := [], finished := [] }

/-- One turn of the walk, unless it is at its end.  An element on top of the stack that is new is
discovered, and what it leads to is put above it, the last first; the walk stops if that is the
element itself.  Any other is taken off, and done with if it was not before. -/
def turn (next : α → List α) (s : Stacked α) : Option (Except α (Stacked α)) :=
  match s.stack, s.starts with
  | [], [] => none
  | [], x :: starts =>
    some (.ok { s with starts, stack := if x ∈ s.discovered then [] else [x] })
  | x :: stack, _ =>
    if x ∈ s.discovered then
      some (.ok { s with
        stack
        finished := if x ∈ s.finished then s.finished else s.finished ++ [x] })
    else if x ∈ next x then some (.error x)
    else
      some (.ok { s with
        stack := push (x :: s.discovered) (next x).reverse s.stack
        discovered := x :: s.discovered })

/-- The second state comes after turns from the first. -/
abbrev Turns (next : α → List α) : Stacked α → Stacked α → Prop :=
  ReflTransGen fun s s' => s.turn next = some (.ok s')

/-- The result of a walk at its end: the element it stops at, or all elements in the order in which
it was done with them. -/
def result? (next : α → List α) (s : Stacked α) : Option (Except α (List α)) :=
  match s.turn next with
  | none => some (.ok s.finished)
  | some (.error x) => some (.error x)
  | some (.ok _) => none

/-- The walk goes on from the state to its end, with the result. -/
def Ends (next : α → List α) (s : Stacked α) (r : Except α (List α)) : Prop :=
  ∃ s', Turns next s s' ∧ s'.result? next = some r

end Stacked

/-- The element a search against the relation comes to next, with what is discovered then and what
is on the stack. -/
def reach? (sources : α → List α) (discovered : List α) :
    List α → Option (α × List α × List α)
  | [] => none
  | x :: stack =>
    if x ∈ discovered then reach? sources discovered stack
    else some (x, x :: discovered, push (x :: discovered) (sources x).reverse stack)

/-- The first element that is the second one to be reached from a start, where nothing that was
discovered from an earlier start is reached again. -/
def secondReached? (sources : α → List α) (discovered : List α) : List α → Option α
  | [] => none
  | x :: starts =>
    match reach? sources discovered [x] with
    | none => secondReached? sources discovered starts
    | some (_, discovered, stack) =>
      match reach? sources discovered stack with
      | some (y, _, _) => some y
      | none => secondReached? sources discovered starts

/-- What the search with a stack finds: the element that its walk stops at, or the second one that
is reached when the finished elements are read backwards. -/
inductive Finds (elements : List α) (next sources : α → List α) : Option α → Prop where
  | stopped {x : α} (h : (Stacked.start elements).Ends next (.error x)) :
    Finds elements next sources (some x)
  | ended {order : List α} (h : (Stacked.start elements).Ends next (.ok order)) :
    Finds elements next sources (secondReached? sources [] order.reverse)

/-! ## The walk -/

variable {next sources : α → List α} {elements : List α}

theorem push_reverse (discovered xs stack : List α) :
    push discovered xs.reverse stack = xs.filter (fun x => decide (x ∉ discovered)) ++ stack := by
  rw [push, List.foldl_reverse]
  induction xs with
  | nil => rfl
  | cons x xs ih =>
    rw [List.foldr_cons, ih, List.filter_cons]
    by_cases hx : x ∈ discovered
    · simp [hx]
    · simp [hx]

namespace Stacked

variable {s s' : Stacked α} {p p' : Progress α} {x : α} {rest : List α} {depth : Nat}

/-- The state of the walk with a stack is that of the recursion. -/
structure Shows (elements : List α) (s : Stacked α) (p : Progress α) : Prop where
  discovered : ∀ x ∈ elements, x ∈ s.discovered ↔ x ∉ p.unmet
  finished : s.finished = p.done

/-- The turns of the walk follow a part of the recursion, to a state with a given stack. -/
def Follows (next : α → List α) (elements rest : List α) (s : Stacked α) :
    Except α (Progress α) → Prop
  | .error x => ∃ s', Turns next s s' ∧ s'.turn next = some (.error x)
  | .ok p => ∃ s', Turns next s s' ∧ s'.Shows elements p ∧ s'.stack = rest ∧ s'.starts = s.starts

/-- A walk to an element that was met and is not entered takes it off the stack. -/
theorem follows_of_met (hs : s.Shows elements p) (hx : x ∈ elements) (hmet : x ∉ p.unmet)
    (hentered : ¬ p.Entered elements x) (hstack : s.stack = x :: rest) :
    Follows next elements rest s (.ok p) := by
  have hdiscovered : x ∈ s.discovered := (hs.discovered x hx).2 hmet
  have hfinished : x ∈ s.finished := by
    rw [hs.finished]
    by_contra hdone
    exact hentered ⟨hx, hmet, hdone⟩
  have hturn : s.turn next = some (.ok { s with stack := rest }) := by
    simp only [turn, hstack, hdiscovered, hfinished, if_true]
  exact ⟨_, .single hturn, ⟨hs.discovered, hs.finished⟩, rfl, rfl⟩

/-- The turns follow a part of the recursion after other turns. -/
theorem Follows.of_turns {r : Except α (Progress α)} (hturns : Turns next s s')
    (hstarts : s'.starts = s.starts) (h : Follows next elements rest s' r) :
    Follows next elements rest s r := by
  cases r with
  | error x =>
    obtain ⟨t, ht, hstop⟩ := h
    exact ⟨t, hturns.trans ht, hstop⟩
  | ok p =>
    obtain ⟨t, ht, hshows, hstack, hsame⟩ := h
    exact ⟨t, hturns.trans ht, hshows, hstack, hsame.trans hstarts⟩

/-- A walk through a list follows the recursion if a walk to each of its elements does.  On the
stack are those that were unmet when they were put there. -/
theorem follows_foldlM {p₀ : Progress α} {walked xs : List α}
    (hrel : IsRelation elements next sources)
    (hvisit : ∀ q s x rest, q.CanVisit next elements depth x → ¬ q.Entered elements x →
      s.Shows elements q → s.stack = x :: rest →
      Follows next elements rest s (visit next depth q x))
    (hcan : ∀ x ∈ xs, p₀.CanVisit next elements depth x) (hp : p₀.Walked next elements walked p)
    (hs : s.Shows elements p)
    (hstack : s.stack = xs.filter (fun x => decide (x ∈ p₀.unmet)) ++ rest) :
    Follows next elements rest s (xs.foldlM (visit next depth) p) := by
  induction xs generalizing p s walked with
  | nil => exact ⟨s, .refl, hs, hstack, rfl⟩
  | cons x xs ih =>
    have hcanx := (hcan x List.mem_cons_self).walked hp
    have hcans : ∀ y ∈ xs, p₀.CanVisit next elements depth y := fun y hy =>
      hcan y (List.mem_cons_of_mem _ hy)
    rw [List.foldlM_cons]
    by_cases hx : x ∈ p₀.unmet
    · rw [List.filter_cons_of_pos (by simpa using hx), List.cons_append] at hstack
      have hentered : ¬ p.Entered elements x := fun h => ((hp.entered x).1 h).2.1 hx
      have hfollows := hvisit p s x _ hcanx hentered hs hstack
      cases hq : visit next depth p x with
      | error y =>
        rw [hq] at hfollows
        exact hfollows
      | ok q =>
        rw [hq] at hfollows
        obtain ⟨s', hturns, hs', hstack', hstarts⟩ := hfollows
        exact (ih hcans (hp.trans (visit_walked hrel hcanx hq)) hs' hstack').of_turns hturns hstarts
    · -- the element was met already and is not on the stack
      rw [List.filter_cons_of_neg (by simpa using hx)] at hstack
      rw [visit_of_met fun hmem => hx (hp.unmet.subset hmem)]
      exact ih hcans hp hs hstack

/-- The state after the element on top of the stack was discovered. -/
theorem exists_turn_of_unmet (hs : s.Shows elements p) (hp : p.Sound next) (hx : x ∈ elements)
    (hnext : ∀ y ∈ next x, y ∈ elements) (hunmet : x ∈ p.unmet) (hloop : x ∉ next x)
    (hstack : s.stack = x :: rest) :
    ∃ s', s.turn next = some (.ok s') ∧ s'.Shows elements (p.enter x) ∧ s'.starts = s.starts ∧
      s'.stack = (next x).filter (fun y => decide (y ∈ (p.enter x).unmet)) ++ x :: rest := by
  have hdiscovered : x ∉ s.discovered := fun h => (hs.discovered x hx).1 h hunmet
  have hmem : ∀ y ∈ elements, y ∈ x :: s.discovered ↔ y ∉ (p.enter x).unmet := by
    intro y hy
    rw [List.mem_cons, hs.discovered y hy, Progress.enter, hp.unmet.mem_erase_iff]
    tauto
  refine ⟨{ s with
      stack := push (x :: s.discovered) (next x).reverse s.stack
      discovered := x :: s.discovered }, ?_, ⟨hmem, hs.finished⟩, rfl, ?_⟩
  · simp only [turn, hstack, if_neg hdiscovered, if_neg hloop]
  · show push (x :: s.discovered) (next x).reverse s.stack = _
    rw [push_reverse, hstack]
    congr 1
    refine List.filter_congr fun y hy => ?_
    rw [decide_eq_decide, hmem y (hnext y hy), not_not]

/-- The state after the walk is done with the element on top of the stack. -/
theorem exists_turn_of_entered (hs : s.Shows elements p) (hentered : p.Entered elements x)
    (hstack : s.stack = x :: rest) :
    ∃ s', s.turn next = some (.ok s') ∧ s'.Shows elements (p.leave x) ∧ s'.starts = s.starts ∧
      s'.stack = rest := by
  obtain ⟨hx, hunmet, hdone⟩ := hentered
  have hdiscovered : x ∈ s.discovered := (hs.discovered x hx).2 hunmet
  have hfinished : x ∉ s.finished := hs.finished ▸ hdone
  refine ⟨{ s with stack := rest, finished := s.finished ++ [x] }, ?_, ⟨hs.discovered, ?_⟩, rfl, rfl⟩
  · simp only [turn, hstack, if_pos hdiscovered, if_neg hfinished]
  · rw [hs.finished]
    rfl

/-- **The turns of the stack follow the recursion**, for an element that is not entered. -/
theorem follows_visit (hrel : IsRelation elements next sources)
    (hp : p.CanVisit next elements depth x) (hentered : ¬ p.Entered elements x)
    (hs : s.Shows elements p) (hstack : s.stack = x :: rest) :
    Follows next elements rest s (visit next depth p x) := by
  induction depth generalizing p s x rest with
  | zero =>
    refine follows_of_met hs hp.mem (fun hunmet => ?_) hentered hstack
    rw [List.length_eq_zero_iff.1 (Nat.le_zero.1 hp.deep)] at hunmet
    cases hunmet
  | succ depth ih =>
    rw [visit_succ]
    by_cases hunmet : x ∈ p.unmet
    · have hdiscovered : x ∉ s.discovered := fun h => (hs.discovered x hp.mem).1 h hunmet
      rw [if_pos hunmet]
      by_cases hloop : x ∈ next x
      · rw [if_pos hloop]
        exact ⟨s, .refl, by simp only [turn, hstack, if_neg hdiscovered, if_pos hloop]⟩
      · rw [if_neg hloop]
        obtain ⟨s₁, hturn, hs₁, hstarts₁, hstack₁⟩ := exists_turn_of_unmet hs hp.sound hp.mem
          (fun y hy => (hrel.mem x y hy).2) hunmet hloop hstack
        have hstart : (p.enter x).Walked next elements [] (p.enter x) :=
          .refl (hp.sound.enter x) fun y hy => nomatch hy
        have hfollows : Follows next elements (x :: rest) s₁
            ((next x).foldlM (visit next depth) (p.enter x)) :=
          follows_foldlM hrel (fun q s y rest => ih) (fun y => hp.enter hrel hunmet) hstart hs₁
            hstack₁
        refine Follows.of_turns (.single hturn) hstarts₁ ?_
        cases hq : (next x).foldlM (visit next depth) (p.enter x) with
        | error y =>
          rw [hq] at hfollows
          exact hfollows
        | ok q =>
          rw [hq] at hfollows
          obtain ⟨s₂, hturns, hs₂, hstack₂, hstarts₂⟩ := hfollows
          have hwalked := foldlM_walked (fun _ _ _ _ => visit_walked hrel) (hp.sound.enter x)
            (fun y => hp.enter hrel hunmet) hq
          -- the element is on top again, entered and not done
          have htop : q.Entered elements x :=
            (hwalked.entered x).2 ((hp.sound.entered_enter hunmet hp.mem).2 (.inl rfl))
          obtain ⟨s₃, hturn₃, hs₃, hstarts₃, hstack₃⟩ := exists_turn_of_entered hs₂ htop hstack₂
          exact ⟨s₃, hturns.tail hturn₃, hs₃, hstack₃, hstarts₃.trans hstarts₂⟩
    · rw [if_neg hunmet]
      exact follows_of_met hs hp.mem hunmet hentered hstack

theorem Ends.of_turns {r : Except α (List α)} (hturns : Turns next s s') (h : s'.Ends next r) :
    s.Ends next r := by
  obtain ⟨t, ht, hresult⟩ := h
  exact ⟨t, hturns.trans ht, hresult⟩

/-- From each start on, the walk with a stack is the recursion. -/
theorem ends_foldlM {p₀ : Progress α} {walked xs : List α} (hrel : IsRelation elements next sources)
    (hcan : ∀ x ∈ xs, p₀.CanVisit next elements depth x) (hp : p₀.Walked next elements walked p)
    (hs : s.Shows elements p) (hstack : s.stack = []) (hstarts : s.starts = xs) :
    s.Ends next (xs.foldlM (visit next depth) p >>= fun p => .ok p.done) := by
  induction xs generalizing p s walked with
  | nil =>
    refine ⟨s, .refl, ?_⟩
    simp only [result?, turn, hstack, hstarts, hs.finished]
    rfl
  | cons x xs ih =>
    have hcanx := (hcan x List.mem_cons_self).walked hp
    have hcans : ∀ y ∈ xs, p₀.CanVisit next elements depth y := fun y hy =>
      hcan y (List.mem_cons_of_mem _ hy)
    have hturn : s.turn next =
        some (.ok { s with starts := xs, stack := if x ∈ s.discovered then [] else [x] }) := by
      simp only [turn, hstack, hstarts]
    refine Ends.of_turns (.single hturn) ?_
    rw [List.foldlM_cons]
    by_cases hx : x ∈ s.discovered
    · rw [visit_of_met ((hs.discovered x hcanx.mem).1 hx)]
      exact ih hcans hp ⟨hs.discovered, hs.finished⟩ (if_pos hx) rfl
    · have hentered : ¬ p.Entered elements x := fun h => hx ((hs.discovered x hcanx.mem).2 h.2.1)
      have hfollows : Follows next elements []
          { s with starts := xs, stack := if x ∈ s.discovered then [] else [x] }
          (visit next depth p x) :=
        follows_visit hrel hcanx hentered ⟨hs.discovered, hs.finished⟩ (if_neg hx)
      cases hq : visit next depth p x with
      | error y =>
        rw [hq] at hfollows
        obtain ⟨s', hturns, hstop⟩ := hfollows
        exact ⟨s', hturns, by rw [result?, hstop]; rfl⟩
      | ok q =>
        rw [hq] at hfollows
        obtain ⟨s', hturns, hs', hstack', hstarts'⟩ := hfollows
        refine Ends.of_turns hturns ?_
        exact ih hcans (hp.trans (visit_walked hrel hcanx hq)) hs' hstack' hstarts'

/-- **The walk with a stack ends with the finish order of the recursion.** -/
theorem ends_finishOrder (hrel : IsRelation elements next sources) :
    (start elements).Ends next (finishOrder next elements) := by
  have hstart : (⟨elements, []⟩ : Progress α).Walked next elements [] ⟨elements, []⟩ :=
    .refl (sound_start hrel) fun y hy => nomatch hy
  refine ends_foldlM hrel (fun _ => canVisit_start hrel) hstart ⟨fun x hx => ?_, rfl⟩ rfl rfl
  exact ⟨fun h => (nomatch h), fun h => absurd hx h⟩

/-- A walk ends in one way only. -/
theorem Ends.unique {r r' : Except α (List α)} (h : s.Ends next r) (h' : s.Ends next r') :
    r = r' := by
  obtain ⟨t, ht, hresult⟩ := h
  obtain ⟨t', ht', hresult'⟩ := h'
  have hunique : Relator.RightUnique fun s s' : Stacked α => s.turn next = some (.ok s') :=
    fun _ _ _ h₁ h₂ => Except.ok.inj (Option.some.inj (h₁.symm.trans h₂))
  -- no turn leads on from a state that has a result
  have hend : ∀ {t t' : Stacked α} {r : Except α (List α)}, t.result? next = some r →
      Turns next t t' → t = t' := by
    intro t t' r hresult hturns
    rcases ReflTransGen.cases_head hturns with heq | ⟨u, hu, -⟩
    · exact heq
    · rw [result?, hu] at hresult
      cases hresult
  obtain rfl : t = t' := by
    rcases ReflTransGen.total_of_right_unique hunique ht ht' with hturns | hturns
    · exact hend hresult hturns
    · exact (hend hresult' hturns).symm
  exact Option.some.inj (hresult.symm.trans hresult')

end Stacked

/-! ## The list read backwards -/

theorem map_fst_reach? (sources : α → List α) (discovered stack : List α) :
    (reach? sources discovered stack).map Prod.fst =
      stack.find? fun x => decide (x ∉ discovered) := by
  induction stack with
  | nil => rfl
  | cons x stack ih =>
    rw [reach?, List.find?_cons]
    by_cases hx : x ∈ discovered
    · simpa [hx] using ih
    · simp [hx]

/-- **The second element that is reached is the late source**, if no start is discovered before. -/
theorem secondReached?_eq {met starts : List α} (hnodup : starts.Nodup)
    (hnew : ∀ x ∈ starts, x ∉ met) :
    secondReached? sources met starts = lateSource? sources met starts := by
  induction starts generalizing met with
  | nil => rfl
  | cons x starts ih =>
    obtain ⟨hx, hnodup⟩ := List.nodup_cons.1 hnodup
    have hrest : ∀ y ∈ starts, y ∉ x :: met := by
      intro y hy
      rw [List.mem_cons, not_or]
      exact ⟨fun heq => hx (heq ▸ hy), hnew y (List.mem_cons_of_mem _ hy)⟩
    have hfirst : reach? sources met [x] = some (x, x :: met,
        (sources x).filter fun y => decide (y ∉ x :: met)) := by
      rw [reach?, if_neg (hnew x List.mem_cons_self), push_reverse, List.append_nil]
    have hsecond : (reach? sources (x :: met)
        ((sources x).filter fun y => decide (y ∉ x :: met))).map Prod.fst =
        (sources x).find? fun y => decide (y ∉ x :: met) := by
      rw [map_fst_reach?, List.find?_filter]
      simp only [and_self, Bool.decide_eq_true]
    rw [secondReached?, lateSource?, hfirst, ← hsecond, ← ih hnodup hrest]
    show (match reach? sources (x :: met) ((sources x).filter fun y => decide (y ∉ x :: met)) with
      | some (y, _, _) => some y
      | none => secondReached? sources (x :: met) starts) = _
    cases reach? sources (x :: met) ((sources x).filter fun y => decide (y ∉ x :: met)) <;> rfl

/-- **The search with a stack finds what `find?` finds**, and nothing else. -/
theorem finds_iff (hrel : IsRelation elements next sources) {r : Option α} :
    Finds elements next sources r ↔ r = find? elements next sources := by
  have hends := Stacked.ends_finishOrder hrel
  have hsecond : ∀ order, finishOrder next elements = .ok order →
      secondReached? sources [] order.reverse = lateSource? sources [] order.reverse := by
    intro order horder
    have hnodup := (finishOrder_eq_ok hrel horder).1
    exact secondReached?_eq (List.nodup_reverse.2 hnodup) fun _ _ hmem => nomatch hmem
  rw [find?]
  constructor
  · intro h
    cases h with
    | stopped h => rw [hends.unique h]
    | ended h =>
      have horder := hends.unique h
      rw [hsecond _ horder, horder]
  · rintro rfl
    cases horder : finishOrder next elements with
    | error x => exact .stopped (horder ▸ hends)
    | ok order =>
      show Finds elements next sources (lateSource? sources [] order.reverse)
      rw [← hsecond order horder]
      exact .ended (horder ▸ hends)

end SymbolMap.Loop
