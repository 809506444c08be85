import Mathlib.Data.List.Nodup
import Mathlib.Logic.Relation
import SymbolMap.Program.Loop

/-!
# What a walk is done with first

`Loop.find?` walks through a relation depth-first and then reads the list of elements it is done
with backwards.  During the walk an element is unmet, done, or **entered**: it was met, and the walk
is still at something it leads to.  A walk to an element is done with all that it enters, so the
same elements are entered before and after it (`Walked`).

Every entered element leads to the element the walk is at.  So when the walk is done with an
element, whatever that leads to directly is done as well, or is entered and leads back to it
(`Finished`).  This is the one fact about the order that the search needs: if an element is done
before something that it leads to, the two are on a loop (`find?_eq_some`).  And without such a pair
the list read backwards goes along the relation, so that there is no loop (`find?_eq_none`).
-/

namespace SymbolMap.Loop

open Relation

variable {α : Type} {next sources : α → List α} {elements : List α}

/-- The first element leads to the second directly. -/
abbrev Leads (next : α → List α) (x y : α) : Prop :=
  y ∈ next x

/-- The relation is one of the elements, and is given in both directions. -/
structure IsRelation (elements : List α) (next sources : α → List α) : Prop where
  nodup : elements.Nodup
  mem : ∀ x y, Leads next x y → x ∈ elements ∧ y ∈ elements
  sources : ∀ x y, y ∈ sources x ↔ Leads next y x

/-! ## The walk -/

/-- The list is in an order in which elements can be done: what an element leads to directly stands
before it or leads back to it, and no element leads to itself directly. -/
def Finished (next : α → List α) (done : List α) : Prop :=
  ∀ before x after, done = before ++ x :: after →
    x ∉ next x ∧ ∀ y ∈ next x, y ∈ before ∨ ReflTransGen (Leads next) y x

theorem finished_nil : Finished next [] := by
  intro before x after hsplit
  cases before <;> cases hsplit

theorem Finished.snoc {done : List α} {x : α} (h : Finished next done) (hx : x ∉ next x)
    (hnext : ∀ y ∈ next x, y ∈ done ∨ ReflTransGen (Leads next) y x) :
    Finished next (done ++ [x]) := by
  intro before z after hsplit
  rcases List.eq_nil_or_concat after with rfl | ⟨after, last, rfl⟩
  · obtain ⟨rfl, hz⟩ := List.append_inj' hsplit rfl
    obtain rfl : x = z := by simpa using hz
    exact ⟨hx, hnext⟩
  · rw [List.concat_eq_append, ← List.cons_append, ← List.append_assoc] at hsplit
    exact h before z after (List.append_inj' hsplit rfl).1

namespace Progress

/-- The walk has met the element and is not done with it. -/
def Entered (elements : List α) (p : Progress α) (x : α) : Prop :=
  x ∈ elements ∧ x ∉ p.unmet ∧ x ∉ p.done

/-- The walk has come here without meeting anything twice. -/
structure Sound (next : α → List α) (p : Progress α) : Prop where
  unmet : p.unmet.Nodup
  done : p.done.Nodup
  apart : ∀ x ∈ p.done, x ∉ p.unmet
  order : Finished next p.done

/-- The second progress is the first one after a walk to the elements of a list. -/
structure Walked (next : α → List α) (elements : List α) (p : Progress α) (xs : List α)
    (p' : Progress α) : Prop where
  sound : p'.Sound next
  unmet : p'.unmet.Sublist p.unmet
  entered : ∀ x, p'.Entered elements x ↔ p.Entered elements x
  met : ∀ x ∈ xs, x ∉ p'.unmet

/-- The walk can go to the element: all that it has entered leads there, and it may go as deep as
there are unmet elements. -/
structure CanVisit (next : α → List α) (elements : List α) (depth : Nat) (p : Progress α) (x : α) :
    Prop where
  sound : p.Sound next
  deep : p.unmet.length ≤ depth
  mem : x ∈ elements
  lead : ∀ y, p.Entered elements y → ReflTransGen (Leads next) y x

variable {p p' q : Progress α} {x y : α} {xs ys : List α} {depth : Nat}

theorem Walked.refl (h : p.Sound next) (hmet : ∀ x ∈ xs, x ∉ p.unmet) :
    p.Walked next elements xs p :=
  ⟨h, .refl _, fun _ => Iff.rfl, hmet⟩

theorem Walked.trans (h : p.Walked next elements xs q) (h' : q.Walked next elements ys p') :
    p.Walked next elements (xs ++ ys) p' := by
  refine ⟨h'.sound, h'.unmet.trans h.unmet, fun y => (h'.entered y).trans (h.entered y), ?_⟩
  intro y hy
  rcases List.mem_append.1 hy with hy | hy
  · exact fun hunmet => h.met y hy (h'.unmet.subset hunmet)
  · exact h'.met y hy

/-- After a walk to something else the walk can still go to the element. -/
theorem CanVisit.walked (h : p.CanVisit next elements depth x) (hq : p.Walked next elements xs q) :
    q.CanVisit next elements depth x where
  sound := hq.sound
  deep := Nat.le_trans hq.unmet.length_le h.deep
  mem := h.mem
  lead y hy := h.lead y ((hq.entered y).1 hy)

variable [DecidableEq α]

/-- The progress on entering an element. -/
def enter (p : Progress α) (x : α) : Progress α :=
  { p with unmet := p.unmet.erase x }

/-- The progress on being done with an element. -/
def leave (p : Progress α) (x : α) : Progress α :=
  { p with done := p.done ++ [x] }

theorem Sound.enter (h : p.Sound next) (x : α) : (p.enter x).Sound next where
  unmet := h.unmet.erase x
  done := h.done
  apart y hy hunmet := h.apart y hy (List.mem_of_mem_erase hunmet)
  order := h.order

theorem Sound.entered_enter (h : p.Sound next) (hx : x ∈ p.unmet) (hmem : x ∈ elements) {y : α} :
    (p.enter x).Entered elements y ↔ y = x ∨ p.Entered elements y := by
  have hdone : x ∉ p.done := fun hdone => h.apart x hdone hx
  have herase : y ∈ p.unmet.erase x ↔ y ≠ x ∧ y ∈ p.unmet := h.unmet.mem_erase_iff
  simp only [Entered, Progress.enter, herase]
  by_cases hy : y = x
  · subst hy
    exact ⟨fun _ => .inl rfl, fun _ => ⟨hmem, fun hne => hne.1 rfl, hdone⟩⟩
  · simp only [hy, ne_eq, not_false_eq_true, true_and, false_or]

/-- On entering an element, the walk can go on to what the element leads to. -/
theorem CanVisit.enter (hrel : IsRelation elements next sources)
    (h : p.CanVisit next elements (depth + 1) x) (hx : x ∈ p.unmet) (hy : y ∈ next x) :
    (p.enter x).CanVisit next elements depth y where
  sound := h.sound.enter x
  deep := by
    have herase : (p.enter x).unmet.length = p.unmet.length - 1 := List.length_erase_of_mem hx
    have hdeep := h.deep
    omega
  mem := (hrel.mem x y hy).2
  lead z hz := by
    rcases (h.sound.entered_enter hx h.mem).1 hz with rfl | hz
    · exact .single hy
    · exact (h.lead z hz).tail hy

/-- **A walk through what an element leads to is a walk to the element**, once it is left. -/
theorem Walked.leave (hrel : IsRelation elements next sources)
    (hp : p.CanVisit next elements depth x) (hx : x ∈ p.unmet) (hloop : x ∉ next x)
    (h : (p.enter x).Walked next elements (next x) q) :
    p.Walked next elements [x] (q.leave x) := by
  have hentered : ∀ y, q.Entered elements y ↔ y = x ∨ p.Entered elements y := fun y =>
    (h.entered y).trans (hp.sound.entered_enter hx hp.mem)
  obtain ⟨-, hunmet, hdone⟩ := (hentered x).2 (.inl rfl)
  have hnext : ∀ y ∈ next x, y ∈ q.done ∨ ReflTransGen (Leads next) y x := by
    intro y hy
    by_cases hy' : y ∈ q.done
    · exact .inl hy'
    · -- the element was met and is not done, so it is entered
      rcases (hentered y).1 ⟨(hrel.mem x y hy).2, h.met y hy, hy'⟩ with rfl | hy
      · exact .inr .refl
      · exact .inr (hp.lead y hy)
  refine ⟨⟨h.sound.unmet, ?_, ?_, h.sound.order.snoc hloop hnext⟩, ?_, fun y => ?_, ?_⟩
  · rw [Progress.leave, List.nodup_append_comm, List.singleton_append, List.nodup_cons]
    exact ⟨hdone, h.sound.done⟩
  · intro y hy
    rcases List.mem_append.1 hy with hy | hy
    · exact h.sound.apart y hy
    · rw [List.mem_singleton.1 hy]
      exact hunmet
  · exact h.unmet.trans List.erase_sublist
  · constructor
    · rintro ⟨hy, hyunmet, hydone⟩
      rw [Progress.leave, List.mem_append, List.mem_singleton, not_or] at hydone
      exact ((hentered y).1 ⟨hy, hyunmet, hydone.1⟩).resolve_left hydone.2
    · intro hy
      obtain ⟨hymem, hyunmet, hydone⟩ := (hentered y).2 (.inr hy)
      refine ⟨hymem, hyunmet, ?_⟩
      rw [Progress.leave, List.mem_append, List.mem_singleton, not_or]
      exact ⟨hydone, fun heq => hy.2.1 (heq ▸ hx)⟩
  · intro y hy
    rw [List.mem_singleton.1 hy]
    exact hunmet

end Progress

variable {p p' : Progress α} {x y : α} {depth : Nat}

theorem sound_start (hrel : IsRelation elements next sources) :
    (⟨elements, []⟩ : Progress α).Sound next :=
  ⟨hrel.nodup, List.nodup_nil, fun _ hx => (nomatch hx), finished_nil⟩

/-- A walk can start at any element. -/
theorem canVisit_start (hrel : IsRelation elements next sources) (hx : x ∈ elements) :
    (⟨elements, []⟩ : Progress α).CanVisit next elements elements.length x :=
  ⟨sound_start hrel, Nat.le_refl _, hx, fun _ hy => absurd hy.1 hy.2.1⟩

/-- A walk through a list stops only if a walk to one of its elements does. -/
theorem mem_next_of_foldlM_error {f : Progress α → α → Except α (Progress α)} {xs : List α}
    (hf : ∀ q x, f q x = .error y → y ∈ next y) (h : xs.foldlM f p = .error y) : y ∈ next y := by
  induction xs generalizing p with
  | nil => cases h
  | cons x xs ih =>
    rw [List.foldlM_cons] at h
    cases hq : f p x with
    | error e =>
      rw [hq] at h
      obtain rfl := Except.error.inj h
      exact hf p x hq
    | ok q =>
      rw [hq] at h
      exact ih h

/-- A walk through a list is made of walks to its elements. -/
theorem foldlM_walked {f : Progress α → α → Except α (Progress α)} {xs : List α}
    (hf : ∀ x ∈ xs, ∀ q q', q.CanVisit next elements depth x → f q x = .ok q' →
      q.Walked next elements [x] q')
    (hp : p.Sound next) (hvisit : ∀ x ∈ xs, p.CanVisit next elements depth x)
    (h : xs.foldlM f p = .ok p') : p.Walked next elements xs p' := by
  induction xs generalizing p with
  | nil =>
    obtain rfl := Except.ok.inj h
    exact .refl hp fun x hx => nomatch hx
  | cons x xs ih =>
    rw [List.foldlM_cons] at h
    cases hq : f p x with
    | error e =>
      rw [hq] at h
      cases h
    | ok q =>
      rw [hq] at h
      have hwalked := hf x List.mem_cons_self p q (hvisit x List.mem_cons_self) hq
      refine hwalked.trans (ih (fun y hy => hf y (List.mem_cons_of_mem _ hy)) hwalked.sound
        (fun y hy => ?_) h)
      exact (hvisit y (List.mem_cons_of_mem _ hy)).walked hwalked

variable [DecidableEq α]

/-- The step of a walk, for an element that was met before and for one that was not. -/
theorem visit_succ (next : α → List α) (depth : Nat) (p : Progress α) (x : α) :
    visit next (depth + 1) p x =
      if x ∈ p.unmet then
        if x ∈ next x then .error x
        else (next x).foldlM (visit next depth) (p.enter x) >>= fun q => .ok (q.leave x)
      else .ok p := rfl

/-- A walk to an element that was met before is none. -/
theorem visit_of_met (hx : x ∉ p.unmet) : visit next depth p x = .ok p := by
  cases depth with
  | zero => rfl
  | succ depth => rw [visit_succ, if_neg hx]

/-- **A walk to an element** is done with all that it enters, in a finish order. -/
theorem visit_walked (hrel : IsRelation elements next sources)
    (hp : p.CanVisit next elements depth x) (h : visit next depth p x = .ok p') :
    p.Walked next elements [x] p' := by
  induction depth generalizing p p' x with
  | zero =>
    obtain rfl := Except.ok.inj h
    refine .refl hp.sound fun y _ hy => ?_
    rw [List.length_eq_zero_iff.1 (Nat.le_zero.1 hp.deep)] at hy
    cases hy
  | succ depth ih =>
    rw [visit_succ] at h
    split at h
    · rename_i hunmet
      split at h
      · cases h
      · rename_i hloop
        cases hq : (next x).foldlM (visit next depth) (p.enter x) with
        | error e =>
          rw [hq] at h
          cases h
        | ok q =>
          rw [hq] at h
          obtain rfl := Except.ok.inj h
          refine Progress.Walked.leave hrel hp hunmet hloop ?_
          exact foldlM_walked (fun y _ q q' => ih) (hp.sound.enter x)
            (fun y => hp.enter hrel hunmet) hq
    · rename_i hmet
      obtain rfl := Except.ok.inj h
      refine .refl hp.sound fun y hy => ?_
      rw [List.mem_singleton.1 hy]
      exact hmet

/-- A walk stops only at an element that leads to itself directly. -/
theorem mem_next_of_visit_error (h : visit next depth p x = .error y) : y ∈ next y := by
  induction depth generalizing p x with
  | zero => cases h
  | succ depth ih =>
    rw [visit_succ] at h
    split at h
    · split at h
      · rename_i hloop
        obtain rfl := Except.error.inj h
        exact hloop
      · cases hq : (next x).foldlM (visit next depth) (p.enter x) with
        | ok q =>
          rw [hq] at h
          cases h
        | error e =>
          rw [hq] at h
          obtain rfl := Except.error.inj h
          exact mem_next_of_foldlM_error (fun q x => ih) hq
    · cases h

/-- **The elements are listed once each, in a finish order.** -/
theorem finishOrder_eq_ok (hrel : IsRelation elements next sources) {order : List α}
    (h : finishOrder next elements = .ok order) :
    order.Nodup ∧ Finished next order ∧ ∀ x ∈ elements, x ∈ order := by
  rw [finishOrder] at h
  cases hp : elements.foldlM (visit next elements.length) ⟨elements, []⟩ with
  | error e =>
    rw [hp] at h
    cases h
  | ok p =>
    rw [hp] at h
    obtain rfl := Except.ok.inj h
    have hwalked : (⟨elements, []⟩ : Progress α).Walked next elements elements p :=
      foldlM_walked (fun _ _ _ _ => visit_walked hrel) (sound_start hrel)
        (fun _ => canVisit_start hrel) hp
    refine ⟨hwalked.sound.done, hwalked.sound.order, fun x hx => ?_⟩
    by_contra hdone
    obtain ⟨-, hunmet, -⟩ := (hwalked.entered x).1 ⟨hx, hwalked.met x hx, hdone⟩
    exact hunmet hx

/-! ## The list read backwards -/

theorem lateSource?_eq_none {met xs : List α} (h : lateSource? sources met xs = none)
    {before after : List α} (hsplit : xs = before ++ x :: after) :
    ∀ y ∈ sources x, y = x ∨ y ∈ met ∨ y ∈ before := by
  induction xs generalizing met before with
  | nil => simp at hsplit
  | cons z xs ih =>
    rw [lateSource?] at h
    split at h
    · cases h
    · rename_i hfind
      intro y hy
      cases before with
      | nil =>
        obtain ⟨rfl, rfl⟩ := List.cons.inj hsplit
        have hmet := List.find?_eq_none.1 hfind y hy
        simp only [decide_eq_true_eq, not_not, List.mem_cons] at hmet
        rcases hmet with hmet | hmet
        · exact .inl hmet
        · exact .inr (.inl hmet)
      | cons b before =>
        obtain ⟨rfl, hrest⟩ := List.cons.inj hsplit
        rcases ih h hrest y hy with hsame | hmet | hbefore
        · exact .inl hsame
        · rcases List.mem_cons.1 hmet with rfl | hmet
          · exact .inr (.inr List.mem_cons_self)
          · exact .inr (.inl hmet)
        · exact .inr (.inr (List.mem_cons_of_mem _ hbefore))

theorem exists_of_lateSource? {met xs : List α} (h : lateSource? sources met xs = some y) :
    ∃ before x after, xs = before ++ x :: after ∧ y ∈ sources x ∧ y ≠ x ∧ y ∉ met ∧ y ∉ before := by
  induction xs generalizing met with
  | nil => cases h
  | cons z xs ih =>
    rw [lateSource?] at h
    split at h
    · rename_i y' hfind
      obtain rfl := Option.some.inj h
      have hlate := List.find?_some hfind
      simp only [decide_eq_true_eq, List.mem_cons, not_or] at hlate
      exact ⟨[], z, xs, rfl, List.mem_of_find?_eq_some hfind, hlate.1, hlate.2, List.not_mem_nil⟩
    · obtain ⟨before, x, after, rfl, hy, hne, hmet, hbefore⟩ := ih h
      rw [List.mem_cons, not_or] at hmet
      refine ⟨z :: before, x, after, rfl, hy, hne, hmet.2, ?_⟩
      rw [List.mem_cons, not_or]
      exact ⟨hmet.1, hbefore⟩

/-! ## Loops -/

/-- **What is found is on a loop.** -/
theorem find?_eq_some (hrel : IsRelation elements next sources)
    (h : find? elements next sources = some y) : TransGen (Leads next) y y := by
  rw [find?] at h
  cases horder : finishOrder next elements with
  | error x =>
    rw [horder] at h
    obtain rfl := Option.some.inj h
    rw [finishOrder] at horder
    cases hp : elements.foldlM (visit next elements.length) ⟨elements, []⟩ with
    | ok p =>
      rw [hp] at horder
      cases horder
    | error e =>
      rw [hp] at horder
      obtain rfl := Except.error.inj horder
      exact .single (mem_next_of_foldlM_error (fun q x => mem_next_of_visit_error) hp)
  | ok order =>
    rw [horder] at h
    obtain ⟨hnodup, hfinished, hall⟩ := finishOrder_eq_ok hrel horder
    obtain ⟨before, x, after, hsplit, hsource, hne, -, hbefore⟩ := exists_of_lateSource? h
    have hlead : Leads next y x := (hrel.sources x y).1 hsource
    -- the source is done before the element, and so the element leads back to it
    have horder' : order = after.reverse ++ x :: before.reverse := by
      rw [← List.reverse_reverse order, hsplit]
      simp
    have hy : y ∈ after.reverse := by
      have hmem := hall y (hrel.mem y x hlead).1
      rw [horder', List.mem_append, List.mem_cons] at hmem
      rcases hmem with hmem | hmem | hmem
      · exact hmem
      · exact absurd hmem hne
      · exact absurd (List.mem_reverse.1 hmem) hbefore
    obtain ⟨early, late, hlate⟩ := List.append_of_mem hy
    rw [hlate, List.append_assoc, List.cons_append] at horder'
    rcases (hfinished early y _ horder').2 x hlead with hx | hback
    · rw [horder', List.nodup_append] at hnodup
      exact absurd rfl (hnodup.2.2 x hx x (by simp))
    · exact .head' hlead hback

/-- **If nothing is found, there is no loop.** -/
theorem find?_eq_none (hrel : IsRelation elements next sources)
    (h : find? elements next sources = none) (x : α) : ¬ TransGen (Leads next) x x := by
  rw [find?] at h
  cases horder : finishOrder next elements with
  | error e =>
    rw [horder] at h
    cases h
  | ok order =>
    rw [horder] at h
    obtain ⟨hnodup, hfinished, hall⟩ := finishOrder_eq_ok hrel horder
    -- read backwards, an element stands before all that it leads to
    have hstep : ∀ y z, Leads next y z → order.reverse.idxOf y < order.reverse.idxOf z := by
      intro y z hlead
      have hz : z ∈ order := hall z (hrel.mem y z hlead).2
      obtain ⟨before, after, hsplit⟩ := List.append_of_mem (List.mem_reverse.2 hz)
      have hloop : y ≠ z := by
        rintro rfl
        obtain ⟨early, late, hearly⟩ := List.append_of_mem hz
        exact (hfinished early y late hearly).1 hlead
      have hy : y ∈ before := by
        rcases lateSource?_eq_none h hsplit y ((hrel.sources z y).2 hlead) with hsame | hmet | hy
        · exact absurd hsame hloop
        · cases hmet
        · exact hy
      have hz' : z ∉ before := by
        have hreverse := List.nodup_reverse.2 hnodup
        rw [hsplit, List.nodup_append] at hreverse
        exact fun hmem => hreverse.2.2 z hmem z List.mem_cons_self rfl
      rw [hsplit, List.idxOf_append_of_mem hy, List.idxOf_append_of_notMem hz', List.idxOf_cons_self]
      exact List.idxOf_lt_length_of_mem hy
    have hlt : ∀ y z, TransGen (Leads next) y z →
        order.reverse.idxOf y < order.reverse.idxOf z := by
      intro y z hyz
      induction hyz with
      | single hlead => exact hstep _ _ hlead
      | tail _ hlead ih => exact Nat.lt_trans ih (hstep _ _ hlead)
    exact fun hloop => Nat.lt_irrefl _ (hlt x x hloop)

end SymbolMap.Loop
