import SymbolMap.Proofs.Descriptor.ClassNames

/-!
# Class names replaced one after the other

Replacing the class names in a descriptor is: read it, ask for a new name for each class name from
left to right, and put the answers in their places (`exists_fill`).  This holds in every monad, so
what is asked for, and in which order, does not depend on what the answers do besides.  A run that
fails and has a state (`Stateful`) can be recorded; it asks for the class names up to the first one
that is refused (`exec_recording_renameClasses`).

As a map on descriptors, replacing class names is a functor: the identity leaves every descriptor as
it is, and one replacement after another is the replacement by both at once, as long as the names
between can stand in a descriptor (`renameClasses_is_functor`).
-/

namespace SymbolMap

/-! ## Answers put in their places -/

theorem FieldType.exists_fill (t : FieldType) : ∃ fill : List String → FieldType,
    ∀ {m : Type → Type} [Monad m] [LawfulMonad m] (f : String → m String),
      t.renameClass f = fill <$> t.className?.toList.mapM f := by
  cases hname : t.className? with
  | none => exact ⟨fun _ => t, fun f => by simp [renameClass_of_none hname]⟩
  | some x =>
    exact ⟨fun answers => t.withClass (answers.headD x),
      fun f => by simp [renameClass_of_some hname]⟩

theorem FieldType.exists_fill_mapM (ts : List FieldType) : ∃ fill : List String → List FieldType,
    ∀ {m : Type → Type} [Monad m] [LawfulMonad m] (f : String → m String),
      ts.mapM (renameClass f) = fill <$> (ts.filterMap className?).mapM f := by
  induction ts with
  | nil => exact ⟨fun _ => [], fun f => by simp⟩
  | cons t ts ih =>
    obtain ⟨fill, hfill⟩ := ih
    cases hname : t.className? with
    | none =>
      refine ⟨fun answers => t :: fill answers, fun f => ?_⟩
      rw [List.mapM_cons, renameClass_of_none hname, hfill, List.filterMap_cons_none hname]
      simp
    | some x =>
      refine ⟨fun answers => t.withClass (answers.headD x) :: fill answers.tail, fun f => ?_⟩
      rw [List.mapM_cons, renameClass_of_some hname, hfill, List.filterMap_cons_some hname]
      simp

theorem MethodType.exists_fill (t : MethodType) : ∃ fill : List String → MethodType,
    ∀ {m : Type → Type} [Monad m] [LawfulMonad m] (f : String → m String),
      t.renameClasses f = fill <$> t.classNames.mapM f := by
  obtain ⟨parameters, result⟩ := t
  obtain ⟨fill, hfill⟩ := FieldType.exists_fill_mapM parameters
  cases result with
  | none =>
    refine ⟨fun answers => ⟨fill answers, none⟩, fun f => ?_⟩
    simp [renameClasses, classNames, hfill]
  | some r =>
    cases hname : r.className? with
    | none =>
      refine ⟨fun answers => ⟨fill answers, some r⟩, fun f => ?_⟩
      simp [renameClasses, classNames, hfill, hname, FieldType.renameClass_of_none hname]
    | some x =>
      -- the answer for the result is the last one
      refine ⟨fun answers => ⟨fill answers.dropLast, some (r.withClass (answers.getLastD x))⟩,
        fun f => ?_⟩
      simp [renameClasses, classNames, hfill, hname, FieldType.renameClass_of_some hname]

namespace Descriptor

variable {desc : String}

/-- **Replacing class names is asking for them from left to right** and putting the answers in their
places, in every monad. -/
theorem exists_fill {names : List String} (h : classNames desc = .ok names) :
    ∃ fill : List String → String,
      ∀ {m : Type → Type} [Monad m] [LawfulMonad m] [MonadExceptOf Failure m]
        (f : String → m String), renameClasses f desc = fill <$> names.mapM f := by
  rcases classNames_eq_ok_iff.1 h with ⟨t, ht, rfl⟩ | ⟨t, ht, rfl⟩
  · obtain ⟨fill, hfill⟩ := t.exists_fill
    refine ⟨fun answers => (fill answers).write, fun f => ?_⟩
    rw [renameClasses_eq_reread, reread, if_pos (isMethod_of_parse ht), ht]
    simp [orThrow, hfill]
  · obtain ⟨fill, hfill⟩ := t.exists_fill
    refine ⟨fun answers => (fill answers).write, fun f => ?_⟩
    rw [renameClasses_eq_reread, reread, not_isMethod_of_parse ht, ht]
    simp [orThrow, hfill]

/-- Nothing is asked for where no descriptor can be read. -/
theorem renameClasses_of_no_descriptor {m : Type → Type} [Monad m] [LawfulMonad m]
    [MonadExceptOf Failure m]
    (hthrow : ∀ {α β : Type} (e : Failure) (k : α → m β),
      (throwThe Failure e >>= k) = throwThe Failure e)
    {e : DescriptorError} (h : classNames desc = .error e) (f : String → m String) :
    renameClasses f desc = throwThe Failure (.of (.descriptor e)) := by
  rw [renameClasses_eq_reread, reread]
  rw [classNames] at h
  split at h
  · rename_i hmethod
    split at h
    · cases h
    · rename_i hparse
      cases h
      rw [if_pos hmethod, hparse]
      exact hthrow _ _
  · rename_i hmethod
    split at h
    · cases h
    · rename_i hparse
      cases h
      rw [if_neg hmethod, hparse]
      exact hthrow _ _

end Descriptor

/-! ## What is asked for -/

/-- Something that can fail, and that changes a state whether it fails or not. -/
abbrev Stateful (σ : Type) := ExceptT Failure (StateM σ)

namespace Stateful

variable {σ α β : Type}

/-- The outcome from a state, and the state after it. -/
def exec (x : Stateful σ α) (s : σ) : Outcome α × σ :=
  x.run.run s

@[simp] theorem exec_pure (a : α) (s : σ) : exec (pure a) s = (.ok a, s) := rfl

@[simp] theorem exec_throw (e : Failure) (s : σ) :
    exec (throwThe Failure e : Stateful σ α) s = (.error e, s) := rfl

theorem exec_bind (x : Stateful σ α) (k : α → Stateful σ β) (s : σ) :
    exec (x >>= k) s =
      match exec x s with
      | (.ok a, s') => exec (k a) s'
      | (.error e, s') => (.error e, s') := by
  have hrun : exec (x >>= k) s = (ExceptT.bindCont k (exec x s).1).run (exec x s).2 := rfl
  rw [hrun]
  rcases exec x s with ⟨_ | a, s'⟩ <;> rfl

theorem exec_map (g : α → β) (x : Stateful σ α) (s : σ) :
    exec (g <$> x) s = ((exec x s).1.map g, (exec x s).2) := by
  rw [map_eq_pure_bind, exec_bind]
  rcases exec x s with ⟨_ | a, s'⟩ <;> rfl

/-- Answers as `f` does, and records what it is asked for. -/
def recording (f : String → Stateful σ String) (x : String) : Stateful (σ × List String) String :=
  ExceptT.mk fun (s, before) =>
    let (answer, s') := exec (f x) s
    (answer, (s', before ++ [x]))

/-- The names of a list that are asked for one after the other: those up to the first one that is
refused. -/
def asked (f : String → Stateful σ String) : σ → List String → List String
  | _, [] => []
  | s, x :: xs =>
    match exec (f x) s with
    | (.ok _, s') => x :: asked f s' xs
    | (.error _, _) => [x]

variable {f : String → Stateful σ String} {s : σ}

theorem exec_recording (x : String) (before : List String) :
    exec (recording f x) (s, before) = ((exec (f x) s).1, (exec (f x) s).2, before ++ [x]) := rfl

theorem exec_mapM_recording (names before : List String) :
    exec (names.mapM (recording f)) (s, before) =
      ((exec (names.mapM f) s).1, (exec (names.mapM f) s).2, before ++ asked f s names) := by
  induction names generalizing s before with
  | nil => simp [asked]
  | cons x xs ih =>
    rw [List.mapM_cons, List.mapM_cons, exec_bind, exec_bind, exec_recording, asked]
    rcases exec (f x) s with ⟨e | y, s'⟩
    · rfl
    · simp only [bind_pure_comp, exec_map, ih, List.append_assoc, List.cons_append,
        List.nil_append]

end Stateful

namespace Descriptor

open Stateful

/-- **A recorded replacement** does what it does without the record, and asks for the class names up
to the first one that is refused. -/
theorem exec_recording_renameClasses {σ : Type} (f : String → Stateful σ String) (s : σ)
    (desc : String) :
    exec (renameClasses (recording f) desc) (s, []) =
      ((exec (renameClasses f desc) s).1, (exec (renameClasses f desc) s).2,
        asked f s ((classNames desc).toOption.getD [])) := by
  cases hnames : classNames desc with
  | error e =>
    rw [renameClasses_of_no_descriptor (fun _ _ => rfl) hnames,
      renameClasses_of_no_descriptor (fun _ _ => rfl) hnames]
    rfl
  | ok names =>
    obtain ⟨fill, hfill⟩ := exists_fill hnames
    rw [hfill, hfill, exec_map, exec_map, exec_mapM_recording]
    rfl

/-! ## Identity and composition -/

theorem renameClasses_pure {desc : String} (h : check desc = .ok ()) :
    renameClasses (pure : String → Outcome String) desc = .ok desc := by
  obtain ⟨names, hnames⟩ := check_eq_ok_iff.1 h
  obtain ⟨desc', hrename⟩ := exists_renameClasses_iff.2 ⟨names, hnames, fun x _ => ⟨x, rfl⟩⟩
  exact renameClasses_same hrename

theorem renameClasses_comp {f g : String → String} (hf : ∀ x, f x ≠ "" ∧ ';' ∉ (f x).toList)
    (desc : String) :
    (renameClasses (fun x => (pure (f x) : Outcome String)) desc >>=
        renameClasses fun x => pure (g x)) =
      renameClasses (fun x => pure (g (f x))) desc := by
  cases hnames : classNames desc with
  | error e =>
    rw [renameClasses_of_no_descriptor (fun _ _ => rfl) hnames,
      renameClasses_of_no_descriptor (fun _ _ => rfl) hnames]
    rfl
  | ok names =>
    obtain ⟨desc', hdesc'⟩ := (exists_renameClasses_iff (f := fun x => pure (f x))).2
      ⟨names, hnames, fun x _ => ⟨f x, rfl⟩⟩
    obtain ⟨desc'', hdesc''⟩ := (exists_renameClasses_iff (f := fun x => pure (g (f x)))).2
      ⟨names, hnames, fun x _ => ⟨g (f x), rfl⟩⟩
    rw [hdesc', hdesc'', Outcome.ok_bind]
    refine renameClasses_trans (fun x _ y hy => ?_) (fun x _ y z hy hz => ?_) hdesc' hdesc''
    · obtain rfl := Except.ok.inj hy
      exact ⟨by simpa using (hf x).1, (hf x).2⟩
    · obtain rfl := Except.ok.inj hy
      exact hz

/-- **Replacing class names is a functor, and the short way is sound.**  Without the short way for
trivial descriptors the same comes out in every monad; a run with a state asks for the class names
from left to right, those of the parameters before that of the result, up to the first one that is
refused; the identity keeps every descriptor; and two replacements after each other are one. -/
theorem renameClasses_is_functor :
    (∀ {m : Type → Type} [Monad m] [LawfulMonad m] [MonadExceptOf Failure m]
      (f : String → m String) (desc : String), renameClasses f desc = reread f desc) ∧
    (∀ {σ : Type} (f : String → Stateful σ String) (s : σ) (desc : String),
      exec (renameClasses (recording f) desc) (s, []) =
        ((exec (reread f desc) s).1, (exec (reread f desc) s).2,
          asked f s ((classNames desc).toOption.getD []))) ∧
    (∀ desc, check desc = .ok () →
      renameClasses (pure : String → Outcome String) desc = .ok desc) ∧
    ∀ f g : String → String, (∀ x, f x ≠ "" ∧ ';' ∉ (f x).toList) → ∀ desc,
      (renameClasses (fun x => (pure (f x) : Outcome String)) desc >>=
          renameClasses fun x => pure (g x)) =
        renameClasses (fun x => pure (g (f x))) desc := by
  refine ⟨renameClasses_eq_reread, fun f s desc => ?_, fun _ => renameClasses_pure,
    fun _ _ => renameClasses_comp⟩
  rw [← renameClasses_eq_reread]
  exact exec_recording_renameClasses f s desc

/-- Counts what it is asked for, and refuses the name `b`. -/
def refusingB (x : String) : Stateful Nat String := do
  modify (· + 1)
  if x = "b" then throwThe Failure (.of (.refused x)) else pure (x ++ x)

/-- Of three class names the second one is refused, and the third one is not asked for.  All three
are kept by the identity, and they are replaced twice, to names that cannot be read any more. -/
theorem renameClasses_of_three_names :
    exec (renameClasses (recording refusingB) "(I[La;Lb;)Lc;") (0, []) =
      (.error (.of (.refused "b")), 2, ["a", "b"]) ∧
    renameClasses (pure : String → Outcome String) "(I[La;Lb;)Lc;" = .ok "(I[La;Lb;)Lc;" ∧
    (renameClasses (fun x => (pure (if x = "a" then "d" else "e") : Outcome String))
        "(I[La;Lb;)Lc;" >>= renameClasses fun x => pure (if x = "d" then "f/g" else "")) =
      .ok "(I[Lf/g;L;)L;" := by
  obtain ⟨-, hrecord, hid, hcomp⟩ := renameClasses_is_functor
  refine ⟨?_, hid _ (by decide +kernel), ?_⟩
  · rw [hrecord]
    decide +kernel
  · rw [hcomp (fun x => if x = "a" then "d" else "e") (fun x => if x = "d" then "f/g" else "")]
    · decide +kernel
    · intro x
      by_cases hx : x = "a"
      · rw [if_pos hx]
        decide
      · rw [if_neg hx]
        decide

end Descriptor

end SymbolMap
