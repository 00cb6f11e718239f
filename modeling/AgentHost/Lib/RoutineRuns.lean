import AgentHost.Lib.Routines

/-!
# Runs of one routine

A routine that runs alone: each of its actions meets with one choice.  Where the choices end before
the routine does, it is stopped there, as by a crash; so the choices that a list begins with give
every point of its run.

* `Routine.run` — the state after a run, and its outcome.
* `Routine.eval` — a run in which every action is done, with its rules for composed routines;
  `Routine.exists_run_eq_eval` — enough choices give such a run.
* `Routine.Performs` — which actions a routine may do; `Routine.Performs.run` — what they all keep.
* `Contract.alone` — the rules of a routine that nothing interferes with.
* `Contract.Ensures.withInvariant` — the invariant holds wherever such a routine ends.
* `Contract.Ensures.run` — **Main**: a routine that keeps its contract leaves a state with the
  invariant wherever it is stopped, and ends as the postconditions say.
-/

/-- How a run ends. -/
inductive Outcome (ε α : Type)
  | stopped
  | returned (value : α)
  | threw (error : ε)
  deriving DecidableEq

/-- Whether the routine has returned. -/
def Outcome.hasReturned {ε α : Type} : Outcome ε α → Bool
  | .returned _ => true
  | _ => false

/-- What holds of the state that a routine ends in. -/
def Outcome.Meets {σ ε α : Type} (returns : α → σ → Prop) (throws : ε → σ → Prop) (s : σ) :
    Outcome ε α → Prop
  | .stopped => True
  | .returned value => returns value s
  | .threw error => throws error s

namespace Routine

variable {σ A C ε α : Type} {R : A → Type}

/-- The state after a run with the given choices, and its outcome. -/
def run (perform : (action : A) → C → σ → Option (σ × R action)) :
    Routine A R ε α → List C → σ → σ × Outcome ε α
  | .done value, _, s => (s, .returned value)
  | .fail error, _, s => (s, .threw error)
  | .act _ _, [], s => (s, .stopped)
  | .act action next, choice :: choices, s =>
    match perform action choice s with
    | none => (s, .stopped)
    | some (s', reply) => (next reply).run perform choices s'

/-- Every action that a routine may do satisfies a predicate. -/
def Performs (P : A → Prop) : Routine A R ε α → Prop
  | .act action next => P action ∧ ∀ reply, (next reply).Performs P
  | _ => True

variable {β δ : Type} {P : A → Prop} {routine : Routine A R ε α}

theorem performs_done (value : α) : (.done value : Routine A R ε α).Performs P := trivial

theorem performs_fail (error : ε) : (.fail error : Routine A R ε α).Performs P := trivial

theorem Performs.bind (h : routine.Performs P) {f : α → Routine A R ε β}
    (hf : ∀ value, (f value).Performs P) : (routine.bind f).Performs P := by
  induction routine with
  | done value => exact hf value
  | fail error => trivial
  | act action next ih => exact ⟨h.1, fun reply => ih reply (h.2 reply)⟩

theorem Performs.tryCatch (h : routine.Performs P) {handler : ε → Routine A R δ α}
    (hhandler : ∀ error, (handler error).Performs P) : (routine.tryCatch handler).Performs P := by
  induction routine with
  | done value => trivial
  | fail error => exact hhandler error
  | act action next ih => exact ⟨h.1, fun reply => ih reply (h.2 reply)⟩

theorem Performs.attempt (h : routine.Performs P) :
    (routine.attempt : Routine A R δ (Except ε α)).Performs P := by
  induction routine with
  | done value => trivial
  | fail error => trivial
  | act action next ih => exact ⟨h.1, fun reply => ih reply (h.2 reply)⟩

/-- What each of its actions keeps, a run of the routine keeps. -/
theorem Performs.run (h : routine.Performs P)
    {perform : (action : A) → C → σ → Option (σ × R action)} {invariant : σ → Prop}
    (hperform : ∀ action choice s s' reply, P action → invariant s →
      perform action choice s = some (s', reply) → invariant s') (choices : List C) {s : σ}
    (hs : invariant s) : invariant (routine.run perform choices s).1 := by
  induction routine generalizing s choices with
  | done value => exact hs
  | fail error => exact hs
  | act action next ih =>
    cases choices with
    | nil => exact hs
    | cons choice choices =>
      simp only [Routine.run]
      split
      · exact hs
      · next s' reply hsome =>
        exact ih reply (h.2 reply) choices (hperform action choice s s' reply h.1 hs hsome)

end Routine

namespace Contract

variable {σ A C ε α β : Type} {R : A → Type} {contract : Contract σ A R C}
  {routine : Routine A R ε α} {returns : α → σ → Prop} {throws : ε → σ → Prop} {s : σ}

/-- Sequencing, with what the first routine ensures in between. -/
theorem Ensures.andThen (h : contract.Ensures routine returns throws s) {f : α → Routine A R ε β}
    {returns' : β → σ → Prop} {throws' : ε → σ → Prop}
    (hf : ∀ value s', returns value s' → contract.Ensures (f value) returns' throws' s')
    (hthrows : ∀ error s', throws error s' → throws' error s') :
    contract.Ensures (routine.bind f) returns' throws' s :=
  ensures_bind.mpr (h.mono hf hthrows)

/-- A handler, with what the routine ensures where it throws. -/
theorem Ensures.orElse {δ : Type} (h : contract.Ensures routine returns throws s)
    {handler : ε → Routine A R δ α} {returns' : α → σ → Prop} {throws' : δ → σ → Prop}
    (hreturns : ∀ value s', returns value s' → returns' value s')
    (hhandler : ∀ error s', throws error s' →
      contract.Ensures (handler error) returns' throws' s') :
    contract.Ensures (routine.tryCatch handler) returns' throws' s :=
  ensures_tryCatch.mpr (h.mono hreturns hhandler)

/-- The rules of a routine that runs alone: nothing changes between two of its actions. -/
def alone (perform : (action : A) → C → σ → Option (σ × R action)) (invariant : σ → Prop) :
    Contract σ A R C where
  perform := perform
  invariant := invariant
  rely := Eq
  guarantee := fun _ _ => True

/-- The invariant holds wherever a routine that runs alone ends. -/
theorem Ensures.withInvariant {perform : (action : A) → C → σ → Option (σ × R action)}
    {invariant : σ → Prop} (h : (alone perform invariant).Ensures routine returns throws s)
    (hs : invariant s) :
    (alone perform invariant).Ensures routine (fun value s' => invariant s' ∧ returns value s')
      (fun error s' => invariant s' ∧ throws error s') s := by
  induction routine generalizing s with
  | done value => exact ⟨hs, h⟩
  | fail error => exact ⟨hs, h⟩
  | act action next ih =>
    intro s' hinvariant hrely choice s'' reply hperform
    obtain ⟨hs'', hguarantee, hnext⟩ := h s' hinvariant hrely choice s'' reply hperform
    exact ⟨hs'', hguarantee, ih reply hnext hs''⟩

/-- **Main.** A run of a routine that keeps its contract: the invariant holds wherever it stops, and
    the postconditions hold where it ends. -/
theorem Ensures.run {perform : (action : A) → C → σ → Option (σ × R action)} {invariant : σ → Prop}
    (h : (alone perform invariant).Ensures routine returns throws s) (hs : invariant s)
    (choices : List C) :
    invariant (routine.run perform choices s).1 ∧
      (routine.run perform choices s).2.Meets returns throws (routine.run perform choices s).1 := by
  induction routine generalizing s choices with
  | done value => exact ⟨hs, h⟩
  | fail error => exact ⟨hs, h⟩
  | act action next ih =>
    cases choices with
    | nil => exact ⟨hs, trivial⟩
    | cons choice choices =>
      simp only [Routine.run]
      split
      · exact ⟨hs, trivial⟩
      · next s' reply hperform =>
        obtain ⟨hs', _, hnext⟩ := h s hs rfl choice s' reply hperform
        exact ih reply hnext hs' choices

end Contract

/-! ### Runs in which every action is done -/

namespace Outcome

/-- The outcome of a routine that has ended. -/
def ofExcept {ε α : Type} : Except ε α → Outcome ε α
  | .ok value => .returned value
  | .error error => .threw error

end Outcome

namespace Routine

variable {σ A C ε δ α β : Type} {R : A → Type} {step : (action : A) → σ → σ × R action}
  {routine : Routine A R ε α} {s s' : σ}

/-- The state after a run in which every action does what a function says, and how it ends. -/
def eval (step : (action : A) → σ → σ × R action) : Routine A R ε α → σ → σ × Except ε α
  | .done value, s => (s, .ok value)
  | .fail error, s => (s, .error error)
  | .act action next, s => (next (step action s).2).eval step (step action s).1

@[simp] theorem eval_done (value : α) (s : σ) :
    (.done value : Routine A R ε α).eval step s = (s, .ok value) := rfl

@[simp] theorem eval_fail (error : ε) (s : σ) :
    (.fail error : Routine A R ε α).eval step s = (s, .error error) := rfl

theorem eval_bind {value : α} (h : routine.eval step s = (s', .ok value))
    (f : α → Routine A R ε β) : (routine.bind f).eval step s = (f value).eval step s' := by
  induction routine generalizing s with
  | done v =>
    obtain ⟨rfl, hvalue⟩ := Prod.mk.inj h
    rw [← Except.ok.inj hvalue]
    rfl
  | fail error => cases (Prod.mk.inj h).2
  | act action next ih => exact ih _ h

theorem eval_bind_error {error : ε} (h : routine.eval step s = (s', .error error))
    (f : α → Routine A R ε β) : (routine.bind f).eval step s = (s', .error error) := by
  induction routine generalizing s with
  | done v => cases (Prod.mk.inj h).2
  | fail error' =>
    obtain ⟨rfl, herror⟩ := Prod.mk.inj h
    rw [← Except.error.inj herror]
    rfl
  | act action next ih => exact ih _ h

theorem eval_tryCatch {value : α} (h : routine.eval step s = (s', .ok value))
    (handler : ε → Routine A R δ α) :
    (routine.tryCatch handler).eval step s = (s', .ok value) := by
  induction routine generalizing s with
  | done v =>
    obtain ⟨rfl, hvalue⟩ := Prod.mk.inj h
    rw [← Except.ok.inj hvalue]
    rfl
  | fail error => cases (Prod.mk.inj h).2
  | act action next ih => exact ih _ h

theorem eval_tryCatch_error {error : ε} (h : routine.eval step s = (s', .error error))
    (handler : ε → Routine A R δ α) :
    (routine.tryCatch handler).eval step s = (handler error).eval step s' := by
  induction routine generalizing s with
  | done v => cases (Prod.mk.inj h).2
  | fail error' =>
    obtain ⟨rfl, herror⟩ := Prod.mk.inj h
    rw [← Except.error.inj herror]
    rfl
  | act action next ih => exact ih _ h

theorem eval_attempt {result : Except ε α} (h : routine.eval step s = (s', result)) :
    (routine.attempt : Routine A R δ (Except ε α)).eval step s = (s', .ok result) := by
  induction routine generalizing s with
  | done v =>
    obtain ⟨rfl, rfl⟩ := Prod.mk.inj h
    rfl
  | fail error =>
    obtain ⟨rfl, rfl⟩ := Prod.mk.inj h
    rfl
  | act action next ih => exact ih _ h

/-- With one choice after the other, a routine comes to its end. -/
theorem exists_run_eq_eval {perform : (action : A) → C → σ → Option (σ × R action)} {choice : C}
    (hstep : ∀ action s, perform action choice s = some (step action s))
    (routine : Routine A R ε α) (s : σ) :
    ∃ n, ∀ m ≥ n, routine.run perform (List.replicate m choice) s =
      ((routine.eval step s).1, .ofExcept (routine.eval step s).2) := by
  induction routine generalizing s with
  | done value => exact ⟨0, fun _ _ => rfl⟩
  | fail error => exact ⟨0, fun _ _ => rfl⟩
  | act action next ih =>
    obtain ⟨n, hn⟩ := ih (step action s).2 (step action s).1
    refine ⟨n + 1, fun m hm => ?_⟩
    obtain ⟨m, rfl⟩ := Nat.exists_eq_add_of_le' hm
    rw [← Nat.add_assoc, List.replicate_succ]
    simp only [run, hstep]
    exact hn _ (Nat.le_add_left n m)

end Routine
