import Mathlib.Logic.Relation

/-!
# Transition systems with an executable step

A system is a predicate on its initial states and a partial step function: `step s e` is
the state after event `e`, or `none` where `e` is not enabled.  A concrete run is replayed
by evaluation (`run`), a safety property is proved by induction over `Reachable`.

* `Reachable` — the states of all runs; `ReachableWhile ok` — the states of the runs whose
  steps all satisfy `ok`, a condition on the state before the step and its event.
* `Reachable.invariant`, `ReachableWhile.invariant` — the two induction rules.
* `Reachable.ofRun` — the last state of a replayed run is reachable.
* `AllSteps`, `allSteps_iff` — a condition on every step of a run, and when two such conditions
  single out the same runs.
* `Reachable.map` — a forward simulation carries reachable states to reachable states.
-/

/-- A system of states `σ` and events `ε` with a partial step function. -/
structure TransitionSystem (σ ε : Type*) where
  init : σ → Prop
  step : σ → ε → Option σ

namespace TransitionSystem

variable {σ ε τ δ : Type*} (sys : TransitionSystem σ ε)

/-- The states of the runs whose steps all satisfy `ok`. -/
inductive ReachableWhile (ok : σ → ε → Prop) : σ → Prop
  | init {s : σ} : sys.init s → ReachableWhile ok s
  | step {s s' : σ} {e : ε} :
      ReachableWhile ok s → ok s e → sys.step s e = some s' → ReachableWhile ok s'

/-- The states of all runs. -/
def Reachable : σ → Prop := sys.ReachableWhile (fun _ _ => True)

variable {sys}

theorem Reachable.ofInit {s : σ} (h : sys.init s) : sys.Reachable s := .init h

theorem Reachable.next {s s' : σ} {e : ε} (hs : sys.Reachable s) (h : sys.step s e = some s') :
    sys.Reachable s' := .step hs trivial h

/-- A run whose steps satisfy a condition is a run. -/
theorem ReachableWhile.mono {ok ok' : σ → ε → Prop} (himp : ∀ s e, ok s e → ok' s e) {s : σ}
    (h : sys.ReachableWhile ok s) : sys.ReachableWhile ok' s := by
  induction h with
  | init hs => exact .init hs
  | step _ hok hstep ih => exact .step ih (himp _ _ hok) hstep

theorem ReachableWhile.reachable {ok : σ → ε → Prop} {s : σ} (h : sys.ReachableWhile ok s) :
    sys.Reachable s := h.mono fun _ _ _ => trivial

/-- What holds initially and is kept by every step that satisfies `ok` holds in every state
    of a run whose steps all satisfy `ok`. -/
theorem ReachableWhile.invariant {ok : σ → ε → Prop} {P : σ → Prop}
    (hinit : ∀ s, sys.init s → P s)
    (hstep : ∀ s e s', P s → ok s e → sys.step s e = some s' → P s')
    {s : σ} (h : sys.ReachableWhile ok s) : P s := by
  induction h with
  | init hs => exact hinit _ hs
  | step _ hok hs ih => exact hstep _ _ _ ih hok hs

/-- What holds initially and is kept by every step holds in every reachable state. -/
theorem Reachable.invariant {P : σ → Prop} (hinit : ∀ s, sys.init s → P s)
    (hstep : ∀ s e s', P s → sys.step s e = some s' → P s')
    {s : σ} (h : sys.Reachable s) : P s :=
  ReachableWhile.invariant hinit (fun s e s' hp _ hs => hstep s e s' hp hs) h

variable (sys)

/-- Replay a list of events; `none` as soon as one of them is not enabled. -/
def run : σ → List ε → Option σ
  | s, [] => some s
  | s, e :: es => (sys.step s e).bind (fun s' => run s' es)

variable {sys}

@[simp] theorem run_nil (s : σ) : sys.run s [] = some s := rfl

theorem run_cons (s : σ) (e : ε) (es : List ε) :
    sys.run s (e :: es) = (sys.step s e).bind (fun s' => sys.run s' es) := rfl

/-- Replaying two lists in a row is replaying their concatenation. -/
theorem run_append (es fs : List ε) (s : σ) :
    sys.run s (es ++ fs) = (sys.run s es).bind (fun s' => sys.run s' fs) := by
  induction es generalizing s with
  | nil => rfl
  | cons e es ih =>
    rw [List.cons_append, run_cons, run_cons]
    cases sys.step s e with
    | none => rfl
    | some s' => simpa using ih s'

/-- What every step keeps, every run keeps. -/
theorem run_invariant {P : σ → Prop} (hstep : ∀ s e s', P s → sys.step s e = some s' → P s')
    {es : List ε} {s s' : σ} (hs : P s) (h : sys.run s es = some s') : P s' := by
  induction es generalizing s with
  | nil => cases h; exact hs
  | cons e es ih =>
    rw [run_cons, Option.bind_eq_some_iff] at h
    obtain ⟨t, ht, h⟩ := h
    exact ih (hstep s e t hs ht) h

/-- The last state of a replayed run is reachable. -/
theorem Reachable.ofRun {es : List ε} {s s' : σ} (hs : sys.Reachable s)
    (h : sys.run s es = some s') : sys.Reachable s' :=
  run_invariant (fun _ _ _ hp hstep => Reachable.next hp hstep) hs h

/-- Every step of the replay of a list of events satisfies a condition. -/
def AllSteps (sys : TransitionSystem σ ε) (P : σ → ε → Prop) : σ → List ε → Prop
  | _, [] => True
  | s, e :: es => ∀ s', sys.step s e = some s' → P s e ∧ AllSteps sys P s' es

/-- Two conditions that agree where an invariant holds, one of which keeps the invariant, hold
    of the steps of the same runs. -/
theorem allSteps_iff {P Q : σ → ε → Prop} {I : σ → Prop}
    (hiff : ∀ s e s', I s → sys.step s e = some s' → (P s e ↔ Q s e))
    (hkeep : ∀ s e s', I s → Q s e → sys.step s e = some s' → I s') {s : σ} (hs : I s)
    (es : List ε) : sys.AllSteps P s es ↔ sys.AllSteps Q s es := by
  induction es generalizing s with
  | nil => exact Iff.rfl
  | cons e es ih =>
    refine forall_congr' fun s' => forall_congr' fun hstep => ?_
    rw [hiff s e s' hs hstep]
    exact and_congr_right fun hq => ih (hkeep s e s' hs hq hstep)

/-- The system whose steps all satisfy a decidable condition: its runs can be replayed too. -/
def restrict (sys : TransitionSystem σ ε) (ok : σ → ε → Prop) [∀ s e, Decidable (ok s e)] :
    TransitionSystem σ ε where
  init := sys.init
  step := fun s e => if ok s e then sys.step s e else none

theorem ReachableWhile.ofRun {ok : σ → ε → Prop} [∀ s e, Decidable (ok s e)] {es : List ε}
    {s s' : σ} (hs : sys.ReachableWhile ok s) (h : (sys.restrict ok).run s es = some s') :
    sys.ReachableWhile ok s' := by
  refine run_invariant (fun t e t' ht hstep => ?_) hs h
  simp only [restrict] at hstep
  split at hstep
  · next hok => exact .step ht hok hstep
  · cases hstep

/-- **Forward simulation.** Where every concrete step is matched by a run of the abstract
    system, the abstraction of a reachable state is reachable. -/
theorem Reachable.map {abs : TransitionSystem τ δ} (f : σ → τ)
    (hinit : ∀ s, sys.init s → abs.init (f s))
    (hstep : ∀ s e s', sys.Reachable s → sys.step s e = some s' →
      ∃ es, abs.run (f s) es = some (f s'))
    {s : σ} (h : sys.Reachable s) : abs.Reachable (f s) := by
  have hboth : sys.Reachable s ∧ abs.Reachable (f s) := by
    refine Reachable.invariant (P := fun s => sys.Reachable s ∧ abs.Reachable (f s)) ?_ ?_ h
    · exact fun s hs => ⟨.ofInit hs, .ofInit (hinit s hs)⟩
    · rintro s e s' ⟨hr, ha⟩ hs
      obtain ⟨es, hes⟩ := hstep s e s' hr hs
      exact ⟨hr.next hs, ha.ofRun hes⟩
  exact hboth.2

end TransitionSystem
