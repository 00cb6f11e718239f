import AgentHost.Lib.Routines

/-!
# Routines that own parts of the shared state

Calls of routines each of which relies on what the others leave alone: what a call owns, by its
number.  What one call does is then what every other one relies on.

* `RoutineSystem.Owned` — what makes the calls of a program sound where each relies on its own part
  of the shared state; `Owned.contract` is the contract of one call.
* `Contract.ensures_act`, `Contract.Ensures.preserving` — one action, and a routine that leaves
  alone what the call knows.
* `RoutineSystem.Owned.of_reachable` — **Main**: the invariant holds in every run, and every call
  that is alive keeps its contract.
-/

namespace Contract

variable {σ A C ε α β : Type} {R : A → Type} {contract : Contract σ A R C}

/-- One action and what comes after it. -/
theorem ensures_act {action : A} {next : R action → Routine A R ε α} {returns : α → σ → Prop}
    {throws : ε → σ → Prop} {s : σ}
    (h : ∀ s' c s'' reply, contract.invariant s' → contract.rely s s' →
      contract.perform action c s' = some (s'', reply) →
        contract.invariant s'' ∧ contract.guarantee s' s'' ∧
          contract.Ensures (next reply) returns throws s'') :
    contract.Ensures (.act action next) returns throws s :=
  fun s' hinv hrely c s'' reply hperform => h s' c s'' reply hinv hrely hperform

/-- A routine that preserves what is stable, before another one. -/
theorem Ensures.preserving {routine : Routine A R ε α} {f : α → Routine A R ε β}
    {returns : β → σ → Prop} {throws : ε → σ → Prop} {P : σ → Prop} {s : σ}
    (hroutine : contract.Preserves routine) (hstable : contract.Stable P) (hs : P s)
    (hnext : ∀ value s, P s → contract.Ensures (f value) returns throws s)
    (hthrows : ∀ error s, P s → throws error s) :
    contract.Ensures (routine.bind f) returns throws s := by
  rw [ensures_bind]
  exact (hroutine P hstable s hs).mono hnext hthrows

end Contract

namespace RoutineSystem

variable {σ A ε α κ Q C W : Type} {R : A → Type} [DecidableEq κ]
  (sys : RoutineSystem σ A R ε α κ Q C W)

/-- The contract of the call with a given number: what it does is what every other call relies
    on. -/
def ownContract (invariant : σ → Prop) (rely : Nat → σ → σ → Prop) (n : Nat) :
    Contract σ A R C where
  perform := sys.perform n
  invariant := invariant
  rely := rely n
  guarantee := fun s s' => ∀ m, m ≠ n → rely m s s'

/-- What makes the calls of a program sound, where each call relies on what is its own. -/
structure Owned (init invariant : σ → Prop) (rely : Nat → σ → σ → Prop) : Prop where
  init : ∀ s, init s → invariant s
  refl : ∀ n s, rely n s s
  trans : ∀ n a b c, rely n a b → rely n b c → rely n a c
  world : ∀ change s s', invariant s → sys.world change s = some s' →
    invariant s' ∧ ∀ n, rely n s s'
  restart : ∀ s, invariant s → invariant (sys.restart s)
  code : ∀ n request s, invariant s →
    (sys.ownContract invariant rely n).Ensures (sys.code request) (fun _ _ => True)
      (fun _ _ => True) s

/-- The invariant holds, and every call that is alive keeps its contract. -/
structure OwnHolds (invariant : σ → Prop) (rely : Nat → σ → σ → Prop)
    (s : RoutineState σ A R ε α Q) : Prop where
  shared : invariant s.shared
  calls : ∀ n call, s.calls[n]? = some call → call.alive = true →
    (sys.ownContract invariant rely n).Ensures call.routine (fun _ _ => True) (fun _ _ => True)
      s.shared

variable {sys} {init invariant : σ → Prop} {rely : Nat → σ → σ → Prop}
  {s s' : RoutineState σ A R ε α Q}

/-- **Step.** What the next action of a call does. -/
theorem OwnHolds.advance (howned : sys.Owned init invariant rely)
    (h : sys.OwnHolds invariant rely s) {n : Nat} {c : C}
    (hstep : sys.step s (.advance n c) = some s') : sys.OwnHolds invariant rely s' := by
  simp only [step] at hstep
  split at hstep
  case h_1 => cases hstep
  next call hcall =>
  split at hstep
  case isFalse => cases hstep
  next hruns =>
  rw [Bool.and_eq_true] at hruns
  split at hstep
  case h_2 => cases hstep
  next action next hroutine =>
  split at hstep
  case h_1 => cases hstep
  next shared reply hperform =>
  obtain rfl := Option.some.inj hstep
  have hensures := h.calls n call hcall hruns.1
  rw [hroutine] at hensures
  obtain ⟨hinvariant, hguarantee, hnext⟩ :=
    hensures s.shared h.shared (howned.refl _ _) c shared reply hperform
  refine ⟨hinvariant, fun m other hother halive => ?_⟩
  obtain ⟨rfl, rfl⟩ | ⟨hne, hold⟩ := getElem?_set_call hother
  · exact hnext
  · exact (h.calls m other hold halive).stable (howned.trans m) (hguarantee m hne)
      (fun _ => id) (fun _ => id)

/-- Everything that happens keeps what holds of the calls. -/
theorem OwnHolds.step (howned : sys.Owned init invariant rely)
    (h : sys.OwnHolds invariant rely s) {e : RoutineEvent Q C W}
    (hstep : sys.step s e = some s') : sys.OwnHolds invariant rely s' := by
  cases e with
  | advance n c => exact h.advance howned hstep
  | call request =>
    cases hstep
    refine ⟨h.shared, fun n call hcall halive => ?_⟩
    rw [List.getElem?_append] at hcall
    split at hcall
    · exact h.calls n call hcall halive
    · have hmem := List.mem_of_getElem? hcall
      obtain rfl := List.mem_singleton.mp hmem
      exact howned.code n request s.shared h.shared
  | world change =>
    obtain ⟨shared, hworld, rfl⟩ := Option.map_eq_some_iff.mp hstep
    obtain ⟨hinvariant, hrely⟩ := howned.world change _ _ h.shared hworld
    refine ⟨hinvariant, fun n call hcall halive => ?_⟩
    exact (h.calls n call hcall halive).stable (howned.trans n) (hrely n) (fun _ => id)
      (fun _ => id)
  | crash =>
    cases hstep
    refine ⟨howned.restart _ h.shared, fun n call hcall halive => ?_⟩
    rw [List.getElem?_map, Option.map_eq_some_iff] at hcall
    obtain ⟨old, _, rfl⟩ := hcall
    cases halive

/-- **Main.** The invariant holds in every run, and every call that is alive keeps its contract. -/
theorem Owned.of_reachable (howned : sys.Owned init invariant rely)
    (h : (sys.system init).Reachable s) : sys.OwnHolds invariant rely s := by
  refine h.invariant ?_ fun s e s' hs (hstep : sys.step s e = some s') => hs.step howned hstep
  rintro s ⟨hinit, hcalls⟩
  refine ⟨howned.init _ hinit, fun n call hcall => ?_⟩
  rw [hcalls] at hcall
  cases hcall

end RoutineSystem
