import AgentHost.Lib.TransitionSystem

/-!
# Routines that interleave at their actions

The code of an asynchronous function: a `Routine` is finished, or about to do an action on what all
routines share and go on with its reply.  Between two actions of a routine, others do theirs.
Routines with one key run one after the other; a crash ends all of them.

* `Routine.bind`, `Routine.tryCatch`, `Routine.attempt` — sequencing, handlers, and outcomes as
  values.
* `RoutineSystem.system` — the runs of calls of such routines over a shared state.
* `Contract.Ensures` — what a routine makes of the shared state, whatever others do to it between
  its actions within a rely condition; `ensures_bind`, `ensures_tryCatch`, `ensures_attempt` are its
  rules for composed routines.
* `Contract.Preserves` — routines that do only what others may do, and how they compose.
* `RoutineSystem.Sound.of_reachable`, `RoutineSystem.Sound.advance` — **Main**: where every routine
  keeps a shared invariant and what it guarantees is what the others rely on, the invariant holds in
  every run, and every step is one that its routine guarantees.
-/

/-- A routine: it has returned, has thrown, or is about to do an action. -/
inductive Routine (A : Type) (R : A → Type) (ε α : Type)
  | done (value : α)
  | fail (error : ε)
  | act (action : A) (next : R action → Routine A R ε α)

namespace Routine

variable {A : Type} {R : A → Type} {ε δ α β : Type}

/-- The second routine goes on with what the first one returns. -/
def bind : Routine A R ε α → (α → Routine A R ε β) → Routine A R ε β
  | .done value, f => f value
  | .fail error, _ => .fail error
  | .act action next, f => .act action fun reply => (next reply).bind f

/-- The handler goes on with what the routine throws. -/
def tryCatch : Routine A R ε α → (ε → Routine A R δ α) → Routine A R δ α
  | .done value, _ => .done value
  | .fail error, handler => handler error
  | .act action next, handler => .act action fun reply => (next reply).tryCatch handler

/-- The outcome of a routine as a value. -/
def attempt : Routine A R ε α → Routine A R δ (Except ε α)
  | .done value => .done (.ok value)
  | .fail error => .done (.error error)
  | .act action next => .act action fun reply => (next reply).attempt

instance : Monad (Routine A R ε) where
  pure := .done
  bind := bind

/-- One action. -/
def perform (action : A) : Routine A R ε (R action) := .act action .done

/-- Whether a routine has returned or thrown. -/
def finished : Routine A R ε α → Bool
  | .act _ _ => false
  | _ => true

/-- Every value that a routine may return satisfies a predicate, whatever its actions yield. -/
def Returns : Routine A R ε α → (α → Prop) → Prop
  | .done value, P => P value
  | .fail _, _ => True
  | .act _ next, P => ∀ reply, (next reply).Returns P

@[simp] theorem pure_eq (value : α) : (pure value : Routine A R ε α) = .done value := rfl

@[simp] theorem bind_eq (routine : Routine A R ε α) (f : α → Routine A R ε β) :
    routine >>= f = routine.bind f := rfl

theorem returns_bind {routine : Routine A R ε α} {f : α → Routine A R ε β} {P : β → Prop} :
    (routine.bind f).Returns P ↔ routine.Returns fun value => (f value).Returns P := by
  induction routine with
  | done value => exact Iff.rfl
  | fail error => exact Iff.rfl
  | act action next ih => exact forall_congr' fun reply => ih reply

theorem Returns.mono {routine : Routine A R ε α} {P P' : α → Prop} (h : routine.Returns P)
    (himp : ∀ value, P value → P' value) : routine.Returns P' := by
  induction routine with
  | done value => exact himp value h
  | fail error => trivial
  | act action next ih => exact fun reply => ih reply (h reply)

/-- A routine may return any value. -/
theorem returns_true (routine : Routine A R ε α) : routine.Returns fun _ => True := by
  induction routine with
  | done value => trivial
  | fail error => trivial
  | act action next ih => exact fun reply => ih reply

end Routine

/-! ### Contracts -/

/-- The rules that one routine lives by: what its actions do, the invariant of the shared state, what
    it relies on others for between two of its actions and what it guarantees of each of its own. -/
structure Contract (σ A : Type) (R : A → Type) (C : Type) where
  perform : (action : A) → C → σ → Option (σ × R action)
  invariant : σ → Prop
  rely : σ → σ → Prop
  guarantee : σ → σ → Prop

namespace Contract

variable {σ A C ε δ α β : Type} {R : A → Type} (contract : Contract σ A R C)

/-- From a shared state, a routine keeps the invariant and its guarantee, and returns or throws as
    the postconditions say. -/
def Ensures : Routine A R ε α → (α → σ → Prop) → (ε → σ → Prop) → σ → Prop
  | .done value, returns, _, s => returns value s
  | .fail error, _, throws, s => throws error s
  | .act action next, returns, throws, s =>
    ∀ s', contract.invariant s' → contract.rely s s' → ∀ c s'' reply,
      contract.perform action c s' = some (s'', reply) →
        contract.invariant s'' ∧ contract.guarantee s' s'' ∧
          Ensures (next reply) returns throws s''

variable {contract} {routine : Routine A R ε α} {returns returns' : α → σ → Prop}
  {throws throws' : ε → σ → Prop} {s s' : σ}

@[simp] theorem ensures_done {value : α} :
    contract.Ensures (.done value : Routine A R ε α) returns throws s ↔ returns value s := Iff.rfl

@[simp] theorem ensures_fail {error : ε} :
    contract.Ensures (.fail error : Routine A R ε α) returns throws s ↔ throws error s := Iff.rfl

theorem ensures_perform {action : A} {returns : R action → σ → Prop} :
    contract.Ensures (Routine.perform action : Routine A R ε (R action)) returns throws s ↔
      ∀ s', contract.invariant s' → contract.rely s s' → ∀ c s'' reply,
        contract.perform action c s' = some (s'', reply) →
          contract.invariant s'' ∧ contract.guarantee s' s'' ∧ returns reply s'' := Iff.rfl

/-- What is ensured implies what is weaker. -/
theorem Ensures.mono (h : contract.Ensures routine returns throws s)
    (hreturns : ∀ value s, returns value s → returns' value s)
    (hthrows : ∀ error s, throws error s → throws' error s) :
    contract.Ensures routine returns' throws' s := by
  induction routine generalizing s with
  | done value => exact hreturns value s h
  | fail error => exact hthrows error s h
  | act action next ih =>
    intro s' hinv hrely c s'' reply hperform
    obtain ⟨hinv', hguarantee, hnext⟩ := h s' hinv hrely c s'' reply hperform
    exact ⟨hinv', hguarantee, ih reply hnext⟩

/-- What a routine ensures of the values that it may return. -/
theorem Ensures.withReturns {P : α → Prop} (h : contract.Ensures routine returns throws s)
    (hP : routine.Returns P) :
    contract.Ensures routine (fun value s => P value ∧ returns value s) throws s := by
  induction routine generalizing s with
  | done value => exact ⟨hP, h⟩
  | fail error => exact h
  | act action next ih =>
    intro s' hinv hrely c s'' reply hperform
    obtain ⟨hinv', hguarantee, hnext⟩ := h s' hinv hrely c s'' reply hperform
    exact ⟨hinv', hguarantee, ih reply hnext (hP reply)⟩

/-- Sequencing: the first routine ensures what the second one starts from. -/
theorem ensures_bind {f : α → Routine A R ε β} {returns : β → σ → Prop} :
    contract.Ensures (routine.bind f) returns throws s ↔
      contract.Ensures routine (fun value => contract.Ensures (f value) returns throws) throws s := by
  induction routine generalizing s with
  | done value => exact Iff.rfl
  | fail error => exact Iff.rfl
  | act action next ih =>
    constructor
    · intro h s' hinv hrely c s'' reply hperform
      obtain ⟨hinv', hguarantee, hnext⟩ := h s' hinv hrely c s'' reply hperform
      exact ⟨hinv', hguarantee, (ih reply).mp hnext⟩
    · intro h s' hinv hrely c s'' reply hperform
      obtain ⟨hinv', hguarantee, hnext⟩ := h s' hinv hrely c s'' reply hperform
      exact ⟨hinv', hguarantee, (ih reply).mpr hnext⟩

/-- A handler: the routine ensures what it starts from where it throws. -/
theorem ensures_tryCatch {handler : ε → Routine A R δ α} {throws : δ → σ → Prop} :
    contract.Ensures (routine.tryCatch handler) returns throws s ↔
      contract.Ensures routine returns
        (fun error => contract.Ensures (handler error) returns throws) s := by
  induction routine generalizing s with
  | done value => exact Iff.rfl
  | fail error => exact Iff.rfl
  | act action next ih =>
    constructor
    · intro h s' hinv hrely c s'' reply hperform
      obtain ⟨hinv', hguarantee, hnext⟩ := h s' hinv hrely c s'' reply hperform
      exact ⟨hinv', hguarantee, (ih reply).mp hnext⟩
    · intro h s' hinv hrely c s'' reply hperform
      obtain ⟨hinv', hguarantee, hnext⟩ := h s' hinv hrely c s'' reply hperform
      exact ⟨hinv', hguarantee, (ih reply).mpr hnext⟩

/-- An outcome as a value: the routine throws what is then returned. -/
theorem ensures_attempt {returns : Except ε α → σ → Prop} {throws : δ → σ → Prop} :
    contract.Ensures (routine.attempt : Routine A R δ (Except ε α)) returns throws s ↔
      contract.Ensures routine (fun value => returns (.ok value))
        (fun error => returns (.error error)) s := by
  induction routine generalizing s with
  | done value => exact Iff.rfl
  | fail error => exact Iff.rfl
  | act action next ih =>
    constructor
    · intro h s' hinv hrely c s'' reply hperform
      obtain ⟨hinv', hguarantee, hnext⟩ := h s' hinv hrely c s'' reply hperform
      exact ⟨hinv', hguarantee, (ih reply).mp hnext⟩
    · intro h s' hinv hrely c s'' reply hperform
      obtain ⟨hinv', hguarantee, hnext⟩ := h s' hinv hrely c s'' reply hperform
      exact ⟨hinv', hguarantee, (ih reply).mpr hnext⟩

theorem ensures_of_finished (h : routine.finished = true) :
    contract.Ensures routine (fun _ _ => True) (fun _ _ => True) s := by
  cases routine with
  | done value => trivial
  | fail error => trivial
  | act action next => cases h

/-- What is ensured stays so while others do what is relied on. -/
theorem Ensures.stable (h : contract.Ensures routine returns throws s)
    (htrans : ∀ a b c, contract.rely a b → contract.rely b c → contract.rely a c)
    (hrely : contract.rely s s') (hreturns : ∀ value, returns value s → returns value s')
    (hthrows : ∀ error, throws error s → throws error s') :
    contract.Ensures routine returns throws s' := by
  cases routine with
  | done value => exact hreturns value h
  | fail error => exact hthrows error h
  | act action next => exact fun t hinv ht => h t hinv (htrans _ _ _ hrely ht)

/-- What others leave as it is while the invariant holds. -/
def Stable (contract : Contract σ A R C) (P : σ → Prop) : Prop :=
  ∀ s s', contract.invariant s' → contract.rely s s' → P s → P s'

/-- A routine that changes nothing that its own call could rely on: what is stable stays true,
    whether it returns or throws. -/
def Preserves (contract : Contract σ A R C) (routine : Routine A R ε α) : Prop :=
  ∀ P, contract.Stable P → ∀ s, P s → contract.Ensures routine (fun _ => P) (fun _ => P) s

theorem preserves_done (value : α) : contract.Preserves (.done value : Routine A R ε α) :=
  fun _ _ _ h => h

theorem preserves_fail (error : ε) : contract.Preserves (.fail error : Routine A R ε α) :=
  fun _ _ _ h => h

/-- An action that does only what others may do. -/
theorem preserves_act {action : A} {next : R action → Routine A R ε α}
    (haction : ∀ s c s' reply, contract.invariant s → contract.perform action c s = some (s', reply) →
      contract.invariant s' ∧ contract.guarantee s s' ∧ contract.rely s s')
    (hnext : ∀ reply, contract.Preserves (next reply)) :
    contract.Preserves (.act action next) := by
  intro P hstable s h s' hinv hrely c s'' reply hperform
  obtain ⟨hinv', hguarantee, hrely'⟩ := haction s' c s'' reply hinv hperform
  refine ⟨hinv', hguarantee, hnext reply P hstable s'' ?_⟩
  exact hstable _ _ hinv' hrely' (hstable _ _ hinv hrely h)

theorem Preserves.bind (h : contract.Preserves routine) {f : α → Routine A R ε β}
    (hf : ∀ value, contract.Preserves (f value)) : contract.Preserves (routine.bind f) := by
  intro P hstable s hs
  rw [ensures_bind]
  exact (h P hstable s hs).mono (fun value s' hs' => hf value P hstable s' hs') (fun _ _ => id)

theorem Preserves.tryCatch (h : contract.Preserves routine) {handler : ε → Routine A R δ α}
    (hhandler : ∀ error, contract.Preserves (handler error)) :
    contract.Preserves (routine.tryCatch handler) := by
  intro P hstable s hs
  rw [ensures_tryCatch]
  exact (h P hstable s hs).mono (fun _ _ => id) fun error s' hs' => hhandler error P hstable s' hs'

theorem Preserves.attempt (h : contract.Preserves routine) :
    contract.Preserves (routine.attempt : Routine A R δ (Except ε α)) := by
  intro P hstable s hs
  rw [ensures_attempt]
  exact h P hstable s hs

/-- A routine that preserves what is stable keeps its contract from any state. -/
theorem Preserves.ensures (h : contract.Preserves routine) (s : σ) :
    contract.Ensures routine (fun _ _ => True) (fun _ _ => True) s :=
  h (fun _ => True) (fun _ _ _ _ _ => trivial) s trivial

end Contract

/-! ### Systems of calls -/

/-- A program of routines: the code and the key of each request, what the actions do for the call with
    a given number, what happens to the shared state apart from the calls, and what a crash makes of
    it. -/
structure RoutineSystem (σ A : Type) (R : A → Type) (ε α κ Q C W : Type) where
  code : Q → Routine A R ε α
  key : Q → Option κ
  perform : Nat → (action : A) → C → σ → Option (σ × R action)
  world : W → σ → Option σ
  restart : σ → σ

/-- A call: its request and what is left of its routine; it is not alive after a crash. -/
structure RoutineCall (A : Type) (R : A → Type) (ε α Q : Type) where
  request : Q
  routine : Routine A R ε α
  alive : Bool

/-- The shared state and all calls that were made. -/
structure RoutineState (σ A : Type) (R : A → Type) (ε α Q : Type) where
  shared : σ
  calls : List (RoutineCall A R ε α Q)

/-- What happens: a request is made, a call does its next action, with what it meets with there; the
    world changes; the process crashes and is started again. -/
inductive RoutineEvent (Q C W : Type)
  | call (request : Q)
  | advance (n : Nat) (choice : C)
  | world (change : W)
  | crash

namespace RoutineSystem

variable {σ A ε α κ Q C W : Type} {R : A → Type} [DecidableEq κ]
  (sys : RoutineSystem σ A R ε α κ Q C W)

/-- Whether a call keeps another one with its key from running. -/
def blocks (request : Q) (call : RoutineCall A R ε α Q) : Bool :=
  call.alive && !call.routine.finished && sys.key call.request == sys.key request

/-- Whether no earlier call with the same key is still running. -/
def isFirst (calls : List (RoutineCall A R ε α Q)) (n : Nat) (request : Q) : Bool :=
  (sys.key request).isNone || (calls.take n).all fun call => !sys.blocks request call

def step (s : RoutineState σ A R ε α Q) :
    RoutineEvent Q C W → Option (RoutineState σ A R ε α Q)
  | .call request => some { s with calls := s.calls ++ [⟨request, sys.code request, true⟩] }
  | .advance n choice =>
    match s.calls[n]? with
    | none => none
    | some call =>
      if call.alive && sys.isFirst s.calls n call.request then
        match call.routine with
        | .act action next =>
          match sys.perform n action choice s.shared with
          | none => none
          | some (shared, reply) =>
            some ⟨shared, s.calls.set n { call with routine := next reply }⟩
        | _ => none
      else none
  | .world change => (sys.world change s.shared).map fun shared => { s with shared := shared }
  | .crash => some ⟨sys.restart s.shared, s.calls.map fun call => { call with alive := false }⟩

/-- The runs from given shared states without calls. -/
def system (init : σ → Prop) :
    TransitionSystem (RoutineState σ A R ε α Q) (RoutineEvent Q C W) where
  init := fun s => init s.shared ∧ s.calls = []
  step := sys.step

/-- What makes the calls of a program sound: an invariant, and for every key what its calls rely on
    and what they guarantee. -/
structure Sound (init : σ → Prop) (invariant : σ → Prop) (rely guarantee : Option κ → σ → σ → Prop) :
    Prop where
  init : ∀ s, init s → invariant s
  refl : ∀ k s, rely k s s
  trans : ∀ k a b c, rely k a b → rely k b c → rely k a c
  others : ∀ k l s s', guarantee k s s' → k = none ∨ k ≠ l → rely l s s'
  world : ∀ change s s', invariant s → sys.world change s = some s' →
    invariant s' ∧ ∀ k, rely k s s'
  restart : ∀ s, invariant s → invariant (sys.restart s)
  code : ∀ n request s, invariant s → Contract.Ensures
    ⟨sys.perform n, invariant, rely (sys.key request), guarantee (sys.key request)⟩
    (sys.code request) (fun _ _ => True) (fun _ _ => True) s

variable {sys} {init invariant : σ → Prop} {rely guarantee : Option κ → σ → σ → Prop}
  {s s' : RoutineState σ A R ε α Q}

/-- A call has not begun, or no earlier one with its key runs and what is left of its routine keeps
    its contract. -/
def Keeps (sys : RoutineSystem σ A R ε α κ Q C W) (invariant : σ → Prop)
    (rely guarantee : Option κ → σ → σ → Prop) (s : RoutineState σ A R ε α Q) (n : Nat)
    (call : RoutineCall A R ε α Q) : Prop :=
  call.routine = sys.code call.request ∨ sys.isFirst s.calls n call.request = true ∧
    Contract.Ensures
      ⟨sys.perform n, invariant, rely (sys.key call.request), guarantee (sys.key call.request)⟩
      call.routine (fun _ _ => True) (fun _ _ => True) s.shared

/-- The invariant holds, and every call that is alive keeps its contract. -/
structure Holds (sys : RoutineSystem σ A R ε α κ Q C W) (invariant : σ → Prop)
    (rely guarantee : Option κ → σ → σ → Prop) (s : RoutineState σ A R ε α Q) : Prop where
  shared : invariant s.shared
  calls : ∀ n call, s.calls[n]? = some call → call.alive = true →
    sys.Keeps invariant rely guarantee s n call

theorem isFirst_iff {calls : List (RoutineCall A R ε α Q)} {n : Nat} {request : Q} :
    sys.isFirst calls n request = true ↔ sys.key request = none ∨
      ∀ m < n, ∀ call, calls[m]? = some call → call.alive = true →
        call.routine.finished = false → sys.key call.request ≠ sys.key request := by
  unfold isFirst
  rw [Bool.or_eq_true, Option.isNone_iff_eq_none, List.all_eq_true]
  refine or_congr_right ⟨fun h m hm call hcall halive hrunning hkey => ?_, fun h call hmem => ?_⟩
  · have hmem : call ∈ calls.take n := by
      refine List.mem_of_getElem? (i := m) ?_
      rw [List.getElem?_take, if_pos hm, hcall]
    have hfree := h call hmem
    simp [blocks, halive, hrunning, hkey] at hfree
  · obtain ⟨m, hm⟩ := List.getElem?_of_mem hmem
    rw [List.getElem?_take] at hm
    split at hm
    case isFalse => cases hm
    next hmn =>
    have hne := h m hmn call hm
    simp only [blocks, Bool.not_eq_true', Bool.and_eq_false_iff, Bool.not_eq_false',
      beq_eq_false_iff_ne]
    cases halive : call.alive
    · exact .inl (.inl rfl)
    · cases hrunning : call.routine.finished
      · exact .inr (hne halive hrunning)
      · exact .inl (.inr rfl)

/-- The calls of a state and of what another call's step makes of it. -/
theorem getElem?_set_call {calls : List (RoutineCall A R ε α Q)} {n m : Nat}
    {call other : RoutineCall A R ε α Q} {routine : Routine A R ε α}
    (h : (calls.set n { call with routine := routine })[m]? = some other) :
    m = n ∧ other = { call with routine := routine } ∨ m ≠ n ∧ calls[m]? = some other := by
  rw [List.getElem?_set] at h
  split at h
  · next heq =>
    split at h
    case isFalse => cases h
    exact .inl ⟨heq.symm, (Option.some.inj h).symm⟩
  · next hne => exact .inr ⟨fun heq => hne heq.symm, h⟩

/-- A step of another call lets a call keep its place. -/
theorem isFirst_set {calls : List (RoutineCall A R ε α Q)} {n m : Nat} {request : Q}
    {call : RoutineCall A R ε α Q} {routine : Routine A R ε α} (hcall : calls[n]? = some call)
    (hrunning : call.routine.finished = false) (halive : call.alive = true)
    (hfirst : sys.isFirst calls m request = true) :
    sys.isFirst (calls.set n { call with routine := routine }) m request = true := by
  rw [isFirst_iff] at hfirst ⊢
  refine hfirst.imp id fun hall i hi other hother hotherAlive hotherRunning => ?_
  obtain ⟨rfl, rfl⟩ | ⟨_, hsame⟩ := getElem?_set_call hother
  · exact hall i hi call hcall halive hrunning
  · exact hall i hi other hsame hotherAlive hotherRunning

/-- **Step.** What the next action of a call does. -/
theorem Holds.advance (hsound : sys.Sound init invariant rely guarantee)
    (h : sys.Holds invariant rely guarantee s) {n : Nat} {c : C}
    (hstep : sys.step s (.advance n c) = some s') :
    sys.Holds invariant rely guarantee s' ∧ ∃ call, s.calls[n]? = some call ∧
      guarantee (sys.key call.request) s.shared s'.shared := by
  simp only [step] at hstep
  split at hstep
  case h_1 => cases hstep
  next call hcall =>
  split at hstep
  case isFalse => cases hstep
  next hruns =>
  rw [Bool.and_eq_true] at hruns
  obtain ⟨halive, hfirst⟩ := hruns
  split at hstep
  case h_2 => cases hstep
  next action next hroutine =>
  split at hstep
  case h_1 => cases hstep
  next shared reply hperform =>
  obtain rfl := Option.some.inj hstep
  -- a call that has not begun keeps its contract from any state with the invariant
  have hensures : Contract.Ensures
      ⟨sys.perform n, invariant, rely (sys.key call.request), guarantee (sys.key call.request)⟩
      call.routine (fun _ _ => True) (fun _ _ => True) s.shared := by
    obtain hbegins | ⟨_, hensures⟩ := h.calls n call hcall halive
    · rw [hbegins]
      exact hsound.code n call.request s.shared h.shared
    · exact hensures
  rw [hroutine] at hensures
  obtain ⟨hinvariant, hguarantee, hnext⟩ :=
    hensures s.shared h.shared (hsound.refl _ _) c shared reply hperform
  refine ⟨⟨hinvariant, fun m other hother halive' => ?_⟩, call, hcall, hguarantee⟩
  have hrunning : call.routine.finished = false := by rw [hroutine]; rfl
  obtain ⟨rfl, rfl⟩ | ⟨hne, hold⟩ := getElem?_set_call hother
  · exact .inr ⟨isFirst_set hcall hrunning halive hfirst, hnext⟩
  obtain hbegins | ⟨hfirst', hother'⟩ := h.calls m other hold halive'
  · exact .inl hbegins
  refine .inr ⟨isFirst_set hcall hrunning halive hfirst', ?_⟩
  by_cases hkeys : sys.key call.request = none ∨ sys.key call.request ≠ sys.key other.request
  · exact hother'.stable (hsound.trans _) (hsound.others _ _ _ _ hguarantee hkeys)
      (fun _ => id) (fun _ => id)
  -- of two calls with one key the earlier one has finished
  rw [not_or, Decidable.not_not] at hkeys
  rw [isFirst_iff] at hfirst hfirst'
  refine Contract.ensures_of_finished ?_
  obtain hlt | hlt := Nat.lt_or_gt_of_ne hne
  · cases hfinished : other.routine.finished with
    | true => rfl
    | false =>
      obtain hnone | hall := hfirst
      · exact absurd hnone hkeys.1
      · exact absurd hkeys.2.symm (hall m hlt other hold halive' hfinished)
  · obtain hnone | hall := hfirst'
    · exact absurd (hkeys.2.trans hnone) hkeys.1
    · exact absurd hkeys.2 (hall n hlt call hcall halive hrunning)

/-- Everything else that happens keeps what holds of the calls. -/
theorem Holds.step (hsound : sys.Sound init invariant rely guarantee)
    (h : sys.Holds invariant rely guarantee s) {e : RoutineEvent Q C W}
    (hstep : sys.step s e = some s') : sys.Holds invariant rely guarantee s' := by
  cases e with
  | advance n c => exact (h.advance hsound hstep).1
  | call request =>
    cases hstep
    refine ⟨h.shared, fun n call hcall halive => ?_⟩
    rw [List.getElem?_append] at hcall
    split at hcall
    · next hlt =>
      refine (h.calls n call hcall halive).imp id fun ⟨hfirst, hensures⟩ => ⟨?_, hensures⟩
      rw [isFirst_iff] at hfirst ⊢
      refine hfirst.imp id fun hall m hm other hother => ?_
      rw [List.getElem?_append_left (Nat.lt_trans hm hlt)] at hother
      exact hall m hm other hother
    · have hmem := List.mem_of_getElem? hcall
      obtain rfl := List.mem_singleton.mp hmem
      exact .inl rfl
  | world change =>
    obtain ⟨shared, hworld, rfl⟩ := Option.map_eq_some_iff.mp hstep
    obtain ⟨hinvariant, hrely⟩ := hsound.world change _ _ h.shared hworld
    refine ⟨hinvariant, fun n call hcall halive => ?_⟩
    refine (h.calls n call hcall halive).imp id fun ⟨hfirst, hensures⟩ => ⟨hfirst, ?_⟩
    exact hensures.stable (hsound.trans _) (hrely _) (fun _ => id) (fun _ => id)
  | crash =>
    cases hstep
    refine ⟨hsound.restart _ h.shared, fun n call hcall halive => ?_⟩
    rw [List.getElem?_map, Option.map_eq_some_iff] at hcall
    obtain ⟨old, _, rfl⟩ := hcall
    cases halive

/-- **Main.** The invariant holds in every run, and every call keeps its contract. -/
theorem Sound.of_reachable (hsound : sys.Sound init invariant rely guarantee)
    (h : (sys.system init).Reachable s) : sys.Holds invariant rely guarantee s := by
  refine h.invariant ?_ fun s e s' hs (hstep : sys.step s e = some s') => hs.step hsound hstep
  rintro s ⟨hinit, hcalls⟩
  refine ⟨hsound.init _ hinit, fun n call hcall => ?_⟩
  rw [hcalls] at hcall
  cases hcall

/-- Every action of a run is one that its call guarantees. -/
theorem Sound.advance (hsound : sys.Sound init invariant rely guarantee)
    (h : (sys.system init).Reachable s) {n : Nat} {c : C}
    (hstep : sys.step s (.advance n c) = some s') :
    ∃ call, s.calls[n]? = some call ∧ guarantee (sys.key call.request) s.shared s'.shared :=
  ((hsound.of_reachable h).advance hsound hstep).2

end RoutineSystem
