import Mathlib
import AgentHost.Core.AdapterCircuits
import AgentHost.Core.RefreshLoop
import AgentHost.Lib.TransitionSystem

namespace AgentHost

/-!
# The registry

The registry with all its adapters, one event for each stretch of the source between two
suspensions.

* `Registry.runRefresh` — the start of a pass: every adapter is admitted or not, and gets a flight
  or the one it still has.
* `Registry.resume`, `Registry.conclude` — an attempt after the race of its flight with the timeout
  and with `close`, and what becomes of its outcome.
* `Registry.step`, `Registry.system` — the runs: passes, flights, changes and disconnects of adapters,
  owned launches, loads of the histories, `close`.
-/

/-- What an asynchronous call of an adapter ends with: agents, or an error or no array. -/
abbrev AdapterAnswer (δ κ : Type) := Option (List (Agent δ κ))

/-- Where a flight stands: before the answer of `discover`, before that of `discoverOwned` for the
    launches of a provider, or settled. -/
inductive FlightPhase (δ κ : Type)
  | discovering
  | discoveringOwned (provider : Option String) (records : List OwnedLaunch)
  | settled (answer : AdapterAnswer δ κ)

/-- A discovery of an adapter, and the generation of owned launches it began with. -/
structure AdapterFlight (δ κ : Type) where
  adapterId : String
  ownedLaunchGeneration : Nat
  phase : FlightPhase δ κ
  timedOut : Bool

inductive OutcomeStatus (δ κ : Type)
  | success (agents : List (Agent δ κ))
  | error
  | timeout
  | closed
  | superseded

/-- What `#discoverAdapter` returns, and what `#normalizeOutcome` makes of it. -/
structure AdapterOutcome (δ κ : Type) where
  status : OutcomeStatus δ κ
  ownedLaunchGeneration : Option Nat := none
  markStale : Bool := false
  reusedTimedOutFlight : Bool := false

/-- Where the attempt of a pass on an adapter stands: in the race of a flight, or with an outcome,
    of that flight or of none. -/
inductive AttemptPhase (δ κ : Type)
  | racing (flight : Nat)
  | resumed (flight : Option Nat) (outcome : AdapterOutcome δ κ)

structure Attempt (δ κ : Type) where
  adapterId : String
  probe : Bool
  phase : AttemptPhase δ κ

/-- What wins the race of an attempt. -/
inductive RaceEnd
  | flight
  | timeout
  | closed
  deriving DecidableEq

/-- Where the load of the histories stands. -/
inductive HistoryLoad
  | idle
  | loading
  | merged
  deriving DecidableEq

/-- An attempt that was admitted, when, and the time before which no unforced one was to be. -/
structure Admission where
  adapterId : String
  force : Bool
  now : Int
  nextAttemptAt : Int
  deriving DecidableEq

/-- A flight whose agents were stored, with the generation and whether the registry was closed by
    then. -/
structure AppliedFlight where
  flight : Nat
  ownedLaunchGeneration : Nat
  closed : Bool
  deriving DecidableEq

/-- The registry.  `flights` holds every flight that ever began, `attempts` the attempts of the pass
    that runs, `providers` what the adapters name in their `launchCapabilities`; `reports`,
    `admissions` and `applied` are logs. -/
structure Registry (δ κ : Type) where
  store : AgentStore δ κ
  loop : RefreshLoop
  circuits : String → Circuit
  flights : List (AdapterFlight δ κ)
  adapterFlights : String → Option Nat
  attempts : InsertionMap fun attempt : Attempt δ κ => attempt.adapterId
  ownedLaunches : InsertionMap OwnedLaunch.id
  ownedLaunchGeneration : Nat
  providers : String → Option String
  historyExpiresAt : Int
  historyLoad : HistoryLoad
  closed : Bool
  reports : String → List CircuitReport
  admissions : List Admission
  applied : List AppliedFlight

/-- A call of the registry or a continuation of it, with what it reads of the clock and gets from
    the adapters. -/
inductive RegistryMove (δ κ : Type)
  | refresh (force : Bool) (now : String → Int)
  | refreshAfterOwnedLaunchChange (now : String → Int)
  | adapterChanged (adapterId : String) (disconnected : Bool) (recordedAt : Int) (time : String)
      (now : String → Int)
  | runQueuedRefresh (now : String → Int)
  | runFollowup (followup : Nat) (now : String → Int)
  | discovered (flight : Nat) (answer : AdapterAnswer δ κ)
  | discoveredOwned (flight : Nat) (answer : AdapterAnswer δ κ)
  | dropFlight (flight : Nat)
  | resume (adapterId : String) (race : RaceEnd)
  | conclude (adapterId : String) (discoveryCurrent : Bool) (recordedAt : Int) (time : String)
  | endPass
  | activateOwnedLaunch (record : OwnedLaunch) (cached : Option (Agent δ κ)) (time : String)
  | deactivateOwnedLaunch (id : String) (time : String)
  | changeProvider (adapterId : String) (provider : Option String)
  | loadHistory (now : Int)
  | historyLoaded (answers : String → AdapterAnswer δ κ) (now : Int) (time : String)
  | historySettled
  | close
  | finishClose

/-- The calls that a closed registry ignores. -/
def RegistryMove.isCall {δ κ : Type} : RegistryMove δ κ → Bool
  | .refresh .. | .refreshAfterOwnedLaunchChange .. | .adapterChanged .. => true
  | _ => false

namespace Registry

variable {δ κ : Type}

def empty : Registry δ κ where
  store := .empty
  loop := .empty
  circuits := fun _ => .initial
  flights := []
  adapterFlights := fun _ => none
  attempts := .empty
  ownedLaunches := .empty
  ownedLaunchGeneration := 0
  providers := fun _ => none
  historyExpiresAt := 0
  historyLoad := .idle
  closed := false
  reports := fun _ => []
  admissions := []
  applied := []

variable (cfg : RegistryConfig δ κ) (s : Registry δ κ)

/-! ### Owned launches -/

/-- The owned launches of a provider. -/
def recordsOf (provider : Option String) : List OwnedLaunch :=
  s.ownedLaunches.values.filter fun record => some record.provider = provider

/-- `#launchAdapter`, its id. -/
def launchAdapter (provider : String) : Option String :=
  (cfg.adapters.values.find? fun adapter =>
    adapter.launchCapable && s.providers adapter.id == some provider).map AgentAdapter.id

/-! ### The start of a pass -/

/-- `#discoverAdapter` up to its race. -/
def discoverAdapter (adapterId : String) (probe : Bool) : Registry δ κ :=
  match s.adapterFlights adapterId with
  | some n =>
    if s.flights[n]?.any AdapterFlight.timedOut then
      { s with
        attempts := s.attempts.set
          ⟨adapterId, probe, .resumed none { status := .timeout, reusedTimedOutFlight := true }⟩ }
    else { s with attempts := s.attempts.set ⟨adapterId, probe, .racing n⟩ }
  | none =>
    { s with
      flights := s.flights ++ [⟨adapterId, s.ownedLaunchGeneration, .discovering, false⟩]
      adapterFlights := Function.update s.adapterFlights adapterId (some s.flights.length)
      attempts := s.attempts.set ⟨adapterId, probe, .racing s.flights.length⟩ }

/-- What a pass does with one adapter before it waits. -/
def startAttempt (force : Bool) (now : String → Int) (adapter : AgentAdapter δ κ) : Registry δ κ :=
  let circuit := s.circuits adapter.id
  let admission := circuit.admitAdapter cfg force (now adapter.id)
  let s := { s with circuits := Function.update s.circuits adapter.id admission.1 }
  match admission.2 with
  | none => s
  | some probe =>
    ({ s with
        admissions :=
          s.admissions ++ [⟨adapter.id, force, now adapter.id, circuit.nextAttemptAt⟩] } :
      Registry δ κ).discoverAdapter adapter.id probe

/-- `#runRefresh` up to its first suspension. -/
def runRefresh (force : Bool) (now : String → Int) : Registry δ κ :=
  cfg.adapters.values.foldl (fun s adapter => s.startAttempt cfg force now adapter) s

/-- The passes after a call; if it started one, that begins. -/
def enter (now : String → Int) (loop : RefreshLoop) : Registry δ κ :=
  if loop.passes.length = s.loop.passes.length then { s with loop := loop }
  else ({ s with loop := loop } : Registry δ κ).runRefresh cfg loop.currentRefreshForced now

/-! ### Flights -/

/-- The checks of `#discoverLaunchAdapter` on what `discoverOwned` returned: one agent of the adapter
    and of its provider for each agent id. -/
def provenAgents (adapterId : String) (provider : Option String) (records : List OwnedLaunch)
    (owned : List (Agent δ κ)) : AdapterAnswer δ κ :=
  if owned.length ≠ records.length then none
  else
    let left := owned.foldlM
      (fun expected agent =>
        if agent.id ∈ expected ∧ agent.source = adapterId ∧ some agent.provider = provider then
          some (expected.erase agent.id)
        else none)
      (records.map OwnedLaunch.agentId).dedup
    if left = some [] then some owned else none

/-- A flight after `discover` has answered. -/
def discoverPhase (adapter : AgentAdapter δ κ) (answer : AdapterAnswer δ κ) : FlightPhase δ κ :=
  if adapter.launchCapable then
    match answer with
    | some [] =>
      if adapter.discoversOwned then
        .discoveringOwned (s.providers adapter.id) (s.recordsOf (s.providers adapter.id))
      else .settled (some [])
    | _ => .settled none
  else .settled answer

/-- A flight that moves on. -/
def setPhase (n : Nat) (phase : FlightPhase δ κ) : Registry δ κ :=
  { s with flights := s.flights.modify n fun flight => { flight with phase := phase } }

/-! ### The end of an attempt -/

/-- `#adapterFlights.delete`. -/
def deleteFlight (adapterId : String) : Registry δ κ :=
  { s with adapterFlights := Function.update s.adapterFlights adapterId none }

/-- The attempt on an adapter gets its outcome. -/
def setOutcome (attempt : Attempt δ κ) (n : Nat) (outcome : AdapterOutcome δ κ) : Registry δ κ :=
  { s with attempts := s.attempts.set { attempt with phase := .resumed (some n) outcome } }

/-- The rest of `#discoverAdapter`, after the race of an attempt on flight `n`. -/
def resume (attempt : Attempt δ κ) (n : Nat) (flight : AdapterFlight δ κ) :
    RaceEnd → Option (Registry δ κ)
  | .flight =>
    match flight.phase with
    | .settled answer =>
      some ((s.deleteFlight attempt.adapterId).setOutcome attempt n
        { status := answer.elim .error .success
          ownedLaunchGeneration := some flight.ownedLaunchGeneration })
    | _ => none
  | .timeout =>
    some (({ s with
        flights := s.flights.modify n fun flight => { flight with timedOut := true } } :
        Registry δ κ).setOutcome attempt n
      { status := .timeout, ownedLaunchGeneration := some flight.ownedLaunchGeneration })
  | .closed =>
    if s.closed then
      some ((s.deleteFlight attempt.adapterId).setOutcome attempt n
        { status := .closed, ownedLaunchGeneration := some flight.ownedLaunchGeneration })
    else none

/-- `#normalizeOutcome`; `discoveryCurrent` is what `isDiscoveryCurrent` returns. -/
def normalizeOutcome (adapter : AgentAdapter δ κ) (outcome : AdapterOutcome δ κ)
    (discoveryCurrent : Bool) : AdapterOutcome δ κ :=
  match outcome.status with
  | .success agents =>
    if adapter.launchCapable &&
        outcome.ownedLaunchGeneration != some s.ownedLaunchGeneration then
      { outcome with status := .superseded }
    else if adapter.checksDiscovery && !discoveryCurrent then
      { outcome with status := .error, markStale := true }
    else if adapter.launchCapable then
      let owned := (s.recordsOf (s.providers adapter.id)).map OwnedLaunch.agentId
      { outcome with status := .success (agents.filter fun agent => agent.id ∈ owned) }
    else outcome
  | _ => outcome

/-- What an outcome is for the circuit. -/
def circuitReport (outcome : AdapterOutcome δ κ) (recordedAt : Int) : CircuitReport :=
  match outcome.status with
  | .success _ => .recorded .success recordedAt
  | .superseded => .superseded
  | _ => .recorded (if outcome.reusedTimedOutFlight then .reused else .failure) recordedAt

/-- What an outcome is for the agents of its adapter. -/
def agentReport (outcome : AdapterOutcome δ κ) : AgentStore.Report δ κ :=
  match outcome.status with
  | .success agents => .agents agents
  | _ => if outcome.markStale then .stale else .failed

/-- What is recorded in the circuit of an adapter. -/
def report (adapterId : String) (probe : Bool) (report : CircuitReport) : Registry δ κ :=
  { s with
    circuits := Function.update s.circuits adapterId
      ((s.circuits adapterId).report cfg probe report)
    reports := Function.update s.reports adapterId (s.reports adapterId ++ [report]) }

section Agents

variable [DecidableEq δ] [DecidableEq κ]

/-- `#applyOutcome`. -/
def applyOutcome (adapterId : String) (report : AgentStore.Report δ κ) (time : String) :
    Registry δ κ :=
  { s with store := s.store.applyOutcome cfg adapterId report time }

/-- Remember whose agents were stored. -/
def logApplied (flight : Option Nat) (outcome : AdapterOutcome δ κ) : Registry δ κ :=
  match flight, outcome.status with
  | some n, .success _ =>
    { s with applied := s.applied ++ [⟨n, s.ownedLaunchGeneration, s.closed⟩] }
  | _, _ => s

/-- The end of an attempt of a pass, once `#discoverAdapter` has returned. -/
def conclude (adapterId : String) (probe : Bool) (flight : Option Nat)
    (outcome : AdapterOutcome δ κ) (recordedAt : Int) (time : String) : Registry δ κ :=
  let s := { s with attempts := s.attempts.delete adapterId }
  match outcome.status with
  | .superseded => s.report cfg adapterId probe .superseded
  | _ =>
    if s.closed then s
    else
      ((s.report cfg adapterId probe (circuitReport outcome recordedAt)).logApplied flight
        outcome).applyOutcome cfg adapterId (agentReport outcome) time

/-- An adapter's transport is lost: a failure, unless its flight is to tell. -/
def disconnect (adapterId : String) (recordedAt : Int) (time : String) : Registry δ κ :=
  let s :=
    if s.adapterFlights adapterId = none then
      s.report cfg adapterId false (.recorded .failure recordedAt)
    else s
  s.applyOutcome cfg adapterId .stale time

/-! ### Owned launches that come and go -/

/-- `activateOwnedLaunch`. -/
def activateOwnedLaunch (record : OwnedLaunch) (cached : Option (Agent δ κ)) (time : String) :
    Registry δ κ :=
  { s with
    ownedLaunches := s.ownedLaunches.set record
    ownedLaunchGeneration := s.ownedLaunchGeneration + 1
    store :=
      match cached with
      | none => s.store
      | some cached =>
        s.store.restoreCachedOwnedAgent cfg record (s.launchAdapter cfg record.provider) cached
          time }

/-- `deactivateOwnedLaunch`. -/
def deactivateOwnedLaunch (id time : String) : Registry δ κ :=
  match s.ownedLaunches.get? id with
  | none => s
  | some record =>
    { s with
      ownedLaunches := s.ownedLaunches.delete id
      ownedLaunchGeneration := s.ownedLaunchGeneration + 1
      store := s.store.evictCachedOwnedAgent cfg record.agentId time }

/-! ### Histories -/

/-- The ids of the adapters with a history. -/
def historyAdapters : List String :=
  (cfg.adapters.values.filter AgentAdapter.discoversHistory).map AgentAdapter.id

/-- The answers for the histories have come. -/
def historyLoaded (answers : String → AdapterAnswer δ κ) (now : Int) (time : String) :
    Registry δ κ :=
  let results := (historyAdapters cfg).map fun id => (id, answers id)
  { s with
    store := s.store.loadHistory cfg results time
    historyExpiresAt :=
      if results.isEmpty || results.any (fun result => result.2.isSome) then now + cfg.historyTtlMs
      else s.historyExpiresAt
    historyLoad := .merged }

/-! ### The runs -/

/-- The next state, where the move is possible. -/
def step : RegistryMove δ κ → Option (Registry δ κ)
  | .refresh force now =>
    if s.closed then some s
    else some (s.enter cfg now (s.loop.record force false (s.loop.refresh force)))
  | .refreshAfterOwnedLaunchChange now =>
    if s.closed then some s
    else some (s.enter cfg now (s.loop.record true true s.loop.refreshAfterOwnedLaunchChange))
  | .adapterChanged adapterId disconnected recordedAt time now =>
    if s.closed then some s
    else if (cfg.adapters.get? adapterId).isNone then none
    else
      let s := if disconnected then s.disconnect cfg adapterId recordedAt time else s
      some (s.enter cfg now s.loop.adapterChanged)
  | .runQueuedRefresh now =>
    if s.loop.queuedRefreshes = 0 then none
    else if s.closed then
      some { s with loop := { s.loop with queuedRefreshes := s.loop.queuedRefreshes - 1 } }
    else some (s.enter cfg now s.loop.runQueuedRefresh)
  | .runFollowup k now =>
    match s.loop.followups[k]? with
    | some ⟨base, none⟩ =>
      if base ∉ s.loop.ended then none
      else if s.closed then some { s with loop := s.loop.abandonFollowup k }
      else some (s.enter cfg now (s.loop.runFollowup k))
    | _ => none
  | .discovered n answer =>
    match s.flights[n]? with
    | some ⟨adapterId, _, .discovering, _⟩ =>
      (cfg.adapters.get? adapterId).map fun adapter => s.setPhase n (s.discoverPhase adapter answer)
    | _ => none
  | .discoveredOwned n answer =>
    match s.flights[n]? with
    | some ⟨adapterId, _, .discoveringOwned provider records, _⟩ =>
      some (s.setPhase n (.settled (answer.bind (provenAgents adapterId provider records))))
    | _ => none
  | .dropFlight n =>
    match s.flights[n]? with
    | some ⟨adapterId, _, .settled _, true⟩ =>
      if s.adapterFlights adapterId = some n then some (s.deleteFlight adapterId) else none
    | _ => none
  | .resume adapterId race =>
    match s.attempts.get? adapterId with
    | some ⟨_, probe, .racing n⟩ =>
      (s.flights[n]?).bind fun flight => s.resume ⟨adapterId, probe, .racing n⟩ n flight race
    | _ => none
  | .conclude adapterId discoveryCurrent recordedAt time =>
    match s.attempts.get? adapterId, cfg.adapters.get? adapterId with
    | some ⟨_, probe, .resumed flight outcome⟩, some adapter =>
      some (s.conclude cfg adapterId probe flight
        (s.normalizeOutcome adapter outcome discoveryCurrent) recordedAt time)
    | _, _ => none
  | .endPass =>
    match s.loop.refreshPromise with
    | some n =>
      if s.attempts.values.isEmpty then some { s with loop := s.loop.endPass s.closed n } else none
    | none => none
  | .activateOwnedLaunch record cached time => some (s.activateOwnedLaunch cfg record cached time)
  | .deactivateOwnedLaunch id time => some (s.deactivateOwnedLaunch cfg id time)
  | .changeProvider adapterId provider =>
    some { s with providers := Function.update s.providers adapterId provider }
  | .loadHistory now =>
    some (if s.historyExpiresAt ≤ now ∧ s.historyLoad = .idle then
      { s with historyLoad := .loading } else s)
  | .historyLoaded answers now time =>
    if s.historyLoad = .loading then some (s.historyLoaded cfg answers now time) else none
  | .historySettled =>
    if s.historyLoad = .merged then some { s with historyLoad := .idle } else none
  | .close => some { s with closed := true }
  | .finishClose =>
    if s.closed ∧ s.loop.refreshPromise = none ∧ s.historyLoad = .idle then
      some { s with adapterFlights := fun _ => none, ownedLaunches := .empty }
    else none

def system : TransitionSystem (Registry δ κ) (RegistryMove δ κ) where
  init := fun s => s = empty
  step := fun s move => s.step cfg move

end Agents

/-! ### What the functions leave alone -/

/-- The fields a pass changes when it starts. -/
def withAttempts (t : Registry δ κ) : Registry δ κ :=
  { s with
    circuits := t.circuits
    flights := t.flights
    adapterFlights := t.adapterFlights
    attempts := t.attempts
    admissions := t.admissions }

theorem discoverAdapter_eq (adapterId : String) (probe : Bool) :
    s.discoverAdapter adapterId probe =
      let t := s.discoverAdapter adapterId probe
      { s with flights := t.flights, adapterFlights := t.adapterFlights, attempts := t.attempts } := by
  unfold discoverAdapter
  split
  · split <;> rfl
  · rfl

theorem startAttempt_eq (force : Bool) (now : String → Int) (adapter : AgentAdapter δ κ) :
    s.startAttempt cfg force now adapter =
      s.withAttempts (s.startAttempt cfg force now adapter) := by
  unfold startAttempt
  dsimp only
  split
  · rfl
  · rw [discoverAdapter_eq]
    rfl

theorem runRefresh_eq (force : Bool) (now : String → Int) :
    s.runRefresh cfg force now = s.withAttempts (s.runRefresh cfg force now) := by
  unfold runRefresh
  generalize cfg.adapters.values = adapters
  induction adapters generalizing s with
  | nil => rfl
  | cons adapter adapters ih =>
    rw [List.foldl_cons, ih, startAttempt_eq]
    rfl

/-- What starts no attempt stays when a call is entered. -/
theorem enter_eq (now : String → Int) (loop : RefreshLoop) : s.enter cfg now loop =
    ({ s with loop := loop } : Registry δ κ).withAttempts (s.enter cfg now loop) := by
  unfold enter
  split
  · rfl
  · exact runRefresh_eq cfg _ _ _

/-- What the end of a race leaves alone. -/
theorem resume_eq {attempt : Attempt δ κ} {n : Nat} {flight : AdapterFlight δ κ} {race : RaceEnd}
    {t : Registry δ κ} (h : s.resume attempt n flight race = some t) :
    t = { s with flights := t.flights, adapterFlights := t.adapterFlights, attempts := t.attempts } := by
  unfold resume at h
  grind [setOutcome, deleteFlight]

/-- What every attempt that starts keeps. -/
theorem enter_induction {P : Registry δ κ → Prop} {now : String → Int} {loop : RefreshLoop}
    (hloop : P { s with loop := loop })
    (hstart : ∀ t force adapter, P t → P (startAttempt cfg t force now adapter)) :
    P (s.enter cfg now loop) := by
  unfold enter
  split
  · exact hloop
  · unfold runRefresh
    generalize cfg.adapters.values = adapters
    generalize ({ s with loop := loop } : Registry δ κ) = t at hloop
    induction adapters generalizing t with
    | nil => exact hloop
    | cons adapter adapters ih => exact ih _ (hstart t _ adapter hloop)

section Frames

variable [DecidableEq δ] [DecidableEq κ]

/-- What the end of an attempt leaves alone. -/
theorem conclude_eq (adapterId : String) (probe : Bool) (flight : Option Nat)
    (outcome : AdapterOutcome δ κ) (recordedAt : Int) (time : String) :
    s.conclude cfg adapterId probe flight outcome recordedAt time =
      let t := s.conclude cfg adapterId probe flight outcome recordedAt time
      { s with
        attempts := s.attempts.delete adapterId
        store := t.store
        circuits := t.circuits
        reports := t.reports
        applied := t.applied } := by
  unfold conclude logApplied
  dsimp only
  split
  · rfl
  · split
    · rfl
    · split <;> rfl

/-- What a disconnect leaves alone. -/
theorem disconnect_eq (adapterId : String) (recordedAt : Int) (time : String) :
    s.disconnect cfg adapterId recordedAt time =
      let t := s.disconnect cfg adapterId recordedAt time
      { s with store := t.store, circuits := t.circuits, reports := t.reports } := by
  unfold disconnect
  dsimp only
  split <;> rfl

theorem disconnect_store (adapterId : String) (recordedAt : Int) (time : String) :
    (s.disconnect cfg adapterId recordedAt time).store =
      s.store.applyOutcome cfg adapterId .stale time := by
  unfold disconnect
  split <;> rfl

omit [DecidableEq κ] in
/-- What a deactivation leaves alone. -/
theorem deactivateOwnedLaunch_eq (id time : String) : s.deactivateOwnedLaunch cfg id time =
      let t := s.deactivateOwnedLaunch cfg id time
      { s with
        ownedLaunches := t.ownedLaunches
        ownedLaunchGeneration := t.ownedLaunchGeneration
        store := t.store } := by
  unfold deactivateOwnedLaunch
  split <;> rfl

end Frames

section Enter

variable {cfg s} {now : String → Int} {loop : RefreshLoop}

@[simp] theorem enter_store : (s.enter cfg now loop).store = s.store := by rw [enter_eq]; rfl

@[simp] theorem enter_loop : (s.enter cfg now loop).loop = loop := by rw [enter_eq]; rfl

@[simp] theorem enter_ownedLaunches : (s.enter cfg now loop).ownedLaunches = s.ownedLaunches := by
  rw [enter_eq]; rfl

@[simp] theorem enter_providers : (s.enter cfg now loop).providers = s.providers := by
  rw [enter_eq]; rfl

@[simp] theorem enter_closed : (s.enter cfg now loop).closed = s.closed := by rw [enter_eq]; rfl

@[simp] theorem enter_reports : (s.enter cfg now loop).reports = s.reports := by rw [enter_eq]; rfl

@[simp] theorem enter_applied : (s.enter cfg now loop).applied = s.applied := by rw [enter_eq]; rfl

end Enter

/-! ### The moves one by one -/

section Steps

variable [DecidableEq δ] [DecidableEq κ]

/-- The possible moves and what each does. -/
inductive Step : RegistryMove δ κ → Registry δ κ → Prop
  | ignored {move : RegistryMove δ κ} : move.isCall = true → s.closed = true → Step move s
  | refresh {force : Bool} {now : String → Int} : s.closed = false →
      Step (.refresh force now) (s.enter cfg now (s.loop.record force false (s.loop.refresh force)))
  | refreshAfterOwnedLaunchChange {now : String → Int} : s.closed = false →
      Step (.refreshAfterOwnedLaunchChange now)
        (s.enter cfg now (s.loop.record true true s.loop.refreshAfterOwnedLaunchChange))
  | adapterChanged {adapterId time : String} {recordedAt : Int} {now : String → Int} :
      s.closed = false →
      Step (.adapterChanged adapterId false recordedAt time now)
        (s.enter cfg now s.loop.adapterChanged)
  | disconnected {adapterId time : String} {recordedAt : Int} {now : String → Int} :
      s.closed = false → (cfg.adapters.get? adapterId).isSome →
      Step (.adapterChanged adapterId true recordedAt time now)
        ((s.disconnect cfg adapterId recordedAt time).enter cfg now s.loop.adapterChanged)
  | dropQueuedRefresh {now : String → Int} : s.closed = true →
      Step (.runQueuedRefresh now)
        { s with loop := { s.loop with queuedRefreshes := s.loop.queuedRefreshes - 1 } }
  | runQueuedRefresh {now : String → Int} : s.closed = false →
      Step (.runQueuedRefresh now) (s.enter cfg now s.loop.runQueuedRefresh)
  | abandonFollowup {k : Nat} {now : String → Int} : s.closed = true →
      Step (.runFollowup k now) { s with loop := s.loop.abandonFollowup k }
  | runFollowup {k base : Nat} {now : String → Int} : s.closed = false →
      s.loop.followups[k]? = some ⟨base, none⟩ → base ∈ s.loop.ended →
      Step (.runFollowup k now) (s.enter cfg now (s.loop.runFollowup k))
  | discovered {n : Nat} {answer : AdapterAnswer δ κ} {flight : AdapterFlight δ κ}
      {adapter : AgentAdapter δ κ} : s.flights[n]? = some flight → flight.phase matches .discovering →
      cfg.adapters.get? flight.adapterId = some adapter →
      Step (.discovered n answer) (s.setPhase n (s.discoverPhase adapter answer))
  | discoveredOwned {n : Nat} {answer : AdapterAnswer δ κ} {flight : AdapterFlight δ κ}
      {provider : Option String} {records : List OwnedLaunch} : s.flights[n]? = some flight →
      flight.phase = .discoveringOwned provider records →
      Step (.discoveredOwned n answer)
        (s.setPhase n (.settled (answer.bind (provenAgents flight.adapterId provider records))))
  | dropFlight {n : Nat} {flight : AdapterFlight δ κ} : s.flights[n]? = some flight →
      flight.timedOut = true → s.adapterFlights flight.adapterId = some n →
      Step (.dropFlight n) (s.deleteFlight flight.adapterId)
  | resume {adapterId : String} {race : RaceEnd} {attempt : Attempt δ κ} {n : Nat}
      {flight : AdapterFlight δ κ} {t : Registry δ κ} :
      s.attempts.get? adapterId = some attempt → attempt.phase = .racing n →
      s.flights[n]? = some flight → s.resume attempt n flight race = some t →
      Step (.resume adapterId race) t
  | conclude {adapterId time : String} {discoveryCurrent : Bool} {recordedAt : Int}
      {attempt : Attempt δ κ} {flight : Option Nat} {outcome : AdapterOutcome δ κ}
      {adapter : AgentAdapter δ κ} : s.attempts.get? adapterId = some attempt →
      attempt.phase = .resumed flight outcome → cfg.adapters.get? adapterId = some adapter →
      Step (.conclude adapterId discoveryCurrent recordedAt time)
        (s.conclude cfg adapterId attempt.probe flight
          (s.normalizeOutcome adapter outcome discoveryCurrent) recordedAt time)
  | endPass {n : Nat} : s.loop.refreshPromise = some n → s.attempts.values = [] →
      Step .endPass { s with loop := s.loop.endPass s.closed n }
  | activateOwnedLaunch {record : OwnedLaunch} {cached : Option (Agent δ κ)} {time : String} :
      Step (.activateOwnedLaunch record cached time) (s.activateOwnedLaunch cfg record cached time)
  | deactivateOwnedLaunch {id time : String} :
      Step (.deactivateOwnedLaunch id time) (s.deactivateOwnedLaunch cfg id time)
  | changeProvider {adapterId : String} {provider : Option String} :
      Step (.changeProvider adapterId provider)
        { s with providers := Function.update s.providers adapterId provider }
  | loadHistory {now : Int} {historyLoad : HistoryLoad} :
      Step (.loadHistory now) { s with historyLoad := historyLoad }
  | historyLoaded {answers : String → AdapterAnswer δ κ} {now : Int} {time : String} :
      Step (.historyLoaded answers now time) (s.historyLoaded cfg answers now time)
  | historySettled : Step .historySettled { s with historyLoad := .idle }
  | close : Step .close { s with closed := true }
  | finishClose : s.closed = true → s.loop.refreshPromise = none →
      Step .finishClose { s with adapterFlights := fun _ => none, ownedLaunches := .empty }

variable {cfg s} {s' : Registry δ κ} {move : RegistryMove δ κ}

/-- What a list of moves ends with can be reached. -/
theorem reachable_of_run {moves : List (RegistryMove δ κ)}
    (h : (system cfg).run empty moves = some s) : (system cfg).Reachable s :=
  .ofRun (.ofInit rfl) h

/-- Whatever happens is one of the moves. -/
theorem step_cases (h : s.step cfg move = some s') : Step cfg s move s' := by
  cases move with
  | refresh force now =>
    simp only [step] at h
    split at h
    · next hclosed => cases h; exact .ignored rfl hclosed
    · next hopen => cases h; exact .refresh (Bool.eq_false_iff.mpr hopen)
  | refreshAfterOwnedLaunchChange now =>
    simp only [step] at h
    split at h
    · next hclosed => cases h; exact .ignored rfl hclosed
    · next hopen => cases h; exact .refreshAfterOwnedLaunchChange (Bool.eq_false_iff.mpr hopen)
  | adapterChanged adapterId disconnected recordedAt time now =>
    simp only [step] at h
    split at h
    · next hclosed => cases h; exact .ignored rfl hclosed
    · next hopen =>
      have hopen := Bool.eq_false_iff.mpr hopen
      split at h
      · cases h
      · next hadapter =>
        cases h
        cases disconnected with
        | false => exact .adapterChanged hopen
        | true =>
          change Step cfg s _ (enter cfg (s.disconnect cfg adapterId recordedAt time) now
            (s.disconnect cfg adapterId recordedAt time).loop.adapterChanged)
          rw [congrArg loop (disconnect_eq cfg s adapterId recordedAt time)]
          exact .disconnected hopen (by simpa [Option.isSome_iff_ne_none] using hadapter)
  | runQueuedRefresh now =>
    simp only [step] at h
    split at h
    · cases h
    · split at h
      · next hclosed => cases h; exact .dropQueuedRefresh hclosed
      · next hopen => cases h; exact .runQueuedRefresh (Bool.eq_false_iff.mpr hopen)
  | runFollowup k now =>
    simp only [step] at h
    split at h
    · next base hk =>
      split at h
      · cases h
      · next hended =>
        split at h
        · next hclosed => cases h; exact .abandonFollowup hclosed
        · next hopen =>
          cases h
          exact .runFollowup (Bool.eq_false_iff.mpr hopen) hk (not_not.mp hended)
    · cases h
  | discovered n answer =>
    simp only [step] at h
    split at h
    · next hflight =>
      obtain ⟨adapter, hadapter, rfl⟩ := Option.map_eq_some_iff.mp h
      exact .discovered hflight rfl hadapter
    · cases h
  | discoveredOwned n answer =>
    simp only [step] at h
    split at h
    · next hflight => cases h; exact .discoveredOwned hflight rfl
    · cases h
  | dropFlight n =>
    simp only [step] at h
    split at h
    · next hflight =>
      split at h
      · next hcurrent => cases h; exact .dropFlight hflight rfl hcurrent
      · cases h
    · cases h
  | resume adapterId race =>
    simp only [step] at h
    split at h
    · next id probe n hattempt =>
      obtain ⟨flight, hflight, ht⟩ := Option.bind_eq_some_iff.mp h
      obtain rfl : id = adapterId := InsertionMap.key_of_get? hattempt
      exact .resume hattempt rfl hflight ht
    · cases h
  | conclude adapterId discoveryCurrent recordedAt time =>
    simp only [step] at h
    split at h
    · next hattempt hadapter =>
      cases h
      exact .conclude hattempt rfl hadapter
    · cases h
  | endPass =>
    simp only [step] at h
    split at h
    · next n hn =>
      split at h
      · next hattempts => cases h; exact .endPass hn (List.isEmpty_iff.mp hattempts)
      · cases h
    · cases h
  | activateOwnedLaunch record cached time => cases h; exact .activateOwnedLaunch
  | deactivateOwnedLaunch id time => cases h; exact .deactivateOwnedLaunch
  | changeProvider adapterId provider => cases h; exact .changeProvider
  | loadHistory now =>
    simp only [step, Option.some.injEq] at h
    subst h
    split
    · exact .loadHistory
    · have hsame : Step cfg s (.loadHistory now) { s with historyLoad := s.historyLoad } :=
        .loadHistory
      exact hsame
  | historyLoaded answers now time =>
    simp only [step] at h
    split at h
    · cases h; exact .historyLoaded
    · cases h
  | historySettled =>
    simp only [step] at h
    split at h
    · cases h; exact .historySettled
    · cases h
  | close => cases h; exact .close
  | finishClose =>
    simp only [step] at h
    split at h
    · next hclosed => cases h; exact .finishClose hclosed.1 hclosed.2.1
    · cases h

/-! ### What happens to the store -/

/-- What the end of an attempt tells the store. -/
def concludeMove (adapterId : String) (outcome : AdapterOutcome δ κ) (time : String) :
    Option (AgentStore.Move δ κ) :=
  match outcome.status with
  | .superseded => none
  | _ => if s.closed then none else some (.outcome adapterId (agentReport outcome) time)

variable (cfg s) in
/-- What a move does to the store. -/
def storeMove : RegistryMove δ κ → Option (AgentStore.Move δ κ)
  | .adapterChanged adapterId true _ time _ =>
    if s.closed then none else some (.outcome adapterId .stale time)
  | .conclude adapterId discoveryCurrent _ time =>
    match s.attempts.get? adapterId, cfg.adapters.get? adapterId with
    | some ⟨_, _, .resumed _ outcome⟩, some adapter =>
      s.concludeMove adapterId (s.normalizeOutcome adapter outcome discoveryCurrent) time
    | _, _ => none
  | .activateOwnedLaunch record (some cached) time =>
    some (.restore record (s.launchAdapter cfg record.provider) cached time)
  | .deactivateOwnedLaunch id time =>
    (s.ownedLaunches.get? id).map fun record => .evict record.agentId time
  | .historyLoaded answers _ time =>
    some (.history ((historyAdapters cfg).map fun id => (id, answers id)) time)
  | _ => none

theorem conclude_store {adapterId time : String} {probe : Bool} {flight : Option Nat}
    {outcome : AdapterOutcome δ κ} {recordedAt : Int} :
    (s.conclude cfg adapterId probe flight outcome recordedAt time).store =
      (s.concludeMove adapterId outcome time).elim s.store (s.store.move cfg) := by
  unfold conclude concludeMove
  dsimp only
  split
  · rfl
  · split
    · rfl
    · unfold logApplied
      split <;> rfl

/-- Every step does to the store what its move does. -/
theorem store_step (h : s.step cfg move = some s') :
    s'.store = (s.storeMove cfg move).elim s.store (s.store.move cfg) := by
  cases step_cases h with
  | ignored hcall hclosed =>
    unfold storeMove
    split
    · rw [if_pos hclosed]; rfl
    · cases hcall
    · cases hcall
    · cases hcall
    · cases hcall
    · rfl
  | refresh | refreshAfterOwnedLaunchChange | adapterChanged | runQueuedRefresh | runFollowup =>
    rw [enter_store]
    rfl
  | disconnected hopen =>
    rw [enter_store, disconnect_store, storeMove, hopen]
    rfl
  | resume _ _ _ ht =>
    rw [resume_eq s ht]
    rfl
  | @conclude _ _ _ _ attempt flight outcome adapter hattempt hphase hadapter =>
    obtain ⟨id, probe, phase⟩ := attempt
    dsimp only at hphase
    subst hphase
    rw [conclude_store, storeMove, hattempt, hadapter]
  | @activateOwnedLaunch record cached time =>
    cases cached <;> rfl
  | deactivateOwnedLaunch =>
    unfold deactivateOwnedLaunch
    split
    · next hnone => simp only [storeMove, hnone, Option.map_none, Option.elim]
    · next hsome => simp only [storeMove, hsome, Option.map_some, Option.elim, AgentStore.move]
  | discovered | discoveredOwned | dropFlight | dropQueuedRefresh | abandonFollowup | endPass
  | changeProvider | loadHistory | historyLoaded | historySettled | close | finishClose => rfl

end Steps

end Registry

end AgentHost
