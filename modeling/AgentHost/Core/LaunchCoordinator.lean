import Mathlib
import AgentHost.Core.LedgerRuns

namespace AgentHost.LaunchCoordinator

/-!
# The launch coordinator

The state of `launch-coordinator.js` and the parts of its methods that run without waiting: which
requests are admitted, which queued launches and retirements start, and what becomes of the queues
when one of them has ended.

* `Coordinator` — its private fields, the ledger with its file, and the provider calls made so far.
* `pump`, `pumpRetirements` — which queued items start, at most four together and one for each
  provider.
* `admitSubmit`, `admitRetire` — the checks of `submit` and `retire` before they wait.
* `normalizeProviderResult` — what is made of the answer of a provider.

What the registry keeps to restore a cached agent is left out.
-/

/-! ### Values -/

def maxActiveGlobal : Nat := 4

def maxActivePerProvider : Nat := 1

/-- What is a parameter of the coordinator: the two SHA-256 digests, and whether the registry can
    recover retirement preparations. -/
structure LaunchEnv where
  keyHash : String → String
  signature : LaunchRequest → String
  recovers : Bool

/-- What a provider's promise is fulfilled with; of an object, its members that are texts. -/
inductive ProviderValue
  | undefined
  | flag (value : Bool)
  | object (status providerAgentId agentId code cleanupScope : Option String)
  deriving DecidableEq

/-- `result?.status`. -/
def ProviderValue.status : ProviderValue → Option String
  | .object status _ _ _ _ => status
  | _ => none

def ProviderValue.cleanupScope : ProviderValue → Option String
  | .object _ _ _ _ cleanupScope => cleanupScope
  | _ => none

/-- What `{ status: "uncertain" }` stands for where a call was rejected. -/
def uncertainValue : ProviderValue := .object (some "uncertain") none none none none

/-- `safeCode`. -/
def safeCode (value : Option String) (fallback : String) : String :=
  match value with
  | some code => if safeId code then code else fallback
  | none => fallback

/-- What `normalizeProviderResult` returns. -/
inductive LaunchResult
  | owned (providerAgentId agentId : String)
  | failed (code : String)
  | uncertain (code : String)
  deriving DecidableEq

/-- `normalizeProviderResult`. -/
def normalizeProviderResult : ProviderValue → LaunchResult
  | .object (some "owned") (some providerAgentId) (some agentId) _ _ =>
    if safeId providerAgentId ∧ safeId agentId then .owned providerAgentId agentId
    else .uncertain "launch_invalid_result"
  | .object (some "failed") _ _ code _ => .failed (safeCode code "launch_failed")
  | .object (some "uncertain") _ _ code _ => .uncertain (safeCode code "launch_delivery_uncertain")
  | _ => .uncertain "launch_invalid_result"

/-- `launchView` and `retiredLaunchView`. -/
structure LaunchView where
  id : String
  provider : String
  target : String
  profile : String
  mode : String
  risk : LaunchRisk
  state : String
  agentId : Option String
  error : Option LaunchError
  requestedAt : Timestamp
  updatedAt : Timestamp
  deriving DecidableEq

def launchView (record : LaunchRecord) : LaunchView :=
  ⟨record.id, record.request.provider, record.request.target, record.request.profile,
    record.request.mode, record.request.risk, record.state.text, record.agentId, record.error,
    record.requestedAt, record.updatedAt⟩

def retiredLaunchView (entry : Retirement) : LaunchView :=
  ⟨entry.launchId, entry.request.provider, entry.request.target, entry.request.profile,
    entry.request.mode, entry.request.risk, "retired", none, none, entry.requestedAt,
    entry.retiredAt⟩

/-- `retirementView`. -/
structure RetirementView where
  launchId : String
  state : String
  retiredAt : Timestamp
  deriving DecidableEq

def retirementView (entry : Retirement) : RetirementView :=
  ⟨entry.launchId, "retired", entry.retiredAt⟩

/-- What a method returns; the tasks return `none`. -/
inductive Answer
  | none
  | launch (launch : LaunchView) (replayed : Bool)
  | retirement (retirement : RetirementView) (replayed : Bool)
  deriving DecidableEq

/-- What a routine throws: an error of the contract or of the ledger, or another one. -/
inductive CoordinatorError
  | contract (error : ContractError)
  | ledger (error : LedgerError)
  | other
  deriving DecidableEq

def shuttingDown : ContractError := ⟨"shutting_down", "agent-host is shutting down", 503⟩

def launchUnavailable : ContractError :=
  ⟨"launch_unavailable", "launch service is unavailable", 503⟩

def launchConflict : ContractError :=
  ⟨"idempotency_conflict", "Idempotency-Key was already used for a different request", 409⟩

/-- `retirementConflict`. -/
def retirementConflict : ContractError :=
  ⟨"idempotency_conflict", "Idempotency-Key was already used for this retirement", 409⟩

def launchQueueFull : ContractError :=
  ⟨"launch_queue_full", "launch queue is full; retry later", 429⟩

def invalidRetirementConfirmation : ContractError :=
  ⟨"invalid_retirement_confirmation", "confirmDeleteOwnedAgentAndState must be true", 400⟩

def launchNotFound : ContractError := ⟨"launch_not_found", "launch not found", 404⟩

def launchNotRetirable (message : String) : ContractError := ⟨"launch_not_retirable", message, 409⟩

def retirementUncertain (message : String) : ContractError :=
  ⟨"launch_retirement_uncertain", message, 503⟩

def retirementCapacity (message : String) : ContractError :=
  ⟨"launch_retirement_capacity", message, 503⟩

def preparationPending : ContractError :=
  retirementUncertain "owned launch retirement preparation is still pending"

def retirementUnconfirmed : ContractError :=
  retirementUncertain "owned launch retirement could not be confirmed"

/-! ### State -/

/-- The calls of the registry that a provider answers. -/
inductive ProviderCall
  | launch (provider : String) (record : LaunchRecord)
  | reconcileLaunch (provider : String) (record : LaunchRecord)
  | prepareLaunchRetirement (provider : String) (record : LaunchRecord) (keyHash : String)
  | cancelLaunchRetirementPreparation (provider : String) (record : LaunchRecord) (keyHash : String)
  | retireLaunch (provider : String) (record : LaunchRecord)
  | finalizeLaunchRetirement (cleanup : RetirementCleanup)
  | recoverLaunchRetirementPreparations (records : List LaunchRecord)
  | refreshOwnedLaunches
  deriving DecidableEq

/-- A call made through `#invoke`: what the provider's promise was settled with, where it was
    (`none` inside stands for a rejection); whether the process that made it still runs; and whether
    what waits for a preparation's release has seen it. -/
structure Invocation where
  call : ProviderCall
  outcome : Option (Option ProviderValue) := none
  live : Bool := true
  seen : Bool := false
  deriving DecidableEq

inductive RunKind
  | create
  | reconcile
  deriving DecidableEq

structure QueueItem where
  id : String
  kind : RunKind
  provider : String
  deriving DecidableEq

/-- An item of `#active` with its entry: the call that runs it, where it has begun; whether
    `stateReady` is resolved; and the provider call that `item.providerSettled` waits for. -/
structure ActiveRun where
  item : QueueItem
  owner : Option Nat := none
  stateReady : Bool := false
  providerSettled : Option Nat := none
  deriving DecidableEq

/-- The launch of an active item. -/
def ActiveRun.id (run : ActiveRun) : String := run.item.id

/-- An entry of `#retirements`; the entries are told apart by their numbers. -/
structure RetirementEntry where
  serial : Nat
  record : LaunchRecord
  keyHash : String
  provider : String
  deriving DecidableEq

/-- The launch of an entry. -/
def RetirementEntry.id (entry : RetirementEntry) : String := entry.record.id

/-- The routines that wait for the late outcome of a provider call. -/
inductive LateTask
  | preparation (record : LaunchRecord) (keyHash : String) (outcome : Nat)
  | retirement (record : LaunchRecord) (outcome : Nat) (entry : Nat)
  deriving DecidableEq

/-- `#cleanupWorker`: none, between two rounds of its loop, or in one. -/
inductive CleanupWorker
  | stopped
  | waiting
  | busy
  deriving DecidableEq

/-- The fields of the coordinator, its ledger, and what it asked the registry for.  The ids of
    `#queued` are those of `#queue`.  The promises and the `settled` fields of the retirement
    entries are kept by their numbers.  `permits` is no field of the source: who may still have a launch
    created by the provider, the queue and the active items (`none`) or a call. -/
structure Coordinator where
  host : LedgerHost
  ledgerOpen : Bool := false
  opening : Bool := false
  halted : Bool := false
  started : Bool := false
  draining : Bool := false
  capabilities : LaunchCapabilities := ⟨[]⟩
  queue : List QueueItem := []
  active : InsertionMap ActiveRun.id := .empty
  activeProviders : String → Nat := fun _ => 0
  retirements : InsertionMap RetirementEntry.id := .empty
  retirementQueue : List RetirementEntry := []
  activeRetirements : InsertionMap RetirementEntry.id := .empty
  entries : Nat := 0
  promises : Nat → Option (Except CoordinatorError Retirement) := fun _ => none
  entrySettled : Nat → Option Nat := fun _ => none
  entryOwner : Nat → Option Nat := fun _ => none
  preparations : String → Option Nat := fun _ => none
  admissionFences : String → Option String := fun _ => none
  latePreparationRollbacks : List String := []
  lateRetirementRollbacks : List String := []
  lateTasks : List LateTask := []
  cleanupQueue : List RetirementCleanup := []
  queuedCleanups : List String := []
  cleanupWorker : CleanupWorker := .stopped
  cleanupPaused : Bool := false
  activated : List String := []
  emitted : List (LaunchView × String) := []
  invocations : List Invocation := []
  permits : List (String × Option Nat) := []

namespace Coordinator

variable (s : Coordinator)

/-! ### The queues -/

/-- `#enqueue`. -/
def enqueue (item : QueueItem) : Coordinator :=
  if s.draining ∨ item.id ∈ s.queue.map QueueItem.id ∨ s.active.has item.id then s
  else { s with queue := s.queue ++ [item] }

/-- Whether a provider's lane is free. -/
def free (provider : String) : Bool := s.activeProviders provider < maxActivePerProvider

/-- Whether another item may start. -/
def hasRoom : Bool := s.active.size + s.activeRetirements.size < maxActiveGlobal

/-- `#activeProviders.set(provider, count + 1)`. -/
def occupy (provider : String) : Coordinator :=
  { s with
    activeProviders :=
      Function.update s.activeProviders provider (s.activeProviders provider + 1) }

/-- The count of a provider goes down by one. -/
def vacate (provider : String) : Coordinator :=
  { s with
    activeProviders :=
      Function.update s.activeProviders provider (s.activeProviders provider - 1) }

/-- One round of the loop of `#pump`: the first item whose provider is free becomes active. -/
def pumpStep : Option Coordinator :=
  if s.draining ∨ s.hasRoom = false then none
  else
    match s.queue.find? (fun item => s.free item.provider) with
    | none => none
    | some item =>
      some { s.occupy item.provider with
        queue := s.queue.erase item
        active := s.active.set { item := item } }

/-- One round of the loop of `#pumpRetirements`. -/
def pumpRetirementStep : Option Coordinator :=
  if s.draining ∨ s.hasRoom = false then none
  else
    match s.retirementQueue.find? (fun entry => s.free entry.provider) with
    | none => none
    | some entry =>
      some { s.occupy entry.provider with
        retirementQueue := s.retirementQueue.erase entry
        activeRetirements := s.activeRetirements.set entry }

end Coordinator

/-- Repeat a round until it does nothing, at most a number of times. -/
def repeatStep (step : Coordinator → Option Coordinator) : Nat → Coordinator → Coordinator
  | 0, s => s
  | n + 1, s =>
    match step s with
    | none => s
    | some s' => repeatStep step n s'

namespace Coordinator

variable (s : Coordinator)

/-- `#pump`. -/
def pump : Coordinator := repeatStep pumpStep s.queue.length s

/-- `#pumpRetirements`. -/
def pumpRetirements : Coordinator := repeatStep pumpRetirementStep s.retirementQueue.length s

/-- `#pumpRetirementCleanup`: the worker starts. -/
def pumpRetirementCleanup : Coordinator :=
  if s.draining ∨ s.cleanupPaused ∨ s.cleanupWorker ≠ .stopped ∨ s.cleanupQueue = [] then s
  else { s with cleanupWorker := .waiting }

/-- `#enqueueRetirementCleanup`. -/
def enqueueRetirementCleanup (cleanup : RetirementCleanup) : Coordinator :=
  if cleanup.cleanupScope.isNone ∨ cleanup.launchId ∈ s.queuedCleanups then s
  else
    { s with
      cleanupQueue := s.cleanupQueue ++ [cleanup]
      queuedCleanups := s.queuedCleanups ++ [cleanup.launchId] }.pumpRetirementCleanup

/-- A new entry of `#retirements` is queued. -/
def pushRetirement (entry : RetirementEntry) : Coordinator :=
  { s with
    entries := s.entries + 1
    retirements := s.retirements.set entry
    retirementQueue := s.retirementQueue ++ [entry] }

/-- `#trackRetirement`. -/
def trackRetirement (record : LaunchRecord) (keyHash : String) : Coordinator :=
  (s.pushRetirement ⟨s.entries, record, keyHash, record.request.provider⟩).pumpRetirements

/-- An entry is neither tracked nor active any more. -/
def dropRetirement (entry : RetirementEntry) : Coordinator :=
  { s with
    retirements :=
      if s.retirements.get? entry.id = some entry then s.retirements.delete entry.id
      else s.retirements
    activeRetirements := s.activeRetirements.delete entry.id }

/-- `release` of `#pumpRetirements`. -/
def release (entry : RetirementEntry) : Coordinator :=
  ((s.dropRetirement entry).vacate entry.provider).pump.pumpRetirements

/-- An item is not active any more. -/
def dropRun (item : QueueItem) : Coordinator := { s with active := s.active.delete item.id }

/-- What happens when `#run` of an active item has ended. -/
def finish (item : QueueItem) : Coordinator :=
  ((s.dropRun item).vacate item.provider).pumpRetirements.pump

/-- `#emit`. -/
def emit (record : LaunchRecord) (phase : String) : Coordinator :=
  { s with emitted := s.emitted ++ [(launchView record, phase)] }

/-- `#emitRetired`. -/
def emitRetired (entry : Retirement) : Coordinator :=
  { s with emitted := s.emitted ++ [(retiredLaunchView entry, "retired")] }

/-- `registry.activateOwnedLaunch`. -/
def activate (record : LaunchRecord) : Coordinator :=
  { s with
    activated := if record.id ∈ s.activated then s.activated else s.activated ++ [record.id] }

/-- `registry.deactivateOwnedLaunch`. -/
def deactivate (id : String) : Coordinator :=
  { s with activated := s.activated.filter (fun other => other ≠ id) }

/-- A provider call is made. -/
def invoke (call : ProviderCall) : Coordinator :=
  { s with invocations := s.invocations ++ [{ call := call }] }

/-- What a provider call was settled with. -/
def outcomeOf (invocation : Nat) : Option (Option ProviderValue) :=
  (s.invocations[invocation]?).bind Invocation.outcome

/-- Whether what is waited for, if anything, is settled. -/
def isSettled (invocation : Option Nat) : Bool :=
  invocation.all fun n => (s.outcomeOf n).isSome

/-! ### The checks of the methods -/

/-- What `submit` goes on with. -/
inductive Admission
  | replay (launch : LaunchView)
  | reserve (keyHash signature : String) (request : LaunchRequest)

/-- A request that comes again is answered with its launch, if it asks for the same. -/
def replay (env : LaunchEnv) (payload : Json) (stored : LaunchRequest) (signature : String)
    (launch : LaunchView) : Except ContractError Admission :=
  match normalizeLaunchRequest payload (capabilitiesForRecord stored) with
  | .error _ => .error launchConflict
  | .ok request =>
    if env.signature request ≠ signature then .error launchConflict else .ok (.replay launch)

/-- The part of `submit` with the hash of the key, before the reservation. -/
def admitKey (env : LaunchEnv) (payload : Json) (keyHash : String) :
    Except ContractError Admission :=
  let ledger := s.host.memory
  if (s.admissionFences keyHash).isSome ∨ (ledger.findByRetirementKeyHash keyHash).isSome ∨
      (ledger.findRetirementByKeyHash keyHash).isSome then .error launchConflict
  else
    match ledger.findRetirementByCreationKeyHash keyHash with
    | some retired =>
      replay env payload retired.request retired.signature (retiredLaunchView retired)
    | none =>
      match ledger.findByKeyHash keyHash with
      | some existing =>
        replay env payload existing.request existing.signature (launchView existing)
      | none =>
        (normalizeLaunchRequest payload s.capabilities).map fun request =>
          .reserve keyHash (env.signature request) request

/-- The part of `submit` before the reservation. -/
def admitSubmit (env : LaunchEnv) (payload : Json) (key : String) :
    Except ContractError Admission :=
  if s.started = false then .error launchUnavailable
  else if s.draining then .error shuttingDown
  else
    match validateIdempotencyKey key with
    | .error error => .error error
    | .ok key => s.admitKey env payload (env.keyHash key)

/-- The payload of a retirement: an object with the one member that confirms it. -/
def confirmsRetirement (payload : Json) : Bool :=
  match payload with
  | .obj members =>
    members.length == 1 &&
      match memberOf? members "confirmDeleteOwnedAgentAndState" with
      | some (.bool true) => true
      | _ => false
  | _ => false

/-- What `retire` goes on with. -/
inductive RetireAdmission
  | completed (entry : Retirement)
  | waits (serial : Nat) (replayed : Bool)
  | track (record : LaunchRecord) (keyHash : String) (replayed : Bool)

/-- The part of `retire` about a launch with a record. -/
def admitRecord (record : LaunchRecord) (keyHash : String) : Except ContractError RetireAdmission :=
  if record.state = .retiring ∧ record.retirementKeyHash ≠ some keyHash then
    .error retirementConflict
  else if record.state ≠ .owned ∧ record.state ≠ .retiring then
    .error (launchNotRetirable "only an owned launch can be retired")
  else
    match s.retirements.get? record.id with
    | some existing =>
      if existing.keyHash ≠ keyHash then .error retirementConflict
      else .ok (.waits existing.serial true)
    | none =>
      if record.id ∈ s.latePreparationRollbacks ∨ record.id ∈ s.lateRetirementRollbacks then
        .error (retirementUncertain "owned launch retirement preparation is being reconciled")
      else if record.state = .retiring ∧ (s.preparations record.request.provider).isSome then
        .error preparationPending
      else .ok (.track record keyHash (decide (record.state = .retiring)))

/-- The part of `retire` with the hash of the key, before it waits for an entry. -/
def admitRetireKey (id keyHash : String) : Except ContractError RetireAdmission :=
  let ledger := s.host.memory
  if (s.admissionFences keyHash).any (fun fenced => fenced ≠ id) then .error retirementConflict
  else if (ledger.findByKeyHash keyHash).isSome ∨
      (ledger.findRetirementByCreationKeyHash keyHash).isSome then .error retirementConflict
  else
    match ledger.retirements.get? id with
    | some completed =>
      if completed.keyHash ≠ keyHash then .error retirementConflict
      else .ok (.completed completed)
    | none =>
      if (ledger.findRetirementByKeyHash keyHash).any (fun entry => entry.launchId ≠ id) then
        .error retirementConflict
      else if (ledger.findByRetirementKeyHash keyHash).any (fun record => record.id ≠ id) then
        .error retirementConflict
      else
        match ledger.records.get? id with
        | none => .error launchNotFound
        | some record => s.admitRecord record keyHash

/-- The part of `retire` before it waits for an entry. -/
def admitRetire (env : LaunchEnv) (id : String) (payload : Json) (key : String) :
    Except ContractError RetireAdmission :=
  if s.started = false then .error launchUnavailable
  else if s.draining then .error shuttingDown
  else if !confirmsRetirement payload then .error invalidRetirementConfirmation
  else
    match validateIdempotencyKey key with
    | .error error => .error error
    | .ok key => s.admitRetireKey id (env.keyHash key)

/-- The checks of `#reconcileLatePreparation` once the outcome is there. -/
def rollsBackPreparation (record : LaunchRecord) (keyHash : String)
    (outcome : Option ProviderValue) : Bool :=
  !s.draining && outcome.any (fun value => value.status == some "blocked") &&
    !s.retirements.has record.id &&
    (s.host.memory.records.get? record.id).any fun current =>
      current.state == .retiring && current.retirementKeyHash == some keyHash

/-- The checks of `#reconcileLateRetirement` once the outcome is there. -/
def rollsBackRetirement (record : LaunchRecord) (serial : Nat)
    (outcome : Option ProviderValue) : Bool :=
  !s.draining && outcome.any (fun value => value.status == some "blocked") &&
    (s.retirements.get? record.id).all (fun active => active.serial == serial) &&
    (s.host.memory.records.get? record.id).any fun current =>
      current.state == .retiring && current.retirementKeyHash == record.retirementKeyHash

end Coordinator

end AgentHost.LaunchCoordinator
