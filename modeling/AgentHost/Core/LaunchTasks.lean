import AgentHost.Core.LaunchCoordinator
import AgentHost.Lib.RoutineOwners

namespace AgentHost.LaunchCoordinator

/-!
# The tasks of the launch coordinator

The methods and tasks of `launch-coordinator.js` as routines that interleave at every `await`.

* `submit`, `retire`, `start`, `stop` — the methods of the coordinator.
* `run`, `runRetirement`, `cleanUp`, `late` — the tasks that its queues start.
* `coordinatorSystem` — the runs: any interleaving of calls, tasks, answers of the providers, and
  crashes, also in the middle of a write of the ledger.

An operation of the ledger is one action, since the ledger runs them one after the other; what the
synchronous readers of the ledger see while a write is under way is left out.  Between the
actions of a routine others run also where the source does not wait.
-/

/-! ### Actions -/

/-- An operation of the ledger, without the clock reading and the generated identities. -/
inductive LedgerRequest
  | reserve (keyHash signature : String) (request : LaunchRequest)
  | transition (id : String) (expectedStates : List LaunchState) (patch : LaunchPatch)
  | beginRetirement (id keyHash : String)
  | completeRetirement (id : String) (cleanupScope : Option String)
  | completeRetirementCleanup (id keyHash : String)
  | cancelRetirement (id keyHash : String)

/-- What an action meets with: the clock, generated identities, the step of a write that fails or
    before which the process dies, whether what is waited for comes (and not a deadline or an abort
    before it), which late task begins, and the capabilities that the registry reports. -/
structure Circumstance where
  now : Timestamp := 0
  id : String := ""
  attemptId : String := ""
  fault : Option WriteStep := none
  dies : Option WriteStep := none
  comes : Bool := true
  index : Nat := 0
  capabilities : LaunchCapabilities := ⟨[]⟩

/-- The operation with what it meets with. -/
def LedgerRequest.op (c : Circumstance) : LedgerRequest → LedgerOp
  | .reserve keyHash signature request =>
    .reserve c.id c.attemptId keyHash signature request c.now
  | .transition id expectedStates patch => .transition id expectedStates patch c.now
  | .beginRetirement id keyHash => .beginRetirement id keyHash c.now
  | .completeRetirement id cleanupScope => .completeRetirement id c.now cleanupScope
  | .completeRetirementCleanup id keyHash => .completeRetirementCleanup id keyHash
  | .cancelRetirement id keyHash => .cancelRetirement id keyHash c.now

/-- Where the promise that a provider call is settled is kept. -/
inductive Slot
  | nowhere
  | run (id : String)
  | entry (serial : Nat)

/-- What a routine does between two points where others may run. -/
inductive Action
  | ledger (request : LedgerRequest)
  | openLedger
  | closeLedger
  | isStarted
  | setCapabilities
  | markStarted
  | isDraining
  | enqueue (item : QueueItem)
  | resumeRetirement (record : LaunchRecord)
  | pump
  | pumpRetirementCleanup
  | admitSubmit (payload : Json) (key : String)
  | accept (record : LaunchRecord)
  | admitRetire (id : String) (payload : Json) (key : String)
  | awaitRetirement (serial : Nat)
  | beginRun (id : String)
  | markStateReady (id : String)
  | awaitProviderSettled (id : String)
  | finishRun (item : QueueItem)
  | invoke (call : ProviderCall) (slot : Slot)
  | awaitResult (invocation : Nat)
  | awaitOutcome (invocation : Nat)
  | refresh
  | activate (record : LaunchRecord)
  | deactivate (id : String)
  | emit (record : LaunchRecord) (phase : String)
  | beginRetirementRun (serial : Nat)
  | startRetirement (entry : RetirementEntry)
  | releasePreparation (entry : RetirementEntry)
  | dropFence (keyHash id : String)
  | spawnLate (task : LateTask)
  | retired (entry : Retirement)
  | resolveRetirement (serial : Nat) (result : Except CoordinatorError Retirement)
  | awaitEntrySettled (serial : Nat)
  | releaseRetirement (entry : RetirementEntry)
  | beginLate
  | beginPreparationRollback (record : LaunchRecord) (keyHash : String)
      (outcome : Option ProviderValue)
  | endPreparationRollback (id : String)
  | beginRetirementRollback (record : LaunchRecord) (serial : Nat) (outcome : Option ProviderValue)
  | endRetirementRollback (id : String)
  | nextCleanup
  | pauseCleanup
  | endCleanup (cleanup : RetirementCleanup)
  | beginStop
  | awaitRetirements (serials : List Nat)
  | awaitCleanupWorker
  | listActive
  | awaitStateReady (ids : List String)
  | awaitRuns (ids : List String)

/-- The type of what an action yields. -/
def Reply : Action → Type
  | .ledger _ => Except LedgerError LedgerReply
  | .openLedger => Option (List LaunchRecord)
  | .isStarted => Bool
  | .isDraining => Bool
  | .admitSubmit _ _ => Except ContractError Coordinator.Admission
  | .admitRetire _ _ _ => Except ContractError (Retirement ⊕ Nat × Bool)
  | .awaitRetirement _ => Except CoordinatorError Retirement
  | .beginRun _ => QueueItem × Option LaunchRecord
  | .invoke _ _ => Nat
  | .awaitResult _ => Option ProviderValue
  | .awaitOutcome _ => Option ProviderValue
  | .refresh => Bool
  | .beginRetirementRun _ => RetirementEntry
  | .startRetirement _ => Except ContractError (Option Nat)
  | .releasePreparation _ => Nat
  | .beginLate => LateTask
  | .beginPreparationRollback _ _ _ => Bool
  | .beginRetirementRollback _ _ _ => Bool
  | .nextCleanup => Option RetirementCleanup
  | .beginStop => Option (List Nat)
  | .listActive => List String
  | _ => Unit

namespace Coordinator

variable (s : Coordinator)

/-- What a call may have created by the provider after an operation of the ledger. -/
def granted (n : Nat) : Except LedgerError LedgerReply → List (String × Option Nat)
  | .ok (.created record) => [(record.id, some n)]
  | _ => []

/-- An operation of the ledger; the process may die in the middle of its write. -/
def ledgerStep (n : Nat) (request : LedgerRequest) (c : Circumstance) :
    Option (Coordinator × Except LedgerError LedgerReply) :=
  let op := request.op c
  if s.ledgerOpen = false then some (s, .error .notOpen)
  else if ¬ s.host.IsFresh op then none
  else
    match c.dies with
    | some before =>
      some ({ s with host := (s.host.crash op before).issue op, halted := true },
        .error .writeFailed)
    | none =>
      some ({ s with
        host := (s.host.call op c.fault).1.issue op
        permits := s.permits ++ granted n (s.host.call op c.fault).2 }, (s.host.call op c.fault).2)

/-- The launches that a call may go on with after the ledger was opened. -/
def resumable (n : Nat) (records : List LaunchRecord) : List (String × Option Nat) :=
  (records.filter fun record => record.state = .requested).map fun record => (record.id, some n)

/-- `ledger.open()`: it may be refused, by the lock of another process or by the file. -/
def openStep (n : Nat) (c : Circumstance) : Option (Coordinator × Option (List LaunchRecord)) :=
  if s.opening then none
  else if c.comes = false then some ({ s with opening := true }, none)
  else
    match s.host.reopen with
    | none => some ({ s with opening := true }, none)
    | some host =>
      some ({ s with
        host := host
        opening := true
        ledgerOpen := true
        permits := s.permits ++ resumable n host.memory.records.values },
        some host.memory.records.values)

/-- A launch's permit passes from one holder to another. -/
def passPermit (id : String) (holder next : Option Nat) : Coordinator :=
  { s with
    permits := s.permits.map fun permit => if permit = (id, holder) then (id, next) else permit }

/-- `#enqueue` by a call: with an item that creates, the permit passes to the queue. -/
def enqueueBy (n : Nat) (item : QueueItem) : Coordinator :=
  match item.kind with
  | .create => (s.passPermit item.id (some n) none).enqueue item
  | .reconcile => s.enqueue item

/-- `#started` is set, and the pending cleanups are queued. -/
def markStarted : Coordinator :=
  s.host.memory.retirementCleanups.values.foldl enqueueRetirementCleanup { s with started := true }

/-- `#resumeRetirement`, up to where it waits. -/
def resumeRetirement (record : LaunchRecord) : Coordinator :=
  if s.retirements.has record.id ∨ s.draining then s
  else s.trackRetirement record (record.retirementKeyHash.getD "")

/-- A new reservation is accepted by `submit`. -/
def accept (n : Nat) (record : LaunchRecord) : Coordinator :=
  ((s.emit record "accepted").enqueueBy n ⟨record.id, .create, record.request.provider⟩).pump

/-- The rest of `retire` before it waits. -/
def retireStep (env : LaunchEnv) (id : String) (payload : Json) (key : String) :
    Coordinator × Except ContractError (Retirement ⊕ Nat × Bool) :=
  match s.admitRetire env id payload key with
  | .error error => (s, .error error)
  | .ok (.completed entry) => (s, .ok (.inl entry))
  | .ok (.waits serial replayed) => (s, .ok (.inr (serial, replayed)))
  | .ok (.track record keyHash replayed) =>
    (s.trackRetirement record keyHash, .ok (.inr (s.entries, replayed)))

/-- An active item changes, where it is one. -/
def updateRun (id : String) (f : ActiveRun → ActiveRun) : Coordinator :=
  match s.active.get? id with
  | none => s
  | some run => { s with active := s.active.set (f run) }

/-- A call takes over an active item. -/
def beginRun (n : Nat) (id : String) : Option (Coordinator × QueueItem × Option LaunchRecord) :=
  match s.active.get? id with
  | none => none
  | some run =>
    if run.owner.isSome then none
    else
      let begun := s.updateRun id fun run => { run with owner := some n }
      some (match run.item.kind with
        | .create => begun.passPermit id none (some n)
        | .reconcile => begun,
        run.item, s.host.memory.records.get? id)

/-- The promise that a provider call is settled is kept where its slot says. -/
def keepIn (slot : Slot) (invocation : Nat) : Coordinator :=
  match slot with
  | .nowhere => s
  | .run id => s.updateRun id fun run => { run with providerSettled := some invocation }
  | .entry serial =>
    { s with entrySettled := Function.update s.entrySettled serial (some invocation) }

/-- The permit that a provider call uses up. -/
def spend (n : Nat) : ProviderCall → Coordinator
  | .launch _ record =>
    { s with permits := s.permits.filter fun permit => permit ≠ (record.id, some n) }
  | _ => s

/-- `#invoke`, by a call. -/
def invokeStep (n : Nat) (call : ProviderCall) (slot : Slot) : Coordinator :=
  ((s.spend n call).keepIn slot s.invocations.length).invoke call

/-- A call takes over an entry whose retirement has started. -/
def beginRetirementRun (n serial : Nat) : Option (Coordinator × RetirementEntry) :=
  match s.activeRetirements.values.find? (fun entry => entry.serial = serial) with
  | none => none
  | some entry =>
    if (s.entryOwner serial).isSome then none
    else some ({ s with entryOwner := Function.update s.entryOwner serial (some n) }, entry)

/-- The beginning of `#runRetirement`: an owned launch is prepared by its provider. -/
def startRetirement (entry : RetirementEntry) : Coordinator × Except ContractError (Option Nat) :=
  if (s.preparations entry.record.request.provider).isSome then (s, .error preparationPending)
  else if entry.record.state = .owned then
    ({ s with
      preparations :=
        Function.update s.preparations entry.record.request.provider (some s.invocations.length)
      }.invoke
        (.prepareLaunchRetirement entry.record.request.provider entry.record entry.keyHash),
      .ok (some s.invocations.length))
  else (s, .ok none)

/-- A preparation is released after its fence could not be stored. -/
def releasePreparation (entry : RetirementEntry) : Coordinator :=
  { s with
    admissionFences := Function.update s.admissionFences entry.keyHash (some entry.record.id)
    entrySettled := Function.update s.entrySettled entry.serial (some s.invocations.length)
    }.invoke
      (.cancelLaunchRetirementPreparation entry.record.request.provider entry.record entry.keyHash)

/-- The fence of a key is dropped where it is that of a launch. -/
def dropFence (keyHash id : String) : Coordinator :=
  if s.admissionFences keyHash = some id then
    { s with admissionFences := Function.update s.admissionFences keyHash none }
  else s

/-- A completed retirement is announced and its cleanup queued. -/
def announceRetired (entry : Retirement) : Coordinator :=
  (s.emitRetired entry).enqueueRetirementCleanup (retirementCleanup entry)

/-- The promise of an entry is settled, once. -/
def resolveRetirement (serial : Nat) (result : Except CoordinatorError Retirement) : Coordinator :=
  match s.promises serial with
  | some _ => s
  | none => { s with promises := Function.update s.promises serial (some result) }

/-- A round of the cleanup worker begins, or the worker ends. -/
def nextCleanup : Option (Coordinator × Option RetirementCleanup) :=
  if s.cleanupWorker ≠ .waiting then none
  else
    match s.cleanupQueue with
    | [] => some ({ s with cleanupWorker := .stopped }, none)
    | cleanup :: rest =>
      if s.draining ∨ s.cleanupPaused then some ({ s with cleanupWorker := .stopped }, none)
      else some ({ s with cleanupQueue := rest, cleanupWorker := .busy }, some cleanup)

/-- The beginning of `stop`: nothing queued starts any more; which retirements are waited for. -/
def beginStop : Coordinator × Option (List Nat) :=
  if s.draining then (s, none)
  else
    let retirements := s.retirements.filter fun entry => entry ∉ s.retirementQueue
    ({ s with
      draining := true
      queue := []
      retirementQueue := []
      retirements := retirements
      promises := s.retirementQueue.foldl (fun promises entry =>
        Function.update promises entry.serial (some (.error (.contract shuttingDown))))
          s.promises },
      some (retirements.values.map RetirementEntry.serial))

/-- What a call's action does, where it may happen. -/
def actStep (env : LaunchEnv) (n : Nat) (action : Action) (c : Circumstance) :
    Option (Coordinator × Reply action) :=
  match action with
  | .ledger request => s.ledgerStep n request c
  | .openLedger => s.openStep n c
  | .closeLedger => some ({ s with ledgerOpen := false }, ())
  | .isStarted => some (s, s.started)
  | .setCapabilities => some ({ s with capabilities := c.capabilities }, ())
  | .markStarted => some (s.markStarted, ())
  | .isDraining => some (s, s.draining)
  | .enqueue item => some (s.enqueueBy n item, ())
  | .resumeRetirement record => some (s.resumeRetirement record, ())
  | .pump => some (s.pump, ())
  | .pumpRetirementCleanup => some (s.pumpRetirementCleanup, ())
  | .admitSubmit payload key => some (s, s.admitSubmit env payload key)
  | .accept record => some (s.accept n record, ())
  | .admitRetire id payload key => some (s.retireStep env id payload key)
  | .awaitRetirement serial => (s.promises serial).map fun result => (s, result)
  | .beginRun id => s.beginRun n id
  | .markStateReady id => some (s.updateRun id fun run => { run with stateReady := true }, ())
  | .awaitProviderSettled id =>
    if (s.active.get? id).all fun run => s.isSettled run.providerSettled then some (s, ())
    else none
  | .finishRun item => some (s.finish item, ())
  | .invoke call slot => some (s.invokeStep n call slot, s.invocations.length)
  | .awaitResult invocation =>
    if c.comes then (s.outcomeOf invocation).map fun outcome => (s, outcome)
    else some (s, none)
  | .awaitOutcome invocation => (s.outcomeOf invocation).map fun outcome => (s, outcome)
  | .refresh => some (s, c.comes)
  | .activate record => some (s.activate record, ())
  | .deactivate id => some (s.deactivate id, ())
  | .emit record phase => some (s.emit record phase, ())
  | .beginRetirementRun serial => s.beginRetirementRun n serial
  | .startRetirement entry => some (s.startRetirement entry)
  | .releasePreparation entry => some (s.releasePreparation entry, s.invocations.length)
  | .dropFence keyHash id => some (s.dropFence keyHash id, ())
  | .spawnLate task => some ({ s with lateTasks := s.lateTasks ++ [task] }, ())
  | .retired entry => some (s.announceRetired entry, ())
  | .resolveRetirement serial result => some (s.resolveRetirement serial result, ())
  | .awaitEntrySettled serial =>
    if s.isSettled (s.entrySettled serial) then some (s, ()) else none
  | .releaseRetirement entry => some (s.release entry, ())
  | .beginLate =>
    (s.lateTasks[c.index]?).map fun task =>
      ({ s with lateTasks := s.lateTasks.eraseIdx c.index }, task)
  | .beginPreparationRollback record keyHash outcome =>
    if s.rollsBackPreparation record keyHash outcome then
      some ({ s with
        latePreparationRollbacks := record.id :: s.latePreparationRollbacks }, true)
    else some (s, false)
  | .endPreparationRollback id =>
    some ({ s with latePreparationRollbacks := s.latePreparationRollbacks.erase id }, ())
  | .beginRetirementRollback record serial outcome =>
    if s.rollsBackRetirement record serial outcome then
      some ({ s with lateRetirementRollbacks := record.id :: s.lateRetirementRollbacks }, true)
    else some (s, false)
  | .endRetirementRollback id =>
    some ({ s with lateRetirementRollbacks := s.lateRetirementRollbacks.erase id }, ())
  | .nextCleanup => s.nextCleanup
  | .pauseCleanup => some ({ s with cleanupPaused := true }, ())
  | .endCleanup cleanup =>
    some ({ s with
      queuedCleanups := s.queuedCleanups.erase cleanup.launchId
      cleanupWorker := .waiting }, ())
  | .beginStop => some s.beginStop
  | .awaitRetirements serials =>
    if ∀ serial ∈ serials, (s.promises serial).isSome then some (s, ()) else none
  | .awaitCleanupWorker => if s.cleanupWorker = .stopped then some (s, ()) else none
  | .listActive => some (s, s.active.values.map ActiveRun.id)
  | .awaitStateReady ids =>
    if ∀ id ∈ ids, (s.active.get? id).all ActiveRun.stateReady then some (s, ()) else none
  | .awaitRuns ids => if ∀ id ∈ ids, s.active.has id = false then some (s, ()) else none

/-- Nothing happens once the process has died. -/
def perform (env : LaunchEnv) (n : Nat) (action : Action) (c : Circumstance) (s : Coordinator) :
    Option (Coordinator × Reply action) :=
  if s.halted then none else s.actStep env n action c

end Coordinator

/-! ### Routines -/

/-- The code of a method or a task. -/
abbrev Task := Routine Action Reply CoordinatorError

section

variable {α : Type}

def act (action : Action) : Task (Reply action) := Routine.perform action

/-- An operation of the ledger; its error is thrown on. -/
def ledger (request : LedgerRequest) : Task LedgerReply := do
  match ← act (.ledger request) with
  | .ok reply => return reply
  | .error error => .fail (.ledger error)

/-- An operation of the ledger that returns a record. -/
def ledgerRecord (request : LedgerRequest) : Task LaunchRecord := do
  match ← ledger request with
  | .record record => return record
  | _ => .fail .other

def throwContract (error : ContractError) : Task α := .fail (.contract error)

/-- What a provider's promise is fulfilled with; none where it is rejected, or where the deadline or
    an abort comes first. -/
def awaitResult (invocation : Nat) : Task (Option ProviderValue) := act (.awaitResult invocation)

def isStarted : Task Bool := act .isStarted

def isDraining : Task Bool := act .isDraining

def mayRollBackPreparation (record : LaunchRecord) (keyHash : String)
    (outcome : Option ProviderValue) : Task Bool :=
  act (.beginPreparationRollback record keyHash outcome)

def mayRollBackRetirement (record : LaunchRecord) (serial : Nat)
    (outcome : Option ProviderValue) : Task Bool :=
  act (.beginRetirementRollback record serial outcome)

def awaitRefresh : Task Bool := act .refresh

/-- `#refreshOwnedLaunches` or `registry.refresh`; its error is thrown on. -/
def refresh : Task Unit := do
  if ← awaitRefresh then return () else .fail .other

end

/-- `#settle`. -/
def settle (record : LaunchRecord) (result : LaunchResult) : Task LaunchState := do
  match result with
  | .owned providerAgentId agentId =>
    let owned ← ledgerRecord (.transition record.id [.creating, .uncertain]
      { state := some .owned, providerAgentId := some providerAgentId, agentId := some agentId,
        error := some none })
    if owned.state = .owned then
      act (.activate owned)
      refresh
      act (.emit owned "owned")
    return owned.state
  | .failed code =>
    let failed ← ledgerRecord (.transition record.id [.creating, .uncertain]
      { state := some .failed, error := some (some ⟨safeCode (some code) "launch_failed", false⟩) })
    act (.emit failed "failed")
    return failed.state
  | .uncertain code =>
    let uncertain ← ledgerRecord (.transition record.id [.creating, .uncertain]
      { state := some .uncertain,
        error := some (some ⟨safeCode (some code) "launch_delivery_uncertain", true⟩) })
    act (.emit uncertain "uncertain")
    return uncertain.state

/-- `#create`. -/
def create (id : String) : Task Unit := do
  let creating ← ledgerRecord
    (.transition id [.requested] { state := some .creating, error := some none })
  if creating.state ≠ .creating then return ()
  act (.emit creating "creating")
  let invocation ← act (.invoke (.launch creating.request.provider creating) (.run id))
  let result ← awaitResult invocation
  let value := result.getD
    (.object (some "uncertain") none none (some "launch_delivery_uncertain") none)
  let _ ← settle creating (normalizeProviderResult value)

/-- `#reconcile`. -/
def reconcile (record : LaunchRecord) : Task Unit := do
  let invocation ←
    act (.invoke (.reconcileLaunch record.request.provider record) (.run record.id))
  let result ← awaitResult invocation
  let value := result.getD
    (.object (some "uncertain") none none (some "launch_reconciliation_unavailable") none)
  if value = .undefined ∨ value = .flag false ∨ value.status = some "unsupported" then return ()
  let _ ← settle record (normalizeProviderResult value)

/-- What `#run` does with the record of an item. -/
def runRecord (kind : RunKind) (record : LaunchRecord) : Task Unit :=
  match kind with
  | .create => create record.id
  | .reconcile => reconcile record

/-- `#run` of an active item, and what happens when it has ended. -/
def run (id : String) : Task Answer := do
  let (item, record) ← act (.beginRun id)
  match record with
  | none => act (.markStateReady id)
  | some record =>
    let _ ← Routine.attempt (ε := CoordinatorError) (runRecord item.kind record)
    act (.markStateReady id)
    act (.awaitProviderSettled id)
  act (.finishRun item)
  return .none

/-- One record of the loop of `start`. -/
def resume (record : LaunchRecord) : Task Unit :=
  match record.state with
  | .owned => act (.activate record)
  | .requested => act (.enqueue ⟨record.id, .create, record.request.provider⟩)
  | .creating => do
    let uncertain ← ledgerRecord (.transition record.id [.creating]
      { state := some .uncertain, error := some (some ⟨"launch_interrupted", true⟩) })
    act (.enqueue ⟨uncertain.id, .reconcile, uncertain.request.provider⟩)
  | .uncertain => act (.enqueue ⟨record.id, .reconcile, record.request.provider⟩)
  | .retiring => act (.resumeRetirement record)
  | .failed => return ()

/-- The loop of `start` over the records. -/
def resumeAll : List LaunchRecord → Task Unit
  | [] => return ()
  | record :: records => do
    resume record
    resumeAll records

/-- The recovery of the retirement preparations of owned launches. -/
def recoverPreparations (env : LaunchEnv) (records : List LaunchRecord) : Task Unit := do
  let owned := records.filter fun record => record.state = .owned
  if owned ≠ [] ∧ env.recovers then
    let invocation ← act (.invoke (.recoverLaunchRetirementPreparations owned) .nowhere)
    if (← awaitResult invocation) ≠ some (.flag true) then .fail .other

/-- `start`, which the server calls once. -/
def start (env : LaunchEnv) : Task Answer := do
  if ← isStarted then return .none
  match ← act .openLedger with
  | none => .fail .other
  | some records =>
    act .setCapabilities
    recoverPreparations env records
    act .markStarted
    resumeAll records
    act .pump
    act .pumpRetirementCleanup
    return .none

/-- `submit`. -/
def submit (payload : Json) (key : String) : Task Answer := do
  match ← act (.admitSubmit payload key) with
  | .error error => throwContract error
  | .ok (.replay launch) => return .launch launch true
  | .ok (.reserve keyHash signature request) =>
    match ← ledger (.reserve keyHash signature request) with
    | .conflict => throwContract launchConflict
    | .full => throwContract launchQueueFull
    | .retired entry =>
      if entry.signature ≠ signature then throwContract launchConflict
      else return .launch (retiredLaunchView entry) true
    | .existing record =>
      if record.signature ≠ signature then throwContract launchConflict
      else return .launch (launchView record) true
    | .created record =>
      act (.accept record)
      return .launch (launchView record) false
    | _ => .fail .other

/-- `retire`. -/
def retire (id : String) (payload : Json) (key : String) : Task Answer := do
  match ← act (.admitRetire id payload key) with
  | .error error => throwContract error
  | .ok (.inl entry) => return .retirement (retirementView entry) true
  | .ok (.inr (serial, replayed)) =>
    match ← act (.awaitRetirement serial) with
    | .error error => .fail error
    | .ok entry => return .retirement (retirementView entry) replayed

/-- `#finishRetirement`. -/
def finishRetirement (entry : RetirementEntry) (record : LaunchRecord) (recovered : Bool) :
    Task Retirement := do
  act (.deactivate record.id)
  refresh
  let invocation ←
    act (.invoke (.retireLaunch record.request.provider record) (.entry entry.serial))
  let result := (← awaitResult invocation).getD uncertainValue
  if result.status = some "unsupported" ∧ recovered then throwContract retirementUnconfirmed
  else if result.status = some "blocked" ∨ result.status = some "unsupported" then
    let restored ← ledgerRecord
      (.cancelRetirement record.id (record.retirementKeyHash.getD ""))
    act (.activate restored)
    refresh
    act (.emit restored "owned")
    throwContract (launchNotRetirable "owned launch is not currently safe to retire")
  else if result.status ≠ some "retired" then
    if result.status = some "uncertain" then
      act (.spawnLate (.retirement record invocation entry.serial))
    throwContract retirementUnconfirmed
  else
    match ← ledger (.completeRetirement record.id result.cleanupScope) with
    | .retirement completed =>
      act (.deactivate record.id)
      refresh
      act (.retired completed)
      return completed
    | _ => .fail .other

/-- How `retire` fails where the fence could not be stored. -/
def throwUnfenced (error : CoordinatorError) : Task Retirement :=
  match error with
  | .ledger .retirementKeyConflict => throwContract retirementConflict
  | .ledger .retirementCleanupFull =>
    throwContract (retirementCapacity "launch retirement cleanup is full")
  | error => .fail error

/-- The fence of a prepared retirement could not be stored: the preparation is released. -/
def releaseAfter (entry : RetirementEntry) (status : Option String) (error : CoordinatorError) :
    Task Retirement := do
  if status = some "prepared" ∨ status = some "uncertain" then
    let release ← act (.releasePreparation entry)
    if (← awaitResult release) ≠ some (.flag true) then
      throwContract
        (retirementUncertain "owned launch retirement preparation could not be released")
    act (.dropFence entry.keyHash entry.record.id)
  throwUnfenced error

/-- What `#runRetirement` does once the fence is stored. -/
def continueRetirement (entry : RetirementEntry) (record : LaunchRecord) (status : Option String)
    (preparation : Nat) : Task Retirement := do
  act (.dropFence entry.keyHash record.id)
  act (.emit record "retiring")
  if status = some "uncertain" then
    act (.deactivate record.id)
    act (.spawnLate (.preparation record entry.keyHash preparation))
    throwContract (retirementUncertain "owned launch retirement could not be prepared")
  else if record.retirementKeyHash ≠ some entry.keyHash then throwContract retirementConflict
  else if ← isDraining then throwContract shuttingDown
  else finishRetirement entry record false

/-- `#runRetirement`. -/
def retireEntry (entry : RetirementEntry) : Task Retirement := do
  match ← act (.startRetirement entry) with
  | .error error => throwContract error
  | .ok none =>
    if entry.record.retirementKeyHash ≠ some entry.keyHash then throwContract retirementConflict
    else if ← isDraining then throwContract shuttingDown
    else finishRetirement entry entry.record (decide (entry.record.state = .retiring))
  | .ok (some preparation) =>
    let result := (← awaitResult preparation).getD uncertainValue
    if result.status = some "blocked" then
      throwContract (retirementCapacity "launch provider cannot reserve retirement capacity")
    else
      match ← Routine.attempt (ledger (.beginRetirement entry.record.id entry.keyHash)) with
      | .error error => releaseAfter entry result.status error
      | .ok (.record record) => continueRetirement entry record result.status preparation
      | .ok _ => .fail .other

/-- The task of a retirement that `#pumpRetirements` starts, with its release. -/
def runRetirement (serial : Nat) : Task Answer := do
  let entry ← act (.beginRetirementRun serial)
  let outcome ← Routine.attempt (ε := CoordinatorError) (retireEntry entry)
  act (.resolveRetirement serial outcome)
  act (.awaitEntrySettled serial)
  act (.releaseRetirement entry)
  return .none

/-- A late outcome takes a launch out of retirement again. -/
def restore (record : LaunchRecord) (keyHash : String) (ended : Action) : Task Unit := do
  match ← Routine.attempt (ε := CoordinatorError) (δ := CoordinatorError)
      (ledgerRecord (.cancelRetirement record.id keyHash)) with
  | .error _ => let _ ← act ended
  | .ok restored =>
    act (.activate restored)
    let refreshing ← act (.invoke .refreshOwnedLaunches .nowhere)
    let _ ← awaitResult refreshing
    act (.emit restored "owned")
    let _ ← act ended

/-- `#reconcileLatePreparation` and `#reconcileLateRetirement`. -/
def late : Task Answer := do
  match ← act .beginLate with
  | .preparation record keyHash invocation =>
    let outcome ← act (.awaitOutcome invocation)
    if ← mayRollBackPreparation record keyHash outcome then
      restore record keyHash (.endPreparationRollback record.id)
  | .retirement record invocation serial =>
    let outcome ← act (.awaitOutcome invocation)
    if ← mayRollBackRetirement record serial outcome then
      restore record (record.retirementKeyHash.getD "") (.endRetirementRollback record.id)
  return .none

/-- One round of the loop of the cleanup worker. -/
def cleanUp : Task Answer := do
  match ← act .nextCleanup with
  | none => return .none
  | some cleanup =>
    let invocation ← act (.invoke (.finalizeLaunchRetirement cleanup) .nowhere)
    match ← awaitResult invocation with
    | none => act .pauseCleanup
    | some (.flag true) =>
      match ← Routine.attempt (ε := CoordinatorError)
          (ledger (.completeRetirementCleanup cleanup.launchId cleanup.keyHash)) with
      | .error _ => act .pauseCleanup
      | .ok _ => pure ()
    | some _ => pure ()
    act (.endCleanup cleanup)
    return .none

/-- `stop`, with the closing of the ledger that it leaves behind where items are active. -/
def stop : Task Answer := do
  match ← act .beginStop with
  | none => return .none
  | some serials =>
    act (.awaitRetirements serials)
    act .awaitCleanupWorker
    let active ← act .listActive
    act (.awaitStateReady active)
    act (.awaitRuns active)
    act .closeLedger
    return .none

/-! ### Runs -/

/-- The methods that are called and the tasks that are started. -/
inductive Request
  | start
  | submit (payload : Json) (key : String)
  | retire (id : String) (payload : Json) (key : String)
  | stop
  | run (id : String)
  | runRetirement (serial : Nat)
  | late
  | cleanUp

def code (env : LaunchEnv) : Request → Task Answer
  | .start => start env
  | .submit payload key => submit payload key
  | .retire id payload key => retire id payload key
  | .stop => stop
  | .run id => run id
  | .runRetirement serial => runRetirement serial
  | .late => late
  | .cleanUp => cleanUp

/-- What happens apart from the calls: a provider answers, and what waits for the end of a
    preparation or of its release sees it. -/
inductive Change
  | settle (invocation : Nat) (outcome : Option ProviderValue)
  | forgetPreparation (provider : String)
  | seeRelease (invocation : Nat)

namespace Coordinator

/-- A provider call is settled. -/
def settleStep (s : Coordinator) (n : Nat) (outcome : Option ProviderValue) : Option Coordinator :=
  match s.invocations[n]? with
  | none => none
  | some invocation =>
    if invocation.outcome.isSome then none
    else
      some { s with
        invocations := s.invocations.set n { invocation with outcome := some outcome } }

/-- A successful release of a preparation drops its fence. -/
def seeRelease (s : Coordinator) (n : Nat) : Option Coordinator :=
  match s.invocations[n]? with
  | some ⟨.cancelLaunchRetirementPreparation provider record keyHash, some (some (.flag true)),
      true, false⟩ =>
    some ({ s with
      invocations := s.invocations.set n
        ⟨.cancelLaunchRetirementPreparation provider record keyHash, some (some (.flag true)),
          true, true⟩ }.dropFence keyHash record.id)
  | _ => none

def world (change : Change) (s : Coordinator) : Option Coordinator :=
  match change with
  | .settle n outcome => s.settleStep n outcome
  | .forgetPreparation provider =>
    if (s.preparations provider).isSome ∧ s.isSettled (s.preparations provider) then
      some { s with preparations := Function.update s.preparations provider none }
    else none
  | .seeRelease n => s.seeRelease n

/-- A new process: nothing but the file and what was asked of the providers is left. -/
def restart (s : Coordinator) : Coordinator where
  host := s.host
  emitted := s.emitted
  invocations := s.invocations.map fun invocation => { invocation with live := false }

end Coordinator

/-- The program of the coordinator. -/
def program (env : LaunchEnv) :
    RoutineSystem Coordinator Action Reply CoordinatorError Answer Unit Request Circumstance
      Change where
  code := code env
  key := fun _ => none
  perform := Coordinator.perform env
  world := Coordinator.world
  restart := Coordinator.restart

/-- The runs of the coordinator, from an absent ledger file. -/
def coordinatorSystem (env : LaunchEnv) :=
  (program env).system fun s => s = { host := LedgerHost.start }

end AgentHost.LaunchCoordinator
