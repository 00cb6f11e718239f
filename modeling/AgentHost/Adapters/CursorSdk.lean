import AgentHost.Adapters.CursorBridge
import AgentHost.Lib.JsonValue
import Mathlib.Logic.Function.Basic

namespace AgentHost

/-!
# The Cursor adapter

The calls of `CursorSdkAdapter` that read or write the provenance of owned agents, as routines that
interleave at every `await` (`cursor-sdk.js`).

* `callBridge` — the wrapper that decides which error of the client passes on its disposition.
* `prompt`, `interrupt`, `retireLaunch`, … — the calls of the adapter.
* `CursorHost` — what the calls share: the provenance store, the runs that the client follows, and
  what has been written to the Bridge so far.
* `cursorSdk` — the runs: calls on one agent that change it run one after the other, a crash ends
  all calls and keeps the provenance file.

What an action meets with (a failing private state or directory check, the credential source, an
aborted signal, the answers of the Bridge) is up to the event that performs it.  The one promise of
the Bridge is that accepted Sends have different run ids.
-/

/-! ### What the calls are made of -/

/-- An operation of the provenance store; an error of it is thrown on. -/
def storeOp (op : ProvenanceOp) : CursorRoutine ProvenanceReply := do
  match ← awaitStore op with
  | .replied reply => return reply
  | .refused error => .fail { code := error.code? }
  | .failed => .fail {}

def assertBridgeDirectories : CursorRoutine Unit := do
  if ← awaitDirectories then return () else .fail {}

def throwIfAborted : CursorRoutine Unit := do
  if ← awaitAborted then .fail { code := some "cursor_operation_cancelled" }
  else return ()

/-- The operations of the Bridge whose dispositions pass through `#callBridge`. -/
inductive BridgeOperation
  | cancelLocal
  | sendLocal
  | deleteLocal
  | other
  deriving DecidableEq

/-- The error that `#callBridge` throws for one of the client. -/
def bridgeFailure (operation : BridgeOperation) (error : BridgeError) : CursorError where
  code := some "cursor_bridge_failed"
  invoked := true
  sendDisposition :=
    if operation = .sendLocal ∧ undelivered error.sendDisposition then error.sendDisposition else none
  cancelDisposition :=
    if operation = .cancelLocal ∧ undelivered error.cancelDisposition then error.cancelDisposition
    else none
  deleteDisposition := if operation = .deleteLocal then error.deleteDisposition else none

/-- `#callBridge`: the credential comes first, then the Bridge is invoked.  An aborted signal hides
    what the client has thrown, but for a rejected deletion. -/
def callBridge {α : Type} (operation : BridgeOperation) (body : BridgeRoutine α) :
    CursorRoutine α := do
  if !(← awaitCredential) then .fail { code := some "cursor_credential_unavailable" }
  else
    match ← body.attempt with
    | .ok value => return value
    | .error error =>
      if operation = .deleteLocal ∧ error.deleteDisposition = some .rejected then
        .fail (bridgeFailure operation error)
      else if ← awaitAborted then
        .fail { code := some "cursor_operation_cancelled", invoked := true }
      else .fail (bridgeFailure operation error)

/-- An error that is thrown when the Bridge has been invoked, or has accepted a Send. -/
def afterInvoke {α : Type} (accepted : Bool) (routine : CursorRoutine α) : CursorRoutine α :=
  routine.tryCatch fun error => .fail { error with invoked := true, accepted := accepted }

/-! ### The adapter -/

/-- A configured target, with the digest of its directory. -/
structure CursorTarget where
  id : String
  digest : String
  profiles : List String
  deriving DecidableEq

/-- The configuration of an adapter.  `attemptDigest` is the hexadecimal text of the first half of an
    attempt's hash. -/
structure CursorConfig where
  sdkVersion : String
  bridgeNamespace : String
  scope : String
  retirementScope : String
  targets : List CursorTarget
  attemptDigest : String → String
  parse : DateParse
  canSend : Bool
  canCancel : Bool
  canInspect : Bool
  canDelete : Bool

/-- `publicId`. -/
def publicId (scope providerAgentId : String) : String :=
  "cursor-sdk:" ++ scope ++ ":" ++ providerAgentId

/-- A capability of an agent that an action needs. -/
inductive CursorCapability
  | prompt
  | interrupt
  deriving DecidableEq

/-- What an action reads of the agent it is called with. -/
structure CursorAgent where
  id : String
  provider : String
  source : String
  prompt : Bool
  interrupt : Bool
  ownedLaunch : Bool
  sdkVersion : String
  deriving DecidableEq

def CursorAgent.can (agent : CursorAgent) : CursorCapability → Bool
  | .prompt => agent.prompt
  | .interrupt => agent.interrupt

/-- A record of the launch ledger. -/
abbrev LedgerRecord := { record : LaunchRecord // validateLaunchRecord record = true }

/-- What `finalizeLaunchRetirement` is called with. -/
structure FinalRetirement where
  provider : String
  attemptId : String
  cleanupScope : String
  keyHash : Option String
  deriving DecidableEq

namespace CursorConfig

variable (config : CursorConfig)

/-- `providerId`, of a valid attempt. -/
def providerId (attemptId : String) : String := "agent_" ++ config.attemptDigest attemptId

/-- The public identity of the agent of an attempt. -/
def agentOf (attemptId : String) : String := publicId config.scope (config.providerId attemptId)

def target? (id : Option String) : Option CursorTarget :=
  config.targets.find? fun target => some target.id == id

/-- The checks of `#actionContext` on the provenance it has found. -/
def provesOwnership (provenance : ProvenanceRecord) : Bool :=
  (config.target? provenance.target).any fun target =>
    provenance.sdkVersion == some config.sdkVersion &&
      provenance.bridgeNamespace == some config.bridgeNamespace &&
      provenance.storeScope == some config.scope &&
      provenance.attemptId.any safeAttemptId &&
      provenance.providerAgentId == provenance.attemptId.map config.providerId &&
      provenance.agentId == provenance.providerAgentId.map (publicId config.scope) &&
      provenance.targetDigest == some target.digest

/-- `#matchesConfiguration`. -/
def matchesConfiguration (provenance : ProvenanceRecord) (record : LaunchRecord) : Bool :=
  provenance.launchId == some record.id && provenance.sdkVersion == some config.sdkVersion &&
    provenance.bridgeNamespace == some config.bridgeNamespace &&
    provenance.storeScope == some config.scope &&
    (record.providerAgentId.isNone || provenance.providerAgentId == record.providerAgentId) &&
    (record.agentId.isNone || provenance.agentId == record.agentId) &&
    provenance.providerAgentId == some (config.providerId record.attemptId) &&
    provenance.agentId == provenance.providerAgentId.map (publicId config.scope) &&
    (config.target? provenance.target).any fun target =>
      provenance.targetDigest == some target.digest &&
        provenance.target == some record.request.target &&
        provenance.profile == some record.request.profile && record.request.mode == "local" &&
        record.request.provider == "cursor" &&
        record.request.capabilityVersion == "cursor-sdk-local-" ++ config.sdkVersion &&
        record.request.risk.localMutation && record.request.risk.externalBillable

/-- `#verifiedProvenance`. -/
def verifiedProvenance (provenance : ProvenanceRecord) (record : LaunchRecord) : Bool :=
  provenance.state == .owned && provenance.launchId == some record.id &&
    provenance.agentId == record.agentId && provenance.providerAgentId == record.providerAgentId &&
    config.matchesConfiguration provenance record

/-- `hasRun` of `#actionContext`. -/
def hasRun (provenance : ProvenanceRecord) : Bool :=
  provenance.runPending != some true && safeRunId (provenance.runId.getD "") && config.canInspect

/-- The exact run of an agent, inspected and checked with `assertRunIdentity`. -/
def inspectRun (agentId runId : String) : CursorRoutine RunStatus := do
  let run ← callBridge .other (bridgeCall (.inspectRunLocal agentId runId) id)
  match run with
  | some run =>
    if run.agentId = agentId ∧ run.runId = runId then return run.status else .fail {}
  | none => .fail {}

/-- The status of an agent, checked with `assertProviderAgent`. -/
def currentStatus (agentId : String) : CursorRoutine LocalStatus := do
  let current ← callBridge .other (bridgeCall (.getLocal agentId) id)
  match current with
  | some agent => if agent.agentId = agentId then return agent.status else .fail {}
  | none => .fail {}

/-- The last check of `#actionContext`. -/
def allows (capability : CursorCapability) (provenance : ProvenanceRecord) (status : LocalStatus)
    (run : Option RunStatus) : Bool :=
  match capability with
  | .prompt =>
    (status == .idle || status == .error) && provenance.runPending != some true &&
      (!safeRunId (provenance.runId.getD "") || run == some .terminal)
  | .interrupt =>
    status == .working && run == some .working && provenance.runPending != some true &&
      provenance.cancelAttemptedRunId.isNone && config.canCancel

/-- `#actionContext`: the provenance of an agent that may do what is asked. -/
def actionContext (agent : CursorAgent) (capability : CursorCapability) :
    CursorRoutine ProvenanceRecord := do
  if agent.provider ≠ "cursor" ∨ agent.source ≠ "cursor-sdk" ∨ agent.can capability = false ∨
      agent.ownedLaunch = false ∨ agent.sdkVersion ≠ config.sdkVersion then .fail {}
  else
    match ← storeOp .snapshot with
    | .records records =>
      match records.find? fun entry => entry.state == .owned && entry.agentId == some agent.id with
      | none => .fail {}
      | some provenance =>
        if !config.provesOwnership provenance then .fail {}
        else
          assertBridgeDirectories
          let status ← currentStatus (provenance.providerAgentId.getD "")
          let run ← if config.hasRun provenance then
              some <$> inspectRun (provenance.providerAgentId.getD "") (provenance.runId.getD "")
            else pure none
          if !config.allows capability provenance status run then .fail {}
          else
            assertBridgeDirectories
            return provenance
    | _ => .fail {}

def prompt (agent : CursorAgent) (text : String) : CursorRoutine Unit := do
  if text.toList.all isSpace then .fail {}
  else
    let provenance ← config.actionContext agent .prompt
    let attemptId := provenance.attemptId
    let providerAgentId := provenance.providerAgentId.getD ""
    let _ ← storeOp (.beginRun attemptId)
    let send : CursorRoutine Unit := do
      assertBridgeDirectories
      let result ← callBridge .sendLocal (bridgeCall (.sendLocal providerAgentId) id)
      afterInvoke true (do
        if result.agentId ≠ providerAgentId ∨ safeRunId result.runId = false then .fail {}
        else
          assertBridgeDirectories
          let _ ← storeOp (.commitRun attemptId (some result.runId))
          return ())
    send.tryCatch fun error => do
      if !error.invoked || (!error.accepted && undelivered error.sendDisposition) then
        let _ ← (storeOp (.restoreRun attemptId)).attempt (δ := CursorError)
      .fail error

def interrupt (agent : CursorAgent) : CursorRoutine Unit := do
  let provenance ← config.actionContext agent .interrupt
  let attemptId := provenance.attemptId
  let providerAgentId := provenance.providerAgentId.getD ""
  let runId := provenance.runId
  let _ ← storeOp (.beginCancel attemptId runId)
  let cancel : CursorRoutine Unit := do
    assertBridgeDirectories
    let result ← callBridge .cancelLocal (cancelLocal providerAgentId (runId.getD ""))
    afterInvoke false (do
      if result.agentId ≠ providerAgentId ∨ some result.runId ≠ runId then .fail {}
      else return ())
  cancel.tryCatch fun error => do
    if !error.invoked || undelivered error.cancelDisposition then
      let _ ← (storeOp (.restoreCancel attemptId runId)).attempt (δ := CursorError)
    .fail error

/-- `#target`, with the digest of its directory. -/
def launchTarget? (request : LaunchRequest) : Option CursorTarget :=
  if request.provider = "cursor" ∧ request.mode = "local" ∧
      request.capabilityVersion = "cursor-sdk-local-" ++ config.sdkVersion ∧
      request.risk.localMutation = true ∧ request.risk.externalBillable = true then
    (config.target? (some request.target)).filter fun target =>
      target.profiles.contains request.profile
  else none

/-- The intent that a launch reserves. -/
def intent (target : CursorTarget) (request : LaunchRequest) (attemptId launchId createdAt : String) :
    ProvenanceRecord where
  attemptId := some attemptId
  launchId := some launchId
  providerAgentId := some (config.providerId attemptId)
  agentId := some (config.agentOf attemptId)
  target := some target.id
  profile := some request.profile
  sdkVersion := some config.sdkVersion
  bridgeNamespace := some config.bridgeNamespace
  storeScope := some config.scope
  targetDigest := some target.digest
  createdAt := some createdAt

def launch (request : LaunchRequest) (attemptId launchId : String) (now : Timestamp) :
    CursorRoutine Unit := do
  match config.launchTarget? request, timestamp now with
  | some target, .ok createdAt =>
    assertBridgeDirectories
    if safeAttemptId attemptId = false then .fail {}
    else
      match ← storeOp (.reserve (config.intent target request attemptId launchId createdAt)) with
      | .reserved _ true =>
        assertBridgeDirectories
        let created ← callBridge .other
          (bridgeCall (.createLocal (config.providerId attemptId) attemptId) id)
        if created ≠ some (config.providerId attemptId) then .fail {}
        else
          let _ ← storeOp (.markOwned (some attemptId))
          return ()
      | _ => .fail {}
  | _, _ => .fail {}

def reconcileLaunch (record : LaunchRecord) : CursorRoutine Unit := do
  match ← storeOp (.get (some record.attemptId)) with
  | .found (some provenance) =>
    if !config.matchesConfiguration provenance record then return ()
    else
      assertBridgeDirectories
      let current ← callBridge .other
        (bridgeCall (.getLocal (provenance.providerAgentId.getD "")) id)
      match current with
      | none => return ()
      | some agent =>
        if some agent.agentId ≠ provenance.providerAgentId then .fail {}
        else if provenance.state ≠ .owned then
          let _ ← storeOp (.markOwned (some record.attemptId))
          return ()
        else return ()
  | _ => return ()

/-- What `retireLaunch` checks before the deletion is fenced: `none` where nothing keeps the agent
    from being deleted, else the code of what does. -/
def blockingCode (provenance : ProvenanceRecord) : CursorRoutine (Option String) := do
  if provenance.runPending = some true ∨ provenance.cancelAttemptedRunId.isSome then
    return some "cursor_run_state_unsettled"
  else
    assertBridgeDirectories
    let status ← currentStatus (provenance.providerAgentId.getD "")
    if status ≠ .idle ∧ status ≠ .error then return some "cursor_agent_not_terminal"
    else if safeRunId (provenance.runId.getD "") then
      if !config.canInspect then return some "cursor_run_inspection_unavailable"
      else
        let run ← inspectRun (provenance.providerAgentId.getD "") (provenance.runId.getD "")
        return if run = .terminal then none else some "cursor_run_not_terminal"
    else return none

/-- The deletion of an agent whose provenance is fenced. -/
def deleteFenced (record : LaunchRecord) (replaying : Bool) : CursorRoutine Unit := do
  match ← storeOp (.get (some record.attemptId)) with
  | .found (some retiring) =>
    assertBridgeDirectories
    let onInvoke : BridgeRoutine Unit :=
      if replaying then return ()
      else (storeOp (.markDeleteAttempted (some record.attemptId) record.retirementKeyHash)).bind
        (fun _ => .done ()) |>.tryCatch fun error => .fail { code := error.code.getD "" }
    let delete := callBridge .deleteLocal
      (deleteLocal (retiring.providerAgentId.getD "") replaying onInvoke)
    match ← delete.attempt with
    | .ok () =>
      let _ ← storeOp (.markRetired (some record.attemptId) record.retirementKeyHash)
      return ()
    | .error error =>
      if !replaying && error.deleteDisposition == some .rejected then
        let _ ← storeOp (.cancelRetirement (some record.attemptId) record.retirementKeyHash)
        return ()
      else .fail error
  | _ => .fail {}

/-- What `retireLaunch` does with an owned or retiring provenance that the key does not conflict
    with. -/
def retireOwned (record : LaunchRecord) (provenance : ProvenanceRecord) : CursorRoutine Unit := do
  if provenance.state = .retiring ∧ provenance.deleteAttempted = some true then
    deleteFenced record true
  else
    match ← config.blockingCode provenance with
    | some _ =>
      if provenance.retirementKeyHash = record.retirementKeyHash then
        let _ ← storeOp (.cancelRetirement (some record.attemptId) record.retirementKeyHash)
      return ()
    | none =>
      if provenance.state = .owned then
        let _ ← storeOp (.beginRetirement (some record.attemptId) record.retirementKeyHash)
      deleteFenced record false

def retireLaunch (record : LaunchRecord) : CursorRoutine Unit := do
  if record.state ≠ .retiring ∨ safeHash (record.retirementKeyHash.getD "") = false ∨
      config.canDelete = false then return ()
  else
    match ← storeOp (.get (some record.attemptId)) with
    | .found (some provenance) =>
      if config.matchesConfiguration provenance record = false ∨ provenance.state = .intent ∨
          provenance.state = .retired ∨ provenance.retirementKeyHash.isSome ∧
            provenance.retirementKeyHash ≠ record.retirementKeyHash then return ()
      else if provenance.state = .owned ∧ provenance.retirementReserved ≠ some true then
        match ← (storeOp (.reserveRetirement (some record.attemptId)
            record.retirementKeyHash)).attempt with
        | .ok (.record reserved) => config.retireOwned record reserved
        | .ok _ => .fail {}
        | .error error =>
          if error.code = some "cursor_provenance_capacity" then return () else .fail error
      else config.retireOwned record provenance
    | _ => return ()

def prepareLaunchRetirement (record : LaunchRecord) (keyHash : Option String) :
    CursorRoutine Unit := do
  throwIfAborted
  if record.state ≠ .owned ∨ safeHash (keyHash.getD "") = false ∨ config.canDelete = false then
    return ()
  else
    match ← storeOp (.get (some record.attemptId)) with
    | .found (some provenance) =>
      throwIfAborted
      if config.matchesConfiguration provenance record = false ∨ provenance.state ≠ .owned ∨
          provenance.retirementKeyHash.isSome ∧ provenance.retirementKeyHash ≠ keyHash then
        return ()
      else
        match ← (storeOp (.reserveRetirement (some record.attemptId) keyHash)).attempt with
        | .ok _ => throwIfAborted
        | .error error =>
          if error.code = some "cursor_provenance_capacity" then return () else .fail error
    | _ => throwIfAborted

def cancelLaunchRetirementPreparation (record : LaunchRecord) (keyHash : Option String) :
    CursorRoutine Unit := do
  throwIfAborted
  if record.state ≠ .owned ∨ safeHash (keyHash.getD "") = false then return ()
  else
    let _ ← storeOp (.releaseRetirementReservation (some record.attemptId) keyHash)
    throwIfAborted

/-- The reservations that `recoverLaunchRetirementPreparations` releases, in order. -/
def releaseAll : List ProvenanceRecord → CursorRoutine Unit
  | [] => throwIfAborted
  | provenance :: rest => do
    throwIfAborted
    let _ ← storeOp
      (.releaseRetirementReservation provenance.attemptId provenance.retirementKeyHash)
    releaseAll rest

def recoverLaunchRetirementPreparations (records : List LaunchRecord) : CursorRoutine Unit := do
  match ← storeOp .snapshot with
  | .records provenances =>
    throwIfAborted
    let reserved := records.filterMap fun record =>
      (provenances.find? fun entry => entry.attemptId == some record.attemptId).bind fun provenance =>
        if provenance.retirementReserved = some true then some (provenance, record) else none
    if reserved.any fun pair => !config.verifiedProvenance pair.1 pair.2 then .fail {}
    else releaseAll (reserved.map Prod.fst)
  | _ => .fail {}

def finalizeLaunchRetirement (retirement : FinalRetirement) : CursorRoutine Unit := do
  throwIfAborted
  if retirement.provider ≠ "cursor" ∨ safeAttemptId retirement.attemptId = false ∨
      retirement.cleanupScope ≠ config.retirementScope then return ()
  else
    let _ ← storeOp (.removeRetired (some retirement.attemptId) retirement.keyHash)
    throwIfAborted

end CursorConfig

/-! ### Runs -/

/-- What became of a CancelRun request that was written. -/
inductive CancelOutcome
  | accepted
  | rejected
  | ambiguous
  deriving DecidableEq

/-- A CancelRun request that a call has written; there is no outcome before it is known. -/
structure CancelRequest where
  caller : Nat
  agentId : String
  runId : String
  outcome : Option CancelOutcome
  deriving DecidableEq

/-- A cancel fence that a call has set, with the run that was recorded then. -/
structure CancelFence where
  caller : Nat
  attemptId : String
  runId : String
  current : Option String
  deriving DecidableEq

/-- The record of an attempt in the file. -/
def ProvenanceStore.record? (store : ProvenanceStore) (attemptId : String) : Option ProvenanceRecord :=
  store.file.bind fun file => file.records.find? fun record => record.attemptId = some attemptId

/-- The run that is recorded for an attempt. -/
def ProvenanceStore.run? (store : ProvenanceStore) (attemptId : String) : Option String :=
  (store.record? attemptId).bind ProvenanceRecord.runId

/-- The run whose cancellation is fenced. -/
def ProvenanceStore.fence? (store : ProvenanceStore) (attemptId : String) : Option String :=
  (store.record? attemptId).bind ProvenanceRecord.cancelAttemptedRunId

/-- What the calls share: the store and the runs that the client follows; and what has happened so
    far: the Sends that the Bridge has accepted, the CancelRun requests that were written, and the
    fences that were set. -/
structure CursorHost where
  store : ProvenanceStore
  activeRuns : String → Option ActiveRun := fun _ => none
  accepted : List RunIdentity := []
  cancels : List CancelRequest := []
  fences : List CancelFence := []

/-- What an action meets with. -/
inductive CursorChoice
  | store (now : Timestamp) (fault : StoreFault)
  | flag (value : Bool)
  | localAgent (outcome : Except BridgeError (Option LocalAgent))
  | localRun (outcome : Except BridgeError (Option LocalRun))
  | created (outcome : Except BridgeError (Option String))
  | sent (outcome : Except BridgeError RunIdentity)
  | unsent (error : BridgeError)
  | written
  | answered (outcome : Except BridgeError Unit)
  | proceeds

/-- The fence that an operation of a call has set, if it has. -/
def fenceSet (caller : Nat) (op : ProvenanceOp) (before after : ProvenanceStore) : List CancelFence :=
  match op with
  | .beginCancel (some attemptId) (some runId) =>
    if before.fence? attemptId = none ∧ after.fence? attemptId = some runId then
      [⟨caller, attemptId, runId, before.run? attemptId⟩]
    else []
  | _ => []

/-- What is known of a written CancelRun request once it has been answered or has failed: only an
    answer with one of the definitive statuses rejects it. -/
def cancelOutcome : Except BridgeError Unit → CancelOutcome
  | .ok () => .accepted
  | .error error =>
    if error.status.any fun status => definitiveStatuses.contains status then .rejected
    else .ambiguous

/-- A request that has been written was neither too large nor without a connection. -/
def wasWritten : Except BridgeError Unit → Bool
  | .ok () => true
  | .error error => error.code != "cursor_bridge_request_too_large" && !error.preConnect

namespace CursorHost

/-- An operation of the store, for the call with a number. -/
def storeStep (parse : DateParse) (caller : Nat) (host : CursorHost) (op : ProvenanceOp)
    (now : Timestamp) (fault : StoreFault) : CursorHost × ProvenanceResult :=
  let (store, result) := host.store.perform parse op now fault
  ({ host with store := store, fences := host.fences ++ fenceSet caller op host.store store }, result)

/-- A change of the run that the client follows for an agent, where it follows one. -/
def updateRun (host : CursorHost) (agentId : String) (change : ActiveRun → Option ActiveRun) :
    CursorHost :=
  { host with
    activeRuns := Function.update host.activeRuns agentId ((host.activeRuns agentId).bind change) }

/-- The answer to a CancelRun request. -/
def answer (host : CursorHost) (request : Nat) (outcome : CancelOutcome) : CursorHost :=
  { host with cancels := host.cancels.modify request fun cancel =>
    { cancel with outcome := some outcome } }

/-- What an action of the call with a number does. -/
def perform (parse : DateParse) (caller : Nat) (action : CursorAction) (choice : CursorChoice)
    (host : CursorHost) : Option (CursorHost × CursorReply action) :=
  match action, choice with
  | .store op, .store now fault => some (host.storeStep parse caller op now fault)
  | .assertBridgeDirectories, .flag value => some (host, value)
  | .credential, .flag value => some (host, value)
  | .aborted, .flag value => some (host, value)
  | .bridgeReady, .flag value => some (host, value)
  | .getLocal _, .localAgent outcome => some (host, outcome)
  | .inspectRunLocal _ _, .localRun outcome => some (host, outcome)
  | .createLocal _ _, .created outcome => some (host, outcome)
  | .sendLocal _, .sent (.error error) => some (host, .error error)
  | .sendLocal agentId, .sent (.ok run) =>
    -- accepted Sends have different run ids, and the client has checked the agent
    if run.agentId = agentId ∧ run.runId ∉ host.accepted.map RunIdentity.runId then
      some ({ host with
        accepted := host.accepted ++ [run]
        activeRuns := Function.update host.activeRuns agentId (some ⟨run.runId, false⟩) }, .ok run)
    else none
  | .activeRun agentId, .proceeds => some (host, host.activeRuns agentId)
  | .setCancelRequested agentId runId value, .proceeds =>
    some (host.updateRun agentId fun run =>
      some (if run.runId = runId then { run with cancelRequested := value } else run), ())
  | .requestCancel _ _, .unsent error => some (host, .error error)
  | .requestCancel agentId runId, .written =>
    some ({ host with cancels := host.cancels ++ [⟨caller, agentId, runId, none⟩] },
      .ok host.cancels.length)
  | .cancelResponse request, .answered outcome =>
    if wasWritten outcome then some (host.answer request (cancelOutcome outcome), outcome) else none
  | .prepareDelete, .answered outcome => some (host, outcome)
  | .requestDelete agentId, .answered outcome =>
    some (host.updateRun agentId fun run => if outcome.isOk then none else some run, outcome)
  | _, _ => none

end CursorHost

/-- The calls of the adapter that use the provenance. -/
inductive CursorRequest
  | launch (request : LaunchRequest) (attemptId launchId : String) (now : Timestamp)
  | reconcile (record : LedgerRecord)
  | prompt (agent : CursorAgent) (text : String)
  | interrupt (agent : CursorAgent)
  | prepareRetirement (record : LedgerRecord) (keyHash : Option String)
  | cancelRetirementPreparation (record : LedgerRecord) (keyHash : Option String)
  | recoverRetirementPreparations (records : List LedgerRecord)
  | retire (record : LedgerRecord)
  | finalizeRetirement (retirement : FinalRetirement)

def CursorRequest.code (config : CursorConfig) : CursorRequest → CursorRoutine Unit
  | .launch request attemptId launchId now => config.launch request attemptId launchId now
  | .reconcile record => config.reconcileLaunch record.val
  | .prompt agent text => config.prompt agent text
  | .interrupt agent => config.interrupt agent
  | .prepareRetirement record keyHash => config.prepareLaunchRetirement record.val keyHash
  | .cancelRetirementPreparation record keyHash =>
    CursorConfig.cancelLaunchRetirementPreparation record.val keyHash
  | .recoverRetirementPreparations records =>
    config.recoverLaunchRetirementPreparations (records.map Subtype.val)
  | .retire record => config.retireLaunch record.val
  | .finalizeRetirement retirement => config.finalizeLaunchRetirement retirement

/-- The key that `#exclusiveAgent` runs a call under. -/
def CursorRequest.key : CursorRequest → Option String
  | .prompt agent _ | .interrupt agent => some agent.id
  | .prepareRetirement record _ | .cancelRetirementPreparation record _ | .retire record =>
    record.val.agentId
  | .launch _ _ _ _ | .reconcile _ | .recoverRetirementPreparations _ | .finalizeRetirement _ => none

/-- The client stops following a run. -/
inductive CursorChange
  | forgetRun (agentId : String)

/-- The program: a restart keeps the file. -/
def cursorProgram (config : CursorConfig) :
    RoutineSystem CursorHost CursorAction CursorReply CursorError Unit String CursorRequest
      CursorChoice CursorChange where
  code := CursorRequest.code config
  key := CursorRequest.key
  perform := CursorHost.perform config.parse
  world := fun
    | .forgetRun agentId, host => some (host.updateRun agentId fun _ => none)
  restart := fun host => { host with activeRuns := fun _ => none }

/-- The runs of the adapter, from no provenance file. -/
def cursorSdk (config : CursorConfig) :=
  (cursorProgram config).system fun host =>
    host.store.file = none ∧ host.accepted = [] ∧ host.cancels = [] ∧ host.fences = []

end AgentHost
