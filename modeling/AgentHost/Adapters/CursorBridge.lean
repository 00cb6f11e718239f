import AgentHost.Adapters.CursorProvenance
import AgentHost.Lib.Routines

namespace AgentHost

/-!
# The client of the Cursor Bridge

What the calls of the Cursor adapter await, and the calls of the Bridge client that decide how much
is known of a request that fails (`cursor-sdk-transport.js`).

* `BridgeError.isDefinitive` — whether a failed request has certainly had no effect.
* `CursorAction`, `CursorReply` — what a call awaits and what it yields.
* `cancelLocal` — the client's `cancelLocal`, with the disposition of its errors.
* `deleteLocal` — the client's `deleteLocal`.
-/

/-! ### Errors -/

/-- What is known of the delivery of a request that failed. -/
inductive Disposition
  | notSent
  | rejected
  | ambiguous
  deriving DecidableEq

/-- An error of the client. -/
structure BridgeError where
  code : String
  status : Option Nat := none
  preConnect : Bool := false
  cancelDisposition : Option Disposition := none
  sendDisposition : Option Disposition := none
  deleteDisposition : Option Disposition := none
  deriving DecidableEq

/-- `DEFINITIVE_MUTATION_REJECTION_STATUSES`. -/
def definitiveStatuses : List Nat := [400, 401, 403, 404, 409, 413, 415, 422, 429]

/-- `isDefinitiveMutationRejection`. -/
def BridgeError.isDefinitive (error : BridgeError) : Bool :=
  error.status.any (fun status => definitiveStatuses.contains status) ||
    error.code == "cursor_bridge_request_too_large" || error.preConnect

/-- An error of the adapter; `invoked` and `accepted` are the variables `bridgeInvoked` and `accepted`
    of the call that it ends. -/
structure CursorError where
  code : Option String := none
  invoked : Bool := false
  accepted : Bool := false
  cancelDisposition : Option Disposition := none
  sendDisposition : Option Disposition := none
  deleteDisposition : Option Disposition := none
  deriving DecidableEq

/-- `["not_sent", "rejected"].includes(disposition)`. -/
def undelivered (disposition : Option Disposition) : Bool :=
  disposition == some .notSent || disposition == some .rejected

/-! ### Actions -/

/-- `normalizeStatus` of an agent. -/
inductive LocalStatus
  | working
  | idle
  | error
  | unknown
  deriving DecidableEq

inductive RunStatus
  | working
  | creating
  | terminal
  deriving DecidableEq

/-- What `getLocal` returns. -/
structure LocalAgent where
  agentId : String
  status : LocalStatus
  deriving DecidableEq

/-- What `inspectRunLocal` returns. -/
structure LocalRun where
  agentId : String
  runId : String
  status : RunStatus
  deriving DecidableEq

/-- The identities of a run that `sendLocal` and `cancelLocal` return. -/
structure RunIdentity where
  agentId : String
  runId : String
  deriving DecidableEq

/-- An entry of `activeRuns`. -/
structure ActiveRun where
  runId : String
  cancelRequested : Bool
  deriving DecidableEq

/-- What a call awaits. -/
inductive CursorAction
  | store (op : ProvenanceOp)
  | assertBridgeDirectories
  | credential
  | aborted
  | bridgeReady
  | getLocal (agentId : String)
  | inspectRunLocal (agentId runId : String)
  | createLocal (agentId attemptId : String)
  | sendLocal (agentId : String)
  | activeRun (agentId : String)
  | setCancelRequested (agentId runId : String) (value : Bool)
  | requestCancel (agentId runId : String)
  | cancelResponse (request : Nat)
  | prepareDelete
  | requestDelete (agentId : String)
  deriving DecidableEq

/-- The type of what an action yields: where it may fail, whether it has. -/
def CursorReply : CursorAction → Type
  | .store _ => ProvenanceResult
  | .assertBridgeDirectories => Bool
  | .credential => Bool
  | .aborted => Bool
  | .bridgeReady => Bool
  | .getLocal _ => Except BridgeError (Option LocalAgent)
  | .inspectRunLocal _ _ => Except BridgeError (Option LocalRun)
  | .createLocal _ _ => Except BridgeError (Option String)
  | .sendLocal _ => Except BridgeError RunIdentity
  | .activeRun _ => Option ActiveRun
  | .setCancelRequested _ _ _ => Unit
  | .requestCancel _ _ => Except BridgeError Nat
  | .cancelResponse _ => Except BridgeError Unit
  | .prepareDelete => Except BridgeError Unit
  | .requestDelete _ => Except BridgeError Unit

/-! ### Awaiting an action -/

section

variable {ε : Type}

/-- A routine of this program. -/
abbrev CursorAwait (ε α : Type) := Routine CursorAction CursorReply ε α

def awaitStore (op : ProvenanceOp) : CursorAwait ε ProvenanceResult := .act (.store op) .done
def awaitDirectories : CursorAwait ε Bool := .act .assertBridgeDirectories .done
def awaitCredential : CursorAwait ε Bool := .act .credential .done
def awaitAborted : CursorAwait ε Bool := .act .aborted .done
def awaitBridgeReady : CursorAwait ε Bool := .act .bridgeReady .done
def awaitInspection (agentId runId : String) : CursorAwait ε (Except BridgeError (Option LocalRun)) :=
  .act (.inspectRunLocal agentId runId) .done
def awaitActiveRun (agentId : String) : CursorAwait ε (Option ActiveRun) :=
  .act (.activeRun agentId) .done
def awaitSetCancelRequested (agentId runId : String) (value : Bool) : CursorAwait ε Unit :=
  .act (.setCancelRequested agentId runId value) .done
def awaitRequestCancel (agentId runId : String) : CursorAwait ε (Except BridgeError Nat) :=
  .act (.requestCancel agentId runId) .done
def awaitCancelResponse (request : Nat) : CursorAwait ε (Except BridgeError Unit) :=
  .act (.cancelResponse request) .done
def awaitPrepareDelete : CursorAwait ε (Except BridgeError Unit) := .act .prepareDelete .done
def awaitRequestDelete (agentId : String) : CursorAwait ε (Except BridgeError Unit) :=
  .act (.requestDelete agentId) .done

end

/-- Code of the client and of the adapter. -/
abbrev BridgeRoutine (α : Type) := CursorAwait BridgeError α
abbrev CursorRoutine (α : Type) := CursorAwait CursorError α

/-! ### The Bridge client -/

/-- `call(METHODS.cancel, { runId, agentId }, signal)`. -/
def callCancel (agentId runId : String) : BridgeRoutine Unit := do
  match ← awaitRequestCancel agentId runId with
  | .error error => .fail error
  | .ok request =>
    match ← awaitCancelResponse request with
    | .error error => .fail error
    | .ok () => return ()

/-- The run must be working; one that the client follows is. -/
def checkWorking (active : Option ActiveRun) (agentId runId : String) : BridgeRoutine Unit :=
  match active with
  | some _ => return ()
  | none => do
    match ← awaitInspection agentId runId with
    | .error error => .fail error
    | .ok run =>
      if run.map LocalRun.status = some .working then return ()
      else .fail { code := "cursor_bridge_run_not_interruptible" }

def cancelLocal (agentId runId : String) : BridgeRoutine RunIdentity := do
  if !(← awaitBridgeReady) then .fail { code := "cursor_bridge_not_ready" }
  else
    let active ← awaitActiveRun agentId
    if !safeRunId runId then .fail { code := "cursor_bridge_invalid_run" }
    else if active.any fun run => run.runId != runId || run.cancelRequested then
      .fail { code := "cursor_bridge_run_not_interruptible" }
    else
      match ← (checkWorking active agentId runId).attempt with
      | .error error => .fail { error with cancelDisposition := some .notSent }
      | .ok () =>
        if active.isSome then awaitSetCancelRequested agentId runId true
        -- from here on `cancelAttempted` is set
        match ← (callCancel agentId runId).attempt with
        | .ok () => return ⟨agentId, runId⟩
        | .error error =>
          let disposition := if error.isDefinitive then .rejected else .ambiguous
          if active.isSome && disposition == .rejected then
            awaitSetCancelRequested agentId runId false
          .fail { error with cancelDisposition := some disposition }

/-- The client's `deleteLocal`; `onInvoke` runs before the request is written. -/
def deleteLocal (agentId : String) (allowNotFound : Bool) (onInvoke : BridgeRoutine Unit) :
    BridgeRoutine Unit := do
  if !(← awaitBridgeReady) then .fail { code := "cursor_bridge_not_ready" }
  else
    let call : BridgeRoutine Unit := do
      match ← awaitPrepareDelete with
      | .error error => .fail error
      | .ok () =>
        onInvoke
        match ← awaitRequestDelete agentId with
        | .error error => .fail error
        | .ok () => return ()
    match ← call.attempt with
    | .ok () => return ()
    | .error error =>
      if allowNotFound && error.code == "cursor_bridge_not_found" then return ()
      else .fail { error with
        deleteDisposition := some (if error.isDefinitive then .rejected else .ambiguous) }

/-- A call of the client that has one outcome. -/
def bridgeCall {α : Type} (action : CursorAction)
    (outcome : CursorReply action → Except BridgeError α) : BridgeRoutine α := do
  if !(← awaitBridgeReady) then .fail { code := "cursor_bridge_not_ready" }
  else
    match outcome (← Routine.perform action) with
    | .error error => .fail error
    | .ok value => return value

end AgentHost
