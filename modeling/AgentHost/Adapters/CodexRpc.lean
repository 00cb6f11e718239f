import AgentHost.Lib.InsertionMap
import AgentHost.Lib.TransitionSystem

namespace AgentHost

/-!
# The Codex RPC client

The state of `codex-rpc.js` and what happens to it: calls of its methods, events of the
processes and sockets it has opened, timers, aborts, and the continuations of its
asynchronous functions, each of which runs up to its next `await`.

* `CodexRpc.issue` — the synchronous end of `request`: the pending entry and the write.
* `CodexRpc.disconnect`, `close` — what rejects the pending requests of a connection.
* `CodexRpc.handleLine` — the dispatch of a message.
* `CodexRpc.step` — the events, each with what the client passes to its handlers.

The type `ι` is that of the ids of messages, `textOf` the conversion `String`; `π` and `ρ` are the
parameters and the results.
-/

variable {ι π ρ : Type}

/-! ### State -/

inductive RpcTransport
  | stdio
  | control
  deriving DecidableEq

/-- How the promise of a request is settled. -/
inductive RequestOutcome (ρ : Type)
  | resolved (result : ρ)
  | serverError (message : String)
  | timedOut
  | disconnected
  | aborted
  | notActive
  | notWritten
  | startFailed
  deriving DecidableEq

/-- Where a request is: it waits for an attempt to start, is pending, or its promise is settled. -/
inductive RequestPhase (ρ : Type)
  | waiting (attempt : Nat)
  | pending
  | settled (outcome : RequestOutcome ρ)
  deriving DecidableEq

/-- A call of `request`. -/
structure RpcRequest (π ρ : Type) where
  method : String
  params : π
  expectedGeneration : Option Nat
  phase : RequestPhase ρ
  aborted : Bool := false

/-- An entry of `#pending`: its id, the generation and the request it stands for. -/
structure PendingRequest where
  id : String
  generation : Nat
  request : Nat
  deriving DecidableEq

/-- Where `#startInternal` is: the process is being spawned, the socket's handshake runs or is
    done, the `initialize` request is out, or `close` runs after a failure. -/
inductive StartPhase
  | spawning
  | handshake
  | opened
  | initializing (request : Nat)
  | closing
  deriving DecidableEq

/-- A JSON object that arrives.  A falsy `method` or `error` counts as none. -/
structure RpcMessage (ι π ρ : Type) where
  id : Option ι
  method : Option String
  params : π
  error : Option String
  result : ρ

/-- What the handlers of the client are called with. -/
inductive RpcOutput (ι π : Type)
  | connected (generation : Nat)
  | disconnected (generation : Nat)
  | serverRequest (generation : Nat) (id : ι) (method : String) (params : π)
  | notification (generation : Nat) (method : String) (params : π)

/-- The client.  `writer` is the generation whose transport `#writer` writes to, `wireOpen` says that
    the socket of the last start is not closed; `attempts` are the results of the finished starts,
    `ended` the generations that were disconnected, `written` the requests that were written, with
    their ids and the generations of the transports, and `settlements` the settlements of the
    promises. -/
structure CodexRpc (π ρ : Type) where
  transport : RpcTransport
  generation : Nat := 0
  started : Bool := false
  writer : Option Nat := none
  wireOpen : Bool := false
  starting : Option StartPhase := none
  attempts : List Bool := []
  nextId : Nat := 1
  pending : InsertionMap PendingRequest.id := .empty
  requests : List (RpcRequest π ρ) := []
  ended : List Nat := []
  written : List PendingRequest := []
  settlements : List (Nat × RequestOutcome ρ) := []

/-- The id of the `n`-th message that is a request. -/
def requestId (n : Nat) : String := "ah-" ++ toString n

namespace CodexRpc

variable (rpc : CodexRpc π ρ)

/-- The phase of a request. -/
def phase? (r : Nat) : Option (RequestPhase ρ) := rpc.requests[r]?.map RpcRequest.phase

/-- Settle the promises of some requests, in order. -/
def settle (rs : List Nat) (outcome : RequestOutcome ρ) : CodexRpc π ρ :=
  { rpc with
    requests := rpc.requests.mapIdx fun r request =>
      if r ∈ rs then { request with phase := .settled outcome } else request
    settlements := rpc.settlements ++ rs.map fun r => (r, outcome) }

/-- `#write` does not throw: there is a writer, and the socket it writes to is open. -/
def Writable : Prop :=
  rpc.writer.isSome = true ∧ (rpc.transport = .control → rpc.wireOpen = true)

instance : Decidable rpc.Writable := by unfold Writable; infer_instance

/-- The generation a request expects is not the one that is active. -/
def NotActive (expectedGeneration : Option Nat) : Prop :=
  expectedGeneration.isSome = true ∧
    (rpc.started = false ∨ expectedGeneration ≠ some rpc.generation)

instance (expectedGeneration : Option Nat) : Decidable (rpc.NotActive expectedGeneration) := by
  unfold NotActive; infer_instance

/-- The end of `request`, from the check of its signal on.  A pending entry is set and, where the
    write throws, removed again; `fails` is a write that throws for another reason. -/
def issue (r : Nat) (fails : Bool) : CodexRpc π ρ :=
  match rpc.requests[r]? with
  | none => rpc
  | some request =>
    if request.aborted then rpc.settle [r] .aborted
    else
      let id := requestId rpc.nextId
      let next := { rpc with nextId := rpc.nextId + 1 }
      if rpc.NotActive request.expectedGeneration then next.settle [r] .notActive
      else if ¬ rpc.Writable ∨ fails = true then next.settle [r] .notWritten
      else
        { next with
          pending := rpc.pending.set ⟨id, rpc.generation, r⟩
          requests := rpc.requests.modify r fun request => { request with phase := .pending }
          written := rpc.written ++ rpc.writer.toList.map fun generation => ⟨id, generation, r⟩ }

/-- A new request, which waits for the next start where the client is not started. -/
def request (method : String) (params : π) (expectedGeneration : Option Nat)
    (aborted fails : Bool) : CodexRpc π ρ :=
  let r := rpc.requests.length
  let next : CodexRpc π ρ := { rpc with
    requests := rpc.requests ++
      [⟨method, params, expectedGeneration, .waiting rpc.attempts.length, aborted⟩] }
  if rpc.NotActive expectedGeneration then next.settle [r] .notActive
  else if rpc.started then next.issue r fails
  else { next with starting := rpc.starting.or (some .spawning) }

/-- `start`: an attempt that runs already is joined. -/
def start : CodexRpc π ρ :=
  if rpc.started then rpc else { rpc with starting := rpc.starting.or (some .spawning) }

/-- The `initialize` request of a start. -/
def requestInitialize (params : π) (fails : Bool) : CodexRpc π ρ :=
  let r := rpc.requests.length
  let next : CodexRpc π ρ := { rpc with
    requests := rpc.requests ++
      [⟨"initialize", params, none, .waiting rpc.attempts.length, false⟩] }
  { next.issue r fails with starting := some (.initializing r) }

/-- Reject what is pending on a generation. -/
def rejectPending (generation : Nat) : CodexRpc π ρ :=
  let rejected := rpc.pending.values.filter fun entry => entry.generation = generation
  { rpc.settle (rejected.map PendingRequest.request) .disconnected with
    pending := rpc.pending.filter fun entry => entry.generation ≠ generation }

/-- `#disconnect`, with the event it emits. -/
def disconnect (generation : Nat) : CodexRpc π ρ × List (RpcOutput ι π) :=
  if generation ≠ rpc.generation then (rpc, [])
  else
    ({ rpc.rejectPending generation with
      started := false
      writer := none
      wireOpen := false
      ended := generation :: rpc.ended },
      if rpc.started then [.disconnected generation] else [])

/-- The synchronous part of `close`. -/
def close : CodexRpc π ρ × List (RpcOutput ι π) := rpc.disconnect rpc.generation

/-- The `catch` of `#startInternal`, up to the end of the process. -/
def failStart : CodexRpc π ρ × List (RpcOutput ι π) :=
  let closed := rpc.close (ι := ι)
  ({ closed.1 with starting := some .closing }, closed.2)

/-- `#handleLine` of a message that arrives on the transport of a generation. -/
def handleLine (textOf : ι → String) (generation : Nat) (message : RpcMessage ι π ρ) :
    CodexRpc π ρ × List (RpcOutput ι π) :=
  if generation ≠ rpc.generation then (rpc, [])
  else
    match message.id, message.method with
    | some id, none =>
      match rpc.pending.get? (textOf id) with
      | none => (rpc, [])
      | some entry =>
        if entry.generation ≠ generation then (rpc, [])
        else
          let next := { rpc with pending := rpc.pending.delete (textOf id) }
          match message.error with
          | some error => (next.settle [entry.request] (.serverError error), [])
          | none => (next.settle [entry.request] (.resolved message.result), [])
    | some id, some method => (rpc, [.serverRequest generation id method message.params])
    | none, some method => (rpc, [.notification generation method message.params])
    | none, none => (rpc, [])

/-- Settle a request that is pending, and forget its entry. -/
def dropPending (r : Nat) (outcome : RequestOutcome ρ) : CodexRpc π ρ :=
  { rpc.settle [r] outcome with pending := rpc.pending.filter fun entry => entry.request ≠ r }

end CodexRpc

/-! ### Events -/

/-- What happens to a client.  `lost` is the exit of a process, or the failure or closure of a
    socket; `startContinues` and `startEnds` are the continuations of a start after the handshake
    and after the reply to `initialize`. -/
inductive RpcEvent (ι π ρ : Type)
  | start
  | request (method : String) (params : π) (expectedGeneration : Option Nat) (aborted fails : Bool)
  | resume (r : Nat) (fails : Bool)
  | abort (r : Nat)
  | timeout (r : Nat)
  | spawned (params : π) (fails : Bool)
  | spawnFailed
  | handshakeDone
  | startContinues (params : π) (fails : Bool)
  | startEnds
  | closed
  | line (generation : Nat) (message : RpcMessage ι π ρ)
  | lost (generation : Nat)
  | close

namespace CodexRpc

/-- One event, and what the handlers are called with. -/
def step (textOf : ι → String) (rpc : CodexRpc π ρ) :
    RpcEvent ι π ρ → Option (CodexRpc π ρ × List (RpcOutput ι π))
  | .start => some (rpc.start, [])
  | .request method params expectedGeneration aborted fails =>
    some (rpc.request method params expectedGeneration aborted fails, [])
  | .resume r fails =>
    match rpc.phase? r with
    | some (.waiting attempt) =>
      match rpc.attempts[attempt]? with
      | none => none
      | some true => some (rpc.issue r fails, [])
      | some false => some (rpc.settle [r] .startFailed, [])
    | _ => none
  | .abort r =>
    match rpc.phase? r with
    | some (.waiting _) =>
      some ({ rpc with
        requests := rpc.requests.modify r fun request => { request with aborted := true } }, [])
    | some .pending => some (rpc.dropPending r .aborted, [])
    | _ => none
  | .timeout r =>
    match rpc.phase? r with
    | some .pending => some (rpc.dropPending r .timedOut, [])
    | _ => none
  | .spawned params fails =>
    if rpc.starting ≠ some .spawning then none
    else
      let next := { rpc with generation := rpc.generation + 1 }
      match rpc.transport with
      | .stdio =>
        some ({ next with
          writer := some (rpc.generation + 1), started := true }.requestInitialize params fails, [])
      | .control => some ({ next with starting := some .handshake, wireOpen := true }, [])
  | .spawnFailed => if rpc.starting ≠ some .spawning then none else some rpc.failStart
  | .handshakeDone =>
    if rpc.starting = some .handshake ∧ rpc.wireOpen = true then
      some ({ rpc with starting := some .opened }, [])
    else none
  | .startContinues params fails =>
    match rpc.starting with
    | some .handshake => if rpc.wireOpen then none else some rpc.failStart
    | some .opened =>
      some ({ rpc with
        writer := some rpc.generation, started := true }.requestInitialize params fails, [])
    | _ => none
  | .startEnds =>
    match rpc.starting with
    | some (.initializing r) =>
      match rpc.phase? r with
      | some (.settled (.resolved _)) =>
        if rpc.Writable then
          some ({ rpc with starting := none, attempts := rpc.attempts ++ [true] },
            [.connected rpc.generation])
        else some rpc.failStart
      | some (.settled _) => some rpc.failStart
      | _ => none
    | _ => none
  | .closed =>
    if rpc.starting ≠ some .closing then none
    else some ({ rpc with starting := none, attempts := rpc.attempts ++ [false] }, [])
  | .line generation message => some (rpc.handleLine textOf generation message)
  | .lost generation => some (rpc.disconnect generation)
  | .close => some rpc.close

end CodexRpc

/-- The runs of a client. -/
def codexRpc (π ρ : Type) (textOf : ι → String) (transport : RpcTransport) :
    TransitionSystem (CodexRpc π ρ) (RpcEvent ι π ρ) where
  init := fun rpc => rpc = { transport := transport }
  step := fun rpc e => (rpc.step textOf e).map Prod.fst

end AgentHost
