import AgentHost.Core.LaunchContracts
import AgentHost.Lib.InsertionMap
import AgentHost.Lib.TransitionSystem

namespace AgentHost

/-!
# The action executor

The queues, the idempotency cache and the running tasks of the server's action executor.
One event is one stretch of the program between two suspensions: a call to `execute`, the
start of a task's body, the settlement of the action it called, its deadline, the completion
chain behind it, and so on, in any order.

* `ActionExecutor.execute`, `shutdown`, `pump` — the source functions; an item is its admission
  number, a position in `items`.
* `ActionExecutor.step` — one event.  `ActionExecutor.system` — the runs.
* `starts`, `invocations`, `settlements`, `expiries` — logs no function reads: the items started,
  the calls of `registry.action`, the calls of an item's `resolve` or `reject`, and the clock
  readings that entries took at their settlement.
-/

/-- `MAX_IDEMPOTENCY_ENTRIES`. -/
def maxIdempotencyEntries : Nat := 1000

/-- The options of an executor, after the checks of its constructor. -/
structure ExecutorOptions where
  ttlMs : Int := 5 * 60000
  perAgentLimit : Nat := 32
  globalLimit : Nat := 256
  perAgentLimit_pos : 0 < perAgentLimit := by decide
  globalLimit_pos : 0 < globalLimit := by decide

/-- How far an item has come: in its queue behind the head, started with its body still to
    run, with its action called, settled with the completion chain still to run, or out of
    its queue. -/
inductive ActionPhase
  | waiting | scheduled | running | finishing | finished
  deriving DecidableEq

/-- Whether an item has been settled. -/
def ActionPhase.isSettled : ActionPhase → Bool
  | .finishing | .finished => true
  | _ => false

/-- Whether the body of an item's task may have run. -/
def ActionPhase.hasRun : ActionPhase → Bool
  | .waiting | .scheduled => false
  | _ => true

/-- `item.started`, for an item in its queue. -/
def ActionPhase.isStarted : ActionPhase → Bool
  | .waiting => false
  | _ => true

/-- What an item is settled with: the result or the error of `registry.action`, or an error of
    the executor itself. -/
inductive ActionOutcome (ρ ε : Type)
  | result (value : ρ)
  | thrown (error : ε)
  | refused (error : ContractError)
  deriving DecidableEq

/-- An admitted request with its promise.  `key` is kept for reference only. -/
structure ActionItem (π ρ ε : Type) where
  key : String
  agentId : String
  action : String
  payload : π
  phase : ActionPhase
  outcome : Option (ActionOutcome ρ ε)
  callSettled : Bool
  aborted : Bool
  deriving DecidableEq

/-- An entry of the idempotency cache.  `callsBefore` and `invocationsBefore` record how long the
    logs were when the entry was made. -/
structure CacheEntry where
  key : String
  signature : String
  item : Nat
  settled : Bool
  expiresAt : Option Int
  callsBefore : Nat
  invocationsBefore : Nat
  deriving DecidableEq

/-- The queue of one agent, the head first. -/
structure ActionQueue where
  agentId : String
  items : List Nat
  deriving DecidableEq

/-- Where a call to `execute` stands: refused at once, awaiting the promise of an item, or
    answered with what that promise settled to. -/
inductive ExecuteReply (ρ ε : Type)
  | refused (error : ContractError)
  | waiting (item : Nat) (replayed : Bool)
  | answered (item : Nat) (outcome : ActionOutcome ρ ε) (replayed : Bool)
  deriving DecidableEq

/-- A call to `execute`. -/
structure ExecuteCall (ρ ε : Type) where
  key : String
  signature : String
  reply : ExecuteReply ρ ε
  deriving DecidableEq

/-- The state of an executor and the logs. -/
structure ActionExecutor (π ρ ε : Type) where
  items : List (ActionItem π ρ ε)
  cache : InsertionMap CacheEntry.key
  queues : InsertionMap ActionQueue.agentId
  active : List Nat
  queued : Int
  draining : Bool
  calls : List (ExecuteCall ρ ε)
  starts : List Nat
  invocations : List Nat
  settlements : List Nat
  expiries : List (Nat × Int)
  deriving DecidableEq

/-! ### Errors -/

def idempotencyConflict : ContractError :=
  ⟨"idempotency_conflict", "Idempotency-Key was already used for a different request", 409⟩

def shuttingDown : ContractError := ⟨"shutting_down", "agent-host is shutting down", 503⟩

def idempotencyCacheFull : ContractError :=
  ⟨"idempotency_cache_full", "too many idempotent actions are in progress", 503⟩

def queueFull : ContractError := ⟨"queue_full", "action queue is full; retry later", 429⟩

def actionTimeout : ContractError := ⟨"action_timeout", "agent action timed out", 504⟩

namespace ActionExecutor

variable {π ρ ε : Type} (options : ExecutorOptions) (signatureOf : String → String → π → String)
  (s : ActionExecutor π ρ ε)

/-- A new executor. -/
def empty : ActionExecutor π ρ ε where
  items := []
  cache := .empty
  queues := .empty
  active := []
  queued := 0
  draining := false
  calls := []
  starts := []
  invocations := []
  settlements := []
  expiries := []

/-- The phase of an item. -/
def phase? (n : Nat) : Option ActionPhase := s.items[n]?.map ActionItem.phase

/-- What an item was settled with. -/
def outcome? (n : Nat) : Option (ActionOutcome ρ ε) := s.items[n]?.bind ActionItem.outcome

/-- Change one item. -/
def update (n : Nat) (f : ActionItem π ρ ε → ActionItem π ρ ε) : ActionExecutor π ρ ε :=
  { s with items := s.items.modify n f }

/-- `item.resolve` and `item.reject`; a promise keeps what it settled with first. -/
def settleItem (n : Nat) (phase : ActionPhase) (outcome : ActionOutcome ρ ε) :
    ActionExecutor π ρ ε :=
  { s.update n (fun item =>
      { item with phase := phase, outcome := item.outcome <|> some outcome }) with
    settlements := s.settlements ++ [n] }

/-! ### `#pump` -/

/-- Mark an item as started and schedule its body. -/
def startItem (n : Nat) : ActionExecutor π ρ ε :=
  { s.update n (fun item => { item with phase := .scheduled }) with
    active := s.active ++ [n]
    starts := s.starts ++ [n] }

/-- `#pump`: start the head of an agent's queue unless it is started already. -/
def pump (agentId : String) : ActionExecutor π ρ ε :=
  match (s.queues.get? agentId).bind (fun queue => queue.items.head?) with
  | none => s
  | some n => if s.phase? n = some .waiting then s.startItem n else s

/-- The start of the body of an item's task: the deadline is armed and `registry.action`
    called. -/
def runTask (n : Nat) : ActionExecutor π ρ ε :=
  { s.update n (fun item => { item with phase := .running }) with
    invocations := s.invocations ++ [n] }

/-- The settlement of a call of `registry.action`.  After the deadline nobody waits for it. -/
def actionSettled (n : Nat) (outcome : ActionOutcome ρ ε) : ActionExecutor π ρ ε :=
  let s := s.update n (fun item => { item with callSettled := true })
  if s.phase? n = some .running then s.settleItem n .finishing outcome else s

/-- `item.controller.abort`. -/
def abortItem (n : Nat) : ActionExecutor π ρ ε :=
  s.update n (fun item => { item with aborted := true })

/-- The deadline of a running item: its signal is aborted and its promise rejected. -/
def deadline (n : Nat) : ActionExecutor π ρ ε :=
  (s.abortItem n).settleItem n .finishing (.refused actionTimeout)

/-- The queue of an agent after its first item leaves. -/
def shiftQueue (agentId : String) (n : Nat) : InsertionMap ActionQueue.agentId :=
  match s.queues.get? agentId with
  | none => s.queues
  | some queue =>
    let items := if queue.items.head? = some n then queue.items.tail else queue.items
    if items.isEmpty then s.queues.delete agentId else s.queues.set { queue with items := items }

/-- The completion chain behind an item's task. -/
def finish (n : Nat) (agentId : String) : ActionExecutor π ρ ε :=
  let s := s.update n (fun item => { item with phase := .finished })
  ({ s with
      active := s.active.erase n
      queues := s.shiftQueue agentId n
      queued := s.queued - 1 } : ActionExecutor π ρ ε).pump agentId

/-! ### `execute` -/

/-- Drop the settled entries whose retention is over. -/
def prune (requestedAt : Int) : ActionExecutor π ρ ε :=
  { s with
    cache := s.cache.deleteAll ((s.cache.values.filter fun entry =>
      entry.settled && entry.expiresAt.any (fun t => decide (t ≤ requestedAt))).map CacheEntry.key) }

/-- Record a call with its reply. -/
def reply (key signature : String) (reply : ExecuteReply ρ ε) : ActionExecutor π ρ ε :=
  { s with calls := s.calls ++ [⟨key, signature, reply⟩] }

/-- The queue of an agent, empty where it has none. -/
def queueOf (agentId : String) : List Nat := ((s.queues.get? agentId).map ActionQueue.items).getD []

/-- Admit a request: an item at the end of its agent's queue and an entry in the cache. -/
def enroll (agentId action : String) (payload : π) (key signature : String) :
    ActionExecutor π ρ ε :=
  let n := s.items.length
  ({ s with
      items := s.items ++ [⟨key, agentId, action, payload, .waiting, none, false, false⟩]
      queues := s.queues.set ⟨agentId, s.queueOf agentId ++ [n]⟩
      queued := s.queued + 1
      cache := s.cache.set
        ⟨key, signature, n, false, none, s.calls.length, s.invocations.length⟩ } :
    ActionExecutor π ρ ε).pump agentId

/-- `execute`, once the key is known to be well formed and old entries are dropped. -/
def executePruned (agentId action : String) (payload : π) (key signature : String) :
    ActionExecutor π ρ ε :=
  match s.cache.get? key with
  | some existing =>
    if existing.signature ≠ signature then s.reply key signature (.refused idempotencyConflict)
    else s.reply key signature (.waiting existing.item true)
  | none =>
    if s.draining then s.reply key signature (.refused shuttingDown)
    else if maxIdempotencyEntries ≤ s.cache.size then
      s.reply key signature (.refused idempotencyCacheFull)
    else if options.perAgentLimit ≤ (s.queueOf agentId).length
        ∨ (options.globalLimit : Int) ≤ s.queued then
      s.reply key signature (.refused queueFull)
    else
      (s.enroll agentId action payload key signature).reply key signature
        (.waiting s.items.length false)

/-- `execute`, up to the promise it awaits. -/
def execute (agentId action : String) (payload : π) (key : String) (requestedAt : Int) :
    ActionExecutor π ρ ε :=
  let signature := signatureOf agentId action payload
  if ¬ idempotencyKey key then s.reply key signature (.refused invalidIdempotencyKey)
  else (s.prune requestedAt).executePruned options agentId action payload key signature

/-- The reaction of an entry to the settlement of its promise. -/
def settleEntry (entry : CacheEntry) (now : Int) : ActionExecutor π ρ ε :=
  { s with
    cache := s.cache.set { entry with settled := true, expiresAt := some (now + options.ttlMs) }
    expiries := s.expiries ++ [(entry.item, now)] }

/-- A call that awaits an item's promise goes on. -/
def deliver (c : Nat) (n : Nat) (outcome : ActionOutcome ρ ε) (replayed : Bool) :
    ActionExecutor π ρ ε :=
  { s with
    calls := s.calls.modify c (fun call => { call with reply := .answered n outcome replayed }) }

/-! ### `shutdown` -/

/-- Whether an item is started. -/
def isStarted (n : Nat) : Bool := (s.phase? n).all ActionPhase.isStarted

/-- Take an item out of its queue and reject it. -/
def dropItem (agentId : String) (n : Nat) : ActionExecutor π ρ ε :=
  match s.queues.get? agentId with
  | none => s
  | some queue =>
    ({ s with
        queues := s.queues.set { queue with items := queue.items.erase n }
        queued := s.queued - 1 } : ActionExecutor π ρ ε).settleItem n .finished
      (.refused shuttingDown)

/-- Forget the queue of an agent where it is empty. -/
def deleteEmpty (agentId : String) : ActionExecutor π ρ ε :=
  if (s.queueOf agentId).isEmpty then { s with queues := s.queues.delete agentId } else s

/-- The loop body of `shutdown` for one agent: drop what is not started. -/
def dropPending (agentId : String) : ActionExecutor π ρ ε :=
  (((s.queueOf agentId).filter fun n => !s.isStarted n).foldl
    (fun s n => s.dropItem agentId n) s).deleteEmpty agentId

/-- `shutdown`, up to the promise it awaits. -/
def shutdown : ActionExecutor π ρ ε :=
  (s.queues.values.map ActionQueue.agentId).foldl dropPending { s with draining := true }

/-- The end of the grace period: the signals of the active items are aborted. -/
def abortActive : ActionExecutor π ρ ε :=
  s.active.foldl abortItem s

end ActionExecutor

/-! ### Events -/

/-- What happens to an executor. -/
inductive ExecutorEvent (π ρ ε : Type)
  | execute (agentId action : String) (payload : π) (key : String) (requestedAt : Int)
  | runTask (n : Nat)
  | actionSettled (n : Nat) (outcome : Except ε ρ)
  | deadline (n : Nat)
  | finish (n : Nat)
  | settleEntry (n : Nat) (now : Int)
  | deliver (c : Nat)
  | shutdown
  | graceExpired

/-- The outcome a settled call of `registry.action` gives its item. -/
def ActionOutcome.ofAction {ρ ε : Type} : Except ε ρ → ActionOutcome ρ ε
  | .ok value => .result value
  | .error error => .thrown error

namespace ActionExecutor

variable {π ρ ε : Type} (options : ExecutorOptions) (signatureOf : String → String → π → String)

/-- One event, where it is enabled. -/
def step (s : ActionExecutor π ρ ε) : ExecutorEvent π ρ ε → Option (ActionExecutor π ρ ε)
  | .execute agentId action payload key requestedAt =>
    some (s.execute options signatureOf agentId action payload key requestedAt)
  | .runTask n => if s.phase? n = some .scheduled then some (s.runTask n) else none
  | .actionSettled n outcome =>
    match s.items[n]? with
    | some item =>
      if n ∈ s.invocations ∧ ¬ item.callSettled then
        some (s.actionSettled n (.ofAction outcome))
      else none
    | none => none
  | .deadline n => if s.phase? n = some .running then some (s.deadline n) else none
  | .finish n =>
    match s.items[n]? with
    | some item => if item.phase = .finishing then some (s.finish n item.agentId) else none
    | none => none
  | .settleEntry n now =>
    match s.items[n]? with
    | some item =>
      match s.cache.get? item.key with
      | some entry =>
        if entry.item = n ∧ ¬ entry.settled ∧ item.outcome.isSome then
          some (s.settleEntry options entry now)
        else none
      | none => none
    | none => none
  | .deliver c =>
    match s.calls[c]? with
    | some ⟨_, _, .waiting n replayed⟩ =>
      match s.outcome? n with
      | some outcome => some (s.deliver c n outcome replayed)
      | none => none
    | _ => none
  | .shutdown => some s.shutdown
  | .graceExpired => some s.abortActive

/-- The runs of an executor. -/
def system : TransitionSystem (ActionExecutor π ρ ε) (ExecutorEvent π ρ ε) where
  init := fun s => s = empty
  step := step options signatureOf

end ActionExecutor

end AgentHost
