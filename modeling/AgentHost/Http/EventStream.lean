import AgentHost.Lib.Json
import AgentHost.Lib.TransitionSystem
import Mathlib.Data.List.Range

namespace AgentHost

/-!
# The event stream

The event bus of `event-bus.js`, the clients of `sse-client.js` and the `/v1/events` route of
`server.js` that joins them.

* `SseClient.send`, `drain`, `close` — a client: it writes while the socket takes more, queues
  while it is blocked, and closes where the queue would exceed a bound.
* `EventServer.step` — emissions, connections, drains, heartbeats and closures.
* `SseClient.Bounded` — what the queue of a client satisfies; `EventClient.Follows` — what was
  written to a client and what waits are the events since its ready frame.
* `sse_delivery` — both hold in every reachable state, and an emission closes exactly the clients
  whose bounds it would exceed.
-/

def maxSsePendingEvents : Nat := 64
def maxSsePendingBytes : Nat := 256 * 1024

/-! ### Events and frames -/

/-- An event before the bus numbers it: its type and its other members. -/
structure BusEvent where
  type : String
  members : List (String × Json)

/-- An event of the bus. -/
structure SequencedEvent extends BusEvent where
  sequence : Nat

/-- What the route writes to a client. -/
inductive SseFrame
  | ready (revision sequence : Nat) (initialLoading : Bool)
  | data (event : SequencedEvent)
  | keepalive

/-- `eventView`: the agent of an event is replaced by its public view. -/
def eventView (agentView : Json → Json) (event : SequencedEvent) : List (String × Json) :=
  (("type", .str event.type) ::
    event.members.map fun m => if m.1 = "agent" then (m.1, agentView m.2) else m) ++
    [("sequence", .num event.sequence)]

/-- `formatSse`. -/
def formatSse (type : String) (sequence : Nat) (body : List (String × Json)) : String :=
  "id: " ++ toString sequence ++ "\nevent: " ++ type ++ "\ndata: " ++
    Json.stringify (.obj body) ++ "\n\n"

/-- The text of a frame. -/
def SseFrame.payload (agentView : Json → Json) : SseFrame → String
  | .ready revision sequence initialLoading =>
    formatSse "ready" sequence [("ok", .bool true), ("apiVersion", .str "1"),
      ("revision", .num revision), ("sequence", .num sequence),
      ("initialLoading", .bool initialLoading)]
  | .data event =>
    formatSse event.type event.sequence (("apiVersion", .str "1") :: eventView agentView event)
  | .keepalive => ": keepalive\n\n"

/-- `Buffer.byteLength` of the text of a frame. -/
def SseFrame.bytes (agentView : Json → Json) (frame : SseFrame) : Nat :=
  Json.byteLength (frame.payload agentView)

/-- The event a frame carries. -/
def SseFrame.event? : SseFrame → Option SequencedEvent
  | .data event => some event
  | _ => none

/-! ### A client -/

/-- A client and its response: the payloads passed to `response.write`, and whether the response
    was ended. -/
structure SseClient (π : Type) where
  pending : List π := []
  pendingBytes : Nat := 0
  blocked : Bool := false
  closed : Bool := false
  written : List π := []
  writableEnded : Bool := false

namespace SseClient

variable {π : Type} (bytes : π → Nat)

/-- `close`. -/
def close (client : SseClient π) : SseClient π :=
  if client.closed then client
  else { client with closed := true, pending := [], pendingBytes := 0, writableEnded := true }

/-- `response.write`, which says whether the socket takes more. -/
def write (client : SseClient π) (payload : π) (writable : Bool) : SseClient π :=
  { client with
    written := client.written ++ [payload]
    blocked := client.blocked || !writable }

/-- One more payload would exceed a bound of the queue. -/
def Exceeds (client : SseClient π) (payload : π) : Prop :=
  maxSsePendingEvents ≤ client.pending.length ∨
    maxSsePendingBytes < client.pendingBytes + bytes payload

instance (client : SseClient π) (payload : π) : Decidable (client.Exceeds bytes payload) := by
  unfold Exceeds; infer_instance

/-- `send`: the client afterwards and the result. -/
def send (client : SseClient π) (payload : π) (heartbeat writable : Bool) : SseClient π × Bool :=
  if client.closed then (client, false)
  else if !client.blocked then (client.write payload writable, true)
  else if heartbeat then (client, false)
  else if client.Exceeds bytes payload then (client.close, false)
  else
    ({ client with
      pending := client.pending ++ [payload]
      pendingBytes := client.pendingBytes + bytes payload }, true)

/-- The loop of `#drain` over the queue: it stops where the socket blocks again.  The results of
    the writes come one after the other. -/
def drainLoop (client : SseClient π) : List π → (Nat → Bool) → SseClient π
  | [], _ => { client with pending := [] }
  | payload :: rest, writable =>
    let next := { client with
      pending := rest, pendingBytes := client.pendingBytes - bytes payload }.write payload (writable 0)
    if writable 0 then next.drainLoop rest (fun n => writable (n + 1)) else next

/-- `#drain`. -/
def drain (client : SseClient π) (writable : Nat → Bool) : SseClient π :=
  if client.closed then client
  else { client with blocked := false }.drainLoop bytes client.pending writable

end SseClient

/-! ### The route -/

/-- A client of the route, and whether its listener and its heartbeat are installed. -/
structure EventClient where
  client : SseClient SseFrame
  subscribed : Bool

/-- The client after a call; closing it ran `closeClient`. -/
def EventClient.update (entry : EventClient) (client : SseClient SseFrame) : EventClient :=
  ⟨client, entry.subscribed && !client.closed⟩

/-- The bus with the events it emitted, oldest first, and the clients that connected. -/
structure EventServer where
  sequence : Nat := 0
  emitted : List SequencedEvent := []
  clients : List EventClient := []

/-- What happens to the bus and the clients of the route, with what the writes return.  `close` is
    an error or closure of the response or request, or the stop of the server. -/
inductive StreamEvent
  | connect (revision : Nat) (initialLoading writable : Bool)
  | emit (event : BusEvent) (writable : Nat → Bool)
  | drain (n : Nat) (writable : Nat → Bool)
  | heartbeat (n : Nat) (writable : Bool)
  | close (n : Nat)

namespace EventServer

variable (agentView : Json → Json) (server : EventServer)

/-- The event the bus makes of the next emission. -/
def sequenced (event : BusEvent) : SequencedEvent := { event with sequence := server.sequence + 1 }

/-- The listener of the `n`-th client. -/
def listen (event : SequencedEvent) (writable : Nat → Bool) (n : Nat) (entry : EventClient) :
    EventClient :=
  if entry.subscribed then
    entry.update (entry.client.send (SseFrame.bytes agentView) (.data event) false (writable n)).1
  else entry

/-- `AgentEventBus.emit`. -/
def emit (event : BusEvent) (writable : Nat → Bool) : EventServer where
  sequence := server.sequence + 1
  emitted := server.emitted ++ [server.sequenced event]
  clients := server.clients.mapIdx (listen agentView (server.sequenced event) writable)

/-- A new client: it listens, and gets its ready frame. -/
def connect (revision : Nat) (initialLoading writable : Bool) : EventServer :=
  let frame := SseFrame.ready revision server.sequence initialLoading
  let entry : EventClient := ⟨{}, true⟩
  { server with
    clients := server.clients ++
      [entry.update (entry.client.send (SseFrame.bytes agentView) frame false writable).1] }

/-- A call on the `n`-th client. -/
def modify (n : Nat) (f : SseClient SseFrame → SseClient SseFrame) : EventServer :=
  { server with clients := server.clients.modify n fun entry => entry.update (f entry.client) }

/-- One event of a run.  The drain listener, like the heartbeat, is gone once the client closed. -/
def step (server : EventServer) : StreamEvent → Option EventServer
  | .connect revision initialLoading writable =>
    some (server.connect agentView revision initialLoading writable)
  | .emit event writable => some (server.emit agentView event writable)
  | .drain n writable =>
    match server.clients[n]? with
    | none => none
    | some entry =>
      if entry.client.closed then none
      else some (server.modify n fun client => client.drain (SseFrame.bytes agentView) writable)
  | .heartbeat n writable =>
    match server.clients[n]? with
    | none => none
    | some entry =>
      if entry.subscribed then
        some (server.modify n fun client =>
          (client.send (SseFrame.bytes agentView) .keepalive true writable).1)
      else none
  | .close n =>
    match server.clients[n]? with
    | none => none
    | some _ => some (server.modify n SseClient.close)

end EventServer

/-- The runs of the bus and the route. -/
def eventStream (agentView : Json → Json) : TransitionSystem EventServer StreamEvent where
  init := fun server => server = {}
  step := EventServer.step agentView

/-! ### The queue of a client -/

namespace SseClient

variable {π : Type} {bytes : π → Nat} {client : SseClient π}

/-- The bytes of a list of payloads. -/
def totalBytes (bytes : π → Nat) (payloads : List π) : Nat := (payloads.map bytes).sum

@[simp] theorem totalBytes_nil : totalBytes bytes [] = 0 := rfl

@[simp] theorem totalBytes_cons (payload : π) (payloads : List π) :
    totalBytes bytes (payload :: payloads) = bytes payload + totalBytes bytes payloads := by
  simp [totalBytes]

@[simp] theorem totalBytes_append (left right : List π) :
    totalBytes bytes (left ++ right) = totalBytes bytes left + totalBytes bytes right := by
  simp [totalBytes]

/-- The queue is within its bounds and counted right, waits only for a blocked socket, and is
    gone with the connection. -/
structure Bounded (bytes : π → Nat) (client : SseClient π) : Prop where
  length_le : client.pending.length ≤ maxSsePendingEvents
  bytes_le : client.pendingBytes ≤ maxSsePendingBytes
  bytes_eq : client.pendingBytes = totalBytes bytes client.pending
  blocked : client.pending ≠ [] → client.blocked = true
  closed : client.closed = true → client.pending = [] ∧ client.writableEnded = true

theorem Bounded.start : ({} : SseClient π).Bounded bytes := by
  constructor <;> simp

theorem Bounded.close (h : client.Bounded bytes) : client.close.Bounded bytes := by
  unfold SseClient.close
  split
  · exact h
  · constructor <;> simp

/-- **Step lemma** of `send`. -/
theorem Bounded.send (h : client.Bounded bytes) (payload : π) (heartbeat writable : Bool) :
    (client.send bytes payload heartbeat writable).1.Bounded bytes := by
  unfold SseClient.send
  split
  · exact h
  next hopen =>
  split
  · next hfree =>
    -- an unblocked client has an empty queue
    have hempty : client.pending = [] := by
      by_contra hne
      simp [h.blocked hne] at hfree
    refine ⟨h.length_le, h.bytes_le, h.bytes_eq, fun hne => absurd hempty hne, fun hc => ?_⟩
    exact absurd hc hopen
  next hblocked =>
  split
  · exact h
  split
  · exact h.close
  · next hroom =>
    simp only [Exceeds, not_or, not_le, not_lt] at hroom
    constructor
    · show (client.pending ++ [payload]).length ≤ _
      rw [List.length_append, List.length_singleton]
      exact hroom.1
    · exact hroom.2
    · show client.pendingBytes + bytes payload = _
      rw [h.bytes_eq, totalBytes_append, totalBytes_cons, totalBytes_nil, Nat.add_zero]
    · intro _
      simpa using hblocked
    · exact fun hc => absurd hc hopen

/-- What the loop of `#drain` leaves: a prefix of the queue is written and the rest waits, and
    nothing waits unless the socket blocked. -/
theorem drainLoop_spec (client : SseClient π) (queue : List π) (writable : Nat → Bool)
    (hopen : client.closed = false) (hbytes : client.pendingBytes = totalBytes bytes queue) :
    ∃ sent rest, queue = sent ++ rest ∧
      (client.drainLoop bytes queue writable).pending = rest ∧
      (client.drainLoop bytes queue writable).written = client.written ++ sent ∧
      (client.drainLoop bytes queue writable).pendingBytes = totalBytes bytes rest ∧
      (client.drainLoop bytes queue writable).closed = false ∧
      (rest ≠ [] → (client.drainLoop bytes queue writable).blocked = true) := by
  induction queue generalizing client writable with
  | nil => exact ⟨[], [], by simp [drainLoop, hopen, hbytes]⟩
  | cons payload queue ih =>
    rw [totalBytes_cons] at hbytes
    have hrest : client.pendingBytes - bytes payload = totalBytes bytes queue := by omega
    by_cases hw : writable 0
    · -- the socket takes more: the loop goes on with the rest
      obtain ⟨sent, rest, rfl, hp, hwr, hb, hc, hbl⟩ := ih
        ({ client with
          pending := queue, pendingBytes := client.pendingBytes - bytes payload }.write payload true)
        (fun n => writable (n + 1)) hopen hrest
      refine ⟨payload :: sent, rest, rfl, ?_⟩
      simp only [drainLoop, hw, if_true]
      refine ⟨hp, ?_, hb, hc, hbl⟩
      rw [hwr]
      simp [SseClient.write]
    · refine ⟨[payload], queue, rfl, ?_⟩
      simp only [drainLoop, hw]
      refine ⟨rfl, rfl, hrest, hopen, fun _ => ?_⟩
      simp [SseClient.write]

theorem drain_spec (h : client.Bounded bytes) (writable : Nat → Bool)
    (hopen : client.closed = false) :
    ∃ sent rest, client.pending = sent ++ rest ∧ (client.drain bytes writable).pending = rest ∧
      (client.drain bytes writable).written = client.written ++ sent ∧
      (client.drain bytes writable).pendingBytes = totalBytes bytes rest ∧
      (client.drain bytes writable).closed = false ∧
      (rest ≠ [] → (client.drain bytes writable).blocked = true) := by
  have hdrain : client.drain bytes writable
      = { client with blocked := false }.drainLoop bytes client.pending writable := by
    rw [SseClient.drain, if_neg (by simp [hopen])]
  rw [hdrain]
  exact drainLoop_spec { client with blocked := false } _ _ hopen h.bytes_eq

/-- **Step lemma** of `#drain`. -/
theorem Bounded.drain (h : client.Bounded bytes) (writable : Nat → Bool) :
    (client.drain bytes writable).Bounded bytes := by
  by_cases hopen : client.closed = false
  · obtain ⟨sent, rest, hsplit, hp, -, hb, hc, hbl⟩ := drain_spec h writable hopen
    have hlength := h.length_le
    have hbytes := h.bytes_le
    rw [h.bytes_eq] at hbytes
    rw [hsplit] at hlength hbytes
    rw [List.length_append] at hlength
    rw [totalBytes_append] at hbytes
    constructor
    · rw [hp]
      omega
    · rw [hb]
      omega
    · rw [hb, hp]
    · rwa [hp]
    · rw [hc]
      exact fun hclosed => absurd hclosed Bool.false_ne_true
  · have hclosed : client.closed = true := by simpa using hopen
    rw [SseClient.drain, if_pos hclosed]
    exact h

end SseClient

/-! ### What a client is told -/

/-- The events of the frames of a list. -/
def dataEvents (frames : List SseFrame) : List SequencedEvent := frames.filterMap SseFrame.event?

@[simp] theorem dataEvents_nil : dataEvents [] = [] := rfl

@[simp] theorem dataEvents_append (left right : List SseFrame) :
    dataEvents (left ++ right) = dataEvents left ++ dataEvents right := by
  simp [dataEvents]

@[simp] theorem dataEvents_data (event : SequencedEvent) : dataEvents [.data event] = [event] := rfl

@[simp] theorem dataEvents_keepalive : dataEvents [.keepalive] = [] := rfl

/-- A client was told the events after the number its ready frame announced: all of them, up to
    those that wait, while it is open, and the first of them once it is closed. -/
structure EventClient.Follows (emitted : List SequencedEvent) (entry : EventClient)
    (announced : Nat) : Prop where
  ready : ∃ revision initialLoading rest,
    entry.client.written = .ready revision announced initialLoading :: rest
  announced_le : announced ≤ emitted.length
  subscribed : entry.subscribed = !entry.client.closed
  told : dataEvents entry.client.written <+: emitted.drop announced
  waiting : entry.client.closed = false →
    dataEvents entry.client.written ++ dataEvents entry.client.pending = emitted.drop announced

/-- A client of the route in a reachable state. -/
def EventClient.Ok (agentView : Json → Json) (emitted : List SequencedEvent)
    (entry : EventClient) : Prop :=
  entry.client.Bounded (SseFrame.bytes agentView) ∧ ∃ announced, entry.Follows emitted announced

namespace EventClient

variable {agentView : Json → Json} {emitted : List SequencedEvent} {entry : EventClient}
  {announced : Nat} {client : SseClient SseFrame}

/-- A call that writes more frames to an open client keeps what it is told right if the frames
    written and waiting carry the same events as before, then the new ones. -/
theorem Follows.extend (h : entry.Follows emitted announced) (sent : List SseFrame)
    (more : List SequencedEvent) (hsub : entry.subscribed = true)
    (hwritten : client.written = entry.client.written ++ sent)
    (hevents : dataEvents sent ++ dataEvents client.pending
      = dataEvents entry.client.pending ++ more) :
    (entry.update client).Follows (emitted ++ more) announced := by
  have hwas : entry.client.closed = false := by simpa [hsub] using h.subscribed.symm
  obtain ⟨revision, initialLoading, rest, hready⟩ := h.ready
  have hall : dataEvents client.written ++ dataEvents client.pending
      = (emitted ++ more).drop announced := by
    rw [hwritten, dataEvents_append, List.append_assoc, hevents, ← List.append_assoc,
      h.waiting hwas, List.drop_append_of_le_length h.announced_le]
  refine ⟨⟨revision, initialLoading, rest ++ sent, ?_⟩, ?_, ?_, ?_, fun _ => hall⟩
  · show client.written = _
    rw [hwritten, hready, List.cons_append]
  · rw [List.length_append]
    exact le_trans h.announced_le (Nat.le_add_right _ _)
  · show (entry.subscribed && !client.closed) = _
    rw [hsub, Bool.true_and]
    rfl
  · rw [← hall]
    exact List.prefix_append _ _

/-- Closing a client leaves what it was told. -/
theorem Follows.close (h : entry.Follows emitted announced) (more : List SequencedEvent) :
    (entry.update entry.client.close).Follows (emitted ++ more) announced := by
  have hwritten : entry.client.close.written = entry.client.written := by
    unfold SseClient.close
    split <;> rfl
  have hclosed : entry.client.close.closed = true := by
    unfold SseClient.close
    split
    · assumption
    · rfl
  refine ⟨?_, ?_, ?_, ?_, fun hopen => absurd hopen ?_⟩
  · show ∃ _ _ _, entry.client.close.written = _
    rw [hwritten]
    exact h.ready
  · rw [List.length_append]
    exact le_trans h.announced_le (Nat.le_add_right _ _)
  · simp [update, hclosed]
  · show dataEvents entry.client.close.written <+: _
    rw [hwritten, List.drop_append_of_le_length h.announced_le]
    exact h.told.trans (List.prefix_append _ _)
  · simp [update, hclosed]

/-- A client that does not listen is told nothing. -/
theorem Follows.ignore (h : entry.Follows emitted announced) (more : List SequencedEvent)
    (hsub : entry.subscribed = false) : entry.Follows (emitted ++ more) announced := by
  have hclosed : entry.client.closed = true := by simpa [hsub] using h.subscribed.symm
  refine ⟨h.ready, ?_, h.subscribed, ?_, fun hopen => absurd hopen (by simp [hclosed])⟩
  · rw [List.length_append]
    exact le_trans h.announced_le (Nat.le_add_right _ _)
  · rw [List.drop_append_of_le_length h.announced_le]
    exact h.told.trans (List.prefix_append _ _)

/-- The listener of a client that listens: the event is written, waits, or ends the connection. -/
theorem Follows.listen (hb : entry.client.Bounded (SseFrame.bytes agentView))
    (h : entry.Follows emitted announced) (event : SequencedEvent) (writable : Nat → Bool) (n : Nat) :
    (EventServer.listen agentView event writable n entry).Follows (emitted ++ [event])
      announced := by
  unfold EventServer.listen
  by_cases hsub : entry.subscribed = true
  · rw [if_pos hsub]
    have hopen : entry.client.closed = false := by simpa [hsub] using h.subscribed.symm
    unfold SseClient.send
    rw [if_neg (by simp [hopen])]
    split
    · next hfree =>
      -- nothing waits for an unblocked socket
      have hempty : entry.client.pending = [] := by
        by_contra hne
        simp [hb.blocked hne] at hfree
      refine h.extend [.data event] [event] hsub rfl ?_
      show dataEvents [.data event] ++ dataEvents entry.client.pending = _
      rw [hempty]
      rfl
    · rw [if_neg Bool.false_ne_true]
      split
      · exact h.close [event]
      · refine h.extend [] [event] hsub (List.append_nil _).symm ?_
        show dataEvents (entry.client.pending ++ [.data event]) = _
        rw [dataEvents_append, dataEvents_data]
  · rw [if_neg hsub]
    exact h.ignore [event] (by simpa using hsub)

theorem Follows.drain (hb : entry.client.Bounded (SseFrame.bytes agentView))
    (h : entry.Follows emitted announced) (writable : Nat → Bool)
    (hopen : entry.client.closed = false) :
    (entry.update (entry.client.drain (SseFrame.bytes agentView) writable)).Follows emitted
      announced := by
  obtain ⟨sent, rest, hsplit, hp, hwritten, -⟩ := SseClient.drain_spec hb writable hopen
  have hsub : entry.subscribed = true := by rw [h.subscribed, hopen]; rfl
  have hextend := h.extend sent [] hsub hwritten
    (by rw [hp, hsplit, dataEvents_append, List.append_nil])
  rwa [List.append_nil] at hextend

theorem Follows.heartbeat (h : entry.Follows emitted announced) (writable : Bool)
    (hsub : entry.subscribed = true) :
    (entry.update (entry.client.send (SseFrame.bytes agentView) .keepalive true writable).1).Follows
      emitted announced := by
  have hopen : entry.client.closed = false := by simpa [hsub] using h.subscribed.symm
  rw [← List.append_nil emitted]
  unfold SseClient.send
  rw [if_neg (by simp [hopen])]
  split
  · refine h.extend [.keepalive] [] hsub rfl ?_
    rw [List.append_nil]
    rfl
  · -- a heartbeat for a blocked socket is dropped
    exact h.extend [] [] hsub (List.append_nil _).symm (List.append_nil _).symm

end EventClient

/-! ### Runs -/

namespace EventServer

variable {agentView : Json → Json} {server server' : EventServer}

/-- The events are numbered from one, and every client is as it should. -/
structure Wf (agentView : Json → Json) (server : EventServer) : Prop where
  sequence_eq : server.sequence = server.emitted.length
  numbered : server.emitted.map SequencedEvent.sequence = List.range' 1 server.emitted.length
  clients : ∀ entry ∈ server.clients, entry.Ok agentView server.emitted

theorem Wf.emit (h : server.Wf agentView) (event : BusEvent) (writable : Nat → Bool) :
    (server.emit agentView event writable).Wf agentView where
  sequence_eq := by simp [EventServer.emit, h.sequence_eq]
  numbered := by
    show (server.emitted ++ [server.sequenced event]).map SequencedEvent.sequence = _
    rw [List.map_append, h.numbered, List.map_singleton]
    show _ ++ [server.sequence + 1] = List.range' 1 (server.emitted ++ [_]).length
    rw [List.length_append, List.length_singleton, List.range'_concat, h.sequence_eq,
      Nat.one_mul, Nat.add_comm 1]
  clients := by
    intro entry hentry
    obtain ⟨n, hn, rfl⟩ := List.mem_mapIdx.mp hentry
    obtain ⟨hb, announced, hf⟩ := h.clients _ (List.getElem_mem hn)
    refine ⟨?_, announced, hf.listen hb _ writable n⟩
    unfold listen
    split
    · exact hb.send _ _ _
    · exact hb

theorem Wf.connect (h : server.Wf agentView) (revision : Nat) (initialLoading writable : Bool) :
    (server.connect agentView revision initialLoading writable).Wf agentView where
  sequence_eq := h.sequence_eq
  numbered := h.numbered
  clients := by
    intro entry hentry
    rcases List.mem_append.mp hentry with hentry | hentry
    · exact h.clients entry hentry
    · obtain rfl := List.mem_singleton.mp hentry
      refine ⟨SseClient.Bounded.start.send _ false writable, server.sequence, ⟨revision, initialLoading, [], rfl⟩,
        h.sequence_eq.le, rfl, List.nil_prefix, fun _ => ?_⟩
      show [] = List.drop server.sequence server.emitted
      rw [List.drop_eq_nil_of_le h.sequence_eq.ge]

/-- A call on one client that keeps it as it should be. -/
theorem Wf.modify (h : server.Wf agentView) {n : Nat} {f : SseClient SseFrame → SseClient SseFrame}
    {entry : EventClient} (hentry : server.clients[n]? = some entry)
    (hb : (f entry.client).Bounded (SseFrame.bytes agentView))
    (hf : ∀ announced, entry.Follows server.emitted announced →
      (entry.update (f entry.client)).Follows server.emitted announced) :
    (server.modify n f).Wf agentView where
  sequence_eq := h.sequence_eq
  numbered := h.numbered
  clients := by
    intro changed hchanged
    obtain ⟨m, hm⟩ := List.mem_iff_getElem?.mp hchanged
    rw [EventServer.modify, List.getElem?_modify] at hm
    split at hm
    · next heq =>
      subst heq
      rw [hentry] at hm
      obtain rfl := Option.some.inj hm
      obtain ⟨-, announced, hfollows⟩ := h.clients entry (List.mem_of_getElem? hentry)
      exact ⟨hb, announced, hf announced hfollows⟩
    · exact h.clients changed (List.mem_of_getElem? (by simpa using hm))

/-- **Step lemma** of the route. -/
theorem Wf.step (h : server.Wf agentView) {e : StreamEvent}
    (hstep : server.step agentView e = some server') : server'.Wf agentView := by
  cases e with
  | connect revision initialLoading writable =>
    cases hstep
    exact h.connect revision initialLoading writable
  | emit event writable =>
    cases hstep
    exact h.emit event writable
  | drain n writable =>
    simp only [EventServer.step] at hstep
    split at hstep
    · cases hstep
    next entry hentry =>
    have hok := h.clients entry (List.mem_of_getElem? hentry)
    split at hstep
    · cases hstep
    next hopen =>
    cases hstep
    exact h.modify hentry (hok.1.drain writable) fun announced hf =>
      hf.drain hok.1 writable (by simpa using hopen)
  | heartbeat n writable =>
    simp only [EventServer.step] at hstep
    split at hstep
    · cases hstep
    next entry hentry =>
    have hok := h.clients entry (List.mem_of_getElem? hentry)
    split at hstep
    · next hsub =>
      cases hstep
      exact h.modify hentry (hok.1.send _ _ _) fun announced hf => hf.heartbeat writable hsub
    · cases hstep
  | close n =>
    simp only [EventServer.step] at hstep
    split at hstep
    · cases hstep
    next entry hentry =>
    have hok := h.clients entry (List.mem_of_getElem? hentry)
    cases hstep
    refine h.modify hentry hok.1.close fun announced hf => ?_
    have hclose := hf.close []
    rwa [List.append_nil] at hclose

theorem wf_of_reachable (h : (eventStream agentView).Reachable server) : server.Wf agentView := by
  refine h.invariant (fun s hs => ?_) fun _ _ _ hs hstep => hs.step hstep
  cases hs
  exact ⟨rfl, rfl, fun entry hentry => by simp at hentry⟩

end EventServer

/-! ### Delivery -/

namespace EventServer

variable {agentView : Json → Json} {server server' : EventServer}

/-- The listener of an open client closes it exactly where a bound would be exceeded. -/
theorem listen_closed {event : SequencedEvent} {writable : Nat → Bool} {n : Nat}
    {entry : EventClient} (hsub : entry.subscribed = true) (hopen : entry.client.closed = false) :
    (listen agentView event writable n entry).client.closed = true ↔
      entry.client.blocked = true ∧
        entry.client.Exceeds (SseFrame.bytes agentView) (.data event) := by
  rw [listen, if_pos hsub]
  show (SseClient.send _ _ _ _ _).1.closed = true ↔ _
  rw [SseClient.send, if_neg (by simp [hopen])]
  by_cases hblocked : entry.client.blocked = true
  · rw [if_neg (by simp [hblocked]), if_neg Bool.false_ne_true]
    by_cases hexceeds : entry.client.Exceeds (SseFrame.bytes agentView) (.data event)
    · rw [if_pos hexceeds, SseClient.close, if_neg (by simp [hopen])]
      exact iff_of_true rfl ⟨hblocked, hexceeds⟩
    · rw [if_neg hexceeds]
      show entry.client.closed = true ↔ _
      rw [hopen]
      exact iff_of_false Bool.false_ne_true fun h => hexceeds h.2
  · rw [if_pos (by simp [hblocked])]
    show entry.client.closed = true ↔ _
    rw [hopen]
    exact iff_of_false Bool.false_ne_true fun h => hblocked h.1

/-- Nothing reaches a closed client any more. -/
theorem step_closed (h : server.Wf agentView) {e : StreamEvent}
    (hstep : server.step agentView e = some server') {n : Nat} {entry : EventClient}
    (hentry : server.clients[n]? = some entry) (hclosed : entry.client.closed = true) :
    server'.clients[n]? = some entry := by
  obtain ⟨-, announced, hf⟩ := h.clients entry (List.mem_of_getElem? hentry)
  have hsub : entry.subscribed = false := by rw [hf.subscribed, hclosed]; rfl
  have hmodify : ∀ m (f : SseClient SseFrame → SseClient SseFrame),
      (m = n → f entry.client = entry.client) →
      (server.modify m f).clients[n]? = some entry := by
    intro m f hsame
    show (List.modify _ _ _)[n]? = _
    rw [List.getElem?_modify, hentry]
    split
    · next heq =>
      show some (entry.update (f entry.client)) = _
      rw [hsame heq, EventClient.update, hsub, Bool.false_and, ← hsub]
    · rfl
  cases e with
  | connect revision initialLoading writable =>
    cases hstep
    show (server.clients ++ _)[n]? = _
    rw [List.getElem?_append_left (List.getElem?_eq_some_iff.mp hentry).1, hentry]
  | emit event writable =>
    cases hstep
    show (server.clients.mapIdx _)[n]? = _
    rw [List.getElem?_mapIdx, hentry]
    show some (listen agentView _ writable n entry) = _
    rw [listen, if_neg (by simp [hsub])]
  | drain m writable =>
    simp only [EventServer.step] at hstep
    split at hstep
    · cases hstep
    split at hstep
    · cases hstep
    cases hstep
    exact hmodify m _ fun _ => by rw [SseClient.drain, if_pos hclosed]
  | heartbeat m writable =>
    simp only [EventServer.step] at hstep
    split at hstep
    · cases hstep
    split at hstep
    · cases hstep
      exact hmodify m _ fun _ => by rw [SseClient.send, if_pos hclosed]
    · cases hstep
  | close m =>
    simp only [EventServer.step] at hstep
    split at hstep
    · cases hstep
    cases hstep
    exact hmodify m _ fun _ => by rw [SseClient.close, if_pos hclosed]

/-- The numbers of a part of the emitted events. -/
theorem Wf.numbers (h : server.Wf agentView) {announced : Nat} {events : List SequencedEvent}
    (hevents : events <+: server.emitted.drop announced) :
    events.map SequencedEvent.sequence = List.range' (announced + 1) events.length := by
  have hprefix := hevents.map SequencedEvent.sequence
  rw [List.map_drop, h.numbered, List.drop_range'] at hprefix
  have hle := hprefix.length_le
  rw [List.length_range'] at hle
  have htake := List.prefix_iff_eq_take.mp hprefix
  rw [List.take_range'_of_length_ge hle, List.length_map, Nat.mul_one, Nat.add_comm 1] at htake
  exact htake

end EventServer

/-- **Main**: in every run, what was written to a client is its ready frame and then events whose
    numbers follow the one announced there, without a gap; while the client is open, with the
    queued ones they are all events emitted since.  The queue of a client is within its bounds,
    counted right, and empty unless the socket is blocked.  An emission closes exactly the open
    clients whose bounds it would exceed, and nothing reaches a closed one. -/
theorem sse_delivery (agentView : Json → Json) {server : EventServer}
    (h : (eventStream agentView).Reachable server) :
    (∀ entry ∈ server.clients, entry.client.Bounded (SseFrame.bytes agentView) ∧
      ∃ revision announced initialLoading rest,
        entry.client.written = .ready revision announced initialLoading :: rest ∧
        (dataEvents rest).map SequencedEvent.sequence
          = List.range' (announced + 1) (dataEvents rest).length ∧
        dataEvents rest <+: server.emitted.drop announced ∧
        (entry.client.closed = false →
          dataEvents rest ++ dataEvents entry.client.pending = server.emitted.drop announced)) ∧
    (∀ event writable server', server.step agentView (.emit event writable) = some server' →
      ∀ (n : Nat) (entry entry' : EventClient), server.clients[n]? = some entry →
        server'.clients[n]? = some entry' → entry.client.closed = false →
        (entry'.client.closed = true ↔ entry.client.blocked = true ∧
          entry.client.Exceeds (SseFrame.bytes agentView) (.data (server.sequenced event)))) ∧
    ∀ e server', server.step agentView e = some server' → ∀ (n : Nat) (entry : EventClient),
      server.clients[n]? = some entry → entry.client.closed = true →
        server'.clients[n]? = some entry := by
  have hwf := EventServer.wf_of_reachable h
  refine ⟨fun entry hentry => ?_, ?_, fun e server' hstep n entry hentry hclosed =>
    EventServer.step_closed hwf hstep hentry hclosed⟩
  · obtain ⟨hb, announced, hf⟩ := hwf.clients entry hentry
    obtain ⟨revision, initialLoading, rest, hready⟩ := hf.ready
    have hdata : dataEvents entry.client.written = dataEvents rest := by rw [hready]; rfl
    have htold := hf.told
    rw [hdata] at htold
    refine ⟨hb, revision, announced, initialLoading, rest, hready, hwf.numbers htold, htold, ?_⟩
    rw [← hdata]
    exact hf.waiting
  · intro event writable server' hstep n entry entry' hentry hentry' hopen
    obtain ⟨-, announced, hf⟩ := hwf.clients entry (List.mem_of_getElem? hentry)
    have hsub : entry.subscribed = true := by rw [hf.subscribed, hopen]; rfl
    cases hstep
    have hmap : server.clients[n]?.map
        (EventServer.listen agentView (server.sequenced event) writable n) = some entry' := by
      rw [← hentry', EventServer.emit, List.getElem?_mapIdx]
    rw [hentry] at hmap
    obtain rfl := Option.some.inj hmap
    exact EventServer.listen_closed hsub hopen

/-- A client whose socket blocks with its ready frame, an event, and what the drain writes. -/
theorem sse_delivery_drained :
    ∃ server entry, (eventStream id).run {}
        [.emit ⟨"agent.removed", []⟩ fun _ => true, .connect 1 false false,
          .emit ⟨"agent.removed", []⟩ fun _ => true, .drain 0 fun _ => true] = some server ∧
      entry ∈ server.clients ∧ entry.client.closed = false ∧
      (dataEvents entry.client.written).length = 1 ∧
      entry.client.Bounded (SseFrame.bytes id) := by
  have hrun : ∃ server entry, (eventStream id).run {}
        [.emit ⟨"agent.removed", []⟩ fun _ => true, .connect 1 false false,
          .emit ⟨"agent.removed", []⟩ fun _ => true, .drain 0 fun _ => true] = some server ∧
      server.clients[0]? = some entry ∧ entry.client.closed = false ∧
      (dataEvents entry.client.written).length = 1 := ⟨_, _, rfl, rfl, rfl, rfl⟩
  obtain ⟨server, entry, hrun, hentry, hopen, hdata⟩ := hrun
  have hinit : (eventStream id).Reachable {} := .ofInit rfl
  have hreach := hinit.ofRun hrun
  have hmem := List.mem_of_getElem? hentry
  exact ⟨server, entry, hrun, hmem, hopen, hdata, ((sse_delivery id hreach).1 entry hmem).1⟩

end AgentHost
