import AgentHost.AnchoredState.Requests
import AgentHost.Lib.TransitionSystem

namespace AgentHost

/-!
# The responses of a session

`NativeSession` as a state machine: requests are made one after the other, and the helper's output comes
in chunks.

* `NativeSession`, `NativeSession.consume`, `NativeSession.fail` — the source functions.
* `nativeSession` — the runs; `settlements`, `requests` and `sinceRequest` are logs that no function
  reads: how each request ended with the bytes that came while it was pending, the requests made, and
  what came since the last one.
* `responseFrame` — the frame of a response.
* `NativeSession.Faithful` — what a session must be.

**Main theorem**: `anchored_protocol`.
-/

/-- A request that waits for its response. -/
structure HelperRequest where
  operation : AnchoredOp
  request : Nat
  deriving DecidableEq

/-- How a request ends. -/
inductive HelperOutcome
  | resolved (payload : List UInt8)
  | rejected (errorCode : Nat)
  | failed
  deriving DecidableEq

/-- The end of a request, with the bytes that came while it was pending. -/
structure Settlement where
  pending : HelperRequest
  bytes : List UInt8
  outcome : HelperOutcome
  deriving DecidableEq

structure NativeSession where
  maxBytes : Nat
  buffer : List UInt8 := []
  pending : Option HelperRequest := none
  nextRequest : Nat := 1
  failure : Option String := none
  closeAcknowledged : Bool := false
  requests : List HelperRequest := []
  settlements : List Settlement := []
  sinceRequest : List UInt8 := []

namespace NativeSession

/-- `#fail`: the first failure ends the session, and its pending request. -/
def fail (session : NativeSession) (message : String) : NativeSession :=
  if session.failure.isSome then session
  else
    { session with
      failure := some message
      pending := none
      settlements := session.settlements ++
        session.pending.toList.map fun pending => ⟨pending, session.sinceRequest, .failed⟩ }

/-- `#request`, once those before it have ended: an error is thrown, or the frame is written. -/
def request (session : NativeSession) (input : RequestInput) : NativeSession :=
  if session.failure.isSome || session.pending.isSome then session
  else
    let number := session.nextRequest
    let session := { session with nextRequest := AgentHost.nextRequest number }
    match requestFrame session.maxBytes number input with
    | .error _ => session
    | .ok _ =>
      { session with
        pending := some ⟨input.operation, number⟩
        requests := session.requests ++ [⟨input.operation, number⟩]
        sinceRequest := [] }

/-- The checks of a response's header. -/
def invalidResponse (maxBytes : Nat) (pending : HelperRequest) (header : FrameHeader) : Bool :=
  header.magic ≠ protocolMagic || header.version ≠ protocolVersion ||
    header.operation ≠ pending.operation.code ||| responseFlag ||
    header.request ≠ pending.request || header.nameLength ≠ 0 || header.auxiliaryLength ≠ 0 ||
    header.reserved ≠ 0 || header.payloadLength > maxBytes

/-- `#consume`. -/
def consume (session : NativeSession) (chunk : List UInt8) : NativeSession :=
  if session.failure.isSome then session
  else
    let session := { session with
      buffer := session.buffer ++ chunk
      sinceRequest := session.sinceRequest ++ chunk }
    if session.buffer.length < headerBytes then session
    else
      let header := FrameHeader.load session.buffer
      match session.pending with
      | none => session.fail "invalid anchored private-state protocol response"
      | some pending =>
        if invalidResponse session.maxBytes pending header then
          session.fail "invalid anchored private-state protocol response"
        else if session.buffer.length < headerBytes + header.payloadLength then session
        else
          let payload := (session.buffer.drop headerBytes).take header.payloadLength
          let settled := { session with
            buffer := session.buffer.drop (headerBytes + header.payloadLength)
            pending := none
            closeAcknowledged := session.closeAcknowledged ||
              (pending.operation = .close && header.limit = 0)
            settlements := session.settlements ++ [⟨pending, session.sinceRequest,
              if header.limit = 0 then .resolved payload else .rejected header.limit⟩] }
          if settled.buffer ≠ [] then
            settled.fail "unsolicited anchored private-state protocol data"
          else settled

/-- The helper ends. -/
def terminated (session : NativeSession) : NativeSession :=
  if session.closeAcknowledged then session
  else session.fail "anchored private-state helper exited unexpectedly"

end NativeSession

inductive SessionEvent
  | request (input : RequestInput)
  | data (chunk : List UInt8)
  | inputFailed
  | terminated

/-- The runs of a session. -/
def nativeSession (maxBytes : Nat) : TransitionSystem NativeSession SessionEvent where
  init := fun session => session = { maxBytes }
  step := fun session event => some <|
    match event with
    | .request input => session.request input
    | .data chunk => session.consume chunk
    | .inputFailed => session.fail "anchored private-state helper input failed"
    | .terminated => session.terminated

/-! ### What a session must be -/

/-- The header of a response. -/
def responseHeader (pending : HelperRequest) (errorCode payloadLength : Nat) : FrameHeader :=
  ⟨protocolMagic, protocolVersion, pending.operation.code ||| responseFlag, pending.request, 0, 0,
    payloadLength, errorCode, 0⟩

/-- The frame that `response` writes, with the payload that follows it. -/
def responseFrame (pending : HelperRequest) (errorCode : Nat) (payload : List UInt8) : List UInt8 :=
  (responseHeader pending errorCode payload.length).encode ++ payload

/-- A request that was settled by a response: what came while it was pending is its response, and what
    comes with it is more than the session bears. -/
def Settlement.Faithful (maxBytes : Nat) (failed : Bool) (settlement : Settlement) : Prop :=
  settlement.outcome = .failed ∨ ∃ errorCode payload extra,
    settlement.bytes = responseFrame settlement.pending errorCode payload ++ extra ∧
    payload.length ≤ maxBytes ∧
    settlement.outcome = (if errorCode = 0 then .resolved payload else .rejected errorCode) ∧
    (extra ≠ [] → failed = true)

/-- What came so far is the beginning of a response, as far as it shows. -/
def Begins (maxBytes : Nat) (pending : HelperRequest) (bytes : List UInt8) : Prop :=
  bytes.length < headerBytes ∨
    (NativeSession.invalidResponse maxBytes pending (FrameHeader.load bytes) = false ∧
      bytes.length < headerBytes + (FrameHeader.load bytes).payloadLength)

/-- Every request ends once, in order, by its own response or by a failure; a session that has not failed
    has received no byte that is not part of the response to the pending request. -/
structure NativeSession.Faithful (session : NativeSession) : Prop where
  order : session.requests = session.settlements.map Settlement.pending ++ session.pending.toList
  settled : ∀ settlement ∈ session.settlements,
    settlement.Faithful session.maxBytes session.failure.isSome
  expected : session.failure = none → ∀ pending, session.pending = some pending →
    Begins session.maxBytes pending session.sinceRequest
  unsolicited : session.failure = none → session.pending = none → session.buffer = []

/-- Data that comes while no request is pending is nothing, or a header's length at least. -/
def NoFragment (session : NativeSession) : SessionEvent → Prop
  | .data chunk => session.failure = none → session.pending = none →
      chunk = [] ∨ headerBytes ≤ chunk.length
  | _ => True

/-! ### Steps -/

theorem Settlement.Faithful.failed {maxBytes : Nat} {failed : Bool} {settlement : Settlement}
    (h : settlement.Faithful maxBytes failed) : settlement.Faithful maxBytes true := by
  rcases h with h | ⟨errorCode, payload, extra, hbytes, hlength, houtcome, -⟩
  · exact .inl h
  · exact .inr ⟨errorCode, payload, extra, hbytes, hlength, houtcome, fun _ => rfl⟩

/-- The invariant of a session: what it has kept is what came since the last request. -/
structure NativeSession.Intact (session : NativeSession) : Prop extends session.Faithful where
  kept : session.failure = none → ∀ pending, session.pending = some pending →
    session.buffer = session.sinceRequest

variable {session session' : NativeSession}

/-- A failed session is left alone. -/
theorem intact_failed (hfailure : session.failure.isSome = true)
    (horder : session.requests =
      session.settlements.map Settlement.pending ++ session.pending.toList)
    (hsettled : ∀ settlement ∈ session.settlements, settlement.Faithful session.maxBytes true) :
    session.Intact := by
  have hnone : ¬ session.failure = none := by
    intro h
    rw [h] at hfailure
    exact Bool.noConfusion hfailure
  exact
    { order := horder
      settled := by rwa [hfailure]
      expected := fun h => absurd h hnone
      unsolicited := fun h => absurd h hnone
      kept := fun h => absurd h hnone }

/-- A failure ends the pending request. -/
theorem intact_fail (message : String)
    (horder : session.requests =
      session.settlements.map Settlement.pending ++ session.pending.toList)
    (hsettled : ∀ settlement ∈ session.settlements, settlement.Faithful session.maxBytes true) :
    (session.fail message).Intact := by
  rw [NativeSession.fail]
  split
  · next hfailure => exact intact_failed hfailure horder hsettled
  · refine intact_failed rfl ?_ ?_
    · show session.requests = (session.settlements ++ _).map Settlement.pending ++ []
      rw [List.append_nil, List.map_append, List.map_map, horder]
      congr 1
      exact (List.map_id _).symm
    · intro settlement hmem
      rcases List.mem_append.mp hmem with hmem | hmem
      · exact hsettled settlement hmem
      · obtain ⟨pending, -, rfl⟩ := List.mem_map.mp hmem
        exact .inl rfl

theorem NativeSession.Intact.fail (h : session.Intact) (message : String) :
    (session.fail message).Intact :=
  intact_fail message h.order fun settlement hmem => (h.settled settlement hmem).failed

theorem NativeSession.Intact.request (h : session.Intact) (input : RequestInput) :
    (session.request input).Intact := by
  rw [NativeSession.request]
  split
  · exact h
  next hidle =>
  rw [Bool.or_eq_true, not_or, Bool.not_eq_true, Bool.not_eq_true, Option.isSome_eq_false_iff,
    Option.isSome_eq_false_iff, Option.isNone_iff_eq_none, Option.isNone_iff_eq_none] at hidle
  obtain ⟨hfailure, hpending⟩ := hidle
  dsimp only
  split
  · exact
      { order := h.order
        settled := h.settled
        expected := h.expected
        unsolicited := h.unsolicited
        kept := h.kept }
  · refine
      { order := ?_
        settled := h.settled
        expected := fun _ pending _ => .inl (show 0 < headerBytes by decide)
        unsolicited := fun _ hnone => ?_
        kept := fun _ _ _ => h.unsolicited hfailure hpending }
    · show session.requests ++ [_] = session.settlements.map Settlement.pending ++ [_]
      rw [h.order, hpending, Option.toList_none, List.append_nil]
    · exact absurd hnone (Option.some_ne_none _)

theorem invalidResponse_eq_false {maxBytes : Nat} {pending : HelperRequest} {header : FrameHeader} :
    NativeSession.invalidResponse maxBytes pending header = false ↔
      header = responseHeader pending header.limit header.payloadLength ∧
        header.payloadLength ≤ maxBytes := by
  simp only [NativeSession.invalidResponse, Bool.or_eq_false_iff, decide_eq_false_iff_not, ne_eq,
    not_not, gt_iff_lt, not_lt, and_assoc]
  constructor
  · rintro ⟨hmagic, hversion, hoperation, hrequest, hname, hauxiliary, hreserved, hlength⟩
    refine ⟨?_, hlength⟩
    rw [responseHeader, ← hmagic, ← hversion, ← hoperation, ← hrequest]
    cases header
    dsimp only at hname hauxiliary hreserved ⊢
    rw [hname, hauxiliary, hreserved]
  · rintro ⟨hheader, hlength⟩
    refine ⟨?_, ?_, ?_, ?_, ?_, ?_, ?_, hlength⟩
    all_goals rw [hheader]; rfl

/-- What a response is taken from is its frame. -/
theorem eq_responseFrame {maxBytes : Nat} {pending : HelperRequest} {bytes : List UInt8}
    (hvalid : NativeSession.invalidResponse maxBytes pending (FrameHeader.load bytes) = false)
    (hlength : headerBytes + (FrameHeader.load bytes).payloadLength ≤ bytes.length) :
    bytes = responseFrame pending (FrameHeader.load bytes).limit
        ((bytes.drop headerBytes).take (FrameHeader.load bytes).payloadLength) ++
      bytes.drop (headerBytes + (FrameHeader.load bytes).payloadLength) := by
  obtain ⟨hheader, -⟩ := invalidResponse_eq_false.mp hvalid
  have hpayload : ((bytes.drop headerBytes).take (FrameHeader.load bytes).payloadLength).length =
      (FrameHeader.load bytes).payloadLength := by
    rw [List.length_take, List.length_drop]
    omega
  have htake : (bytes.take headerBytes).length = headerBytes := by
    rw [List.length_take]
    omega
  have hload : FrameHeader.load (bytes.take headerBytes) = FrameHeader.load bytes := by
    have := FrameHeader.load_append htake.ge (bytes.drop headerBytes)
    rw [List.take_append_drop] at this
    exact this.symm
  have hencode := FrameHeader.encode_load htake
  rw [hload] at hencode
  rw [responseFrame, hpayload, ← hheader, hencode, List.append_assoc, ← List.drop_drop,
    List.take_append_drop, List.take_append_drop]

theorem NativeSession.Intact.consume (h : session.Intact) (chunk : List UInt8)
    (hchunk : NoFragment session (.data chunk)) : (session.consume chunk).Intact := by
  rw [NativeSession.consume]
  split
  · exact h
  next hfailed =>
  have hfailure : session.failure = none := Option.not_isSome_iff_eq_none.mp hfailed
  have hsettled : ∀ settlement ∈ session.settlements,
      settlement.Faithful session.maxBytes true :=
    fun settlement hmem => (h.settled settlement hmem).failed
  dsimp only
  split
  · -- the header is not complete
    next hshort =>
    refine
      { order := h.order
        settled := h.settled
        expected := fun _ pending hpending => .inl ?_
        unsolicited := fun _ hnone => ?_
        kept := fun _ pending hpending => ?_ }
    · show (session.sinceRequest ++ chunk).length < headerBytes
      rwa [← h.kept hfailure pending hpending]
    · have hbuffer := h.unsolicited hfailure hnone
      show session.buffer ++ chunk = []
      rw [hbuffer, List.nil_append] at hshort ⊢
      exact (hchunk hfailure hnone).resolve_right (Nat.not_le_of_lt hshort)
    · show session.buffer ++ chunk = session.sinceRequest ++ chunk
      rw [h.kept hfailure pending hpending]
  next hlong =>
  split
  · exact intact_fail _ h.order hsettled
  next pending hpending =>
  have hkept : session.buffer ++ chunk = session.sinceRequest ++ chunk := by
    rw [h.kept hfailure pending hpending]
  have horder : session.requests = session.settlements.map Settlement.pending ++ [pending] := by
    rw [h.order, hpending]
    rfl
  split
  · refine intact_fail _ ?_ hsettled
    show session.requests = session.settlements.map Settlement.pending ++ session.pending.toList
    exact h.order
  next hvalid =>
  rw [Bool.not_eq_true] at hvalid
  split
  · -- the payload is not complete
    next hpayload =>
    refine
      { order := h.order
        settled := h.settled
        expected := fun _ pending' hpending' => .inr ?_
        unsolicited := fun _ hnone => ?_
        kept := fun _ _ _ => hkept }
    · rw [show session.pending = some pending' from hpending', Option.some.injEq] at hpending
      show NativeSession.invalidResponse session.maxBytes pending'
          (FrameHeader.load (session.sinceRequest ++ chunk)) = false ∧
        (session.sinceRequest ++ chunk).length <
          headerBytes + (FrameHeader.load (session.sinceRequest ++ chunk)).payloadLength
      rw [← hkept, hpending]
      exact ⟨hvalid, hpayload⟩
    · rw [show session.pending = none from hnone] at hpending
      cases hpending
  · -- the response is complete
    next hcomplete =>
    have hbytes := eq_responseFrame hvalid (Nat.le_of_not_lt hcomplete)
    have hlength := (invalidResponse_eq_false.mp hvalid).2
    have hfaithful : ∀ failed : Bool, ((session.buffer ++ chunk).drop
        (headerBytes + (FrameHeader.load (session.buffer ++ chunk)).payloadLength) ≠ [] →
          failed = true) →
        Settlement.Faithful session.maxBytes failed ⟨pending, session.sinceRequest ++ chunk,
          if (FrameHeader.load (session.buffer ++ chunk)).limit = 0 then
            .resolved (((session.buffer ++ chunk).drop headerBytes).take
              (FrameHeader.load (session.buffer ++ chunk)).payloadLength)
          else .rejected (FrameHeader.load (session.buffer ++ chunk)).limit⟩ := by
      intro failed hextra
      refine .inr ⟨_, _, _, hkept.symm.trans hbytes, ?_, rfl, hextra⟩
      rw [List.length_take]
      exact (Nat.min_le_left _ _).trans hlength
    split
    · -- what follows it is not expected
      refine intact_fail _ ?_ ?_
      · show session.requests = (session.settlements ++ [_]).map Settlement.pending ++ []
        rw [List.append_nil, List.map_append, horder]
        rfl
      · intro settlement hmem
        rcases List.mem_append.mp hmem with hmem | hmem
        · exact hsettled settlement hmem
        · rw [List.mem_singleton.mp hmem]
          exact hfaithful true fun _ => rfl
    · next hextra =>
      rw [ne_eq, not_not] at hextra
      refine
        { order := ?_
          settled := ?_
          expected := fun _ pending hpending => absurd hpending (by simp)
          unsolicited := fun _ _ => hextra
          kept := fun _ pending hpending => absurd hpending (by simp) }
      · show session.requests = (session.settlements ++ [_]).map Settlement.pending ++ []
        rw [List.append_nil, List.map_append, horder]
        rfl
      · intro settlement hmem
        rcases List.mem_append.mp hmem with hmem | hmem
        · exact h.settled settlement hmem
        · rw [List.mem_singleton.mp hmem]
          exact hfaithful _ fun hne => absurd hextra hne

/-- A run without fragments keeps the invariant. -/
theorem intact_of_reachable {maxBytes : Nat}
    (h : (nativeSession maxBytes).ReachableWhile NoFragment session) : session.Intact := by
  refine h.invariant ?_ ?_
  · rintro s rfl
    exact
      { order := rfl
        settled := fun settlement hmem => absurd hmem List.not_mem_nil
        expected := fun _ pending hpending => absurd hpending (by simp)
        unsolicited := fun _ _ => rfl
        kept := fun _ pending hpending => absurd hpending (by simp) }
  · rintro s event s' hs hok hstep
    cases hstep
    cases event with
    | request input => exact hs.request input
    | data chunk => exact hs.consume chunk hok
    | inputFailed => exact hs.fail _
    | terminated =>
      show s.terminated.Intact
      rw [NativeSession.terminated]
      split
      · exact hs
      · exact hs.fail _

/-! ### A response in pieces -/

/-- Data after data. -/
def NativeSession.consumeAll (session : NativeSession) (chunks : List (List UInt8)) : NativeSession :=
  chunks.foldl NativeSession.consume session

/-- The session after a response. -/
def NativeSession.settledBy (session : NativeSession) (pending : HelperRequest) (errorCode : Nat)
    (payload : List UInt8) : NativeSession :=
  { session with
    buffer := []
    pending := none
    sinceRequest := responseFrame pending errorCode payload
    closeAcknowledged := session.closeAcknowledged ||
      (pending.operation = .close && errorCode = 0)
    settlements := session.settlements ++ [⟨pending, responseFrame pending errorCode payload,
      if errorCode = 0 then .resolved payload else .rejected errorCode⟩] }

theorem load_responseFrame {pending : HelperRequest} {errorCode : Nat} {payload : List UInt8}
    (hnumber : pending.request < 2 ^ 32) (herror : errorCode < 2 ^ 32)
    (hpayload : payload.length < 2 ^ 32) :
    FrameHeader.load (responseFrame pending errorCode payload) =
      responseHeader pending errorCode payload.length := by
  refine FrameHeader.load_encode ?_ payload
  have hzero : (0 : Nat) < 2 ^ 32 := by decide
  refine ⟨?_, ?_, ?_, hnumber, hzero, hzero, hpayload, herror, hzero⟩
  · show protocolMagic < 2 ^ 32
    decide
  · show protocolVersion < 2 ^ 16
    decide
  · show pending.operation.code ||| responseFlag < 2 ^ 16
    cases pending.operation <;> decide

theorem length_responseFrame (pending : HelperRequest) (errorCode : Nat) (payload : List UInt8) :
    (responseFrame pending errorCode payload).length = headerBytes + payload.length := by
  rw [responseFrame, List.length_append, FrameHeader.length_encode]

/-- A beginning of a response is kept. -/
theorem consume_begins {pending : HelperRequest} {errorCode : Nat} {payload chunk rest : List UInt8}
    (hfailure : session.failure = none) (hpending : session.pending = some pending)
    (hkept : session.buffer = session.sinceRequest) (hnumber : pending.request < 2 ^ 32)
    (herror : errorCode < 2 ^ 32) (hmax : payload.length ≤ session.maxBytes)
    (hpayload : payload.length < 2 ^ 32) (hne : rest ≠ [])
    (h : session.buffer ++ chunk ++ rest = responseFrame pending errorCode payload) :
    session.consume chunk = { session with
      buffer := session.buffer ++ chunk, sinceRequest := session.buffer ++ chunk } := by
  have hpos := List.length_pos_iff.mpr hne
  have hlength : (session.buffer ++ chunk).length + rest.length = headerBytes + payload.length := by
    rw [← List.length_append, h, length_responseFrame]
  rw [NativeSession.consume, if_neg (by rw [hfailure]; exact Bool.false_ne_true)]
  dsimp only
  split
  · rw [← hkept]
  next hlong =>
  have hload : FrameHeader.load (session.buffer ++ chunk) =
      responseHeader pending errorCode payload.length := by
    rw [← load_responseFrame hnumber herror hpayload, ← h,
      FrameHeader.load_append (Nat.le_of_not_lt hlong)]
  have hvalid : NativeSession.invalidResponse session.maxBytes pending
      (FrameHeader.load (session.buffer ++ chunk)) = false := by
    rw [hload]
    exact invalidResponse_eq_false.mpr ⟨rfl, hmax⟩
  rw [hpending]
  dsimp only
  rw [hvalid, if_neg Bool.false_ne_true, if_pos, ← hkept]
  rw [hload]
  show (session.buffer ++ chunk).length < headerBytes + payload.length
  omega

/-- The end of a response settles the request. -/
theorem consume_ends {pending : HelperRequest} {errorCode : Nat} {payload chunk : List UInt8}
    (hfailure : session.failure = none) (hpending : session.pending = some pending)
    (hkept : session.buffer = session.sinceRequest) (hnumber : pending.request < 2 ^ 32)
    (herror : errorCode < 2 ^ 32) (hmax : payload.length ≤ session.maxBytes)
    (hpayload : payload.length < 2 ^ 32)
    (h : session.buffer ++ chunk = responseFrame pending errorCode payload) :
    session.consume chunk = session.settledBy pending errorCode payload := by
  have hlength : (session.buffer ++ chunk).length = headerBytes + payload.length := by
    rw [h, length_responseFrame]
  rw [NativeSession.consume, if_neg (by rw [hfailure]; exact Bool.false_ne_true), ← hkept]
  dsimp only
  rw [if_neg (by omega), hpending]
  dsimp only
  rw [h, load_responseFrame hnumber herror hpayload,
    invalidResponse_eq_false.mpr ⟨rfl, hmax⟩, if_neg Bool.false_ne_true]
  have hdrop : (responseFrame pending errorCode payload).drop headerBytes = payload :=
    List.drop_left' (FrameHeader.length_encode _)
  have hall : (responseFrame pending errorCode payload).drop
      (headerBytes + (responseHeader pending errorCode payload.length).payloadLength) = [] := by
    rw [← List.drop_drop, hdrop]
    exact List.drop_length
  have htake : payload.take (responseHeader pending errorCode payload.length).payloadLength =
      payload := List.take_length
  rw [if_neg, hall, if_neg (by simp), hdrop, htake]
  · rfl
  · rw [length_responseFrame]
    exact Nat.lt_irrefl _

/-- **However a response is cut**, its pieces settle the request. -/
theorem consumeAll_responseFrame {pending : HelperRequest} {errorCode : Nat} {payload : List UInt8}
    {chunks : List (List UInt8)} (hfailure : session.failure = none)
    (hpending : session.pending = some pending) (hkept : session.buffer = session.sinceRequest)
    (hnumber : pending.request < 2 ^ 32) (herror : errorCode < 2 ^ 32)
    (hmax : payload.length ≤ session.maxBytes) (hpayload : payload.length < 2 ^ 32)
    (hshort : session.buffer.length < headerBytes)
    (h : session.buffer ++ chunks.flatten = responseFrame pending errorCode payload) :
    session.consumeAll chunks = session.settledBy pending errorCode payload := by
  have hframe : session.buffer ≠ responseFrame pending errorCode payload := by
    intro heq
    have := congrArg List.length heq
    rw [length_responseFrame] at this
    omega
  clear hshort
  induction chunks generalizing session with
  | nil =>
    rw [List.flatten_nil, List.append_nil] at h
    exact absurd h hframe
  | cons chunk chunks ih =>
    rw [List.flatten_cons, ← List.append_assoc] at h
    show (session.consume chunk).consumeAll chunks = _
    by_cases hrest : chunks.flatten = []
    · -- the pieces that are left are empty
      rw [hrest, List.append_nil] at h
      rw [consume_ends hfailure hpending hkept hnumber herror hmax hpayload h]
      have hempty : ∀ chunk ∈ chunks, chunk = [] := List.flatten_eq_nil_iff.mp hrest
      clear h hrest ih
      induction chunks with
      | nil => rfl
      | cons next chunks ih =>
        show ((session.settledBy pending errorCode payload).consume next).consumeAll chunks = _
        have hnext : next = [] := hempty next List.mem_cons_self
        have hsame : (session.settledBy pending errorCode payload).consume next =
            session.settledBy pending errorCode payload := by
          rw [hnext, NativeSession.consume]
          rw [if_neg (by rw [NativeSession.settledBy, hfailure]; exact Bool.false_ne_true)]
          dsimp only [NativeSession.settledBy]
          rw [List.append_nil, List.append_nil, if_pos (show [].length < headerBytes by decide)]
        rw [hsame]
        exact ih fun chunk hmem => hempty chunk (List.mem_cons_of_mem _ hmem)
    · rw [consume_begins hfailure hpending hkept hnumber herror hmax hpayload hrest h]
      refine (@ih { session with
        buffer := session.buffer ++ chunk, sinceRequest := session.buffer ++ chunk } hfailure
          hpending rfl hmax h ?_).trans rfl
      intro heq
      have hwhole : session.buffer ++ chunk = responseFrame pending errorCode payload := heq
      rw [← hwhole, List.append_right_eq_self] at h
      exact hrest h

/-- Nothing but a request numbers one. -/
structure Follows (session session' : NativeSession) : Prop where
  maxBytes : session'.maxBytes = session.maxBytes
  nextRequest : session'.nextRequest = session.nextRequest
  pending : session'.pending = none ∨ session'.pending = session.pending

theorem follows_fail (session : NativeSession) (message : String) :
    Follows session (session.fail message) := by
  rw [NativeSession.fail]
  split
  · exact ⟨rfl, rfl, .inr rfl⟩
  · exact ⟨rfl, rfl, .inl rfl⟩

theorem follows_consume (session : NativeSession) (chunk : List UInt8) :
    Follows session (session.consume chunk) := by
  rw [NativeSession.consume]
  split
  · exact ⟨rfl, rfl, .inr rfl⟩
  dsimp only
  split
  · exact ⟨rfl, rfl, .inr rfl⟩
  split
  · have h := follows_fail { session with
      buffer := session.buffer ++ chunk
      sinceRequest := session.sinceRequest ++ chunk }
      "invalid anchored private-state protocol response"
    exact ⟨h.maxBytes, h.nextRequest, h.pending⟩
  split
  · have h := follows_fail { session with
      buffer := session.buffer ++ chunk
      sinceRequest := session.sinceRequest ++ chunk }
      "invalid anchored private-state protocol response"
    exact ⟨h.maxBytes, h.nextRequest, h.pending⟩
  split
  · exact ⟨rfl, rfl, .inr rfl⟩
  split
  · rw [NativeSession.fail]
    split
    · exact ⟨rfl, rfl, .inl rfl⟩
    · exact ⟨rfl, rfl, .inl rfl⟩
  · exact ⟨rfl, rfl, .inl rfl⟩

/-- The numbers of a session fit their places. -/
structure Numbered (maxBytes : Nat) (session : NativeSession) : Prop where
  maxBytes : session.maxBytes = maxBytes
  nextRequest : 1 ≤ session.nextRequest ∧ session.nextRequest ≤ 0xffffffff
  pending : ∀ pending, session.pending = some pending → pending.request ≤ 0xffffffff

theorem Numbered.follows {maxBytes : Nat} (h : Numbered maxBytes session)
    (hfollows : Follows session session') : Numbered maxBytes session' where
  maxBytes := hfollows.maxBytes.trans h.maxBytes
  nextRequest := by
    rw [hfollows.nextRequest]
    exact h.nextRequest
  pending := by
    intro pending hpending
    rcases hfollows.pending with hnone | hsame
    · rw [hnone] at hpending
      cases hpending
    · exact h.pending pending (hsame ▸ hpending)

theorem numbered_of_reachable {maxBytes : Nat} (h : (nativeSession maxBytes).Reachable session) :
    Numbered maxBytes session := by
  refine h.invariant ?_ ?_
  · rintro s rfl
    exact ⟨rfl, ⟨le_rfl, show 1 ≤ 0xffffffff by decide⟩,
      fun pending hpending => absurd hpending (by simp)⟩
  · rintro s event s' hs hstep
    cases hstep
    cases event with
    | request input =>
      show Numbered maxBytes (s.request input)
      rw [NativeSession.request]
      split
      · exact hs
      dsimp only
      split
      · exact ⟨hs.maxBytes, nextRequest_range hs.nextRequest, hs.pending⟩
      · refine ⟨hs.maxBytes, nextRequest_range hs.nextRequest, fun pending hpending => ?_⟩
        cases hpending
        exact hs.nextRequest.2
    | data chunk => exact hs.follows (follows_consume s chunk)
    | inputFailed => exact hs.follows (follows_fail s _)
    | terminated =>
      show Numbered maxBytes s.terminated
      rw [NativeSession.terminated]
      split
      · exact hs
      · exact hs.follows (follows_fail s _)

/-- **Main theorem.** What the calls of a session write is what the helper's loop carries out, by the
    same numbers, none of which is zero. In every run in which no fragment of a header comes while no
    request is pending, the session is faithful; and a response settles its request however it is
    cut. -/
theorem anchored_protocol {maxBytes : Nat} (hpos : 1 ≤ maxBytes) (hmax : maxBytes ≤ 1000000) :
    (∀ (request : Nat) (name : CodeUnits) (calls : List AnchoredCall) (inputs : List RequestInput),
      1 ≤ request ∧ request ≤ 0xffffffff → (∀ call ∈ calls, call.isMiddle = true) →
      (AnchoredCall.acquireWriterLock name :: (calls ++ [AnchoredCall.close])).mapM
        (AnchoredCall.request maxBytes) = .ok inputs →
      (∃ bytes, sendCalls maxBytes request
          (.acquireWriterLock name :: (calls ++ [.close])) = .ok bytes ∧
        ∀ rest, serve (bytes ++ rest) = (sessionCommands request inputs, .closed rest)) ∧
      ∀ n ∈ requestNumbers request inputs.length, n ≠ 0) ∧
    (∀ session, (nativeSession maxBytes).ReachableWhile NoFragment session → session.Faithful) ∧
    ∀ session, (nativeSession maxBytes).ReachableWhile NoFragment session →
      session.failure = none → session.sinceRequest = [] →
      ∀ pending errorCode payload (chunks : List (List UInt8)),
        session.pending = some pending → errorCode < 2 ^ 32 → payload.length ≤ maxBytes →
        chunks.flatten = responseFrame pending errorCode payload →
        session.consumeAll chunks = session.settledBy pending errorCode payload := by
  refine ⟨?_, fun session h => (intact_of_reachable h).toFaithful, ?_⟩
  · intro request name calls inputs hrange hmiddle hinputs
    refine ⟨serve_sendCalls hpos hmax hrange hmiddle hinputs, fun n hn => ?_⟩
    have := requestNumbers_range hrange n hn
    omega
  · intro session h hfailure hsince pending errorCode payload chunks hpending herror hpayload hchunks
    have hintact := intact_of_reachable h
    have hnumbered := numbered_of_reachable h.reachable
    have hkept := hintact.kept hfailure pending hpending
    have hbuffer : session.buffer = [] := hkept.trans hsince
    have hnumber := hnumbered.pending pending hpending
    refine consumeAll_responseFrame hfailure hpending hkept (by omega) herror ?_ (by omega) ?_ ?_
    · rwa [hnumbered.maxBytes]
    · rw [hbuffer]
      decide
    · rw [hbuffer, List.nil_append, hchunks]

/-- A session whose numbers wrap. -/
theorem anchored_protocol_wraps : ∃ bytes,
    sendCalls 1000000 0xffffffff [.acquireWriterLock (units "lock"),
      .readFileBounded (units "state.json") (some 2000000), .close] = .ok bytes ∧
    ∀ rest, serve (bytes ++ rest) =
      ([(0xffffffff, .acquire (asciiBytes (units "lock"))),
        (1, .read (asciiBytes (units "state.json")) 1000000), (2, .close)], .closed rest) :=
  ((anchored_protocol (by decide) le_rfl).1 0xffffffff (units "lock")
    [.readFileBounded (units "state.json") (some 2000000)]
    [{ operation := .acquire, name := units "lock" },
      { operation := .read, name := units "state.json", limit := 1000000 }, { operation := .close }]
    (by decide) (by decide) rfl).1

/-! ### A fragment of a header -/

/-- The response to an `assert` with a number. -/
def assertResponse (request : Nat) : List UInt8 := responseFrame ⟨.assert, request⟩ 0 []

/-- A session whose second request is answered before it is made, but for the last byte. -/
def earlyAnswer : List SessionEvent :=
  [.request { operation := .assert }, .data (assertResponse 1),
    .data ((assertResponse 2).take 31), .request { operation := .assert },
    .data ((assertResponse 2).drop 31)]

/-- The session after it. -/
def earlySession : NativeSession where
  maxBytes := 1000000
  nextRequest := 3
  requests := [⟨.assert, 1⟩, ⟨.assert, 2⟩]
  settlements := [⟨⟨.assert, 1⟩, assertResponse 1, .resolved []⟩,
    ⟨⟨.assert, 2⟩, (assertResponse 2).drop 31, .resolved []⟩]
  sinceRequest := (assertResponse 2).drop 31

/-- A response that came before its request settles the request. -/
theorem early_answer : (nativeSession 1000000).Reachable earlySession ∧
    earlySession.failure = none ∧ ¬ earlySession.Faithful := by
  have hrun : (nativeSession 1000000).run { maxBytes := 1000000 } earlyAnswer =
      some earlySession := by rfl
  refine ⟨.ofRun (.ofInit rfl) hrun, rfl, fun h => ?_⟩
  have hsettled := h.settled ⟨⟨.assert, 2⟩, (assertResponse 2).drop 31, .resolved []⟩
    (List.mem_cons_of_mem _ List.mem_cons_self)
  rcases hsettled with hfailed | ⟨errorCode, payload, extra, hbytes, -, -, -⟩
  · cases hfailed
  · have hlength := congrArg List.length hbytes
    rw [List.length_append, length_responseFrame, List.length_drop, assertResponse,
      length_responseFrame] at hlength
    have hheader : headerBytes = 32 := rfl
    rw [hheader, List.length_nil] at hlength
    omega

end AgentHost
