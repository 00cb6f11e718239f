import AgentHost.Adapters.CodexWebSocketWire
import AgentHost.Lib.StreamParser

namespace AgentHost

/-!
# Chunks of the websocket wire

What the wire does depends on the bytes that arrive, not on how they are cut.

* `boundaryIndex_append`, `nextFrame_append` — what is decided stays decided when more arrives.
* `WebSocketWire.parser` — the handshake and the frames as a parser of items.
* `WebSocketWire.receive_eq_feed` — the wire feeds its chunks to that parser.
* `WebSocketWire.receive_chunks` — only the concatenation of the chunks matters.
-/

namespace WebSocketWire

variable {w : WebSocketWire} {bytes more rest : List UInt8} {error : String}

/-! ### More bytes -/

theorem boundaryIndex_length {i : Nat} (h : boundaryIndex bytes = some i) :
    i + 4 ≤ bytes.length := by
  induction bytes generalizing i with
  | nil => cases h
  | cons b bs ih =>
    unfold boundaryIndex at h
    split at h
    · next hprefix =>
      obtain rfl := Option.some.inj h
      have hle := (List.isPrefixOf_iff_prefix.mp hprefix).length_le
      exact hle
    · obtain ⟨j, hj, rfl⟩ := Option.map_eq_some_iff.mp h
      have hle := ih hj
      rw [List.length_cons]
      omega

theorem isPrefixOf_append (more : List UInt8) {l : List UInt8} (h : 4 ≤ l.length) :
    handshakeBoundary.isPrefixOf (l ++ more) = handshakeBoundary.isPrefixOf l := by
  match l, h with
  | a :: b :: c :: d :: l, _ => rfl

/-- The first boundary stays the first one. -/
theorem boundaryIndex_append {i : Nat} (h : boundaryIndex bytes = some i) :
    boundaryIndex (bytes ++ more) = some i := by
  induction bytes generalizing i with
  | nil => cases h
  | cons b bs ih =>
    have hlength := boundaryIndex_length h
    have hsame := isPrefixOf_append more (l := b :: bs) (by omega)
    unfold boundaryIndex at h
    rw [List.cons_append, boundaryIndex, ← List.cons_append, hsame]
    split at h
    · next hprefix => rw [if_pos hprefix, h]
    · next hprefix =>
      obtain ⟨j, hj, rfl⟩ := Option.map_eq_some_iff.mp h
      rw [if_neg hprefix, ih hj]
      rfl

/-- A boundary that was not there ends in what is new. -/
theorem boundaryIndex_append_of_none {i : Nat} (hnone : boundaryIndex bytes = none)
    (h : boundaryIndex (bytes ++ more) = some i) : bytes.length < i + 4 := by
  induction bytes generalizing i with
  | nil => exact Nat.succ_pos _
  | cons b bs ih =>
    unfold boundaryIndex at hnone
    split at hnone
    · cases hnone
    next hprefix =>
    rw [List.cons_append, boundaryIndex] at h
    split at h
    · next hnow =>
      -- the boundary would have been a prefix of four bytes that had arrived
      by_contra hle
      rw [← List.cons_append, isPrefixOf_append _ (by omega)] at hnow
      exact hprefix hnow
    · obtain ⟨j, hj, rfl⟩ := Option.map_eq_some_iff.mp h
      have hlt := ih (Option.map_eq_none_iff.mp hnone) hj
      rw [List.length_cons]
      omega

/-- An outcome that later bytes do not change. -/
theorem consumeHandshake_append
    {outcome : Except String (Option WebSocketWire)}
    (h : { w with buffer := bytes }.consumeHandshake = outcome) (hdone : outcome ≠ .ok none) :
    { w with buffer := bytes ++ more }.consumeHandshake
      = outcome.map (Option.map fun next => { next with buffer := next.buffer ++ more }) := by
  unfold consumeHandshake at h ⊢
  dsimp only at h ⊢
  cases hindex : boundaryIndex bytes with
  | some i =>
    rw [hindex] at h
    rw [boundaryIndex_append hindex]
    dsimp only at h ⊢
    have hlength := boundaryIndex_length hindex
    split at h
    · next hlarge =>
      rw [if_pos hlarge, ← h]
      rfl
    · next hlarge =>
      rw [if_neg hlarge, List.take_append_of_le_length (by omega)]
      rw [List.drop_append_of_le_length (by omega)]
      have hsame : { w with buffer := bytes ++ more }.checkResponse
          = { w with buffer := bytes }.checkResponse := rfl
      rw [hsame]
      cases hcheck : { w with buffer := bytes }.checkResponse
          (Utf8.decodeLossy (bytes.take i)) with
      | error error => rw [hcheck] at h; rw [← h]; rfl
      | ok _ => rw [hcheck] at h; rw [← h]; rfl
  | none =>
    rw [hindex] at h
    dsimp only at h
    split at h
    · next hlarge =>
      -- without its boundary the response is too large already, and will be with it
      have hlonger : (bytes ++ more).length > maxHandshakeBytes := by
        rw [List.length_append]
        omega
      cases hmore : boundaryIndex (bytes ++ more) with
      | none =>
        dsimp only
        rw [if_pos hlonger, ← h]
        rfl
      | some i =>
        have hlt := boundaryIndex_append_of_none hindex hmore
        dsimp only
        rw [if_pos (by omega), ← h]
        rfl
    · exact absurd h.symm hdone

theorem frameLength_append (more : List UInt8) {second : UInt8}
    {outcome : Except String (Option (Nat × Nat))}
    (h : { w with buffer := bytes }.frameLength second = outcome) (hdone : outcome ≠ .ok none) :
    { w with buffer := bytes ++ more }.frameLength second = outcome := by
  have hread : ∀ n, 2 + n ≤ bytes.length →
      ((bytes ++ more).drop 2).take n = (bytes.drop 2).take n := by
    intro n hn
    rw [List.drop_append_of_le_length (by omega),
      List.take_append_of_le_length (by rw [List.length_drop]; omega)]
  unfold frameLength at h ⊢
  dsimp only at h ⊢
  split at h
  · next h126 =>
    rw [if_pos h126]
    split at h
    · exact absurd h.symm hdone
    · rw [if_neg (by rw [List.length_append]; omega), hread 2 (by omega)]
      exact h
  · next h126 =>
    rw [if_neg h126]
    split at h
    · next h127 =>
      rw [if_pos h127]
      split at h
      · exact absurd h.symm hdone
      · rw [if_neg (by rw [List.length_append]; omega), hread 8 (by omega)]
        exact h
    · next h127 =>
      rw [if_neg h127]
      exact h

/-- A frame, or an error of its header, that later bytes do not change. -/
theorem nextFrame_append {outcome : Except String (Option (WireFrame × List UInt8))}
    (h : { w with buffer := bytes }.nextFrame = outcome) (hdone : outcome ≠ .ok none) :
    { w with buffer := bytes ++ more }.nextFrame
      = outcome.map (Option.map fun taken => (taken.1, taken.2 ++ more)) := by
  match bytes, h with
  | [], h | [_], h => exact absurd h.symm hdone
  | first :: second :: tail, h =>
    unfold nextFrame at h ⊢
    dsimp only [List.cons_append] at h ⊢
    split at h
    · next hrsv => rw [if_pos hrsv, ← h]; rfl
    next hrsv =>
    rw [if_neg hrsv]
    split at h
    · next hmask => rw [if_pos hmask, ← h]; rfl
    next hmask =>
    rw [if_neg hmask]
    cases hlength : { w with buffer := first :: second :: tail }.frameLength second with
    | error error =>
      have hmore := frameLength_append more hlength (by simp)
      rw [List.cons_append, List.cons_append] at hmore
      rw [hlength] at h
      rw [hmore, ← h]
      rfl
    | ok result =>
      cases result with
      | none =>
        rw [hlength] at h
        exact absurd h.symm hdone
      | some pair =>
        have hmore := frameLength_append more hlength (by simp)
        rw [List.cons_append, List.cons_append] at hmore
        rw [hlength] at h
        rw [hmore]
        dsimp only at h ⊢
        split at h
        · next hlarge => rw [if_pos hlarge, ← h]; rfl
        next hlarge =>
        rw [if_neg hlarge]
        split at h
        · exact absurd h.symm hdone
        · next hall =>
          have hle : pair.2 + pair.1 ≤ (first :: second :: tail).length := Nat.not_lt.mp hall
          rw [if_neg (by
            rw [← List.cons_append, ← List.cons_append, List.length_append]
            omega), ← h]
          rw [← List.cons_append, ← List.cons_append,
            List.drop_append_of_le_length (by omega), List.drop_append_of_le_length hle,
            List.take_append_of_le_length (by rw [List.length_drop]; omega)]
          rfl

theorem nextFrame_length {frame : WireFrame}
    (h : { w with buffer := bytes }.nextFrame = .ok (some (frame, rest))) :
    rest.length < bytes.length := by
  match bytes, h with
  | [], h | [_], h => cases h
  | first :: second :: tail, h =>
    unfold nextFrame at h
    dsimp only at h
    split at h
    · cases h
    split at h
    · cases h
    split at h
    · cases h
    · cases h
    · next length offset hlength =>
      split at h
      · cases h
      split at h
      · cases h
      · -- the header takes two bytes at least
        have hoffset : 2 ≤ offset := by
          unfold frameLength at hlength
          dsimp only at hlength
          split at hlength
          · split at hlength <;> cases hlength
            omega
          split at hlength
          · split at hlength
            · cases hlength
            split at hlength <;> cases hlength
            omega
          · cases hlength
            exact le_refl _
        cases h
        rw [List.length_drop, List.length_cons]
        omega

/-! ### The wire without its buffer -/

/-- A wire with another buffer; a closed one has none. -/
def withBuffer (w : WebSocketWire) (bytes : List UInt8) : WebSocketWire :=
  if w.state = .closed then w else { w with buffer := bytes }

/-- A closed wire keeps nothing of what it was given. -/
def Tidy (w : WebSocketWire) : Prop := w.state = .closed → w.buffer = []

/-- What the steps of a wire have in common: its buffer is only handed on. -/
def BufferFree (act : WebSocketWire → Result) : Prop :=
  ∀ (w : WebSocketWire) (bytes : List UInt8), w.state ≠ .closed →
    act { w with buffer := bytes } = match act { w with buffer := [] } with
      | .ok next => .ok (next.withBuffer bytes)
      | .error (next, error) => .error (next.withBuffer bytes, error)

theorem withBuffer_of_ne (h : w.state ≠ .closed) : w.withBuffer bytes = { w with buffer := bytes } :=
  if_neg h

theorem endMessage_bufferFree (fin : Bool) : BufferFree fun w => w.endMessage fin := by
  rintro ⟨accept, maxPayloadBytes, onMessage, state, buffer, fragments, fragmentBytes, outputs⟩
    bytes hw
  cases state with
  | closed => exact absurd rfl hw
  | handshake | opened =>
    cases fin with
    | false => rfl
    | true =>
      simp only [endMessage, Bool.true_eq_false, if_false, emit, messages]
      cases Utf8.decodeFatal (concatBuffers fragments fragmentBytes) with
      | none => rfl
      | some text =>
        dsimp only
        -- the reaction depends on the messages alone
        cases onMessage (List.filterMap _ (outputs ++ [.message text])) with
        | returns | throws error | closes => rfl

theorem handleFrame_bufferFree (frame : WireFrame) : BufferFree fun w => w.handleFrame frame := by
  rintro ⟨accept, maxPayloadBytes, onMessage, state, buffer, fragments, fragmentBytes, outputs⟩
    bytes hw
  cases state with
  | closed => exact absurd rfl hw
  | handshake | opened =>
    simp only [handleFrame]
    split
    · split
      · rfl
      split
      · rfl
      split
      · rfl
      split <;> rfl
    split
    · rfl
    split
    · split
      · rfl
      · exact endMessage_bufferFree frame.fin ⟨accept, maxPayloadBytes, onMessage, _, buffer,
          [frame.payload], frame.payload.length, outputs⟩ bytes hw
    split
    · split
      · rfl
      · exact endMessage_bufferFree frame.fin ⟨accept, maxPayloadBytes, onMessage, _, buffer,
          fragments ++ [frame.payload], fragmentBytes + frame.payload.length, outputs⟩ bytes hw
    · rfl

/-- A frame that throws leaves the wire to `#fail`: it is not closed. -/
theorem handleFrame_error {frame : WireFrame} (h : w.state = .opened) {next : WebSocketWire}
    (hframe : w.handleFrame frame = .error (next, error)) : next.state = .opened := by
  have hend : ∀ base : WebSocketWire, base.state = .opened →
      base.endMessage frame.fin = .error (next, error) → next.state = .opened := by
    intro base hbase hfail
    unfold endMessage at hfail
    split at hfail
    · cases hfail
    dsimp only at hfail
    split at hfail
    · cases hfail
      exact hbase
    · split at hfail <;> cases hfail
      exact hbase
  unfold handleFrame at hframe
  split at hframe
  · split at hframe
    · cases hframe
      exact h
    split at hframe
    · cases hframe
    split at hframe
    · cases hframe
    split at hframe <;> cases hframe
    exact h
  split at hframe
  · cases hframe
    exact h
  split at hframe
  · split at hframe
    · cases hframe
      exact h
    · exact hend { w with fragments := [frame.payload], fragmentBytes := frame.payload.length } h
        hframe
  split at hframe
  · split at hframe
    · cases hframe
      exact h
    · exact hend { w with
        fragments := w.fragments ++ [frame.payload]
        fragmentBytes := w.fragmentBytes + frame.payload.length } h hframe
  · cases hframe
    exact h

/-! ### The parser -/

/-- One item: the response, a frame, or a byte after the end. -/
def parseItem (w : WebSocketWire) (input : List UInt8) : Option (WebSocketWire × List UInt8) :=
  match w.state with
  | .closed => if input = [] then none else some (w, input.drop 1)
  | .handshake =>
    match { w with buffer := input }.consumeHandshake with
    | .error error => some (w.fail error, input.drop 1)
    | .ok none => none
    | .ok (some next) => some ({ next with buffer := [] }, next.buffer)
  | .opened =>
    match { w with buffer := input }.nextFrame with
    | .error error => some (w.fail error, input.drop 1)
    | .ok none => none
    | .ok (some (frame, rest)) =>
      match { w with buffer := [] }.handleFrame frame with
      | .error (next, error) => some (next.fail error, rest)
      | .ok next => some (next, rest)

theorem parseItem_opened (h : w.state = .opened) (input : List UInt8) :
    parseItem w input = match { w with buffer := input }.nextFrame with
      | .error error => some (w.fail error, input.drop 1)
      | .ok none => none
      | .ok (some (frame, rest)) =>
        match { w with buffer := [] }.handleFrame frame with
        | .error (next, error) => some (next.fail error, rest)
        | .ok next => some (next, rest) := by
  unfold parseItem
  split
  · next hstate => cases h.symm.trans hstate
  · next hstate => cases h.symm.trans hstate
  · rfl

theorem parseItem_handshake (h : w.state = .handshake) (input : List UInt8) :
    parseItem w input = match { w with buffer := input }.consumeHandshake with
      | .error error => some (w.fail error, input.drop 1)
      | .ok none => none
      | .ok (some next) => some ({ next with buffer := [] }, next.buffer) := by
  unfold parseItem
  split
  · next hstate => cases h.symm.trans hstate
  · rfl
  · next hstate => cases h.symm.trans hstate

theorem consumeHandshake_error (h : { w with buffer := bytes }.consumeHandshake = .error error) :
    bytes ≠ [] := by
  rintro rfl
  unfold consumeHandshake at h
  dsimp only [boundaryIndex] at h
  cases h

theorem consumeHandshake_ok {next : WebSocketWire}
    (h : { w with buffer := bytes }.consumeHandshake = .ok (some next)) :
    next.state = .opened ∧ next.buffer.length < bytes.length := by
  unfold consumeHandshake at h
  dsimp only at h
  split at h
  · split at h <;> cases h
  · next i hindex =>
    split at h
    · cases h
    split at h
    · cases h
    · cases h
      have hlength := boundaryIndex_length hindex
      refine ⟨rfl, ?_⟩
      show (bytes.drop (i + 4)).length < _
      rw [List.length_drop]
      omega

theorem nextFrame_error (h : { w with buffer := bytes }.nextFrame = .error error) :
    bytes ≠ [] := by
  rintro rfl
  cases h

theorem length_drop_one (h : bytes ≠ []) : (bytes.drop 1).length < bytes.length := by
  rw [List.length_drop]
  have hpos := List.length_pos_iff.mpr h
  omega

/-- The wire as a parser of its items. -/
def parser : StreamParser WebSocketWire UInt8 where
  step := parseItem
  shrinks := by
    intro w input w' rest h
    unfold parseItem at h
    split at h
    · split at h
      · cases h
      · next hne =>
        cases h
        exact length_drop_one hne
    · split at h
      · next hfail =>
        cases h
        exact length_drop_one (consumeHandshake_error hfail)
      · cases h
      · next hok =>
        cases h
        exact (consumeHandshake_ok hok).2
    · split at h
      · next hfail =>
        cases h
        exact length_drop_one (nextFrame_error hfail)
      · cases h
      · next hok =>
        split at h <;> cases h <;> exact nextFrame_length hok
  stable := by
    intro w input w' rest h more
    have hdrop : ∀ {l : List UInt8}, l ≠ [] → (l ++ more).drop 1 = l.drop 1 ++ more := fun hl =>
      List.drop_append_of_le_length (List.length_pos_iff.mpr hl)
    unfold parseItem at h ⊢
    split at h
    · next hstate =>
      split at h
      · cases h
      · next hne =>
        cases h
        rw [if_neg fun hnil => hne (List.append_eq_nil_iff.mp hnil).1, hdrop hne]
    · next hstate =>
      split at h
      · next hfail =>
        cases h
        rw [consumeHandshake_append hfail (by simp), hdrop (consumeHandshake_error hfail)]
        rfl
      · cases h
      · next hok =>
        cases h
        rw [consumeHandshake_append hok (by simp)]
        rfl
    · next hstate =>
      split at h
      · next hfail =>
        cases h
        rw [nextFrame_append hfail (by simp), hdrop (nextFrame_error hfail)]
        rfl
      · cases h
      · next hok =>
        rw [nextFrame_append hok (by simp)]
        dsimp only [Except.map, Option.map]
        split at h <;> cases h <;> rfl

/-! ### Receiving is feeding -/

/-- The wire without its buffer, and its buffer. -/
def view (w : WebSocketWire) : WebSocketWire × List UInt8 := ({ w with buffer := [] }, w.buffer)

theorem view_injective : Function.Injective view := by
  rintro ⟨⟩ ⟨⟩ h
  obtain ⟨hwire, hbuffer⟩ := Prod.mk.inj h
  cases hbuffer
  simpa using hwire

/-- The wire after the `try` block and its `catch`. -/
def caught : Result → WebSocketWire
  | .ok next => next
  | .error (next, error) => next.fail error

theorem fail_of_ne (h : w.state ≠ .closed) (error : String) : w.fail error = { w with
    state := .closed, buffer := [], fragments := [], fragmentBytes := 0,
    outputs := w.outputs ++ [.failed error] } := by
  rw [fail, if_neg h, finish, if_neg h]
  rfl

theorem tidy_fail (h : w.state ≠ .closed) (error : String) : (w.fail error).Tidy := by
  intro _
  rw [fail_of_ne h]

/-- A closed wire drops what arrives. -/
theorem drain_closed (h : w.state = .closed) (input : List UInt8) :
    parser.drain w input = (w, []) := by
  induction input with
  | nil =>
    refine StreamParser.drain_of_none ?_
    show parseItem w [] = none
    unfold parseItem
    rw [h]
    rfl
  | cons b bs ih =>
    refine (StreamParser.drain_of_some ?_).trans ih
    show parseItem w (b :: bs) = some (w, bs)
    unfold parseItem
    rw [h]
    rfl

/-- What a frame leaves the wire in. -/
theorem handleFrame_ok {frame : WireFrame} (h : w.state = .opened) {next : WebSocketWire}
    (hframe : w.handleFrame frame = .ok next) :
    next.state = .opened ∨ next.state = .closed ∧ next.buffer = [] := by
  have hclosed : ∀ (base : WebSocketWire) output, base.state = .opened →
      (base.finish.emit output).state = .closed ∧ (base.finish.emit output).buffer = [] := by
    intro base output hbase
    have hfinish : base.finish = { base with
        state := .closed, buffer := [], fragments := [], fragmentBytes := 0 } :=
      if_neg (by rw [hbase]; exact fun hc => by cases hc)
    rw [hfinish]
    exact ⟨rfl, rfl⟩
  have hend : ∀ base : WebSocketWire, base.state = .opened →
      base.endMessage frame.fin = .ok next →
        next.state = .opened ∨ next.state = .closed ∧ next.buffer = [] := by
    intro base hbase hok
    unfold endMessage at hok
    split at hok
    · cases hok
      exact .inl hbase
    dsimp only at hok
    split at hok
    · cases hok
    · next text htext =>
      split at hok
      · cases hok
        exact .inl hbase
      · cases hok
        unfold close
        have hstate : (({ base with fragments := [], fragmentBytes := 0 } : WebSocketWire).emit
            (.message text)).state = .opened := hbase
        rw [hstate]
        exact .inr (hclosed _ _ hstate)
      · cases hok
  unfold handleFrame at hframe
  split at hframe
  · split at hframe
    · cases hframe
    split at hframe
    · cases hframe
      exact .inr (hclosed (w.emit (.closeSent frame.payload)) _ h)
    split at hframe
    · cases hframe
      exact .inl h
    split at hframe
    · cases hframe
      exact .inl h
    · cases hframe
  split at hframe
  · cases hframe
  split at hframe
  · split at hframe
    · cases hframe
    · exact hend { w with fragments := [frame.payload], fragmentBytes := frame.payload.length } h
        hframe
  split at hframe
  · split at hframe
    · cases hframe
    · exact hend { w with
        fragments := w.fragments ++ [frame.payload]
        fragmentBytes := w.fragmentBytes + frame.payload.length } h hframe
  · cases hframe

/-- A wire that fails is as if it had failed without its buffer. -/
theorem view_fail (h : w.state ≠ .closed) (buffer : List UInt8) (error : String) :
    ({ w with buffer := buffer }.fail error).view = (w.fail error, []) := by
  rw [fail_of_ne h, fail_of_ne (w := { w with buffer := buffer }) h]
  rfl

/-- The loop of `#consumeFrames` takes every frame that is complete. -/
theorem consumeFrames_eq (fuel : Nat) : ∀ w : WebSocketWire, w.state = .opened →
    w.buffer.length ≤ fuel →
      (caught (consumeFrames fuel w)).view = parser.drain { w with buffer := [] } w.buffer ∧
        (caught (consumeFrames fuel w)).Tidy := by
  induction fuel with
  | zero =>
    intro w hstate hfuel
    have hempty : w.buffer = [] := List.eq_nil_of_length_eq_zero (Nat.le_zero.mp hfuel)
    refine ⟨?_, fun hclosed => by cases hstate.symm.trans hclosed⟩
    rw [hempty, StreamParser.drain_of_none]
    · show view w = _
      rw [view, hempty]
    · exact parseItem_opened (w := { w with buffer := [] }) hstate []
  | succ fuel ih =>
    intro w hstate hfuel
    have hne : w.state ≠ .closed := by rw [hstate]; exact fun hc => by cases hc
    have hitem : parser.step { w with buffer := [] } w.buffer = match w.nextFrame with
        | .error error => some ({ w with buffer := [] }.fail error, w.buffer.drop 1)
        | .ok none => none
        | .ok (some (frame, rest)) =>
          match { w with buffer := [] }.handleFrame frame with
          | .error (next, error) => some (next.fail error, rest)
          | .ok next => some (next, rest) :=
      parseItem_opened (w := { w with buffer := [] }) hstate w.buffer
    rw [consumeFrames]
    cases hnext : w.nextFrame with
    | error error =>
      rw [hnext] at hitem
      refine ⟨?_, tidy_fail hne error⟩
      rw [StreamParser.drain_of_some hitem, drain_closed]
      · exact view_fail (w := { w with buffer := [] }) hne w.buffer error
      · rw [fail_of_ne (w := { w with buffer := [] }) hne]
    | ok result =>
      cases result with
      | none =>
        rw [hnext] at hitem
        exact ⟨(StreamParser.drain_of_none hitem).symm, fun hclosed => absurd hclosed hne⟩
      | some taken =>
        obtain ⟨frame, rest⟩ := taken
        rw [hnext] at hitem
        dsimp only at hitem
        have hshorter : rest.length ≤ fuel := by
          have hlt := nextFrame_length (w := w) hnext
          omega
        dsimp only
        have hrest := handleFrame_bufferFree frame w rest hne
        dsimp only at hrest
        rw [hrest]
        cases hframe : { w with buffer := [] }.handleFrame frame with
        | error failure =>
          obtain ⟨next, error⟩ := failure
          have hopened := handleFrame_error (w := { w with buffer := [] }) hstate hframe
          have hnextne : next.state ≠ .closed := by rw [hopened]; exact fun hc => by cases hc
          rw [hframe] at hitem
          dsimp only at hitem ⊢
          rw [withBuffer_of_ne hnextne]
          refine ⟨?_, tidy_fail (w := { next with buffer := rest }) hnextne error⟩
          rw [StreamParser.drain_of_some hitem, drain_closed]
          · exact view_fail hnextne rest error
          · rw [fail_of_ne hnextne]
        | ok next =>
          rw [hframe] at hitem
          dsimp only at hitem ⊢
          rw [StreamParser.drain_of_some hitem]
          obtain hopened | ⟨hclosed, hbuffer⟩ :=
            handleFrame_ok (w := { w with buffer := [] }) hstate hframe
          · have hnextne : next.state ≠ .closed := by rw [hopened]; exact fun hc => by cases hc
            -- the frame was handled without a buffer, so none is left in what it led to
            have hnil : next = { next with buffer := [] } := by
              have hfree := handleFrame_bufferFree frame w [] hne
              dsimp only at hfree
              rw [hframe] at hfree
              have hsame := Except.ok.inj hfree
              rw [withBuffer_of_ne hnextne] at hsame
              exact hsame
            have hgoes : ¬ ({ next with buffer := rest } : WebSocketWire).state ≠ .opened :=
              not_not.mpr hopened
            rw [withBuffer_of_ne hnextne, if_neg hgoes]
            have hloop := ih { next with buffer := rest } hopened hshorter
            rw [hnil]
            exact hloop
          · have hnextclosed : next.withBuffer rest = next := if_pos hclosed
            rw [hnextclosed, if_pos (by rw [hclosed]; exact fun hc => by cases hc),
              drain_closed hclosed]
            refine ⟨?_, fun _ => hbuffer⟩
            show view next = (next, [])
            obtain ⟨_, _, _, _, buffer, _, _, _⟩ := next
            obtain rfl : buffer = [] := hbuffer
            rfl

theorem receive_eq_caught (h : w.state ≠ .closed) (chunk : List UInt8) :
    w.receive chunk = caught ({ w with buffer := w.buffer ++ chunk }.consume) := by
  unfold receive
  rw [if_neg h]
  cases { w with buffer := w.buffer ++ chunk }.consume <;> rfl

theorem consume_opened (h : w.state = .opened) :
    w.consume = consumeFrames w.buffer.length w := by
  unfold consume
  split
  · next hstate => cases h.symm.trans hstate
  · rfl
  · next hstate => cases h.symm.trans hstate

theorem consume_handshake (h : w.state = .handshake) : w.consume = match w.consumeHandshake with
    | .error error => .error (w, error)
    | .ok none => .ok w
    | .ok (some next) => consumeFrames next.buffer.length next := by
  unfold consume
  split
  · rfl
  · next hstate => cases h.symm.trans hstate
  · next hstate => cases h.symm.trans hstate

/-- **Receiving.** A chunk is fed to the parser. -/
theorem receive_eq_feed (h : w.Tidy) (chunk : List UInt8) :
    (w.receive chunk).view = parser.feed w.view chunk ∧ (w.receive chunk).Tidy := by
  show _ = parser.drain { w with buffer := [] } (w.buffer ++ chunk) ∧ _
  by_cases hclosed : w.state = .closed
  · have hbuffer := h hclosed
    have hsame : w.receive chunk = w := if_pos hclosed
    rw [hsame, hbuffer, drain_closed (w := { w with buffer := [] }) hclosed]
    exact ⟨by rw [view, hbuffer], h⟩
  have hne : w.state ≠ .closed := hclosed
  rw [receive_eq_caught hne]
  obtain hstate | hstate : w.state = .opened ∨ w.state = .handshake := by
    cases hstate : w.state with
    | closed => exact absurd hstate hne
    | opened => exact .inl rfl
    | handshake => exact .inr rfl
  · rw [consume_opened (w := { w with buffer := w.buffer ++ chunk }) hstate]
    exact consumeFrames_eq _ { w with buffer := w.buffer ++ chunk } hstate (le_refl _)
  · rw [consume_handshake (w := { w with buffer := w.buffer ++ chunk }) hstate]
    have hitem : parser.step { w with buffer := [] } (w.buffer ++ chunk)
        = match { w with buffer := w.buffer ++ chunk }.consumeHandshake with
          | .error error => some ({ w with buffer := [] }.fail error, (w.buffer ++ chunk).drop 1)
          | .ok none => none
          | .ok (some next) => some ({ next with buffer := [] }, next.buffer) :=
      parseItem_handshake (w := { w with buffer := [] }) hstate (w.buffer ++ chunk)
    cases hresponse : { w with buffer := w.buffer ++ chunk }.consumeHandshake with
    | error error =>
      rw [hresponse] at hitem
      refine ⟨?_, tidy_fail (w := { w with buffer := w.buffer ++ chunk }) hne error⟩
      rw [StreamParser.drain_of_some hitem, drain_closed]
      · exact view_fail (w := { w with buffer := [] }) hne (w.buffer ++ chunk) error
      · rw [fail_of_ne (w := { w with buffer := [] }) hne]
    | ok result =>
      cases result with
      | none =>
        rw [hresponse] at hitem
        exact ⟨(StreamParser.drain_of_none hitem).symm, fun hclosed => absurd hclosed hne⟩
      | some next =>
        rw [hresponse] at hitem
        rw [StreamParser.drain_of_some hitem]
        exact consumeFrames_eq _ next (consumeHandshake_ok hresponse).1 (le_refl _)

/-- **Chunking.** However the bytes are cut, the wire ends up the same. -/
theorem receive_chunks (h : w.Tidy) (hquiet : parser.step { w with buffer := [] } w.buffer = none)
    (chunks : List (List UInt8)) : chunks.foldl receive w = w.receive chunks.flatten := by
  have hfold : ∀ (chunks : List (List UInt8)) (w : WebSocketWire), w.Tidy →
      (chunks.foldl receive w).view = chunks.foldl parser.feed w.view := by
    intro chunks
    induction chunks with
    | nil => exact fun w _ => rfl
    | cons chunk chunks ih =>
      intro w hw
      obtain ⟨hview, htidy⟩ := receive_eq_feed hw chunk
      rw [List.foldl_cons, List.foldl_cons, ih _ htidy, hview]
  apply view_injective
  rw [hfold chunks w h, (receive_eq_feed h _).1]
  have hdrain : w.view = parser.drain { w with buffer := [] } w.buffer :=
    (StreamParser.drain_of_none hquiet).symm
  rw [hdrain, StreamParser.feed_chunks, ← hdrain]
  rfl

end WebSocketWire

end AgentHost
