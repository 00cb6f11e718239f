import AgentHost.Lib.JsonValue
import AgentHost.Lib.Utf8

namespace AgentHost

/-!
# The websocket wire of the Codex control socket

`codex-websocket-wire.js`, from the end of `start` on: the bytes that arrive, the other events of
the two streams, and calls of `close`.

* `WebSocketWire.consumeHandshake` — the response to the upgrade.
* `WebSocketWire.nextFrame`, `handleFrame`, `consumeFrames` — the frames.
* `WebSocketWire.receive` — one chunk.
* `WebSocketWire.step` — the events.

`accept` is the digest of the key that the wire has sent.  An error carries the message of the
source; a callback that throws or closes the wire is a `Reaction` to the messages so far.
-/

/-! ### State -/

inductive WireState
  | handshake
  | opened
  | closed
  deriving DecidableEq

/-- What the wire does that can be seen: the promise of `start` resolves, `onMessage` and `onClose`
    are called, frames are written, or the wire fails and says so to `start` and `onError`. -/
inductive WireOutput
  | opened
  | message (text : List Char)
  | pong (payload : List UInt8)
  | closeSent (payload : List UInt8)
  | closed
  | failed (error : String)
  | closeCalled
  deriving DecidableEq

/-- What `onMessage` does besides taking the message. -/
inductive Reaction
  | returns
  | closes
  | throws (error : String)

structure WebSocketWire where
  accept : List Char
  maxPayloadBytes : Nat
  onMessage : List (List Char) → Reaction
  state : WireState := .handshake
  buffer : List UInt8 := []
  fragments : List (List UInt8) := []
  fragmentBytes : Nat := 0
  outputs : List WireOutput := []

/-- `MAX_HANDSHAKE_BYTES`. -/
def maxHandshakeBytes : Nat := 16 * 1024

/-! ### Bytes and texts -/

/-- `\r\n\r\n`. -/
def handshakeBoundary : List UInt8 := [13, 10, 13, 10]

/-- `indexOf` of the boundary. -/
def boundaryIndex : List UInt8 → Option Nat
  | [] => none
  | b :: bs =>
    if handshakeBoundary.isPrefixOf (b :: bs) then some 0
    else (boundaryIndex bs).map (· + 1)

/-- An unsigned integer, its most significant byte first. -/
def bigEndian (bytes : List UInt8) : Nat := bytes.foldl (fun n b => n * 256 + b.toNat) 0

/-- `Buffer.concat` with a total length. -/
def concatBuffers (buffers : List (List UInt8)) (length : Nat) : List UInt8 :=
  let bytes := buffers.flatten.take length
  bytes ++ List.replicate (length - bytes.length) 0

/-- `split("\r\n")`. -/
def splitLines : List Char → List (List Char)
  | [] => [[]]
  | '\r' :: '\n' :: cs => [] :: splitLines cs
  | c :: cs =>
    match splitLines cs with
    | [] => [[c]]
    | line :: lines => (c :: line) :: lines

/-- `trim`. -/
def trim (text : List Char) : List Char :=
  ((text.dropWhile isSpace).reverse.dropWhile isSpace).reverse

/-- `toLowerCase`. -/
def lower (text : List Char) : List Char := text.flatMap lowerChar

/-- `split(",")`. -/
def splitCommas : List Char → List (List Char)
  | [] => [[]]
  | c :: cs =>
    if c = ',' then [] :: splitCommas cs
    else
      match splitCommas cs with
      | [] => [[c]]
      | part :: parts => (c :: part) :: parts

/-- The first part of a `split(/\s*,\s*/)` keeps its leading space, the last one its trailing space;
    a text that was trimmed has neither. -/
def splitOptions (text : List Char) : List (List Char) := (splitCommas text).map trim

/-- `/^HTTP\/1\.1 101(?:\s|$)/`. -/
def isSwitchingProtocols (line : List Char) : Bool :=
  "HTTP/1.1 101".toList.isPrefixOf line &&
    (line.drop "HTTP/1.1 101".length).head?.all isSpace

/-- One line of the response: its name and value, where it has a colon after its first character. -/
def headerOf (line : List Char) : Option (List Char × List Char) :=
  let name := line.takeWhile (· ≠ ':')
  if name = [] ∨ name.length = line.length then none
  else some (lower (trim name), trim (line.drop (name.length + 1)))

/-- The headers, where every line has one; a later line replaces an earlier one. -/
def headersOf (lines : List (List Char)) : Option (List (List Char × List Char)) :=
  lines.mapM headerOf

/-- `headers.get`. -/
def headerGet (headers : List (List Char × List Char)) (name : String) : Option (List Char) :=
  (headers.reverse.find? fun h => h.1 = name.toList).map Prod.snd

/-! ### Ending -/

namespace WebSocketWire

variable (w : WebSocketWire)

def emit (output : WireOutput) : WebSocketWire := { w with outputs := w.outputs ++ [output] }

/-- The texts that were delivered. -/
def messages : List (List Char) := w.outputs.filterMap fun
  | .message text => some text
  | _ => none

/-- `#finish`. -/
def finish : WebSocketWire :=
  if w.state = .closed then w
  else { w with state := .closed, buffer := [], fragments := [], fragmentBytes := 0 }

/-- `#fail`. -/
def fail (error : String) : WebSocketWire :=
  if w.state = .closed then w else w.finish.emit (.failed error)

/-- `close`. -/
def close : WebSocketWire :=
  match w.state with
  | .handshake => w.finish.emit .closeCalled
  | .opened => ((w.emit (.closeSent [])).finish).emit .closeCalled
  | .closed => w

/-! ### The handshake -/

/-- The checks of the response, up to its boundary. -/
def checkResponse (header : List Char) : Except String Unit :=
  match splitLines header with
  | [] => .error "Codex websocket proxy rejected the upgrade"
  | status :: lines =>
    if ¬ isSwitchingProtocols status = true then
      .error "Codex websocket proxy rejected the upgrade"
    else
      match headersOf lines with
      | none => .error "Codex websocket response header is invalid"
      | some headers =>
        if headerGet headers "sec-websocket-accept" ≠ some w.accept then
          .error "Codex websocket accept key is invalid"
        else if (headerGet headers "sec-websocket-extensions").isSome then
          .error "Codex websocket extensions are not supported"
        else if (headerGet headers "upgrade").map lower ≠ some "websocket".toList then
          .error "Codex websocket upgrade header is invalid"
        else if ¬ ((headerGet headers "connection").any fun value =>
            (splitOptions (lower value)).contains "upgrade".toList) = true then
          .error "Codex websocket connection header is invalid"
        else .ok ()

/-- `#consumeHandshake`: nothing where the boundary has not arrived. -/
def consumeHandshake : Except String (Option WebSocketWire) :=
  match boundaryIndex w.buffer with
  | none =>
    if w.buffer.length > maxHandshakeBytes then .error "Codex websocket handshake is too large"
    else .ok none
  | some boundary =>
    if boundary + 4 > maxHandshakeBytes then .error "Codex websocket handshake is too large"
    else
      match w.checkResponse (Utf8.decodeLossy (w.buffer.take boundary)) with
      | .error error => .error error
      | .ok () =>
        .ok (some ({ w with state := .opened, buffer := w.buffer.drop (boundary + 4) }.emit .opened))

/-! ### Frames -/

/-- A frame as `#handleFrame` is given it. -/
structure WireFrame where
  opcode : UInt8
  fin : Bool
  payload : List UInt8

/-- The length a header gives, with the length of the header; nothing where it is incomplete. -/
def frameLength (second : UInt8) : Except String (Option (Nat × Nat)) :=
  let length := (second &&& 0x7f).toNat
  if length = 126 then
    if w.buffer.length < 4 then .ok none
    else .ok (some (bigEndian ((w.buffer.drop 2).take 2), 4))
  else if length = 127 then
    if w.buffer.length < 10 then .ok none
    else
      let largeLength := bigEndian ((w.buffer.drop 2).take 8)
      if largeLength > w.maxPayloadBytes then .error "Codex websocket payload is too large"
      else .ok (some (largeLength, 10))
  else .ok (some (length, 2))

/-- The body of the loop of `#consumeFrames` up to the frame it takes off the buffer. -/
def nextFrame : Except String (Option (WireFrame × List UInt8)) :=
  match w.buffer with
  | first :: second :: _ =>
    if first &&& 0x70 ≠ 0 then .error "Codex websocket RSV bits are not supported"
    else if second &&& 0x80 ≠ 0 then .error "Codex websocket server frames must not be masked"
    else
      let opcode := first &&& 0x0f
      match w.frameLength second with
      | .error error => .error error
      | .ok none => .ok none
      | .ok (some (length, offset)) =>
        let isDataFrame := opcode = 0x0 ∨ opcode = 0x1 ∨ opcode = 0x2
        if length > w.maxPayloadBytes ∨
            isDataFrame ∧ w.fragmentBytes + length > w.maxPayloadBytes then
          .error "Codex websocket payload is too large"
        else if w.buffer.length < offset + length then .ok none
        else
          .ok (some (⟨opcode, first &&& 0x80 ≠ 0, (w.buffer.drop offset).take length⟩,
            w.buffer.drop (offset + length)))
  | _ => .ok none

/-- What a step leads to; an error carries the wire at the place where it is thrown. -/
abbrev Result := Except (WebSocketWire × String) WebSocketWire

/-- The end of `#handleFrame`: a final frame completes the message. -/
def endMessage (fin : Bool) : Result :=
  if fin = false then .ok w
  else
    let message := concatBuffers w.fragments w.fragmentBytes
    let next := { w with fragments := [], fragmentBytes := 0 }
    match Utf8.decodeFatal message with
    | none => .error (next, "The encoded data was not valid for encoding utf-8")
    | some text =>
      let delivered := next.emit (.message text)
      match delivered.onMessage delivered.messages with
      | .returns => .ok delivered
      | .closes => .ok delivered.close
      | .throws error => .error (delivered, error)

/-- `#handleFrame`. -/
def handleFrame (frame : WireFrame) : Result :=
  if frame.opcode ≥ 0x8 then
    if frame.fin = false ∨ frame.payload.length > 125 then
      .error (w, "Codex websocket control frame is invalid")
    else if frame.opcode = 0x8 then
      .ok ((w.emit (.closeSent frame.payload)).finish.emit .closed)
    else if frame.opcode = 0x9 then .ok (w.emit (.pong frame.payload))
    else if frame.opcode = 0xA then .ok w
    else .error (w, "Codex websocket control opcode is unsupported")
  else if frame.opcode = 0x2 then .error (w, "Codex websocket binary frames are not supported")
  else if frame.opcode = 0x1 then
    if w.fragments ≠ [] then .error (w, "Codex websocket text fragments overlap")
    else
      let next := { w with fragments := [frame.payload], fragmentBytes := frame.payload.length }
      next.endMessage frame.fin
  else if frame.opcode = 0x0 then
    if w.fragments = [] then
      .error (w, "Codex websocket continuation has no initial frame")
    else
      let next := { w with
        fragments := w.fragments ++ [frame.payload]
        fragmentBytes := w.fragmentBytes + frame.payload.length }
      next.endMessage frame.fin
  else .error (w, "Codex websocket data opcode is unsupported")

/-- `#consumeFrames`.  Every turn of its loop takes at least two bytes off the buffer, whose length
    is fuel enough. -/
def consumeFrames : Nat → WebSocketWire → Result
  | 0, w => .ok w
  | fuel + 1, w =>
    match w.nextFrame with
    | .error error => .error (w, error)
    | .ok none => .ok w
    | .ok (some (frame, rest)) =>
      match { w with buffer := rest }.handleFrame frame with
      | .error failure => .error failure
      | .ok next => if next.state ≠ .opened then .ok next else consumeFrames fuel next

/-! ### Events -/

/-- The `try` block of `#receive`. -/
def consume : Result :=
  match w.state with
  | .handshake =>
    match w.consumeHandshake with
    | .error error => .error (w, error)
    | .ok none => .ok w
    | .ok (some next) => consumeFrames next.buffer.length next
  | .opened => consumeFrames w.buffer.length w
  | .closed => .ok w

/-- `#receive`. -/
def receive (chunk : List UInt8) : WebSocketWire :=
  if w.state = .closed then w
  else
    match { w with buffer := w.buffer ++ chunk }.consume with
    | .ok next => next
    | .error (next, error) => next.fail error

end WebSocketWire

/-- What happens to a wire: a chunk arrives; a stream fails, ends or closes, or the handshake takes
    too long; its owner closes it. -/
inductive WireEvent
  | chunk (bytes : List UInt8)
  | fails (error : String)
  | close

namespace WebSocketWire

def step (w : WebSocketWire) : WireEvent → WebSocketWire
  | .chunk bytes => w.receive bytes
  | .fails error => w.fail error
  | .close => w.close

/-- The events one after the other. -/
def run (w : WebSocketWire) (events : List WireEvent) : WebSocketWire := events.foldl step w

/-- The wire at the end of `start`. -/
def started (accept : List Char) (maxPayloadBytes : Nat)
    (onMessage : List (List Char) → Reaction) : WebSocketWire :=
  { accept := accept, maxPayloadBytes := maxPayloadBytes, onMessage := onMessage }

end WebSocketWire

end AgentHost
