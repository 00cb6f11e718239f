import Mathlib
import AgentHost.Lib.Utf8

/-!
# Websocket sessions of a server

What a server may send by RFC 6455, and what the client has to make of it.

* `WebSocket.Frame`, `Frame.encode` — an unmasked frame and its bytes, with the shortest length.
* `WebSocket.Control`, `Message`, `Element` — pings and pongs, messages in fragments with control
  frames between them.
* `WebSocket.Session` — elements, and a close frame after which nothing counts.
* `Session.effects` — what the client delivers, answers and closes, in order.
* `WebSocket.Response`, `Response.Accepts` — the answer to the opening handshake, as lines of bytes,
  and when it opens the connection.
-/

namespace WebSocket

/-! ### Frames -/

structure Frame where
  fin : Bool
  opcode : UInt8
  payload : List UInt8
  deriving DecidableEq

/-- The two forms of a length that does not fit the header, most significant byte first. -/
def lengthBytes (n : Nat) : List UInt8 :=
  if n ≤ 125 then [UInt8.ofNat n]
  else if n < 65536 then [126, UInt8.ofNat (n / 256), UInt8.ofNat (n % 256)]
  else
    [127, UInt8.ofNat (n / 72057594037927936 % 256), UInt8.ofNat (n / 281474976710656 % 256),
      UInt8.ofNat (n / 1099511627776 % 256), UInt8.ofNat (n / 4294967296 % 256),
      UInt8.ofNat (n / 16777216 % 256), UInt8.ofNat (n / 65536 % 256),
      UInt8.ofNat (n / 256 % 256), UInt8.ofNat (n % 256)]

def Frame.first (frame : Frame) : UInt8 := (if frame.fin then 0x80 else 0) ||| frame.opcode

def Frame.encode (frame : Frame) : List UInt8 :=
  frame.first :: lengthBytes frame.payload.length ++ frame.payload

/-! ### What is sent -/

/-- A control frame other than close. -/
inductive Control
  | ping (payload : List UInt8)
  | pong (payload : List UInt8)
  deriving DecidableEq

def Control.payload : Control → List UInt8
  | .ping payload | .pong payload => payload

def Control.frame : Control → Frame
  | .ping payload => ⟨true, 0x9, payload⟩
  | .pong payload => ⟨true, 0xA, payload⟩

/-- The data of a message. -/
inductive Data
  | text (characters : List Char)
  | binary (bytes : List UInt8)
  deriving DecidableEq

def Data.bytes : Data → List UInt8
  | .text characters => Utf8.encode characters
  | .binary bytes => bytes

def Data.opcode : Data → UInt8
  | .text _ => 0x1
  | .binary _ => 0x2

/-- A fragment that is not the last one, with the control frames between it and the next. -/
abbrev Fragment := List UInt8 × List Control

/-- A message in fragments. -/
structure Message where
  data : Data
  earlier : List Fragment
  last : List UInt8

def Message.payload (message : Message) : List UInt8 :=
  (message.earlier.map Prod.fst).flatten ++ message.last

/-- The frames of a fragment that continues a message. -/
def Fragment.frames (opcode : UInt8) (fragment : Fragment) : List Frame :=
  ⟨false, opcode, fragment.1⟩ :: fragment.2.map Control.frame

def Message.frames (message : Message) : List Frame :=
  match message.earlier with
  | [] => [⟨true, message.data.opcode, message.last⟩]
  | first :: more =>
    Fragment.frames message.data.opcode first ++ more.flatMap (Fragment.frames 0x0)
      ++ [⟨true, 0x0, message.last⟩]

inductive Element
  | control (frame : Control)
  | message (message : Message)

def Element.frames : Element → List Frame
  | .control c => [c.frame]
  | .message m => m.frames

/-- What is sent after the handshake: elements, then perhaps a close frame and any bytes. -/
structure Session where
  elements : List Element
  close : Option (List UInt8 × List UInt8)

def Session.bytes (session : Session) : List UInt8 :=
  (session.elements.flatMap Element.frames).flatMap Frame.encode ++
    match session.close with
    | none => []
    | some (payload, trailing) => Frame.encode ⟨true, 0x8, payload⟩ ++ trailing

/-! ### What the client makes of it -/

inductive Effect
  | established
  | message (data : Data)
  | pong (payload : List UInt8)
  | close (payload : List UInt8)
  | fail
  deriving DecidableEq

/-- A ping is answered with its payload, a pong is ignored. -/
def Control.effects : Control → List Effect
  | .ping payload => [.pong payload]
  | .pong _ => []

def Fragment.effects (fragment : Fragment) : List Effect := fragment.2.flatMap Control.effects

/-- The message is delivered when its last fragment has arrived. -/
def Message.effects (message : Message) : List Effect :=
  message.earlier.flatMap Fragment.effects ++ [.message message.data]

def Element.effects : Element → List Effect
  | .control c => c.effects
  | .message m => m.effects

def Session.effects (session : Session) : List Effect :=
  session.elements.flatMap Element.effects ++
    match session.close with
    | none => []
    | some (payload, _) => [.close payload]

/-! ### Well-formed sessions -/

/-- Control frames are short. -/
def Control.WellFormed (control : Control) : Prop := control.payload.length ≤ 125

/-- The fragments are the parts of the data. -/
structure Message.WellFormed (message : Message) : Prop where
  data : message.payload = message.data.bytes
  length : message.payload.length < 2 ^ 63
  controls : ∀ fragment ∈ message.earlier, ∀ control ∈ fragment.2, control.WellFormed

def Element.WellFormed : Element → Prop
  | .control c => c.WellFormed
  | .message m => m.WellFormed

structure Session.WellFormed (session : Session) : Prop where
  elements : ∀ element ∈ session.elements, element.WellFormed
  close : ∀ payload trailing, session.close = some (payload, trailing) → payload.length ≤ 125

/-! ### The opening handshake -/

/-- The lines of a response, without their ends. -/
structure Response where
  status : List UInt8
  lines : List (List UInt8)

/-- The end of a line. -/
def lineEnd : List UInt8 := [13, 10]

def Response.bytes (response : Response) : List UInt8 :=
  ((response.status :: response.lines).flatMap fun line => line ++ lineEnd) ++ lineEnd

/-- A header: a name, a colon, and a value within optional space. -/
structure Header where
  name : List Char
  before : List Char
  value : List Char
  after : List Char
  deriving DecidableEq

def Header.text (header : Header) : List Char :=
  header.name ++ ':' :: (header.before ++ header.value ++ header.after)

/-- ASCII capitals are read as small letters. -/
def caseless (text : List Char) : List Char := text.map Char.toLower

/-- The characters of a name or an option: visible ASCII but for the two separators. -/
def IsToken (text : List Char) : Prop :=
  text ≠ [] ∧ ∀ c ∈ text, 0x21 ≤ c.toNat ∧ c.toNat ≤ 0x7E ∧ c ≠ ':' ∧ c ≠ ','

instance (text : List Char) : Decidable (IsToken text) :=
  @instDecidableAnd _ _ inferInstance (List.decidableBAll _ text)

/-- Space and tab. -/
def IsOptionalSpace (text : List Char) : Prop := ∀ c ∈ text, c = ' ' ∨ c = '\t'

instance (text : List Char) : Decidable (IsOptionalSpace text) := List.decidableBAll _ text

/-- One of the options that a value lists, separated by commas. -/
def HasOption (value option : List Char) : Prop :=
  ∃ left before after right, value = left ++ before ++ option ++ after ++ right ∧
    IsOptionalSpace before ∧ IsOptionalSpace after ∧
    (left = [] ∨ ∃ l, left = l ++ [',']) ∧ (right = [] ∨ ∃ r, right = ',' :: r)

/-- The headers with a name. -/
def headersNamed (headers : List Header) (name : String) : List Header :=
  headers.filter fun header => caseless header.name = name.toList

/-- A response that accepts the upgrade with a digest.  `headers` are its lines as texts; the options
    of the connection may be spread over several lines. -/
structure Response.Accepts (response : Response) (accept : List Char) (headers : List Header) :
    Prop where
  ends : ∀ line ∈ response.status :: response.lines, 13 ∉ line ∧ 10 ∉ line
  status : ∃ reason, Utf8.decodeLossy response.status = "HTTP/1.1 101".toList ++ reason ∧
    (reason = [] ∨ ∃ phrase, reason = ' ' :: phrase)
  texts : response.lines.map Utf8.decodeLossy = headers.map Header.text
  names : ∀ header ∈ headers, IsToken header.name
  spaces : ∀ header ∈ headers, IsOptionalSpace header.before ∧ IsOptionalSpace header.after
  accept : ∃ header, headersNamed headers "sec-websocket-accept" = [header] ∧
    header.value = accept
  upgrade : ∃ header, headersNamed headers "upgrade" = [header] ∧
    caseless header.value = "websocket".toList
  connection : ∃ header ∈ headersNamed headers "connection", ∃ option,
    HasOption header.value option ∧ caseless option = "upgrade".toList
  extensions : headersNamed headers "sec-websocket-extensions" = []
  subprotocol : headersNamed headers "sec-websocket-protocol" = []

/-- The digest of a key is written in base64. -/
def IsBase64 (text : List Char) : Prop :=
  ∀ c ∈ text, c.isAlphanum = true ∨ c = '+' ∨ c = '/' ∨ c = '='

instance (text : List Char) : Decidable (IsBase64 text) := List.decidableBAll _ text

end WebSocket
