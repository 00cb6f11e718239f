import AgentHost.Lib.BigEndian
import AgentHost.Lib.CodeUnits

namespace AgentHost

/-!
# The protocol of anchored private state (`anchored-private-state.js`, `anchored-private-state.c`)

Both ends of the pipe to the native helper.

* `FrameHeader` — the header of 32 bytes; `FrameHeader.encode`, `FrameHeader.load`.
* `AnchoredCall`, `AnchoredCall.request` — the calls of a session and the checks that they pass;
  `requestFrame` — `#request`'s frame; `nextRequest` — the counter.
* `receive`, `serve` — one turn of the helper's loop, and the loop.
-/

/-! ### Frames -/

/-- The fields of a frame's header. -/
structure FrameHeader where
  magic : Nat
  version : Nat
  operation : Nat
  request : Nat
  nameLength : Nat
  auxiliaryLength : Nat
  payloadLength : Nat
  /-- The limit of a request, the error of a response. -/
  limit : Nat
  reserved : Nat
  deriving DecidableEq

def protocolMagic : Nat := 0x41485053
def protocolVersion : Nat := 1
def headerBytes : Nat := 32
def responseFlag : Nat := 0x8000

namespace FrameHeader

def encode (header : FrameHeader) : List UInt8 :=
  bigEndian 4 header.magic ++ bigEndian 2 header.version ++ bigEndian 2 header.operation ++
    bigEndian 4 header.request ++ bigEndian 4 header.nameLength ++
    bigEndian 4 header.auxiliaryLength ++ bigEndian 4 header.payloadLength ++
    bigEndian 4 header.limit ++ bigEndian 4 header.reserved

/-- The fields at their offsets, as both ends read them. -/
def load (bytes : List UInt8) : FrameHeader where
  magic := loadBytes bytes 0 4
  version := loadBytes bytes 4 2
  operation := loadBytes bytes 6 2
  request := loadBytes bytes 8 4
  nameLength := loadBytes bytes 12 4
  auxiliaryLength := loadBytes bytes 16 4
  payloadLength := loadBytes bytes 20 4
  limit := loadBytes bytes 24 4
  reserved := loadBytes bytes 28 4

/-- Every field fits its place. -/
structure Fits (header : FrameHeader) : Prop where
  magic : header.magic < 2 ^ 32
  version : header.version < 2 ^ 16
  operation : header.operation < 2 ^ 16
  request : header.request < 2 ^ 32
  nameLength : header.nameLength < 2 ^ 32
  auxiliaryLength : header.auxiliaryLength < 2 ^ 32
  payloadLength : header.payloadLength < 2 ^ 32
  limit : header.limit < 2 ^ 32
  reserved : header.reserved < 2 ^ 32

@[simp] theorem length_encode (header : FrameHeader) : header.encode.length = headerBytes := by
  simp only [encode, List.length_append, length_bigEndian]
  rfl

/-- A header is read as it was written. -/
theorem load_encode {header : FrameHeader} (h : header.Fits) (rest : List UInt8) :
    load (header.encode ++ rest) = header := by
  have hload : load (header.encode ++ rest) =
      ⟨fromBigEndian (bigEndian 4 header.magic), fromBigEndian (bigEndian 2 header.version),
        fromBigEndian (bigEndian 2 header.operation), fromBigEndian (bigEndian 4 header.request),
        fromBigEndian (bigEndian 4 header.nameLength),
        fromBigEndian (bigEndian 4 header.auxiliaryLength),
        fromBigEndian (bigEndian 4 header.payloadLength),
        fromBigEndian (bigEndian 4 header.limit),
        fromBigEndian (bigEndian 4 header.reserved)⟩ := rfl
  rw [hload, fromBigEndian_bigEndian h.magic, fromBigEndian_bigEndian h.version,
    fromBigEndian_bigEndian h.operation, fromBigEndian_bigEndian h.request,
    fromBigEndian_bigEndian h.nameLength, fromBigEndian_bigEndian h.auxiliaryLength,
    fromBigEndian_bigEndian h.payloadLength, fromBigEndian_bigEndian h.limit,
    fromBigEndian_bigEndian h.reserved]

/-- A header is written as it was read. -/
theorem encode_load {bytes : List UInt8} (h : bytes.length = headerBytes) :
    (load bytes).encode = bytes := by
  have hheader : headerBytes = 32 := rfl
  have hfield : ∀ offset width, offset + width ≤ 32 →
      bigEndian width (loadBytes bytes offset width) = (bytes.drop offset).take width := by
    intro offset width hle
    have hlength : ((bytes.drop offset).take width).length = width := by
      rw [List.length_take, List.length_drop]
      omega
    have hback := bigEndian_fromBigEndian ((bytes.drop offset).take width)
    rwa [hlength] at hback
  have hjoin : ∀ offset width, bytes.take offset ++ (bytes.drop offset).take width =
      bytes.take (offset + width) := fun offset width => (List.take_add).symm
  rw [encode]
  dsimp only [load]
  rw [hfield 0 4 (by decide), hfield 4 2 (by decide), hfield 6 2 (by decide),
    hfield 8 4 (by decide), hfield 12 4 (by decide), hfield 16 4 (by decide),
    hfield 20 4 (by decide), hfield 24 4 (by decide), hfield 28 4 (by decide), List.drop_zero,
    hjoin 4 2, hjoin 6 2, hjoin 8 4, hjoin 12 4, hjoin 16 4, hjoin 20 4, hjoin 24 4, hjoin 28 4]
  exact List.take_of_length_le (by omega)

/-- Only the first bytes are read. -/
theorem load_append {bytes : List UInt8} (h : headerBytes ≤ bytes.length) (rest : List UInt8) :
    load (bytes ++ rest) = load bytes := by
  have hheader : headerBytes = 32 := rfl
  have hfield : ∀ offset width, offset + width ≤ 32 →
      loadBytes (bytes ++ rest) offset width = loadBytes bytes offset width := by
    intro offset width hle
    rw [loadBytes, loadBytes, List.drop_append_of_le_length (by omega),
      List.take_append_of_le_length (by rw [List.length_drop]; omega)]
  rw [load, load, hfield 0 4 (by decide), hfield 4 2 (by decide), hfield 6 2 (by decide),
    hfield 8 4 (by decide), hfield 12 4 (by decide), hfield 16 4 (by decide),
    hfield 20 4 (by decide), hfield 24 4 (by decide), hfield 28 4 (by decide)]

end FrameHeader

/-! ### Calls -/

inductive AnchoredOp
  | acquire | read | write | assert | close
  deriving DecidableEq

/-- `OP`. -/
def AnchoredOp.code : AnchoredOp → Nat
  | .acquire => 1
  | .read => 2
  | .write => 3
  | .assert => 4
  | .close => 5

/-- The bytes of a text in UTF-8; half a pair is the replacement character. -/
def utf8Bytes : CodeUnits → List UInt8
  | [] => []
  | c :: rest =>
    if c < 0x80 then c.toUInt8 :: utf8Bytes rest
    else if c < 0x800 then
      UInt8.ofNat (0xC0 + c.toNat / 0x40) :: UInt8.ofNat (0x80 + c.toNat % 0x40) :: utf8Bytes rest
    else if c < 0xD800 ∨ 0xE000 ≤ c then
      UInt8.ofNat (0xE0 + c.toNat / 0x1000) :: UInt8.ofNat (0x80 + c.toNat / 0x40 % 0x40) ::
        UInt8.ofNat (0x80 + c.toNat % 0x40) :: utf8Bytes rest
    else
      match rest with
      | d :: rest' =>
        if c < 0xDC00 ∧ 0xDC00 ≤ d ∧ d < 0xE000 then
          let n := 0x10000 + (c.toNat - 0xD800) * 0x400 + (d.toNat - 0xDC00)
          UInt8.ofNat (0xF0 + n / 0x40000) :: UInt8.ofNat (0x80 + n / 0x1000 % 0x40) ::
            UInt8.ofNat (0x80 + n / 0x40 % 0x40) :: UInt8.ofNat (0x80 + n % 0x40) ::
            utf8Bytes rest'
        else 0xEF :: 0xBF :: 0xBD :: utf8Bytes (d :: rest')
      | [] => [0xEF, 0xBF, 0xBD]

/-- `Buffer.from(text, "ascii")`. -/
def asciiBytes (text : CodeUnits) : List UInt8 := text.map UInt16.toUInt8

/-- What `randomUUID` yields: 36 hexadecimal digits and hyphens. -/
structure Uuid where
  text : CodeUnits
  length_eq : text.length = 36
  digits : ∀ c ∈ text, c ∈ units "0123456789abcdef-"

/-- What is written: a text or bytes. -/
inductive Contents
  | text (text : CodeUnits)
  | bytes (bytes : List UInt8)

def Contents.payload : Contents → List UInt8
  | .text units => utf8Bytes units
  | .bytes payload => payload

/-- A call of a session. A maximum that is no integer is `none`. -/
inductive AnchoredCall
  | acquireWriterLock (name : CodeUnits)
  | readFileBounded (name : CodeUnits) (maximumBytes : Option Int)
  | writeFileAtomic (name : CodeUnits) (contents : Contents) (uuid : Uuid)
  | assertCurrent
  | close

/-- The input of `#request`. -/
structure RequestInput where
  operation : AnchoredOp
  name : CodeUnits := []
  auxiliary : CodeUnits := []
  payload : List UInt8 := []
  limit : Nat := 0

def isNameUnit (c : UInt16) : Bool :=
  (65 ≤ c && c ≤ 90) || (97 ≤ c && c ≤ 122) || (48 ≤ c && c ≤ 57) || c = 46 || c = 95 || c = 45

/-- `^[A-Za-z0-9._-]{1,200}$`. -/
def SAFE_NAME (name : CodeUnits) : Bool :=
  name.all isNameUnit && 1 ≤ name.length && name.length ≤ 200

/-- `validateName`; the message of a name that is not accepted. -/
def validateName (name : CodeUnits) : Except String Unit :=
  if !SAFE_NAME name ∨ name = units "." ∨ name = units ".." then
    .error "private-state name must be a basename without separators or dot entries"
  else if (units ".agent-host-").isPrefixOf name && (units ".tmp").isSuffixOf name then
    .error "private-state name uses the reserved crash-recovery namespace"
  else .ok ()

/-- `#limit`. -/
def readLimit (maxBytes : Nat) (maximumBytes : Option Int) : Except String Nat :=
  match maximumBytes with
  | none => .error "maximumBytes must be a positive integer"
  | some value =>
    if value < 1 then .error "maximumBytes must be a positive integer"
    else .ok (min value.toNat maxBytes)

/-- The request of a call, or the message that it is refused with. -/
def AnchoredCall.request (maxBytes : Nat) : AnchoredCall → Except String RequestInput
  | .acquireWriterLock name => do
    validateName name
    return { operation := .acquire, name }
  | .readFileBounded name maximumBytes => do
    validateName name
    let limit ← readLimit maxBytes maximumBytes
    return { operation := .read, name, limit }
  | .writeFileAtomic name contents uuid => do
    validateName name
    let payload := contents.payload
    if payload.length > maxBytes then .error "private state exceeds its size limit"
    else
      let auxiliary := units ".agent-host-" ++ uuid.text ++ units ".tmp"
      return { operation := .write, name, auxiliary, payload, limit := payload.length }
  | .assertCurrent => .ok { operation := .assert }
  | .close => .ok { operation := .close }

/-- The counter after a request. -/
def nextRequest (request : Nat) : Nat := if request + 1 > 0xffffffff then 1 else request + 1

/-- The frame that `#request` writes. -/
def requestFrame (maxBytes request : Nat) (input : RequestInput) : Except String (List UInt8) :=
  let nameBytes := asciiBytes input.name
  let auxiliaryBytes := asciiBytes input.auxiliary
  if nameBytes.length > 200 ∨ auxiliaryBytes.length > 200 ∨ input.payload.length > maxBytes then
    .error "anchored private-state protocol payload exceeds its bound"
  else
    let header : FrameHeader :=
      ⟨protocolMagic, protocolVersion, input.operation.code, request, nameBytes.length,
        auxiliaryBytes.length, input.payload.length, input.limit, 0⟩
    .ok (header.encode ++ nameBytes ++ auxiliaryBytes ++ input.payload)

/-- What the calls of a session write, from a counter. -/
def sendCalls (maxBytes : Nat) : Nat → List AnchoredCall → Except String (List UInt8)
  | _, [] => .ok []
  | request, call :: calls => do
    let input ← call.request maxBytes
    let frame ← requestFrame maxBytes request input
    let rest ← sendCalls maxBytes (nextRequest request) calls
    return frame ++ rest

/-! ### The helper -/

/-- What a turn of the helper's loop carries out. -/
inductive HelperCommand
  | acquire (name : List UInt8)
  | read (name : List UInt8) (limit : Nat)
  | write (name temporary payload : List UInt8)
  | assert
  | close
  deriving DecidableEq

/-- `read_exact`. -/
def readExact (length : Nat) (input : List UInt8) : Except String (List UInt8 × List UInt8) :=
  if input.length < length then .error "truncated protocol frame"
  else .ok (input.take length, input.drop length)

/-- `safe_name`. -/
def safeName (name : List UInt8) : Bool :=
  1 ≤ name.length && name.length ≤ 200 && name ≠ [46] && name ≠ [46, 46] &&
    name.all fun c => (65 ≤ c && c ≤ 90) || (97 ≤ c && c ≤ 122) || (48 ≤ c && c ≤ 57) || c = 46 ||
      c = 95 || c = 45

/-- `temporary_name`. -/
def temporaryName (name : List UInt8) : Bool :=
  name.length > 16 && (asciiBytes (units ".agent-host-")).isPrefixOf name &&
    (asciiBytes (units ".tmp")).isSuffixOf name

/-- The branches of a turn, once a frame's names are read: the request's number, its command, and the
    input behind it. -/
def dispatch (acquired : Bool) (header : FrameHeader) (name auxiliary input : List UInt8) :
    Except String ((Nat × HelperCommand) × List UInt8) :=
  if header.operation = AnchoredOp.acquire.code ∧ acquired = false ∧ header.nameLength > 0 ∧
      temporaryName name = false ∧ header.auxiliaryLength = 0 ∧ header.payloadLength = 0 then
    .ok ((header.request, .acquire name), input)
  else if header.operation = AnchoredOp.read.code ∧ acquired = true ∧ header.nameLength > 0 ∧
      temporaryName name = false ∧ header.auxiliaryLength = 0 ∧ header.payloadLength = 0 ∧
      header.limit > 0 then
    .ok ((header.request, .read name header.limit), input)
  else if header.operation = AnchoredOp.write.code ∧ acquired = true ∧ header.nameLength > 0 ∧
      header.auxiliaryLength > 0 ∧ temporaryName name = false ∧
      temporaryName auxiliary = true ∧ name ≠ auxiliary ∧
      header.limit = header.payloadLength then do
    let payload ← readExact header.payloadLength input
    .ok ((header.request, .write name auxiliary payload.1), payload.2)
  else if header.operation = AnchoredOp.assert.code ∧ acquired = true ∧ header.nameLength = 0 ∧
      header.auxiliaryLength = 0 ∧ header.payloadLength = 0 ∧ header.limit = 0 then
    .ok ((header.request, .assert), input)
  else if header.operation = AnchoredOp.close.code ∧ acquired = true ∧ header.nameLength = 0 ∧
      header.auxiliaryLength = 0 ∧ header.payloadLength = 0 ∧ header.limit = 0 then
    .ok ((header.request, .close), input)
  else .error "invalid protocol operation"

/-- The fields that no operation may have. -/
def invalidFrame (header : FrameHeader) : Bool :=
  header.magic ≠ protocolMagic || header.version ≠ protocolVersion || header.request = 0 ||
    header.reserved ≠ 0 || header.nameLength > 200 || header.auxiliaryLength > 200 ||
    header.payloadLength > 1000000 || header.limit > 1000000

/-- One turn of the loop. -/
def receive (acquired : Bool) (input : List UInt8) :
    Except String ((Nat × HelperCommand) × List UInt8) := do
  let frame ← readExact headerBytes input
  let header := FrameHeader.load frame.1
  if invalidFrame header then .error "invalid protocol frame"
  else
    let name ← readExact header.nameLength frame.2
    let auxiliary ← readExact header.auxiliaryLength name.2
    if (header.nameLength > 0 ∧ safeName name.1 = false) ∨
        (header.auxiliaryLength > 0 ∧ safeName auxiliary.1 = false) then
      .error "invalid protocol basename"
    else dispatch acquired header name.1 auxiliary.1 auxiliary.2

/-- How the loop ends: by a `close`, with the input behind it, or by a rejection. -/
inductive HelperEnd
  | closed (input : List UInt8)
  | rejected (message : String)
  deriving DecidableEq

/-- The loop on an input, where no operation on the file system fails: a turn reads a header at least,
    so it has at most as many turns as the input has bytes. -/
def serveFrom : Nat → Bool → List UInt8 → List (Nat × HelperCommand) × HelperEnd
  | 0, _, _ => ([], .rejected "truncated protocol frame")
  | turns + 1, acquired, input =>
    match receive acquired input with
    | .error message => ([], .rejected message)
    | .ok ((request, command), rest) =>
      if command = .close then ([(request, command)], .closed rest)
      else
        let served := serveFrom turns (acquired || command matches .acquire _) rest
        ((request, command) :: served.1, served.2)

def serve (input : List UInt8) : List (Nat × HelperCommand) × HelperEnd :=
  serveFrom (input.length + 1) false input

end AgentHost
