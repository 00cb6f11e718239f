import AgentHost.Lib.BigEndian
import Mathlib

/-!
# The frames that the Codex wire sends (`codex-websocket-wire.js`, `#sendFrame`)

* `sendFrame` — the bytes of a frame, with a mask.
* `decodeFrame`, `decodeFrames` — how a server reads masked frames by RFC 6455: reserved bits are clear, the
  payload is masked, and its length has the shortest form.
* `decode_sendFrames` — **Main**: a frame that was sent is read with its opcode and payload, FIN set, and
  nothing left over, and a sequence of frames is read as that sequence.
-/

namespace CodexFrames

/-! ### Sending -/

/-- The frames that the wire sends: a text, its close frame, or the answer to a ping. -/
inductive SentOpcode
  | text | close | pong
  deriving DecidableEq

def SentOpcode.code : SentOpcode → UInt8
  | text => 0x1
  | close => 0x8
  | pong => 0xA

/-- A `Buffer`: its length is at most `buffer.constants.MAX_LENGTH`, which is below `2 ^ 53`. -/
structure Payload where
  bytes : List UInt8
  fits : bytes.length < 2 ^ 53

/-- Four random bytes. -/
structure Mask where
  bytes : List UInt8
  four : bytes.length = 4

/-- The payload under the mask, or the masked payload without it. -/
def maskBytes (mask : List UInt8) (payload : List UInt8) : List UInt8 :=
  payload.mapIdx fun index byte => byte ^^^ mask.getD (index % 4) 0

/-- The header of a frame. -/
def header (opcode : SentOpcode) (length : Nat) : List UInt8 :=
  if length < 126 then [0x80 ||| opcode.code, 0x80 ||| UInt8.ofNat length]
  else if length ≤ 0xffff then [0x80 ||| opcode.code, 0x80 ||| 126] ++ bigEndian 2 length
  else [0x80 ||| opcode.code, 0x80 ||| 127] ++ bigEndian 8 length

/-- `#sendFrame`. -/
def sendFrame (opcode : SentOpcode) (payload : Payload) (mask : Mask) : List UInt8 :=
  header opcode payload.bytes.length ++ mask.bytes ++ maskBytes mask.bytes payload.bytes

/-! ### Reading -/

/-- A frame as the server reads it. -/
structure ClientFrame where
  fin : Bool
  opcode : UInt8
  payload : List UInt8
  deriving DecidableEq

/-- The length that the second byte and what follows it give, where it has the shortest form. -/
def decodeLength (code : UInt8) (rest : List UInt8) : Option (Nat × List UInt8) :=
  if code < 126 then some (code.toNat, rest)
  else if code = 126 then
    let length := fromBigEndian (rest.take 2)
    if rest.length < 2 ∨ length < 126 then none else some (length, rest.drop 2)
  else
    let length := fromBigEndian (rest.take 8)
    if rest.length < 8 ∨ length < 65536 ∨ 2 ^ 63 ≤ length then none else some (length, rest.drop 8)

/-- One frame off the front of some bytes. -/
def decodeFrame : List UInt8 → Option (ClientFrame × List UInt8)
  | first :: second :: rest =>
    if first &&& 0x70 ≠ 0 ∨ second &&& 0x80 = 0 then none
    else
      match decodeLength (second &&& 0x7f) rest with
      | none => none
      | some (length, rest) =>
        if rest.length < 4 + length then none
        else
          let payload := maskBytes (rest.take 4) ((rest.drop 4).take length)
          some (⟨first &&& 0x80 ≠ 0, first &&& 0x0f, payload⟩, rest.drop (4 + length))
  | _ => none

/-- All frames of some bytes; there are at most `fuel`. -/
def decodeUpTo : Nat → List UInt8 → Option (List ClientFrame)
  | _, [] => some []
  | 0, _ => none
  | fuel + 1, bytes =>
    match decodeFrame bytes with
    | none => none
    | some (frame, rest) => (decodeUpTo fuel rest).map fun frames => frame :: frames

def decodeFrames (bytes : List UInt8) : Option (List ClientFrame) := decodeUpTo bytes.length bytes

/-! ### Masks -/

@[simp] theorem length_maskBytes (mask payload : List UInt8) :
    (maskBytes mask payload).length = payload.length := List.length_mapIdx

/-- Masking twice is doing nothing. -/
theorem maskBytes_maskBytes (mask payload : List UInt8) :
    maskBytes mask (maskBytes mask payload) = payload := by
  refine List.ext_getElem (by simp) fun index h₁ h₂ => ?_
  simp only [maskBytes, List.getElem_mapIdx]
  rw [UInt8.xor_assoc, UInt8.xor_self, UInt8.xor_zero]

/-! ### Headers -/

theorem first_bits (opcode : SentOpcode) :
    (0x80 ||| opcode.code) &&& 0x70 = 0 ∧ (0x80 ||| opcode.code) &&& 0x80 ≠ 0 ∧
      (0x80 ||| opcode.code) &&& 0x0f = opcode.code := by
  cases opcode <;> decide

theorem second_bits {length : Nat} (h : length < 126) :
    (0x80 ||| UInt8.ofNat length) &&& 0x80 ≠ 0 ∧
      (0x80 ||| UInt8.ofNat length) &&& 0x7f = UInt8.ofNat length := by
  have hall : ∀ n < 126, (0x80 ||| UInt8.ofNat n) &&& 0x80 ≠ 0 ∧
      (0x80 ||| UInt8.ofNat n) &&& 0x7f = UInt8.ofNat n := by decide
  exact hall length h

/-- A length in the form that the wire chooses. -/
theorem exists_decodeLength (opcode : SentOpcode) {length : Nat} (h : length < 2 ^ 53) :
    ∃ second form, header opcode length = (0x80 ||| opcode.code) :: second :: form ∧
      second &&& 0x80 ≠ 0 ∧
      ∀ rest, decodeLength (second &&& 0x7f) (form ++ rest) = some (length, rest) := by
  unfold header
  by_cases hshort : length < 126
  · rw [if_pos hshort]
    obtain ⟨hmasked, hcode⟩ := second_bits hshort
    refine ⟨_, [], rfl, hmasked, fun rest => ?_⟩
    have hlt : UInt8.ofNat length < 126 := by
      rw [UInt8.lt_iff_toNat_lt, UInt8.toNat_ofNat_of_lt' (hshort.trans (by decide))]
      exact hshort
    rw [hcode, decodeLength, if_pos hlt, UInt8.toNat_ofNat_of_lt' (hshort.trans (by decide))]
    rfl
  rw [if_neg hshort]
  by_cases hmedium : length ≤ 0xffff
  · rw [if_pos hmedium]
    refine ⟨0x80 ||| 126, bigEndian 2 length, rfl, by decide, fun rest => ?_⟩
    have hcode : ((0x80 : UInt8) ||| 126) &&& 0x7f = 126 := by decide
    have htake : (bigEndian 2 length ++ rest).take 2 = bigEndian 2 length :=
      List.take_left' (length_bigEndian 2 length)
    have hdrop : (bigEndian 2 length ++ rest).drop 2 = rest :=
      List.drop_left' (length_bigEndian 2 length)
    have hvalue : fromBigEndian (bigEndian 2 length) = length :=
      fromBigEndian_bigEndian (by norm_num; omega)
    rw [hcode, decodeLength, if_neg (by decide), if_pos rfl, htake, hdrop, hvalue, if_neg]
    rw [List.length_append, length_bigEndian]
    omega
  · rw [if_neg hmedium]
    refine ⟨0x80 ||| 127, bigEndian 8 length, rfl, by decide, fun rest => ?_⟩
    have hcode : ((0x80 : UInt8) ||| 127) &&& 0x7f = 127 := by decide
    have htake : (bigEndian 8 length ++ rest).take 8 = bigEndian 8 length :=
      List.take_left' (length_bigEndian 8 length)
    have hdrop : (bigEndian 8 length ++ rest).drop 8 = rest :=
      List.drop_left' (length_bigEndian 8 length)
    have hvalue : fromBigEndian (bigEndian 8 length) = length :=
      fromBigEndian_bigEndian (by norm_num; omega)
    rw [hcode, decodeLength, if_neg (by decide), if_neg (by decide), htake, hdrop, hvalue, if_neg]
    rw [List.length_append, length_bigEndian]
    omega

/-! ### Frames -/

/-- The frame that was sent. -/
def sentFrame (opcode : SentOpcode) (payload : Payload) : ClientFrame :=
  ⟨true, opcode.code, payload.bytes⟩

/-- A frame that was sent is read, whatever follows it. -/
theorem decode_sendFrame (opcode : SentOpcode) (payload : Payload) (mask : Mask) (more : List UInt8) :
    decodeFrame (sendFrame opcode payload mask ++ more) = some (sentFrame opcode payload, more) := by
  obtain ⟨second, form, hheader, hmasked, hlength⟩ :=
    exists_decodeLength opcode payload.fits
  obtain ⟨hreserved, hfin, hopcode⟩ := first_bits opcode
  set masked := maskBytes mask.bytes payload.bytes with hmaskedBytes
  have hmaskedLength : masked.length = payload.bytes.length := length_maskBytes _ _
  have hrest : (mask.bytes ++ (masked ++ more)).take 4 = mask.bytes := List.take_left' mask.four
  have hbody : (mask.bytes ++ (masked ++ more)).drop 4 = masked ++ more := List.drop_left' mask.four
  have hmore : (mask.bytes ++ (masked ++ more)).drop (4 + payload.bytes.length) = more := by
    rw [← List.drop_drop, hbody, List.drop_left' hmaskedLength]
  have hbytes : sendFrame opcode payload mask ++ more =
      (0x80 ||| opcode.code) :: second :: (form ++ (mask.bytes ++ (masked ++ more))) := by
    rw [sendFrame, hheader]
    simp only [List.cons_append, List.append_assoc, hmaskedBytes]
  rw [hbytes, decodeFrame, if_neg (by simp [hreserved, hmasked]), hlength]
  dsimp only
  rw [if_neg, hrest, hbody, hmore, List.take_left' hmaskedLength, hmaskedBytes, maskBytes_maskBytes,
    hopcode, decide_eq_true hfin]
  · rfl
  · simp only [List.length_append, mask.four, hmaskedLength]
    omega

/-- A frame to be sent, with its mask. -/
structure SentFrame where
  opcode : SentOpcode
  payload : Payload
  mask : Mask

/-- **Main.** What the wire sends is read as what was sent: one frame with nothing left over, and a sequence
    of frames as that sequence. -/
theorem decode_sendFrames :
    (∀ (opcode : SentOpcode) (payload : Payload) (mask : Mask),
      decodeFrame (sendFrame opcode payload mask) = some (⟨true, opcode.code, payload.bytes⟩, [])) ∧
    ∀ frames : List SentFrame,
      decodeFrames (frames.flatMap fun frame => sendFrame frame.opcode frame.payload frame.mask) =
        some (frames.map fun frame => ⟨true, frame.opcode.code, frame.payload.bytes⟩) := by
  constructor
  · intro opcode payload mask
    have hframe := decode_sendFrame opcode payload mask []
    rwa [List.append_nil] at hframe
  intro frames
  have hlength : ∀ frame : SentFrame,
      0 < (sendFrame frame.opcode frame.payload frame.mask).length := by
    intro frame
    simp only [sendFrame, List.length_append, frame.mask.four]
    omega
  suffices h : ∀ fuel, (frames.flatMap fun frame =>
      sendFrame frame.opcode frame.payload frame.mask).length ≤ fuel →
        decodeUpTo fuel (frames.flatMap fun frame =>
          sendFrame frame.opcode frame.payload frame.mask) =
            some (frames.map fun frame => ⟨true, frame.opcode.code, frame.payload.bytes⟩) from
    h _ le_rfl
  induction frames with
  | nil => intro fuel _; cases fuel <;> rfl
  | cons frame frames ih =>
    intro fuel hfuel
    rw [List.flatMap_cons, List.length_append] at hfuel
    have hpos := hlength frame
    obtain ⟨fuel, rfl⟩ := Nat.exists_eq_succ_of_ne_zero (show fuel ≠ 0 by omega)
    rw [List.flatMap_cons]
    have hne : sendFrame frame.opcode frame.payload frame.mask ++ (frames.flatMap fun frame =>
        sendFrame frame.opcode frame.payload frame.mask) ≠ [] := by
      intro hnil
      have := congrArg List.length hnil
      rw [List.length_append, List.length_nil] at this
      omega
    rw [decodeUpTo.eq_3 _ _ hne, decode_sendFrame]
    dsimp only
    rw [ih fuel (by omega)]
    rfl

end CodexFrames
