import Mathlib
import AgentHost.Lib.BigEndian
import AgentHost.Lib.JsonTexts
import AgentHost.Lib.StreamParser
import AgentHost.Lib.Utf8

/-!
# Connect streaming frames (`cursor-sdk-transport.js`, `connectJsonFrames` and `openStream`)

* `connectJsonFrames` — the frames that the chunks of a response yield, and the error after them, if any.
* `envelope` — how a request is encoded.
* `stream_frames` — **Main**: the chunks of at most 32 MiB do not matter, and a stream of encoded objects
  yields these objects; behind the first 50 000 frames there is an error.
* `many_frames` — a stream within the byte limits that does not yield its objects.
-/

namespace CursorStream

open JsonParse

def maxStreamFrameBytes : Nat := 1024 * 1024

def maxStreamBytes : Nat := 32 * 1024 * 1024

def maxStreamFrames : Nat := 50000

/-- `bridgeError`. -/
inductive BridgeError
  | invalidResponse | streamTooLarge
  deriving DecidableEq

def BridgeError.code : BridgeError → String
  | invalidResponse => "cursor_bridge_invalid_response"
  | streamTooLarge => "cursor_bridge_stream_too_large"

/-- What is yielded. -/
structure Frame where
  ended : Bool
  value : JsonValue

/-! ### Reading -/

/-- The variables of the loops but the bytes: the frames that were yielded, and the error that ended it. -/
structure Reader where
  frames : Nat
  ended : Bool
  yielded : List Frame
  error : Option BridgeError

def Reader.initial : Reader := ⟨0, false, [], none⟩

def Reader.fail (reader : Reader) (error : BridgeError) : Reader :=
  { reader with error := some error }

/-- The value of a payload. -/
def decodePayload (payload : List UInt8) : Option JsonValue :=
  if payload = [] then some (.object [])
  else
    match parse (String.ofList (Utf8.decodeLossy payload)) with
    | some (.object members) => some (.object members)
    | _ => none

/-- A pass of the inner loop; `none` where it stops or breaks off.  Of what is pending behind an error nothing
    is read. -/
def step (reader : Reader) (pending : List UInt8) : Option (Reader × List UInt8) :=
  if reader.error.isSome ∨ pending.length < 5 then none
  else if reader.ended then some (reader.fail .invalidResponse, pending.drop 5)
  else
    let flags := pending.getD 0 0
    let length := loadBytes pending 1 4
    if flags &&& ~~~0x02 ≠ 0 ∨ maxStreamFrameBytes < length then
      some (reader.fail .invalidResponse, pending.drop 5)
    else if pending.length < 5 + length then none
    else if maxStreamFrames < reader.frames + 1 then
      some (reader.fail .streamTooLarge, pending.drop 5)
    else
      match decodePayload ((pending.drop 5).take length) with
      | none => some (reader.fail .invalidResponse, pending.drop 5)
      | some value =>
        let ended := decide (flags &&& 0x02 ≠ 0)
        some ({ reader with
          frames := reader.frames + 1
          ended
          yielded := reader.yielded ++ [⟨ended, value⟩] }, pending.drop (5 + length))

theorem step_shrinks {reader reader' : Reader} {pending rest : List UInt8}
    (h : step reader pending = some (reader', rest)) : rest.length < pending.length := by
  unfold step at h
  split at h
  · cases h
  next hready =>
  have hlength : 5 ≤ pending.length := by
    rw [not_or] at hready
    omega
  have hdrop : ∀ n, (pending.drop (5 + n)).length < pending.length := by
    intro n
    rw [List.length_drop]
    omega
  dsimp only at h
  split at h
  · cases h
    exact hdrop 0
  split at h
  · cases h
    exact hdrop 0
  split at h
  · cases h
  split at h
  · cases h
    exact hdrop 0
  split at h
  · cases h
    exact hdrop 0
  · cases h
    exact hdrop _

/-- What the loop looks at does not change when more arrives. -/
theorem step_stable {reader reader' : Reader} {pending rest : List UInt8}
    (h : step reader pending = some (reader', rest)) (more : List UInt8) :
    step reader (pending ++ more) = some (reader', rest ++ more) := by
  unfold step at h ⊢
  split at h
  · cases h
  next hready =>
  rw [not_or] at hready
  have hlength : 5 ≤ pending.length := by omega
  have hready' : ¬ (reader.error.isSome = true ∨ (pending ++ more).length < 5) := by
    rw [List.length_append, not_or]
    exact ⟨hready.1, by omega⟩
  have hdrop : (pending ++ more).drop 5 = pending.drop 5 ++ more :=
    List.drop_append_of_le_length hlength
  have hflags : (pending ++ more).getD 0 0 = pending.getD 0 0 :=
    List.getD_append pending more 0 0 (by omega)
  have hload : loadBytes (pending ++ more) 1 4 = loadBytes pending 1 4 := by
    rw [loadBytes, loadBytes, List.drop_append_of_le_length (by omega),
      List.take_append_of_le_length (by rw [List.length_drop]; omega)]
  rw [if_neg hready']
  dsimp only at h ⊢
  rw [hflags, hload, hdrop]
  split at h
  · next hended =>
    cases h
    rw [if_pos hended]
  next hended =>
  rw [if_neg hended]
  split at h
  · next hheader =>
    cases h
    rw [if_pos hheader]
  next hheader =>
  rw [if_neg hheader]
  split at h
  · cases h
  next hbody =>
  rw [if_neg (by rw [List.length_append]; omega)]
  split at h
  · next hcount =>
    cases h
    rw [if_pos hcount]
  next hcount =>
  have htake : (pending.drop 5 ++ more).take (loadBytes pending 1 4) =
      (pending.drop 5).take (loadBytes pending 1 4) :=
    List.take_append_of_le_length (by rw [List.length_drop]; omega)
  rw [if_neg hcount, htake, List.drop_append_of_le_length (by omega)]
  split at h
  · cases h
    rfl
  · cases h
    rfl

/-- The inner loop. -/
def frameReader : StreamParser Reader UInt8 where
  step := step
  shrinks := step_shrinks
  stable := step_stable

/-- The state of the outer loop. -/
structure Stream where
  reader : Reader
  pending : List UInt8
  total : Nat

/-- A pass of the outer loop; there is none behind an error. -/
def receive (stream : Stream) (chunk : List UInt8) : Stream :=
  if stream.reader.error.isSome then stream
  else
    let total := stream.total + chunk.length
    if maxStreamBytes < total then
      { stream with reader := stream.reader.fail .streamTooLarge, total }
    else
      let (reader, pending) := frameReader.drain stream.reader (stream.pending ++ chunk)
      ⟨reader, pending, total⟩

/-- What follows the loops. -/
def finish (reader : Reader) (pending : List UInt8) : List Frame × Option BridgeError :=
  let error :=
    match reader.error with
    | some error => some error
    | none => if pending = [] then none else some .invalidResponse
  (reader.yielded, error)

/-- `connectJsonFrames`: what is yielded, and what is thrown after it. -/
def connectJsonFrames (chunks : List (List UInt8)) : List Frame × Option BridgeError :=
  let stream := chunks.foldl receive ⟨.initial, [], 0⟩
  finish stream.reader stream.pending

/-! ### Writing -/

/-- The bytes of a value. -/
def encoded (value : JsonValue) : List UInt8 := Utf8.encode value.stringify.toList

/-- The envelope of `openStream`, with a flag. -/
def envelope (frame : Frame) : List UInt8 :=
  (if frame.ended then 0x02 else 0) ::
    (bigEndian 4 (encoded frame.value).length ++ encoded frame.value)

/-- An object within the frame limit. -/
structure Payload where
  members : List (String × JsonValue)
  wellFormed : (JsonValue.object members).wellFormed = true
  fits : (encoded (.object members)).length ≤ maxStreamFrameBytes

/-- The frames of some objects; the last one may end the stream. -/
def framesOf : List Payload → Bool → List Frame
  | [], _ => []
  | [payload], ended => [⟨ended, .object payload.members⟩]
  | payload :: next :: payloads, ended =>
    ⟨false, .object payload.members⟩ :: framesOf (next :: payloads) ended

def encodeStream (payloads : List Payload) (ended : Bool) : List UInt8 :=
  (framesOf payloads ended).flatMap envelope

/-! ### Chunks -/

/-- Nothing is read behind an error. -/
theorem drain_of_error {reader : Reader} (h : reader.error.isSome = true) (input : List UInt8) :
    frameReader.drain reader input = (reader, input) := by
  refine StreamParser.drain_of_none ?_
  show step reader input = none
  rw [step, if_pos (.inl h)]

/-- The state after some chunks: the loop has read all that arrived before an error. -/
structure Received (all : List UInt8) (stream : Stream) : Prop where
  reader_eq : stream.reader = (frameReader.drain .initial all).1
  rest_eq : stream.reader.error = none →
    stream.pending = (frameReader.drain .initial all).2 ∧ stream.total = all.length

theorem received_nil : Received [] ⟨.initial, [], 0⟩ := by
  have hnone : frameReader.step .initial [] = none := rfl
  constructor
  · rw [StreamParser.drain_of_none hnone]
  · intro _
    rw [StreamParser.drain_of_none hnone]
    exact ⟨rfl, rfl⟩

theorem received_receive {all : List UInt8} {stream : Stream} (h : Received all stream)
    (chunk : List UInt8) (hlength : all.length + chunk.length ≤ maxStreamBytes) :
    Received (all ++ chunk) (receive stream chunk) := by
  have happend := frameReader.drain_append .initial all chunk
  rw [← h.reader_eq] at happend
  unfold receive
  by_cases herror : stream.reader.error.isSome = true
  · -- an error stays
    rw [drain_of_error herror] at happend
    rw [if_pos herror]
    refine ⟨by rw [happend], fun hnone => ?_⟩
    rw [hnone] at herror
    cases herror
  · have hnone : stream.reader.error = none := by simpa using herror
    obtain ⟨hpending, htotal⟩ := h.rest_eq hnone
    rw [← hpending] at happend
    rw [if_neg herror]
    dsimp only
    rw [if_neg (by omega)]
    refine ⟨by rw [happend], fun _ => ?_⟩
    rw [happend, htotal, List.length_append]
    exact ⟨rfl, rfl⟩

theorem received_chunks (chunks : List (List UInt8)) {all : List UInt8} {stream : Stream}
    (h : Received all stream) (hlength : all.length + chunks.flatten.length ≤ maxStreamBytes) :
    Received (all ++ chunks.flatten) (chunks.foldl receive stream) := by
  induction chunks generalizing all stream with
  | nil => simpa using h
  | cons chunk chunks ih =>
    rw [List.flatten_cons, List.length_append] at hlength
    have hnext := received_receive h chunk (by omega)
    rw [List.flatten_cons, ← List.append_assoc, List.foldl_cons]
    exact ih hnext (by rw [List.length_append]; omega)

/-- **Chunks.** Only all the bytes together matter. -/
theorem connectJsonFrames_eq {chunks : List (List UInt8)}
    (h : chunks.flatten.length ≤ maxStreamBytes) :
    connectJsonFrames chunks =
      finish (frameReader.drain .initial chunks.flatten).1
        (frameReader.drain .initial chunks.flatten).2 := by
  have hreceived := received_chunks chunks received_nil (by rw [List.length_nil]; omega)
  rw [List.nil_append] at hreceived
  unfold connectJsonFrames finish
  dsimp only
  rw [← hreceived.reader_eq]
  cases herror : (chunks.foldl receive ⟨.initial, [], 0⟩).reader.error with
  | some error => rfl
  | none => rw [(hreceived.rest_eq herror).1]

/-! ### Envelopes -/

theorem decodePayload_encoded (payload : Payload) :
    decodePayload (encoded (.object payload.members)) = some (.object payload.members) := by
  have hread := parse_stringify_value payload.wellFormed
  have htext : String.ofList (Utf8.decodeLossy (encoded (.object payload.members))) =
      (JsonValue.object payload.members).stringify := by
    rw [Utf8.decodeLossy, encoded, Utf8.decode_encode, List.map_map]
    simp
  have hne : encoded (.object payload.members) ≠ [] := by
    intro hnil
    have hempty : parse (String.ofList (Utf8.decodeLossy [])) = none := rfl
    rw [← htext, hnil, hempty] at hread
    cases hread
  rw [decodePayload, if_neg hne, htext, hread]

theorem fits_uint32 (payload : Payload) :
    (encoded (.object payload.members)).length < 256 ^ 4 :=
  payload.fits.trans_lt (by norm_num [maxStreamFrameBytes])

/-- One envelope is read, where the stream has not ended. -/
theorem step_envelope (payload : Payload) (ended : Bool) {reader : Reader}
    (herror : reader.error = none) (hended : reader.ended = false) (rest : List UInt8) :
    step reader (envelope ⟨ended, .object payload.members⟩ ++ rest) =
      if maxStreamFrames < reader.frames + 1 then
        some (reader.fail .streamTooLarge,
          encoded (.object payload.members) ++ rest)
      else
        some ({ reader with
          frames := reader.frames + 1
          ended
          yielded := reader.yielded ++ [⟨ended, .object payload.members⟩] }, rest) := by
  have hfits := payload.fits
  have hload : loadBytes (envelope ⟨ended, .object payload.members⟩ ++ rest) 1 4 =
      (encoded (.object payload.members)).length := by
    rw [loadBytes, envelope, List.cons_append, List.drop_succ_cons, List.drop_zero,
      List.append_assoc, List.take_left' (length_bigEndian 4 _),
      fromBigEndian_bigEndian (fits_uint32 payload)]
  have hdrop : (envelope ⟨ended, .object payload.members⟩ ++ rest).drop 5 =
      encoded (.object payload.members) ++ rest := by
    rw [envelope, List.cons_append, List.drop_succ_cons, List.append_assoc,
      List.drop_left' (length_bigEndian 4 _)]
  have hlength : (envelope ⟨ended, .object payload.members⟩ ++ rest).length =
      5 + ((encoded (.object payload.members)).length + rest.length) := by
    simp [envelope]
    omega
  have hflags : (envelope ⟨ended, .object payload.members⟩ ++ rest).getD 0 0 =
      if ended then 0x02 else 0 := rfl
  have hclear : (if ended then 0x02 else 0 : UInt8) &&& ~~~0x02 = 0 ∧
      decide ((if ended then 0x02 else 0 : UInt8) &&& 0x02 ≠ 0) = ended := by
    cases ended <;> decide
  have hbody : (envelope ⟨ended, .object payload.members⟩ ++ rest).drop
      (5 + (encoded (.object payload.members)).length) = rest := by
    rw [← List.drop_drop, hdrop, List.drop_left]
  have hread := decodePayload_encoded payload
  -- from here on only these facts about the bytes count
  generalize envelope ⟨ended, .object payload.members⟩ ++ rest = pending at *
  generalize encoded (.object payload.members) = bytes at *
  have hready : ¬ (reader.error.isSome = true ∨ pending.length < 5) := by
    rw [herror, hlength]
    simp
  have hheader : ¬ ((if ended then 0x02 else 0 : UInt8) &&& ~~~0x02 ≠ 0 ∨
      maxStreamFrameBytes < bytes.length) := by
    rw [not_or, not_not, not_lt]
    exact ⟨hclear.1, hfits⟩
  have hcomplete : ¬ pending.length < 5 + bytes.length := by
    rw [hlength]
    omega
  have hopen : ¬ reader.ended = true := by
    rw [hended]
    decide
  rw [step, if_neg hready, if_neg hopen]
  show ite _ _ _ = _
  rw [hload, hflags, if_neg hheader, if_neg hcomplete, hdrop, hbody, List.take_left, hread]
  show ite _ _ (some _) = _
  rw [hclear.2]

/-- A stream of envelopes is read from the state behind some frames. -/
theorem drain_encodeStream (payloads : List Payload) (ended : Bool) {reader : Reader}
    (herror : reader.error = none) (hended : reader.ended = false)
    (hframes : reader.frames ≤ maxStreamFrames) :
    finish (frameReader.drain reader (encodeStream payloads ended)).1
        (frameReader.drain reader (encodeStream payloads ended)).2 =
      if reader.frames + payloads.length ≤ maxStreamFrames then
        (reader.yielded ++ framesOf payloads ended, none)
      else
        (reader.yielded ++ (framesOf payloads ended).take (maxStreamFrames - reader.frames),
          some .streamTooLarge) := by
  induction payloads generalizing reader with
  | nil =>
    have hnone : frameReader.step reader (encodeStream [] ended) = none := by
      show step reader [] = none
      rw [step, if_pos (.inr (by decide))]
    rw [StreamParser.drain_of_none hnone, List.length_nil, Nat.add_zero, if_pos hframes]
    unfold finish encodeStream framesOf
    rw [herror, List.append_nil]
    rfl
  | cons payload payloads ih =>
    -- the last frame may end the stream, the others do not
    obtain ⟨flag, hframe, hnext⟩ : ∃ flag,
        framesOf (payload :: payloads) ended =
          ⟨flag, .object payload.members⟩ :: framesOf payloads ended ∧
        (payloads ≠ [] → flag = false) := by
      cases payloads with
      | nil => exact ⟨ended, rfl, fun h => absurd rfl h⟩
      | cons next payloads => exact ⟨false, rfl, fun _ => rfl⟩
    have hstream : encodeStream (payload :: payloads) ended =
        envelope ⟨flag, .object payload.members⟩ ++ encodeStream payloads ended := by
      rw [encodeStream, hframe, List.flatMap_cons, encodeStream]
    have hstep : frameReader.step reader
        (envelope ⟨flag, .object payload.members⟩ ++ encodeStream payloads ended) = _ :=
      step_envelope payload flag herror hended (encodeStream payloads ended)
    rw [hstream, hframe]
    by_cases hcount : maxStreamFrames < reader.frames + 1
    · rw [if_pos hcount] at hstep
      have hfailed : (reader.fail .streamTooLarge).error.isSome = true := rfl
      rw [StreamParser.drain_of_some hstep, drain_of_error hfailed,
        if_neg (by rw [List.length_cons]; omega)]
      have hzero : maxStreamFrames - reader.frames = 0 := by omega
      rw [hzero, List.take_zero, List.append_nil]
      rfl
    · rw [if_neg hcount] at hstep
      rw [StreamParser.drain_of_some hstep]
      cases payloads with
      | nil =>
        have hnone : frameReader.step { reader with
            frames := reader.frames + 1
            ended := flag
            yielded := reader.yielded ++ [⟨flag, .object payload.members⟩] }
            (encodeStream [] ended) = none := by
          show step _ [] = none
          rw [step, if_pos (.inr (by decide))]
        rw [StreamParser.drain_of_none hnone, List.length_singleton, if_pos (by omega)]
        unfold finish encodeStream framesOf
        dsimp only
        rw [herror]
        rfl
      | cons next payloads =>
        obtain rfl := hnext (List.cons_ne_nil _ _)
        obtain ⟨later, hlater⟩ : ∃ later : Reader, later = { reader with
          frames := reader.frames + 1
          ended := false
          yielded := reader.yielded ++ [⟨false, .object payload.members⟩] } := ⟨_, rfl⟩
        have hlaterError : later.error = none := by rw [hlater]; exact herror
        have hlaterEnded : later.ended = false := by rw [hlater]
        have hlaterFrames : later.frames = reader.frames + 1 := by rw [hlater]
        have hlaterYielded : later.yielded =
            reader.yielded ++ [⟨false, .object payload.members⟩] := by rw [hlater]
        rw [← hlater, ih hlaterError hlaterEnded (by omega), hlaterFrames,
          hlaterYielded, List.length_cons, List.length_cons]
        have hshift : reader.frames + 1 + (payloads.length + 1) =
            reader.frames + (payloads.length + 1 + 1) := by omega
        have htake : maxStreamFrames - reader.frames = maxStreamFrames - (reader.frames + 1) + 1 := by
          omega
        rw [hshift, htake, List.take_succ_cons, List.append_assoc, List.append_assoc]
        rfl

/-! ### Streams -/

/-- **Main.** The chunks of a stream do not matter, and encoded objects are read as these objects, up to the
    limit for frames. -/
theorem stream_frames :
    (∀ chunks : List (List UInt8), chunks.flatten.length ≤ maxStreamBytes →
      connectJsonFrames chunks = connectJsonFrames [chunks.flatten]) ∧
    (∀ (payloads : List Payload) (ended : Bool) (chunks : List (List UInt8)),
      chunks.flatten = encodeStream payloads ended → chunks.flatten.length ≤ maxStreamBytes →
      connectJsonFrames chunks =
        if payloads.length ≤ maxStreamFrames then (framesOf payloads ended, none)
        else ((framesOf payloads ended).take maxStreamFrames, some .streamTooLarge)) := by
  constructor
  · intro chunks hlength
    have hone : [chunks.flatten].flatten = chunks.flatten := by simp
    rw [connectJsonFrames_eq hlength, connectJsonFrames_eq (by rwa [hone]), hone]
  · intro payloads ended chunks hstream hlength
    have hread : finish (frameReader.drain .initial (encodeStream payloads ended)).1
        (frameReader.drain .initial (encodeStream payloads ended)).2 = _ :=
      drain_encodeStream payloads ended rfl rfl (Nat.zero_le _)
    rw [connectJsonFrames_eq hlength, hstream, hread]
    simp only [Reader.initial, Nat.zero_add, List.nil_append, Nat.sub_zero]

theorem encoded_empty : encoded (.object []) = [123, 125] := by
  rw [encoded, JsonValue.stringify, String.toList_ofList]
  rfl

/-- The object without members. -/
def emptyPayload : Payload :=
  ⟨[], rfl, by rw [encoded_empty]; exact Nat.le_of_ble_eq_true rfl⟩

theorem length_encodeStream_replicate (n : Nat) :
    (encodeStream (List.replicate n emptyPayload) false).length = 7 * n := by
  induction n with
  | zero => rfl
  | succ n ih =>
    have hframes : ∀ m, framesOf (List.replicate (m + 1) emptyPayload) false =
        ⟨false, .object []⟩ :: framesOf (List.replicate m emptyPayload) false := by
      intro m
      cases m <;> rfl
    have hlength : (envelope ⟨false, .object []⟩).length = 7 := by
      rw [envelope, encoded_empty]
      rfl
    rw [encodeStream, hframes, List.flatMap_cons, List.length_append, hlength, ← encodeStream, ih]
    omega

/-- Two chunks, of a stream of two objects. -/
theorem stream_frames_two :
    connectJsonFrames [(encodeStream [emptyPayload, emptyPayload] true).take 3,
        (encodeStream [emptyPayload, emptyPayload] true).drop 3] =
      ([⟨false, .object []⟩, ⟨true, .object []⟩], none) := by
  have hchunks : [(encodeStream [emptyPayload, emptyPayload] true).take 3,
      (encodeStream [emptyPayload, emptyPayload] true).drop 3].flatten =
      encodeStream [emptyPayload, emptyPayload] true := by
    simp
  have hlength : (encodeStream [emptyPayload, emptyPayload] true).length ≤ maxStreamBytes := by
    have hframes : framesOf [emptyPayload, emptyPayload] true =
        [⟨false, .object []⟩, ⟨true, .object []⟩] := rfl
    rw [encodeStream, hframes, List.flatMap_cons, List.flatMap_singleton, envelope, envelope,
      encoded_empty]
    exact Nat.le_of_ble_eq_true rfl
  exact stream_frames.2 [emptyPayload, emptyPayload] true _ hchunks (by rwa [hchunks])

/-- More empty objects than the limit for frames do not come through. -/
theorem replicate_ne {n : Nat} (hframes : maxStreamFrames < n) (hbytes : 7 * n ≤ maxStreamBytes) :
    (encodeStream (List.replicate n emptyPayload) false).length ≤ maxStreamBytes ∧
      connectJsonFrames [encodeStream (List.replicate n emptyPayload) false] ≠
        (framesOf (List.replicate n emptyPayload) false, none) := by
  have hlength : (encodeStream (List.replicate n emptyPayload) false).length ≤ maxStreamBytes := by
    rwa [length_encodeStream_replicate]
  have hflatten : [encodeStream (List.replicate n emptyPayload) false].flatten =
      encodeStream (List.replicate n emptyPayload) false := by simp
  refine ⟨hlength, fun h => ?_⟩
  rw [connectJsonFrames_eq (by rwa [hflatten]), hflatten, drain_encodeStream _ _ rfl rfl
    (Nat.zero_le _), List.length_replicate, if_neg (by simpa [Reader.initial] using hframes)] at h
  cases congrArg Prod.snd h

/-- 50 001 empty objects do not come through, though they take 350 007 bytes. -/
theorem many_frames :
    (encodeStream (List.replicate 50001 emptyPayload) false).length ≤ maxStreamBytes ∧
      connectJsonFrames [encodeStream (List.replicate 50001 emptyPayload) false] ≠
        (framesOf (List.replicate 50001 emptyPayload) false, none) :=
  replicate_ne (by norm_num [maxStreamFrames]) (by norm_num [maxStreamBytes])

end CursorStream
