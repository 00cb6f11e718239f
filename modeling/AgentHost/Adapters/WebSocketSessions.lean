import AgentHost.Adapters.WebSocketDelivery
import AgentHost.Lib.WebSocket

namespace AgentHost

/-!
# Well-formed sessions of the websocket wire

The wire makes of a well-formed session what the protocol prescribes.

* `WebSocketWire.nextFrame_encode` — a frame is read back from its bytes.
* `WebSocketWire.Reaches` — some bytes lead a wire to another one, whatever follows them.
* `WebSocketWire.Reaches.message` — a message in fragments is delivered after the answers to the
  control frames in it.
* `WebSocketWire.reaches_session` — the elements of a session, one after the other.
-/

open WebSocket (Frame Control Data Fragment Message Element Session Effect)

/-- What an output is for the protocol. -/
def WireOutput.effects : WireOutput → List Effect
  | .opened => [.established]
  | .message text => [.message (.text text)]
  | .pong payload => [.pong payload]
  | .closeSent payload => [.close payload]
  | .failed _ => [.fail]
  | .closed | .closeCalled => []

namespace WebSocketWire

variable {w : WebSocketWire} {bytes more : List UInt8}

/-! ### Reading a frame back -/

/-- The opcodes that the protocol defines. -/
def definedOpcodes : List UInt8 := [0x0, 0x1, 0x2, 0x8, 0x9, 0xA]

theorem text_defined : (0x1 : UInt8) ∈ definedOpcodes := by decide

theorem continuation_defined : (0x0 : UInt8) ∈ definedOpcodes := by decide

theorem first_bits {frame : Frame} (h : frame.opcode ∈ definedOpcodes) :
    frame.first &&& 0x70 = 0 ∧ frame.first &&& 0x0f = frame.opcode ∧
      decide (frame.first &&& 0x80 ≠ 0) = frame.fin := by
  have hall : ∀ fin : Bool, ∀ opcode ∈ definedOpcodes,
      ((if fin then 0x80 else 0) ||| opcode) &&& 0x70 = 0 ∧
        ((if fin then 0x80 else 0) ||| opcode) &&& 0x0f = opcode ∧
        decide (((if fin then 0x80 else 0) ||| opcode) &&& 0x80 ≠ 0) = fin := by
    intro fin
    refine List.all_iff_forall_prop.mp ?_
    cases fin <;> decide
  exact hall frame.fin frame.opcode h

theorem short_length {n : Nat} (h : n ≤ 125) :
    UInt8.ofNat n &&& 0x80 = 0 ∧ (UInt8.ofNat n &&& 0x7f).toNat = n := by
  have hall : ∀ m : Fin 126, UInt8.ofNat m &&& 0x80 = 0 ∧ (UInt8.ofNat m &&& 0x7f).toNat = m := by
    decide
  exact hall ⟨n, by omega⟩

theorem bigEndian_two {n : Nat} (h : n < 65536) :
    bigEndian [UInt8.ofNat (n / 256), UInt8.ofNat (n % 256)] = n := by
  simp only [bigEndian, List.foldl_cons, List.foldl_nil, UInt8.toNat_ofNat']
  omega

theorem bigEndian_eight {n : Nat} (h : n < 2 ^ 63) :
    bigEndian [UInt8.ofNat (n / 72057594037927936 % 256),
      UInt8.ofNat (n / 281474976710656 % 256), UInt8.ofNat (n / 1099511627776 % 256),
      UInt8.ofNat (n / 4294967296 % 256), UInt8.ofNat (n / 16777216 % 256),
      UInt8.ofNat (n / 65536 % 256), UInt8.ofNat (n / 256 % 256), UInt8.ofNat (n % 256)] = n := by
  have hbyte : ∀ m, (UInt8.ofNat (m % 256)).toNat = m % 256 := fun m =>
    Utf8.toNat_ofNat (Nat.mod_lt m (by decide))
  simp only [bigEndian, List.foldl_cons, List.foldl_nil, hbyte]
  -- every quotient is the one before it divided by 256
  have hquotient : ∀ a, n / (a * 256) = n / a / 256 := fun a => (Nat.div_div_eq_div_mul n a 256).symm
  have h2 := hquotient 256
  have h3 := hquotient 65536
  have h4 := hquotient 16777216
  have h5 := hquotient 4294967296
  have h6 := hquotient 1099511627776
  have h7 := hquotient 281474976710656
  norm_num only at h2 h3 h4 h5 h6 h7
  rw [h7, h6, h5, h4, h3, h2]
  generalize hq1 : n / 256 = q1
  generalize hq2 : q1 / 256 = q2
  generalize hq3 : q2 / 256 = q3
  generalize hq4 : q3 / 256 = q4
  generalize hq5 : q4 / 256 = q5
  generalize hq6 : q5 / 256 = q6
  omega

/-- The length of a header that stands before a payload. -/
theorem frameLength_encode {first : UInt8} {n : Nat} (hn : n < 2 ^ 63) (hmax : n ≤ w.maxPayloadBytes)
    {second : UInt8} {tail : List UInt8} (hbytes : WebSocket.lengthBytes n = second :: tail)
    (hbuffer : w.buffer = first :: (WebSocket.lengthBytes n ++ more)) :
    second &&& 0x80 = 0 ∧
      w.frameLength second = .ok (some (n, (WebSocket.lengthBytes n).length + 1)) := by
  unfold frameLength
  rw [hbuffer]
  unfold WebSocket.lengthBytes at hbytes ⊢
  split at hbytes
  · next hshort =>
    obtain ⟨rfl, rfl⟩ := List.cons.inj hbytes
    obtain ⟨hmask, hlength⟩ := short_length hshort
    refine ⟨hmask, ?_⟩
    dsimp only
    rw [hlength, if_neg (by omega), if_neg (by omega), if_pos hshort]
    rfl
  split at hbytes
  · next hlong htwo =>
    obtain ⟨rfl, rfl⟩ := List.cons.inj hbytes
    refine ⟨rfl, ?_⟩
    rw [if_neg hlong, if_pos htwo]
    have h126 : ((126 : UInt8) &&& 0x7f).toNat = 126 := rfl
    dsimp only
    rw [h126, if_pos rfl, if_neg (by simp)]
    show Except.ok (some (bigEndian [_, _], 4)) = _
    rw [bigEndian_two htwo]
    rfl
  · next hlong htwo =>
    obtain ⟨rfl, rfl⟩ := List.cons.inj hbytes
    refine ⟨rfl, ?_⟩
    rw [if_neg hlong, if_neg htwo]
    have h127 : ((127 : UInt8) &&& 0x7f).toNat = 127 := rfl
    dsimp only
    rw [h127, if_neg (by decide), if_pos rfl, if_neg (by simp)]
    show (if bigEndian [_, _, _, _, _, _, _, _] > w.maxPayloadBytes then _ else
      Except.ok (some (bigEndian [_, _, _, _, _, _, _, _], 10))) = _
    rw [bigEndian_eight hn, if_neg (Nat.not_lt.mpr hmax)]
    rfl

/-- A frame fits what the wire holds already. -/
def Admits (w : WebSocketWire) (frame : Frame) : Prop :=
  frame.opcode ∈ definedOpcodes ∧ frame.payload.length < 2 ^ 63 ∧
    frame.payload.length ≤ w.maxPayloadBytes ∧
    (frame.opcode = 0x0 ∨ frame.opcode = 0x1 ∨ frame.opcode = 0x2 →
      w.fragmentBytes + frame.payload.length ≤ w.maxPayloadBytes)

/-- **Frame.** The bytes of a frame are read back as that frame. -/
theorem nextFrame_encode {frame : Frame} (h : w.Admits frame) :
    { w with buffer := frame.encode ++ more }.nextFrame
      = .ok (some (⟨frame.opcode, frame.fin, frame.payload⟩, more)) := by
  obtain ⟨hopcode, hn, hmax, hdata⟩ := h
  obtain ⟨hrsv, hcode, hfin⟩ := first_bits hopcode
  obtain ⟨second, tail, hbytes⟩ : ∃ second tail,
      WebSocket.lengthBytes frame.payload.length = second :: tail := by
    unfold WebSocket.lengthBytes
    split
    · exact ⟨_, _, rfl⟩
    split
    · exact ⟨_, _, rfl⟩
    · exact ⟨_, _, rfl⟩
  have hbuffer : frame.encode ++ more = frame.first ::
      (WebSocket.lengthBytes frame.payload.length ++ (frame.payload ++ more)) := by
    simp [Frame.encode, List.append_assoc]
  obtain ⟨hmask, hlength⟩ := frameLength_encode (w := { w with buffer := frame.encode ++ more })
    hn hmax hbytes hbuffer
  -- the header and the payload are cut off where they end
  have hdrop : (frame.encode ++ more).drop
      ((WebSocket.lengthBytes frame.payload.length).length + 1) = frame.payload ++ more := by
    rw [hbuffer, List.drop_succ_cons, List.drop_left]
  have hcons : frame.encode ++ more = frame.first :: second :: (tail ++ (frame.payload ++ more)) := by
    rw [hbuffer, hbytes, List.cons_append]
  unfold nextFrame
  rw [show ({ w with buffer := frame.encode ++ more } : WebSocketWire).buffer
    = frame.first :: second :: (tail ++ (frame.payload ++ more)) from hcons]
  dsimp only
  rw [if_neg (not_not.mpr hrsv), if_neg (not_not.mpr hmask), hlength]
  dsimp only
  rw [hcode, if_neg, if_neg]
  · rw [← hcons, hdrop, ← List.drop_drop, hdrop, List.take_left, List.drop_left, hfin]
  · rw [← hcons, hbuffer, List.length_cons, List.length_append, List.length_append]
    omega
  · rw [not_or, not_and]
    exact ⟨Nat.not_lt.mpr hmax, fun hd => Nat.not_lt.mpr (hdata hd)⟩

/-! ### What bytes lead to -/

/-- Some bytes lead a wire to another one, whatever follows them. -/
def Reaches (w : WebSocketWire) (bytes : List UInt8) (next : WebSocketWire) : Prop :=
  ∀ more, parser.drain w (bytes ++ more) = parser.drain next more

theorem Reaches.refl (w : WebSocketWire) : w.Reaches [] w := fun _ => rfl

theorem Reaches.trans {a b c : WebSocketWire} {left right : List UInt8} (hab : a.Reaches left b)
    (hbc : b.Reaches right c) : a.Reaches (left ++ right) c := by
  intro more
  rw [List.append_assoc, hab, hbc]

/-- An open wire without a buffer: the fragments it holds and what it has done since `w`. -/
def stage (w : WebSocketWire) (fragments : List (List UInt8)) (outputs : List WireOutput) :
    WebSocketWire :=
  { w with
    state := .opened
    buffer := []
    fragments := fragments
    fragmentBytes := fragments.flatten.length
    outputs := w.outputs ++ outputs }

variable {fragments : List (List UInt8)} {outputs : List WireOutput}

/-- A frame that the wire handles. -/
theorem Reaches.frame {frame : Frame} {next : WebSocketWire}
    (hadmits : (w.stage fragments outputs).Admits frame)
    (hframe : (w.stage fragments outputs).handleFrame ⟨frame.opcode, frame.fin, frame.payload⟩
      = .ok next) : (w.stage fragments outputs).Reaches frame.encode next := by
  intro more
  refine StreamParser.drain_of_some ?_
  have hitem := parseItem_opened (w := w.stage fragments outputs) rfl (frame.encode ++ more)
  have hbare : { w.stage fragments outputs with buffer := [] } = w.stage fragments outputs := rfl
  rw [nextFrame_encode hadmits] at hitem
  dsimp only at hitem
  rw [hbare, hframe] at hitem
  exact hitem

/-- The answer to a control frame. -/
def controlOutputs : Control → List WireOutput
  | .ping payload => [.pong payload]
  | .pong _ => []

variable (fragments outputs)

/-- A control frame is answered, whatever fragments the wire holds. -/
theorem Reaches.control {control : Control} (h : control.WellFormed)
    (hmax : control.payload.length ≤ w.maxPayloadBytes) :
    (w.stage fragments outputs).Reaches control.frame.encode
      (w.stage fragments (outputs ++ controlOutputs control)) := by
  have hlength : control.payload.length < 2 ^ 63 := by
    have hle : control.payload.length ≤ 125 := h
    omega
  cases control with
  | ping payload =>
    show (w.stage fragments outputs).Reaches (Frame.encode ⟨true, 0x9, payload⟩) _
    have hopcode : (0x9 : UInt8) ∈ definedOpcodes := by decide
    refine Reaches.frame ⟨hopcode, hlength, hmax, fun hdata => ?_⟩ ?_
    · have hcontrol : ¬ ((0x9 : UInt8) = 0x0 ∨ (0x9 : UInt8) = 0x1 ∨ (0x9 : UInt8) = 0x2) := by
        decide
      exact absurd hdata hcontrol
    · have hshort : payload.length ≤ 125 := h
      simp [handleFrame, hshort, stage, emit, controlOutputs]
  | pong payload =>
    show (w.stage fragments outputs).Reaches (Frame.encode ⟨true, 0xA, payload⟩) _
    have hopcode : (0xA : UInt8) ∈ definedOpcodes := by decide
    refine Reaches.frame ⟨hopcode, hlength, hmax, fun hdata => ?_⟩ ?_
    · have hcontrol : ¬ ((0xA : UInt8) = 0x0 ∨ (0xA : UInt8) = 0x1 ∨ (0xA : UInt8) = 0x2) := by
        decide
      exact absurd hdata hcontrol
    · have hshort : payload.length ≤ 125 := h
      simp [handleFrame, hshort, stage, controlOutputs]

/-- What the limits ask of a control frame. -/
def ControlFits (maxPayloadBytes : Nat) (control : Control) : Prop :=
  control.WellFormed ∧ control.payload.length ≤ maxPayloadBytes

theorem Reaches.controls {controls : List Control}
    (h : ∀ control ∈ controls, ControlFits w.maxPayloadBytes control) :
    (w.stage fragments outputs).Reaches ((controls.map Control.frame).flatMap Frame.encode)
      (w.stage fragments (outputs ++ controls.flatMap controlOutputs)) := by
  induction controls generalizing outputs with
  | nil =>
    rw [List.flatMap_nil, List.append_nil]
    exact Reaches.refl _
  | cons control controls ih =>
    obtain ⟨hwf, hmax⟩ := h control List.mem_cons_self
    have hfirst := Reaches.control (w := w) fragments outputs hwf hmax
    have hrest := ih (outputs ++ controlOutputs control)
      fun c hc => h c (List.mem_cons_of_mem _ hc)
    have hboth := hfirst.trans hrest
    rwa [List.append_assoc] at hboth

/-- The first fragment of a text. -/
theorem Reaches.begin (payload : List UInt8) (hlength : payload.length < 2 ^ 63)
    (hmax : payload.length ≤ w.maxPayloadBytes) :
    (w.stage [] outputs).Reaches (Frame.encode ⟨false, 0x1, payload⟩)
      (w.stage [payload] outputs) := by
  refine Reaches.frame ⟨text_defined, hlength, hmax, fun _ => ?_⟩ ?_
  · show 0 + payload.length ≤ _
    rw [Nat.zero_add]
    exact hmax
  · simp [handleFrame, endMessage, stage]

variable {fragments}

/-- A fragment that continues it. -/
theorem Reaches.continue {payload : List UInt8} (hne : fragments ≠ [])
    (hlength : payload.length < 2 ^ 63)
    (hmax : fragments.flatten.length + payload.length ≤ w.maxPayloadBytes) :
    (w.stage fragments outputs).Reaches (Frame.encode ⟨false, 0x0, payload⟩)
      (w.stage (fragments ++ [payload]) outputs) := by
  refine Reaches.frame ⟨continuation_defined, hlength, ?_, fun _ => hmax⟩ ?_
  · exact le_trans (Nat.le_add_left _ _) hmax
  · simp [handleFrame, endMessage, stage, hne]

/-- The wire's owner takes the messages and does nothing else. -/
def Takes (w : WebSocketWire) : Prop := ∀ messages, w.onMessage messages = .returns

/-- The last frame of a message delivers its text. -/
theorem endMessage_stage (htakes : w.Takes) {text : List Char}
    (htext : Utf8.decodeFatal fragments.flatten = some text) :
    (w.stage fragments outputs).endMessage true
      = .ok (w.stage [] (outputs ++ [.message text])) := by
  have hconcat : concatBuffers fragments fragments.flatten.length = fragments.flatten := by
    rw [concatBuffers, List.take_length, Nat.sub_self, List.replicate_zero, List.append_nil]
  simp only [endMessage, stage, hconcat, htext, emit, messages, htakes _]
  simp

theorem Reaches.finish (htakes : w.Takes) (payload : List UInt8) (text : List Char)
    (hne : fragments ≠ []) (hlength : payload.length < 2 ^ 63)
    (hmax : fragments.flatten.length + payload.length ≤ w.maxPayloadBytes)
    (htext : Utf8.decodeFatal (fragments.flatten ++ payload) = some text) :
    (w.stage fragments outputs).Reaches (Frame.encode ⟨true, 0x0, payload⟩)
      (w.stage [] (outputs ++ [.message text])) := by
  refine Reaches.frame ⟨continuation_defined, hlength, ?_, fun _ => hmax⟩ ?_
  · exact le_trans (Nat.le_add_left _ _) hmax
  · have hall : Utf8.decodeFatal (fragments ++ [payload]).flatten = some text := by
      simpa using htext
    have hend := endMessage_stage outputs htakes hall
    rw [← hend]
    simp [handleFrame, stage, hne]

/-- A message in one frame. -/
theorem Reaches.whole (htakes : w.Takes) {payload : List UInt8} {text : List Char}
    (hlength : payload.length < 2 ^ 63) (hmax : payload.length ≤ w.maxPayloadBytes)
    (htext : Utf8.decodeFatal payload = some text) :
    (w.stage [] outputs).Reaches (Frame.encode ⟨true, 0x1, payload⟩)
      (w.stage [] (outputs ++ [.message text])) := by
  refine Reaches.frame ⟨text_defined, hlength, hmax, fun _ => ?_⟩ ?_
  · show 0 + payload.length ≤ _
    rw [Nat.zero_add]
    exact hmax
  · have hall : Utf8.decodeFatal [payload].flatten = some text := by simpa using htext
    have hend := endMessage_stage outputs htakes hall
    rw [← hend]
    simp [handleFrame, stage]

/-- The answers to the control frames between fragments. -/
def fragmentOutputs (fragment : Fragment) : List WireOutput := fragment.2.flatMap controlOutputs

/-- Fragments that continue a message, each followed by control frames. -/
theorem Reaches.continues (more : List Fragment) (hne : fragments ≠ [])
    (hlength : ∀ fragment ∈ more, fragment.1.length < 2 ^ 63)
    (hmax : fragments.flatten.length + (more.map Prod.fst).flatten.length ≤ w.maxPayloadBytes)
    (hcontrols : ∀ fragment ∈ more, ∀ control ∈ fragment.2,
      ControlFits w.maxPayloadBytes control) :
    (w.stage fragments outputs).Reaches
      ((more.flatMap (Fragment.frames 0x0)).flatMap Frame.encode)
      (w.stage (fragments ++ more.map Prod.fst) (outputs ++ more.flatMap fragmentOutputs)) := by
  induction more generalizing fragments outputs with
  | nil =>
    simp only [List.map_nil, List.flatMap_nil, List.append_nil]
    exact Reaches.refl _
  | cons fragment more ih =>
    rw [List.map_cons, List.flatten_cons, List.length_append] at hmax
    have hfirst := Reaches.continue (w := w) outputs hne
      (hlength fragment List.mem_cons_self) (by omega)
    have hcontrol := Reaches.controls (w := w) (fragments ++ [fragment.1]) outputs
      (hcontrols fragment List.mem_cons_self)
    have hrest := ih (outputs ++ fragmentOutputs fragment)
      (show fragments ++ [fragment.1] ≠ [] by simp)
      (fun f hf => hlength f (List.mem_cons_of_mem _ hf))
      (by simp only [List.flatten_append, List.flatten_singleton, List.length_append]; omega)
      (fun f hf => hcontrols f (List.mem_cons_of_mem _ hf))
    have hall := (hfirst.trans hcontrol).trans hrest
    simpa [Fragment.frames, List.append_assoc, fragmentOutputs] using hall

/-- What a message is for the wire, where it is one of text. -/
structure TextFits (maxPayloadBytes : Nat) (message : Message) (text : List Char) : Prop where
  wellFormed : message.WellFormed
  data : message.data = .text text
  unmarked : text.head? ≠ some Utf8.byteOrderMark
  payload : message.payload.length ≤ maxPayloadBytes
  controls : ∀ fragment ∈ message.earlier, ∀ control ∈ fragment.2,
    ControlFits maxPayloadBytes control

def messageOutputs (message : Message) (text : List Char) : List WireOutput :=
  message.earlier.flatMap fragmentOutputs ++ [.message text]

/-- **Message.** A message in fragments is delivered, after the answers to the control frames that
    stand in it. -/
theorem Reaches.message (htakes : w.Takes) {message : Message} {text : List Char}
    (h : TextFits w.maxPayloadBytes message text) :
    (w.stage [] outputs).Reaches (message.frames.flatMap Frame.encode)
      (w.stage [] (outputs ++ messageOutputs message text)) := by
  obtain ⟨⟨hbytes, hlength, _⟩, hdata, hmark, hmax, hcontrols⟩ := h
  obtain ⟨data, earlier, last⟩ := message
  obtain rfl : data = .text text := hdata
  have hpayload : (earlier.map Prod.fst).flatten ++ last = Utf8.encode text := hbytes
  have htext : Utf8.decodeFatal (Utf8.encode text) = some text := by
    rw [Utf8.decodeFatal_encode]
    cases text with
    | nil => rfl
    | cons c cs =>
      have hne : c ≠ Utf8.byteOrderMark := fun heq => hmark (by rw [heq]; rfl)
      rw [Utf8.dropMark, if_neg hne]
  have hlength : ((earlier.map Prod.fst).flatten ++ last).length < 2 ^ 63 := hlength
  have hmax : ((earlier.map Prod.fst).flatten ++ last).length ≤ w.maxPayloadBytes := hmax
  cases earlier with
  | nil =>
    have hwhole := Reaches.whole (w := w) outputs htakes hlength hmax
      (hpayload ▸ htext)
    simpa [Message.frames, messageOutputs, Data.opcode] using hwhole
  | cons first more =>
    simp only [List.map_cons, List.flatten_cons, List.length_append] at hlength hmax
    have hmore : ∀ fragment ∈ more, fragment.1.length ≤ ((more.map Prod.fst).flatten).length := by
      intro fragment hfragment
      exact (List.sublist_flatten_of_mem (List.mem_map_of_mem hfragment)).length_le
    have hbegin := Reaches.begin (w := w) outputs first.1 (by omega) (by omega)
    have hcontrol := Reaches.controls (w := w) [first.1] outputs
      (hcontrols first List.mem_cons_self)
    have hfragments := Reaches.continues (w := w) (outputs ++ fragmentOutputs first) more
      (show [first.1] ≠ [] by simp)
      (fun f hf => by have := hmore f hf; omega)
      (by simp only [List.flatten_singleton]; omega)
      (fun f hf => hcontrols f (List.mem_cons_of_mem _ hf))
    have hfinish := Reaches.finish
      (outputs ++ fragmentOutputs first ++ more.flatMap fragmentOutputs) htakes last text
      (show [first.1] ++ more.map Prod.fst ≠ [] by simp) (by omega)
      (by simp only [List.flatten_append, List.flatten_singleton, List.length_append]; omega)
      (by
        rw [← htext, ← hpayload]
        simp)
    have hall := ((hbegin.trans hcontrol).trans hfragments).trans hfinish
    simpa [Message.frames, messageOutputs, Data.opcode, Fragment.frames, fragmentOutputs,
      List.append_assoc] using hall

/-- What the limits ask of the elements of a session, where every message is one of text without a
    byte order mark. -/
def ElementFits (maxPayloadBytes : Nat) : Element → Prop
  | .control control => ControlFits maxPayloadBytes control
  | .message message => ∃ text, TextFits maxPayloadBytes message text

/-- The elements of a session, one after the other: what the wire does has the effects that they
    prescribe. -/
theorem reaches_elements (htakes : w.Takes) {elements : List Element}
    (h : ∀ element ∈ elements, ElementFits w.maxPayloadBytes element) (outputs : List WireOutput) :
    ∃ done, (w.stage [] outputs).Reaches ((elements.flatMap Element.frames).flatMap Frame.encode)
        (w.stage [] (outputs ++ done)) ∧
      done.flatMap WireOutput.effects = elements.flatMap Element.effects := by
  have hcontrol : ∀ control : Control,
      (controlOutputs control).flatMap WireOutput.effects = control.effects := by
    intro control
    cases control <;> rfl
  have hcontrols : ∀ controls : List Control, (controls.flatMap controlOutputs).flatMap
      WireOutput.effects = controls.flatMap Control.effects := by
    intro controls
    rw [List.flatMap_assoc]
    exact List.flatMap_congr fun control _ => hcontrol control
  induction elements generalizing outputs with
  | nil =>
    refine ⟨[], ?_, rfl⟩
    rw [List.append_nil]
    exact Reaches.refl _
  | cons element elements ih =>
    have hrest := fun outputs => ih (fun e he => h e (List.mem_cons_of_mem _ he)) outputs
    have hfirst := h element List.mem_cons_self
    cases element with
    | control control =>
      obtain ⟨done, hreach, heffects⟩ := hrest (outputs ++ controlOutputs control)
      refine ⟨controlOutputs control ++ done, ?_, ?_⟩
      · have hboth := (Reaches.control (w := w) [] outputs hfirst.1
          hfirst.2).trans hreach
        simpa [Element.frames, List.append_assoc] using hboth
      · rw [List.flatMap_append, hcontrol, heffects]
        rfl
    | message message =>
      obtain ⟨text, hfits⟩ := hfirst
      obtain ⟨done, hreach, heffects⟩ := hrest (outputs ++ messageOutputs message text)
      refine ⟨messageOutputs message text ++ done, ?_, ?_⟩
      · have hboth := (Reaches.message (w := w) outputs htakes hfits).trans hreach
        simpa [Element.frames, List.append_assoc] using hboth
      · have hmessage : (messageOutputs message text).flatMap WireOutput.effects
            = message.effects := by
          have hfragments : (message.earlier.flatMap fragmentOutputs).flatMap WireOutput.effects
              = message.earlier.flatMap Fragment.effects := by
            rw [List.flatMap_assoc]
            exact List.flatMap_congr fun fragment _ => hcontrols fragment.2
          rw [messageOutputs, List.flatMap_append, hfragments, Message.effects, hfits.data]
          rfl
        rw [List.flatMap_append, hmessage, heffects]
        rfl

/-- What the limits ask of a session. -/
structure SessionFits (maxPayloadBytes : Nat) (session : Session) : Prop where
  elements : ∀ element ∈ session.elements, ElementFits maxPayloadBytes element
  close : ∀ payload trailing, session.close = some (payload, trailing) →
    payload.length ≤ 125 ∧ payload.length ≤ maxPayloadBytes

/-- **Session.** The bytes of a session have the effects that the protocol prescribes; nothing after
    a close frame has any. -/
theorem reaches_session (htakes : w.Takes) {session : Session}
    (h : SessionFits w.maxPayloadBytes session) (outputs : List WireOutput) :
    ((parser.drain (w.stage [] outputs) session.bytes).1.outputs).flatMap WireOutput.effects
      = (w.outputs ++ outputs).flatMap WireOutput.effects ++ session.effects := by
  obtain ⟨done, hreach, heffects⟩ := reaches_elements htakes h.elements outputs
  have hdrain := hreach (session.close.elim [] fun close =>
    Frame.encode ⟨true, 0x8, close.1⟩ ++ close.2)
  have hbytes : session.bytes
      = (session.elements.flatMap Element.frames).flatMap Frame.encode ++
        session.close.elim [] fun close => Frame.encode ⟨true, 0x8, close.1⟩ ++ close.2 := by
    rw [Session.bytes]
    cases session.close <;> rfl
  rw [hbytes, hdrain, Session.effects, ← heffects]
  cases hclose : session.close with
  | none =>
    rw [Option.elim_none, StreamParser.drain_of_none]
    · simp [stage]
    · exact parseItem_opened (w := w.stage [] (outputs ++ done)) rfl []
  | some pair =>
    obtain ⟨payload, trailing⟩ := pair
    obtain ⟨hshort, hmax⟩ := h.close payload trailing hclose
    rw [Option.elim_some]
    have hopcode : (0x8 : UInt8) ∈ definedOpcodes := by decide
    have hcontrol : ¬ ((0x8 : UInt8) = 0x0 ∨ (0x8 : UInt8) = 0x1 ∨ (0x8 : UInt8) = 0x2) := by
      decide
    have hclosed : (w.stage [] (outputs ++ done)).Reaches (Frame.encode ⟨true, 0x8, payload⟩)
        { w.stage [] (outputs ++ done) with
          state := .closed
          outputs := w.outputs ++ (outputs ++ done) ++ [.closeSent payload, .closed] } := by
      refine Reaches.frame ⟨hopcode, ?_, hmax, fun hdata => absurd hdata hcontrol⟩ ?_
      · show payload.length < 2 ^ 63
        omega
      · simp [handleFrame, hshort, stage, emit, finish]
    rw [hclosed trailing, drain_closed rfl]
    simp [WireOutput.effects]

end WebSocketWire

end AgentHost
