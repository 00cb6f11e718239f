import Mathlib.Data.Bool.AllAny
import AgentHost.AnchoredState.Protocol

namespace AgentHost

/-!
# The helper understands what a session writes

* `AcceptedName`, `acceptedName_of_validateName`, `acceptedName_temporary` — a name that the session
  accepts is one that the helper accepts, and temporaries are told apart on both sides.
* `receive_requestFrame` — a turn of the helper's loop on one frame.
* `serve_sendCalls` — the loop on a whole session.
-/

/-! ### Names -/

theorem asciiBytes_toUInt16 {text : CodeUnits} (h : ∀ c ∈ text, c.toNat < 256) :
    (asciiBytes text).map UInt8.toUInt16 = text := by
  rw [asciiBytes, List.map_map]
  conv_rhs => rw [← List.map_id text]
  refine List.map_congr_left fun c hc => ?_
  have hlt := h c hc
  refine UInt16.toNat_inj.mp ?_
  rw [Function.comp_apply, UInt8.toNat_toUInt16, UInt16.toNat_toUInt8, Nat.mod_eq_of_lt hlt, id]

theorem lt_of_isNameUnit {c : UInt16} (h : isNameUnit c = true) : c.toNat < 128 := by
  simp only [isNameUnit, Bool.or_eq_true, Bool.and_eq_true, decide_eq_true_eq,
    UInt16.le_iff_toNat_le, ← UInt16.toNat_inj, UInt16.reduceToNat] at h
  omega

/-- What the helper asks of a basename. -/
structure AcceptedName (name : List UInt8) : Prop where
  length_le : name.length ≤ 200
  pos : 0 < name.length
  safe : safeName name = true

theorem safeName_asciiBytes {name : CodeUnits} (h : SAFE_NAME name = true)
    (hdot : name ≠ units ".") (hdots : name ≠ units "..") :
    AcceptedName (asciiBytes name) := by
  rw [SAFE_NAME, Bool.and_eq_true, Bool.and_eq_true, List.all_eq_true, decide_eq_true_eq,
    decide_eq_true_eq] at h
  obtain ⟨⟨hunits, hpos⟩, hle⟩ := h
  have hlength : (asciiBytes name).length = name.length := List.length_map _
  have hback := asciiBytes_toUInt16 fun c hc => (lt_of_isNameUnit (hunits c hc)).trans (by decide)
  refine ⟨hlength ▸ hle, hlength ▸ hpos, ?_⟩
  simp only [safeName, Bool.and_eq_true, decide_eq_true_eq, List.all_eq_true]
  refine ⟨⟨⟨⟨hlength ▸ hpos, hlength ▸ hle⟩, ?_⟩, ?_⟩, ?_⟩
  · intro h
    rw [h] at hback
    exact hdot hback.symm
  · intro h
    rw [h] at hback
    exact hdots hback.symm
  · intro b hb
    obtain ⟨c, hc, rfl⟩ := List.mem_map.mp hb
    have hunit := hunits c hc
    have hlt := lt_of_isNameUnit hunit
    have hbyte : c.toUInt8.toNat = c.toNat := by
      rw [UInt16.toNat_toUInt8, Nat.mod_eq_of_lt (hlt.trans (by decide))]
    simp only [isNameUnit, Bool.or_eq_true, Bool.and_eq_true, decide_eq_true_eq,
      UInt16.le_iff_toNat_le, ← UInt16.toNat_inj, UInt16.reduceToNat] at hunit
    simp only [Bool.or_eq_true, Bool.and_eq_true, decide_eq_true_eq, UInt8.le_iff_toNat_le,
      ← UInt8.toNat_inj, UInt8.reduceToNat, hbyte]
    exact hunit

/-- A name that the session accepts is one that the helper accepts, and no temporary. -/
theorem acceptedName_of_validateName {name : CodeUnits} (h : validateName name = .ok ()) :
    AcceptedName (asciiBytes name) ∧ temporaryName (asciiBytes name) = false := by
  rw [validateName] at h
  split at h
  · cases h
  next hsafe =>
  split at h
  · cases h
  next hreserved =>
  rw [not_or, not_or, Bool.not_eq_true', Bool.not_eq_false] at hsafe
  obtain ⟨hname, hdot, hdots⟩ := hsafe
  refine ⟨safeName_asciiBytes hname hdot hdots, ?_⟩
  rw [Bool.eq_false_iff]
  intro htemporary
  simp only [temporaryName, Bool.and_eq_true, List.isPrefixOf_iff_prefix,
    List.isSuffixOf_iff_suffix] at htemporary
  refine hreserved ?_
  rw [SAFE_NAME, Bool.and_eq_true, Bool.and_eq_true, List.all_eq_true] at hname
  have hback := asciiBytes_toUInt16 fun c hc =>
    (lt_of_isNameUnit (hname.1.1 c hc)).trans (by decide)
  rw [Bool.and_eq_true, List.isPrefixOf_iff_prefix, List.isSuffixOf_iff_suffix]
  constructor
  · have hstart := htemporary.1.2.map UInt8.toUInt16
    rwa [hback, asciiBytes_toUInt16 (List.all_iff_forall_prop.mp (by decide))] at hstart
  · have hend := htemporary.2.map UInt8.toUInt16
    rwa [hback, asciiBytes_toUInt16 (List.all_iff_forall_prop.mp (by decide))] at hend

/-- The temporary of a write is one for the helper too. -/
theorem acceptedName_temporary (uuid : Uuid) :
    AcceptedName (asciiBytes (units ".agent-host-" ++ uuid.text ++ units ".tmp")) ∧
      temporaryName (asciiBytes (units ".agent-host-" ++ uuid.text ++ units ".tmp")) = true := by
  have hlength : (units ".agent-host-" ++ uuid.text ++ units ".tmp").length = 52 := by
    rw [List.length_append, List.length_append, uuid.length_eq]
    rfl
  have hdigits : ∀ c ∈ units "0123456789abcdef-", isNameUnit c = true :=
    List.all_eq_true.mp (by decide)
  have hsafe : SAFE_NAME (units ".agent-host-" ++ uuid.text ++ units ".tmp") = true := by
    rw [SAFE_NAME, hlength, List.all_append, List.all_append,
      List.all_eq_true.mpr fun c hc => hdigits c (uuid.digits c hc)]
    rfl
  refine ⟨safeName_asciiBytes hsafe ?_ ?_, ?_⟩
  · exact fun h => absurd (hlength.symm.trans (congrArg List.length h)) (by decide)
  · exact fun h => absurd (hlength.symm.trans (congrArg List.length h)) (by decide)
  · have hbytes : (asciiBytes (units ".agent-host-" ++ uuid.text ++ units ".tmp")).length = 52 :=
      (List.length_map _).trans hlength
    simp only [temporaryName, Bool.and_eq_true, List.isPrefixOf_iff_prefix,
      List.isSuffixOf_iff_suffix, hbytes]
    refine ⟨⟨by decide, ?_⟩, ?_⟩
    · rw [asciiBytes, asciiBytes, List.append_assoc, List.map_append]
      exact List.prefix_append _ _
    · rw [asciiBytes, asciiBytes, List.map_append]
      exact List.suffix_append _ _

/-! ### One frame -/

theorem receive_bind {ε α β : Type} (a : α) (f : α → Except ε β) : (Except.ok a >>= f) = f a := rfl

/-- The command that a request asks for. -/
def RequestInput.command (input : RequestInput) : HelperCommand :=
  match input.operation with
  | .acquire => .acquire (asciiBytes input.name)
  | .read => .read (asciiBytes input.name) input.limit
  | .write => .write (asciiBytes input.name) (asciiBytes input.auxiliary) input.payload
  | .assert => .assert
  | .close => .close

/-- The requests of validated calls. -/
inductive ValidInput (maxBytes : Nat) : RequestInput → Prop
  | acquire {name : CodeUnits} : AcceptedName (asciiBytes name) →
      temporaryName (asciiBytes name) = false →
      ValidInput maxBytes { operation := .acquire, name }
  | read {name : CodeUnits} {limit : Nat} : AcceptedName (asciiBytes name) →
      temporaryName (asciiBytes name) = false → 0 < limit → limit ≤ maxBytes →
      ValidInput maxBytes { operation := .read, name, limit }
  | write {name auxiliary : CodeUnits} {payload : List UInt8} : AcceptedName (asciiBytes name) →
      temporaryName (asciiBytes name) = false → AcceptedName (asciiBytes auxiliary) →
      temporaryName (asciiBytes auxiliary) = true → payload.length ≤ maxBytes →
      ValidInput maxBytes { operation := .write, name, auxiliary, payload, limit := payload.length }
  | assert : ValidInput maxBytes { operation := .assert }
  | close : ValidInput maxBytes { operation := .close }

theorem validInput_request {maxBytes : Nat} (hmax : 1 ≤ maxBytes) {call : AnchoredCall}
    {input : RequestInput} (h : call.request maxBytes = .ok input) : ValidInput maxBytes input := by
  cases call with
  | acquireWriterLock name =>
    rw [AnchoredCall.request] at h
    cases hname : validateName name with
    | error message => rw [hname] at h; cases h
    | ok =>
      rw [hname] at h
      cases h
      obtain ⟨haccepted, htemporary⟩ := acceptedName_of_validateName hname
      exact .acquire haccepted htemporary
  | readFileBounded name maximumBytes =>
    rw [AnchoredCall.request] at h
    cases hname : validateName name with
    | error message => rw [hname] at h; cases h
    | ok =>
      rw [hname] at h
      cases hlimit : readLimit maxBytes maximumBytes with
      | error message => rw [hlimit] at h; cases h
      | ok limit =>
        rw [hlimit] at h
        cases h
        obtain ⟨haccepted, htemporary⟩ := acceptedName_of_validateName hname
        rw [readLimit.eq_def] at hlimit
        split at hlimit
        · cases hlimit
        split at hlimit
        · cases hlimit
        · cases hlimit
          exact .read haccepted htemporary (by omega) (Nat.min_le_right _ _)
  | writeFileAtomic name contents uuid =>
    rw [AnchoredCall.request.eq_def] at h
    dsimp only at h
    cases hname : validateName name with
    | error message => rw [hname] at h; cases h
    | ok =>
      rw [hname, receive_bind] at h
      by_cases hlength : (contents.payload).length > maxBytes
      · rw [if_pos hlength] at h
        cases h
      · rw [if_neg hlength] at h
        cases h
        obtain ⟨haccepted, htemporary⟩ := acceptedName_of_validateName hname
        obtain ⟨haccepted', htemporary'⟩ := acceptedName_temporary uuid
        exact .write haccepted htemporary haccepted' htemporary' (Nat.le_of_not_lt hlength)
  | assertCurrent =>
    cases h
    exact .assert
  | close =>
    cases h
    exact .close

theorem readExact_append {length : Nat} {bytes rest : List UInt8} (h : bytes.length = length) :
    readExact length (bytes ++ rest) = .ok (bytes, rest) := by
  subst h
  rw [readExact, if_neg, List.take_left, List.drop_left]
  rw [List.length_append]
  omega

/-- A turn reads the parts of a frame. -/
theorem receive_encode {header : FrameHeader} {name auxiliary : List UInt8}
    (hfits : header.Fits) (hvalid : invalidFrame header = false)
    (hname : name.length = header.nameLength) (hauxiliary : auxiliary.length = header.auxiliaryLength)
    (hsafe : ¬ ((header.nameLength > 0 ∧ safeName name = false) ∨
      (header.auxiliaryLength > 0 ∧ safeName auxiliary = false)))
    (acquired : Bool) (rest : List UInt8) :
    receive acquired (header.encode ++ (name ++ (auxiliary ++ rest))) =
      dispatch acquired header name auxiliary rest := by
  have hload : FrameHeader.load header.encode = header := by
    have := FrameHeader.load_encode hfits []
    rwa [List.append_nil] at this
  have hinvalid : ¬ invalidFrame header = true := by
    rw [hvalid]
    exact Bool.false_ne_true
  rw [receive, readExact_append (FrameHeader.length_encode header), receive_bind]
  dsimp only
  rw [hload, if_neg hinvalid, readExact_append hname, receive_bind]
  dsimp only
  rw [readExact_append hauxiliary, receive_bind]
  exact if_neg hsafe

/-- The header of a request's frame. -/
def requestHeader (request : Nat) (input : RequestInput) : FrameHeader :=
  ⟨protocolMagic, protocolVersion, input.operation.code, request, (asciiBytes input.name).length,
    (asciiBytes input.auxiliary).length, input.payload.length, input.limit, 0⟩

theorem ValidInput.bounds {maxBytes : Nat} {input : RequestInput} (h : ValidInput maxBytes input) :
    (asciiBytes input.name).length ≤ 200 ∧ (asciiBytes input.auxiliary).length ≤ 200 ∧
      input.payload.length ≤ maxBytes ∧ input.limit ≤ maxBytes := by
  have hnil : (asciiBytes []).length ≤ 200 := Nat.zero_le 200
  cases h with
  | acquire hname _ => exact ⟨hname.length_le, hnil, Nat.zero_le _, Nat.zero_le _⟩
  | read hname _ _ hlimit => exact ⟨hname.length_le, hnil, Nat.zero_le _, hlimit⟩
  | write hname _ hauxiliary _ hpayload =>
    exact ⟨hname.length_le, hauxiliary.length_le, hpayload, hpayload⟩
  | assert => exact ⟨hnil, hnil, Nat.zero_le _, Nat.zero_le _⟩
  | close => exact ⟨hnil, hnil, Nat.zero_le _, Nat.zero_le _⟩

theorem ValidInput.safe {maxBytes : Nat} {input : RequestInput} (h : ValidInput maxBytes input) :
    ¬ (((asciiBytes input.name).length > 0 ∧ safeName (asciiBytes input.name) = false) ∨
      ((asciiBytes input.auxiliary).length > 0 ∧
        safeName (asciiBytes input.auxiliary) = false)) := by
  have hnil : ¬ (asciiBytes []).length > 0 := Nat.lt_irrefl 0
  have haccepted : ∀ name, AcceptedName name → ¬ safeName name = false := by
    intro name hname hfalse
    rw [hname.safe] at hfalse
    exact Bool.noConfusion hfalse
  cases h with
  | acquire hname _ => exact not_or.mpr ⟨fun h => haccepted _ hname h.2, fun h => hnil h.1⟩
  | read hname _ _ _ => exact not_or.mpr ⟨fun h => haccepted _ hname h.2, fun h => hnil h.1⟩
  | write hname _ hauxiliary _ _ =>
    exact not_or.mpr ⟨fun h => haccepted _ hname h.2, fun h => haccepted _ hauxiliary h.2⟩
  | assert => exact not_or.mpr ⟨fun h => hnil h.1, fun h => hnil h.1⟩
  | close => exact not_or.mpr ⟨fun h => hnil h.1, fun h => hnil h.1⟩

theorem fits_requestHeader {maxBytes request : Nat} {input : RequestInput}
    (hmax : maxBytes ≤ 1000000) (hle : request ≤ 0xffffffff) (h : ValidInput maxBytes input) :
    (requestHeader request input).Fits := by
  obtain ⟨hname, hauxiliary, hpayload, hlimit⟩ := h.bounds
  have hsmall : ∀ n, n ≤ 1000000 → n < 2 ^ 32 := fun n hn => by omega
  constructor
  · show protocolMagic < 2 ^ 32
    decide
  · show protocolVersion < 2 ^ 16
    decide
  · show input.operation.code < 2 ^ 16
    cases input.operation <;> decide
  · show request < 2 ^ 32
    omega
  · exact hsmall _ (hname.trans (by decide))
  · exact hsmall _ (hauxiliary.trans (by decide))
  · exact hsmall _ (hpayload.trans hmax)
  · exact hsmall _ (hlimit.trans hmax)
  · exact hsmall 0 (Nat.zero_le _)

theorem invalidFrame_eq_false {header : FrameHeader} : invalidFrame header = false ↔
    header.magic = protocolMagic ∧ header.version = protocolVersion ∧ header.request ≠ 0 ∧
      header.reserved = 0 ∧ header.nameLength ≤ 200 ∧ header.auxiliaryLength ≤ 200 ∧
      header.payloadLength ≤ 1000000 ∧ header.limit ≤ 1000000 := by
  simp only [invalidFrame, Bool.or_eq_false_iff, decide_eq_false_iff_not, ne_eq, not_not, gt_iff_lt,
    not_lt, and_assoc]

theorem invalidFrame_requestHeader {maxBytes request : Nat} {input : RequestInput}
    (hmax : maxBytes ≤ 1000000) (hpos : 1 ≤ request) (h : ValidInput maxBytes input) :
    invalidFrame (requestHeader request input) = false := by
  obtain ⟨hname, hauxiliary, hpayload, hlimit⟩ := h.bounds
  refine invalidFrame_eq_false.mpr ⟨rfl, rfl, ?_, rfl, hname, hauxiliary, hpayload.trans hmax,
    hlimit.trans hmax⟩
  show request ≠ 0
  omega

/-- The branch of a valid request. -/
theorem dispatch_requestHeader {maxBytes request : Nat} {input : RequestInput}
    (h : ValidInput maxBytes input) (rest : List UInt8) :
    dispatch (input.operation ≠ .acquire) (requestHeader request input) (asciiBytes input.name)
        (asciiBytes input.auxiliary) (input.payload ++ rest) =
      .ok ((request, input.command), rest) := by
  have hop : ∀ op, input.operation ≠ op → ¬ (requestHeader request input).operation = op.code := by
    intro op hne heq
    refine hne ?_
    have hcode : input.operation.code = op.code := heq
    revert hcode
    cases input.operation <;> cases op <;> decide
  cases h with
  | acquire hname htemporary =>
    rw [dispatch, if_pos ⟨rfl, rfl, hname.pos, htemporary, rfl, rfl⟩]
    rfl
  | read hname htemporary hpos _ =>
    rw [dispatch, if_neg (fun h => absurd h.1 (hop _ (by simp))),
      if_pos ⟨rfl, rfl, hname.pos, htemporary, rfl, rfl, hpos⟩]
    rfl
  | @write name auxiliary payload hname htemporary hauxiliary htemporary' _ =>
    have hne : asciiBytes name ≠ asciiBytes auxiliary := by
      intro heq
      rw [heq, htemporary'] at htemporary
      exact Bool.noConfusion htemporary
    rw [dispatch, if_neg (fun h => absurd h.1 (hop _ (by simp))), if_neg (fun h => absurd h.1 (hop _ (by simp))),
      if_pos ⟨rfl, rfl, hname.pos, hauxiliary.pos, htemporary, htemporary', hne, rfl⟩]
    dsimp only [requestHeader]
    rw [readExact_append rfl]
    rfl
  | assert =>
    rw [dispatch, if_neg (fun h => absurd h.1 (hop _ (by simp))), if_neg (fun h => absurd h.1 (hop _ (by simp))),
      if_neg (fun h => absurd h.1 (hop _ (by simp))), if_pos ⟨rfl, rfl, rfl, rfl, rfl, rfl⟩]
    rfl
  | close =>
    rw [dispatch, if_neg (fun h => absurd h.1 (hop _ (by simp))), if_neg (fun h => absurd h.1 (hop _ (by simp))),
      if_neg (fun h => absurd h.1 (hop _ (by simp))), if_neg (fun h => absurd h.1 (hop _ (by simp))),
      if_pos ⟨rfl, rfl, rfl, rfl, rfl, rfl⟩]
    rfl

/-- **One turn of the loop** takes one frame of a validated call. -/
theorem receive_requestFrame {maxBytes request : Nat} {input : RequestInput}
    (hmax : maxBytes ≤ 1000000) (hpos : 1 ≤ request) (hle : request ≤ 0xffffffff)
    (h : ValidInput maxBytes input) :
    ∃ frame, requestFrame maxBytes request input = .ok frame ∧ headerBytes ≤ frame.length ∧
      ∀ rest, receive (input.operation ≠ .acquire) (frame ++ rest) =
        .ok ((request, input.command), rest) := by
  obtain ⟨hname, hauxiliary, hpayload, -⟩ := h.bounds
  refine ⟨(requestHeader request input).encode ++ asciiBytes input.name ++
    asciiBytes input.auxiliary ++ input.payload, ?_, ?_, ?_⟩
  · rw [requestFrame]
    refine if_neg ?_
    rw [not_or, not_or, not_lt, not_lt, not_lt]
    exact ⟨hname, hauxiliary, hpayload⟩
  · rw [List.length_append, List.length_append, List.length_append, FrameHeader.length_encode,
      Nat.add_assoc, Nat.add_assoc]
    exact Nat.le_add_right _ _
  · intro rest
    rw [List.append_assoc, List.append_assoc, List.append_assoc,
      receive_encode (fits_requestHeader hmax hle h) (invalidFrame_requestHeader hmax hpos h) rfl
        rfl h.safe, dispatch_requestHeader h rest]

/-! ### A session -/

/-- The numbers of the requests from a counter. -/
def requestNumbers : Nat → Nat → List Nat
  | _, 0 => []
  | request, count + 1 => request :: requestNumbers (nextRequest request) count

/-- The commands of a session's requests, by their numbers. -/
def sessionCommands (request : Nat) (inputs : List RequestInput) : List (Nat × HelperCommand) :=
  (requestNumbers request inputs.length).zip (inputs.map RequestInput.command)

theorem nextRequest_range {request : Nat} (h : 1 ≤ request ∧ request ≤ 0xffffffff) :
    1 ≤ nextRequest request ∧ nextRequest request ≤ 0xffffffff := by
  rw [nextRequest]
  split <;> omega

/-- No number is zero, also when the counter wraps. -/
theorem requestNumbers_range {request count : Nat} (h : 1 ≤ request ∧ request ≤ 0xffffffff) :
    ∀ n ∈ requestNumbers request count, 1 ≤ n ∧ n ≤ 0xffffffff := by
  induction count generalizing request with
  | zero => exact fun n hn => absurd hn List.not_mem_nil
  | succ count ih =>
    intro n hn
    rcases List.mem_cons.mp hn with rfl | hn
    · exact h
    · exact ih (nextRequest_range h) n hn

theorem mapM_cons_eq_ok {α β : Type} {f : α → Except String β} {a : α} {l : List α} {bs : List β}
    (h : (a :: l).mapM f = .ok bs) : ∃ b rest, f a = .ok b ∧ l.mapM f = .ok rest ∧ bs = b :: rest := by
  rw [List.mapM_cons] at h
  cases hb : f a with
  | error message => rw [hb] at h; cases h
  | ok b =>
    rw [hb, receive_bind] at h
    cases hrest : l.mapM f with
    | error message => rw [hrest] at h; cases h
    | ok rest =>
      rw [hrest, receive_bind] at h
      cases h
      exact ⟨b, rest, rfl, rfl, rfl⟩

/-- A call between the first and the last one of a session. -/
def AnchoredCall.isMiddle : AnchoredCall → Bool
  | .readFileBounded _ _ | .writeFileAtomic _ _ _ | .assertCurrent => true
  | _ => false

theorem operation_of_isMiddle {maxBytes : Nat} {call : AnchoredCall} {input : RequestInput}
    (hmiddle : call.isMiddle = true) (h : call.request maxBytes = .ok input) :
    input.operation ≠ .acquire ∧ input.operation ≠ .close := by
  cases call with
  | acquireWriterLock name => exact absurd hmiddle Bool.false_ne_true
  | close => exact absurd hmiddle Bool.false_ne_true
  | assertCurrent =>
    cases h
    exact ⟨by simp, by simp⟩
  | readFileBounded name maximumBytes =>
    rw [AnchoredCall.request] at h
    cases hname : validateName name with
    | error message => rw [hname] at h; cases h
    | ok =>
      cases hlimit : readLimit maxBytes maximumBytes with
      | error message => rw [hname, receive_bind, hlimit] at h; cases h
      | ok limit =>
        rw [hname, receive_bind, hlimit] at h
        cases h
        exact ⟨by simp, by simp⟩
  | writeFileAtomic name contents uuid =>
    rw [AnchoredCall.request.eq_def] at h
    dsimp only at h
    cases hname : validateName name with
    | error message => rw [hname] at h; cases h
    | ok =>
      rw [hname, receive_bind] at h
      by_cases hlength : contents.payload.length > maxBytes
      · rw [if_pos hlength] at h
        cases h
      · rw [if_neg hlength] at h
        cases h
        exact ⟨by simp, by simp⟩

theorem command_eq_close_iff {input : RequestInput} :
    input.command = .close ↔ input.operation = .close := by
  rw [RequestInput.command]
  cases input.operation <;> simp

section Session

variable {maxBytes : Nat} (hpos : 1 ≤ maxBytes) (hmax : maxBytes ≤ 1000000)

include hpos hmax

/-- The frame of the first call, and what the helper makes of it. -/
theorem sendCalls_cons {request : Nat} {call : AnchoredCall} {calls : List AnchoredCall}
    {input : RequestInput} {bytes : List UInt8} (hrange : 1 ≤ request ∧ request ≤ 0xffffffff)
    (hcall : call.request maxBytes = .ok input)
    (hcalls : sendCalls maxBytes (nextRequest request) calls = .ok bytes) :
    ∃ frame, sendCalls maxBytes request (call :: calls) = .ok (frame ++ bytes) ∧
      headerBytes ≤ frame.length ∧ ∀ rest, receive (input.operation ≠ .acquire) (frame ++ rest) =
        .ok ((request, input.command), rest) := by
  obtain ⟨frame, hframe, hlength, hreceive⟩ :=
    receive_requestFrame hmax hrange.1 hrange.2 (validInput_request hpos hcall)
  refine ⟨frame, ?_, hlength, hreceive⟩
  rw [sendCalls, hcall, receive_bind, hframe, receive_bind, hcalls, receive_bind]
  rfl

/-- The loop on the calls behind the first one. -/
theorem serveFrom_sendCalls {calls : List AnchoredCall} {inputs : List RequestInput} {request : Nat}
    (hrange : 1 ≤ request ∧ request ≤ 0xffffffff) (hmiddle : ∀ call ∈ calls, call.isMiddle = true)
    (hinputs : (calls ++ [AnchoredCall.close]).mapM (AnchoredCall.request maxBytes) = .ok inputs) :
    ∃ bytes, sendCalls maxBytes request (calls ++ [.close]) = .ok bytes ∧
      ∀ rest turns, bytes.length ≤ turns →
        serveFrom turns true (bytes ++ rest) = (sessionCommands request inputs, .closed rest) := by
  induction calls generalizing inputs request with
  | nil =>
    obtain ⟨input, inputs, hcall, hnil, rfl⟩ := mapM_cons_eq_ok hinputs
    cases hnil
    have hdone : sendCalls maxBytes (nextRequest request) [] = .ok [] := rfl
    obtain ⟨frame, hsend, hlength, hreceive⟩ := sendCalls_cons hpos hmax hrange hcall hdone
    refine ⟨_, hsend, fun rest turns hturns => ?_⟩
    cases hcall
    rw [List.append_nil] at hturns ⊢
    have hheader : headerBytes = 32 := rfl
    obtain ⟨turns, rfl⟩ := Nat.exists_eq_succ_of_ne_zero (n := turns) (by omega)
    have hreceived : receive true (frame ++ rest) = .ok ((request, .close), rest) := hreceive rest
    rw [serveFrom, hreceived]
    rfl
  | cons call calls ih =>
    obtain ⟨input, inputs, hcall, hrest, rfl⟩ := mapM_cons_eq_ok hinputs
    obtain ⟨hacquire, hclose⟩ :=
      operation_of_isMiddle (hmiddle call List.mem_cons_self) hcall
    obtain ⟨bytes, hbytes, hserve⟩ := ih (nextRequest_range hrange)
      (fun call hmem => hmiddle call (List.mem_cons_of_mem _ hmem)) hrest
    obtain ⟨frame, hsend, hlength, hreceive⟩ := sendCalls_cons hpos hmax hrange hcall hbytes
    refine ⟨_, hsend, fun rest turns hturns => ?_⟩
    have hheader : headerBytes = 32 := rfl
    rw [List.length_append] at hturns
    obtain ⟨turns, rfl⟩ := Nat.exists_eq_succ_of_ne_zero (n := turns) (by omega)
    have hreceived := hreceive (bytes ++ rest)
    rw [decide_eq_true hacquire] at hreceived
    have hcommand : input.command ≠ .close := fun h => hclose (command_eq_close_iff.mp h)
    rw [List.append_assoc, serveFrom, hreceived]
    dsimp only
    rw [if_neg hcommand, Bool.true_or, hserve rest turns (by omega)]
    rfl

/-- **The helper understands a session**: the calls are written without an error, and the loop carries out
    each of them by its number. -/
theorem serve_sendCalls {name : CodeUnits} {calls : List AnchoredCall} {inputs : List RequestInput}
    {request : Nat} (hrange : 1 ≤ request ∧ request ≤ 0xffffffff)
    (hmiddle : ∀ call ∈ calls, call.isMiddle = true)
    (hinputs : (AnchoredCall.acquireWriterLock name :: (calls ++ [AnchoredCall.close])).mapM
      (AnchoredCall.request maxBytes) = .ok inputs) :
    ∃ bytes, sendCalls maxBytes request
        (.acquireWriterLock name :: (calls ++ [.close])) = .ok bytes ∧
      ∀ rest, serve (bytes ++ rest) = (sessionCommands request inputs, .closed rest) := by
  obtain ⟨input, inputs, hcall, hrest, rfl⟩ := mapM_cons_eq_ok hinputs
  obtain ⟨bytes, hbytes, hserve⟩ :=
    serveFrom_sendCalls hpos hmax (nextRequest_range hrange) hmiddle hrest
  obtain ⟨frame, hsend, -, hreceive⟩ := sendCalls_cons hpos hmax hrange hcall hbytes
  refine ⟨_, hsend, fun rest => ?_⟩
  have hacquire : input.operation = .acquire ∧ ∃ name, input.command = .acquire name := by
    rw [AnchoredCall.request] at hcall
    cases hname : validateName name with
    | error message => rw [hname] at hcall; cases hcall
    | ok =>
      rw [hname] at hcall
      cases hcall
      exact ⟨rfl, _, rfl⟩
  obtain ⟨hoperation, acquired, hcommand⟩ := hacquire
  have hreceived := hreceive (bytes ++ rest)
  rw [hoperation] at hreceived
  have hfalse : decide (AnchoredOp.acquire ≠ AnchoredOp.acquire) = false := rfl
  rw [hfalse] at hreceived
  have hlength : bytes.length ≤ ((frame ++ bytes) ++ rest).length := by
    simp only [List.length_append]
    omega
  rw [serve, serveFrom, List.append_assoc, hreceived]
  rw [List.append_assoc] at hlength
  dsimp only
  rw [hcommand, if_neg (by simp)]
  rw [Bool.false_or, hserve rest _ hlength, sessionCommands, sessionCommands, List.length_cons,
    requestNumbers, List.map_cons, List.zip_cons_cons, hcommand]

end Session

end AgentHost
