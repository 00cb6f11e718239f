import AgentHost.Adapters.WebSocketHandshake

namespace AgentHost

/-!
# What the websocket wire decodes

* `wire_decoding` — the wire does not depend on how the bytes are cut, delivers nothing beyond its
  limit or after its end, and makes of a well-formed session of texts what the protocol prescribes.
* `wire_decoding_departs` — where it departs from the protocol: binary messages, texts that begin with
  a byte order mark, and options of the connection on several lines.
-/

open WebSocket (Response Header headersNamed Session Effect IsBase64)

namespace WebSocketWire

/-- A run that starts with chunks is one that starts with all of them together. -/
theorem run_chunks (accept : List Char) (maxPayloadBytes : Nat)
    (onMessage : List (List Char) → Reaction) (chunks : List (List UInt8))
    (events : List WireEvent) :
    (started accept maxPayloadBytes onMessage).run (chunks.map .chunk ++ events)
      = (started accept maxPayloadBytes onMessage).run (.chunk chunks.flatten :: events) := by
  have hfold : ∀ (w : WebSocketWire) (chunks : List (List UInt8)),
      w.run (chunks.map .chunk) = chunks.foldl receive w := by
    intro w chunks
    induction chunks generalizing w with
    | nil => rfl
    | cons chunk chunks ih => exact ih (w.receive chunk)
  have hquiet : parser.step (started accept maxPayloadBytes onMessage) [] = none := rfl
  have htidy := (sound_started accept maxPayloadBytes onMessage).2
  calc (started accept maxPayloadBytes onMessage).run (chunks.map .chunk ++ events)
      = ((started accept maxPayloadBytes onMessage).run (chunks.map .chunk)).run events := by
        rw [run, List.foldl_append]
        rfl
    _ = ((started accept maxPayloadBytes onMessage).receive chunks.flatten).run events := by
        rw [hfold, receive_chunks htidy hquiet]

/-- A session after the response that opens the wire. -/
theorem run_session {accept : List Char} {maxPayloadBytes : Nat}
    {onMessage : List (List Char) → Reaction} (htakes : ∀ messages, onMessage messages = .returns)
    (hdigest : IsBase64 accept) {response : Response} {headers : List Header}
    (hresponse : response.Accepts accept headers)
    (hsingle : (headersNamed headers "connection").length = 1)
    (hlimit : response.bytes.length ≤ maxHandshakeBytes) {session : Session}
    (hsession : SessionFits maxPayloadBytes session) :
    ((started accept maxPayloadBytes onMessage).run
        [.chunk (response.bytes ++ session.bytes)]).outputs.flatMap WireOutput.effects
      = .established :: session.effects := by
  have htidy := (sound_started accept maxPayloadBytes onMessage).2
  have hview : ((started accept maxPayloadBytes onMessage).receive
        (response.bytes ++ session.bytes)).view.1.outputs
      = (parser.drain (started accept maxPayloadBytes onMessage)
          (response.bytes ++ session.bytes)).1.outputs := by
    rw [(receive_eq_feed htidy _).1]
    rfl
  have hopened : (started accept maxPayloadBytes onMessage).Reaches response.bytes
      ((started accept maxPayloadBytes onMessage).stage [] [.opened]) :=
    reaches_response (w := started accept maxPayloadBytes onMessage) hresponse hsingle hdigest
      hlimit rfl ⟨rfl, rfl⟩
  have heffects := reaches_session (w := started accept maxPayloadBytes onMessage) htakes hsession
    [.opened]
  show (((started accept maxPayloadBytes onMessage).receive _).view.1.outputs).flatMap _ = _
  rw [hview, hopened, heffects]
  rfl

end WebSocketWire

open WebSocketWire

/-- **Decoding.** However the bytes are cut into chunks, the wire ends up the same, with the same
    messages, answers and end.  A message that is delivered is the text of a payload within the
    limit, and after an end come only ends.  A session of texts that do not begin with a byte order
    mark has the effects that the protocol prescribes, after a response that accepts the upgrade and
    names the options of its connection on one line. -/
theorem wire_decoding (accept : List Char) (maxPayloadBytes : Nat)
    (onMessage : List (List Char) → Reaction) :
    (∀ (chunks : List (List UInt8)) (events : List WireEvent),
      (started accept maxPayloadBytes onMessage).run (chunks.map .chunk ++ events)
      = (started accept maxPayloadBytes onMessage).run (.chunk chunks.flatten :: events)) ∧
    (∀ events text,
      .message text ∈ ((started accept maxPayloadBytes onMessage).run events).outputs →
        ∃ payload : List UInt8, payload.length ≤ maxPayloadBytes ∧
          Utf8.decodeFatal payload = some text) ∧
    (∀ events, ((started accept maxPayloadBytes onMessage).run events).outputs.Pairwise
      fun x y => x.IsEnd → y.IsEnd) ∧
    ∀ (response : Response) (headers : List Header) (session : Session),
      (∀ messages, onMessage messages = .returns) → IsBase64 accept →
      response.Accepts accept headers → (headersNamed headers "connection").length = 1 →
      response.bytes.length ≤ maxHandshakeBytes →
      SessionFits maxPayloadBytes session →
        ((started accept maxPayloadBytes onMessage).run
          [.chunk (response.bytes ++ session.bytes)]).outputs.flatMap WireOutput.effects
            = .established :: session.effects := by
  obtain ⟨hsound, htidy⟩ := sound_started accept maxPayloadBytes onMessage
  refine ⟨fun chunks events => run_chunks accept maxPayloadBytes onMessage chunks events,
    fun events text htext => ?_, fun events => (sound_run hsound htidy events).ordered,
    fun response headers session htakes hdigest hresponse hsingle hlimit hsession =>
      run_session htakes hdigest hresponse hsingle hlimit hsession⟩
  have hrun := sound_run hsound htidy events
  obtain ⟨payload, hle, hdecode⟩ := hrun.fits text htext
  exact ⟨payload, hrun.bound ▸ hle, hdecode⟩

/-! ### A response, and what the wire makes of some sessions -/

/-- The digest of the key in the protocol's own example. -/
def sampleAccept : List Char := "s3pPLMBiTxaQ9kYGzzhZRbK+xOo=".toList

/-- The headers of a response whose connection has some lines of options. -/
def sampleHeaders (connection : List String) : List Header :=
  ⟨"Upgrade".toList, [' '], "websocket".toList, []⟩ ::
    ⟨"Sec-WebSocket-Accept".toList, [' '], sampleAccept, []⟩ ::
    connection.map fun options => ⟨"Connection".toList, [' '], options.toList, []⟩

def sampleResponse (connection : List String) : Response where
  status := Utf8.encode "HTTP/1.1 101 Switching Protocols".toList
  lines := (sampleHeaders connection).map fun header => Utf8.encode header.text

theorem sampleResponse_accepts {more : List String}
    (h : more = [] ∨ more = ["keep-alive"]) :
    (sampleResponse ("te, Upgrade" :: more)).Accepts sampleAccept
      (sampleHeaders ("te, Upgrade" :: more)) := by
  have hoption : ∃ option, WebSocket.HasOption "te, Upgrade".toList option ∧
      WebSocket.caseless option = "upgrade".toList :=
    ⟨"Upgrade".toList, ⟨"te,".toList, [' '], [], [], by decide, by decide, by decide,
      .inr ⟨"te".toList, rfl⟩, .inl rfl⟩, by decide⟩
  rcases h with rfl | rfl
  all_goals
    exact
      { ends := by decide +kernel
        status := ⟨" Switching Protocols".toList, by decide +kernel, .inr ⟨_, rfl⟩⟩
        texts := by decide +kernel
        names := by decide +kernel
        spaces := by decide +kernel
        accept := ⟨_, rfl, rfl⟩
        upgrade := ⟨_, rfl, by decide +kernel⟩
        connection := ⟨⟨"Connection".toList, [' '], "te, Upgrade".toList, []⟩, by decide +kernel,
          hoption⟩
        extensions := by decide +kernel
        subprotocol := by decide +kernel }

/-- A message in two fragments with a ping between them, and a close frame. -/
def sampleSession : Session where
  elements := [.message ⟨.text "hé".toList, [([104], [.ping [1, 2]])], [195, 169]⟩]
  close := some ([3, 232], [7])

theorem sampleSession_fits : SessionFits 16 sampleSession where
  elements := by
    intro element h
    obtain rfl := List.mem_singleton.mp h
    refine ⟨"hé".toList, ⟨by decide +kernel, by decide +kernel, ?_⟩, rfl, by decide +kernel,
      by decide +kernel, ?_⟩
    all_goals
      intro fragment hfragment control hcontrol
      obtain rfl := List.mem_singleton.mp hfragment
      obtain rfl := List.mem_singleton.mp hcontrol
    · show 2 ≤ 125
      decide
    · show 2 ≤ 125 ∧ 2 ≤ 16
      decide
  close := by
    intro payload trailing h
    obtain ⟨rfl, rfl⟩ := Prod.mk.inj (Option.some.inj h)
    decide

/-- The session has its effects, also where it arrives byte by byte. -/
theorem wire_decoding_sample :
    ((started sampleAccept 16 fun _ => .returns).run
        ((((sampleResponse ["te, Upgrade"]).bytes ++ sampleSession.bytes).map fun b => [b]).map
          .chunk)).outputs.flatMap WireOutput.effects
      = [.established, .pong [1, 2], .message (.text "hé".toList), .close [3, 232]] := by
  obtain ⟨hchunks, _, _, hsession⟩ := wire_decoding sampleAccept 16 fun _ => .returns
  have hflatten : (((sampleResponse ["te, Upgrade"]).bytes ++ sampleSession.bytes).map
      fun b => [b]).flatten = (sampleResponse ["te, Upgrade"]).bytes ++ sampleSession.bytes := by
    decide +kernel
  have hwhole := hchunks
    (((sampleResponse ["te, Upgrade"]).bytes ++ sampleSession.bytes).map fun b => [b]) []
  rw [List.append_nil, hflatten] at hwhole
  rw [hwhole, hsession _ _ sampleSession (fun _ => rfl) (by decide +kernel)
    (sampleResponse_accepts (.inl rfl)) (by decide +kernel) (by decide +kernel) sampleSession_fits]
  decide +kernel

/-- A message of one frame. -/
def oneMessage (data : WebSocket.Data) : Session where
  elements := [.message ⟨data, [], data.bytes⟩]
  close := none

/-- What the wire makes of a session after a response. -/
def sampleEffects (connection : List String) (session : Session) : List Effect :=
  ((started sampleAccept 16 fun _ => .returns).run
    [.chunk ((sampleResponse connection).bytes ++ session.bytes)]).outputs.flatMap
      WireOutput.effects

/-- Three well-formed streams within the limits that do not have the effects that the protocol
    prescribes: a binary message fails the wire, a text that begins with a byte order mark loses
    it, and a response with a second line of options for its connection is refused. -/
theorem wire_decoding_departs :
    (sampleResponse ["te, Upgrade"]).Accepts sampleAccept (sampleHeaders ["te, Upgrade"]) ∧
    (oneMessage (.binary [7])).WellFormed ∧
    (oneMessage (.binary [7])).effects = [.message (.binary [7])] ∧
    sampleEffects ["te, Upgrade"] (oneMessage (.binary [7])) = [.established, .fail] ∧
    (oneMessage (.text [Utf8.byteOrderMark, 'a'])).WellFormed ∧
    (oneMessage (.text [Utf8.byteOrderMark, 'a'])).effects
      = [.message (.text [Utf8.byteOrderMark, 'a'])] ∧
    sampleEffects ["te, Upgrade"] (oneMessage (.text [Utf8.byteOrderMark, 'a']))
      = [.established, .message (.text ['a'])] ∧
    (sampleResponse ["te, Upgrade", "keep-alive"]).Accepts sampleAccept
      (sampleHeaders ["te, Upgrade", "keep-alive"]) ∧
    sampleEffects ["te, Upgrade", "keep-alive"] (oneMessage (.text ['a'])) = [.fail] := by
  have hwellFormed : ∀ data : WebSocket.Data, data.bytes.length < 2 ^ 63 →
      (oneMessage data).WellFormed := by
    intro data hlength
    refine ⟨fun element h => ?_, fun payload trailing h => by cases h⟩
    obtain rfl := List.mem_singleton.mp h
    exact ⟨rfl, hlength, fun fragment h => absurd h List.not_mem_nil⟩
  exact ⟨sampleResponse_accepts (.inl rfl), hwellFormed _ (by decide +kernel), by decide +kernel,
    by decide +kernel, hwellFormed _ (by decide +kernel), by decide +kernel, by decide +kernel,
    sampleResponse_accepts (.inr rfl), by decide +kernel⟩

end AgentHost
