import AgentHost.Adapters.WebSocketChunks

namespace AgentHost

/-!
# What the websocket wire delivers

* `WebSocketWire.Sound` — a message that was delivered fits the limit, the fragments that are kept
  are counted, and nothing is delivered or answered after the wire has ended.
* `WebSocketWire.Sound.parseItem` — one item keeps it.
* `WebSocketWire.sound_run` — it holds after any events.
-/

/-- The outputs of a wire that ends. -/
def WireOutput.IsEnd : WireOutput → Prop
  | .closeSent _ | .closed | .failed _ | .closeCalled => True
  | _ => False

namespace WebSocketWire

variable {w next : WebSocketWire} {limit : Nat} {error : String}

/-- A message is the text of a payload within the limit. -/
def Fits (w : WebSocketWire) (text : List Char) : Prop :=
  ∃ payload : List UInt8, payload.length ≤ w.maxPayloadBytes ∧
    Utf8.decodeFatal payload = some text

/-- The invariant of what a wire has done. -/
structure Sound (w : WebSocketWire) (limit : Nat) : Prop where
  bound : w.maxPayloadBytes = limit
  fits : ∀ text, .message text ∈ w.outputs → w.Fits text
  counted : w.fragmentBytes = w.fragments.flatten.length
  within : w.fragmentBytes ≤ w.maxPayloadBytes
  ordered : w.outputs.Pairwise fun x y => x.IsEnd → y.IsEnd
  running : w.state ≠ .closed → ∀ x ∈ w.outputs, ¬ x.IsEnd

/-- An output other than an end, of a wire that runs. -/
theorem Sound.emit (h : w.Sound limit) (output : WireOutput) (hrun : w.state ≠ .closed)
    (hend : ¬ output.IsEnd) (hfits : ∀ text, output = .message text → w.Fits text) :
    (w.emit output).Sound limit where
  bound := h.bound
  fits := by
    intro text htext
    obtain htext | htext := List.mem_append.mp htext
    · exact h.fits text htext
    · exact hfits text (List.mem_singleton.mp htext).symm
  counted := h.counted
  within := h.within
  ordered := by
    refine List.pairwise_append.mpr ⟨h.ordered, List.pairwise_singleton _ _, ?_⟩
    exact fun x hx y _ hxend => absurd hxend (h.running hrun x hx)
  running := by
    intro _ x hx
    obtain hx | hx := List.mem_append.mp hx
    · exact h.running hrun x hx
    · exact List.mem_singleton.mp hx ▸ hend

/-- Ending, with the outputs of an end. -/
theorem Sound.finish (h : w.Sound limit) (buffer : List UInt8) (ends : List WireOutput)
    (hends : ∀ x ∈ ends, x.IsEnd) : ({ w with
      state := .closed, buffer := buffer, fragments := [], fragmentBytes := 0,
      outputs := w.outputs ++ ends } : WebSocketWire).Sound limit where
  bound := h.bound
  fits := by
    intro text htext
    obtain htext | htext := List.mem_append.mp htext
    · exact h.fits text htext
    · exact absurd (hends _ htext) id
  counted := rfl
  within := Nat.zero_le _
  ordered := by
    refine List.pairwise_append.mpr ⟨h.ordered, ?_, fun x _ y hy _ => hends y hy⟩
    exact List.pairwise_of_forall_mem_list fun x _ y hy _ => hends y hy
  running := fun hrun => absurd rfl hrun

theorem finish_of_ne (h : w.state ≠ .closed) : w.finish = { w with
    state := .closed, buffer := [], fragments := [], fragmentBytes := 0 } := if_neg h

theorem Sound.fail (h : w.Sound limit) (error : String) : (w.fail error).Sound limit := by
  by_cases hclosed : w.state = .closed
  · rw [WebSocketWire.fail, if_pos hclosed]
    exact h
  · rw [fail_of_ne hclosed]
    exact h.finish [] [.failed error] fun x hx => by
      rw [List.mem_singleton.mp hx]
      trivial

theorem Sound.close (h : w.Sound limit) : w.close.Sound limit := by
  unfold WebSocketWire.close
  split
  · next hstate =>
    rw [finish_of_ne (by rw [hstate]; exact fun hc => by cases hc)]
    exact h.finish [] [.closeCalled] fun x hx => by
      rw [List.mem_singleton.mp hx]
      trivial
  · next hstate =>
    have hne : (w.emit (.closeSent [])).state ≠ .closed := by
      show w.state ≠ .closed
      rw [hstate]
      exact fun hc => by cases hc
    rw [finish_of_ne hne]
    have hsound := h.finish [] [.closeSent [], .closeCalled] fun x hx => by
      obtain rfl | hx := List.mem_cons.mp hx
      · trivial
      · rw [List.mem_singleton.mp hx]
        trivial
    simpa [WebSocketWire.emit] using hsound
  · exact h

/-- The end of a message: what is delivered are the fragments, which are within the limit. -/
theorem Sound.endMessage (h : w.Sound limit) (hrun : w.state ≠ .closed) (fin : Bool) :
    (∀ next, w.endMessage fin = .ok next → next.Sound limit) ∧
      ∀ next error, w.endMessage fin = .error (next, error) → next.Sound limit := by
  unfold WebSocketWire.endMessage
  split
  · exact ⟨fun next heq => Except.ok.inj heq ▸ h, fun _ _ heq => by cases heq⟩
  have hcleared : ({ w with fragments := [], fragmentBytes := 0 } : WebSocketWire).Sound limit :=
    { h with counted := rfl, within := Nat.zero_le _ }
  dsimp only
  split
  · refine ⟨fun _ heq => (by cases heq), fun next error heq => ?_⟩
    cases heq
    exact hcleared
  · next text htext =>
    have hconcat : concatBuffers w.fragments w.fragmentBytes = w.fragments.flatten := by
      rw [concatBuffers, h.counted, List.take_length, Nat.sub_self, List.replicate_zero,
        List.append_nil]
    have hdelivered := hcleared.emit (.message text) hrun id fun text' heq => by
      obtain rfl := WireOutput.message.inj heq
      exact ⟨_, h.counted ▸ h.within, hconcat ▸ htext⟩
    split
    · exact ⟨fun next heq => Except.ok.inj heq ▸ hdelivered, fun _ _ heq => by cases heq⟩
    · exact ⟨fun next heq => Except.ok.inj heq ▸ hdelivered.close, fun _ _ heq => by cases heq⟩
    · refine ⟨fun _ heq => (by cases heq), fun next error heq => ?_⟩
      cases heq
      exact hdelivered

/-- The frames that `#consumeFrames` takes are within the limit. -/
def FrameFits (w : WebSocketWire) (frame : WireFrame) : Prop :=
  frame.payload.length ≤ w.maxPayloadBytes ∧
    (frame.opcode = 0x0 ∨ frame.opcode = 0x1 ∨ frame.opcode = 0x2 →
      w.fragmentBytes + frame.payload.length ≤ w.maxPayloadBytes)

theorem nextFrame_fits {frame : WireFrame} {rest : List UInt8}
    (h : w.nextFrame = .ok (some (frame, rest))) : w.FrameFits frame := by
  unfold nextFrame at h
  split at h
  · split at h
    · cases h
    split at h
    · cases h
    dsimp only at h
    split at h
    · cases h
    · cases h
    · next length offset hlength =>
      split at h
      · cases h
      next hfits =>
      split at h
      · cases h
      · cases h
        rw [not_or, not_and_or] at hfits
        have htake : ((w.buffer.drop offset).take length).length ≤ length := List.length_take_le _ _
        refine ⟨le_trans htake (Nat.not_lt.mp hfits.1), fun hdata => ?_⟩
        obtain hcontrol | hwithin := hfits.2
        · exact absurd hdata hcontrol
        · exact le_trans (Nat.add_le_add_left htake _) (Nat.not_lt.mp hwithin)
  · cases h

theorem Sound.handleFrame (h : w.Sound limit) (hrun : w.state ≠ .closed) {frame : WireFrame}
    (hfits : w.FrameFits frame) :
    (∀ next, w.handleFrame frame = .ok next → next.Sound limit) ∧
      ∀ next error, w.handleFrame frame = .error (next, error) → next.Sound limit := by
  have herror : ∀ message : String,
      (∀ next, (Except.error (w, message) : Result) = .ok next → next.Sound limit) ∧
        ∀ next error, (Except.error (w, message) : Result) = .error (next, error) →
          next.Sound limit := by
    refine fun message => ⟨fun _ heq => (by cases heq), fun next error heq => ?_⟩
    cases heq
    exact h
  have hok : ∀ base : WebSocketWire, base.Sound limit →
      (∀ next, (Except.ok base : Result) = .ok next → next.Sound limit) ∧
        ∀ next error, (Except.ok base : Result) = .error (next, error) → next.Sound limit :=
    fun base hbase => ⟨fun next heq => Except.ok.inj heq ▸ hbase, fun _ _ heq => by cases heq⟩
  unfold WebSocketWire.handleFrame
  split
  · split
    · exact herror _
    split
    · refine hok _ ?_
      rw [finish_of_ne (w := w.emit (.closeSent frame.payload)) hrun]
      have hsound := h.finish [] [.closeSent frame.payload, .closed]
        fun x hx => by
          obtain rfl | hx := List.mem_cons.mp hx
          · trivial
          · rw [List.mem_singleton.mp hx]
            trivial
      simpa [WebSocketWire.emit] using hsound
    split
    · exact hok _ (h.emit _ hrun id fun text heq => by cases heq)
    split
    · exact hok _ h
    · exact herror _
  split
  · exact herror _
  split
  · next htext =>
    split
    · exact herror _
    · refine Sound.endMessage (w := { w with
        fragments := [frame.payload], fragmentBytes := frame.payload.length }) ?_ hrun frame.fin
      exact { h with counted := by simp, within := hfits.1 }
  split
  · next hcontinuation =>
    split
    · exact herror _
    · refine Sound.endMessage (w := { w with
        fragments := w.fragments ++ [frame.payload]
        fragmentBytes := w.fragmentBytes + frame.payload.length }) ?_ hrun frame.fin
      refine { h with counted := ?_, within := hfits.2 (.inl hcontinuation) }
      show w.fragmentBytes + _ = _
      rw [h.counted]
      simp
  · exact herror _

/-- **Item.** The response, a frame or a byte after the end keeps the invariant. -/
theorem Sound.parseItem (h : w.Sound limit) {input rest : List UInt8}
    (hitem : w.parseItem input = some (next, rest)) : next.Sound limit := by
  unfold WebSocketWire.parseItem at hitem
  split at hitem
  · split at hitem
    · cases hitem
    · cases hitem
      exact h
  · next hstate =>
    split at hitem
    · cases hitem
      exact h.fail _
    · cases hitem
    · next opened hresponse =>
      cases hitem
      unfold consumeHandshake at hresponse
      dsimp only at hresponse
      split at hresponse
      · split at hresponse <;> cases hresponse
      split at hresponse
      · cases hresponse
      split at hresponse
      · cases hresponse
      · cases hresponse
        -- the outputs of the handshake are those before it and that it is done
        have hopened : ({ w with state := .opened, buffer := [] } : WebSocketWire).Sound limit :=
          { h with running := fun _ => h.running (by rw [hstate]; exact fun hc => by cases hc) }
        exact hopened.emit .opened (fun hc => by cases hc) id
          fun text heq => by cases heq
  · next hstate =>
    have hrun : w.state ≠ .closed := by rw [hstate]; exact fun hc => by cases hc
    split at hitem
    · cases hitem
      exact h.fail _
    · cases hitem
    · next frame rest' hframe =>
      have hfits : w.FrameFits frame := nextFrame_fits (w := { w with buffer := input }) hframe
      have hbare : ({ w with buffer := [] } : WebSocketWire).Sound limit := { h with }
      obtain ⟨hok, herror⟩ := hbare.handleFrame hrun hfits
      split at hitem
      · next hthrown =>
        cases hitem
        exact (herror _ _ hthrown).fail _
      · next hdone =>
        cases hitem
        exact hok _ hdone

/-- The invariant does not look at the buffer. -/
theorem sound_of_view (h : w.view.1.Sound limit) : w.Sound limit := { h with }

theorem Sound.receive (h : w.Sound limit) (htidy : w.Tidy) (chunk : List UInt8) :
    (w.receive chunk).Sound limit := by
  refine sound_of_view ?_
  rw [(receive_eq_feed htidy chunk).1]
  refine StreamParser.drain_invariant (P := fun s _ => Sound s limit) ?_ (show w.view.1.Sound limit from
    { h with })
  exact fun s input s' rest hs hitem => hs.parseItem hitem

theorem tidy_close (h : w.Tidy) : w.close.Tidy := by
  unfold WebSocketWire.close
  split
  · next hstate =>
    rw [finish_of_ne (by rw [hstate]; exact fun hc => by cases hc)]
    exact fun _ => rfl
  · next hstate =>
    rw [finish_of_ne (w := w.emit (.closeSent []))
      (by show w.state ≠ .closed; rw [hstate]; exact fun hc => by cases hc)]
    exact fun _ => rfl
  · exact h

/-- **Event.** Whatever happens keeps the invariant. -/
theorem Sound.step (h : w.Sound limit) (htidy : w.Tidy) (event : WireEvent) :
    (w.step event).Sound limit ∧ (w.step event).Tidy := by
  cases event with
  | chunk bytes => exact ⟨h.receive htidy bytes, (receive_eq_feed htidy bytes).2⟩
  | close => exact ⟨h.close, tidy_close htidy⟩
  | fails error =>
    refine ⟨h.fail error, ?_⟩
    show (w.fail error).Tidy
    by_cases hclosed : w.state = .closed
    · rw [WebSocketWire.fail, if_pos hclosed]
      exact htidy
    · exact tidy_fail hclosed error

theorem sound_run (h : w.Sound limit) (htidy : w.Tidy) (events : List WireEvent) :
    (w.run events).Sound limit := by
  induction events generalizing w with
  | nil => exact h
  | cons event events ih =>
    obtain ⟨hstep, hnext⟩ := h.step htidy event
    exact ih hstep hnext

theorem sound_started (accept : List Char) (maxPayloadBytes : Nat)
    (onMessage : List (List Char) → Reaction) :
    (started accept maxPayloadBytes onMessage).Sound maxPayloadBytes ∧
      (started accept maxPayloadBytes onMessage).Tidy :=
  ⟨⟨rfl, fun _ h => absurd h List.not_mem_nil, rfl, Nat.zero_le _, List.Pairwise.nil,
    fun _ _ h => absurd h List.not_mem_nil⟩, fun h => by cases h⟩

end WebSocketWire

end AgentHost
