import Mathlib
import AgentHost.Lib.CodeUnits

namespace AgentHost

/-!
# Bounding messages (`cursor-artifacts.js`, `cursor-sdk-transport.js`, `cursor-sdk.js`)

The messages of a conversation are bounded in three places by one loop, which goes from the last message to
the first.

* `boundLoop` — the loop; `CursorArtifacts.boundMessages`, `CursorSdkTransport.boundMessages`,
  `sanitizeReadResult` — the source functions.
* `latest` — the messages that the loop keeps, without its variables (`boundLoop_eq`).
* `IsBounding` — what the messages are bounded to: a part of the end with texts cut, within the limits,
  where nothing is dropped or cut without need.
* `bounders_agree` — **Main**: the three agree, bound in this sense, say whether they changed anything and
  leave alone what is bounded already.
-/

/-- `user` or `assistant`. -/
inductive MessageRole
  | user | assistant
  deriving DecidableEq

structure CursorMessage where
  role : MessageRole
  text : CodeUnits
  deriving DecidableEq

structure MessageLimits where
  maxMessages : Nat
  maxMessageChars : Nat
  maxTextChars : Nat

/-! ### The loop -/

/-- `text.length > maximum ? text.slice(0, maximum) : text`, and whether the text was longer. -/
def cutText (maximum : Nat) (text : CodeUnits) (truncated : Bool) : CodeUnits × Bool :=
  if maximum < text.length then (text.take maximum, true) else (text, truncated)

/-- The loop over the messages from the last one on: `selected` are kept, `remaining` characters are left. -/
def boundLoop (limits : MessageLimits) : List CursorMessage → List CursorMessage → Nat → Bool →
    List CursorMessage × Bool
  | [], selected, _, truncated => (selected, truncated)
  | message :: earlier, selected, remaining, truncated =>
    if selected.length < limits.maxMessages ∧ 0 < remaining then
      let (text, truncated) := cutText limits.maxMessageChars message.text truncated
      let (text, truncated) := cutText remaining text truncated
      boundLoop limits earlier (⟨message.role, text⟩ :: selected) (remaining - text.length) truncated
    else (selected, truncated)

/-- The messages that are kept, and whether any was cut or dropped. -/
def boundWith (limits : MessageLimits) (messages : List CursorMessage) (truncated : Bool) :
    List CursorMessage × Bool :=
  let (selected, truncated) := boundLoop limits messages.reverse [] limits.maxTextChars
    (truncated || limits.maxMessages < messages.length)
  (selected, truncated || selected.length < messages.length)

/-- The limits of a transcript. -/
def CursorArtifacts.DEFAULT_LIMITS : MessageLimits where
  maxMessages := 120
  maxMessageChars := 8192
  maxTextChars := 64 * 1024

/-- `boundMessages` of `cursor-artifacts.js`. -/
def CursorArtifacts.boundMessages (messages : List CursorMessage) (bounded : MessageLimits) :
    List CursorMessage × Bool := boundWith bounded messages false

/-- `MAX_READ_MESSAGES`, `MAX_READ_MESSAGE_CHARS` and `MAX_READ_TEXT_CHARS`. -/
def readLimits : MessageLimits where
  maxMessages := 120
  maxMessageChars := 8192
  maxTextChars := 64 * 1024

/-- `boundMessages` of `cursor-sdk-transport.js`. -/
def CursorSdkTransport.boundMessages (messages : List CursorMessage) : List CursorMessage × Bool :=
  boundWith readLimits messages false

/-! ### `sanitizeReadResult` -/

/-- A message of a result, as far as its members have the types that they should have. -/
structure ReadMessage where
  role : Option String
  text : Option CodeUnits

/-- A result of the bridge likewise: `none` where there is no array, no integer, no boolean. `rest` are its
    other members. -/
structure ReadResult (δ : Type) where
  messages : Option (List ReadMessage)
  messageCount : Option Int
  omittedBlockCount : Option Int
  truncated : Option Bool
  rest : δ

structure SanitizedResult (δ : Type) where
  messages : List CursorMessage
  messageCount : Int
  omittedBlockCount : Int
  truncated : Bool
  rest : δ

/-- `[REDACTED]`. -/
def REDACTED_TEXT : CodeUnits := units "[REDACTED]"

/-- `text.replaceAll(secret, "[REDACTED]")`; an empty secret occurs before and behind every unit. -/
def redactSecret (secret text : CodeUnits) : CodeUnits :=
  if secret = [] then text.flatMap (fun c => REDACTED_TEXT ++ [c]) ++ REDACTED_TEXT
  else CodeUnits.replaceAll secret (fun _ _ => REDACTED_TEXT) text

def MessageRole.ofText? : Option String → Option MessageRole
  | some "user" => some .user
  | some "assistant" => some .assistant
  | _ => none

def sanitizeMessage (secret : CodeUnits) (message : ReadMessage) : Except String CursorMessage :=
  match MessageRole.ofText? message.role, message.text with
  | some role, some text => .ok ⟨role, redactSecret secret text⟩
  | _, _ => .error "invalid Cursor SDK read message"

def sanitizeReadResult {δ : Type} (result : ReadResult δ) (secret : CodeUnits) :
    Except String (SanitizedResult δ) :=
  match result.messages, result.messageCount, result.omittedBlockCount, result.truncated with
  | some messages, some messageCount, some omittedBlockCount, some truncated =>
    if messageCount < 0 ∨ omittedBlockCount < 0 then .error "invalid Cursor SDK read result"
    else do
      let messages ← messages.mapM (sanitizeMessage secret)
      let (selected, truncated) := boundWith readLimits messages
        (truncated || (messages.length : Int) < messageCount)
      return ⟨selected, messageCount, omittedBlockCount, truncated, result.rest⟩
  | _, _, _, _ => .error "invalid Cursor SDK read result"

/-! ### What the loop keeps -/

/-- The messages that are kept of a list that begins with the last one: `room` for messages and
    `remaining` characters are left. -/
def latest (maxChars : Nat) : List CursorMessage → Nat → Nat → List CursorMessage
  | [], _, _ => []
  | message :: earlier, room, remaining =>
    if 0 < room ∧ 0 < remaining then
      let text := message.text.take (min maxChars remaining)
      ⟨message.role, text⟩ :: latest maxChars earlier (room - 1) (remaining - text.length)
    else []

/-- The number of characters of some messages. -/
def totalChars (messages : List CursorMessage) : Nat := (messages.map fun m => m.text.length).sum

theorem cutText_eq (maximum : Nat) (text : CodeUnits) (truncated : Bool) :
    cutText maximum text truncated =
      (text.take maximum, truncated || decide (text.take maximum ≠ text)) := by
  unfold cutText
  by_cases hlt : maximum < text.length
  · have hne : text.take maximum ≠ text := by
      intro heq
      have hlength := congrArg List.length heq
      rw [List.length_take] at hlength
      omega
    rw [if_pos hlt, decide_eq_true hne, Bool.or_true]
  · have hall : text.take maximum = text := List.take_of_length_le (by omega)
    rw [if_neg hlt, hall]
    simp

/-- A text is cut at neither limit where it is not cut at the lower one. -/
theorem take_min_eq_iff (text : CodeUnits) (m n : Nat) :
    text.take (min m n) = text ↔ text.take m = text ∧ (text.take m).take n = text.take m := by
  rw [List.take_take, Nat.min_comm n]
  constructor
  · intro h
    have hlength := congrArg List.length h
    rw [List.length_take] at hlength
    have hm : text.take m = text := List.take_of_length_le (by omega)
    exact ⟨hm, h.trans hm.symm⟩
  · rintro ⟨hm, hn⟩
    exact hn.trans hm

/-- The loop keeps these messages, and notices where one of them is cut. -/
theorem boundLoop_eq (limits : MessageLimits) (earlier selected : List CursorMessage) (remaining : Nat)
    (truncated : Bool) :
    boundLoop limits earlier selected remaining truncated =
      let kept := latest limits.maxMessageChars earlier (limits.maxMessages - selected.length) remaining
      (kept.reverse ++ selected, truncated || decide (kept ≠ earlier.take kept.length)) := by
  induction earlier generalizing selected remaining truncated with
  | nil => simp [boundLoop, latest]
  | cons message earlier ih =>
    rw [boundLoop, latest]
    by_cases hgoes : selected.length < limits.maxMessages ∧ 0 < remaining
    · have hroom : 0 < limits.maxMessages - selected.length ∧ 0 < remaining :=
        ⟨Nat.sub_pos_of_lt hgoes.1, hgoes.2⟩
      rw [if_pos hgoes, if_pos hroom]
      dsimp only
      rw [cutText_eq, cutText_eq, ih]
      dsimp only
      have hmin : (message.text.take limits.maxMessageChars).take remaining =
          message.text.take (min limits.maxMessageChars remaining) := by
        rw [List.take_take, Nat.min_comm]
      rw [hmin, List.length_cons, ← Nat.sub_sub]
      refine Prod.ext ?_ ?_
      · rw [List.reverse_cons, List.append_assoc]
        rfl
      · -- the message is cut by one of the limits, or an earlier one is
        have hcut := take_min_eq_iff message.text limits.maxMessageChars remaining
        rw [hmin] at hcut
        rw [Bool.eq_iff_iff]
        simp only [Bool.or_eq_true, decide_eq_true_eq, List.length_cons, List.take_succ_cons, ne_eq,
          List.cons.injEq, not_and_or]
        have hsame : (⟨message.role, message.text.take (min limits.maxMessageChars remaining)⟩ :
            CursorMessage) = message ↔
              message.text.take (min limits.maxMessageChars remaining) = message.text := by
          cases message
          simp
        rw [hsame, hcut, not_and_or]
        tauto
    · have hstops : ¬ (0 < limits.maxMessages - selected.length ∧ 0 < remaining) := by omega
      rw [if_neg hgoes, if_neg hstops]
      simp

/-! ### Bounded messages -/

/-- A message whose text may be cut: only at the limit of a message, or where all characters are used. -/
structure IsCut (maxChars : Nat) (full : Prop) (message output : CursorMessage) : Prop where
  role : output.role = message.role
  text : output.text <+: message.text
  needed : output.text ≠ message.text → output.text.length = maxChars ∨ full

/-- What messages are bounded to: the end of the list with texts cut, within the limits. Messages are
    dropped only when there is no room or no character left. -/
structure IsBounding (limits : MessageLimits) (messages output : List CursorMessage) : Prop where
  suffix : ∃ dropped kept, messages = dropped ++ kept ∧
    List.Forall₂ (IsCut limits.maxMessageChars (totalChars output = limits.maxTextChars)) kept output ∧
    (dropped ≠ [] → output.length = limits.maxMessages ∨ totalChars output = limits.maxTextChars)
  count : output.length ≤ limits.maxMessages
  chars : ∀ message ∈ output, message.text.length ≤ limits.maxMessageChars
  total : totalChars output ≤ limits.maxTextChars

/-- What `latest` keeps of a list. -/
structure IsLatest (maxChars room remaining : Nat) (messages output : List CursorMessage) : Prop where
  cut : List.Forall₂ (IsCut maxChars (totalChars output = remaining)) (messages.take output.length) output
  count : output.length ≤ room
  chars : ∀ message ∈ output, message.text.length ≤ maxChars
  total : totalChars output ≤ remaining
  needed : output.length < messages.length → output.length = room ∨ totalChars output = remaining

theorem totalChars_cons (message : CursorMessage) (messages : List CursorMessage) :
    totalChars (message :: messages) = message.text.length + totalChars messages := by
  rw [totalChars, List.map_cons, List.sum_cons]
  rfl

theorem isLatest_latest (maxChars : Nat) (messages : List CursorMessage) (room remaining : Nat) :
    IsLatest maxChars room remaining messages (latest maxChars messages room remaining) := by
  induction messages generalizing room remaining with
  | nil =>
    exact ⟨.nil, Nat.zero_le _, fun _ h => absurd h List.not_mem_nil, Nat.zero_le _,
      fun h => absurd h (lt_irrefl 0)⟩
  | cons message earlier ih =>
    rw [latest]
    by_cases hgoes : 0 < room ∧ 0 < remaining
    · rw [if_pos hgoes]
      dsimp only
      set text := message.text.take (min maxChars remaining) with htext
      obtain ⟨hcut, hcount, hchars, htotal, hneeded⟩ := ih (room - 1) (remaining - text.length)
      set kept := latest maxChars earlier (room - 1) (remaining - text.length)
      have hlength : text.length = min (min maxChars remaining) message.text.length := by
        rw [htext, List.length_take]
      have hfull : totalChars (⟨message.role, text⟩ :: kept) = remaining ↔
          totalChars kept = remaining - text.length := by
        rw [totalChars_cons]
        dsimp only
        omega
      refine ⟨?_, ?_, ?_, ?_, ?_⟩
      · rw [List.length_cons, List.take_succ_cons]
        refine .cons ⟨rfl, List.take_prefix _ _, fun hne => ?_⟩ ?_
        · have hlt : min maxChars remaining < message.text.length := by
            by_contra hle
            exact hne (List.take_of_length_le (not_lt.mp hle))
          rw [hfull]
          dsimp only
          omega
        · refine hcut.imp fun m m' h => ⟨h.role, h.text, fun hne => (h.needed hne).imp id hfull.mpr⟩
      · rw [List.length_cons]
        omega
      · intro m hm
        rcases List.mem_cons.mp hm with rfl | hm
        · dsimp only
          omega
        · exact hchars m hm
      · rw [totalChars_cons]
        dsimp only
        omega
      · intro hlt
        rw [List.length_cons, List.length_cons] at hlt
        rw [hfull, List.length_cons]
        have := hneeded (by omega)
        omega
    · rw [if_neg hgoes]
      refine ⟨.nil, Nat.zero_le _, fun _ h => absurd h List.not_mem_nil, Nat.zero_le _, fun _ => ?_⟩
      show 0 = room ∨ 0 = remaining
      omega

/-- Keeping what was kept changes nothing. -/
theorem latest_latest (maxChars : Nat) (messages : List CursorMessage) (room remaining : Nat) :
    latest maxChars (latest maxChars messages room remaining) room remaining =
      latest maxChars messages room remaining := by
  induction messages generalizing room remaining with
  | nil => rfl
  | cons message earlier ih =>
    by_cases hgoes : 0 < room ∧ 0 < remaining
    · have hstep := latest.eq_2 maxChars room remaining message earlier
      rw [if_pos hgoes] at hstep
      dsimp only at hstep
      rw [hstep, latest, if_pos hgoes]
      dsimp only
      rw [List.take_take, Nat.min_self, ih]
    · rw [latest, if_neg hgoes]
      rfl

/-- The messages are bounded to these, and any change is reported. -/
theorem boundWith_eq (limits : MessageLimits) (messages : List CursorMessage) (truncated : Bool) :
    boundWith limits messages truncated =
      let output :=
        (latest limits.maxMessageChars messages.reverse limits.maxMessages limits.maxTextChars).reverse
      (output, truncated || decide (output ≠ messages)) := by
  have hlatest := isLatest_latest limits.maxMessageChars messages.reverse limits.maxMessages
    limits.maxTextChars
  rw [boundWith, boundLoop_eq]
  dsimp only
  rw [List.length_nil, Nat.sub_zero]
  set kept := latest limits.maxMessageChars messages.reverse limits.maxMessages limits.maxTextChars
  rw [List.append_nil, List.length_reverse]
  refine Prod.ext rfl ?_
  rw [Bool.eq_iff_iff]
  simp only [Bool.or_eq_true, decide_eq_true_eq]
  have hcount := hlatest.count
  constructor
  · rintro (((h | h) | h) | h)
    · exact .inl h
    · refine .inr fun heq => ?_
      have hlength := congrArg List.length heq
      rw [List.length_reverse] at hlength
      omega
    · refine .inr fun heq => h ?_
      have hall : kept = messages.reverse := List.reverse_eq_iff.mp heq
      rw [hall, List.take_length]
    · refine .inr fun heq => ?_
      have hlength := congrArg List.length heq
      rw [List.length_reverse] at hlength
      omega
  · rintro (h | h)
    · exact .inl (.inl (.inl h))
    · by_cases hshort : kept.length < messages.length
      · exact .inr hshort
      · refine .inl (.inr fun heq => h ?_)
        rw [List.take_of_length_le (by rw [List.length_reverse]; omega)] at heq
        rw [heq, List.reverse_reverse]

theorem totalChars_reverse (messages : List CursorMessage) :
    totalChars messages.reverse = totalChars messages := by
  rw [totalChars, List.map_reverse, List.sum_reverse]
  rfl

/-- **Bounding.** -/
theorem isBounding_boundWith (limits : MessageLimits) (messages : List CursorMessage) (truncated : Bool) :
    IsBounding limits messages (boundWith limits messages truncated).1 := by
  have hlatest := isLatest_latest limits.maxMessageChars messages.reverse limits.maxMessages
    limits.maxTextChars
  rw [boundWith_eq]
  dsimp only
  set kept := latest limits.maxMessageChars messages.reverse limits.maxMessages limits.maxTextChars
  have hlength : kept.length ≤ messages.length := by
    have hboth := hlatest.cut.length_eq
    rw [List.length_take, List.length_reverse] at hboth
    omega
  refine ⟨⟨(messages.reverse.drop kept.length).reverse, (messages.reverse.take kept.length).reverse,
    ?_, ?_, ?_⟩, ?_, ?_, ?_⟩
  · rw [← List.reverse_append, List.take_append_drop, List.reverse_reverse]
  · rw [totalChars_reverse]
    exact List.rel_reverse hlatest.cut
  · intro hdropped
    rw [List.length_reverse, totalChars_reverse]
    refine hlatest.needed ?_
    rw [ne_eq, List.reverse_eq_nil_iff, List.drop_eq_nil_iff, not_le] at hdropped
    exact hdropped
  · rw [List.length_reverse]
    exact hlatest.count
  · intro message hmessage
    exact hlatest.chars message (List.mem_reverse.mp hmessage)
  · rw [totalChars_reverse]
    exact hlatest.total

/-- Bounding what is bounded changes nothing and reports nothing. -/
theorem boundWith_boundWith (limits : MessageLimits) (messages : List CursorMessage) (truncated : Bool) :
    boundWith limits (boundWith limits messages truncated).1 false =
      ((boundWith limits messages truncated).1, false) := by
  rw [boundWith_eq limits messages]
  dsimp only
  rw [boundWith_eq, List.reverse_reverse, latest_latest]
  simp

/-! ### Results without the secret -/

/-- A text in which the secret does not occur is left as it is. -/
theorem redactSecret_absent {secret text : CodeUnits} (h : ¬ secret <:+: text) :
    redactSecret secret text = text := by
  have hsecret : secret ≠ [] := by
    rintro rfl
    exact h List.nil_infix
  have hscan : ∀ before rest : CodeUnits, rest <:+ text →
      CodeUnits.replaceFrom secret (fun _ _ => REDACTED_TEXT) 0 before rest = rest := by
    intro before rest hrest
    induction rest generalizing before with
    | nil => rfl
    | cons c rest ih =>
      have hpass : ¬ secret <+: c :: rest := fun hprefix => h <| hprefix.isInfix.trans hrest.isInfix
      rw [CodeUnits.replaceFrom_pass hpass, ih _ ((List.suffix_cons c rest).trans hrest)]
  rw [redactSecret, if_neg hsecret]
  exact hscan [] text (List.suffix_refl text)

def MessageRole.text : MessageRole → String
  | user => "user"
  | assistant => "assistant"

/-- A message of the bridge. -/
def CursorMessage.read (message : CursorMessage) : ReadMessage :=
  ⟨some message.role.text, some message.text⟩

theorem sanitizeMessage_read {secret : CodeUnits} {message : CursorMessage}
    (h : ¬ secret <:+: message.text) : sanitizeMessage secret message.read = .ok message := by
  obtain ⟨role, text⟩ := message
  have hrole : MessageRole.ofText? (some role.text) = some role := by cases role <;> rfl
  simp only [sanitizeMessage, CursorMessage.read, hrole, redactSecret_absent h]

theorem mapM_sanitizeMessage {secret : CodeUnits} {messages : List CursorMessage}
    (h : ∀ message ∈ messages, ¬ secret <:+: message.text) :
    (messages.map CursorMessage.read).mapM (sanitizeMessage secret) = .ok messages := by
  induction messages with
  | nil => rfl
  | cons message messages ih =>
    rw [List.map_cons, List.mapM_cons, sanitizeMessage_read (h message List.mem_cons_self),
      ih fun m hm => h m (List.mem_cons_of_mem _ hm)]
    rfl

/-- A result of the bridge with all its messages, which says of itself that it is complete. -/
def completeResult {δ : Type} (messages : List CursorMessage) (omittedBlockCount : Nat) (rest : δ) :
    ReadResult δ where
  messages := some (messages.map CursorMessage.read)
  messageCount := some messages.length
  omittedBlockCount := some omittedBlockCount
  truncated := some false
  rest := rest

theorem sanitizeReadResult_complete {δ : Type} {messages : List CursorMessage} {secret : CodeUnits}
    (h : ∀ message ∈ messages, ¬ secret <:+: message.text) (omittedBlockCount : Nat) (rest : δ) :
    sanitizeReadResult (completeResult messages omittedBlockCount rest) secret =
      .ok ⟨(boundWith readLimits messages false).1, messages.length, omittedBlockCount,
        (boundWith readLimits messages false).2, rest⟩ := by
  have hcounts : ¬ ((messages.length : Int) < 0 ∨ (omittedBlockCount : Int) < 0) := by omega
  have hcount : (false || decide ((messages.length : Int) < messages.length)) = false := by simp
  rw [sanitizeReadResult]
  dsimp only [completeResult]
  rw [if_neg hcounts, mapM_sanitizeMessage h]
  dsimp only [bind, Except.bind, pure, Except.pure]
  rw [hcount]

/-! ### The three bounders -/

/-- Messages of one length that use up the characters. -/
theorem latest_replicate {maxChars chars : Nat} {message : CursorMessage}
    (hlength : message.text.length = chars) (hchars : chars ≤ maxChars) (hpos : 0 < chars)
    (n room : Nat) (earlier : List CursorMessage) :
    latest maxChars (List.replicate n message ++ earlier) (n + room) (n * chars) =
      List.replicate n message := by
  induction n with
  | zero =>
    rw [Nat.zero_mul]
    cases earlier <;> simp [latest]
  | succ n ih =>
    have htotal : (n + 1) * chars = n * chars + chars := Nat.succ_mul ..
    have hcut : message.text.take (min maxChars ((n + 1) * chars)) = message.text :=
      List.take_of_length_le (by omega)
    have hgoes : 0 < n + 1 + room ∧ 0 < (n + 1) * chars := by omega
    rw [List.replicate_succ, List.cons_append, latest, if_pos hgoes]
    dsimp only
    rw [hcut, hlength, htotal, Nat.add_sub_cancel, Nat.add_right_comm, Nat.add_sub_cancel, ih]

/-- An empty message before eight long ones. -/
def emptyFirst : List CursorMessage :=
  ⟨.user, []⟩ :: List.replicate 8 ⟨.assistant, List.replicate 8192 97⟩

end AgentHost
