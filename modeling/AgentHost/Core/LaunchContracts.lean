import AgentHost.Lib.IsoTime
import Mathlib.Tactic.DeriveFintype

namespace AgentHost

/-!
# Launch contracts

The data of `launch-contracts.js`: what a launch request, a launch record and their fields
look like, which of them are valid, and how a request payload is normalized against the
capabilities of the providers.

* `validateLaunchRecord` — the validator every write and every reopening of the ledger runs.
* `normalizeLaunchRequest` — payload and capabilities to a resolved request, or the
  `ContractError` the source throws.

A time stamp is its time value: the source writes every one of them with `toISOString` and
reads it back with `Date.parse`, and the length of its text is `IsoTime.bytes_toISOString`.
-/

/-! ### Texts -/

/-- A time stamp, in milliseconds since the epoch. -/
abbrev Timestamp := Int

/-- `^[class]{low,high}$`. -/
def matchesClass (cls : Char → Bool) (low high : Nat) (s : String) : Bool :=
  low ≤ s.length && s.length ≤ high && s.toList.all cls

/-- `[A-Za-z0-9_-]`. -/
def hashChar (c : Char) : Bool := c.isAlphanum || c.toNat = 95 || c.toNat = 45

/-- `[A-Za-z0-9._:-]`. -/
def idChar (c : Char) : Bool := hashChar c || c.toNat = 46 || c.toNat = 58

/-- `[0-9a-f-]`. -/
def uuidChar (c : Char) : Bool :=
  c.isDigit || (97 ≤ c.toNat && c.toNat ≤ 102) || c.toNat = 45

def safeId (s : String) : Bool := matchesClass idChar 1 100 s

def safeHash (s : String) : Bool := matchesClass hashChar 43 43 s

def idempotencyKey (s : String) : Bool := matchesClass idChar 8 128 s

/-- `^[A-Za-z0-9_-]{16}$`, the scope of a provider's retirement cleanup. -/
def safeCleanupScope (s : String) : Bool := matchesClass hashChar 16 16 s

/-- `^tag[0-9a-f-]{36}$`. -/
def taggedUuid (tag s : String) : Bool :=
  s.toList.take tag.length == tag.toList &&
    ((s.toList.drop tag.length).length == 36 && (s.toList.drop tag.length).all uuidChar)

def safeLaunchId (s : String) : Bool := taggedUuid "launch:" s

def safeAttemptId (s : String) : Bool := taggedUuid "attempt:" s

/-! ### Requests and records -/

structure LaunchRisk where
  localMutation : Bool
  externalBillable : Bool
  deriving DecidableEq

/-- A request after `normalizeLaunchRequest`. -/
structure LaunchRequest where
  provider : String
  target : String
  profile : String
  mode : String
  risk : LaunchRisk
  capabilityVersion : String
  deriving DecidableEq

/-- `LAUNCH_STATES`. -/
inductive LaunchState
  | requested
  | creating
  | owned
  | retiring
  | failed
  | uncertain
  deriving DecidableEq

structure LaunchError where
  code : String
  retryable : Bool
  deriving DecidableEq

structure LaunchRecord where
  id : String
  attemptId : String
  keyHash : String
  signature : String
  request : LaunchRequest
  state : LaunchState
  requestedAt : Timestamp
  updatedAt : Timestamp
  providerAgentId : Option String := none
  agentId : Option String := none
  error : Option LaunchError := none
  retirementKeyHash : Option String := none
  deriving DecidableEq

def LaunchState.text : LaunchState → String
  | .requested => "requested"
  | .creating => "creating"
  | .owned => "owned"
  | .retiring => "retiring"
  | .failed => "failed"
  | .uncertain => "uncertain"

def LaunchRisk.toJson (risk : LaunchRisk) : Json :=
  .obj [("localMutation", .bool risk.localMutation), ("externalBillable", .bool risk.externalBillable)]

def LaunchRequest.toJson (request : LaunchRequest) : Json :=
  .obj [("provider", .str request.provider), ("target", .str request.target),
    ("profile", .str request.profile), ("mode", .str request.mode),
    ("risk", request.risk.toJson), ("capabilityVersion", .str request.capabilityVersion)]

def LaunchError.toJson (error : LaunchError) : Json :=
  .obj [("code", .str error.code), ("retryable", .bool error.retryable)]

/-- The member of an optional field: `JSON.stringify` leaves an undefined one out. -/
def optionalMember {β : Type} (name : String) (encode : β → Json) :
    Option β → List (String × Json)
  | none => []
  | some value => [(name, encode value)]

def LaunchRecord.toJson (record : LaunchRecord) : Json :=
  .obj ([("id", .str record.id), ("attemptId", .str record.attemptId),
      ("keyHash", .str record.keyHash), ("signature", .str record.signature),
      ("request", record.request.toJson), ("state", .str record.state.text),
      ("requestedAt", .str (IsoTime.toISOString record.requestedAt)),
      ("updatedAt", .str (IsoTime.toISOString record.updatedAt))] ++
    optionalMember "providerAgentId" .str record.providerAgentId ++
    optionalMember "agentId" .str record.agentId ++
    optionalMember "error" LaunchError.toJson record.error ++
    optionalMember "retirementKeyHash" .str record.retirementKeyHash)

/-- A request whose identifiers are all safe. -/
def validResolvedRequest (request : LaunchRequest) : Bool :=
  safeId request.provider && safeId request.target && safeId request.profile &&
    safeId request.mode && safeId request.capabilityVersion

/-- An owned or retiring record has its agent's identities and no error; no other has them. -/
def validOwnership (record : LaunchRecord) : Bool :=
  match record.state with
  | .owned | .retiring =>
    record.providerAgentId.any safeId && record.agentId.any safeId && record.error.isNone
  | _ => record.providerAgentId.isNone && record.agentId.isNone

/-- Exactly a retiring record has the hash of its retirement key. -/
def validRetirementKeyHash (record : LaunchRecord) : Bool :=
  if record.state = .retiring then record.retirementKeyHash.any safeHash
  else record.retirementKeyHash.isNone

/-- Exactly a failed or uncertain record has an error, retryable if it is uncertain. -/
def validError (record : LaunchRecord) : Bool :=
  if record.state = .failed ∨ record.state = .uncertain then
    record.error.any fun error =>
      safeId error.code && error.retryable == decide (record.state = .uncertain)
  else record.error.isNone

/-- `validateLaunchRecord`. -/
def validateLaunchRecord (record : LaunchRecord) : Bool :=
  safeLaunchId record.id && safeAttemptId record.attemptId && safeHash record.keyHash &&
    safeHash record.signature && validResolvedRequest record.request &&
    !decide (record.updatedAt < record.requestedAt) && validOwnership record &&
    validRetirementKeyHash record && validError record

/-- What a valid record satisfies, by field. -/
theorem validateLaunchRecord_iff {record : LaunchRecord} :
    validateLaunchRecord record = true ↔
      safeLaunchId record.id = true ∧ safeAttemptId record.attemptId = true ∧
      safeHash record.keyHash = true ∧ safeHash record.signature = true ∧
      validResolvedRequest record.request = true ∧ record.requestedAt ≤ record.updatedAt ∧
      validOwnership record = true ∧ validRetirementKeyHash record = true ∧
      validError record = true := by
  simp only [validateLaunchRecord, Bool.and_eq_true, Bool.not_eq_true', decide_eq_false_iff_not,
    not_lt, and_assoc]

/-- A retiring record has its retirement key. -/
theorem retirementKeyHash_of_retiring {record : LaunchRecord}
    (h : validateLaunchRecord record = true) (hstate : record.state = .retiring) :
    ∃ keyHash, record.retirementKeyHash = some keyHash ∧ safeHash keyHash = true := by
  have hkey := (validateLaunchRecord_iff.mp h).2.2.2.2.2.2.2.1
  rw [validRetirementKeyHash, if_pos hstate] at hkey
  cases hk : record.retirementKeyHash with
  | none => simp [hk] at hkey
  | some keyHash => exact ⟨keyHash, rfl, by simpa [hk] using hkey⟩

/-- Only a retiring record has a retirement key. -/
theorem retirementKeyHash_eq_none {record : LaunchRecord}
    (h : validateLaunchRecord record = true) (hstate : record.state ≠ .retiring) :
    record.retirementKeyHash = none := by
  have hkey := (validateLaunchRecord_iff.mp h).2.2.2.2.2.2.2.1
  rw [validRetirementKeyHash, if_neg hstate] at hkey
  exact Option.isNone_iff_eq_none.mp hkey

/-! ### Capabilities and payloads -/

structure LaunchMode where
  id : String
  enabled : Bool
  risk : LaunchRisk
  deriving DecidableEq

structure LaunchTarget where
  id : String
  profiles : List String
  modes : List LaunchMode
  deriving DecidableEq

structure LaunchProvider where
  provider : String
  capabilityVersion : String
  targets : List LaunchTarget
  deriving DecidableEq

/-- The providers of the normalized launch capabilities. -/
structure LaunchCapabilities where
  providers : List LaunchProvider
  deriving DecidableEq

/-- An error of the public contract, with its code, text and HTTP status. -/
structure ContractError where
  code : String
  message : String
  status : Nat := 400
  deriving DecidableEq

def unsupportedLaunchFields : ContractError :=
  ⟨"invalid_launch_request", "launch request has unsupported fields", 400⟩

def invalidLaunchField (field : String) : ContractError :=
  ⟨"invalid_launch_request", field ++ " must be a safe identifier", 400⟩

def invalidLaunchConfirmations : ContractError :=
  ⟨"invalid_launch_confirmations",
    "confirmations must explicitly acknowledge localMutation and externalBillable", 400⟩

def launchOptionNotFound : ContractError :=
  ⟨"launch_option_not_found", "launch option is not available", 404⟩

def launchConfirmationMismatch : ContractError :=
  ⟨"launch_confirmation_mismatch", "confirmations do not match the selected mode", 409⟩

def invalidIdempotencyKey : ContractError :=
  ⟨"invalid_idempotency_key", "Idempotency-Key must be 8-128 safe ASCII characters", 400⟩

/-- `validateIdempotencyKey`. -/
def validateIdempotencyKey (key : String) : Except ContractError String :=
  if idempotencyKey key then .ok key else .error invalidIdempotencyKey

/-- The value of a member of a parsed object. -/
def memberOf? (members : List (String × Json)) (name : String) : Option Json :=
  (members.find? (fun m => m.1 = name)).map Prod.snd

/-- `REQUEST_KEYS`. -/
def requestKeys : List String := ["provider", "target", "profile", "mode", "confirmations"]

/-- `CONFIRMATION_KEYS`. -/
def confirmationKeys : List String := ["localMutation", "externalBillable"]

/-- A field of the payload that must be a safe identifier. -/
def launchField (members : List (String × Json)) (field : String) :
    Except ContractError String :=
  match memberOf? members field with
  | some (.str value) => if safeId value then .ok value else .error (invalidLaunchField field)
  | _ => .error (invalidLaunchField field)

/-- The confirmations of the payload: an object with exactly two known boolean members. -/
def launchConfirmations (members : List (String × Json)) : Except ContractError LaunchRisk :=
  match memberOf? members "confirmations" with
  | some (.obj confirmations) =>
    if confirmations.any (fun m => m.1 ∉ confirmationKeys) then .error invalidLaunchConfirmations
    else
      match memberOf? confirmations "localMutation", memberOf? confirmations "externalBillable" with
      | some (.bool localMutation), some (.bool externalBillable) =>
        .ok ⟨localMutation, externalBillable⟩
      | _, _ => .error invalidLaunchConfirmations
  | _ => .error invalidLaunchConfirmations

/-- The provider, target and enabled mode a payload selects. -/
def selectOption (capabilities : LaunchCapabilities) (provider target mode : String) :
    Option (LaunchProvider × LaunchTarget × LaunchMode) := do
  let p ← capabilities.providers.find? (fun entry => entry.provider = provider)
  let t ← p.targets.find? (fun entry => entry.id = target)
  let m ← t.modes.find? (fun entry => entry.id = mode ∧ entry.enabled = true)
  return (p, t, m)

/-- The option of the capabilities that the fields of a payload name, if its confirmations
    are those of the mode. -/
def resolveOption (capabilities : LaunchCapabilities) (provider target profile mode : String)
    (confirmations : LaunchRisk) : Except ContractError LaunchRequest :=
  match selectOption capabilities provider target mode with
  | none => .error launchOptionNotFound
  | some (p, t, m) =>
    if profile ∉ t.profiles then .error launchOptionNotFound
    else if confirmations ≠ m.risk then .error launchConfirmationMismatch
    else .ok ⟨p.provider, t.id, profile, m.id, m.risk, p.capabilityVersion⟩

/-- `normalizeLaunchRequest`. -/
def normalizeLaunchRequest (payload : Json) (capabilities : LaunchCapabilities) :
    Except ContractError LaunchRequest :=
  match payload with
  | .obj members =>
    if members.any (fun m => m.1 ∉ requestKeys) then .error unsupportedLaunchFields
    else do
      let provider ← launchField members "provider"
      let target ← launchField members "target"
      let profile ← launchField members "profile"
      let mode ← launchField members "mode"
      let confirmations ← launchConfirmations members
      resolveOption capabilities provider target profile mode confirmations
  | _ => .error unsupportedLaunchFields

/-- `capabilitiesForRecord`: the one option a stored request was made with. -/
def capabilitiesForRecord (request : LaunchRequest) : LaunchCapabilities :=
  ⟨[⟨request.provider, request.capabilityVersion,
    [⟨request.target, [request.profile], [⟨request.mode, true, request.risk⟩]⟩]⟩]⟩

/-- Against its own option a request resolves to itself or not at all. -/
theorem resolveOption_capabilitiesForRecord {stored request : LaunchRequest}
    {provider target profile mode : String} {confirmations : LaunchRisk}
    (h : resolveOption (capabilitiesForRecord stored) provider target profile mode confirmations
      = .ok request) : request = stored := by
  unfold resolveOption selectOption capabilitiesForRecord at h
  by_cases hp : stored.provider = provider
  · by_cases ht : stored.target = target
    · by_cases hm : stored.mode = mode
      · simp only [List.find?_cons, hp, ht, hm, decide_true, Option.bind_eq_bind,
          Option.bind_some, and_self, Option.pure_def, List.mem_singleton] at h
        by_cases hprofile : profile = stored.profile
        · by_cases hrisk : confirmations = stored.risk
          · simp [hprofile, hrisk] at h
            rw [← h, ← hp, ← ht, ← hm]
          · simp [hprofile, hrisk] at h
        · simp [hprofile] at h
      · simp [hp, ht, hm] at h
    · simp [hp, ht] at h
  · simp [hp] at h

/-- A payload that normalizes against the option of a stored request normalizes to it. -/
theorem normalizeLaunchRequest_capabilitiesForRecord {payload : Json}
    {stored request : LaunchRequest}
    (h : normalizeLaunchRequest payload (capabilitiesForRecord stored) = .ok request) :
    request = stored := by
  unfold normalizeLaunchRequest at h
  split at h
  · next members =>
    split at h
    · cases h
    · simp only [bind, Except.bind] at h
      split at h
      · cases h
      split at h
      · cases h
      split at h
      · cases h
      split at h
      · cases h
      split at h
      · cases h
      exact resolveOption_capabilitiesForRecord h
  · cases h

end AgentHost
