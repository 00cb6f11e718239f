import AgentHost.Lib.InsertionMap
import AgentHost.Core.LaunchContracts
import Mathlib.Data.List.Sort

namespace AgentHost

/-!
# The launch ledger

The state of `launch-ledger.js` and its operations, as pure functions: launch records,
replay tombstones of completed retirements, pending provider cleanups, and the encoding of
the cleanups in the file.

* `LedgerOp.apply` — what an operation decides: it throws, returns without writing, or asks
  for the next state to be persisted and says how memory is rolled back when that fails.
* `Ledger.persist` — the document of a state, refused when it, or the document after every
  pending retirement completes, exceeds the size limit.
* `openDocument` — the validation of a document at start, and the state it yields.
-/

/-! ### Limits -/

def maxLedgerBytes : Nat := 1000000
def maxRecords : Nat := 1000
def maxPending : Nat := 32
def launchSchemaVersion : Nat := 1
def ledgerSchemaVersion : Nat := 2
def maxRetirements : Nat := 100
def maxRetirementCleanups : Nat := 1000

/-! ### State -/

/-- The replay tombstone of a completed retirement. -/
structure Retirement where
  launchId : String
  attemptId : String
  provider : String
  keyHash : String
  creationKeyHash : String
  signature : String
  request : LaunchRequest
  requestedAt : Timestamp
  retiredAt : Timestamp
  cleanupScope : Option String := none
  deriving DecidableEq

/-- The pending cleanup of a provider after a retirement. -/
structure RetirementCleanup where
  launchId : String
  attemptId : String
  provider : String
  keyHash : String
  cleanupScope : Option String := none
  deriving DecidableEq

/-- The maps of an open ledger, and how its file encodes the cleanups. -/
structure Ledger where
  records : InsertionMap LaunchRecord.id
  retirements : InsertionMap Retirement.launchId
  retirementCleanups : InsertionMap RetirementCleanup.launchId
  compactCleanupEncoding : Bool
  deriving DecidableEq

/-- The number of records being retired. -/
def Ledger.retiringCount (ledger : Ledger) : Nat :=
  ledger.records.values.countP (fun record => record.state = .retiring)

/-- A record whose launch is not decided yet. -/
def LaunchRecord.pending (record : LaunchRecord) : Bool :=
  record.state = .requested || record.state = .creating || record.state = .uncertain

/-- The idempotency hashes a record holds. -/
def LaunchRecord.keyHashes (record : LaunchRecord) : List String :=
  record.keyHash :: record.retirementKeyHash.toList

/-- The idempotency hashes a tombstone holds. -/
def Retirement.keyHashes (entry : Retirement) : List String :=
  [entry.creationKeyHash, entry.keyHash]

/-- `laterTimestamp`. -/
def laterTimestamp (previous candidate : Timestamp) : Timestamp :=
  if candidate < previous then previous else candidate

/-- `retirementEntry`.  A record without a retirement key yields a tombstone whose key
    `validRetirement` refuses. -/
def retirementEntry (record : LaunchRecord) (now : Timestamp) (cleanupScope : Option String) :
    Retirement where
  launchId := record.id
  attemptId := record.attemptId
  provider := record.request.provider
  keyHash := record.retirementKeyHash.getD ""
  creationKeyHash := record.keyHash
  signature := record.signature
  request := record.request
  requestedAt := record.requestedAt
  retiredAt := laterTimestamp record.updatedAt now
  cleanupScope := cleanupScope

/-- `retirementCleanup`. -/
def retirementCleanup (entry : Retirement) : RetirementCleanup where
  launchId := entry.launchId
  attemptId := entry.attemptId
  provider := entry.provider
  keyHash := entry.keyHash
  cleanupScope := entry.cleanupScope

/-- `validRetirement`. -/
def validRetirement (entry : Retirement) : Bool :=
  safeLaunchId entry.launchId && safeAttemptId entry.attemptId && safeId entry.provider &&
    safeHash entry.keyHash && safeHash entry.creationKeyHash && safeHash entry.signature &&
    entry.cleanupScope.all safeCleanupScope && validResolvedRequest entry.request &&
    decide (entry.provider = entry.request.provider)

/-- `validRetirementCleanup`. -/
def validRetirementCleanup (entry : RetirementCleanup) : Bool :=
  safeLaunchId entry.launchId && safeAttemptId entry.attemptId && safeId entry.provider &&
    safeHash entry.keyHash && entry.cleanupScope.any safeCleanupScope

/-- `cleanupMatchesRetirement`: the two agree on every field of a cleanup. -/
def cleanupMatchesRetirement (cleanup : RetirementCleanup) (retirement : Retirement) : Bool :=
  cleanup = retirementCleanup retirement

/-- The tombstones that ask for a provider cleanup. -/
def scopedRetirements (retirements : List Retirement) : List Retirement :=
  retirements.filter (fun entry => entry.cleanupScope.isSome)

/-- `cleanupsExactlyMatchScopedRetirements`.  A scoped tombstone without a cleanup, on which the
    source would throw, does not occur where it calls this: see `Ledger.Valid.compact_scoped`. -/
def cleanupsExactlyMatchScopedRetirements (retirements : InsertionMap Retirement.launchId)
    (retirementCleanups : InsertionMap RetirementCleanup.launchId) : Bool :=
  (scopedRetirements retirements.values).length == retirementCleanups.size &&
    (scopedRetirements retirements.values).all fun entry =>
      (retirementCleanups.get? entry.launchId).any (fun cleanup =>
        cleanupMatchesRetirement cleanup entry)

/-! ### The document -/

/-- The parsed content of the ledger file. -/
structure LedgerDocument where
  schemaVersion : Nat
  records : List LaunchRecord
  retirements : Option (List Retirement)
  retirementCleanups : Option (List RetirementCleanup)
  deriving DecidableEq

def Retirement.toJson (entry : Retirement) : Json :=
  .obj ([("launchId", .str entry.launchId), ("attemptId", .str entry.attemptId),
      ("provider", .str entry.provider), ("keyHash", .str entry.keyHash),
      ("creationKeyHash", .str entry.creationKeyHash), ("signature", .str entry.signature),
      ("request", entry.request.toJson),
      ("requestedAt", .str (IsoTime.toISOString entry.requestedAt)),
      ("retiredAt", .str (IsoTime.toISOString entry.retiredAt))] ++
    optionalMember "cleanupScope" .str entry.cleanupScope)

def RetirementCleanup.toJson (entry : RetirementCleanup) : Json :=
  .obj ([("launchId", .str entry.launchId), ("attemptId", .str entry.attemptId),
      ("provider", .str entry.provider), ("keyHash", .str entry.keyHash)] ++
    optionalMember "cleanupScope" .str entry.cleanupScope)

def LedgerDocument.toJson (document : LedgerDocument) : Json :=
  .obj ([("schemaVersion", .num document.schemaVersion),
      ("records", .arr (document.records.map LaunchRecord.toJson))] ++
    optionalMember "retirements" (fun es => .arr (es.map Retirement.toJson)) document.retirements ++
    optionalMember "retirementCleanups" (fun es => .arr (es.map RetirementCleanup.toJson))
      document.retirementCleanups)

/-- `Buffer.byteLength` of the text of a document and the newline after it. -/
def LedgerDocument.bytes (document : LedgerDocument) : Nat := document.toJson.bytes + 1

/-- `ledgerContent`: the document of a state. -/
def ledgerContent (ledger : Ledger) : LedgerDocument :=
  let retained := 0 < ledger.retirements.size ∨ 0 < ledger.retirementCleanups.size
  let explicit := !ledger.compactCleanupEncoding ||
    !cleanupsExactlyMatchScopedRetirements ledger.retirements ledger.retirementCleanups
  { schemaVersion := ledgerSchemaVersion
    records := ledger.records.values
    retirements := if retained then some ledger.retirements.values else none
    retirementCleanups :=
      if retained ∧ explicit = true then some ledger.retirementCleanups.values else none }

/-- The order of the tombstone candidates of a projection: larger texts first, and among
    equally large ones by launch id. -/
def candidateBefore (left right : Retirement) : Prop :=
  right.toJson.bytes < left.toJson.bytes ∨
    (left.toJson.bytes = right.toJson.bytes ∧ left.launchId ≤ right.launchId)

instance : DecidableRel candidateBefore := fun left right => by
  unfold candidateBefore; infer_instance

/-- The records that are being retired, oldest first. -/
def Ledger.retiring (ledger : Ledger) : List LaunchRecord :=
  ledger.records.values.filter (fun record => record.state = .retiring)

/-- The tombstone a pending retirement is projected to. -/
def projectedEntry (record : LaunchRecord) : Retirement :=
  retirementEntry record record.updatedAt (some "xxxxxxxxxxxxxxxx")

/-- `projectRetirementCompletions`: the state after every pending retirement completes, with
    the largest tombstones retained. -/
def projectRetirementCompletions (ledger : Ledger) : Ledger :=
  let entries := ledger.retiring.map projectedEntry
  let candidates := (ledger.retirements.values ++ entries).insertionSort candidateBefore
  { ledger with
    records := ledger.records.deleteAll (ledger.retiring.map LaunchRecord.id)
    retirements := .ofValues Retirement.launchId (candidates.take maxRetirements)
    retirementCleanups := ledger.retirementCleanups.setAll (entries.map retirementCleanup) }

/-! ### Errors and replies -/

/-- The errors of the ledger. -/
inductive LedgerError
  | notOpen
  | unreadable
  | unsupportedSchema
  | duplicateRecords
  | duplicateRetirements
  | duplicateKeys
  | duplicateCleanups
  | duplicateAttempts
  | duplicateCleanupIdentities
  | cleanupCapacityExceeded
  | invalidRetirementHash
  | onlyOwnedRetirable
  | retirementCleanupFull
  | retirementKeyConflict
  | invalidRetirementTransition
  | retirementNotFenced
  | invalidTombstone
  | cleanupFenceMismatch
  | retirementFenceMismatch
  | invalidRollback
  | invalidRequestRecord
  | recordNotFound
  | invalidTransition
  | contentTooLarge
  | projectionTooLarge
  | writeFailed
  deriving DecidableEq

/-- The text of an error. -/
def LedgerError.message : LedgerError → String
  | .notOpen => "launch ledger is not open"
  | .unreadable => "launch ledger is invalid or unavailable"
  | .unsupportedSchema => "launch ledger has an unsupported or malformed schema"
  | .duplicateRecords => "launch ledger contains duplicate records or idempotency keys"
  | .duplicateRetirements => "launch ledger contains duplicate retirement records"
  | .duplicateKeys => "launch ledger contains duplicate idempotency keys"
  | .duplicateCleanups => "launch ledger contains duplicate or mismatched retirement cleanups"
  | .duplicateAttempts => "launch ledger contains duplicate launch attempt identities"
  | .duplicateCleanupIdentities => "launch ledger contains duplicate retirement cleanup identities"
  | .cleanupCapacityExceeded => "launch ledger exceeds retirement cleanup capacity"
  | .invalidRetirementHash => "invalid retirement idempotency hash"
  | .onlyOwnedRetirable => "only owned launches can be retired"
  | .retirementCleanupFull => "retirement cleanup capacity is full"
  | .retirementKeyConflict => "retirement idempotency hash is already claimed"
  | .invalidRetirementTransition => "invalid launch retirement transition"
  | .retirementNotFenced => "launch retirement is not fenced"
  | .invalidTombstone => "invalid launch retirement tombstone"
  | .cleanupFenceMismatch => "retirement cleanup fence does not match"
  | .retirementFenceMismatch => "launch retirement fence does not match"
  | .invalidRollback => "invalid launch retirement rollback"
  | .invalidRequestRecord => "invalid launch request record"
  | .recordNotFound => "launch record not found"
  | .invalidTransition => "invalid launch state transition"
  | .contentTooLarge => "launch ledger exceeds its size limit"
  | .projectionTooLarge => "launch ledger cannot reserve retirement completion capacity"
  | .writeFailed => "launch ledger write failed"

/-- The code an error carries, where it has one. -/
def LedgerError.code? : LedgerError → Option String
  | .retirementCleanupFull => some "retirement_cleanup_full"
  | .retirementKeyConflict => some "retirement_key_conflict"
  | _ => none

/-- What an operation of the ledger returns. -/
inductive LedgerReply
  | undefined
  | record (record : LaunchRecord)
  | retirement (entry : Retirement)
  | flag (value : Bool)
  | created (record : LaunchRecord)
  | existing (record : LaunchRecord)
  | retired (entry : Retirement)
  | conflict
  | full
  deriving DecidableEq

/-- What an operation decides before anything is written. -/
inductive LedgerOutcome
  | throws (error : LedgerError)
  | returns (reply : LedgerReply)
  | persists (next : Ledger) (reply : LedgerReply) (rollback : Ledger)

/-- The state an outcome asks to persist. -/
def LedgerOutcome.next? : LedgerOutcome → Option Ledger
  | .persists next _ _ => some next
  | _ => none

/-! ### Operations -/

/-- The fields a transition overwrites; an absent one is kept. -/
structure LaunchPatch where
  state : Option LaunchState := none
  providerAgentId : Option String := none
  agentId : Option String := none
  error : Option (Option LaunchError) := none
  deriving DecidableEq

/-- `{ ...current, ...patch, updatedAt: now }`. -/
def LaunchPatch.apply (patch : LaunchPatch) (current : LaunchRecord) (now : Timestamp) :
    LaunchRecord :=
  { current with
    state := patch.state.getD current.state
    providerAgentId := patch.providerAgentId <|> current.providerAgentId
    agentId := patch.agentId <|> current.agentId
    error := patch.error.getD current.error
    updatedAt := now }

/-- The mutating operations, with the clock reading and the fresh identities they use. -/
inductive LedgerOp
  | reserve (id attemptId keyHash signature : String) (request : LaunchRequest) (now : Timestamp)
  | transition (id : String) (expectedStates : List LaunchState) (patch : LaunchPatch)
      (now : Timestamp)
  | beginRetirement (id keyHash : String) (now : Timestamp)
  | completeRetirement (id : String) (now : Timestamp) (cleanupScope : Option String)
  | completeRetirementCleanup (id keyHash : String)
  | cancelRetirement (id keyHash : String) (now : Timestamp)
  deriving DecidableEq

namespace Ledger

variable (ledger : Ledger)

def findByKeyHash (keyHash : String) : Option LaunchRecord :=
  ledger.records.values.find? (fun record => record.keyHash = keyHash)

def findByRetirementKeyHash (keyHash : String) : Option LaunchRecord :=
  ledger.records.values.find? (fun record => record.retirementKeyHash = some keyHash)

def findRetirementByKeyHash (keyHash : String) : Option Retirement :=
  ledger.retirements.values.find? (fun entry => entry.keyHash = keyHash)

def findRetirementByCreationKeyHash (keyHash : String) : Option Retirement :=
  ledger.retirements.values.find? (fun entry => entry.creationKeyHash = keyHash)

/-- The record a new reservation stores. -/
def requestedRecord (id attemptId keyHash signature : String) (request : LaunchRequest)
    (now : Timestamp) : LaunchRecord where
  id := id
  attemptId := attemptId
  keyHash := keyHash
  signature := signature
  request := request
  state := .requested
  requestedAt := now
  updatedAt := now

def reserve (id attemptId keyHash signature : String) (request : LaunchRequest)
    (now : Timestamp) : LedgerOutcome :=
  match ledger.findByKeyHash keyHash with
  | some existing => .returns (.existing existing)
  | none =>
    match ledger.findRetirementByCreationKeyHash keyHash with
    | some retired => .returns (.retired retired)
    | none =>
      if (ledger.findByRetirementKeyHash keyHash).isSome
          ∨ (ledger.findRetirementByKeyHash keyHash).isSome then .returns .conflict
      else if maxPending ≤ ledger.records.values.countP LaunchRecord.pending then .returns .full
      else if maxRecords ≤ ledger.records.size then .returns .full
      else
        let record := requestedRecord id attemptId keyHash signature request now
        if !validateLaunchRecord record then .throws .invalidRequestRecord
        else
          let next := { ledger with records := ledger.records.set record }
          .persists next (.created record) { next with records := next.records.delete record.id }

def transition (id : String) (expectedStates : List LaunchState) (patch : LaunchPatch)
    (now : Timestamp) : LedgerOutcome :=
  match ledger.records.get? id with
  | none => .throws .recordNotFound
  | some current =>
    if current.state ∉ expectedStates then .returns (.record current)
    else
      let record := patch.apply current now
      if !validateLaunchRecord record then .throws .invalidTransition
      else
        let next := { ledger with records := ledger.records.set record }
        .persists next (.record record) { next with records := next.records.set current }

/-- Another record, a tombstone or a creation already holds the hash of a retirement key. -/
def retirementKeyClaimed (id keyHash : String) : Prop :=
  (∃ entry ∈ ledger.records.values, entry.id ≠ id ∧ entry.retirementKeyHash = some keyHash) ∨
    (∃ entry ∈ ledger.retirements.values, entry.keyHash = keyHash) ∨
    (∃ entry ∈ ledger.records.values, entry.keyHash = keyHash) ∨
    (∃ entry ∈ ledger.retirements.values, entry.creationKeyHash = keyHash)

instance (id keyHash : String) : Decidable (ledger.retirementKeyClaimed id keyHash) := by
  unfold retirementKeyClaimed; infer_instance

/-- The record `beginRetirement` stores. -/
def retiringRecord (current : LaunchRecord) (keyHash : String) (now : Timestamp) : LaunchRecord :=
  { current with
    state := .retiring
    retirementKeyHash := some keyHash
    updatedAt := laterTimestamp current.updatedAt now }

def beginRetirement (id keyHash : String) (now : Timestamp) : LedgerOutcome :=
  if !safeHash keyHash then .throws .invalidRetirementHash
  else
    match ledger.records.get? id with
    | none => .returns .undefined
    | some current =>
      if current.state = .retiring then .returns (.record current)
      else if current.state ≠ .owned then .throws .onlyOwnedRetirable
      else if maxRetirementCleanups ≤ ledger.retirementCleanups.size + ledger.retiringCount then
        .throws .retirementCleanupFull
      else if ledger.retirementKeyClaimed id keyHash then .throws .retirementKeyConflict
      else
        let record := retiringRecord current keyHash now
        if !validateLaunchRecord record then .throws .invalidRetirementTransition
        else
          let next := { ledger with records := ledger.records.set record }
          .persists next (.record record) { next with records := next.records.set current }

/-- The state after the retirement of `current` completes with tombstone `entry`. -/
def completed (current : LaunchRecord) (entry : Retirement) : Ledger :=
  { ledger with
    records := ledger.records.delete current.id
    retirements := (ledger.retirements.set entry).keepNewest maxRetirements
    retirementCleanups :=
      if entry.cleanupScope.isSome then ledger.retirementCleanups.set (retirementCleanup entry)
      else ledger.retirementCleanups.delete current.id }

def completeRetirement (id : String) (now : Timestamp) (cleanupScope : Option String) :
    LedgerOutcome :=
  match ledger.records.get? id with
  | none => .throws .retirementNotFenced
  | some current =>
    if current.state ≠ .retiring then .throws .retirementNotFenced
    else
      let entry := retirementEntry current now cleanupScope
      if !validRetirement entry then .throws .invalidTombstone
      else
        let next := ledger.completed current entry
        .persists next (.retirement entry)
          { ledger with records := next.records.set current }

def completeRetirementCleanup (id keyHash : String) : LedgerOutcome :=
  match ledger.retirementCleanups.get? id with
  | none => .returns (.flag false)
  | some current =>
    if current.keyHash ≠ keyHash then .throws .cleanupFenceMismatch
    else
      let cleanups := ledger.retirementCleanups.delete id
      match ledger.retirements.get? id with
      | none =>
        .persists { ledger with retirementCleanups := cleanups } (.flag true)
          { ledger with retirementCleanups := cleanups.set current }
      | some retirement =>
        let retirements :=
          if ledger.compactCleanupEncoding && cleanupMatchesRetirement current retirement then
            ledger.retirements.set { retirement with cleanupScope := none }
          else ledger.retirements
        .persists { ledger with retirementCleanups := cleanups, retirements := retirements }
          (.flag true)
          { ledger with
            retirementCleanups := cleanups.set current
            retirements := retirements.set retirement }

/-- The record `cancelRetirement` stores. -/
def restoredRecord (current : LaunchRecord) (now : Timestamp) : LaunchRecord :=
  { current with
    state := .owned
    retirementKeyHash := none
    updatedAt := laterTimestamp current.updatedAt now }

def cancelRetirement (id keyHash : String) (now : Timestamp) : LedgerOutcome :=
  match ledger.records.get? id with
  | none => .throws .retirementFenceMismatch
  | some current =>
    if current.state ≠ .retiring ∨ current.retirementKeyHash ≠ some keyHash then
      .throws .retirementFenceMismatch
    else
      let record := restoredRecord current now
      if !validateLaunchRecord record then .throws .invalidRollback
      else
        let next := { ledger with records := ledger.records.set record }
        .persists next (.record record) { next with records := next.records.set current }

end Ledger

/-- What an operation decides on a ledger. -/
def LedgerOp.apply : LedgerOp → Ledger → LedgerOutcome
  | .reserve id attemptId keyHash signature request now, ledger =>
    ledger.reserve id attemptId keyHash signature request now
  | .transition id expectedStates patch now, ledger => ledger.transition id expectedStates patch now
  | .beginRetirement id keyHash now, ledger => ledger.beginRetirement id keyHash now
  | .completeRetirement id now cleanupScope, ledger => ledger.completeRetirement id now cleanupScope
  | .completeRetirementCleanup id keyHash, ledger => ledger.completeRetirementCleanup id keyHash
  | .cancelRetirement id keyHash now, ledger => ledger.cancelRetirement id keyHash now

/-- The size checks of `#persist`: the document to write, or the error it throws. -/
def Ledger.persist (ledger : Ledger) : Except LedgerError LedgerDocument :=
  if maxLedgerBytes < (ledgerContent ledger).bytes then .error .contentTooLarge
  else if maxLedgerBytes < (ledgerContent (projectRetirementCompletions ledger)).bytes then
    .error .projectionTooLarge
  else .ok (ledgerContent ledger)

/-! ### Opening -/

/-- The document an absent file is created with. -/
def initialDocument : LedgerDocument := ⟨ledgerSchemaVersion, [], some [], some []⟩

/-- Every cleanup's attempt belongs to its own launch, in the order the cleanups are read. -/
def claimAttempts : List (String × String) → List RetirementCleanup → Bool
  | _, [] => true
  | owners, cleanup :: rest =>
    (owners.lookup cleanup.attemptId).all (fun owner => owner = cleanup.launchId) &&
      claimAttempts ((cleanup.attemptId, cleanup.launchId) :: owners) rest

/-- The schema and field checks of a parsed document. -/
def validDocument (parsed : LedgerDocument) : Bool :=
  let legacy := parsed.schemaVersion = launchSchemaVersion && parsed.retirements.isNone
  let compactV2 := parsed.schemaVersion = ledgerSchemaVersion && parsed.retirements.isNone &&
    parsed.retirementCleanups.isNone
  (legacy || compactV2 || parsed.schemaVersion = ledgerSchemaVersion) &&
    decide (parsed.records.length ≤ maxRecords) && parsed.records.all validateLaunchRecord &&
    (legacy || compactV2 || parsed.retirements.any fun retirements =>
      decide (retirements.length ≤ maxRetirements) && retirements.all validRetirement) &&
    parsed.retirementCleanups.all fun cleanups =>
      decide (cleanups.length ≤ maxRetirementCleanups) && cleanups.all validRetirementCleanup

/-- The tombstones of a document. -/
def LedgerDocument.retirementList (parsed : LedgerDocument) : List Retirement :=
  parsed.retirements.getD []

/-- The pending cleanups of a document: those it lists, or the ones its scoped tombstones
    imply. -/
def LedgerDocument.cleanupList (parsed : LedgerDocument) : List RetirementCleanup :=
  parsed.retirementCleanups.getD ((scopedRetirements parsed.retirementList).map retirementCleanup)

/-- The validation of a parsed document when the ledger is opened, and the state it yields. -/
def openDocument (parsed : LedgerDocument) : Except LedgerError Ledger :=
  let legacy := parsed.schemaVersion = launchSchemaVersion && parsed.retirements.isNone
  let retirements := parsed.retirementList
  let cleanups := parsed.cleanupList
  let attempts := parsed.records.map (fun record => (record.attemptId, record.id)) ++
    retirements.map (fun entry => (entry.attemptId, entry.launchId))
  if maxLedgerBytes < parsed.bytes then .error .unreadable
  else if !validDocument parsed then .error .unsupportedSchema
  else if ¬ (parsed.records.map LaunchRecord.id).Nodup ∨
      ¬ (parsed.records.flatMap LaunchRecord.keyHashes).Nodup then .error .duplicateRecords
  else if ¬ (retirements.map Retirement.launchId).Nodup ∨
      ∃ entry ∈ retirements, entry.launchId ∈ parsed.records.map LaunchRecord.id then
    .error .duplicateRetirements
  else if ¬ (parsed.records.flatMap LaunchRecord.keyHashes ++
      retirements.flatMap Retirement.keyHashes).Nodup then .error .duplicateKeys
  else if ¬ (cleanups.map RetirementCleanup.launchId).Nodup ∨
      ∃ cleanup ∈ cleanups, ∃ entry ∈ retirements, entry.launchId = cleanup.launchId ∧
        cleanupMatchesRetirement cleanup entry = false then .error .duplicateCleanups
  else if ¬ (attempts.map Prod.fst).Nodup then .error .duplicateAttempts
  else if (∃ cleanup ∈ cleanups, cleanup.launchId ∈ parsed.records.map LaunchRecord.id) ∨
      claimAttempts attempts cleanups = false then .error .duplicateCleanupIdentities
  else if maxRetirementCleanups < cleanups.length +
      parsed.records.countP (fun record => record.state = .retiring) then
    .error .cleanupCapacityExceeded
  else .ok
    { records := .ofValues LaunchRecord.id parsed.records
      retirements := .ofValues Retirement.launchId retirements
      retirementCleanups := .ofValues RetirementCleanup.launchId cleanups
      compactCleanupEncoding := !legacy && parsed.retirementCleanups.isNone }

/-- The content of the file after an accepted document was opened: a document of the first
    schema is migrated in place. -/
def migrateDocument (parsed : LedgerDocument) : LedgerDocument :=
  if parsed.schemaVersion = launchSchemaVersion ∧ parsed.retirements = none then
    { parsed with schemaVersion := ledgerSchemaVersion }
  else parsed

end AgentHost
