import AgentHost.Core.LaunchContracts
import AgentHost.Lib.InsertionMap
import AgentHost.Lib.TransitionSystem

namespace AgentHost

/-!
# The provenance store of the Cursor adapter

`CursorSdkProvenanceStore` of `cursor-sdk.js`: the records of the agents that the adapter has
created, one file of JSON, and the operations that rewrite them.

* `validateRecord` — the check of a record, made before every write and after every read.
* `loadProvenance` — what `#load` reads, or the error it throws.
* `ProvenanceOp.apply` — what an operation decides: an error, a reply, or records to write.
* `ProvenanceStore.perform` — an operation between `#load` and `#save`, where the private state may
  fail before or after it has replaced the file.

`Date.parse` is a parameter: which texts other than those of `toISOString` it reads is up to the
engine.  `PrivateState` is the size limit of `anchored-private-state.js`.
-/

def maxStateBytes : Nat := 1000000
def maxProvenanceRecords : Nat := 1000
def stateSchemaVersion : Nat := 1

/-! ### Records -/

/-- `record.state`. -/
inductive ProvenanceState
  | intent
  | owned
  | retiring
  | retired
  deriving DecidableEq

def ProvenanceState.text : ProvenanceState → String
  | .intent => "intent"
  | .owned => "owned"
  | .retiring => "retiring"
  | .retired => "retired"

/-- A record: an object whose members may be missing.  `otherKeys` are the names of the members that
    `RECORD_KEYS` does not list. -/
structure ProvenanceRecord where
  attemptId : Option String := none
  launchId : Option String := none
  providerAgentId : Option String := none
  agentId : Option String := none
  target : Option String := none
  profile : Option String := none
  sdkVersion : Option String := none
  bridgeNamespace : Option String := none
  storeScope : Option String := none
  targetDigest : Option String := none
  runId : Option String := none
  runPending : Option Bool := none
  cancelAttemptedRunId : Option String := none
  retirementKeyHash : Option String := none
  retirementReserved : Option Bool := none
  deleteAttempted : Option Bool := none
  state : ProvenanceState := .intent
  createdAt : Option String := none
  updatedAt : Option String := none
  otherKeys : List String := []
  deriving DecidableEq

/-- The members that are not there are left out. -/
def ProvenanceRecord.toJson (record : ProvenanceRecord) : Json :=
  .obj (optionalMember "attemptId" .str record.attemptId ++
    optionalMember "launchId" .str record.launchId ++
    optionalMember "providerAgentId" .str record.providerAgentId ++
    optionalMember "agentId" .str record.agentId ++
    optionalMember "target" .str record.target ++
    optionalMember "profile" .str record.profile ++
    optionalMember "sdkVersion" .str record.sdkVersion ++
    optionalMember "bridgeNamespace" .str record.bridgeNamespace ++
    optionalMember "storeScope" .str record.storeScope ++
    optionalMember "targetDigest" .str record.targetDigest ++
    optionalMember "runId" .str record.runId ++
    optionalMember "runPending" .bool record.runPending ++
    optionalMember "cancelAttemptedRunId" .str record.cancelAttemptedRunId ++
    optionalMember "retirementKeyHash" .str record.retirementKeyHash ++
    optionalMember "retirementReserved" .bool record.retirementReserved ++
    optionalMember "deleteAttempted" .bool record.deleteAttempted ++
    [("state", .str record.state.text)] ++
    optionalMember "createdAt" .str record.createdAt ++
    optionalMember "updatedAt" .str record.updatedAt)

/-! ### Validation -/

/-- `SAFE_RUN_ID`. -/
def safeRunId (s : String) : Bool := matchesClass idChar 1 200 s

/-- `Date.parse`: the time value of a text, where the engine reads one. -/
abbrev DateParse := String → Option Timestamp

variable (parse : DateParse)

/-- `Date.parse(left) < Date.parse(right)`. -/
def parsesBefore (left right : String) : Bool :=
  match parse left, parse right with
  | some l, some r => decide (l < r)
  | _, _ => false

def validTimestamp (value : Option String) : Bool := value.any fun text => (parse text).isSome

/-- The identities of a record. -/
def validIdentities (record : ProvenanceRecord) : Bool :=
  safeAttemptId (record.attemptId.getD "") && safeLaunchId (record.launchId.getD "") &&
    safeId (record.providerAgentId.getD "") && safeId (record.agentId.getD "") &&
    safeId (record.target.getD "") && safeId (record.profile.getD "") &&
    safeId (record.sdkVersion.getD "") && safeId (record.bridgeNamespace.getD "") &&
    safeCleanupScope (record.storeScope.getD "") && safeHash (record.targetDigest.getD "")

/-- The run of a record: the fence of a cancellation names the run that is recorded. -/
def validRun (record : ProvenanceRecord) : Bool :=
  record.runId.all safeRunId && record.runPending.all (fun pending => pending) &&
    record.cancelAttemptedRunId.all (fun runId => safeRunId runId && record.runId == some runId)

/-- The retirement of a record: which of its members belong to which state. -/
def validRetirementFence (record : ProvenanceRecord) : Bool :=
  record.retirementKeyHash.all safeHash && record.retirementReserved.all (fun reserved => reserved) &&
    !(record.deleteAttempted == some true && record.state != .retiring) &&
    !(record.retirementReserved == some true && (record.state != .owned ||
      record.retirementKeyHash.isNone || record.deleteAttempted != some false)) &&
    !(record.deleteAttempted == some false && record.state != .retiring &&
      record.retirementReserved != some true) &&
    ((record.state == .retiring || record.state == .retired ||
      record.retirementReserved == some true) == record.retirementKeyHash.isSome) &&
    !(record.state == .retired && record.deleteAttempted.isSome)

/-- An intent has neither a run nor a retirement. -/
def validIntent (record : ProvenanceRecord) : Bool :=
  !(record.state == .intent && (record.runId.isSome || record.runPending.isSome ||
    record.cancelAttemptedRunId.isSome || record.retirementKeyHash.isSome ||
    record.retirementReserved.isSome || record.deleteAttempted.isSome))

def validTimes (record : ProvenanceRecord) : Bool :=
  validTimestamp parse record.createdAt && validTimestamp parse record.updatedAt &&
    !parsesBefore parse (record.updatedAt.getD "") (record.createdAt.getD "")

def validateRecord (record : ProvenanceRecord) : Bool :=
  record.otherKeys.isEmpty && validIdentities record && validRun record &&
    validRetirementFence record && validIntent record && validTimes parse record

/-! ### Errors and replies -/

/-- The errors of the store. -/
inductive ProvenanceError
  | invalidRecord
  | invalidState
  | attemptConflict
  | full
  | intentMissing
  | ownedMissing
  | invalidRun
  | invalidCancel
  | notCancellable
  | cancelChanged
  | invalidRetirementKey
  | reservationChanged
  | capacity
  | retirementMissing
  | retirementMismatch
  | invalidTime
  | tooLarge
  deriving DecidableEq

/-- The text of an error. -/
def ProvenanceError.message : ProvenanceError → String
  | .invalidRecord => "invalid Cursor SDK provenance record"
  | .invalidState => "invalid Cursor SDK provenance state"
  | .attemptConflict => "Cursor SDK attempt provenance conflicts with existing state"
  | .full => "Cursor SDK provenance state is full"
  | .intentMissing => "Cursor SDK provenance intent is missing"
  | .ownedMissing => "Cursor SDK owned provenance is missing"
  | .invalidRun => "invalid Cursor SDK run provenance"
  | .invalidCancel => "invalid Cursor SDK cancel provenance"
  | .notCancellable => "Cursor SDK exact run is not cancellable"
  | .cancelChanged => "Cursor SDK cancel provenance changed"
  | .invalidRetirementKey => "invalid Cursor SDK retirement key"
  | .reservationChanged => "Cursor SDK retirement reservation changed"
  | .capacity => "Cursor SDK provenance cannot reserve retirement capacity"
  | .retirementMissing => "Cursor SDK retirement provenance is missing"
  | .retirementMismatch => "Cursor SDK retirement provenance does not match"
  | .invalidTime => "Invalid time value"
  | .tooLarge => "private state exceeds its size limit"

/-- The code an error carries, where it has one. -/
def ProvenanceError.code? : ProvenanceError → Option String
  | .capacity => some "cursor_provenance_capacity"
  | _ => none

/-- What an operation returns. -/
inductive ProvenanceReply
  | reserved (record : ProvenanceRecord) (created : Bool)
  | record (record : ProvenanceRecord)
  | found (record : Option ProvenanceRecord)
  | records (records : List ProvenanceRecord)
  | flag (value : Bool)
  deriving DecidableEq

/-! ### The file -/

/-- What the file holds. -/
structure ProvenanceFile where
  schemaVersion : Nat
  records : List ProvenanceRecord
  deriving DecidableEq

def ProvenanceFile.toJson (file : ProvenanceFile) : Json :=
  .obj [("schemaVersion", .num file.schemaVersion),
    ("records", .arr (file.records.map ProvenanceRecord.toJson))]

/-- The bytes of the file: its text and a line feed. -/
def ProvenanceFile.bytes (file : ProvenanceFile) : Nat := file.toJson.bytes + 1

/-- The records of a loaded file, by the attempt they belong to. -/
abbrev ProvenanceRecords := InsertionMap ProvenanceRecord.attemptId

/-- The private state that the store is given: no file longer than `maxBytes` is read or written. -/
structure PrivateState where
  maxBytes : Nat
  atLeastOne : 1 ≤ maxBytes
  atMostDefault : maxBytes ≤ 1000000

/-- `#load`: the limit is the smaller of the two, and the records are valid and pairwise different in
    each of their identities. -/
def loadProvenance (privateState : PrivateState) :
    Option ProvenanceFile → Except ProvenanceError ProvenanceRecords
  | none => .ok .empty
  | some file =>
    if min maxStateBytes privateState.maxBytes < file.bytes then .error .tooLarge
    else if file.schemaVersion ≠ stateSchemaVersion ∨ maxProvenanceRecords < file.records.length then
      .error .invalidState
    else if file.records.any (fun record => !validateRecord parse record) then .error .invalidRecord
    else if ¬(file.records.map ProvenanceRecord.attemptId).Nodup ∨
        ¬(file.records.map ProvenanceRecord.agentId).Nodup ∨
        ¬(file.records.map ProvenanceRecord.providerAgentId).Nodup then .error .invalidState
    else .ok (.ofValues ProvenanceRecord.attemptId file.records)

/-! ### Operations -/

/-- What an operation decides once the records are loaded. -/
inductive ProvenanceOutcome
  | throws (error : ProvenanceError)
  | returns (reply : ProvenanceReply)
  | persists (records : ProvenanceRecords) (reply : ProvenanceReply)

/-- `timestamp(now)`: `toISOString` throws outside the range of time values. -/
def timestamp (now : Timestamp) : Except ProvenanceError String :=
  if now.natAbs ≤ 8640000000000000 then .ok (IsoTime.toISOString now) else .error .invalidTime

/-- `monotonicTimestamp`: no record is updated before it was. -/
def monotonicTimestamp (previous : Option String) (now : Timestamp) :
    Except ProvenanceError (Option String) := do
  let current ← timestamp now
  .ok (if parsesBefore parse current (previous.getD "") then previous else some current)

/-- The record with a new time stamp. -/
def ProvenanceRecord.stamped (record : ProvenanceRecord) (updatedAt : Option String) :
    ProvenanceRecord := { record with updatedAt := updatedAt }

/-- `sameIntent`. -/
def sameIntent (left right : ProvenanceRecord) : Bool :=
  left.attemptId == right.attemptId && left.launchId == right.launchId &&
    left.providerAgentId == right.providerAgentId && left.agentId == right.agentId &&
    left.target == right.target && left.profile == right.profile &&
    left.sdkVersion == right.sdkVersion && left.bridgeNamespace == right.bridgeNamespace &&
    left.storeScope == right.storeScope && left.targetDigest == right.targetDigest

/-- The record that `reserve` makes of its input. -/
def intentOf (input : ProvenanceRecord) : ProvenanceRecord :=
  { input with state := .intent, updatedAt := input.createdAt }

namespace ProvenanceRecords

variable (records : ProvenanceRecords) (now : Timestamp)

/-- A record is rewritten: `validateRecord` of the update, with its new time stamp. -/
def rewrite (current : ProvenanceRecord)
    (update : ProvenanceRecord → Except ProvenanceError ProvenanceRecord) : ProvenanceOutcome :=
  match monotonicTimestamp parse current.updatedAt now, update current with
  | .error error, _ => .throws error
  | .ok _, .error error => .throws error
  | .ok updatedAt, .ok updated =>
    let next := updated.stamped updatedAt
    if validateRecord parse next then .persists (records.set next) (.record next)
    else .throws .invalidRecord

def reserve (input : ProvenanceRecord) : ProvenanceOutcome :=
  if validateRecord parse (intentOf input) then
    match records.get? input.attemptId with
    | some existing =>
      if sameIntent existing (intentOf input) then .returns (.reserved existing false)
      else .throws .attemptConflict
    | none =>
      if maxProvenanceRecords ≤ records.size then .throws .full
      else .persists (records.set (intentOf input)) (.reserved (intentOf input) true)
  else .throws .invalidRecord

def markOwned (attemptId : Option String) : ProvenanceOutcome :=
  match records.get? attemptId with
  | none => .throws .intentMissing
  | some current => rewrite parse records now current fun record => .ok { record with state := .owned }

/-- `#updateOwned`: only an owned record is updated. -/
def updateOwned (attemptId : Option String)
    (update : ProvenanceRecord → Except ProvenanceError ProvenanceRecord) : ProvenanceOutcome :=
  match records.get? attemptId with
  | none => .throws .ownedMissing
  | some current =>
    if current.state = .owned then rewrite parse records now current update
    else .throws .ownedMissing

def beginRun (attemptId : Option String) : ProvenanceOutcome :=
  updateOwned parse records now attemptId fun record => .ok { record with runPending := some true }

def commitRun (attemptId runId : Option String) : ProvenanceOutcome :=
  if safeRunId (runId.getD "") then
    updateOwned parse records now attemptId fun record =>
      .ok { record with runId := runId, runPending := none, cancelAttemptedRunId := none }
  else .throws .invalidRun

def restoreRun (attemptId : Option String) : ProvenanceOutcome :=
  updateOwned parse records now attemptId fun record => .ok { record with runPending := none }

def beginCancel (attemptId runId : Option String) : ProvenanceOutcome :=
  if safeRunId (runId.getD "") then
    updateOwned parse records now attemptId fun record =>
      if record.runPending = some true ∨ record.runId ≠ runId ∨ record.cancelAttemptedRunId.isSome then
        .error .notCancellable
      else .ok { record with cancelAttemptedRunId := runId }
  else .throws .invalidCancel

def restoreCancel (attemptId runId : Option String) : ProvenanceOutcome :=
  updateOwned parse records now attemptId fun record =>
    if record.runId ≠ runId ∨ record.cancelAttemptedRunId ≠ runId then .error .cancelChanged
    else .ok { record with cancelAttemptedRunId := none }

def beginRetirement (attemptId keyHash : Option String) : ProvenanceOutcome :=
  if safeHash (keyHash.getD "") then
    updateOwned parse records now attemptId fun record =>
      if record.retirementKeyHash.isSome ∧ record.retirementKeyHash ≠ keyHash then
        .error .reservationChanged
      else .ok { record with
        state := .retiring, retirementKeyHash := keyHash, retirementReserved := none }
  else .throws .invalidRetirementKey

/-- `reserveRetirement` alone checks that what it writes can be read again. -/
def reserveRetirement (attemptId keyHash : Option String) : ProvenanceOutcome :=
  if safeHash (keyHash.getD "") then
    let outcome := updateOwned parse records now attemptId fun record =>
      if record.retirementKeyHash.isSome ∧ record.retirementKeyHash ≠ keyHash then
        .error .reservationChanged
      else .ok { record with
        retirementKeyHash := keyHash, retirementReserved := some true, deleteAttempted := some false }
    match outcome with
    | .persists next reply =>
      if maxStateBytes < (ProvenanceFile.mk stateSchemaVersion next.values).bytes then
        .throws .capacity
      else .persists next reply
    | other => other
  else .throws .invalidRetirementKey

def releaseRetirementReservation (attemptId keyHash : Option String) : ProvenanceOutcome :=
  updateOwned parse records now attemptId fun record =>
    if record.retirementKeyHash ≠ keyHash ∨ record.retirementReserved ≠ some true ∨
        record.deleteAttempted ≠ some false then .error .reservationChanged
    else .ok { record with
      retirementKeyHash := none, retirementReserved := none, deleteAttempted := none }

/-- `#updateRetirement`: only a retiring record with this key is updated. -/
def updateRetirement (attemptId keyHash : Option String)
    (update : ProvenanceRecord → ProvenanceRecord) : ProvenanceOutcome :=
  match records.get? attemptId with
  | none => .throws .retirementMissing
  | some current =>
    if current.state = .retiring ∧ current.retirementKeyHash = keyHash then
      rewrite parse records now current fun record => .ok (update record)
    else .throws .retirementMissing

def markRetired (attemptId keyHash : Option String) : ProvenanceOutcome :=
  updateRetirement parse records now attemptId keyHash fun record =>
    { record with state := .retired, deleteAttempted := none }

def markDeleteAttempted (attemptId keyHash : Option String) : ProvenanceOutcome :=
  updateRetirement parse records now attemptId keyHash fun record =>
    { record with deleteAttempted := some true }

def cancelRetirement (attemptId keyHash : Option String) : ProvenanceOutcome :=
  match records.get? attemptId with
  | none => .throws .retirementMissing
  | some current =>
    if (current.state = .owned ∨ current.state = .retiring) ∧ current.retirementKeyHash = keyHash then
      rewrite parse records now current fun record => .ok { record with
        state := .owned, retirementKeyHash := none, retirementReserved := none,
        deleteAttempted := none }
    else .throws .retirementMissing

def removeRetired (attemptId keyHash : Option String) : ProvenanceOutcome :=
  match records.get? attemptId with
  | none => .returns (.flag false)
  | some record =>
    if record.state = .retired ∧ record.retirementKeyHash = keyHash then
      .persists (records.delete attemptId) (.flag true)
    else .throws .retirementMismatch

end ProvenanceRecords

/-- The operations of the store, with the values they are called with; an argument may be missing. -/
inductive ProvenanceOp
  | reserve (input : ProvenanceRecord)
  | markOwned (attemptId : Option String)
  | beginRun (attemptId : Option String)
  | commitRun (attemptId runId : Option String)
  | restoreRun (attemptId : Option String)
  | beginCancel (attemptId runId : Option String)
  | restoreCancel (attemptId runId : Option String)
  | reserveRetirement (attemptId keyHash : Option String)
  | releaseRetirementReservation (attemptId keyHash : Option String)
  | beginRetirement (attemptId keyHash : Option String)
  | markDeleteAttempted (attemptId keyHash : Option String)
  | markRetired (attemptId keyHash : Option String)
  | cancelRetirement (attemptId keyHash : Option String)
  | removeRetired (attemptId keyHash : Option String)
  | get (attemptId : Option String)
  | snapshot
  deriving DecidableEq

def ProvenanceOp.apply (records : ProvenanceRecords) (now : Timestamp) :
    ProvenanceOp → ProvenanceOutcome
  | .reserve input => records.reserve parse input
  | .markOwned attemptId => records.markOwned parse now attemptId
  | .beginRun attemptId => records.beginRun parse now attemptId
  | .commitRun attemptId runId => records.commitRun parse now attemptId runId
  | .restoreRun attemptId => records.restoreRun parse now attemptId
  | .beginCancel attemptId runId => records.beginCancel parse now attemptId runId
  | .restoreCancel attemptId runId => records.restoreCancel parse now attemptId runId
  | .reserveRetirement attemptId keyHash =>
    records.reserveRetirement parse now attemptId keyHash
  | .releaseRetirementReservation attemptId keyHash =>
    records.releaseRetirementReservation parse now attemptId keyHash
  | .beginRetirement attemptId keyHash =>
    records.beginRetirement parse now attemptId keyHash
  | .markDeleteAttempted attemptId keyHash =>
    records.markDeleteAttempted parse now attemptId keyHash
  | .markRetired attemptId keyHash => records.markRetired parse now attemptId keyHash
  | .cancelRetirement attemptId keyHash =>
    records.cancelRetirement parse now attemptId keyHash
  | .removeRetired attemptId keyHash => records.removeRetired attemptId keyHash
  | .get attemptId => .returns (.found (records.get? attemptId))
  | .snapshot => .returns (.records records.values)

/-! ### The store -/

/-- What the private state does during an operation: it works; it is lost before the file is
    replaced, or after; the operation throws in both of these cases. -/
inductive StoreFault
  | none
  | unwritten
  | unconfirmed
  deriving DecidableEq

/-- How an operation ends: with its reply, with an error of a check, or with one of the private
    state. -/
inductive ProvenanceResult
  | replied (reply : ProvenanceReply)
  | refused (error : ProvenanceError)
  | failed
  deriving DecidableEq

/-- The store: its file, where there is one, and every file that has been written. -/
structure ProvenanceStore where
  privateState : PrivateState
  file : Option ProvenanceFile := none
  written : List ProvenanceFile := []

/-- `writeFileAtomic` replaces the file. -/
def ProvenanceStore.replace (store : ProvenanceStore) (file : ProvenanceFile) : ProvenanceStore :=
  { store with file := some file, written := store.written ++ [file] }

/-- `#save`, with what the operation then ends with. -/
def ProvenanceStore.save (store : ProvenanceStore) (records : ProvenanceRecords)
    (reply : ProvenanceReply) (fault : StoreFault) : ProvenanceStore × ProvenanceResult :=
  let file := ⟨stateSchemaVersion, records.values⟩
  if store.privateState.maxBytes < file.bytes then (store, .refused .tooLarge)
  else match fault with
    | .none => (store.replace file, .replied reply)
    | .unwritten => (store, .failed)
    | .unconfirmed => (store.replace file, .failed)

/-- An operation: `#exclusive` runs one at a time. -/
def ProvenanceStore.perform (store : ProvenanceStore) (op : ProvenanceOp) (now : Timestamp)
    (fault : StoreFault) : ProvenanceStore × ProvenanceResult :=
  match loadProvenance parse store.privateState store.file with
  | .error error => (store, .refused error)
  | .ok records =>
    match ProvenanceOp.apply parse records now op with
    | .throws error => (store, .refused error)
    | .returns reply => (store, if fault = .unwritten then .failed else .replied reply)
    | .persists next reply => store.save next reply fault

/-- The runs of the store from no file; a restart keeps the file. -/
def provenanceStore : TransitionSystem ProvenanceStore (ProvenanceOp × Timestamp × StoreFault) where
  init := fun store => store.file = none ∧ store.written = []
  step := fun store e => some (store.perform parse e.1 e.2.1 e.2.2).1

end AgentHost
