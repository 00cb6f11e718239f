import Mathlib
import AgentHost.Core.LedgerRuns
import AgentHost.Core.LedgerSize

namespace AgentHost

/-!
# The launch ledger and the clock

What the clock readings of the operations have to do with their acceptance.  Every time
stamp is replaced by one fixed reading (`untimed`); an operation that keeps the stamps of its
record in order does to the untimed ledger, at that reading, what it does to the ledger.

* `Ledger.apply_untimed` — an operation under any reading against the operation under the
  fixed one.  Only `transition` needs a condition: its reading must not be before the record.
* `persist_untimed` — the size checks see the number of time texts only, in the years whose
  text has four digits.
-/

/-! ### Forgetting the time stamps -/

def LaunchRecord.untimed (record : LaunchRecord) : LaunchRecord :=
  { record with requestedAt := 0, updatedAt := 0 }

def Retirement.untimed (entry : Retirement) : Retirement :=
  { entry with requestedAt := 0, retiredAt := 0 }

@[simp] theorem LaunchRecord.untimed_id (record : LaunchRecord) : record.untimed.id = record.id :=
  rfl

@[simp] theorem Retirement.untimed_launchId (entry : Retirement) :
    entry.untimed.launchId = entry.launchId := rfl

def Ledger.untimed (ledger : Ledger) : Ledger :=
  { ledger with
    records := ledger.records.mapValues LaunchRecord.untimed LaunchRecord.untimed_id
    retirements := ledger.retirements.mapValues Retirement.untimed Retirement.untimed_launchId }

def LedgerReply.untimed : LedgerReply → LedgerReply
  | .undefined => .undefined
  | .record current => .record current.untimed
  | .retirement entry => .retirement entry.untimed
  | .flag value => .flag value
  | .created current => .created current.untimed
  | .existing current => .existing current.untimed
  | .retired entry => .retired entry.untimed
  | .conflict => .conflict
  | .full => .full

def LedgerOutcome.untimed : LedgerOutcome → LedgerOutcome
  | .throws error => .throws error
  | .returns reply => .returns reply.untimed
  | .persists next reply rollback => .persists next.untimed reply.untimed rollback.untimed

def LedgerDocument.untimed (document : LedgerDocument) : LedgerDocument :=
  { document with
    records := document.records.map LaunchRecord.untimed
    retirements := document.retirements.map (List.map Retirement.untimed) }

/-- An operation at another reading of the clock. -/
def LedgerOp.withClock (now : Timestamp) : LedgerOp → LedgerOp
  | .reserve id attemptId keyHash signature request _ =>
    .reserve id attemptId keyHash signature request now
  | .transition id expectedStates patch _ => .transition id expectedStates patch now
  | .beginRetirement id keyHash _ => .beginRetirement id keyHash now
  | .completeRetirement id _ cleanupScope => .completeRetirement id now cleanupScope
  | .completeRetirementCleanup id keyHash => .completeRetirementCleanup id keyHash
  | .cancelRetirement id keyHash _ => .cancelRetirement id keyHash now

/-- The stamps of every record are in order. -/
def Ledger.StampsOrdered (ledger : Ledger) : Prop :=
  ∀ record ∈ ledger.records.values, record.requestedAt ≤ record.updatedAt

/-- The reading of an operation is not before the record it moves by `transition`. -/
def LedgerOp.Forward (ledger : Ledger) : LedgerOp → Prop
  | .transition id expectedStates _ now =>
    ∀ current ∈ ledger.records.get? id, current.state ∈ expectedStates → current.updatedAt ≤ now
  | _ => True

instance (op : LedgerOp) (ledger : Ledger) : Decidable (op.Forward ledger) :=
  match op with
  | .transition id expectedStates _ now => inferInstanceAs (Decidable
      (∀ current ∈ ledger.records.get? id,
        current.state ∈ expectedStates → current.updatedAt ≤ now))
  | .reserve .. | .beginRetirement .. | .completeRetirement .. | .completeRetirementCleanup ..
  | .cancelRetirement .. => inferInstanceAs (Decidable True)

theorem validateLaunchRecord_untimed {r : LaunchRecord} (h : r.requestedAt ≤ r.updatedAt) :
    validateLaunchRecord r.untimed = validateLaunchRecord r := by
  have hzero : ¬ (0 : Timestamp) < 0 := lt_irrefl 0
  simp only [validateLaunchRecord, LaunchRecord.untimed, not_lt.mpr h, hzero]
  rfl

namespace Ledger

variable {ledger : Ledger}

@[simp] theorem untimed_records (ledger : Ledger) : ledger.untimed.records =
    ledger.records.mapValues LaunchRecord.untimed LaunchRecord.untimed_id := rfl

@[simp] theorem untimed_retirements (ledger : Ledger) : ledger.untimed.retirements =
    ledger.retirements.mapValues Retirement.untimed Retirement.untimed_launchId := rfl

@[simp] theorem untimed_retirementCleanups (ledger : Ledger) :
    ledger.untimed.retirementCleanups = ledger.retirementCleanups := rfl

@[simp] theorem untimed_compactCleanupEncoding (ledger : Ledger) :
    ledger.untimed.compactCleanupEncoding = ledger.compactCleanupEncoding := rfl

theorem untimed_setRecord (ledger : Ledger) (record : LaunchRecord) :
    { ledger with records := ledger.records.set record }.untimed =
      { ledger.untimed with records := ledger.untimed.records.set record.untimed } := by
  simp [untimed]

theorem reserve_untimed (id attemptId keyHash signature : String) (request : LaunchRequest)
    (now : Timestamp) :
    ledger.untimed.reserve id attemptId keyHash signature request 0 =
      (ledger.reserve id attemptId keyHash signature request now).untimed := by
  have hvalid : validateLaunchRecord (requestedRecord id attemptId keyHash signature request 0) =
      validateLaunchRecord (requestedRecord id attemptId keyHash signature request now) :=
    validateLaunchRecord_untimed (r := requestedRecord id attemptId keyHash signature request now)
      le_rfl
  have hkey : ledger.untimed.findByKeyHash keyHash =
      (ledger.findByKeyHash keyHash).map LaunchRecord.untimed := by
    simp only [findByKeyHash, untimed_records, InsertionMap.values_mapValues, List.find?_map]
    rfl
  have hcreation : ledger.untimed.findRetirementByCreationKeyHash keyHash =
      (ledger.findRetirementByCreationKeyHash keyHash).map Retirement.untimed := by
    simp only [findRetirementByCreationKeyHash, untimed_retirements,
      InsertionMap.values_mapValues, List.find?_map]
    rfl
  have hretiring : (ledger.untimed.findByRetirementKeyHash keyHash).isSome =
      (ledger.findByRetirementKeyHash keyHash).isSome := by
    simp only [findByRetirementKeyHash, untimed_records, InsertionMap.values_mapValues,
      List.find?_map, Option.isSome_map]
    rfl
  have hretired : (ledger.untimed.findRetirementByKeyHash keyHash).isSome =
      (ledger.findRetirementByKeyHash keyHash).isSome := by
    simp only [findRetirementByKeyHash, untimed_retirements, InsertionMap.values_mapValues,
      List.find?_map, Option.isSome_map]
    rfl
  have hpending : ledger.untimed.records.values.countP LaunchRecord.pending =
      ledger.records.values.countP LaunchRecord.pending := by
    simp only [untimed_records, InsertionMap.values_mapValues, List.countP_map]
    rfl
  unfold reserve
  dsimp only
  rw [hkey, hcreation, hretiring, hretired, hpending, hvalid]
  cases ledger.findByKeyHash keyHash with
  | some existing => rfl
  | none =>
    cases ledger.findRetirementByCreationKeyHash keyHash with
    | some retired => rfl
    | none =>
      simp only [Option.map_none, untimed_records, InsertionMap.size_mapValues]
      split
      · rfl
      split
      · rfl
      split
      · rfl
      split
      · rfl
      simp only [LedgerOutcome.untimed, LedgerReply.untimed, untimed, InsertionMap.mapValues_set,
        InsertionMap.mapValues_delete]
      rfl

/-- The last step of the operations that store a record again. -/
theorem store_untimed {current record : LaunchRecord} (error : LedgerError)
    (h : record.requestedAt ≤ record.updatedAt) :
    (if !validateLaunchRecord record.untimed then .throws error
      else .persists { ledger.untimed with records := ledger.untimed.records.set record.untimed }
        (.record record.untimed)
        { ledger.untimed with
          records := (ledger.untimed.records.set record.untimed).set current.untimed } :
        LedgerOutcome) =
    (if !validateLaunchRecord record then .throws error
      else .persists { ledger with records := ledger.records.set record } (.record record)
        { ledger with records := (ledger.records.set record).set current } :
        LedgerOutcome).untimed := by
  rw [validateLaunchRecord_untimed h]
  split
  · rfl
  · simp only [LedgerOutcome.untimed, LedgerReply.untimed, untimed, InsertionMap.mapValues_set]

theorem transition_untimed (hordered : ledger.StampsOrdered) {id : String}
    {expectedStates : List LaunchState} {patch : LaunchPatch} {now : Timestamp}
    (hforward : (LedgerOp.transition id expectedStates patch now).Forward ledger) :
    ledger.untimed.transition id expectedStates patch 0 =
      (ledger.transition id expectedStates patch now).untimed := by
  unfold transition
  rw [untimed_records, InsertionMap.get?_mapValues]
  cases hget : ledger.records.get? id with
  | none => rfl
  | some current =>
    have hstate : current.untimed.state = current.state := rfl
    simp only [Option.map_some, hstate]
    by_cases hexpected : current.state ∈ expectedStates
    · have hrecord : (patch.apply current now).requestedAt ≤ (patch.apply current now).updatedAt :=
        (hordered current (InsertionMap.mem_of_get? hget)).trans (hforward current hget hexpected)
      rw [if_neg (not_not.mpr hexpected), if_neg (not_not.mpr hexpected)]
      exact store_untimed .invalidTransition hrecord
    · rw [if_pos hexpected, if_pos hexpected]
      rfl

theorem beginRetirement_untimed (hordered : ledger.StampsOrdered) (id keyHash : String)
    (now : Timestamp) :
    ledger.untimed.beginRetirement id keyHash 0 =
      (ledger.beginRetirement id keyHash now).untimed := by
  have hclaimed : ledger.untimed.retirementKeyClaimed id keyHash ↔
      ledger.retirementKeyClaimed id keyHash := by
    simp only [retirementKeyClaimed, untimed_records, untimed_retirements,
      InsertionMap.values_mapValues, List.mem_map, exists_exists_and_eq_and]
    rfl
  have hretiring : ledger.untimed.retiringCount = ledger.retiringCount := by
    simp only [retiringCount, untimed_records, InsertionMap.values_mapValues, List.countP_map]
    rfl
  unfold beginRetirement
  rw [untimed_records, InsertionMap.get?_mapValues, untimed_retirementCleanups, hretiring]
  simp only [hclaimed]
  split
  · rfl
  cases hget : ledger.records.get? id with
  | none => rfl
  | some current =>
    have hstate : current.untimed.state = current.state := rfl
    simp only [Option.map_some, hstate]
    split
    · rfl
    split
    · rfl
    split
    · rfl
    split
    · rfl
    have hrecord : (retiringRecord current keyHash now).requestedAt ≤
        (retiringRecord current keyHash now).updatedAt :=
      (hordered current (InsertionMap.mem_of_get? hget)).trans (le_laterTimestamp _ _)
    exact store_untimed .invalidRetirementTransition hrecord

theorem cancelRetirement_untimed (hordered : ledger.StampsOrdered) (id keyHash : String)
    (now : Timestamp) :
    ledger.untimed.cancelRetirement id keyHash 0 =
      (ledger.cancelRetirement id keyHash now).untimed := by
  unfold cancelRetirement
  rw [untimed_records, InsertionMap.get?_mapValues]
  cases hget : ledger.records.get? id with
  | none => rfl
  | some current =>
    have hstate : current.untimed.state = current.state := rfl
    have hkey : current.untimed.retirementKeyHash = current.retirementKeyHash := rfl
    simp only [Option.map_some, hstate, hkey]
    split
    · rfl
    have hrecord : (restoredRecord current now).requestedAt ≤
        (restoredRecord current now).updatedAt :=
      (hordered current (InsertionMap.mem_of_get? hget)).trans (le_laterTimestamp _ _)
    exact store_untimed .invalidRollback hrecord

theorem completeRetirement_untimed (id : String) (now : Timestamp) (scope : Option String) :
    ledger.untimed.completeRetirement id 0 scope =
      (ledger.completeRetirement id now scope).untimed := by
  unfold completeRetirement
  rw [untimed_records, InsertionMap.get?_mapValues]
  cases hget : ledger.records.get? id with
  | none => rfl
  | some current =>
    have hstate : current.untimed.state = current.state := rfl
    have hself : retirementEntry current.untimed 0 scope =
        (retirementEntry current now scope).untimed := rfl
    have hvalid : validRetirement (retirementEntry current now scope).untimed =
        validRetirement (retirementEntry current now scope) := rfl
    simp only [Option.map_some, hstate, hself, hvalid]
    split
    · rfl
    split
    · rfl
    simp only [LedgerOutcome.untimed, LedgerReply.untimed, untimed, completed,
      InsertionMap.mapValues_set, InsertionMap.mapValues_delete,
      InsertionMap.mapValues_keepNewest]
    rfl

theorem completeRetirementCleanup_untimed (id keyHash : String) :
    ledger.untimed.completeRetirementCleanup id keyHash =
      (ledger.completeRetirementCleanup id keyHash).untimed := by
  unfold completeRetirementCleanup
  rw [untimed_retirementCleanups, untimed_retirements, InsertionMap.get?_mapValues]
  cases ledger.retirementCleanups.get? id with
  | none => rfl
  | some current =>
    dsimp only
    split
    · rfl
    cases ledger.retirements.get? id with
    | none => rfl
    | some retirement =>
      have hmatch : cleanupMatchesRetirement current retirement.untimed =
          cleanupMatchesRetirement current retirement := rfl
      simp only [Option.map_some, hmatch, untimed_compactCleanupEncoding]
      split
      · simp only [LedgerOutcome.untimed, LedgerReply.untimed, untimed, InsertionMap.mapValues_set]
        rfl
      · simp only [LedgerOutcome.untimed, LedgerReply.untimed, untimed, InsertionMap.mapValues_set]

/-- **Main**: an operation that does not move a record back in time does to the untimed ledger,
    at the fixed reading, what it does to the ledger. -/
theorem apply_untimed (hordered : ledger.StampsOrdered) {op : LedgerOp}
    (hforward : op.Forward ledger) :
    (op.withClock 0).apply ledger.untimed = (op.apply ledger).untimed := by
  cases op with
  | reserve => exact reserve_untimed ..
  | transition => exact transition_untimed hordered hforward
  | beginRetirement => exact beginRetirement_untimed hordered ..
  | completeRetirement => exact completeRetirement_untimed ..
  | completeRetirementCleanup => exact completeRetirementCleanup_untimed ..
  | cancelRetirement => exact cancelRetirement_untimed hordered ..

/-! ### The size checks -/

end Ledger

theorem fourDigitYear_zero : FourDigitYear 0 := by decide

theorem LaunchRecord.bytes_untimed {record : LaunchRecord} (h : record.StampsAll FourDigitYear) :
    record.untimed.toJson.bytes = record.toJson.bytes := by
  simp only [LaunchRecord.toJson, LaunchRecord.untimed, Json.bytes_obj, List.map_append,
    List.map_cons, Json.memberBytes, h.1.bytes, h.2.bytes, fourDigitYear_zero.bytes]

theorem Retirement.bytes_untimed {entry : Retirement} (h : entry.StampsAll FourDigitYear) :
    entry.untimed.toJson.bytes = entry.toJson.bytes := by
  simp only [Retirement.toJson, Retirement.untimed, Json.bytes_obj, List.map_append,
    List.map_cons, Json.memberBytes, h.1.bytes, h.2.bytes, fourDigitYear_zero.bytes]

namespace Ledger

variable {ledger : Ledger}

theorem cleanupsExactlyMatch_untimed (retirements : InsertionMap Retirement.launchId)
    (cleanups : InsertionMap RetirementCleanup.launchId) :
    cleanupsExactlyMatchScopedRetirements
      (retirements.mapValues Retirement.untimed Retirement.untimed_launchId) cleanups =
    cleanupsExactlyMatchScopedRetirements retirements cleanups := by
  have hscoped : scopedRetirements (retirements.values.map Retirement.untimed) =
      (scopedRetirements retirements.values).map Retirement.untimed := by
    rw [scopedRetirements, List.filter_map]
    rfl
  simp only [cleanupsExactlyMatchScopedRetirements, InsertionMap.values_mapValues, hscoped,
    List.length_map, List.all_map]
  rfl

theorem ledgerContent_untimed (ledger : Ledger) :
    ledgerContent ledger.untimed = (ledgerContent ledger).untimed := by
  simp only [ledgerContent, untimed_records, untimed_retirements, untimed_retirementCleanups,
    untimed_compactCleanupEncoding, cleanupsExactlyMatch_untimed, InsertionMap.size_mapValues,
    InsertionMap.values_mapValues, LedgerDocument.untimed]
  split <;> rfl

/-- Texts of four-digit years take the same room at every reading. -/
theorem bytes_untimed (h : ledger.StampsAll FourDigitYear) :
    (ledgerContent ledger.untimed).bytes = (ledgerContent ledger).bytes := by
  have hrecords : (ledger.records.values.map LaunchRecord.untimed).map recordBytes =
      ledger.records.values.map recordBytes := by
    rw [List.map_map]
    exact List.map_congr_left fun record hr => LaunchRecord.bytes_untimed (h.records record hr)
  have hretirements : (ledger.retirements.values.map Retirement.untimed).map retirementBytes =
      ledger.retirements.values.map retirementBytes := by
    rw [List.map_map]
    exact List.map_congr_left fun entry he => Retirement.bytes_untimed (h.retirements entry he)
  rw [ledgerContent_untimed, LedgerDocument.bytes_eq rfl, LedgerDocument.bytes_eq rfl]
  simp only [ledgerContent, LedgerDocument.untimed, hrecords]
  split
  · simp only [Option.map_some, hretirements]
  · rfl

/-- The projection of the pending retirements reads the stamps for the size of their texts
    only. -/
theorem projectRetirementCompletions_untimed (h : ledger.StampsAll FourDigitYear) :
    projectRetirementCompletions ledger.untimed =
      (projectRetirementCompletions ledger).untimed := by
  have hretiring : ledger.untimed.retiring = ledger.retiring.map LaunchRecord.untimed := by
    rw [retiring, untimed_records, InsertionMap.values_mapValues, List.filter_map]
    rfl
  have hentries : ledger.untimed.retiring.map projectedEntry =
      (ledger.retiring.map projectedEntry).map Retirement.untimed := by
    rw [hretiring, List.map_map, List.map_map]
    rfl
  have hsorted : (ledger.candidates.map Retirement.untimed).insertionSort candidateBefore =
      (ledger.candidates.insertionSort candidateBefore).map Retirement.untimed := by
    refine (List.map_insertionSort candidateBefore candidateBefore Retirement.untimed _ ?_).symm
    intro left hl right hr
    rw [candidateBefore, candidateBefore, Retirement.bytes_untimed (h.candidates left hl),
      Retirement.bytes_untimed (h.candidates right hr)]
    rfl
  have hids : ledger.untimed.retiring.map LaunchRecord.id = ledger.retiring.map LaunchRecord.id := by
    rw [hretiring, List.map_map]
    rfl
  have hcandidates : ledger.untimed.retirements.values ++
      (ledger.retiring.map projectedEntry).map Retirement.untimed =
        ledger.candidates.map Retirement.untimed := by
    rw [candidates, List.map_append]
    rfl
  have hcleanups : ((ledger.retiring.map projectedEntry).map Retirement.untimed).map
      retirementCleanup = (ledger.retiring.map projectedEntry).map retirementCleanup := by
    rw [List.map_map]
    rfl
  unfold projectRetirementCompletions
  rw [hentries]
  dsimp only
  rw [hcandidates, hsorted, hcleanups, hids, ← List.map_take]
  simp only [untimed, InsertionMap.mapValues_ofValues, InsertionMap.mapValues_deleteAll]
  rfl

/-- **Main**: the size checks of `#persist` do not depend on the readings of the clock. -/
theorem persist_untimed (h : ledger.StampsAll FourDigitYear) :
    ledger.untimed.persist = ledger.persist.map LedgerDocument.untimed := by
  rw [persist, persist, bytes_untimed h, projectRetirementCompletions_untimed h,
    bytes_untimed h.projected, ledgerContent_untimed]
  split
  · rfl
  split <;> rfl

end Ledger

end AgentHost
