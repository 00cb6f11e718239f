import AgentHost.Core.LaunchLedger
import Mathlib.Data.List.Flatten

namespace AgentHost

/-!
# The representation invariant of the launch ledger

`Ledger.Valid` is what `open` checks of a document, and what every operation keeps.

* `*_persists` — for each operation, the guards it has passed when it asks for a write, the
  state it writes and the state it rolls back to.
* `Ledger.Valid.addRecord`, `.replaceRecord`, `.completed`, `.completeCleanup` — the four
  changes of a ledger keep the invariant.
* `LedgerOp.apply_valid` — **Main**: an operation keeps it.
* `LedgerOp.apply_pendingCount` — **Main**: an operation of the coordinator leaves at most 32
  records undecided.
* `LedgerOp.apply_rollback` — **Main**: the rollback of a failed write restores the state,
  up to the order of the records and of the cleanups.
-/

/-! ### The invariant -/

namespace Ledger

variable (ledger : Ledger)

/-- The launch ids of the records and tombstones. -/
def launchIds : List String :=
  ledger.records.values.map LaunchRecord.id ++ ledger.retirements.values.map Retirement.launchId

/-- The attempt ids of the records and tombstones. -/
def attemptIds : List String :=
  ledger.records.values.map LaunchRecord.attemptId ++
    ledger.retirements.values.map Retirement.attemptId

/-- The creation and retirement key hashes of the records and tombstones. -/
def keyHashes : List String :=
  ledger.records.values.flatMap LaunchRecord.keyHashes ++
    ledger.retirements.values.flatMap Retirement.keyHashes

/-- The number of records whose launch is not decided yet. -/
def pendingCount : Nat := ledger.records.values.countP LaunchRecord.pending

/-- The representation invariant. -/
structure Valid : Prop where
  records_valid : ∀ record ∈ ledger.records.values, validateLaunchRecord record = true
  retirements_valid : ∀ entry ∈ ledger.retirements.values, validRetirement entry = true
  cleanups_valid : ∀ cleanup ∈ ledger.retirementCleanups.values,
    validRetirementCleanup cleanup = true
  launchIds_nodup : ledger.launchIds.Nodup
  attemptIds_nodup : ledger.attemptIds.Nodup
  keyHashes_nodup : ledger.keyHashes.Nodup
  cleanupAttempts_nodup :
    (ledger.retirementCleanups.values.map RetirementCleanup.attemptId).Nodup
  /-- No cleanup is of a launch that still has its record. -/
  cleanup_apart : ∀ cleanup ∈ ledger.retirementCleanups.values,
    ∀ record ∈ ledger.records.values,
      cleanup.launchId ≠ record.id ∧ cleanup.attemptId ≠ record.attemptId
  /-- A cleanup that shares an identity with a tombstone is the cleanup of that tombstone. -/
  cleanup_tombstone : ∀ cleanup ∈ ledger.retirementCleanups.values,
    ∀ entry ∈ ledger.retirements.values,
      cleanup.launchId = entry.launchId ∨ cleanup.attemptId = entry.attemptId →
        cleanup = retirementCleanup entry
  /-- Under the compact encoding every scoped tombstone has its cleanup. -/
  compact_scoped : ledger.compactCleanupEncoding = true →
    ∀ entry ∈ ledger.retirements.values, entry.cleanupScope.isSome = true →
      retirementCleanup entry ∈ ledger.retirementCleanups.values
  records_le : ledger.records.size ≤ maxRecords
  retirements_le : ledger.retirements.size ≤ maxRetirements
  cleanups_le : ledger.retirementCleanups.size + ledger.retiringCount ≤ maxRetirementCleanups

/-- Two ledgers with the same records and cleanups, in any order, and the same tombstones in
    the same order. -/
structure SameState (left right : Ledger) : Prop where
  records : left.records.values.Perm right.records.values
  retirements : left.retirements = right.retirements
  cleanups : left.retirementCleanups.values.Perm right.retirementCleanups.values

instance (left right : Ledger) : Decidable (left.SameState right) :=
  decidable_of_iff (left.records.values.Perm right.records.values ∧
      left.retirements = right.retirements ∧
      left.retirementCleanups.values.Perm right.retirementCleanups.values)
    ⟨fun h => ⟨h.1, h.2.1, h.2.2⟩, fun h => ⟨h.records, h.retirements, h.cleanups⟩⟩

theorem SameState.refl : ledger.SameState ledger := ⟨.refl _, rfl, .refl _⟩

variable {ledger} {other next : Ledger}

theorem SameState.symm (h : ledger.SameState other) : other.SameState ledger :=
  ⟨h.records.symm, h.retirements.symm, h.cleanups.symm⟩

theorem SameState.trans (h : ledger.SameState other) (h' : other.SameState next) :
    ledger.SameState next :=
  ⟨h.records.trans h'.records, h.retirements.trans h'.retirements, h.cleanups.trans h'.cleanups⟩

/-- The same state, whose encoding is explicit only where the other's cleanups are written
    out. -/
structure Restores (ledger other : Ledger) : Prop extends SameState ledger other where
  encoding : ledger.compactCleanupEncoding = false →
    other.compactCleanupEncoding = false ∨
      cleanupsExactlyMatchScopedRetirements other.retirements other.retirementCleanups = false

/-- The order of the records and of the cleanups is of no concern to the invariant. -/
theorem Valid.congr (h : ledger.Valid) (hsame : ledger.SameState other)
    (hcompact : other.compactCleanupEncoding = true →
      ∀ entry ∈ other.retirements.values, entry.cleanupScope.isSome = true →
        retirementCleanup entry ∈ other.retirementCleanups.values) : other.Valid := by
  obtain ⟨hrecords, hretirements, hcleanups⟩ := hsame
  have hrec : ∀ record, record ∈ other.records.values ↔ record ∈ ledger.records.values :=
    fun _ => hrecords.symm.mem_iff
  have hcl : ∀ cleanup, cleanup ∈ other.retirementCleanups.values ↔
      cleanup ∈ ledger.retirementCleanups.values := fun _ => hcleanups.symm.mem_iff
  constructor
  · exact fun record hr => h.records_valid record ((hrec record).mp hr)
  · exact hretirements ▸ h.retirements_valid
  · exact fun cleanup hc => h.cleanups_valid cleanup ((hcl cleanup).mp hc)
  · refine List.Perm.nodup ?_ h.launchIds_nodup
    rw [launchIds, launchIds, hretirements]
    exact (hrecords.map _).append_right _
  · refine List.Perm.nodup ?_ h.attemptIds_nodup
    rw [attemptIds, attemptIds, hretirements]
    exact (hrecords.map _).append_right _
  · refine List.Perm.nodup ?_ h.keyHashes_nodup
    rw [keyHashes, keyHashes, hretirements]
    exact (hrecords.flatMap_right _).append_right _
  · exact (hcleanups.map _).nodup h.cleanupAttempts_nodup
  · exact fun cleanup hc record hr =>
      h.cleanup_apart cleanup ((hcl cleanup).mp hc) record ((hrec record).mp hr)
  · exact fun cleanup hc => hretirements ▸ h.cleanup_tombstone cleanup ((hcl cleanup).mp hc)
  · exact hcompact
  · exact (hrecords.length_eq.symm.le).trans h.records_le
  · exact hretirements ▸ h.retirements_le
  · have hretiring : other.retiringCount = ledger.retiringCount := (hrecords.countP_eq _).symm
    have hsize : other.retirementCleanups.size = ledger.retirementCleanups.size :=
      hcleanups.length_eq.symm
    rw [hsize, hretiring]
    exact h.cleanups_le

/-- The ledger of an absent file. -/
def initial : Ledger := ⟨.empty, .empty, .empty, false⟩

theorem initial_valid : initial.Valid := by
  constructor <;> simp [initial, launchIds, attemptIds, keyHashes, retiringCount,
    InsertionMap.size]

/-! ### What the operations write -/

theorem reserve_persists {id attemptId keyHash signature : String} {request : LaunchRequest}
    {now : Timestamp} {reply : LedgerReply} {rollback : Ledger}
    (h : ledger.reserve id attemptId keyHash signature request now =
      .persists next reply rollback) :
    ∃ record, record = requestedRecord id attemptId keyHash signature request now ∧
      keyHash ∉ ledger.keyHashes ∧ ledger.pendingCount < maxPending ∧
      ledger.records.size < maxRecords ∧ validateLaunchRecord record = true ∧
      next = { ledger with records := ledger.records.set record } ∧ reply = .created record ∧
      rollback = { ledger with records := (ledger.records.set record).delete id } := by
  unfold reserve at h
  split at h
  · cases h
  next hkey =>
  split at h
  · cases h
  next hcreation =>
  split at h
  · cases h
  next hretirement =>
  split at h
  · cases h
  next hpending =>
  split at h
  · cases h
  next hsize =>
  dsimp only at h
  split at h
  · cases h
  next hvalid =>
  obtain ⟨rfl, rfl, rfl⟩ := LedgerOutcome.persists.inj h
  refine ⟨_, rfl, ?_, not_le.mp hpending, not_le.mp hsize, by simpa using hvalid, rfl, rfl, rfl⟩
  -- none of the four searches has found the hash
  simp only [findByKeyHash, List.find?_eq_none, decide_eq_true_eq] at hkey
  simp only [findRetirementByCreationKeyHash, List.find?_eq_none, decide_eq_true_eq] at hcreation
  simp only [findByRetirementKeyHash, findRetirementByKeyHash, not_or, Bool.not_eq_true,
    Option.isSome_eq_false_iff, Option.isNone_iff_eq_none, List.find?_eq_none,
    decide_eq_true_eq] at hretirement
  simp only [keyHashes, List.mem_append, List.mem_flatMap, not_or, not_exists, not_and]
  constructor
  · intro record hr hm
    rcases List.mem_cons.mp hm with hm | hm
    · exact hkey record hr hm.symm
    · exact hretirement.1 record hr (Option.mem_toList.mp hm)
  · intro entry he hm
    simp only [Retirement.keyHashes, List.mem_cons, List.not_mem_nil, or_false] at hm
    rcases hm with hm | hm
    · exact hcreation entry he hm.symm
    · exact hretirement.2 entry he hm.symm

theorem transition_persists {id : String} {expectedStates : List LaunchState}
    {patch : LaunchPatch} {now : Timestamp} {reply : LedgerReply} {rollback : Ledger}
    (h : ledger.transition id expectedStates patch now = .persists next reply rollback) :
    ∃ current record, ledger.records.get? id = some current ∧ current.state ∈ expectedStates ∧
      record = patch.apply current now ∧ validateLaunchRecord record = true ∧
      next = { ledger with records := ledger.records.set record } ∧ reply = .record record ∧
      rollback = { ledger with records := (ledger.records.set record).set current } := by
  unfold transition at h
  split at h
  · cases h
  next current hget =>
  split at h
  · cases h
  next hstate =>
  dsimp only at h
  split at h
  · cases h
  next hvalid =>
  obtain ⟨rfl, rfl, rfl⟩ := LedgerOutcome.persists.inj h
  exact ⟨current, _, hget, not_not.mp hstate, rfl, by simpa using hvalid, rfl, rfl, rfl⟩

theorem beginRetirement_persists {id keyHash : String} {now : Timestamp} {reply : LedgerReply}
    {rollback : Ledger}
    (h : ledger.beginRetirement id keyHash now = .persists next reply rollback) :
    ∃ current record, ledger.records.get? id = some current ∧ current.state = .owned ∧
      ledger.retirementCleanups.size + ledger.retiringCount < maxRetirementCleanups ∧
      ¬ ledger.retirementKeyClaimed id keyHash ∧
      record = retiringRecord current keyHash now ∧ validateLaunchRecord record = true ∧
      next = { ledger with records := ledger.records.set record } ∧ reply = .record record ∧
      rollback = { ledger with records := (ledger.records.set record).set current } := by
  unfold beginRetirement at h
  split at h
  · cases h
  split at h
  · cases h
  next current hget =>
  split at h
  · cases h
  split at h
  · cases h
  next hstate =>
  split at h
  · cases h
  next hroom =>
  split at h
  · cases h
  next hclaimed =>
  dsimp only at h
  split at h
  · cases h
  next hvalid =>
  obtain ⟨rfl, rfl, rfl⟩ := LedgerOutcome.persists.inj h
  exact ⟨current, _, hget, not_not.mp hstate, not_le.mp hroom, hclaimed, rfl,
    by simpa using hvalid, rfl, rfl, rfl⟩

theorem completeRetirement_persists {id : String} {now : Timestamp} {scope : Option String}
    {reply : LedgerReply} {rollback : Ledger}
    (h : ledger.completeRetirement id now scope = .persists next reply rollback) :
    ∃ current entry, ledger.records.get? id = some current ∧ current.state = .retiring ∧
      entry = retirementEntry current now scope ∧ validRetirement entry = true ∧
      next = ledger.completed current entry ∧ reply = .retirement entry ∧
      rollback = { ledger with records := (ledger.records.delete id).set current } := by
  unfold completeRetirement at h
  split at h
  · cases h
  next current hget =>
  split at h
  · cases h
  next hstate =>
  dsimp only at h
  split at h
  · cases h
  next hvalid =>
  obtain ⟨rfl, rfl, rfl⟩ := LedgerOutcome.persists.inj h
  have hid : current.id = id := InsertionMap.key_of_get? hget
  exact ⟨current, _, hget, not_not.mp hstate, rfl, by simpa using hvalid, rfl, rfl,
    by rw [completed, hid]⟩

/-- The tombstone of a completed cleanup: the compact encoding drops its scope. -/
def releasedRetirements (ledger : Ledger) (cleanup : RetirementCleanup) :
    InsertionMap Retirement.launchId :=
  match ledger.retirements.get? cleanup.launchId with
  | none => ledger.retirements
  | some retirement =>
    if ledger.compactCleanupEncoding && cleanupMatchesRetirement cleanup retirement then
      ledger.retirements.set { retirement with cleanupScope := none }
    else ledger.retirements

theorem completeRetirementCleanup_persists {id keyHash : String} {reply : LedgerReply}
    {rollback : Ledger}
    (h : ledger.completeRetirementCleanup id keyHash = .persists next reply rollback) :
    ∃ cleanup, ledger.retirementCleanups.get? id = some cleanup ∧ cleanup.keyHash = keyHash ∧
      next = { ledger with
        retirementCleanups := ledger.retirementCleanups.delete id
        retirements := ledger.releasedRetirements cleanup } ∧
      reply = .flag true ∧
      rollback = { ledger with
        retirementCleanups := (ledger.retirementCleanups.delete id).set cleanup } := by
  unfold completeRetirementCleanup at h
  split at h
  · cases h
  next cleanup hget =>
  have hid : cleanup.launchId = id := InsertionMap.key_of_get? hget
  split at h
  · cases h
  next hkey =>
  have hkey' := not_not.mp hkey
  dsimp only at h
  split at h
  · next hnone =>
    obtain ⟨rfl, rfl, rfl⟩ := LedgerOutcome.persists.inj h
    exact ⟨cleanup, hget, hkey', by rw [releasedRetirements, hid, hnone], rfl, rfl⟩
  · next retirement hsome =>
    obtain ⟨rfl, rfl, rfl⟩ := LedgerOutcome.persists.inj h
    have hself : retirement.launchId = id := InsertionMap.key_of_get? hsome
    refine ⟨cleanup, hget, hkey', by rw [releasedRetirements, hid, hsome], rfl, ?_⟩
    have hback : ledger.retirements.set retirement = ledger.retirements :=
      InsertionMap.set_of_get?_some (hself.symm ▸ hsome)
    congr 1
    split
    · have htwice := InsertionMap.set_set (m := ledger.retirements)
        (v := { retirement with cleanupScope := none }) (w := retirement) rfl
      exact htwice.trans hback
    · exact hback

theorem cancelRetirement_persists {id keyHash : String} {now : Timestamp} {reply : LedgerReply}
    {rollback : Ledger}
    (h : ledger.cancelRetirement id keyHash now = .persists next reply rollback) :
    ∃ current record, ledger.records.get? id = some current ∧ current.state = .retiring ∧
      current.retirementKeyHash = some keyHash ∧ record = restoredRecord current now ∧
      validateLaunchRecord record = true ∧
      next = { ledger with records := ledger.records.set record } ∧ reply = .record record ∧
      rollback = { ledger with records := (ledger.records.set record).set current } := by
  unfold cancelRetirement at h
  split at h
  · cases h
  next current hget =>
  split at h
  · cases h
  next hfence =>
  dsimp only at h
  split at h
  · cases h
  next hvalid =>
  obtain ⟨rfl, rfl, rfl⟩ := LedgerOutcome.persists.inj h
  obtain ⟨hstate, hkey⟩ := not_or.mp hfence
  exact ⟨current, _, hget, not_not.mp hstate, not_not.mp hkey, rfl, by simpa using hvalid,
    rfl, rfl, rfl⟩

/-! ### The changes keep the invariant -/

/-- The key hashes of everything but one record. -/
def otherKeyHashes (ledger : Ledger) (id : String) : List String :=
  (ledger.records.delete id).values.flatMap LaunchRecord.keyHashes ++
    ledger.retirements.values.flatMap Retirement.keyHashes

theorem keyHashes_perm {current : LaunchRecord} {id : String}
    (hget : ledger.records.get? id = some current) :
    ledger.keyHashes.Perm (current.keyHashes ++ ledger.otherKeyHashes id) := by
  have h := (InsertionMap.perm_cons_delete hget).flatMap_right LaunchRecord.keyHashes
  rw [keyHashes, otherKeyHashes, ← List.append_assoc]
  exact h.append_right _

/-- The key hashes after a record is stored. -/
theorem keyHashes_set_perm (record : LaunchRecord) :
    ({ ledger with records := ledger.records.set record }.keyHashes).Perm
      (record.keyHashes ++ ledger.otherKeyHashes record.id) := by
  have h := (ledger.records.set_perm record).flatMap_right LaunchRecord.keyHashes
  rw [keyHashes, otherKeyHashes, ← List.append_assoc]
  exact h.append_right _

/-- Counting records after one is replaced. -/
theorem countP_set {p : LaunchRecord → Bool} {current record : LaunchRecord}
    (hget : ledger.records.get? record.id = some current) :
    (ledger.records.set record).values.countP p + (if p current then 1 else 0) =
      ledger.records.values.countP p + (if p record then 1 else 0) := by
  rw [(ledger.records.set_perm record).countP_eq,
    (InsertionMap.perm_cons_delete hget).countP_eq, List.countP_cons, List.countP_cons]
  omega

/-- A new record with fresh identities and a fresh key. -/
theorem Valid.addRecord (h : ledger.Valid) {record : LaunchRecord}
    (hrecord : validateLaunchRecord record = true) (hstate : record.state ≠ .retiring)
    (hid : record.id ∉ ledger.launchIds) (hattempt : record.attemptId ∉ ledger.attemptIds)
    (hkey : record.keyHash ∉ ledger.keyHashes)
    (hcleanup : ∀ cleanup ∈ ledger.retirementCleanups.values,
      cleanup.launchId ≠ record.id ∧ cleanup.attemptId ≠ record.attemptId)
    (hsize : ledger.records.size < maxRecords) :
    { ledger with records := ledger.records.set record }.Valid := by
  have hnone : ledger.records.get? record.id = none :=
    InsertionMap.get?_eq_none_iff.mpr fun other ho heq =>
      hid (List.mem_append_left _ (heq ▸ List.mem_map_of_mem ho))
  have hvalues := InsertionMap.values_set_of_get?_none hnone
  have hkeys : record.keyHashes = [record.keyHash] := by
    rw [LaunchRecord.keyHashes, retirementKeyHash_eq_none hrecord hstate]; rfl
  have hmem : ∀ other ∈ (ledger.records.set record).values,
      other ∈ ledger.records.values ∨ other = record := by
    intro other ho
    rcases InsertionMap.mem_set.mp ho with rfl | ⟨ho, _⟩
    · exact .inr rfl
    · exact .inl ho
  constructor
  · intro other ho
    rcases hmem other ho with ho | rfl
    · exact h.records_valid other ho
    · exact hrecord
  · exact h.retirements_valid
  · exact h.cleanups_valid
  · simp only [launchIds, hvalues, List.map_append, List.map_singleton, List.append_assoc]
    refine List.perm_middle.symm.nodup (List.nodup_cons.mpr ⟨?_, h.launchIds_nodup⟩)
    exact hid
  · simp only [attemptIds, hvalues, List.map_append, List.map_singleton, List.append_assoc]
    refine List.perm_middle.symm.nodup (List.nodup_cons.mpr ⟨?_, h.attemptIds_nodup⟩)
    exact hattempt
  · simp only [keyHashes, hvalues, List.flatMap_append, List.flatMap_singleton, hkeys,
      List.append_assoc]
    refine List.perm_middle.symm.nodup (List.nodup_cons.mpr ⟨?_, h.keyHashes_nodup⟩)
    exact hkey
  · exact h.cleanupAttempts_nodup
  · intro cleanup hc other ho
    rcases hmem other ho with ho | rfl
    · exact h.cleanup_apart cleanup hc other ho
    · exact hcleanup cleanup hc
  · exact h.cleanup_tombstone
  · exact h.compact_scoped
  · simp only [InsertionMap.size, hvalues, List.length_append, List.length_singleton]
    exact hsize
  · exact h.retirements_le
  · have hcount : (ledger.records.set record).values.countP (fun r => r.state = .retiring) =
        ledger.retiringCount := by
      rw [hvalues, List.countP_append, List.countP_singleton]
      simp [hstate, retiringCount]
    have := h.cleanups_le
    simp only [retiringCount] at this hcount ⊢
    rw [hcount]
    exact this

/-- A record stored again with its identities, whose new keys nobody else holds. -/
theorem Valid.replaceRecord (h : ledger.Valid) {current record : LaunchRecord}
    (hget : ledger.records.get? record.id = some current)
    (hrecord : validateLaunchRecord record = true) (hattempt : record.attemptId = current.attemptId)
    (hnodup : record.keyHashes.Nodup)
    (hkeys : ∀ hash ∈ record.keyHashes, hash ∈ current.keyHashes ∨ hash ∉ ledger.keyHashes)
    (hretiring : record.state = .retiring → current.state = .retiring ∨
      ledger.retirementCleanups.size + ledger.retiringCount < maxRetirementCleanups) :
    { ledger with records := ledger.records.set record }.Valid := by
  have hcurrent : current ∈ ledger.records.values := InsertionMap.mem_of_get? hget
  have hid : current.id = record.id := InsertionMap.key_of_get? hget
  have hmem : ∀ other ∈ (ledger.records.set record).values,
      other ∈ ledger.records.values ∨ other = record := by
    intro other ho
    rcases InsertionMap.mem_set.mp ho with rfl | ⟨ho, _⟩
    · exact .inr rfl
    · exact .inl ho
  constructor
  · intro other ho
    rcases hmem other ho with ho | rfl
    · exact h.records_valid other ho
    · exact hrecord
  · exact h.retirements_valid
  · exact h.cleanups_valid
  · simp only [launchIds]
    rw [InsertionMap.map_set_of_get?_some LaunchRecord.id hget hid]
    exact h.launchIds_nodup
  · simp only [attemptIds]
    rw [InsertionMap.map_set_of_get?_some LaunchRecord.attemptId hget hattempt.symm]
    exact h.attemptIds_nodup
  · refine (keyHashes_set_perm record).symm.nodup ?_
    have hold := (keyHashes_perm hget).nodup h.keyHashes_nodup
    rw [List.nodup_append] at hold ⊢
    refine ⟨hnodup, hold.2.1, ?_⟩
    rintro hash hnew other hother rfl
    rcases hkeys hash hnew with hin | hfresh
    · exact hold.2.2 hash hin hash hother rfl
    · exact hfresh ((keyHashes_perm hget).symm.mem_iff.mp (List.mem_append_right _ hother))
  · exact h.cleanupAttempts_nodup
  · intro cleanup hc other ho
    rcases hmem other ho with ho | rfl
    · exact h.cleanup_apart cleanup hc other ho
    · exact hid ▸ hattempt ▸ h.cleanup_apart cleanup hc current hcurrent
  · exact h.cleanup_tombstone
  · exact h.compact_scoped
  · have hlength := congrArg List.length (InsertionMap.map_set_of_get?_some LaunchRecord.id hget hid)
    simp only [List.length_map] at hlength
    simp only [InsertionMap.size, hlength]
    exact h.records_le
  · exact h.retirements_le
  · have hcount := countP_set (p := fun r => decide (r.state = .retiring)) hget
    have hold := h.cleanups_le
    simp only [retiringCount, decide_eq_true_eq] at hold hcount hretiring ⊢
    by_cases hnew : record.state = .retiring
    · rcases hretiring hnew with hwas | hroom
      · simp only [hnew, hwas, if_true] at hcount
        omega
      · simp only [hnew, if_true] at hcount
        omega
    · simp only [hnew, if_false] at hcount
      omega

/-- A record leaves the retiring records when it is deleted. -/
theorem countP_delete {p : LaunchRecord → Bool} {current : LaunchRecord} {id : String}
    (hget : ledger.records.get? id = some current) :
    (ledger.records.delete id).values.countP p + (if p current then 1 else 0) =
      ledger.records.values.countP p := by
  rw [(InsertionMap.perm_cons_delete hget).countP_eq, List.countP_cons]

/-- The tombstones after one more retirement completes: those of the ledger and the new one,
    less the oldest above the limit. -/
theorem completed_retirements (h : ledger.Valid) {current : LaunchRecord} {entry : Retirement}
    (hcurrent : current ∈ ledger.records.values) (hid : entry.launchId = current.id) :
    (ledger.completed current entry).retirements.values =
      (ledger.retirements.values ++ [entry]).drop
        (ledger.retirements.size + 1 - maxRetirements) := by
  have hnone : ledger.retirements.get? entry.launchId = none := by
    refine InsertionMap.get?_eq_none_iff.mpr fun other ho heq => ?_
    have hnd := (List.nodup_append.mp h.launchIds_nodup).2.2
    exact hnd _ (List.mem_map_of_mem hcurrent) _ (List.mem_map_of_mem ho) (heq.trans hid).symm
  have hvalues := InsertionMap.values_set_of_get?_none hnone
  simp only [completed, InsertionMap.values_keepNewest, InsertionMap.size, hvalues,
    List.length_append, List.length_singleton]

/-- The cleanups after a retirement completes. -/
theorem completed_cleanups (h : ledger.Valid) {current : LaunchRecord} {entry : Retirement}
    (hcurrent : current ∈ ledger.records.values) (hid : entry.launchId = current.id) :
    (ledger.completed current entry).retirementCleanups.values =
      ledger.retirementCleanups.values ++
        (if entry.cleanupScope.isSome then [retirementCleanup entry] else []) := by
  have hnone : ledger.retirementCleanups.get? current.id = none :=
    InsertionMap.get?_eq_none_iff.mpr fun cleanup hc => (h.cleanup_apart cleanup hc _ hcurrent).1
  simp only [completed]
  split
  · have hkey : ledger.retirementCleanups.get? (retirementCleanup entry).launchId = none := by
      rw [retirementCleanup, hid]
      exact hnone
    exact InsertionMap.values_set_of_get?_none hkey
  · rw [InsertionMap.delete_of_get?_none hnone, List.append_nil]

/-- The key hashes of a tombstone are those of its record. -/
theorem retirementEntry_keyHashes {current : LaunchRecord} (hvalid : validateLaunchRecord current)
    (hstate : current.state = .retiring) (now : Timestamp) (scope : Option String) :
    (retirementEntry current now scope).keyHashes = current.keyHashes := by
  obtain ⟨keyHash, hkey, -⟩ := retirementKeyHash_of_retiring hvalid hstate
  simp [Retirement.keyHashes, LaunchRecord.keyHashes, retirementEntry, hkey]

/-- What the deleted record held, its tombstone holds: fields that were pairwise different
    stay so when a retirement completes. -/
theorem completed_nodup {β : Type} (h : ledger.Valid) {current : LaunchRecord}
    {entry : Retirement} (hget : ledger.records.get? current.id = some current)
    (hid : entry.launchId = current.id) (f : LaunchRecord → List β) (g : Retirement → List β)
    (hfg : g entry = f current)
    (hnd : (ledger.records.values.flatMap f ++ ledger.retirements.values.flatMap g).Nodup) :
    ((ledger.completed current entry).records.values.flatMap f ++
      (ledger.completed current entry).retirements.values.flatMap g).Nodup := by
  have hperm := (InsertionMap.perm_cons_delete hget).flatMap_right f
  have hdrop := List.drop_sublist (ledger.retirements.size + 1 - maxRetirements)
    (ledger.retirements.values ++ [entry])
  rw [completed_retirements h (InsertionMap.mem_of_get? hget) hid]
  have hall : ((ledger.records.delete current.id).values.flatMap f ++
      (ledger.retirements.values ++ [entry]).flatMap g).Nodup := by
    refine List.Perm.nodup ?_ hnd
    refine (hperm.append_right _).trans ?_
    rw [List.flatMap_cons, List.flatMap_append, List.flatMap_singleton, hfg, List.append_assoc]
    refine List.perm_append_comm.trans ?_
    rw [List.append_assoc]
  exact hall.sublist ((List.Sublist.refl _).append (hdrop.flatMap g))

/-- A retirement that completes. -/
theorem Valid.completed (h : ledger.Valid) {current : LaunchRecord} {now : Timestamp}
    {scope : Option String} (hget : ledger.records.get? current.id = some current)
    (hstate : current.state = .retiring)
    (hentry : validRetirement (retirementEntry current now scope) = true) :
    (ledger.completed current (retirementEntry current now scope)).Valid := by
  have hcurrent : current ∈ ledger.records.values := InsertionMap.mem_of_get? hget
  have hkeys := retirementEntry_keyHashes (h.records_valid _ hcurrent) hstate now scope
  set entry := retirementEntry current now scope with hentryDef
  have hid : entry.launchId = current.id := rfl
  have hretirements := completed_retirements h hcurrent hid
  have hcleanups := completed_cleanups h hcurrent hid
  have hmemRet : ∀ other ∈ (ledger.completed current entry).retirements.values,
      other ∈ ledger.retirements.values ∨ other = entry := by
    intro other ho
    rw [hretirements] at ho
    simpa using List.mem_of_mem_drop ho
  have hmemClean : ∀ cleanup, cleanup ∈ (ledger.completed current entry).retirementCleanups.values ↔
      cleanup ∈ ledger.retirementCleanups.values ∨
        (entry.cleanupScope.isSome = true ∧ cleanup = retirementCleanup entry) := by
    intro cleanup
    rw [hcleanups, List.mem_append]
    split <;> simp_all
  have hmemRec : ∀ record ∈ (ledger.completed current entry).records.values,
      record ∈ ledger.records.values ∧ record.id ≠ current.id :=
    fun record hr => InsertionMap.mem_delete.mp hr
  have hids := (List.nodup_append.mp h.launchIds_nodup).2.2
  have hattempts := List.nodup_append.mp h.attemptIds_nodup
  constructor
  · exact fun other ho => h.records_valid other (hmemRec other ho).1
  · intro other ho
    rcases hmemRet other ho with ho | rfl
    · exact h.retirements_valid other ho
    · exact hentry
  · intro cleanup hc
    rcases (hmemClean cleanup).mp hc with hc | ⟨hscope, rfl⟩
    · exact h.cleanups_valid cleanup hc
    · obtain ⟨value, hvalue⟩ := Option.isSome_iff_exists.mp hscope
      simp only [validRetirement, hvalue, Bool.and_eq_true, Option.all_some] at hentry
      simp only [validRetirementCleanup, retirementCleanup, hvalue, Option.any_some,
        Bool.and_eq_true]
      tauto
  · have hold := h.launchIds_nodup
    simp only [launchIds, List.map_eq_flatMap] at hold ⊢
    exact completed_nodup h hget hid _ _ rfl hold
  · have hold := h.attemptIds_nodup
    simp only [attemptIds, List.map_eq_flatMap] at hold ⊢
    exact completed_nodup h hget hid _ _ rfl hold
  · exact completed_nodup h hget hid _ _ hkeys h.keyHashes_nodup
  · rw [hcleanups, List.map_append]
    split
    · refine List.nodup_append.mpr ⟨h.cleanupAttempts_nodup, List.nodup_singleton _, ?_⟩
      rintro a ha b hb rfl
      obtain ⟨cleanup, hc, rfl⟩ := List.mem_map.mp ha
      exact (h.cleanup_apart cleanup hc current hcurrent).2 (List.mem_singleton.mp hb)
    · simpa using h.cleanupAttempts_nodup
  · intro cleanup hc record hr
    obtain ⟨hr, hne⟩ := hmemRec record hr
    rcases (hmemClean cleanup).mp hc with hc | ⟨-, rfl⟩
    · exact h.cleanup_apart cleanup hc record hr
    · refine ⟨hne.symm, fun heq => hne ?_⟩
      exact congrArg _ (List.inj_on_of_nodup_map hattempts.1 hcurrent hr heq).symm
  · intro cleanup hc other ho hshare
    rcases (hmemClean cleanup).mp hc with hc | ⟨-, rfl⟩ <;> rcases hmemRet other ho with ho | rfl
    · exact h.cleanup_tombstone cleanup hc other ho hshare
    · have hapart := h.cleanup_apart cleanup hc current hcurrent
      rcases hshare with hshare | hshare
      · exact absurd hshare hapart.1
      · exact absurd hshare hapart.2
    · rcases hshare with hshare | hshare
      · exact absurd hshare
          (hids _ (List.mem_map_of_mem hcurrent) _ (List.mem_map_of_mem ho))
      · exact absurd hshare
          (hattempts.2.2 _ (List.mem_map_of_mem hcurrent) _ (List.mem_map_of_mem ho))
    · rfl
  · intro hcompact other ho hscope
    rcases hmemRet other ho with ho | rfl
    · exact (hmemClean _).mpr (.inl (h.compact_scoped hcompact other ho hscope))
    · exact (hmemClean _).mpr (.inr ⟨hscope, rfl⟩)
  · exact ((ledger.records.delete_sublist current.id).length_le).trans h.records_le
  · exact InsertionMap.size_keepNewest_le _ _
  · have hcount := countP_delete (p := fun r => decide (r.state = .retiring)) hget
    have hold := h.cleanups_le
    simp only [hstate, decide_true, if_true] at hcount
    simp only [retiringCount, InsertionMap.size] at hold ⊢
    rw [hcleanups, List.length_append]
    have hone : (if entry.cleanupScope.isSome = true then [retirementCleanup entry]
        else []).length ≤ 1 := by
      split <;> simp
    simp only [Ledger.completed]
    omega

/-- A released tombstone loses its scope and keeps its place. -/
theorem releasedRetirements_map {β : Type} (ledger : Ledger) (cleanup : RetirementCleanup)
    (f : Retirement → β) (hf : ∀ entry, f entry = f { entry with cleanupScope := none }) :
    (ledger.releasedRetirements cleanup).values.map f = ledger.retirements.values.map f := by
  unfold releasedRetirements
  split
  · rfl
  · next retirement hretirement =>
    split
    · have hself : retirement.launchId = cleanup.launchId := InsertionMap.key_of_get? hretirement
      exact InsertionMap.map_set_of_get?_some f
        (v := { retirement with cleanupScope := none }) (hself ▸ hretirement) (hf retirement)
    · rfl

/-- A cleanup that completes. -/
theorem Valid.completeCleanup (h : ledger.Valid) {cleanup : RetirementCleanup}
    (hget : ledger.retirementCleanups.get? cleanup.launchId = some cleanup) :
    { ledger with
      retirementCleanups := ledger.retirementCleanups.delete cleanup.launchId
      retirements := ledger.releasedRetirements cleanup }.Valid := by
  have hcleanup : cleanup ∈ ledger.retirementCleanups.values := InsertionMap.mem_of_get? hget
  have hmemClean : ∀ other ∈ (ledger.retirementCleanups.delete cleanup.launchId).values,
      other ∈ ledger.retirementCleanups.values ∧ other.launchId ≠ cleanup.launchId :=
    fun other ho => InsertionMap.mem_delete.mp ho
  have hmemRet : ∀ entry ∈ (ledger.releasedRetirements cleanup).values,
      (∃ old ∈ ledger.retirements.values, entry = { old with cleanupScope := none } ∧
        entry.launchId = cleanup.launchId) ∨
      (entry ∈ ledger.retirements.values ∧
        (ledger.compactCleanupEncoding = true → entry.launchId ≠ cleanup.launchId)) := by
    intro entry he
    unfold releasedRetirements at he
    split at he
    · next hnone =>
      exact .inr ⟨he, fun _ => InsertionMap.get?_eq_none_iff.mp hnone entry he⟩
    next retirement hretirement =>
    have hself : retirement.launchId = cleanup.launchId := InsertionMap.key_of_get? hretirement
    split at he
    · rcases InsertionMap.mem_set.mp he with rfl | ⟨he, hne⟩
      · exact .inl ⟨retirement, InsertionMap.mem_of_get? hretirement, rfl, hself⟩
      · exact .inr ⟨he, fun _ heq => hne (heq.trans hself.symm)⟩
    · next hkept =>
      -- under the compact encoding a cleanup of a retained tombstone always matches it
      refine .inr ⟨he, fun hcompact heq => hkept ?_⟩
      have hmatch := h.cleanup_tombstone cleanup hcleanup retirement
        (InsertionMap.mem_of_get? hretirement) (.inl hself.symm)
      simp [hcompact, cleanupMatchesRetirement, hmatch]
  constructor
  · exact h.records_valid
  · intro entry he
    rcases hmemRet entry he with ⟨old, hold, rfl, -⟩ | ⟨he, -⟩
    · have := h.retirements_valid old hold
      simp only [validRetirement, Bool.and_eq_true] at this ⊢
      simp only [Option.all_none]
      tauto
    · exact h.retirements_valid entry he
  · exact fun other ho => h.cleanups_valid other (hmemClean other ho).1
  · simp only [launchIds, releasedRetirements_map ledger cleanup Retirement.launchId fun _ => rfl]
    exact h.launchIds_nodup
  · simp only [attemptIds, releasedRetirements_map ledger cleanup Retirement.attemptId fun _ => rfl]
    exact h.attemptIds_nodup
  · have hflat := congrArg List.flatten
      (releasedRetirements_map ledger cleanup Retirement.keyHashes fun _ => rfl)
    simp only [keyHashes, List.flatMap_def, hflat] at *
    exact h.keyHashes_nodup
  · exact h.cleanupAttempts_nodup.sublist
      ((ledger.retirementCleanups.delete_sublist _).map _)
  · exact fun other ho => h.cleanup_apart other (hmemClean other ho).1
  · intro other ho entry he hshare
    obtain ⟨ho, hne⟩ := hmemClean other ho
    rcases hmemRet entry he with ⟨old, hold, rfl, hlaunch⟩ | ⟨he, -⟩
    · have hold' := h.cleanup_tombstone other ho old hold hshare
      exact absurd ((congrArg RetirementCleanup.launchId hold').trans hlaunch) hne
    · exact h.cleanup_tombstone other ho entry he hshare
  · intro hcompact entry he hscope
    rcases hmemRet entry he with ⟨old, hold, rfl, -⟩ | ⟨he, hne⟩
    · cases hscope
    · exact InsertionMap.mem_delete.mpr
        ⟨h.compact_scoped hcompact entry he hscope, hne hcompact⟩
  · exact h.records_le
  · have hlength := congrArg List.length (releasedRetirements_map ledger cleanup Retirement.launchId fun _ => rfl)
    simp only [List.length_map] at hlength
    simp only [InsertionMap.size, hlength]
    exact h.retirements_le
  · have hle := (ledger.retirementCleanups.delete_sublist cleanup.launchId).length_le
    have hold := h.cleanups_le
    simp only [InsertionMap.size, retiringCount] at hold ⊢
    omega

/-! ### The operations keep the invariant -/

/-- A reservation generates identities nobody has had. -/
def Fresh (ledger : Ledger) (id attemptId : String) : Prop :=
  id ∉ ledger.launchIds ∧ attemptId ∉ ledger.attemptIds ∧
    ∀ cleanup ∈ ledger.retirementCleanups.values,
      cleanup.launchId ≠ id ∧ cleanup.attemptId ≠ attemptId

end Ledger

/-- A reservation is made under fresh identities. -/
def LedgerOp.Permitted (ledger : Ledger) : LedgerOp → Prop
  | .reserve id attemptId _ _ _ _ => ledger.Fresh id attemptId
  | _ => True

namespace Ledger

variable {ledger next : Ledger}

theorem Valid.reserve (h : ledger.Valid) {id attemptId keyHash signature : String}
    {request : LaunchRequest} {now : Timestamp} {reply : LedgerReply} {rollback : Ledger}
    (hfresh : ledger.Fresh id attemptId)
    (hop : ledger.reserve id attemptId keyHash signature request now =
      .persists next reply rollback) : next.Valid := by
  obtain ⟨record, rfl, hkey, -, hsize, hrecord, rfl, -⟩ := reserve_persists hop
  exact h.addRecord hrecord (by simp [requestedRecord]) hfresh.1 hfresh.2.1 hkey hfresh.2.2 hsize

theorem Valid.transition (h : ledger.Valid) {id : String} {expectedStates : List LaunchState}
    {patch : LaunchPatch} {now : Timestamp} {reply : LedgerReply} {rollback : Ledger}
    (hop : ledger.transition id expectedStates patch now = .persists next reply rollback) :
    next.Valid := by
  obtain ⟨current, record, hget, -, hpatch, hrecord, rfl, -⟩ := transition_persists hop
  have hid : current.id = id := InsertionMap.key_of_get? hget
  have hcurrent := h.records_valid current (InsertionMap.mem_of_get? hget)
  have hkeys : record.keyHashes = current.keyHashes := by rw [hpatch]; rfl
  have hget' : ledger.records.get? record.id = some current := by
    rw [hpatch]
    exact hid.symm ▸ hget
  refine h.replaceRecord hget' hrecord (by rw [hpatch]; rfl) ?_ ?_ ?_
  · have hold := (keyHashes_perm hget).nodup h.keyHashes_nodup
    exact hkeys ▸ (List.nodup_append.mp hold).1
  · exact fun hash hm => .inl (hkeys ▸ hm)
  · -- the patch does not touch the retirement key, so only a retiring record stays one
    intro hretiring
    obtain ⟨keyHash, hkey, -⟩ := retirementKeyHash_of_retiring hrecord hretiring
    by_contra hnot
    have hnone := retirementKeyHash_eq_none hcurrent (not_or.mp hnot).1
    rw [hpatch] at hkey
    exact absurd (hnone.symm.trans hkey) (by simp)

theorem Valid.beginRetirement (h : ledger.Valid) {id keyHash : String} {now : Timestamp}
    {reply : LedgerReply} {rollback : Ledger}
    (hop : ledger.beginRetirement id keyHash now = .persists next reply rollback) :
    next.Valid := by
  obtain ⟨current, record, hget, hstate, hroom, hclaimed, rfl, hrecord, rfl, -⟩ :=
    beginRetirement_persists hop
  have hcurrent : current ∈ ledger.records.values := InsertionMap.mem_of_get? hget
  have hid : current.id = id := InsertionMap.key_of_get? hget
  have hnone : current.retirementKeyHash = none :=
    retirementKeyHash_eq_none (h.records_valid current hcurrent) (by simp [hstate])
  simp only [retirementKeyClaimed, not_or, not_exists, not_and] at hclaimed
  obtain ⟨hother, htombstone, hrecordKey, hcreation⟩ := hclaimed
  have hfresh : keyHash ∉ ledger.keyHashes := by
    simp only [keyHashes, List.mem_append, List.mem_flatMap, not_or, not_exists, not_and]
    constructor
    · intro entry he hm
      rcases List.mem_cons.mp hm with hm | hm
      · exact hrecordKey entry he hm.symm
      · have hm := Option.mem_toList.mp hm
        by_cases hself : entry.id = id
        · have hentry := ledger.records.eq_of_key_eq he hcurrent (hself.trans hid.symm)
          rw [hentry, hnone] at hm
          cases hm
        · exact hother entry he hself hm
    · intro entry he hm
      simp only [Retirement.keyHashes, List.mem_cons, List.not_mem_nil, or_false] at hm
      rcases hm with hm | hm
      · exact hcreation entry he hm.symm
      · exact htombstone entry he hm.symm
  have hne : current.keyHash ≠ keyHash := hrecordKey current hcurrent
  have hown : ledger.records.get? (retiringRecord current keyHash now).id = some current :=
    hid.symm ▸ hget
  refine h.replaceRecord hown hrecord rfl ?_ ?_ fun _ => .inr hroom
  · simpa [LaunchRecord.keyHashes, retiringRecord] using hne
  · intro hash hm
    simp only [LaunchRecord.keyHashes, retiringRecord, Option.toList_some, List.mem_cons,
      List.not_mem_nil, or_false] at hm
    rcases hm with rfl | rfl
    · exact .inl List.mem_cons_self
    · exact .inr hfresh

theorem Valid.cancelRetirement (h : ledger.Valid) {id keyHash : String} {now : Timestamp}
    {reply : LedgerReply} {rollback : Ledger}
    (hop : ledger.cancelRetirement id keyHash now = .persists next reply rollback) :
    next.Valid := by
  obtain ⟨current, record, hget, hstate, hkey, rfl, hrecord, rfl, -⟩ := cancelRetirement_persists hop
  have hid : current.id = id := InsertionMap.key_of_get? hget
  have hown : ledger.records.get? (restoredRecord current now).id = some current :=
    hid.symm ▸ hget
  refine h.replaceRecord hown hrecord rfl ?_ ?_ ?_
  · simp [LaunchRecord.keyHashes, restoredRecord]
  · intro hash hm
    simp only [LaunchRecord.keyHashes, restoredRecord, Option.toList_none, List.mem_cons,
      List.not_mem_nil, or_false] at hm
    exact .inl (hm ▸ List.mem_cons_self)
  · intro hretiring
    cases hretiring

end Ledger

/-- **Main**: what a permitted operation asks to write is a valid ledger again. -/
theorem LedgerOp.apply_valid {op : LedgerOp} {ledger next rollback : Ledger} {reply : LedgerReply}
    (h : ledger.Valid) (hpermitted : op.Permitted ledger)
    (hop : op.apply ledger = .persists next reply rollback) : next.Valid := by
  cases op with
  | reserve => exact h.reserve hpermitted hop
  | transition => exact h.transition hop
  | beginRetirement => exact h.beginRetirement hop
  | completeRetirement id now scope =>
    obtain ⟨current, _, hget, hstate, rfl, hentry, rfl, -⟩ := Ledger.completeRetirement_persists hop
    have hid : current.id = id := InsertionMap.key_of_get? hget
    exact h.completed (hid.symm ▸ hget) hstate hentry
  | completeRetirementCleanup id keyHash =>
    obtain ⟨cleanup, hget, -, rfl, -⟩ := Ledger.completeRetirementCleanup_persists hop
    have hid : cleanup.launchId = id := InsertionMap.key_of_get? hget
    subst hid
    exact h.completeCleanup hget
  | cancelRetirement => exact h.cancelRetirement hop

/-- The coordinator moves a record by `transition` only out of a state in which its launch is
    not decided. -/
def LedgerOp.ByCoordinator : LedgerOp → Prop
  | .transition _ expectedStates _ _ =>
    ∀ state ∈ expectedStates, state = .requested ∨ state = .creating ∨ state = .uncertain
  | _ => True

instance (op : LedgerOp) : Decidable op.ByCoordinator :=
  match op with
  | .transition _ expectedStates _ _ => inferInstanceAs (Decidable
      (∀ state ∈ expectedStates, state = .requested ∨ state = .creating ∨ state = .uncertain))
  | .reserve .. | .beginRetirement .. | .completeRetirement .. | .completeRetirementCleanup ..
  | .cancelRetirement .. => inferInstanceAs (Decidable True)

/-- A record that is replaced by a decided one, or was itself undecided, adds no undecided
    record. -/
theorem Ledger.pendingCount_set_le {ledger : Ledger} {c r : LaunchRecord}
    (hget : ledger.records.get? r.id = some c)
    (hpending : r.pending = true → c.pending = true) :
    (ledger.records.set r).values.countP LaunchRecord.pending ≤ ledger.pendingCount := by
  have hcount := Ledger.countP_set (p := LaunchRecord.pending) hget
  rw [Ledger.pendingCount]
  by_cases hr : r.pending = true
  · simp only [hr, hpending hr, if_true] at hcount
    omega
  · simp only [hr, Bool.false_eq_true, if_false] at hcount
    omega

/-- **Main**: an operation of the coordinator leaves at most 32 records undecided. -/
theorem LedgerOp.apply_pendingCount {op : LedgerOp} {ledger next rollback : Ledger}
    {reply : LedgerReply} (hle : ledger.pendingCount ≤ maxPending)
    (hpermitted : op.Permitted ledger) (hcoordinator : op.ByCoordinator)
    (hop : op.apply ledger = .persists next reply rollback) : next.pendingCount ≤ maxPending := by
  cases op with
  | reserve id attemptId keyHash signature request now =>
    obtain ⟨record, rfl, -, hpending, -, -, rfl, -⟩ := Ledger.reserve_persists hop
    have hnone : ledger.records.get? id = none :=
      InsertionMap.get?_eq_none_iff.mpr fun other ho heq =>
        hpermitted.1 (List.mem_append_left _ (heq ▸ List.mem_map_of_mem ho))
    have hvalues := InsertionMap.values_set_of_get?_none
      (v := Ledger.requestedRecord id attemptId keyHash signature request now) hnone
    rw [Ledger.pendingCount] at hpending ⊢
    rw [hvalues, List.countP_append, List.countP_singleton]
    split <;> omega
  | transition id expectedStates patch now =>
    obtain ⟨current, record, hget, hstate, hpatch, -, rfl, -⟩ := Ledger.transition_persists hop
    have hid : current.id = id := InsertionMap.key_of_get? hget
    refine (Ledger.pendingCount_set_le (c := current) ?_ fun _ => ?_).trans hle
    · rw [hpatch]
      exact hid.symm ▸ hget
    · rcases hcoordinator _ hstate with hs | hs | hs <;> simp [LaunchRecord.pending, hs]
  | beginRetirement id keyHash now =>
    obtain ⟨current, record, hget, -, -, -, rfl, -, rfl, -⟩ := Ledger.beginRetirement_persists hop
    have hid : current.id = id := InsertionMap.key_of_get? hget
    refine (Ledger.pendingCount_set_le (r := Ledger.retiringRecord current keyHash now)
      (hid.symm ▸ hget) fun hp => ?_).trans hle
    simp [LaunchRecord.pending, Ledger.retiringRecord] at hp
  | completeRetirement id now scope =>
    obtain ⟨current, _, -, -, -, -, rfl, -⟩ := Ledger.completeRetirement_persists hop
    exact ((ledger.records.delete_sublist current.id).countP_le).trans hle
  | completeRetirementCleanup id keyHash =>
    obtain ⟨cleanup, -, -, rfl, -⟩ := Ledger.completeRetirementCleanup_persists hop
    exact hle
  | cancelRetirement id keyHash now =>
    obtain ⟨current, record, hget, -, -, rfl, -, rfl, -⟩ := Ledger.cancelRetirement_persists hop
    have hid : current.id = id := InsertionMap.key_of_get? hget
    refine (Ledger.pendingCount_set_le (r := Ledger.restoredRecord current now)
      (hid.symm ▸ hget) fun hp => ?_).trans hle
    simp [LaunchRecord.pending, Ledger.restoredRecord] at hp

/-- Storing a record again and then the former one restores the records. -/
theorem Ledger.records_set_back {ledger : Ledger} {current r : LaunchRecord} {id : String}
    (hget : ledger.records.get? id = some current) (hid : r.id = id) :
    (ledger.records.set r).set current = ledger.records := by
  have hself : current.id = id := InsertionMap.key_of_get? hget
  rw [InsertionMap.set_set (hid.trans hself.symm)]
  exact InsertionMap.set_of_get?_some (hself.symm ▸ hget)

/-- **Main**: the rollback of an operation restores the ledger, up to the order of the records
    and of the cleanups. -/
theorem LedgerOp.apply_rollback {op : LedgerOp} {ledger next rollback : Ledger}
    {reply : LedgerReply} (hpermitted : op.Permitted ledger)
    (hop : op.apply ledger = .persists next reply rollback) :
    rollback.SameState ledger ∧
      rollback.compactCleanupEncoding = ledger.compactCleanupEncoding := by
  have hdeleted : ∀ {α : Type} {key : α → String} (m : InsertionMap key) {k : String} {v : α},
      m.get? k = some v → ((m.delete k).set v).values.Perm m.values := by
    intro α key m k v hget
    have hkey : key v = k := InsertionMap.key_of_get? hget
    have hnone : (m.delete k).get? (key v) = none := by
      rw [InsertionMap.get?_delete, if_pos hkey]
    rw [InsertionMap.values_set_of_get?_none hnone]
    exact (List.perm_append_singleton _ _).trans (InsertionMap.perm_cons_delete hget).symm
  cases op with
  | reserve id attemptId keyHash signature request now =>
    obtain ⟨record, rfl, -, -, -, -, rfl, -, rfl⟩ := Ledger.reserve_persists hop
    have hnone : ledger.records.get? id = none :=
      InsertionMap.get?_eq_none_iff.mpr fun other ho heq =>
        hpermitted.1 (List.mem_append_left _ (heq ▸ List.mem_map_of_mem ho))
    have hback := InsertionMap.delete_set_of_get?_none
      (v := Ledger.requestedRecord id attemptId keyHash signature request now) hnone
    exact ⟨⟨.of_eq (congrArg InsertionMap.values hback), rfl, .refl _⟩, rfl⟩
  | transition id expectedStates patch now =>
    obtain ⟨current, record, hget, -, hpatch, -, rfl, -, rfl⟩ := Ledger.transition_persists hop
    have hid : current.id = id := InsertionMap.key_of_get? hget
    have hback := Ledger.records_set_back (r := record) hget (by rw [hpatch]; exact hid)
    exact ⟨⟨.of_eq (congrArg InsertionMap.values hback), rfl, .refl _⟩, rfl⟩
  | beginRetirement id keyHash now =>
    obtain ⟨current, record, hget, -, -, -, rfl, -, rfl, -, rfl⟩ :=
      Ledger.beginRetirement_persists hop
    have hid : current.id = id := InsertionMap.key_of_get? hget
    have hback := Ledger.records_set_back (r := Ledger.retiringRecord current keyHash now) hget hid
    exact ⟨⟨.of_eq (congrArg InsertionMap.values hback), rfl, .refl _⟩, rfl⟩
  | completeRetirement id now scope =>
    obtain ⟨current, entry, hget, -, -, -, rfl, -, rfl⟩ := Ledger.completeRetirement_persists hop
    exact ⟨⟨hdeleted ledger.records hget, rfl, .refl _⟩, rfl⟩
  | completeRetirementCleanup id keyHash =>
    obtain ⟨cleanup, hget, -, rfl, -, rfl⟩ := Ledger.completeRetirementCleanup_persists hop
    exact ⟨⟨.refl _, rfl, hdeleted ledger.retirementCleanups hget⟩, rfl⟩
  | cancelRetirement id keyHash now =>
    obtain ⟨current, record, hget, -, -, rfl, -, rfl, -, rfl⟩ :=
      Ledger.cancelRetirement_persists hop
    have hid : current.id = id := InsertionMap.key_of_get? hget
    have hback := Ledger.records_set_back (r := Ledger.restoredRecord current now) hget hid
    exact ⟨⟨.of_eq (congrArg InsertionMap.values hback), rfl, .refl _⟩, rfl⟩

end AgentHost
