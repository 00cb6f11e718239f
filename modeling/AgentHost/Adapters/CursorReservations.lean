import AgentHost.Adapters.CursorFences
import AgentHost.Core.LedgerSize

namespace AgentHost

/-!
# Room for the retirement of an agent

`reserveRetirement` writes a record that is as long as any that the steps of its retirement make of
it, and is refused where the file would be too large then.

* `ProvenanceRecord.bytes_eq` — the bytes of a record by those of its members.
* `bytes_update` — what a step of a retirement writes is no longer than what it reads.
* `Timed` — every record of a file was updated in a year of four digits: all time stamps are equally
  long.
* `AfterReservation` — the stores in which a reserved retirement goes on.
* `reserved_retirement_fits` — **Main**: there, no step of the retirement is refused for the size of
  the file that it writes.
-/

/-! ### Sizes -/

/-- The bytes of a record by those of its members. -/
theorem ProvenanceRecord.bytes_eq (record : ProvenanceRecord) : record.toJson.bytes =
    10 + Json.bytes (.str record.state.text) +
      optionalBytes 13 .str record.attemptId + optionalBytes 12 .str record.launchId +
      optionalBytes 19 .str record.providerAgentId + optionalBytes 11 .str record.agentId +
      optionalBytes 10 .str record.target + optionalBytes 11 .str record.profile +
      optionalBytes 14 .str record.sdkVersion + optionalBytes 19 .str record.bridgeNamespace +
      optionalBytes 14 .str record.storeScope + optionalBytes 16 .str record.targetDigest +
      optionalBytes 9 .str record.runId + optionalBytes 14 .bool record.runPending +
      optionalBytes 24 .str record.cancelAttemptedRunId +
      optionalBytes 21 .str record.retirementKeyHash +
      optionalBytes 22 .bool record.retirementReserved +
      optionalBytes 19 .bool record.deleteAttempted + optionalBytes 13 .str record.createdAt +
      optionalBytes 13 .str record.updatedAt := by
  have hkeys : Json.byteLength (Json.quote "attemptId") = 11 ∧
      Json.byteLength (Json.quote "launchId") = 10 ∧
      Json.byteLength (Json.quote "providerAgentId") = 17 ∧
      Json.byteLength (Json.quote "agentId") = 9 ∧ Json.byteLength (Json.quote "target") = 8 ∧
      Json.byteLength (Json.quote "profile") = 9 ∧
      Json.byteLength (Json.quote "sdkVersion") = 12 ∧
      Json.byteLength (Json.quote "bridgeNamespace") = 17 ∧
      Json.byteLength (Json.quote "storeScope") = 12 ∧
      Json.byteLength (Json.quote "targetDigest") = 14 := by decide
  have hothers : Json.byteLength (Json.quote "runId") = 7 ∧
      Json.byteLength (Json.quote "runPending") = 12 ∧
      Json.byteLength (Json.quote "cancelAttemptedRunId") = 22 ∧
      Json.byteLength (Json.quote "retirementKeyHash") = 19 ∧
      Json.byteLength (Json.quote "retirementReserved") = 20 ∧
      Json.byteLength (Json.quote "deleteAttempted") = 17 ∧
      Json.byteLength (Json.quote "state") = 7 ∧ Json.byteLength (Json.quote "createdAt") = 11 ∧
      Json.byteLength (Json.quote "updatedAt") = 11 := by decide
  rw [ProvenanceRecord.toJson, Json.bytes_obj, Json.enclosedBytes_of_ne_nil (by simp)]
  simp only [List.map_append, List.map_map, Function.comp_def, List.sum_append,
    sum_optionalMember]
  simp only [List.map_cons, List.map_nil, List.sum_cons, List.sum_nil, Json.memberBytes, hkeys,
    hothers, Nat.reduceAdd]
  omega

/-- The bytes of a file by those of its records. -/
theorem ProvenanceFile.bytes_eq (records : List ProvenanceRecord) :
    (ProvenanceFile.mk stateSchemaVersion records).bytes =
      31 + Json.enclosedBytes (records.map fun record => record.toJson.bytes) := by
  have hversion : Json.memberBytes ("schemaVersion", .num stateSchemaVersion) = 17 := by decide
  have hkey : Json.byteLength (Json.quote "records") = 9 := by decide
  have hmember : Json.memberBytes ("records", .arr (records.map ProvenanceRecord.toJson)) =
      10 + Json.enclosedBytes (records.map fun record => record.toJson.bytes) := by
    rw [Json.memberBytes, Json.bytes_arr, List.map_map, hkey]
    rfl
  rw [ProvenanceFile.bytes, ProvenanceFile.toJson, Json.bytes_obj,
    Json.enclosedBytes_of_ne_nil (by simp)]
  simp only [List.map_cons, List.map_nil, List.sum_cons, List.sum_nil, hversion, hmember]
  omega

section

variable {parse : DateParse} {records next : ProvenanceRecords} {now : Timestamp}
  {reply : ProvenanceReply} {op : ProvenanceOp} {current updated record : ProvenanceRecord}
  {store after : ProvenanceStore} {fault : StoreFault} {result : ProvenanceResult}
  {a : String}

/-- A shorter record in the place of another one makes the file no longer. -/
theorem bytes_set_le (hget : records.get? record.attemptId = some current)
    (hbytes : record.toJson.bytes ≤ current.toJson.bytes) :
    (ProvenanceFile.mk stateSchemaVersion (records.set record).values).bytes ≤
      (ProvenanceFile.mk stateSchemaVersion records.values).bytes := by
  have hset := (InsertionMap.set_perm records record).map fun record => record.toJson.bytes
  have hold := (InsertionMap.perm_cons_delete hget).map fun record => record.toJson.bytes
  have hseparated : Json.separatedBytes
        ((records.set record).values.map fun record => record.toJson.bytes) ≤
      Json.separatedBytes (records.values.map fun record => record.toJson.bytes) := by
    rw [Json.separatedBytes_perm hset, Json.separatedBytes_perm hold]
    simp only [Json.separatedBytes, List.map_cons, List.sum_cons]
    omega
  have hle := Json.enclosedBytes_mono hseparated
  rw [ProvenanceFile.bytes_eq, ProvenanceFile.bytes_eq]
  omega

/-! ### Time stamps -/

/-- A record was updated in a year of four digits. -/
def ProvenanceRecord.Timed (record : ProvenanceRecord) : Prop :=
  ∃ now, FourDigitYear now ∧ record.updatedAt = some (IsoTime.toISOString now)

theorem ProvenanceRecord.Timed.bytes (h : record.Timed) :
    optionalBytes 13 .str record.updatedAt = 39 := by
  obtain ⟨now, hyear, hupdated⟩ := h
  rw [hupdated]
  show 13 + Json.bytes (.str (IsoTime.toISOString now)) = 39
  rw [hyear.bytes]

/-- The records that are written were all updated in a year of four digits. -/
def ProvenanceOutcome.Timed : ProvenanceOutcome → Prop
  | .persists next _ => ∀ record ∈ next.values, record.Timed
  | _ => True

/-- The input of an intent was created in a year of four digits. -/
def ProvenanceOp.Clocked : ProvenanceOp → Prop
  | .reserve input => ∃ now, FourDigitYear now ∧ input.createdAt = some (IsoTime.toISOString now)
  | _ => True

theorem monotonicTimestamp_timed (hcurrent : current.Timed) (hnow : FourDigitYear now)
    {updatedAt : Option String}
    (h : monotonicTimestamp parse current.updatedAt now = .ok updatedAt) :
    (updated.stamped updatedAt).Timed := by
  rw [monotonicTimestamp, timestamp] at h
  by_cases hrange : now.natAbs ≤ 8640000000000000
  · rw [if_pos hrange] at h
    change Except.ok (if parsesBefore parse (IsoTime.toISOString now)
      (current.updatedAt.getD "") then current.updatedAt else some _) = _ at h
    by_cases hbefore : parsesBefore parse (IsoTime.toISOString now)
        (current.updatedAt.getD "") = true
    · rw [if_pos hbefore] at h
      cases h
      exact hcurrent
    · rw [if_neg hbefore] at h
      cases h
      exact ⟨now, hnow, rfl⟩
  · rw [if_neg hrange] at h
    cases h

variable (hrecords : ∀ record ∈ records.values, record.Timed) (hnow : FourDigitYear now)
include hrecords hnow

theorem rewrite_timed {update : ProvenanceRecord → Except ProvenanceError ProvenanceRecord}
    (hcurrent : current.Timed) :
    (ProvenanceRecords.rewrite parse records now current update).Timed := by
  unfold ProvenanceRecords.rewrite
  split
  · trivial
  · trivial
  · next updatedAt updated hstamp _ =>
    dsimp only
    split
    · intro record hrecord
      rcases InsertionMap.mem_set.mp hrecord with rfl | hrecord
      · exact monotonicTimestamp_timed hcurrent hnow hstamp
      · exact hrecords record hrecord.1
    · trivial

theorem updateOwned_timed {attemptId : Option String}
    {update : ProvenanceRecord → Except ProvenanceError ProvenanceRecord} :
    (ProvenanceRecords.updateOwned parse records now attemptId update).Timed := by
  unfold ProvenanceRecords.updateOwned
  split
  · trivial
  · next current hget =>
    split
    · exact rewrite_timed hrecords hnow (hrecords current (InsertionMap.mem_of_get? hget))
    · trivial

theorem updateRetirement_timed {attemptId keyHash : Option String}
    {update : ProvenanceRecord → ProvenanceRecord} :
    (ProvenanceRecords.updateRetirement parse records now attemptId keyHash update).Timed := by
  unfold ProvenanceRecords.updateRetirement
  split
  · trivial
  · next current hget =>
    split
    · exact rewrite_timed hrecords hnow (hrecords current (InsertionMap.mem_of_get? hget))
    · trivial

/-- What an operation writes was updated in a year of four digits, where what it reads was. -/
theorem apply_timed (hop : op.Clocked) : (op.apply parse records now).Timed := by
  cases op with
  | reserve input =>
    simp only [ProvenanceOp.apply, ProvenanceRecords.reserve]
    split
    · split
      · split <;> trivial
      · split
        · trivial
        · intro record hrecord
          rcases InsertionMap.mem_set.mp hrecord with rfl | hrecord
          · exact hop
          · exact hrecords record hrecord.1
    · trivial
  | markOwned attemptId =>
    simp only [ProvenanceOp.apply, ProvenanceRecords.markOwned]
    split
    · trivial
    · next current hget =>
      exact rewrite_timed hrecords hnow (hrecords current (InsertionMap.mem_of_get? hget))
  | beginRun _ | restoreRun _ | restoreCancel _ _ | releaseRetirementReservation _ _ =>
    exact updateOwned_timed hrecords hnow
  | markDeleteAttempted _ _ | markRetired _ _ => exact updateRetirement_timed hrecords hnow
  | commitRun attemptId runId =>
    simp only [ProvenanceOp.apply, ProvenanceRecords.commitRun]
    split
    · exact updateOwned_timed hrecords hnow
    · trivial
  | beginCancel attemptId runId =>
    simp only [ProvenanceOp.apply, ProvenanceRecords.beginCancel]
    split
    · exact updateOwned_timed hrecords hnow
    · trivial
  | beginRetirement attemptId keyHash =>
    simp only [ProvenanceOp.apply, ProvenanceRecords.beginRetirement]
    split
    · exact updateOwned_timed hrecords hnow
    · trivial
  | reserveRetirement attemptId keyHash =>
    simp only [ProvenanceOp.apply, ProvenanceRecords.reserveRetirement]
    split
    · have howned : (ProvenanceRecords.updateOwned parse records now attemptId fun record =>
          if record.retirementKeyHash.isSome ∧ record.retirementKeyHash ≠ keyHash then
            .error .reservationChanged
          else .ok { record with
            retirementKeyHash := keyHash, retirementReserved := some true,
            deleteAttempted := some false }).Timed := updateOwned_timed hrecords hnow
      split
      · next houtcome =>
        rw [houtcome] at howned
        split
        · trivial
        · exact howned
      · exact howned
    · trivial
  | cancelRetirement attemptId keyHash =>
    simp only [ProvenanceOp.apply, ProvenanceRecords.cancelRetirement]
    split
    · trivial
    · next current hget =>
      split
      · exact rewrite_timed hrecords hnow (hrecords current (InsertionMap.mem_of_get? hget))
      · trivial
  | removeRetired attemptId keyHash =>
    simp only [ProvenanceOp.apply, ProvenanceRecords.removeRetired]
    split
    · trivial
    · split
      · exact fun record hrecord => hrecords record (InsertionMap.mem_delete.mp hrecord).1
      · trivial
  | get _ | snapshot => trivial

end

section

variable {parse : DateParse} {records next : ProvenanceRecords} {now : Timestamp}
  {reply : ProvenanceReply} {op : ProvenanceOp} {current updated record : ProvenanceRecord}
  {store after : ProvenanceStore} {fault : StoreFault} {result : ProvenanceResult}
  {a : String}

/-! ### The steps of a retirement -/

/-- A record is reserved for its retirement, or fenced by it. -/
def ProvenanceRecord.InRetirement (record : ProvenanceRecord) : Prop :=
  record.state = .owned ∧ record.retirementReserved = some true ∨ record.state = .retiring

instance (record : ProvenanceRecord) : Decidable record.InRetirement := by
  unfold ProvenanceRecord.InRetirement
  infer_instance

/-- The steps of the retirement of an attempt. -/
def ProvenanceOp.IsRetirementStep (a : String) : ProvenanceOp → Prop
  | .beginRetirement attemptId _ | .markDeleteAttempted attemptId _ | .markRetired attemptId _
  | .cancelRetirement attemptId _ | .releaseRetirementReservation attemptId _ => attemptId = some a
  | _ => False

/-- The record of a reserved retirement keeps its member `deleteAttempted` as long as it goes on. -/
theorem deleteAttempted_update (hcurrent : current.deleteAttempted.isSome = true)
    (h : op.Updates current updated) (hafter : updated.InRetirement) :
    updated.deleteAttempted.isSome = true := by
  cases op with
  | reserve _ | removeRetired _ _ | get _ | snapshot => exact h.elim
  | markOwned _ =>
    obtain rfl := h
    exact hcurrent
  | beginRun _ | restoreRun _ =>
    obtain ⟨-, rfl⟩ := h
    exact hcurrent
  | commitRun _ _ =>
    obtain ⟨-, -, rfl⟩ := h
    exact hcurrent
  | beginCancel _ _ =>
    obtain ⟨-, -, -, -, -, rfl⟩ := h
    exact hcurrent
  | restoreCancel _ _ =>
    obtain ⟨-, -, -, rfl⟩ := h
    exact hcurrent
  | reserveRetirement _ _ =>
    obtain ⟨-, -, -, rfl⟩ := h
    rfl
  | releaseRetirementReservation _ _ =>
    obtain ⟨howned, -, -, -, rfl⟩ := h
    obtain ⟨-, hreserved⟩ | hretiring := hafter
    · cases hreserved
    · exact absurd (howned.symm.trans hretiring) (by decide)
  | beginRetirement _ _ =>
    obtain ⟨-, -, -, rfl⟩ := h
    exact hcurrent
  | markDeleteAttempted _ _ =>
    obtain ⟨-, -, rfl⟩ := h
    rfl
  | markRetired _ _ =>
    obtain ⟨-, -, rfl⟩ := h
    obtain ⟨hstate, -⟩ | hstate := hafter <;> cases hstate
  | cancelRetirement _ _ =>
    obtain ⟨-, -, rfl⟩ := h
    obtain ⟨-, hreserved⟩ | hstate := hafter
    · cases hreserved
    · cases hstate

/-- A step of a reserved retirement writes a record that is no longer than the one it reads. -/
theorem bytes_update (hvalid : validateRecord parse current = true)
    (hcurrent : current.InRetirement) (hdelete : current.deleteAttempted.isSome = true)
    (hstep : op.IsRetirementStep a) (h : op.Updates current updated) {updatedAt : Option String}
    (htimed : current.Timed) (htimed' : (updated.stamped updatedAt).Timed) :
    (updated.stamped updatedAt).toJson.bytes ≤ current.toJson.bytes := by
  have hstates : Json.bytes (.str ProvenanceState.owned.text) = 7 ∧
      Json.bytes (.str ProvenanceState.retiring.text) = 10 ∧
      Json.bytes (.str ProvenanceState.retired.text) = 9 := by decide
  have hreserved : optionalBytes 22 .bool (some true) = 26 ∧
      optionalBytes 22 .bool none = 0 := by decide
  have hflags : optionalBytes 19 .bool (some true) = 23 ∧ optionalBytes 19 .bool none = 0 ∧
      optionalBytes 21 .str none = 0 := by decide
  have hflag : 23 ≤ optionalBytes 19 .bool current.deleteAttempted := by
    obtain ⟨flag, hsome⟩ := Option.isSome_iff_exists.mp hdelete
    rw [hsome]
    cases flag <;> decide
  have hstamp := htimed.bytes
  have hstamp' := htimed'.bytes
  rw [ProvenanceRecord.bytes_eq, ProvenanceRecord.bytes_eq, hstamp, hstamp']
  cases op with
  | beginRetirement _ keyHash =>
    obtain ⟨howned, -, hkey, rfl⟩ := h
    have hfree : current.retirementReserved = some true := by
      obtain ⟨-, hreserved⟩ | hretiring := hcurrent
      · exact hreserved
      · exact absurd (howned.symm.trans hretiring) (by decide)
    -- a reserved record has a key, and the step is refused for another one
    have hkeyHash : current.retirementKeyHash = keyHash := by
      obtain hnone | hsame := hkey
      · have hsome := (retirement_of_valid hvalid).1.mpr (.inr (.inr hfree))
        rw [hnone] at hsome
        cases hsome
      · exact hsame
    simp only [ProvenanceRecord.stamped, howned, hfree, hkeyHash, hstates, hreserved]
    omega
  | markDeleteAttempted _ _ =>
    obtain ⟨-, -, rfl⟩ := h
    simp only [ProvenanceRecord.stamped, hflags]
    omega
  | markRetired _ _ =>
    obtain ⟨hretiring, -, rfl⟩ := h
    simp only [ProvenanceRecord.stamped, hretiring, hstates, hflags]
    omega
  | cancelRetirement _ _ =>
    obtain ⟨hstate, -, rfl⟩ := h
    have hlength : 7 ≤ Json.bytes (.str current.state.text) := by
      obtain hstate | hstate := hstate <;> rw [hstate] <;> decide
    simp only [ProvenanceRecord.stamped, hstates, hreserved, hflags]
    omega
  | releaseRetirementReservation _ _ =>
    obtain ⟨-, -, -, -, rfl⟩ := h
    simp only [ProvenanceRecord.stamped, hreserved, hflags]
    omega
  | _ => exact hstep.elim

/-! ### Runs -/

/-- The records that are loaded are valid, and those of the file. -/
theorem loaded_of_load (h : loadProvenance parse store.privateState store.file = .ok records) :
    (∀ record ∈ records.values, validateRecord parse record = true) ∧
      (store.file = none ∧ records = .empty ∨
        store.file.map ProvenanceFile.records = some records.values) := by
  unfold loadProvenance at h
  split at h
  · next hfile =>
    cases h
    exact ⟨fun _ hmem => absurd hmem List.not_mem_nil, .inl ⟨hfile, rfl⟩⟩
  · next file hfile =>
    split at h
    · cases h
    split at h
    · cases h
    split at h
    · cases h
    next hvalid =>
    split at h
    · cases h
    next hnodup =>
    cases h
    rw [not_or, Decidable.not_not] at hnodup
    have hvalues := InsertionMap.values_ofValues hnodup.1
    refine ⟨fun record hmem => ?_, .inr ?_⟩
    · rw [hvalues] at hmem
      by_contra hinvalid
      exact hvalid (List.any_eq_true.mpr ⟨record, hmem, by simpa using hinvalid⟩)
    · rw [hfile, hvalues]
      rfl

/-- The file fits, and its records were all updated in a year of four digits. -/
structure ProvenanceStore.Sized (store : ProvenanceStore) : Prop where
  bytes : ∀ file ∈ store.file, file.bytes ≤ store.privateState.maxBytes
  timed : ∀ file ∈ store.file, ∀ record ∈ file.records, record.Timed
  version : ∀ file ∈ store.file, file.schemaVersion = stateSchemaVersion

theorem ProvenanceStore.Sized.loaded (h : store.Sized)
    (hload : loadProvenance parse store.privateState store.file = .ok records) :
    ∀ record ∈ records.values, record.Timed := by
  obtain ⟨-, ⟨-, rfl⟩ | hfile⟩ := loaded_of_load hload
  · exact fun _ hmem => absurd hmem List.not_mem_nil
  · obtain ⟨file, hfile, hrecords⟩ := Option.map_eq_some_iff.mp hfile
    rw [← hrecords]
    exact h.timed file hfile

/-- What an operation has decided where it has replaced the file. -/
theorem perform_outcome (hload : loadProvenance parse store.privateState store.file = .ok records)
    (h : store.perform parse op now fault = (after, result)) :
    after = store ∨ ∃ next reply, op.apply parse records now = .persists next reply ∧
      (ProvenanceFile.mk stateSchemaVersion next.values).bytes ≤ store.privateState.maxBytes ∧
      after = store.replace ⟨stateSchemaVersion, next.values⟩ := by
  unfold ProvenanceStore.perform at h
  rw [hload] at h
  dsimp only at h
  split at h
  · cases h
    exact .inl rfl
  · cases h
    exact .inl rfl
  · next next reply hpersists =>
    unfold ProvenanceStore.save at h
    dsimp only at h
    split at h
    · cases h
      exact .inl rfl
    · next hbytes =>
      cases fault with
      | unwritten =>
        cases h
        exact .inl rfl
      | none | unconfirmed =>
        cases h
        exact .inr ⟨next, reply, hpersists, Nat.le_of_not_lt hbytes, rfl⟩

/-- An operation on a clock in a year of four digits keeps the file within its limit. -/
theorem ProvenanceStore.Sized.perform (h : store.Sized) (hop : op.Clocked)
    (hnow : FourDigitYear now) (hperform : store.perform parse op now fault = (after, result)) :
    after.Sized := by
  cases hload : loadProvenance parse store.privateState store.file with
  | error error =>
    rw [ProvenanceStore.perform, hload] at hperform
    obtain rfl : store = after := congrArg Prod.fst hperform
    exact h
  | ok records =>
    have htimed : (op.apply parse records now).Timed := apply_timed (h.loaded hload) hnow hop
    obtain rfl | ⟨next, reply, hpersists, hbytes, rfl⟩ := perform_outcome hload hperform
    · exact h
    · rw [hpersists] at htimed
      refine ⟨fun file hfile => ?_, fun file hfile => ?_, fun file hfile => ?_⟩ <;>
        obtain rfl := Option.some.inj hfile
      · exact hbytes
      · exact htimed
      · rfl

/-- The step of a run: an operation, the clock while it runs and what the private state does. -/
abbrev ProvenanceEvent := ProvenanceOp × Timestamp × StoreFault

/-- Clocks show years of four digits, also where an intent was created. -/
def ProvenanceEvent.Clocked (e : ProvenanceEvent) : Prop := e.1.Clocked ∧ FourDigitYear e.2.1

theorem sized_of_reachable
    (h : (provenanceStore parse).ReachableWhile (fun _ e => ProvenanceEvent.Clocked e) store) :
    store.Sized := by
  refine h.invariant ?_ ?_
  · rintro store ⟨hfile, -⟩
    refine ⟨?_, ?_, ?_⟩ <;> rw [hfile] <;> exact fun _ hnone => by cases hnone
  · intro store e after hsized hclocked hstep
    obtain rfl := Option.some.inj hstep
    exact hsized.perform hclocked.1 hclocked.2 rfl

/-- The stores in which a retirement that was reserved goes on: whatever is done since then, on the
record of the attempt and on others, that record stays reserved or fenced. -/
inductive AfterReservation (parse : DateParse) (a : String) : ProvenanceStore → Prop
  | reserved {store after : ProvenanceStore} {keyHash : Option String} {now : Timestamp}
      {fault : StoreFault} {reply : ProvenanceReply} :
      (provenanceStore parse).ReachableWhile (fun _ e => ProvenanceEvent.Clocked e) store →
      FourDigitYear now →
      store.perform parse (.reserveRetirement (some a) keyHash) now fault =
        (after, .replied reply) →
      AfterReservation parse a after
  | step {store after : ProvenanceStore} {e : ProvenanceEvent} {record : ProvenanceRecord} :
      AfterReservation parse a store → e.Clocked →
      (provenanceStore parse).step store e = some after →
      after.record? a = some record → record.InRetirement → AfterReservation parse a after

/-- What holds as long as a reserved retirement goes on. -/
theorem AfterReservation.holds (h : AfterReservation parse a store) :
    store.Sized ∧ ∃ record, store.record? a = some record ∧ record.InRetirement ∧
      record.deleteAttempted.isSome = true := by
  induction h with
  | @reserved store after keyHash now fault reply hreachable hnow hperform =>
    have hclocked : (ProvenanceOp.reserveRetirement (some a) keyHash).Clocked := trivial
    refine ⟨(sized_of_reachable hreachable).perform hclocked hnow hperform, ?_⟩
    obtain ⟨current, updated, updatedAt, -, ⟨howned, -, -, rfl⟩, hrecord, -⟩ :=
      ProvenanceStore.perform_replied rfl rfl hperform
    exact ⟨_, hrecord, .inl ⟨howned, rfl⟩, rfl⟩
  | @step store after e record _ hclocked hstep hrecord hretirement ih =>
    obtain ⟨hsized, before, hbefore, -, hdelete⟩ := ih
    obtain rfl := Option.some.inj hstep
    refine ⟨hsized.perform hclocked.1 hclocked.2 rfl, record, hrecord, hretirement, ?_⟩
    have hperform : store.perform parse e.1 e.2.1 e.2.2 =
        ((store.perform parse e.1 e.2.1 e.2.2).1, (store.perform parse e.1 e.2.1 e.2.2).2) := rfl
    have hchange := (ProvenanceStore.perform_record hperform a).2
    rw [hbefore, hrecord] at hchange
    cases hchange with
    | same => exact hdelete
    | update _ updated _ hupdates =>
      have hupdated : updated.InRetirement := hretirement
      have hkept := deleteAttempted_update hdelete hupdates hupdated
      exact hkept

theorem rewrite_ne_tooLarge {update : ProvenanceRecord → Except ProvenanceError ProvenanceRecord}
    (hupdate : update current ≠ .error .tooLarge) :
    ProvenanceRecords.rewrite parse records now current update ≠ .throws .tooLarge := by
  unfold ProvenanceRecords.rewrite
  intro h
  split at h
  · next error herror =>
    cases h
    rw [monotonicTimestamp, timestamp] at herror
    split at herror <;> cases herror
  · next error herror =>
    cases h
    exact hupdate herror
  · dsimp only at h
    split at h <;> cases h

theorem updateOwned_ne_tooLarge {attemptId : Option String}
    {update : ProvenanceRecord → Except ProvenanceError ProvenanceRecord}
    (hupdate : ∀ current, update current ≠ .error .tooLarge) :
    ProvenanceRecords.updateOwned parse records now attemptId update ≠ .throws .tooLarge := by
  unfold ProvenanceRecords.updateOwned
  intro h
  split at h
  · cases h
  · split at h
    · exact rewrite_ne_tooLarge (hupdate _) h
    · cases h

theorem updateRetirement_ne_tooLarge {attemptId keyHash : Option String}
    {update : ProvenanceRecord → ProvenanceRecord} :
    ProvenanceRecords.updateRetirement parse records now attemptId keyHash update
      ≠ .throws .tooLarge := by
  unfold ProvenanceRecords.updateRetirement
  intro h
  split at h
  · cases h
  · split at h
    · exact rewrite_ne_tooLarge (fun hok => by cases hok) h
    · cases h

/-- The steps of a retirement do not check the size of what they write. -/
theorem apply_ne_tooLarge (hstep : op.IsRetirementStep a) :
    op.apply parse records now ≠ .throws .tooLarge := by
  cases op with
  | beginRetirement attemptId keyHash =>
    simp only [ProvenanceOp.apply, ProvenanceRecords.beginRetirement]
    split
    · refine updateOwned_ne_tooLarge fun current => ?_
      split <;> exact fun h => by cases h
    · exact fun h => by cases h
  | releaseRetirementReservation attemptId keyHash =>
    refine updateOwned_ne_tooLarge fun current => ?_
    split <;> exact fun h => by cases h
  | markDeleteAttempted _ _ | markRetired _ _ => exact updateRetirement_ne_tooLarge
  | cancelRetirement attemptId keyHash =>
    simp only [ProvenanceOp.apply, ProvenanceRecords.cancelRetirement]
    split
    · exact fun h => by cases h
    · split
      · exact rewrite_ne_tooLarge fun h => by cases h
      · exact fun h => by cases h
  | _ => exact hstep.elim

/-- A file that fits is not refused for its size. -/
theorem load_ne_tooLarge (h : store.Sized) :
    loadProvenance parse store.privateState store.file ≠ .error .tooLarge := by
  unfold loadProvenance
  split
  · exact fun h => by cases h
  · next file hfile =>
    have hbytes := h.bytes file hfile
    have hlimit := store.privateState.atMostDefault
    rw [if_neg (by rw [maxStateBytes]; omega)]
    split
    · exact fun h => by cases h
    split
    · exact fun h => by cases h
    split <;> exact fun h => by cases h

/-- **Main.** While a reserved retirement goes on, every file that one of its steps decides on has
room, and no step is refused for its size. -/
theorem reserved_retirement_fits (h : AfterReservation parse a store)
    (hstep : op.IsRetirementStep a) (hnow : FourDigitYear now) :
    (∀ records next reply, loadProvenance parse store.privateState store.file = .ok records →
      op.apply parse records now = .persists next reply →
        (ProvenanceFile.mk stateSchemaVersion next.values).bytes ≤ maxStateBytes ∧
        (ProvenanceFile.mk stateSchemaVersion next.values).bytes ≤ store.privateState.maxBytes) ∧
    ∀ fault, (store.perform parse op now fault).2 ≠ .refused .tooLarge ∧
      ∀ file ∈ (store.perform parse op now fault).1.file, file.bytes ≤ maxStateBytes := by
  obtain ⟨hsized, record, hrecord, hretirement, hdelete⟩ := h.holds
  have hclocked : op.Clocked := by
    cases op with
    | reserve _ => exact hstep.elim
    | _ => trivial
  have hfits : ∀ records next reply,
      loadProvenance parse store.privateState store.file = .ok records →
      op.apply parse records now = .persists next reply →
        (ProvenanceFile.mk stateSchemaVersion next.values).bytes ≤ store.privateState.maxBytes := by
    intro records next reply hload hpersists
    obtain ⟨hvalid, hfile⟩ := loaded_of_load hload
    have hafter : (op.apply parse records now).Timed :=
      apply_timed (hsized.loaded hload) hnow hclocked
    rw [hpersists] at hafter
    have hget : records.get? (some a) = some record :=
      (ProvenanceStore.record?_of_load hload a).symm.trans hrecord
    have hattempt : op.attemptId = some a := by
      cases op with
      | beginRetirement _ _ | markDeleteAttempted _ _ | markRetired _ _ | cancelRetirement _ _
      | releaseRetirementReservation _ _ => exact hstep
      | _ => exact hstep.elim
    have hread : (ProvenanceFile.mk stateSchemaVersion records.values).bytes ≤
        store.privateState.maxBytes := by
      obtain ⟨-, rfl⟩ | hfile := hfile
      · cases hget
      · obtain ⟨file, hfile, hrecords⟩ := Option.map_eq_some_iff.mp hfile
        rw [← hrecords, ← hsized.version file hfile]
        exact hsized.bytes file hfile
    cases apply_persists hpersists with
    | reserve input heq => rw [heq] at hstep; exact hstep.elim
    | remove attemptId keyHash removed heq => rw [heq] at hstep; exact hstep.elim
    | update current updated updatedAt hcurrent hupdates hupdated =>
      obtain rfl : record = current :=
        Option.some.inj (hget.symm.trans (hattempt ▸ hcurrent))
      have hmem := InsertionMap.mem_of_get? hget
      have hkey : (updated.stamped updatedAt).attemptId = some a :=
        (hupdates.identities.1.trans (InsertionMap.key_of_get? hcurrent)).trans hattempt
      have hshorter := bytes_update (hvalid record hmem) hretirement hdelete hstep hupdates
        (hsized.loaded hload record hmem) (hafter _ (InsertionMap.mem_set_self records _))
      exact (bytes_set_le (hkey ▸ hget) hshorter).trans hread
  have hlimit := store.privateState.atMostDefault
  refine ⟨fun records next reply hload hpersists => ?_, fun fault => ⟨fun hrefused => ?_, ?_⟩⟩
  · have hbytes := hfits records next reply hload hpersists
    exact ⟨hbytes.trans hlimit, hbytes⟩
  · unfold ProvenanceStore.perform at hrefused
    split at hrefused
    · next error herror =>
      obtain rfl : error = .tooLarge := ProvenanceResult.refused.inj hrefused
      exact load_ne_tooLarge hsized herror
    · next records hload =>
      split at hrefused
      · next error herror =>
        obtain rfl : error = .tooLarge := ProvenanceResult.refused.inj hrefused
        exact apply_ne_tooLarge hstep herror
      · split at hrefused <;> cases hrefused
      · next next reply hpersists =>
        unfold ProvenanceStore.save at hrefused
        dsimp only at hrefused
        rw [if_neg (Nat.not_lt.mpr (hfits records next reply hload hpersists))] at hrefused
        cases fault <;> cases hrefused
  · intro file hfile
    have hafter : (store.perform parse op now fault).1.Sized := hsized.perform hclocked hnow rfl
    exact (hafter.bytes file hfile).trans (ProvenanceStore.privateState _).atMostDefault

end

/-- An agent that was reserved for its retirement and fenced. -/
theorem reserved_retirement_fits_fenced : ∃ parse a, ∃ store : ProvenanceStore,
    AfterReservation parse a store ∧ ∀ keyHash fault,
      (store.perform parse (.markDeleteAttempted (some a) keyHash) 1756080000000 fault).2
        ≠ .refused .tooLarge := by
  let attempt := "attempt:0f8fad5b-d9cb-469f-a165-70867728950e"
  let key := "BBBBBBBBBBBBBBBBBBBBBBBBBBBBBBBBBBBBBBBBBBB"
  let parse : DateParse := fun text =>
    if text = "2025-08-25T00:00:00.000Z" then some 1756080000000 else none
  let intent : ProvenanceRecord := {
    attemptId := some attempt
    launchId := some "launch:7c9e6679-7425-40de-944b-e07fc1f90ae7"
    providerAgentId := some "agent_1"
    agentId := some "cursor-sdk:1"
    target := some "repo"
    profile := some "default"
    sdkVersion := some "1.0.28"
    bridgeNamespace := some "sdkv1"
    storeScope := some "AAAAAAAAAAAAAAAA"
    targetDigest := some "AAAAAAAAAAAAAAAAAAAAAAAAAAAAAAAAAAAAAAAAAAA"
    createdAt := some "2025-08-25T00:00:00.000Z" }
  let empty : ProvenanceStore := { privateState := ⟨1000000, by decide, by decide⟩ }
  let created := (empty.perform parse (.reserve intent) 1756080000000 .none).1
  let owned := (created.perform parse (.markOwned (some attempt)) 1756080000000 .none).1
  let reservation := owned.perform parse (.reserveRetirement (some attempt) (some key))
    1756080000000 .none
  let fenced := (reservation.1.perform parse (.beginRetirement (some attempt) (some key))
    1756080000000 .none).1
  have hyear : FourDigitYear 1756080000000 := by decide
  have hcreated : (provenanceStore parse).ReachableWhile (fun _ e => ProvenanceEvent.Clocked e)
      created :=
    .step (e := (.reserve intent, 1756080000000, .none)) (.init ⟨rfl, rfl⟩)
      ⟨⟨1756080000000, hyear, by decide +kernel⟩, hyear⟩ rfl
  have howned : (provenanceStore parse).ReachableWhile (fun _ e => ProvenanceEvent.Clocked e)
      owned :=
    hcreated.step (e := (.markOwned (some attempt), 1756080000000, .none)) ⟨trivial, hyear⟩ rfl
  have hreplied : ∃ reply, reservation = (reservation.1, .replied reply) := by
    have hreply : (match reservation.2 with
      | .replied _ => true
      | _ => false) = true := by decide +kernel
    generalize reservation = outcome at hreply
    obtain ⟨after, result⟩ := outcome
    cases result with
    | replied reply => exact ⟨reply, rfl⟩
    | refused _ | failed => cases hreply
  obtain ⟨reply, hreservation⟩ := hreplied
  have hreserved : AfterReservation parse attempt reservation.1 :=
    .reserved howned hyear hreservation
  have hfenced : ∃ record, fenced.record? attempt = some record ∧ record.InRetirement := by
    have hany : (fenced.record? attempt).any (fun record => record.InRetirement) = true := by
      decide +kernel
    cases hrecord : fenced.record? attempt with
    | none => rw [hrecord] at hany; cases hany
    | some record =>
      rw [hrecord] at hany
      exact ⟨record, rfl, of_decide_eq_true hany⟩
  obtain ⟨record, hrecord, hretirement⟩ := hfenced
  have hgoesOn : AfterReservation parse attempt fenced :=
    hreserved.step (e := (.beginRetirement (some attempt) (some key), 1756080000000, .none))
      ⟨trivial, hyear⟩ rfl hrecord hretirement
  refine ⟨parse, attempt, fenced, hgoesOn, fun keyHash fault => ?_⟩
  have hstep : (ProvenanceOp.markDeleteAttempted (some attempt) keyHash).IsRetirementStep attempt :=
    rfl
  exact ((reserved_retirement_fits hgoesOn hstep hyear).2 fault).1

end AgentHost
