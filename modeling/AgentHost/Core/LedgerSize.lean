import AgentHost.Core.LaunchLedger

namespace AgentHost

/-!
# The size of the ledger document

The bytes of a document as a function of the bytes of its entries, and the part the time
stamps have in these.

* `contentBytes` — the bytes of a document whose entries have the given sizes.
* `FourDigitYear` — the time values whose texts are all equally long.
-/

/-! ### Documents -/

/-- The bytes of a document of the current schema, by the sizes of its entries. -/
def contentBytes (records : List Nat) (retirements cleanups : Option (List Nat)) : Nat :=
  31 + Json.enclosedBytes records + retirements.elim 0 (fun ws => 15 + Json.enclosedBytes ws) +
    cleanups.elim 0 (fun ws => 22 + Json.enclosedBytes ws)

def recordBytes (record : LaunchRecord) : Nat := record.toJson.bytes

def retirementBytes (entry : Retirement) : Nat := entry.toJson.bytes

def cleanupBytes (cleanup : RetirementCleanup) : Nat := cleanup.toJson.bytes

theorem LedgerDocument.bytes_eq {document : LedgerDocument}
    (h : document.schemaVersion = ledgerSchemaVersion) :
    document.bytes = contentBytes (document.records.map recordBytes)
      (document.retirements.map (List.map retirementBytes))
      (document.retirementCleanups.map (List.map cleanupBytes)) := by
  have hversion : Json.memberBytes ("schemaVersion", .num ledgerSchemaVersion) = 17 := by decide
  have hkeys : Json.byteLength (Json.quote "records") = 9 ∧
      Json.byteLength (Json.quote "retirements") = 13 ∧
      Json.byteLength (Json.quote "retirementCleanups") = 20 := by decide
  have hmembers : ∀ {α : Type} (name : String) (encode : α → Json) (entries : List α),
      Json.memberBytes (name, .arr (entries.map encode)) =
        Json.byteLength (Json.quote name) + 1 +
          Json.enclosedBytes (entries.map fun e => (encode e).bytes) := by
    intro α name encode entries
    rw [Json.memberBytes, Json.bytes_arr, List.map_map]
    rfl
  have hsizes : (fun record : LaunchRecord => record.toJson.bytes) = recordBytes ∧
      (fun entry : Retirement => entry.toJson.bytes) = retirementBytes ∧
      (fun cleanup : RetirementCleanup => cleanup.toJson.bytes) = cleanupBytes := ⟨rfl, rfl, rfl⟩
  unfold LedgerDocument.bytes LedgerDocument.toJson contentBytes
  rw [Json.bytes_obj, Json.enclosedBytes_of_ne_nil (by simp), h]
  cases document.retirements <;> cases document.retirementCleanups <;>
    simp only [optionalMember, List.append_nil, List.map_append, List.map_cons, List.map_nil,
      List.sum_append, List.sum_cons, List.sum_nil, hversion, hmembers, hkeys, Option.map_none,
      Option.map_some, Option.elim_none, Option.elim_some, hsizes] <;>
    omega

/-! ### Entries -/

/-- The bytes an optional member adds. -/
def optionalBytes {β : Type} (header : Nat) (encode : β → Json) (value : Option β) : Nat :=
  value.elim 0 fun v => header + Json.bytes (encode v)

theorem sum_optionalMember {β : Type} (name : String) (encode : β → Json) (value : Option β) :
    ((optionalMember name encode value).map fun m => Json.memberBytes m + 1).sum =
      optionalBytes (Json.byteLength (Json.quote name) + 2) encode value := by
  cases value with
  | none => rfl
  | some v =>
    simp only [optionalMember, optionalBytes, List.map_cons, List.map_nil, List.sum_cons,
      List.sum_nil, Json.memberBytes, Option.elim_some]
    omega

theorem requestBytes_eq (request : LaunchRequest) : request.toJson.bytes =
    71 + Json.bytes (.str request.provider) + Json.bytes (.str request.target) +
      Json.bytes (.str request.profile) + Json.bytes (.str request.mode) +
      request.risk.toJson.bytes + Json.bytes (.str request.capabilityVersion) := by
  have hkeys : Json.byteLength (Json.quote "provider") = 10 ∧
      Json.byteLength (Json.quote "target") = 8 ∧ Json.byteLength (Json.quote "profile") = 9 ∧
      Json.byteLength (Json.quote "mode") = 6 ∧ Json.byteLength (Json.quote "risk") = 6 ∧
      Json.byteLength (Json.quote "capabilityVersion") = 19 := by decide
  rw [LaunchRequest.toJson, Json.bytes_obj, Json.enclosedBytes_of_ne_nil (by simp)]
  simp only [List.map_cons, List.map_nil, List.sum_cons, List.sum_nil, Json.memberBytes, hkeys]
  omega

/-- The bytes of a record by those of its fields. -/
theorem recordBytes_eq (record : LaunchRecord) : recordBytes record =
    92 + Json.bytes (.str record.id) + Json.bytes (.str record.attemptId) +
      Json.bytes (.str record.keyHash) + Json.bytes (.str record.signature) +
      record.request.toJson.bytes + Json.bytes (.str record.state.text) +
      Json.bytes (.str (IsoTime.toISOString record.requestedAt)) +
      Json.bytes (.str (IsoTime.toISOString record.updatedAt)) +
      optionalBytes 19 .str record.providerAgentId + optionalBytes 11 .str record.agentId +
      optionalBytes 9 LaunchError.toJson record.error +
      optionalBytes 21 .str record.retirementKeyHash := by
  have hkeys : Json.byteLength (Json.quote "id") = 4 ∧
      Json.byteLength (Json.quote "attemptId") = 11 ∧
      Json.byteLength (Json.quote "keyHash") = 9 ∧
      Json.byteLength (Json.quote "signature") = 11 ∧
      Json.byteLength (Json.quote "request") = 9 ∧ Json.byteLength (Json.quote "state") = 7 ∧
      Json.byteLength (Json.quote "requestedAt") = 13 ∧
      Json.byteLength (Json.quote "updatedAt") = 11 ∧
      Json.byteLength (Json.quote "providerAgentId") = 17 ∧
      Json.byteLength (Json.quote "agentId") = 9 ∧ Json.byteLength (Json.quote "error") = 7 ∧
      Json.byteLength (Json.quote "retirementKeyHash") = 19 := by decide
  rw [recordBytes, LaunchRecord.toJson, Json.bytes_obj, Json.enclosedBytes_of_ne_nil (by simp)]
  simp only [List.map_append, List.map_map, Function.comp_def, List.sum_append, sum_optionalMember]
  simp only [List.map_cons, List.map_nil, List.sum_cons, List.sum_nil, Json.memberBytes, hkeys,
    Nat.reduceAdd]
  omega

/-- The bytes of a tombstone by those of its fields. -/
theorem retirementBytes_eq (entry : Retirement) : retirementBytes entry =
    120 + Json.bytes (.str entry.launchId) + Json.bytes (.str entry.attemptId) +
      Json.bytes (.str entry.provider) + Json.bytes (.str entry.keyHash) +
      Json.bytes (.str entry.creationKeyHash) + Json.bytes (.str entry.signature) +
      entry.request.toJson.bytes + Json.bytes (.str (IsoTime.toISOString entry.requestedAt)) +
      Json.bytes (.str (IsoTime.toISOString entry.retiredAt)) +
      optionalBytes 16 .str entry.cleanupScope := by
  have hkeys : Json.byteLength (Json.quote "launchId") = 10 ∧
      Json.byteLength (Json.quote "attemptId") = 11 ∧
      Json.byteLength (Json.quote "provider") = 10 ∧
      Json.byteLength (Json.quote "keyHash") = 9 ∧
      Json.byteLength (Json.quote "creationKeyHash") = 17 ∧
      Json.byteLength (Json.quote "signature") = 11 ∧
      Json.byteLength (Json.quote "request") = 9 ∧
      Json.byteLength (Json.quote "requestedAt") = 13 ∧
      Json.byteLength (Json.quote "retiredAt") = 11 ∧
      Json.byteLength (Json.quote "cleanupScope") = 14 := by decide
  rw [retirementBytes, Retirement.toJson, Json.bytes_obj, Json.enclosedBytes_of_ne_nil (by simp)]
  simp only [List.map_append, List.map_map, Function.comp_def, List.sum_append, sum_optionalMember]
  simp only [List.map_cons, List.map_nil, List.sum_cons, List.sum_nil, Json.memberBytes, hkeys,
    Nat.reduceAdd]
  omega

/-! ### Time stamps -/

/-- The text of a time value has a year of four digits. -/
def FourDigitYear (now : Timestamp) : Prop := 0 ≤ IsoTime.year now ∧ IsoTime.year now ≤ 9999

instance (now : Timestamp) : Decidable (FourDigitYear now) := by
  unfold FourDigitYear
  infer_instance

/-- All such texts are equally long. -/
theorem FourDigitYear.bytes {now : Timestamp} (h : FourDigitYear now) :
    Json.bytes (.str (IsoTime.toISOString now)) = 26 := by
  unfold FourDigitYear at h
  rw [IsoTime.bytes_toISOString, if_pos h]

theorem le_laterTimestamp (previous candidate : Timestamp) :
    previous ≤ laterTimestamp previous candidate := by
  unfold laterTimestamp
  split
  · exact le_rfl
  · next h => exact not_lt.mp h

/-- The stamps of a record satisfy a condition. -/
def LaunchRecord.StampsAll (P : Timestamp → Prop) (record : LaunchRecord) : Prop :=
  P record.requestedAt ∧ P record.updatedAt

/-- The stamps of a tombstone satisfy a condition. -/
def Retirement.StampsAll (P : Timestamp → Prop) (entry : Retirement) : Prop :=
  P entry.requestedAt ∧ P entry.retiredAt

/-- Every stamp of a ledger satisfies a condition. -/
structure Ledger.StampsAll (P : Timestamp → Prop) (ledger : Ledger) : Prop where
  records : ∀ record ∈ ledger.records.values, record.StampsAll P
  retirements : ∀ entry ∈ ledger.retirements.values, entry.StampsAll P

/-! ### The projection of the pending retirements -/

/-- The tombstones a projection chooses from. -/
def Ledger.candidates (ledger : Ledger) : List Retirement :=
  ledger.retirements.values ++ ledger.retiring.map projectedEntry

theorem projectRetirementCompletions_records (ledger : Ledger) {record : LaunchRecord}
    (h : record ∈ (projectRetirementCompletions ledger).records.values) :
    record ∈ ledger.records.values := by
  rw [projectRetirementCompletions, InsertionMap.values_deleteAll] at h
  exact List.mem_of_mem_filter h

theorem projectRetirementCompletions_retirements (ledger : Ledger) {entry : Retirement}
    (h : entry ∈ (projectRetirementCompletions ledger).retirements.values) :
    entry ∈ ledger.candidates :=
  (List.mem_insertionSort _).mp (List.mem_of_mem_take (InsertionMap.mem_of_mem_ofValues h))

theorem laterTimestamp_self (now : Timestamp) : laterTimestamp now now = now := by
  simp [laterTimestamp]

theorem Ledger.StampsAll.candidates {P : Timestamp → Prop} {ledger : Ledger}
    (h : ledger.StampsAll P) : ∀ entry ∈ ledger.candidates, entry.StampsAll P := by
  intro entry he
  rcases List.mem_append.mp he with he | he
  · exact h.retirements entry he
  · obtain ⟨record, hr, rfl⟩ := List.mem_map.mp he
    have hrecord := h.records record (List.mem_of_mem_filter hr)
    exact ⟨hrecord.1, by
      rw [projectedEntry, retirementEntry, laterTimestamp_self]
      exact hrecord.2⟩

theorem Ledger.StampsAll.projected {P : Timestamp → Prop} {ledger : Ledger}
    (h : ledger.StampsAll P) : (projectRetirementCompletions ledger).StampsAll P where
  records := fun record hr => h.records record (projectRetirementCompletions_records ledger hr)
  retirements := fun entry he =>
    h.candidates entry (projectRetirementCompletions_retirements ledger he)

end AgentHost
