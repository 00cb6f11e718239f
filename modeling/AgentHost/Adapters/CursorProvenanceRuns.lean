import AgentHost.Adapters.CursorProvenance

namespace AgentHost

/-!
# The provenance store over whole runs

* `Standing` — what a record stands for: an intent, an owned agent with or without a reservation of
  its retirement, a fenced one, a retired one; `ProvenanceOp.Changes` is what an operation may make
  of it.
* `ProvenanceOp.Updates`, `apply_persists` — what each operation does to the record it rewrites.
* `load_save` — what is saved is loaded again.
* `provenance_store` — **Main**: every file that is written is accepted, what is refused writes
  nothing, and records change as `ProvenanceOp.Changes` says.
-/

/-! ### What a record stands for -/

/-- What a record stands for. -/
inductive Standing
  | intent
  | owned (reservation : Option String)
  | retiring (keyHash : Option String)
  | retired (keyHash : Option String)
  deriving DecidableEq

def ProvenanceRecord.standing (record : ProvenanceRecord) : Standing :=
  match record.state with
  | .intent => .intent
  | .owned => .owned (if record.retirementReserved = some true then record.retirementKeyHash else none)
  | .retiring => .retiring record.retirementKeyHash
  | .retired => .retired record.retirementKeyHash

/-- The attempt whose record an operation is about. -/
def ProvenanceOp.attemptId : ProvenanceOp → Option String
  | .reserve input => input.attemptId
  | .markOwned attemptId | .beginRun attemptId | .commitRun attemptId _ | .restoreRun attemptId
  | .beginCancel attemptId _ | .restoreCancel attemptId _ | .reserveRetirement attemptId _
  | .releaseRetirementReservation attemptId _ | .beginRetirement attemptId _
  | .markDeleteAttempted attemptId _ | .markRetired attemptId _ | .cancelRetirement attemptId _
  | .removeRetired attemptId _ | .get attemptId => attemptId
  | .snapshot => none

/-- What an operation may make of what the record of its attempt stands for; `none` where there is
    no record. -/
inductive ProvenanceOp.Changes : ProvenanceOp → Option Standing → Option Standing → Prop
  | same (op : ProvenanceOp) (standing : Option Standing) : Changes op standing standing
  | reserve (input : ProvenanceRecord) : Changes (.reserve input) none (some .intent)
  | markOwned (attemptId : Option String) :
      Changes (.markOwned attemptId) (some .intent) (some (.owned none))
  | reserveRetirement (attemptId keyHash : Option String) :
      Changes (.reserveRetirement attemptId keyHash) (some (.owned none)) (some (.owned keyHash))
  | releaseRetirementReservation (attemptId keyHash : Option String) :
      Changes (.releaseRetirementReservation attemptId keyHash) (some (.owned keyHash))
        (some (.owned none))
  | beginRetirement (attemptId keyHash : Option String) {reservation : Option String} :
      reservation = none ∨ reservation = keyHash →
        Changes (.beginRetirement attemptId keyHash) (some (.owned reservation))
          (some (.retiring keyHash))
  | cancelReservation (attemptId keyHash : Option String) :
      Changes (.cancelRetirement attemptId keyHash) (some (.owned keyHash)) (some (.owned none))
  | cancelRetirement (attemptId keyHash : Option String) :
      Changes (.cancelRetirement attemptId keyHash) (some (.retiring keyHash)) (some (.owned none))
  | markRetired (attemptId keyHash : Option String) :
      Changes (.markRetired attemptId keyHash) (some (.retiring keyHash)) (some (.retired keyHash))
  | removeRetired (attemptId keyHash : Option String) :
      Changes (.removeRetired attemptId keyHash) (some (.retired keyHash)) none

/-! ### What the operations do -/

/-- What an operation makes of a record that it rewrites, before the new time stamp, and when. -/
def ProvenanceOp.Updates : ProvenanceOp → ProvenanceRecord → ProvenanceRecord → Prop
  | .markOwned _, current, updated => updated = { current with state := .owned }
  | .beginRun _, current, updated =>
    current.state = .owned ∧ updated = { current with runPending := some true }
  | .commitRun _ runId, current, updated =>
    current.state = .owned ∧ safeRunId (runId.getD "") = true ∧
      updated = { current with runId := runId, runPending := none, cancelAttemptedRunId := none }
  | .restoreRun _, current, updated =>
    current.state = .owned ∧ updated = { current with runPending := none }
  | .beginCancel _ runId, current, updated =>
    current.state = .owned ∧ safeRunId (runId.getD "") = true ∧ current.runPending ≠ some true ∧
      current.runId = runId ∧ current.cancelAttemptedRunId = none ∧
      updated = { current with cancelAttemptedRunId := runId }
  | .restoreCancel _ runId, current, updated =>
    current.state = .owned ∧ current.runId = runId ∧ current.cancelAttemptedRunId = runId ∧
      updated = { current with cancelAttemptedRunId := none }
  | .reserveRetirement _ keyHash, current, updated =>
    current.state = .owned ∧ safeHash (keyHash.getD "") = true ∧
      (current.retirementKeyHash = none ∨ current.retirementKeyHash = keyHash) ∧
      updated = { current with
        retirementKeyHash := keyHash, retirementReserved := some true, deleteAttempted := some false }
  | .releaseRetirementReservation _ keyHash, current, updated =>
    current.state = .owned ∧ current.retirementKeyHash = keyHash ∧
      current.retirementReserved = some true ∧ current.deleteAttempted = some false ∧
      updated = { current with
        retirementKeyHash := none, retirementReserved := none, deleteAttempted := none }
  | .beginRetirement _ keyHash, current, updated =>
    current.state = .owned ∧ safeHash (keyHash.getD "") = true ∧
      (current.retirementKeyHash = none ∨ current.retirementKeyHash = keyHash) ∧
      updated = { current with
        state := .retiring, retirementKeyHash := keyHash, retirementReserved := none }
  | .markDeleteAttempted _ keyHash, current, updated =>
    current.state = .retiring ∧ current.retirementKeyHash = keyHash ∧
      updated = { current with deleteAttempted := some true }
  | .markRetired _ keyHash, current, updated =>
    current.state = .retiring ∧ current.retirementKeyHash = keyHash ∧
      updated = { current with state := .retired, deleteAttempted := none }
  | .cancelRetirement _ keyHash, current, updated =>
    (current.state = .owned ∨ current.state = .retiring) ∧ current.retirementKeyHash = keyHash ∧
      updated = { current with
        state := .owned, retirementKeyHash := none, retirementReserved := none,
        deleteAttempted := none }
  | .reserve _, _, _ | .removeRetired _ _, _, _ | .get _, _, _ | .snapshot, _, _ => False

variable {parse : DateParse} {records next : ProvenanceRecords} {now : Timestamp}
  {reply : ProvenanceReply} {op : ProvenanceOp} {current updated record : ProvenanceRecord}

/-- No operation changes the identities of a record. -/
theorem ProvenanceOp.Updates.identities (h : op.Updates current updated) :
    updated.attemptId = current.attemptId ∧ updated.agentId = current.agentId ∧
      updated.providerAgentId = current.providerAgentId := by
  cases op <;> simp only [ProvenanceOp.Updates] at h <;> grind

/-- What an operation that writes has decided: a new intent, a rewritten record, or no record. -/
inductive ProvenanceOp.Persists (parse : DateParse) (records : ProvenanceRecords) (op : ProvenanceOp) :
    ProvenanceRecords → ProvenanceReply → Prop
  | reserve (input : ProvenanceRecord) : op = .reserve input →
      records.get? input.attemptId = none → records.size < maxProvenanceRecords →
      validateRecord parse (intentOf input) = true →
      Persists parse records op (records.set (intentOf input)) (.reserved (intentOf input) true)
  | update (current updated : ProvenanceRecord) (updatedAt : Option String) :
      records.get? op.attemptId = some current → op.Updates current updated →
      validateRecord parse (updated.stamped updatedAt) = true →
      Persists parse records op (records.set (updated.stamped updatedAt))
        (.record (updated.stamped updatedAt))
  | remove (attemptId keyHash : Option String) (record : ProvenanceRecord) :
      op = .removeRetired attemptId keyHash → records.get? attemptId = some record →
      record.state = .retired → record.retirementKeyHash = keyHash →
      Persists parse records op (records.delete attemptId) (.flag true)

namespace ProvenanceRecords

/-- What `rewrite` writes. -/
theorem rewrite_persists {update : ProvenanceRecord → Except ProvenanceError ProvenanceRecord}
    (h : rewrite parse records now current update = .persists next reply) :
    ∃ updated updatedAt, update current = .ok updated ∧
      validateRecord parse (updated.stamped updatedAt) = true ∧
      next = records.set (updated.stamped updatedAt) ∧
      reply = .record (updated.stamped updatedAt) := by
  unfold rewrite at h
  split at h
  · cases h
  · cases h
  · next updatedAt updated _ hupdate =>
    dsimp only at h
    split at h
    · next hvalid =>
      cases h
      exact ⟨updated, updatedAt, hupdate, hvalid, rfl, rfl⟩
    · cases h

theorem updateOwned_persists {attemptId : Option String}
    {update : ProvenanceRecord → Except ProvenanceError ProvenanceRecord}
    (h : updateOwned parse records now attemptId update = .persists next reply) :
    ∃ current, records.get? attemptId = some current ∧ current.state = .owned ∧
      rewrite parse records now current update = .persists next reply := by
  unfold updateOwned at h
  split at h
  · cases h
  · next current hget =>
    split at h
    · next hstate => exact ⟨current, hget, hstate, h⟩
    · cases h

theorem updateRetirement_persists {attemptId keyHash : Option String}
    {update : ProvenanceRecord → ProvenanceRecord}
    (h : updateRetirement parse records now attemptId keyHash update = .persists next reply) :
    ∃ current, records.get? attemptId = some current ∧ current.state = .retiring ∧
      current.retirementKeyHash = keyHash ∧
      rewrite parse records now current (fun record => .ok (update record))
        = .persists next reply := by
  unfold updateRetirement at h
  split at h
  · cases h
  · next current hget =>
    split at h
    · next hcurrent => exact ⟨current, hget, hcurrent.1, hcurrent.2, h⟩
    · cases h

end ProvenanceRecords

open ProvenanceRecords

/-- A rewritten record is an update. -/
theorem ProvenanceOp.Persists.ofRewrite
    {update : ProvenanceRecord → Except ProvenanceError ProvenanceRecord}
    (hget : records.get? op.attemptId = some current)
    (h : rewrite parse records now current update = .persists next reply)
    (hupdates : ∀ updated, update current = .ok updated → op.Updates current updated) :
    op.Persists parse records next reply := by
  obtain ⟨updated, updatedAt, hupdate, hvalid, rfl, rfl⟩ := rewrite_persists h
  exact .update current updated updatedAt hget (hupdates updated hupdate) hvalid

theorem ProvenanceOp.Persists.ofUpdateOwned
    {update : ProvenanceRecord → Except ProvenanceError ProvenanceRecord}
    (h : updateOwned parse records now op.attemptId update = .persists next reply)
    (hupdates : ∀ current updated, current.state = .owned → update current = .ok updated →
      op.Updates current updated) : op.Persists parse records next reply := by
  obtain ⟨current, hget, hstate, hrewrite⟩ := updateOwned_persists h
  exact .ofRewrite hget hrewrite fun updated => hupdates current updated hstate

theorem ProvenanceOp.Persists.ofUpdateRetirement {keyHash : Option String}
    {update : ProvenanceRecord → ProvenanceRecord}
    (h : updateRetirement parse records now op.attemptId keyHash update = .persists next reply)
    (hupdates : ∀ current, current.state = .retiring → current.retirementKeyHash = keyHash →
      op.Updates current (update current)) : op.Persists parse records next reply := by
  obtain ⟨current, hget, hstate, hkey, hrewrite⟩ := updateRetirement_persists h
  exact .ofRewrite hget hrewrite fun updated hupdate => Except.ok.inj hupdate ▸
    hupdates current hstate hkey

/-- **Inversion.** What an operation writes, and when. -/
theorem apply_persists (h : op.apply parse records now = .persists next reply) :
    op.Persists parse records next reply := by
  cases op with
  | reserve input =>
    simp only [ProvenanceOp.apply, ProvenanceRecords.reserve] at h
    split at h
    · next hvalid =>
      split at h
      · split at h <;> cases h
      · next hnone =>
        split at h
        · cases h
        · next hroom =>
          cases h
          exact .reserve input rfl hnone (by omega) hvalid
    · cases h
  | markOwned attemptId =>
    simp only [ProvenanceOp.apply, ProvenanceRecords.markOwned] at h
    split at h
    · cases h
    · next current hget =>
      exact .ofRewrite hget h fun updated hupdate => (Except.ok.inj hupdate).symm
  | beginRun attemptId =>
    exact .ofUpdateOwned h fun current updated hstate hupdate =>
      ⟨hstate, (Except.ok.inj hupdate).symm⟩
  | commitRun attemptId runId =>
    simp only [ProvenanceOp.apply, ProvenanceRecords.commitRun] at h
    split at h
    · next hsafe =>
      exact .ofUpdateOwned h fun current updated hstate hupdate =>
        ⟨hstate, hsafe, (Except.ok.inj hupdate).symm⟩
    · cases h
  | restoreRun attemptId =>
    exact .ofUpdateOwned h fun current updated hstate hupdate =>
      ⟨hstate, (Except.ok.inj hupdate).symm⟩
  | beginCancel attemptId runId =>
    simp only [ProvenanceOp.apply, ProvenanceRecords.beginCancel] at h
    split at h
    · next hsafe =>
      refine .ofUpdateOwned h fun current updated hstate hupdate => ?_
      split at hupdate
      · cases hupdate
      · next hfree =>
        rw [not_or, not_or, not_not, Option.not_isSome_iff_eq_none] at hfree
        exact ⟨hstate, hsafe, hfree.1, hfree.2.1, hfree.2.2, (Except.ok.inj hupdate).symm⟩
    · cases h
  | restoreCancel attemptId runId =>
    refine .ofUpdateOwned h fun current updated hstate hupdate => ?_
    split at hupdate
    · cases hupdate
    · next hsame =>
      rw [not_or, not_not, not_not] at hsame
      exact ⟨hstate, hsame.1, hsame.2, (Except.ok.inj hupdate).symm⟩
  | reserveRetirement attemptId keyHash =>
    simp only [ProvenanceOp.apply, ProvenanceRecords.reserveRetirement] at h
    split at h
    · next hsafe =>
      split at h
      · next next' reply' houtcome =>
        split at h
        · cases h
        cases h
        refine .ofUpdateOwned houtcome fun current updated hstate hupdate => ?_
        split at hupdate
        · cases hupdate
        · next hkey =>
          refine ⟨hstate, hsafe, ?_, (Except.ok.inj hupdate).symm⟩
          rw [not_and_or, Option.not_isSome_iff_eq_none, not_not] at hkey
          exact hkey
      · next hother => exact absurd h (hother _ _)
    · cases h
  | releaseRetirementReservation attemptId keyHash =>
    refine .ofUpdateOwned h fun current updated hstate hupdate => ?_
    split at hupdate
    · cases hupdate
    · next hsame =>
      rw [not_or, not_or, not_not, not_not, not_not] at hsame
      exact ⟨hstate, hsame.1, hsame.2.1, hsame.2.2, (Except.ok.inj hupdate).symm⟩
  | beginRetirement attemptId keyHash =>
    simp only [ProvenanceOp.apply, ProvenanceRecords.beginRetirement] at h
    split at h
    · next hsafe =>
      refine .ofUpdateOwned h fun current updated hstate hupdate => ?_
      split at hupdate
      · cases hupdate
      · next hkey =>
        refine ⟨hstate, hsafe, ?_, (Except.ok.inj hupdate).symm⟩
        rw [not_and_or, Option.not_isSome_iff_eq_none, not_not] at hkey
        exact hkey
    · cases h
  | markDeleteAttempted attemptId keyHash =>
    exact .ofUpdateRetirement h fun current hstate hkey => ⟨hstate, hkey, rfl⟩
  | markRetired attemptId keyHash =>
    exact .ofUpdateRetirement h fun current hstate hkey => ⟨hstate, hkey, rfl⟩
  | cancelRetirement attemptId keyHash =>
    simp only [ProvenanceOp.apply, ProvenanceRecords.cancelRetirement] at h
    split at h
    · cases h
    · next current hget =>
      split at h
      · next hcurrent =>
        exact .ofRewrite hget h fun updated hupdate =>
          ⟨hcurrent.1, hcurrent.2, (Except.ok.inj hupdate).symm⟩
      · cases h
  | removeRetired attemptId keyHash =>
    simp only [ProvenanceOp.apply, ProvenanceRecords.removeRetired] at h
    split at h
    · cases h
    · next record hget =>
      split at h
      · next hretired =>
        cases h
        exact .remove attemptId keyHash record rfl hget hretired.1 hretired.2
      · cases h
  | get attemptId => cases h
  | snapshot => cases h

/-! ### What a valid record stands for -/

/-- What the check of a record says about its retirement. -/
theorem retirement_of_valid (h : validateRecord parse record = true) :
    (record.retirementKeyHash.isSome = true ↔ record.state = .retiring ∨ record.state = .retired ∨
      record.retirementReserved = some true) ∧
    (record.retirementReserved = some true → record.state = .owned) := by
  simp only [validateRecord, Bool.and_eq_true] at h
  obtain ⟨⟨⟨_, hfence⟩, _⟩, _⟩ := h
  simp only [validRetirementFence, Bool.and_eq_true, beq_iff_eq] at hfence
  obtain ⟨⟨⟨⟨_, hreserved⟩, _⟩, hkey⟩, _⟩ := hfence
  constructor
  · rw [← hkey]
    simp only [Bool.or_eq_true, beq_iff_eq, or_assoc]
  · intro htrue
    simp only [htrue, beq_self_eq_true, Bool.true_and, Bool.not_eq_true', Bool.or_eq_false_iff,
      bne_eq_false_iff_eq] at hreserved
    exact hreserved.1.1

theorem intent_of_valid (h : validateRecord parse record = true) (hstate : record.state = .intent) :
    record.runId = none ∧ record.cancelAttemptedRunId = none ∧ record.retirementKeyHash = none := by
  simp only [validateRecord, Bool.and_eq_true] at h
  obtain ⟨⟨_, hintent⟩, _⟩ := h
  simp only [validIntent, hstate, beq_self_eq_true, Bool.true_and, Bool.not_eq_true',
    Bool.or_eq_false_iff, Option.isSome_eq_false_iff, Option.isNone_iff_eq_none] at hintent
  obtain ⟨⟨⟨⟨⟨hrun, _⟩, hcancel⟩, hkey⟩, _⟩, _⟩ := hintent
  exact ⟨hrun, hcancel, hkey⟩

/-- An owned record has a key just where it has a reservation. -/
theorem standing_of_owned (h : validateRecord parse record = true) (hstate : record.state = .owned) :
    record.standing = .owned record.retirementKeyHash := by
  obtain ⟨hkey, _⟩ := retirement_of_valid h
  rw [hstate] at hkey
  have hsame : (if record.retirementReserved = some true then record.retirementKeyHash else none)
      = record.retirementKeyHash := by
    split
    · rfl
    · next hfree =>
      refine (Option.not_isSome_iff_eq_none.mp fun hsome => ?_).symm
      obtain hc | hc | hreserved := hkey.mp hsome
      · cases hc
      · cases hc
      · exact hfree hreserved
  rw [ProvenanceRecord.standing, hstate]
  exact congrArg Standing.owned hsame

theorem standing_of_intent (hstate : record.state = .intent) : record.standing = .intent := by
  rw [ProvenanceRecord.standing, hstate]

theorem standing_of_retiring (hstate : record.state = .retiring) :
    record.standing = .retiring record.retirementKeyHash := by
  rw [ProvenanceRecord.standing, hstate]

theorem standing_of_retired (hstate : record.state = .retired) :
    record.standing = .retired record.retirementKeyHash := by
  rw [ProvenanceRecord.standing, hstate]

/-- `markOwned` of a fenced record does not pass the check. -/
theorem markOwned_valid (hcurrent : validateRecord parse current = true) {updatedAt : Option String}
    (h : validateRecord parse (({ current with state := .owned } : ProvenanceRecord).stamped updatedAt) = true) :
    current.state = .intent ∨ current.state = .owned := by
  obtain ⟨hkey, hreserved⟩ := retirement_of_valid hcurrent
  obtain ⟨hkey', _⟩ := retirement_of_valid h
  have hreservation : current.retirementKeyHash.isSome = true →
      current.retirementReserved = some true := by
    intro hsome
    obtain hc | hc | hheld := hkey'.mp hsome
    · cases hc
    · cases hc
    · exact hheld
  cases hstate : current.state with
  | intent => exact .inl rfl
  | owned => exact .inr rfl
  | retiring =>
    have howned := hreserved (hreservation (hkey.mpr (.inl hstate)))
    rw [hstate] at howned
    cases howned
  | retired =>
    have howned := hreserved (hreservation (hkey.mpr (.inr (.inl hstate))))
    rw [hstate] at howned
    cases howned

/-- The rewritten record of an operation stands for what the operation may make of it. -/
theorem updates_changes (hupdates : op.Updates current updated)
    (hcurrent : validateRecord parse current = true) {updatedAt : Option String}
    (hupdated : validateRecord parse (updated.stamped updatedAt) = true) :
    op.Changes (some current.standing)
      (some (updated.stamped updatedAt).standing) := by
  -- an owned record that stays owned with its key stands for the same
  have howned : ∀ keyHash, current.state = .owned → current.retirementKeyHash = keyHash →
      some current.standing = some (.owned keyHash) := by
    intro keyHash hstate hkey
    rw [standing_of_owned hcurrent hstate, hkey]
  cases op with
  | reserve _ | removeRetired _ _ | get _ | snapshot => exact hupdates.elim
  | markOwned attemptId =>
    obtain rfl : updated = { current with state := .owned } := hupdates
    rw [standing_of_owned hupdated rfl]
    obtain hstate | hstate := markOwned_valid hcurrent hupdated
    · have hkeyless : (({ current with state := .owned } : ProvenanceRecord).stamped
          updatedAt).retirementKeyHash = none := (intent_of_valid hcurrent hstate).2.2
      rw [standing_of_intent hstate, hkeyless]
      exact .markOwned attemptId
    · rw [howned _ hstate rfl]
      exact .same _ _
  | beginRun attemptId =>
    obtain ⟨hstate, rfl⟩ := hupdates
    rw [howned _ hstate rfl, standing_of_owned hupdated hstate]
    exact .same _ _
  | commitRun attemptId runId =>
    obtain ⟨hstate, _, rfl⟩ := hupdates
    rw [howned _ hstate rfl, standing_of_owned hupdated hstate]
    exact .same _ _
  | restoreRun attemptId =>
    obtain ⟨hstate, rfl⟩ := hupdates
    rw [howned _ hstate rfl, standing_of_owned hupdated hstate]
    exact .same _ _
  | beginCancel attemptId runId =>
    obtain ⟨hstate, _, _, _, _, rfl⟩ := hupdates
    rw [howned _ hstate rfl, standing_of_owned hupdated hstate]
    exact .same _ _
  | restoreCancel attemptId runId =>
    obtain ⟨hstate, _, _, rfl⟩ := hupdates
    rw [howned _ hstate rfl, standing_of_owned hupdated hstate]
    exact .same _ _
  | reserveRetirement attemptId keyHash =>
    obtain ⟨hstate, _, hkey, rfl⟩ := hupdates
    rw [standing_of_owned hupdated hstate]
    obtain hkey | hkey := hkey
    · rw [howned _ hstate hkey]
      exact .reserveRetirement attemptId keyHash
    · rw [howned _ hstate hkey]
      exact .same _ _
  | releaseRetirementReservation attemptId keyHash =>
    obtain ⟨hstate, hkey, _, _, rfl⟩ := hupdates
    rw [howned _ hstate hkey, standing_of_owned hupdated hstate]
    exact .releaseRetirementReservation attemptId keyHash
  | beginRetirement attemptId keyHash =>
    obtain ⟨hstate, _, hkey, rfl⟩ := hupdates
    rw [howned _ hstate rfl, standing_of_retiring rfl]
    exact .beginRetirement attemptId keyHash hkey
  | markDeleteAttempted attemptId keyHash =>
    obtain ⟨hstate, _, rfl⟩ := hupdates
    have hsame : (({ current with deleteAttempted := some true } : ProvenanceRecord).stamped
        updatedAt).standing = .retiring current.retirementKeyHash := standing_of_retiring hstate
    rw [standing_of_retiring hstate, hsame]
    exact .same _ _
  | markRetired attemptId keyHash =>
    obtain ⟨hstate, hkey, rfl⟩ := hupdates
    rw [standing_of_retiring hstate, standing_of_retired rfl, hkey]
    exact .markRetired attemptId keyHash
  | cancelRetirement attemptId keyHash =>
    obtain ⟨hstate, hkey, rfl⟩ := hupdates
    rw [standing_of_owned hupdated rfl]
    obtain hstate | hstate := hstate
    · rw [howned _ hstate hkey]
      exact .cancelReservation attemptId keyHash
    · rw [standing_of_retiring hstate, hkey]
      exact .cancelRetirement attemptId keyHash

/-! ### What is written can be read -/

/-- The identities of a record, as the adapter derives them from its attempt. -/
def ProvenanceRecord.DerivesIds (providerId agentId : String → String) (record : ProvenanceRecord) :
    Prop :=
  record.providerAgentId = record.attemptId.map providerId ∧
    record.agentId = record.attemptId.map agentId

/-- The records of a file that can be read. -/
structure Readable (parse : DateParse) (providerId agentId : String → String)
    (records : ProvenanceRecords) : Prop where
  valid : ∀ record ∈ records.values, validateRecord parse record = true
  derives : ∀ record ∈ records.values, record.DerivesIds providerId agentId
  size : records.size ≤ maxProvenanceRecords

variable {providerId agentId : String → String}

theorem readable_empty : Readable parse providerId agentId .empty where
  valid := fun _ h => absurd h List.not_mem_nil
  derives := fun _ h => absurd h List.not_mem_nil
  size := Nat.zero_le _

/-- **Round trip.** What is saved is loaded again. -/
theorem load_save (hprovider : Function.Injective providerId) (hagent : Function.Injective agentId)
    (h : Readable parse providerId agentId records) {privateState : PrivateState}
    (hbytes : (ProvenanceFile.mk stateSchemaVersion records.values).bytes ≤ privateState.maxBytes) :
    loadProvenance parse privateState (some ⟨stateSchemaVersion, records.values⟩) = .ok records := by
  have hlimit := privateState.atMostDefault
  have hagents := records.nodup_map_of_injective (Option.map_injective hagent)
    fun record hr => (h.derives record hr).2
  have hproviders := records.nodup_map_of_injective (Option.map_injective hprovider)
    fun record hr => (h.derives record hr).1
  have hvalid : records.values.any (fun record => !validateRecord parse record) = false := by
    rw [List.any_eq_false]
    intro record hr
    rw [h.valid record hr]
    decide
  have hsize : records.values.length ≤ maxProvenanceRecords := h.size
  unfold loadProvenance
  dsimp only
  rw [if_neg, if_neg, if_neg, if_neg, InsertionMap.ofValues_values]
  · simp only [hagents, hproviders, records.nodup, not_true_eq_false, or_self, not_false_eq_true]
  · rw [hvalid]
    exact Bool.false_ne_true
  · rw [not_or, not_not]
    exact ⟨rfl, Nat.not_lt.mpr hsize⟩
  · simp only [maxStateBytes]
    omega

/-- What an operation writes can be read where what it has read can. -/
theorem Readable.persists (h : Readable parse providerId agentId records)
    (hop : ∀ input, op = .reserve input → input.DerivesIds providerId agentId)
    (hpersists : op.Persists parse records next reply) : Readable parse providerId agentId next := by
  cases hpersists with
  | reserve input heq hnone hroom hvalid =>
    have hvalues : (records.set (intentOf input)).values = records.values ++ [intentOf input] :=
      InsertionMap.values_set_of_get?_none hnone
    refine ⟨fun record hr => ?_, fun record hr => ?_, ?_⟩
    · obtain rfl | hr := InsertionMap.mem_set.mp hr
      · exact hvalid
      · exact h.valid record hr.1
    · obtain rfl | hr := InsertionMap.mem_set.mp hr
      · exact hop input heq
      · exact h.derives record hr.1
    · rw [InsertionMap.size, hvalues, List.length_append]
      exact hroom
  | update current updated updatedAt hget hupdates hvalid =>
    obtain ⟨hattempt, hagent, hprovider⟩ := hupdates.identities
    have hcurrent := InsertionMap.mem_of_get? hget
    have hkey : updated.attemptId = op.attemptId :=
      hattempt.trans (InsertionMap.key_of_get? hget)
    refine ⟨fun record hr => ?_, fun record hr => ?_, ?_⟩
    · obtain rfl | hr := InsertionMap.mem_set.mp hr
      · exact hvalid
      · exact h.valid record hr.1
    · obtain rfl | hr := InsertionMap.mem_set.mp hr
      · obtain ⟨hp, ha⟩ := h.derives current hcurrent
        show updated.providerAgentId = updated.attemptId.map providerId ∧
          updated.agentId = updated.attemptId.map agentId
        rw [hprovider, hagent, hattempt]
        exact ⟨hp, ha⟩
      · exact h.derives record hr.1
    · have hget' : records.get? updated.attemptId = some current := hkey ▸ hget
      have hlength := InsertionMap.map_set_of_get?_some (m := records)
        (v := updated.stamped updatedAt) (fun _ => ()) hget' rfl
      have hsame := congrArg List.length hlength
      rw [List.length_map, List.length_map] at hsame
      exact hsame.le.trans h.size
  | remove attemptId keyHash record heq hget hstate hkey =>
    refine ⟨fun record hr => ?_, fun record hr => ?_, ?_⟩
    · exact h.valid record (InsertionMap.mem_delete.mp hr).1
    · exact h.derives record (InsertionMap.mem_delete.mp hr).1
    · exact (records.delete_sublist attemptId).length_le.trans h.size

/-- What an operation writes differs from what it has read in the record of its attempt, and as
    `ProvenanceOp.Changes` says. -/
theorem persists_changes (hvalid : ∀ record ∈ records.values, validateRecord parse record = true)
    (hpersists : op.Persists parse records next reply) :
    (∀ a, a ≠ op.attemptId → next.get? a = records.get? a) ∧
      op.Changes ((records.get? op.attemptId).map ProvenanceRecord.standing)
        ((next.get? op.attemptId).map ProvenanceRecord.standing) := by
  cases hpersists with
  | reserve input heq hnone hroom hinput =>
    have hattempt : op.attemptId = input.attemptId := by rw [heq]; rfl
    refine ⟨fun a ha => ?_, ?_⟩
    · rw [InsertionMap.get?_set, if_neg]
      exact fun h => ha (h.trans hattempt.symm)
    · have hself : (records.set (intentOf input)).get? input.attemptId = some (intentOf input) :=
        InsertionMap.get?_of_mem (InsertionMap.mem_set_self records (intentOf input))
      rw [hattempt, hnone, hself, heq]
      exact .reserve input
  | update current updated updatedAt hget hupdates hupdated =>
    have hkey : (updated.stamped updatedAt).attemptId = op.attemptId :=
      hupdates.identities.1.trans (InsertionMap.key_of_get? hget)
    refine ⟨fun a ha => ?_, ?_⟩
    · rw [InsertionMap.get?_set, if_neg]
      exact fun h => ha (h.trans hkey)
    · rw [hget, InsertionMap.get?_set, if_pos hkey.symm]
      exact updates_changes hupdates (hvalid current (InsertionMap.mem_of_get? hget)) hupdated
  | remove attemptId keyHash record heq hget hstate hkey =>
    have hattempt : op.attemptId = attemptId := by rw [heq]; rfl
    refine ⟨fun a ha => ?_, ?_⟩
    · rw [InsertionMap.get?_delete, if_neg]
      exact fun h => ha (h.trans hattempt.symm)
    · rw [hattempt, hget, InsertionMap.get?_delete, if_pos rfl, heq]
      show ProvenanceOp.Changes _ (some record.standing) none
      rw [standing_of_retired hstate, hkey]
      exact .removeRetired attemptId keyHash

/-! ### Runs -/

/-- The identities of an intent are derived from its attempt. -/
def ProvenanceOp.DerivesIds (providerId agentId : String → String) : ProvenanceOp → Prop
  | .reserve input => input.DerivesIds providerId agentId
  | _ => True

namespace ProvenanceStore

/-- What the record of an attempt stands for. -/
def standing? (parse : DateParse) (store : ProvenanceStore) (attemptId : Option String) :
    Option Standing :=
  match loadProvenance parse store.privateState store.file with
  | .error _ => none
  | .ok records => (records.get? attemptId).map ProvenanceRecord.standing

/-- The file can be read, and so can every file that was ever written. -/
structure Kept (parse : DateParse) (providerId agentId : String → String) (store : ProvenanceStore) :
    Prop where
  readable : ∃ records, loadProvenance parse store.privateState store.file = .ok records ∧
    Readable parse providerId agentId records
  written : ∀ file ∈ store.written, ∃ records,
    loadProvenance parse store.privateState (some file) = .ok records ∧ records.values = file.records

variable {store after : ProvenanceStore} {fault : StoreFault} {result : ProvenanceResult}

/-- **Inversion.** An operation leaves the store alone and has not been refused for nothing, or it
    replaces the file by what it has decided to write. -/
theorem perform_cases (hload : loadProvenance parse store.privateState store.file = .ok records)
    (h : store.perform parse op now fault = (after, result)) :
    after = store ∨ ∃ next reply, op.Persists parse records next reply ∧
      (ProvenanceFile.mk stateSchemaVersion next.values).bytes ≤ store.privateState.maxBytes ∧
      after = store.replace ⟨stateSchemaVersion, next.values⟩ ∧
      (result = .replied reply ∨ result = .failed) := by
  unfold perform at h
  rw [hload] at h
  dsimp only at h
  split at h
  · cases h
    exact .inl rfl
  · cases h
    exact .inl rfl
  · next next reply hpersists =>
    unfold save at h
    dsimp only at h
    split at h
    · cases h
      exact .inl rfl
    · next hbytes =>
      have hbytes := Nat.le_of_not_lt hbytes
      split at h <;> cases h
      · exact .inr ⟨next, reply, apply_persists hpersists, hbytes, rfl, .inl rfl⟩
      · exact .inl rfl
      · exact .inr ⟨next, reply, apply_persists hpersists, hbytes, rfl, .inr rfl⟩

/-- A refused operation writes nothing. -/
theorem perform_refused {error : ProvenanceError}
    (h : store.perform parse op now fault = (after, .refused error)) : after = store := by
  cases hload : loadProvenance parse store.privateState store.file with
  | error e =>
    rw [perform, hload] at h
    exact (congrArg Prod.fst h).symm
  | ok records =>
    obtain hsame | ⟨_, _, _, _, _, hresult | hresult⟩ := perform_cases hload h
    · exact hsame
    · cases hresult
    · cases hresult

theorem Kept.perform (hprovider : Function.Injective providerId)
    (hagent : Function.Injective agentId) (h : store.Kept parse providerId agentId)
    (hop : op.DerivesIds providerId agentId)
    (hperform : store.perform parse op now fault = (after, result)) :
    after.Kept parse providerId agentId := by
  obtain ⟨records, hload, hreadable⟩ := h.readable
  obtain rfl | ⟨next, reply, hpersists, hbytes, rfl, _⟩ := perform_cases hload hperform
  · exact h
  have hop : ∀ input, op = .reserve input → input.DerivesIds providerId agentId := by
    rintro input rfl
    exact hop
  have hnext := hreadable.persists hop hpersists
  have hloads := load_save hprovider hagent hnext hbytes
  refine ⟨⟨next, hloads, hnext⟩, fun file hfile => ?_⟩
  obtain hfile | hfile := List.mem_append.mp hfile
  · exact h.written file hfile
  · obtain rfl := List.mem_singleton.mp hfile
    exact ⟨next, hloads, rfl⟩

/-- What the records stand for before and after an operation. -/
theorem Kept.changes (hprovider : Function.Injective providerId)
    (hagent : Function.Injective agentId) (h : store.Kept parse providerId agentId)
    (hop : op.DerivesIds providerId agentId)
    (hperform : store.perform parse op now fault = (after, result)) :
    (∀ a, a ≠ op.attemptId → after.standing? parse a = store.standing? parse a) ∧
      op.Changes (store.standing? parse op.attemptId) (after.standing? parse op.attemptId) := by
  obtain ⟨records, hload, hreadable⟩ := h.readable
  obtain rfl | ⟨next, reply, hpersists, hbytes, rfl, _⟩ := perform_cases hload hperform
  · exact ⟨fun _ _ => rfl, .same _ _⟩
  have hop : ∀ input, op = .reserve input → input.DerivesIds providerId agentId := by
    rintro input rfl
    exact hop
  have hloads := load_save hprovider hagent (hreadable.persists hop hpersists) hbytes
  obtain ⟨hothers, hchange⟩ := persists_changes hreadable.valid hpersists
  have hbefore : ∀ a, store.standing? parse a
      = (records.get? a).map ProvenanceRecord.standing := by
    intro a
    rw [standing?, hload]
  have hafter : ∀ a, (store.replace ⟨stateSchemaVersion, next.values⟩).standing? parse a
      = (next.get? a).map ProvenanceRecord.standing := by
    intro a
    show (match loadProvenance parse store.privateState (some ⟨_, next.values⟩) with
      | .error _ => none
      | .ok records => (records.get? a).map ProvenanceRecord.standing) = _
    rw [hloads]
  refine ⟨fun a ha => ?_, ?_⟩
  · rw [hbefore, hafter, hothers a ha]
  · rw [hbefore, hafter]
    exact hchange

/-- `markOwned` leaves a fenced record alone. -/
theorem perform_markOwned {a : Option String} {record : ProvenanceRecord}
    (hload : loadProvenance parse store.privateState store.file = .ok records)
    (hvalid : ∀ record ∈ records.values, validateRecord parse record = true)
    (hget : records.get? a = some record)
    (hstate : record.state = .retiring ∨ record.state = .retired)
    (h : store.perform parse (.markOwned a) now fault = (after, result)) :
    after = store ∧ ∃ error, result = .refused error := by
  have hrefused : ∃ error, ProvenanceRecords.markOwned parse records now a = .throws error := by
    cases houtcome : ProvenanceRecords.markOwned parse records now a with
    | throws error => exact ⟨error, rfl⟩
    | returns reply =>
      simp only [ProvenanceRecords.markOwned, hget, ProvenanceRecords.rewrite] at houtcome
      split at houtcome
      · cases houtcome
      · cases houtcome
      · split at houtcome <;> cases houtcome
    | persists next reply =>
      -- the check of the record that would be written has passed
      have hpersists : (ProvenanceOp.markOwned a).Persists parse records next reply :=
        apply_persists houtcome
      cases hpersists with
      | reserve input heq => cases heq
      | remove attemptId keyHash record heq => cases heq
      | update current updated updatedAt hcurrent hupdates hupdated =>
        obtain rfl : record = current := Option.some.inj (hget.symm.trans hcurrent)
        obtain rfl : updated = { record with state := .owned } := hupdates
        have hnot := markOwned_valid (hvalid record (InsertionMap.mem_of_get? hget)) hupdated
        obtain hstate | hstate := hstate <;> rw [hstate] at hnot <;> cases hnot <;> contradiction
  obtain ⟨error, herror⟩ := hrefused
  unfold ProvenanceStore.perform at h
  rw [hload] at h
  simp only [ProvenanceOp.apply, herror] at h
  cases h
  exact ⟨rfl, error, rfl⟩

end ProvenanceStore

theorem kept_of_reachable (hprovider : Function.Injective providerId)
    (hagent : Function.Injective agentId) {store : ProvenanceStore}
    (h : (provenanceStore parse).ReachableWhile (fun _ e => e.1.DerivesIds providerId agentId) store) :
    store.Kept parse providerId agentId := by
  refine h.invariant ?_ ?_
  · rintro store ⟨hfile, hwritten⟩
    refine ⟨⟨.empty, ?_, readable_empty⟩, ?_⟩
    · rw [hfile]
      rfl
    · rw [hwritten]
      exact fun _ h => absurd h List.not_mem_nil
  · intro store e after hkept hop hstep
    obtain rfl := Option.some.inj hstep
    exact hkept.perform hprovider hagent hop rfl

/-- What is promised of a store: every file that was written is accepted by the loader; and of any
    operation on it, an operation that is refused writes nothing, only the record of its attempt
    stands for something else afterwards, and this as `ProvenanceOp.Changes` allows; and
    `markOwned` of a retiring or retired record is refused. -/
structure ProvenanceStore.Sound (parse : DateParse) (providerId agentId : String → String)
    (store : ProvenanceStore) : Prop where
  accepted : ∀ file ∈ store.written, ∃ records,
    loadProvenance parse store.privateState (some file) = .ok records ∧ records.values = file.records
  refused : ∀ op now fault after error,
    store.perform parse op now fault = (after, .refused error) → after = store
  others : ∀ op now fault after result, op.DerivesIds providerId agentId →
    store.perform parse op now fault = (after, result) →
      ∀ a, a ≠ op.attemptId → after.standing? parse a = store.standing? parse a
  changes : ∀ op now fault after result, op.DerivesIds providerId agentId →
    store.perform parse op now fault = (after, result) →
      op.Changes (store.standing? parse op.attemptId) (after.standing? parse op.attemptId)
  fenced : ∀ a now fault after result, store.perform parse (.markOwned a) now fault = (after, result) →
    (∃ keyHash, store.standing? parse a = some (.retiring keyHash) ∨
      store.standing? parse a = some (.retired keyHash)) →
    after = store ∧ ∃ error, result = .refused error

/-- **Main.** The store keeps its promises in every run in which the identities of an agent are
    derived injectively from its attempt. -/
theorem provenance_store (hprovider : Function.Injective providerId)
    (hagent : Function.Injective agentId) {store : ProvenanceStore}
    (h : (provenanceStore parse).ReachableWhile
      (fun _ e => e.1.DerivesIds providerId agentId) store) :
    store.Sound parse providerId agentId := by
  have hkept := kept_of_reachable hprovider hagent h
  refine ⟨hkept.written, fun op now fault after error => ProvenanceStore.perform_refused, ?_, ?_, ?_⟩
  · intro op now fault after result hop hperform
    exact (hkept.changes hprovider hagent hop hperform).1
  · intro op now fault after result hop hperform
    exact (hkept.changes hprovider hagent hop hperform).2
  · rintro a now fault after result hperform ⟨keyHash, hfenced⟩
    obtain ⟨records, hload, hreadable⟩ := hkept.readable
    have hstanding : store.standing? parse a = (records.get? a).map ProvenanceRecord.standing := by
      rw [ProvenanceStore.standing?, hload]
    rw [hstanding] at hfenced
    cases hget : records.get? a with
    | none =>
      rw [hget] at hfenced
      obtain hc | hc := hfenced <;> cases hc
    | some record =>
      rw [hget] at hfenced
      refine ProvenanceStore.perform_markOwned hload hreadable.valid hget ?_ hperform
      cases hstate : record.state with
      | retiring => exact .inl rfl
      | retired => exact .inr rfl
      | intent =>
        rw [Option.map_some, standing_of_intent hstate] at hfenced
        obtain hc | hc := hfenced <;> cases hc
      | owned =>
        have howned := standing_of_owned (hreadable.valid record (InsertionMap.mem_of_get? hget)) hstate
        rw [Option.map_some, howned] at hfenced
        obtain hc | hc := hfenced <;> cases hc

/-- An agent that is reserved, owned and fenced. -/
theorem provenance_store_retiring : ∃ parse providerId agentId, ∃ store : ProvenanceStore,
    store.Sound parse providerId agentId := by
  let attempt := "attempt:0f8fad5b-d9cb-469f-a165-70867728950e"
  let providerId : String → String := fun attemptId => "agent_" ++ attemptId
  let agentId : String → String := fun attemptId => "cursor-sdk:" ++ attemptId
  let parse : DateParse := fun text =>
    if text = "2025-08-25T00:00:00.000Z" then some 1756080000000 else none
  let intent : ProvenanceRecord := {
    attemptId := some attempt
    launchId := some "launch:7c9e6679-7425-40de-944b-e07fc1f90ae7"
    providerAgentId := some (providerId attempt)
    agentId := some (agentId attempt)
    target := some "repo"
    profile := some "default"
    sdkVersion := some "1.0.28"
    bridgeNamespace := some "sdkv1"
    storeScope := some "AAAAAAAAAAAAAAAA"
    targetDigest := some "AAAAAAAAAAAAAAAAAAAAAAAAAAAAAAAAAAAAAAAAAAA"
    createdAt := some "2025-08-25T00:00:00.000Z" }
  let empty : ProvenanceStore := { privateState := ⟨1000000, by decide, by decide⟩ }
  let created := (empty.perform parse (.reserve intent) 1756080000000 .none).1
  let owned := (created.perform parse (.markOwned (some attempt)) 1756080000000 .none).1
  let retiring := (owned.perform parse (.beginRetirement (some attempt)
    (some "BBBBBBBBBBBBBBBBBBBBBBBBBBBBBBBBBBBBBBBBBBB")) 1756080000000 .none).1
  have hinjective : ∀ tag : String, Function.Injective fun attemptId => tag ++ attemptId := by
    intro tag a b hab
    have hlists := congrArg String.toList hab
    rw [String.toList_append, String.toList_append, List.append_right_inj, String.toList_inj] at hlists
    exact hlists
  have hcreated : (provenanceStore parse).ReachableWhile
      (fun _ e => e.1.DerivesIds providerId agentId) created :=
    .step (e := (.reserve intent, 1756080000000, .none)) (.init ⟨rfl, rfl⟩) ⟨rfl, rfl⟩ rfl
  have howned : (provenanceStore parse).ReachableWhile
      (fun _ e => e.1.DerivesIds providerId agentId) owned :=
    hcreated.step (e := (.markOwned (some attempt), 1756080000000, .none)) trivial rfl
  have hretiring : (provenanceStore parse).ReachableWhile
      (fun _ e => e.1.DerivesIds providerId agentId) retiring :=
    howned.step (e := (.beginRetirement (some attempt) _, 1756080000000, .none)) trivial rfl
  refine ⟨parse, providerId, agentId, retiring, ?_⟩
  exact provenance_store (hinjective "agent_") (hinjective "cursor-sdk:") hretiring

end AgentHost
