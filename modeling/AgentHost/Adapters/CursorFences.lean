import AgentHost.Adapters.CursorProvenanceRuns
import AgentHost.Adapters.CursorSdk

namespace AgentHost

/-!
# Recorded runs and cancel fences

What holds of the shared state of the Cursor adapter between any two actions of its calls, and which
actions leave the recorded runs and their cancel fences alone.

* `RecordChange` — what an operation of the store makes of the record of one attempt.
* `CursorHost.Consistent` — the invariant: a CancelRun request that was not rejected keeps the fence
  of its run set.
* `CursorHost.Rely` — what a call may rely on others for, in the agents of its key.
* `CursorHost.FenceStep` — how a cancel fence may be cleared.
* `Consistent.store_quiet`, `quiet_perform` — the actions that do what every call relies on.
-/

/-! ### The records of the file -/

/-- The operations that rewrite the record of their attempt or throw. -/
def ProvenanceOp.rewrites : ProvenanceOp → Bool
  | .reserve _ | .removeRetired _ _ | .get _ | .snapshot => false
  | _ => true

/-- What an operation makes of the record of one attempt. -/
inductive RecordChange (parse : DateParse) (op : ProvenanceOp) :
    Option ProvenanceRecord → Option ProvenanceRecord → Prop
  | same (record : Option ProvenanceRecord) : RecordChange parse op record record
  | reserve (input : ProvenanceRecord) : op = .reserve input →
      validateRecord parse (intentOf input) = true →
      RecordChange parse op none (some (intentOf input))
  | update (current updated : ProvenanceRecord) (updatedAt : Option String) :
      op.Updates current updated → validateRecord parse (updated.stamped updatedAt) = true →
      RecordChange parse op (some current) (some (updated.stamped updatedAt))
  | remove (record : ProvenanceRecord) : op.rewrites = false → record.state = .retired →
      RecordChange parse op (some record) none

section

variable {parse : DateParse} {records next : ProvenanceRecords} {now : Timestamp}
  {reply : ProvenanceReply} {op : ProvenanceOp} {store after : ProvenanceStore}
  {fault : StoreFault} {result : ProvenanceResult} {a : String}

theorem rewrite_ne_returns {current : ProvenanceRecord}
    {update : ProvenanceRecord → Except ProvenanceError ProvenanceRecord} :
    ProvenanceRecords.rewrite parse records now current update ≠ .returns reply := by
  unfold ProvenanceRecords.rewrite
  intro h
  split at h
  · cases h
  · cases h
  · dsimp only at h
    split at h <;> cases h

theorem updateOwned_ne_returns {attemptId : Option String}
    {update : ProvenanceRecord → Except ProvenanceError ProvenanceRecord} :
    ProvenanceRecords.updateOwned parse records now attemptId update ≠ .returns reply := by
  unfold ProvenanceRecords.updateOwned
  intro h
  split at h
  · cases h
  · split at h
    · exact rewrite_ne_returns h
    · cases h

theorem updateRetirement_ne_returns {attemptId keyHash : Option String}
    {update : ProvenanceRecord → ProvenanceRecord} :
    ProvenanceRecords.updateRetirement parse records now attemptId keyHash update
      ≠ .returns reply := by
  unfold ProvenanceRecords.updateRetirement
  intro h
  split at h
  · cases h
  · split at h
    · exact rewrite_ne_returns h
    · cases h

theorem apply_ne_returns (hrewrites : op.rewrites = true) :
    op.apply parse records now ≠ .returns reply := by
  intro h
  cases op with
  | reserve _ | removeRetired _ _ | get _ | snapshot => cases hrewrites
  | markOwned attemptId =>
    simp only [ProvenanceOp.apply, ProvenanceRecords.markOwned] at h
    split at h
    · cases h
    · exact rewrite_ne_returns h
  | beginRun attemptId => exact updateOwned_ne_returns h
  | restoreRun attemptId => exact updateOwned_ne_returns h
  | restoreCancel attemptId runId => exact updateOwned_ne_returns h
  | releaseRetirementReservation attemptId keyHash => exact updateOwned_ne_returns h
  | markDeleteAttempted attemptId keyHash => exact updateRetirement_ne_returns h
  | markRetired attemptId keyHash => exact updateRetirement_ne_returns h
  | commitRun attemptId runId =>
    simp only [ProvenanceOp.apply, ProvenanceRecords.commitRun] at h
    split at h
    · exact updateOwned_ne_returns h
    · cases h
  | beginCancel attemptId runId =>
    simp only [ProvenanceOp.apply, ProvenanceRecords.beginCancel] at h
    split at h
    · exact updateOwned_ne_returns h
    · cases h
  | beginRetirement attemptId keyHash =>
    simp only [ProvenanceOp.apply, ProvenanceRecords.beginRetirement] at h
    split at h
    · exact updateOwned_ne_returns h
    · cases h
  | reserveRetirement attemptId keyHash =>
    simp only [ProvenanceOp.apply, ProvenanceRecords.reserveRetirement] at h
    split at h
    · split at h
      · split at h <;> cases h
      · exact updateOwned_ne_returns h
    · cases h
  | cancelRetirement attemptId keyHash =>
    simp only [ProvenanceOp.apply, ProvenanceRecords.cancelRetirement] at h
    split at h
    · cases h
    · split at h
      · exact rewrite_ne_returns h
      · cases h

namespace ProvenanceStore

/-- The records that are loaded are those of the file. -/
theorem record?_of_load (h : loadProvenance parse store.privateState store.file = .ok records)
    (a : String) : store.record? a = records.get? (some a) := by
  unfold loadProvenance at h
  rw [record?]
  split at h
  · next hfile =>
    cases h
    rw [hfile]
    rfl
  · next file hfile =>
    rw [hfile]
    split at h
    · cases h
    split at h
    · cases h
    split at h
    · cases h
    split at h
    · cases h
    · next hnodup =>
      cases h
      have hvalues : (InsertionMap.ofValues ProvenanceRecord.attemptId file.records).values
          = file.records := InsertionMap.values_ofValues (by
        rw [not_or, Decidable.not_not] at hnodup
        exact hnodup.1)
      show file.records.find? _ = (InsertionMap.ofValues _ file.records).values.find? _
      rw [hvalues]

/-- What an operation makes of the records: nothing of other attempts than its own. -/
theorem perform_record (h : store.perform parse op now fault = (after, result)) (a : String) :
    (op.attemptId ≠ some a → after.record? a = store.record? a) ∧
      RecordChange parse op (store.record? a) (after.record? a) := by
  cases hload : loadProvenance parse store.privateState store.file with
  | error error =>
    rw [perform, hload] at h
    obtain rfl : store = after := congrArg Prod.fst h
    exact ⟨fun _ => rfl, .same _⟩
  | ok records =>
    obtain rfl | ⟨next, reply, hpersists, _, rfl, _⟩ := perform_cases hload h
    · exact ⟨fun _ => rfl, .same _⟩
    have hbefore := record?_of_load hload a
    have hafter : (store.replace ⟨stateSchemaVersion, next.values⟩).record? a
        = next.get? (some a) := rfl
    rw [hbefore, hafter]
    cases hpersists with
    | reserve input heq hnone hroom hvalid =>
      subst heq
      show (input.attemptId ≠ some a → _) ∧ _
      rw [InsertionMap.get?_set]
      by_cases hkey : some a = (intentOf input).attemptId
      · have hself : input.attemptId = some a := hkey.symm
        rw [if_pos hkey, ← hself, hnone]
        exact ⟨fun hne => absurd rfl hne, .reserve input rfl hvalid⟩
      · rw [if_neg hkey]
        exact ⟨fun _ => rfl, .same _⟩
    | update current updated updatedAt hget hupdates hvalid =>
      have hattempt : (updated.stamped updatedAt).attemptId = op.attemptId :=
        hupdates.identities.1.trans (InsertionMap.key_of_get? hget)
      rw [InsertionMap.get?_set, hattempt]
      by_cases hkey : some a = op.attemptId
      · rw [if_pos hkey, hkey, hget]
        exact ⟨fun hne => absurd rfl hne, .update current updated updatedAt hupdates hvalid⟩
      · rw [if_neg hkey]
        exact ⟨fun _ => rfl, .same _⟩
    | remove attemptId keyHash record heq hget hstate _ =>
      subst heq
      show (attemptId ≠ some a → _) ∧ _
      rw [InsertionMap.get?_delete]
      by_cases hkey : some a = attemptId
      · rw [if_pos hkey, hkey, hget]
        exact ⟨fun hne => absurd rfl hne, .remove record rfl hstate⟩
      · rw [if_neg hkey]
        exact ⟨fun _ => rfl, .same _⟩

/-- What `get` finds. -/
theorem perform_get {found : Option ProvenanceRecord}
    (h : store.perform parse (.get (some a)) now fault = (after, .replied (.found found))) :
    after = store ∧ store.record? a = found := by
  unfold perform at h
  split at h
  · cases h
  · next records hload =>
    rw [record?_of_load hload]
    show after = store ∧ records.get? (some a) = found
    simp only [ProvenanceOp.apply] at h
    by_cases hfault : fault = .unwritten
    · rw [if_pos hfault] at h
      cases h
    · rw [if_neg hfault] at h
      cases h
      exact ⟨rfl, rfl⟩

/-- What a snapshot lists. -/
theorem perform_snapshot {listed : List ProvenanceRecord}
    (h : store.perform parse .snapshot now fault = (after, .replied (.records listed))) :
    after = store ∧ ∀ record ∈ listed, record.attemptId = some a →
      store.record? a = some record := by
  unfold perform at h
  split at h
  · cases h
  · next records hload =>
    simp only [ProvenanceOp.apply] at h
    by_cases hfault : fault = .unwritten
    · rw [if_pos hfault] at h
      cases h
    · rw [if_neg hfault] at h
      cases h
      refine ⟨rfl, fun record hrecord hattempt => ?_⟩
      rw [record?_of_load hload, ← hattempt]
      exact InsertionMap.get?_of_mem hrecord

/-- What an operation that rewrites a record has written when it replies. -/
theorem perform_replied (hattempt : op.attemptId = some a) (hrewrites : op.rewrites = true)
    (h : store.perform parse op now fault = (after, .replied reply)) :
    ∃ current updated updatedAt, store.record? a = some current ∧ op.Updates current updated ∧
      after.record? a = some (updated.stamped updatedAt) ∧
      reply = .record (updated.stamped updatedAt) := by
  cases hload : loadProvenance parse store.privateState store.file with
  | error error =>
    rw [perform, hload] at h
    cases h
  | ok records =>
    unfold perform at h
    rw [hload] at h
    dsimp only at h
    split at h
    · cases h
    · next reply hreturns => exact absurd hreturns (apply_ne_returns hrewrites)
    · next next written hpersists =>
      unfold save at h
      dsimp only at h
      split at h
      · cases h
      split at h <;> cases h
      have hafter : (store.replace ⟨stateSchemaVersion, next.values⟩).record? a
          = next.get? (some a) := rfl
      rw [record?_of_load hload, hafter]
      cases apply_persists hpersists with
      | reserve input heq =>
        subst heq
        cases hrewrites
      | remove attemptId keyHash record heq =>
        subst heq
        cases hrewrites
      | update current updated updatedAt hget hupdates hvalid =>
        have hkey : (updated.stamped updatedAt).attemptId = some a :=
          (hupdates.identities.1.trans (InsertionMap.key_of_get? hget)).trans hattempt
        refine ⟨current, updated, updatedAt, hattempt ▸ hget, hupdates, ?_, rfl⟩
        rw [InsertionMap.get?_set, if_pos hkey.symm]

end ProvenanceStore

end

/-- Operations that change neither a recorded run nor a cancel fence. -/
def ProvenanceOp.keepsRuns : ProvenanceOp → Bool
  | .commitRun _ _ | .beginCancel _ _ | .restoreCancel _ _ => false
  | _ => true

/-- Of these, the ones that may be done whatever the cancel fence is. -/
def ProvenanceOp.unfenced : ProvenanceOp → Bool
  | .beginRetirement _ _ => false
  | op => op.keepsRuns

/-! ### What every call may rely on -/

namespace CursorHost

/-- What holds of the shared state between any two actions. -/
structure Consistent (config : CursorConfig) (host : CursorHost) : Prop where
  valid : ∀ a record, host.store.record? a = some record →
    validateRecord config.parse record = true ∧ record.attemptId = some a ∧
      record.DerivesIds config.providerId config.agentOf
  settled : ∀ a record, host.store.record? a = some record →
    record.state = .retiring ∨ record.state = .retired → record.cancelAttemptedRunId = none
  recorded : ∀ a runId, host.store.run? a = some runId →
    ⟨config.providerId a, runId⟩ ∈ host.accepted
  exclusive : ∀ a b runId, host.store.run? a = some runId → host.store.run? b = some runId → a = b
  distinct : (host.accepted.map RunIdentity.runId).Nodup
  sent : ∀ cancel ∈ host.cancels, ⟨cancel.agentId, cancel.runId⟩ ∈ host.accepted
  fenced : ∀ cancel ∈ host.cancels, ∃ fence ∈ host.fences, fence.caller = cancel.caller ∧
    config.providerId fence.attemptId = cancel.agentId ∧ fence.runId = cancel.runId ∧
      fence.current = some cancel.runId
  spent : ∀ cancel ∈ host.cancels, cancel.outcome ≠ some .rejected →
    ∀ a, host.store.run? a = some cancel.runId → host.store.fence? a = some cancel.runId
  once : host.cancels.Pairwise fun earlier later =>
    earlier.runId = later.runId → earlier.outcome = some .rejected

/-- What a call relies on others for: they record no run and touch no cancel fence of an agent of its
    key, and neither write nor answer a CancelRun request to one. -/
structure Rely (config : CursorConfig) (key : Option String) (before after : CursorHost) : Prop where
  accepted : ∀ run ∈ before.accepted, run ∈ after.accepted
  fences : ∀ fence ∈ before.fences, fence ∈ after.fences
  fence : ∀ a, key = some (config.agentOf a) → after.store.fence? a = before.store.fence? a
  run : ∀ a, key = some (config.agentOf a) → ∀ runId, after.store.run? a = some runId →
    before.store.run? a = some runId
  cancel : ∀ (n : Nat) (cancel : CancelRequest), key = some (publicId config.scope cancel.agentId) →
    (after.cancels[n]? = some cancel ↔ before.cancels[n]? = some cancel)

/-- How a step may treat a cancel fence: it stays; it is cleared with its run recorded, where every
    CancelRun request for that run was rejected, if one was written; or another run is recorded. -/
def FenceStep (before after : CursorHost) : Prop :=
  ∀ a runId, before.store.fence? a = some runId →
    after.store.fence? a = some runId ∨
    (after.store.fence? a = none ∧ after.store.run? a = some runId ∧
      ∀ cancel ∈ before.cancels, cancel.runId = runId → cancel.outcome = some .rejected) ∨
    (after.store.fence? a = none ∧ ∃ next, next ≠ runId ∧ after.store.run? a = some next)

/-- What a call guarantees of its actions. -/
def Guarantee (config : CursorConfig) (key : Option String) (before after : CursorHost) : Prop :=
  (∀ other, key = none ∨ key ≠ other → Rely config other before after) ∧ FenceStep before after

variable {config : CursorConfig} {key : Option String} {host before after later : CursorHost}

theorem Rely.refl (host : CursorHost) : Rely config key host host where
  accepted := fun _ => id
  fences := fun _ => id
  fence := fun _ _ => rfl
  run := fun _ _ _ => id
  cancel := fun _ _ _ => Iff.rfl

theorem Rely.trans (h : Rely config key before after) (h' : Rely config key after later) :
    Rely config key before later where
  accepted := fun run hrun => h'.accepted run (h.accepted run hrun)
  fences := fun fence hfence => h'.fences fence (h.fences fence hfence)
  fence := fun a ha => (h'.fence a ha).trans (h.fence a ha)
  run := fun a ha runId hrun => h.run a ha runId (h'.run a ha runId hrun)
  cancel := fun n cancel ha => (h'.cancel n cancel ha).trans (h.cancel n cancel ha)

/-- What no call can notice is guaranteed by all. -/
theorem guarantee_of_rely (h : ∀ key, Rely config key before after) :
    Guarantee config key before after := by
  refine ⟨fun other _ => h other, fun a runId hfence => .inl ?_⟩
  rw [(h _).fence a rfl, hfence]

/-- The fence of an attempt names the run that is recorded for it. -/
theorem Consistent.run_of_fence (h : host.Consistent config) {a runId : String}
    (hfence : host.store.fence? a = some runId) : host.store.run? a = some runId := by
  obtain ⟨record, hrecord, hcancel⟩ := Option.bind_eq_some_iff.mp hfence
  have hvalid := (h.valid a record hrecord).1
  simp only [validateRecord, Bool.and_eq_true] at hvalid
  obtain ⟨⟨⟨⟨_, hrun⟩, _⟩, _⟩, _⟩ := hvalid
  simp only [validRun, hcancel, Option.all_some, Bool.and_eq_true, beq_iff_eq] at hrun
  rw [ProvenanceStore.run?, hrecord]
  exact hrun.2.2

/-- Accepted Sends with one run id are one. -/
theorem Consistent.accepted_inj (h : host.Consistent config) {run other : RunIdentity}
    (hrun : run ∈ host.accepted) (hother : other ∈ host.accepted)
    (hid : run.runId = other.runId) : run = other :=
  List.inj_on_of_nodup_map h.distinct hrun hother hid

/-- An attempt whose fence is not set has had only rejected CancelRun requests for its run. -/
theorem Consistent.rejected (h : host.Consistent config) {a runId : String}
    (hrun : host.store.run? a = some runId) (hfence : host.store.fence? a = none) :
    ∀ cancel ∈ host.cancels, cancel.runId = runId → cancel.outcome = some .rejected := by
  intro cancel hcancel hid
  by_contra hopen
  have hset := h.spent cancel hcancel hopen a (hid ▸ hrun)
  rw [hfence] at hset
  cases hset

/-! ### Operations of the store -/

section

variable {op : ProvenanceOp} {now : Timestamp} {fault : StoreFault} {result : ProvenanceResult}
  {store : ProvenanceStore}

/-- The records stay valid, and a retirement is begun without a cancel fence. -/
theorem Consistent.records (h : host.Consistent config)
    (hop : op.DerivesIds config.providerId config.agentOf)
    (hbegin : ∀ a keyHash, op = .beginRetirement (some a) keyHash → host.store.fence? a = none)
    (hperform : host.store.perform config.parse op now fault = (store, result)) (a : String)
    (record : ProvenanceRecord) (hrecord : store.record? a = some record) :
    (validateRecord config.parse record = true ∧ record.attemptId = some a ∧
      record.DerivesIds config.providerId config.agentOf) ∧
    (record.state = .retiring ∨ record.state = .retired → record.cancelAttemptedRunId = none) := by
  obtain ⟨hothers, hchange⟩ := ProvenanceStore.perform_record hperform a
  by_cases hattempt : op.attemptId = some a
  case neg =>
    rw [hothers hattempt] at hrecord
    exact ⟨h.valid a record hrecord, h.settled a record hrecord⟩
  rw [hrecord] at hchange
  generalize hbefore : host.store.record? a = stored at hchange
  cases hchange with
  | same => exact ⟨h.valid a record hbefore, h.settled a record hbefore⟩
  | reserve input heq hvalid =>
    subst heq
    refine ⟨⟨hvalid, hattempt, hop⟩, fun hstate => ?_⟩
    obtain hc | hc := hstate <;> cases hc
  | update current updated updatedAt hupdates hvalid =>
    obtain ⟨hcurrent, hkey, hprovider, hagent⟩ := h.valid a current hbefore
    have hsettled := h.settled a current hbefore
    obtain ⟨hid, hagentId, hproviderId⟩ := hupdates.identities
    refine ⟨⟨hvalid, hid.trans hkey, ?_, ?_⟩, fun hstate => ?_⟩
    · show updated.providerAgentId = updated.attemptId.map _
      rw [hproviderId, hid, hprovider]
    · show updated.agentId = updated.attemptId.map _
      rw [hagentId, hid, hagent]
    · show updated.cancelAttemptedRunId = none
      replace hstate : updated.state = .retiring ∨ updated.state = .retired := hstate
      cases op with
      | beginRetirement attemptId keyHash =>
        obtain rfl : attemptId = some a := hattempt
        obtain ⟨_, _, _, rfl⟩ := hupdates
        have hfence := hbegin a keyHash rfl
        rw [ProvenanceStore.fence?, hbefore] at hfence
        exact hfence
      | markDeleteAttempted attemptId keyHash =>
        obtain ⟨hretiring, _, rfl⟩ := hupdates
        exact hsettled (.inl hretiring)
      | markRetired attemptId keyHash =>
        obtain ⟨hretiring, _, rfl⟩ := hupdates
        exact hsettled (.inl hretiring)
      | reserve _ | removeRetired _ _ | get _ | snapshot => exact hupdates.elim
      | _ =>
        -- the others leave an owned record
        simp only [ProvenanceOp.Updates] at hupdates
        grind

/-- The runs and the fences after an operation that keeps them. -/
theorem Consistent.runs_kept (h : host.Consistent config) (hkeeps : op.keepsRuns = true)
    (hperform : host.store.perform config.parse op now fault = (store, result)) (a : String) :
    store.fence? a = host.store.fence? a ∧
      ∀ runId, store.run? a = some runId → host.store.run? a = some runId := by
  have hchange := (ProvenanceStore.perform_record hperform a).2
  unfold ProvenanceStore.fence? ProvenanceStore.run?
  generalize hbefore : host.store.record? a = stored at hchange
  generalize store.record? a = written at hchange
  cases hchange with
  | same => exact ⟨rfl, fun _ => id⟩
  | reserve input heq hvalid =>
    obtain ⟨hrun, hcancel, _⟩ := intent_of_valid hvalid rfl
    refine ⟨hcancel, fun runId hsome => ?_⟩
    rw [Option.bind_some, hrun] at hsome
    cases hsome
  | update current updated updatedAt hupdates hvalid =>
    have hsame : updated.runId = current.runId ∧
        updated.cancelAttemptedRunId = current.cancelAttemptedRunId := by
      cases op <;> simp only [ProvenanceOp.Updates] at hupdates <;> grind [ProvenanceOp.keepsRuns]
    refine ⟨hsame.2, fun runId hsome => ?_⟩
    exact hsame.1.symm.trans hsome
  | remove record _ hstate =>
    refine ⟨(h.settled a record hbefore (.inr hstate)).symm, fun runId hsome => ?_⟩
    cases hsome

/-- The invariant after a step that changes no more than the records, where the runs and the fences
    are kept. -/
theorem Consistent.store_kept (h : host.Consistent config)
    (hop : op.DerivesIds config.providerId config.agentOf)
    (hbegin : ∀ a keyHash, op = .beginRetirement (some a) keyHash → host.store.fence? a = none)
    (hkeeps : op.keepsRuns = true) {caller : Nat} :
    (host.storeStep config.parse caller op now fault).1.Consistent config ∧
      ∀ key, Rely config key host (host.storeStep config.parse caller op now fault).1 := by
  obtain ⟨⟨store, result⟩, hperform⟩ :
      ∃ stored, host.store.perform config.parse op now fault = stored := ⟨_, rfl⟩
  have hrecords := h.records hop hbegin hperform
  have hruns := h.runs_kept hkeeps hperform
  simp only [storeStep, hperform]
  refine ⟨⟨fun a record hrecord => (hrecords a record hrecord).1,
    fun a record hrecord => (hrecords a record hrecord).2,
    fun a runId hrun => h.recorded a runId ((hruns a).2 runId hrun),
    fun a b runId ha hb => h.exclusive a b runId ((hruns a).2 runId ha) ((hruns b).2 runId hb),
    h.distinct, h.sent, fun cancel hcancel => ?_, fun cancel hcancel hopen a hrun => ?_, h.once⟩,
    fun key => ?_⟩
  · obtain ⟨fence, hfence, hfence'⟩ := h.fenced cancel hcancel
    exact ⟨fence, List.mem_append_left _ hfence, hfence'⟩
  · exact (hruns a).1.trans (h.spent cancel hcancel hopen a ((hruns a).2 _ hrun))
  · exact {
      accepted := fun _ => id
      fences := fun fence hfence => List.mem_append_left _ hfence
      fence := fun a _ => (hruns a).1
      run := fun a _ => (hruns a).2
      cancel := fun _ _ _ => Iff.rfl }

/-- A step that changes the run or the fence of one attempt, where what holds of both is kept. -/
theorem Consistent.store_changed (h : host.Consistent config) {a : String}
    (hperform : host.store.perform config.parse op now fault = (store, result))
    (hop : op.attemptId = some a) (hderives : op.DerivesIds config.providerId config.agentOf)
    (hbegin : ∀ a keyHash, op = .beginRetirement (some a) keyHash → host.store.fence? a = none)
    (hrecorded : ∀ runId, store.run? a = some runId →
      ⟨config.providerId a, runId⟩ ∈ host.accepted)
    (hexclusive : ∀ runId, store.run? a = some runId →
      ∀ b, b ≠ a → host.store.run? b ≠ some runId)
    (hspent : ∀ cancel ∈ host.cancels, cancel.outcome ≠ some .rejected →
      store.run? a = some cancel.runId → store.fence? a = some cancel.runId) (caller : Nat) :
    let after := (host.storeStep config.parse caller op now fault).1
    after.Consistent config ∧ (∀ other, some (config.agentOf a) ≠ other →
      Rely config other host after) ∧ ∀ b, b ≠ a → after.store.fence? b = host.store.fence? b := by
  have hrecords := h.records hderives hbegin hperform
  have hsame : ∀ b, b ≠ a → store.run? b = host.store.run? b ∧ store.fence? b = host.store.fence? b := by
    intro b hb
    have hrecord := (ProvenanceStore.perform_record hperform b).1 fun heq =>
      hb (Option.some.inj (heq.symm.trans hop))
    rw [ProvenanceStore.run?, ProvenanceStore.fence?, hrecord]
    exact ⟨rfl, rfl⟩
  simp only [storeStep, hperform]
  refine ⟨⟨fun b record hrecord => (hrecords b record hrecord).1,
    fun b record hrecord => (hrecords b record hrecord).2, fun b runId hrun => ?_,
    fun b c runId hb hc => ?_, h.distinct, h.sent, fun cancel hcancel => ?_,
    fun cancel hcancel hopen b hrun => ?_, h.once⟩, fun other hother => ?_,
    fun b hb => (hsame b hb).2⟩
  · by_cases hb : b = a
    · subst hb
      exact hrecorded runId hrun
    · exact h.recorded b runId ((hsame b hb).1 ▸ hrun)
  · by_cases hba : b = a <;> by_cases hca : c = a
    · exact hba.trans hca.symm
    · subst hba
      exact absurd ((hsame c hca).1 ▸ hc) (hexclusive runId hb c hca)
    · subst hca
      exact absurd ((hsame b hba).1 ▸ hb) (hexclusive runId hc b hba)
    · exact h.exclusive b c runId ((hsame b hba).1 ▸ hb) ((hsame c hca).1 ▸ hc)
  · obtain ⟨fence, hfence, hfence'⟩ := h.fenced cancel hcancel
    exact ⟨fence, List.mem_append_left _ hfence, hfence'⟩
  · by_cases hb : b = a
    · subst hb
      exact hspent cancel hcancel hopen hrun
    · show store.fence? b = _
      rw [(hsame b hb).2]
      exact h.spent cancel hcancel hopen b ((hsame b hb).1 ▸ hrun)
  · have hne : ∀ b, other = some (config.agentOf b) → b ≠ a := by
      rintro b rfl rfl
      exact hother rfl
    exact {
      accepted := fun _ => id
      fences := fun fence hfence => List.mem_append_left _ hfence
      fence := fun b hb => (hsame b (hne b hb)).2
      run := fun b hb runId hrun => (hsame b (hne b hb)).1 ▸ hrun
      cancel := fun _ _ _ => Iff.rfl }

/-- The record that an operation rewrites is that of its attempt. -/
theorem perform_update {a : String} (hrewrites : op.rewrites = true)
    (hperform : host.store.perform config.parse op now fault = (store, result)) :
    store.record? a = host.store.record? a ∨ ∃ current updated updatedAt,
      host.store.record? a = some current ∧ op.Updates current updated ∧
        store.record? a = some (updated.stamped updatedAt) := by
  have hchange := (ProvenanceStore.perform_record hperform a).2
  generalize hbefore : host.store.record? a = stored at hchange
  generalize hafter : store.record? a = written at hchange
  cases hchange with
  | same => exact .inl rfl
  | reserve input heq =>
    subst heq
    cases hrewrites
  | update current updated updatedAt hupdates =>
    exact .inr ⟨current, updated, updatedAt, rfl, hupdates, rfl⟩
  | remove record hnot =>
    rw [hrewrites] at hnot
    cases hnot

/-- A new run of an attempt: it is accepted and neither recorded nor cancelled. -/
def Fresh (config : CursorConfig) (a runId : String) (host : CursorHost) : Prop :=
  ⟨config.providerId a, runId⟩ ∈ host.accepted ∧ (∀ cancel ∈ host.cancels, cancel.runId ≠ runId) ∧
    ∀ b, host.store.run? b ≠ some runId

/-- The fences after a step that changes the fence of one attempt. -/
theorem fenceStep_of {a : String}
    (hothers : ∀ b, b ≠ a → after.store.fence? b = before.store.fence? b)
    (hself : ∀ runId, before.store.fence? a = some runId → after.store.fence? a = some runId ∨
      (after.store.fence? a = none ∧ after.store.run? a = some runId ∧
        ∀ cancel ∈ before.cancels, cancel.runId = runId → cancel.outcome = some .rejected) ∨
      (after.store.fence? a = none ∧ ∃ next, next ≠ runId ∧ after.store.run? a = some next)) :
    FenceStep before after := by
  intro b runId hfence
  by_cases hb : b = a
  · subst hb
    exact hself runId hfence
  · exact .inl ((hothers b hb).trans hfence)

/-- The commit of a new run. -/
theorem Consistent.commitRun (h : host.Consistent config) {a runId : String}
    (hfresh : Fresh config a runId host) {caller : Nat} :
    let after := (host.storeStep config.parse caller (.commitRun (some a) (some runId)) now fault).1
    after.Consistent config ∧ Guarantee config (some (config.agentOf a)) host after := by
  obtain ⟨haccepted, hcancels, hruns⟩ := hfresh
  obtain ⟨⟨store, result⟩, hperform⟩ : ∃ stored,
      host.store.perform config.parse (.commitRun (some a) (some runId)) now fault = stored :=
    ⟨_, rfl⟩
  -- the run and the fence of the attempt are kept, or this run is recorded without a fence
  have hself : (store.run? a = host.store.run? a ∧ store.fence? a = host.store.fence? a) ∨
      (store.run? a = some runId ∧ store.fence? a = none) := by
    obtain hsame | ⟨current, updated, updatedAt, _, hupdates, hafter⟩ :=
      perform_update (a := a) rfl hperform
    · rw [ProvenanceStore.run?, ProvenanceStore.fence?, hsame]
      exact .inl ⟨rfl, rfl⟩
    · obtain ⟨_, _, rfl⟩ := hupdates
      rw [ProvenanceStore.run?, ProvenanceStore.fence?, hafter]
      exact .inr ⟨rfl, rfl⟩
  have hstep := h.store_changed hperform rfl trivial (fun _ _ hc => nomatch hc)
    (fun other hrun => ?_) (fun other hrun b hb => ?_) (fun cancel hcancel hopen hrun => ?_) caller
  · obtain ⟨hconsistent, hrely, hothers⟩ := hstep
    refine ⟨hconsistent, fun other hother => hrely other (hother.resolve_left (by simp)),
      fenceStep_of hothers fun old hfence => ?_⟩
    simp only [storeStep, hperform]
    obtain ⟨_, hkept⟩ | ⟨hrun, hcleared⟩ := hself
    · exact .inl (hkept.trans hfence)
    · refine .inr (.inr ⟨hcleared, runId, fun heq => ?_, hrun⟩)
      subst heq
      exact hruns a (h.run_of_fence hfence)
  · obtain ⟨hkept, _⟩ | ⟨hnew, _⟩ := hself
    · exact h.recorded a other (hkept.symm.trans hrun)
    · obtain rfl := Option.some.inj (hnew.symm.trans hrun)
      exact haccepted
  · obtain ⟨hkept, _⟩ | ⟨hnew, _⟩ := hself
    · exact fun hother => hb (h.exclusive b a other hother (hkept.symm.trans hrun))
    · obtain rfl := Option.some.inj (hnew.symm.trans hrun)
      exact hruns b
  · obtain ⟨hkept, hfence⟩ | ⟨hnew, _⟩ := hself
    · exact hfence.trans (h.spent cancel hcancel hopen a (hkept.symm.trans hrun))
    · exact absurd (Option.some.inj (hnew.symm.trans hrun)).symm (hcancels cancel hcancel)

/-- The fence of a cancellation: only its run is recorded as before. -/
theorem perform_beginCancel {a runId : String}
    (hperform : host.store.perform config.parse (.beginCancel (some a) (some runId)) now fault
      = (store, result)) :
    store.run? a = host.store.run? a ∧ (store.fence? a = host.store.fence? a ∨
      host.store.run? a = some runId ∧ host.store.fence? a = none ∧
        store.fence? a = some runId) := by
  obtain hsame | ⟨current, updated, updatedAt, hbefore, hupdates, hafter⟩ :=
    perform_update (a := a) rfl hperform
  · rw [ProvenanceStore.run?, ProvenanceStore.fence?, hsame]
    exact ⟨rfl, .inl rfl⟩
  · obtain ⟨_, _, _, hrun, hfence, rfl⟩ := hupdates
    simp only [ProvenanceStore.run?, ProvenanceStore.fence?, hafter, hbefore, Option.bind_some]
    exact ⟨rfl, .inr ⟨hrun, hfence, rfl⟩⟩

/-- The fence of a cancellation is set. -/
theorem Consistent.beginCancel (h : host.Consistent config) {a runId : String} {caller : Nat} :
    let after :=
      (host.storeStep config.parse caller (.beginCancel (some a) (some runId)) now fault).1
    after.Consistent config ∧ Guarantee config (some (config.agentOf a)) host after := by
  obtain ⟨⟨store, result⟩, hperform⟩ : ∃ stored,
      host.store.perform config.parse (.beginCancel (some a) (some runId)) now fault = stored :=
    ⟨_, rfl⟩
  obtain ⟨hrun, hfence⟩ := perform_beginCancel hperform
  have hstep := h.store_changed hperform rfl trivial (fun _ _ hc => nomatch hc)
    (fun other hrecorded => h.recorded a other (hrun ▸ hrecorded))
    (fun other hrecorded b hb hother => hb (h.exclusive b a other hother (hrun ▸ hrecorded)))
    (fun cancel hcancel hopen hrecorded => ?_) caller
  · obtain ⟨hconsistent, hrely, hothers⟩ := hstep
    refine ⟨hconsistent, fun other hother => hrely other (hother.resolve_left (by simp)),
      fenceStep_of hothers fun old hold => .inl ?_⟩
    simp only [storeStep, hperform]
    obtain hkept | ⟨_, hnone, _⟩ := hfence
    · exact hkept.trans hold
    · rw [hold] at hnone
      cases hnone
  · have hset := h.spent cancel hcancel hopen a (hrun ▸ hrecorded)
    obtain hkept | ⟨_, hnone, _⟩ := hfence
    · exact hkept.trans hset
    · rw [hset] at hnone
      cases hnone

/-- The fence of a cancellation is cleared where every CancelRun request for its run was rejected. -/
theorem Consistent.restoreCancel (h : host.Consistent config) {a runId : String}
    (hrejected : ∀ cancel ∈ host.cancels, cancel.runId = runId → cancel.outcome = some .rejected)
    {caller : Nat} :
    let after :=
      (host.storeStep config.parse caller (.restoreCancel (some a) (some runId)) now fault).1
    after.Consistent config ∧ Guarantee config (some (config.agentOf a)) host after := by
  obtain ⟨⟨store, result⟩, hperform⟩ : ∃ stored,
      host.store.perform config.parse (.restoreCancel (some a) (some runId)) now fault = stored :=
    ⟨_, rfl⟩
  have hself : store.run? a = host.store.run? a ∧ (store.fence? a = host.store.fence? a ∨
      host.store.run? a = some runId ∧ host.store.fence? a = some runId ∧
        store.fence? a = none) := by
    obtain hsame | ⟨current, updated, updatedAt, hbefore, hupdates, hafter⟩ :=
      perform_update (a := a) rfl hperform
    · rw [ProvenanceStore.run?, ProvenanceStore.fence?, hsame]
      exact ⟨rfl, .inl rfl⟩
    · obtain ⟨_, hrun, hfence, rfl⟩ := hupdates
      simp only [ProvenanceStore.run?, ProvenanceStore.fence?, hafter, hbefore, Option.bind_some]
      exact ⟨rfl, .inr ⟨hrun, hfence, rfl⟩⟩
  obtain ⟨hrun, hfence⟩ := hself
  have hstep := h.store_changed hperform rfl trivial (fun _ _ hc => nomatch hc)
    (fun other hrecorded => h.recorded a other (hrun ▸ hrecorded))
    (fun other hrecorded b hb hother => hb (h.exclusive b a other hother (hrun ▸ hrecorded)))
    (fun cancel hcancel hopen hrecorded => ?_) caller
  · obtain ⟨hconsistent, hrely, hothers⟩ := hstep
    refine ⟨hconsistent, fun other hother => hrely other (hother.resolve_left (by simp)),
      fenceStep_of hothers fun old hold => ?_⟩
    simp only [storeStep, hperform]
    obtain hkept | ⟨hcurrent, hset, hnone⟩ := hfence
    · exact .inl (hkept.trans hold)
    · obtain rfl := Option.some.inj (hset.symm.trans hold)
      exact .inr (.inl ⟨hnone, hrun.trans hcurrent, hrejected⟩)
  · have hset := h.spent cancel hcancel hopen a (hrun ▸ hrecorded)
    obtain hkept | ⟨hcurrent, _, _⟩ := hfence
    · exact hkept.trans hset
    · have hid := Option.some.inj (hrecorded.symm.trans (hrun.trans hcurrent))
      exact absurd (hrejected cancel hcancel hid) hopen

end

/-! ### The other actions -/

/-- The invariant is about the store and the requests alone. -/
theorem Consistent.of_eq (h : before.Consistent config) (hstore : after.store = before.store)
    (haccepted : after.accepted = before.accepted) (hcancels : after.cancels = before.cancels)
    (hfences : after.fences = before.fences) :
    after.Consistent config ∧ ∀ key, Rely config key before after := by
  obtain ⟨store, activeRuns, accepted, cancels, fences⟩ := after
  cases hstore
  cases haccepted
  cases hcancels
  cases hfences
  exact ⟨⟨h.valid, h.settled, h.recorded, h.exclusive, h.distinct, h.sent, h.fenced, h.spent, h.once⟩,
    fun key => ⟨fun _ => id, fun _ => id, fun _ _ => rfl, fun _ _ _ => id, fun _ _ _ => Iff.rfl⟩⟩

/-- An accepted Send. -/
theorem Consistent.send (h : host.Consistent config) {run : RunIdentity}
    (hnew : run.runId ∉ host.accepted.map RunIdentity.runId) (activeRuns : String → Option ActiveRun) :
    let after := { host with accepted := host.accepted ++ [run], activeRuns := activeRuns }
    after.Consistent config ∧ ∀ key, Rely config key host after := by
  refine ⟨⟨h.valid, h.settled, fun a runId hrun => List.mem_append_left _ (h.recorded a runId hrun),
    h.exclusive, ?_, fun cancel hcancel => List.mem_append_left _ (h.sent cancel hcancel), h.fenced,
    h.spent, h.once⟩, fun key => ⟨fun _ => List.mem_append_left _, fun _ => id, fun _ _ => rfl,
    fun _ _ _ => id, fun _ _ _ => Iff.rfl⟩⟩
  show ((host.accepted ++ [run]).map RunIdentity.runId).Nodup
  rw [List.map_append, List.nodup_append]
  refine ⟨h.distinct, List.nodup_singleton _, fun runId hrunId other hother heq => ?_⟩
  rw [List.map_singleton, List.mem_singleton] at hother
  exact hnew (hother ▸ heq ▸ hrunId)

/-- The actions that no call can notice. -/
def Quiet (config : CursorConfig) : CursorAction → Prop
  | .store op => op.unfenced = true ∧ op.DerivesIds config.providerId config.agentOf
  | .requestCancel _ _ | .cancelResponse _ => False
  | _ => True

/-- **Quiet actions.** What they do keeps the invariant, and every call may rely on it. -/
theorem Consistent.quiet (h : host.Consistent config) {action : CursorAction}
    (hquiet : Quiet config action) {caller : Nat} {choice : CursorChoice}
    {reply : CursorReply action}
    (hperform : host.perform config.parse caller action choice = some (after, reply)) :
    after.Consistent config ∧ ∀ key, Rely config key host after := by
  cases action with
  | store op =>
    obtain ⟨hunfenced, hderives⟩ := hquiet
    have hkeeps : op.keepsRuns = true := by cases op <;> first | exact hunfenced | cases hunfenced
    have hbegin : ∀ a keyHash, op = .beginRetirement (some a) keyHash →
        host.store.fence? a = none := by
      rintro a keyHash rfl
      cases hunfenced
    cases choice <;> cases hperform
    exact h.store_kept hderives hbegin hkeeps
  | requestCancel _ _ | cancelResponse _ => exact hquiet.elim
  | sendLocal agentId =>
    cases choice with
    | sent outcome =>
      cases outcome with
      | error error =>
        cases hperform
        exact h.of_eq rfl rfl rfl rfl
      | ok run =>
        simp only [perform] at hperform
        split at hperform
        case isFalse => cases hperform
        next hnew =>
        cases hperform
        exact h.send hnew.2 _
    | _ => cases hperform
  | _ =>
    cases choice <;> cases hperform
    exact h.of_eq rfl rfl rfl rfl

end CursorHost

end AgentHost
