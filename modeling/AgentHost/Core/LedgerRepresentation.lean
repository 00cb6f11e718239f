import AgentHost.Core.LedgerRuns

namespace AgentHost

/-!
# What every reachable launch ledger satisfies

Runs in which the operations are those of the coordinator and a failed write leaves the old
file.

* `Represents` — memory is valid, the file loads the same state, at most 32 records are
  undecided, and the tombstones are the retirements completed last, in order.
* `ledger_representation` — **Main**: every such run keeps it.
-/

/-- The last `limit` values of a list. -/
def newest {α : Type} (limit : Nat) (values : List α) : List α :=
  values.drop (values.length - limit)

/-- What is retained after more values come depends on the values retained before only. -/
theorem newest_append {α : Type} (limit : Nat) (old new : List α) :
    newest limit (newest limit old ++ new) = newest limit (old ++ new) := by
  have hdrop : newest limit old ++ new = (old ++ new).drop (old.length - limit) :=
    (List.drop_append_of_le_length (Nat.sub_le _ _)).symm
  rw [hdrop, newest, newest, List.drop_drop, List.length_drop, List.length_append]
  congr 1
  omega

theorem newest_of_length_le {α : Type} {limit : Nat} {values : List α}
    (h : values.length ≤ limit) : newest limit values = values := by
  rw [newest, Nat.sub_eq_zero_of_le h, List.drop_zero]

/-- The launches of the tombstones, in order. -/
def Ledger.tombstones (ledger : Ledger) : List String :=
  ledger.retirements.values.map Retirement.launchId

/-- An operation appends the retirement it completes and drops the oldest tombstones above the
    limit. -/
theorem LedgerOp.apply_tombstones {op : LedgerOp} {ledger next rollback : Ledger}
    {reply : LedgerReply} (hvalid : ledger.Valid)
    (hop : op.apply ledger = .persists next reply rollback) :
    next.tombstones = newest maxRetirements (ledger.tombstones ++ reply.completed) := by
  have hkeep : newest maxRetirements (ledger.tombstones ++ []) = ledger.tombstones := by
    rw [List.append_nil]
    refine newest_of_length_le ?_
    rw [Ledger.tombstones, List.length_map]
    exact hvalid.retirements_le
  cases op with
  | reserve id attemptId keyHash signature request now =>
    obtain ⟨record, -, -, -, -, -, rfl, rfl, -⟩ := Ledger.reserve_persists hop
    exact hkeep.symm
  | transition id expectedStates patch now =>
    obtain ⟨current, record, -, -, -, -, rfl, rfl, -⟩ := Ledger.transition_persists hop
    exact hkeep.symm
  | beginRetirement id keyHash now =>
    obtain ⟨current, record, -, -, -, -, -, -, rfl, rfl, -⟩ := Ledger.beginRetirement_persists hop
    exact hkeep.symm
  | completeRetirement id now scope =>
    obtain ⟨current, entry, hget, -, rfl, -, rfl, rfl, -⟩ := Ledger.completeRetirement_persists hop
    have hid : (retirementEntry current now scope).launchId = current.id := rfl
    have hvalues := Ledger.completed_retirements hvalid (InsertionMap.mem_of_get? hget) hid
    rw [Ledger.tombstones, hvalues, List.map_drop, List.map_append, newest, List.length_append,
      Ledger.tombstones, List.length_map]
    rfl
  | completeRetirementCleanup id keyHash =>
    obtain ⟨cleanup, -, -, rfl, rfl, -⟩ := Ledger.completeRetirementCleanup_persists hop
    exact (Ledger.releasedRetirements_map _ cleanup _ fun _ => rfl).trans hkeep.symm
  | cancelRetirement id keyHash now =>
    obtain ⟨current, record, -, -, -, -, -, rfl, rfl, -⟩ := Ledger.cancelRetirement_persists hop
    exact hkeep.symm

namespace LedgerHost

variable {host host' : LedgerHost}

/-- The steps of the coordinator under failed writes that leave the old file. -/
def CleanStep (_ : LedgerHost) : LedgerEvent → Prop
  | .call op fault => op.ByCoordinator ∧ fault.any WriteStep.afterRename = false
  | .crash op _ => op.ByCoordinator
  | .reopen => True

instance (host : LedgerHost) (event : LedgerEvent) : Decidable (host.CleanStep event) := by
  cases event <;> simp only [CleanStep] <;> infer_instance

/-- What a clean run keeps. -/
structure Represents (host : LedgerHost) : Prop where
  sound : host.Sound
  agrees : Agrees host.disk host.memory
  pending_le : host.memory.pendingCount ≤ maxPending
  tombstones_eq : host.memory.tombstones = newest maxRetirements host.completed

/-- Memory may be replaced by the same state in another order. -/
theorem Represents.of_same {memory : Ledger} (h : host.Represents) (hvalid : memory.Valid)
    (hsame : memory.SameState host.memory) : { host with memory := memory }.Represents := by
  obtain ⟨loaded, hloads, hloaded⟩ := h.agrees
  refine ⟨⟨hvalid, List.Subset.trans hsame.identities_subset h.sound.memory_issued,
    h.sound.disk_loads⟩, ⟨loaded, hloads, hloaded.trans hsame.symm⟩, ?_, ?_⟩
  · exact (hsame.records.countP_eq _).trans_le h.pending_le
  · rw [Ledger.tombstones, hsame.retirements]
    exact h.tombstones_eq

/-- The file may be rewritten with the content it had. -/
theorem Represents.of_file {disk : PrivateFile LedgerDocument} (h : host.Represents)
    (hfile : disk.file = host.disk.file) : { host with disk := disk }.Represents := by
  obtain ⟨loaded, ⟨document, hold, hopen⟩, hsame⟩ := h.agrees
  obtain ⟨ledger, ⟨document', hold', hopen'⟩, hvalid, hissued⟩ := h.sound.disk_loads
  exact ⟨⟨h.sound.memory_valid, h.sound.memory_issued,
    ledger, ⟨document', hfile.trans hold', hopen'⟩, hvalid, hissued⟩,
    ⟨loaded, ⟨document, hfile.trans hold, hopen⟩, hsame⟩, h.pending_le, h.tombstones_eq⟩

theorem Represents.issue (h : host.Represents) (op : LedgerOp) : (host.issue op).Represents :=
  ⟨h.sound.issue op, h.agrees, h.pending_le, h.tombstones_eq⟩

/-- The persisted next state, in memory and on disk. -/
theorem Represents.of_next (h : host.Represents) {op : LedgerOp} {next rollback : Ledger}
    {reply : LedgerReply} {document : LedgerDocument} {disk : PrivateFile LedgerDocument}
    (hfresh : host.IsFresh op) (hcoordinator : op.ByCoordinator)
    (hop : op.apply host.memory = .persists next reply rollback)
    (hdocument : next.persist = .ok document) (hfile : disk.file = some document) :
    ({ host with
      memory := next, disk, completed := host.completed ++ reply.completed }.issue op).Represents := by
  have hpermitted := hfresh.permitted h.sound.memory_issued
  obtain ⟨hnext, hissued⟩ := h.sound.next hfresh hop
  obtain ⟨loaded, hloads, -, hsame⟩ := loads_persisted hnext hdocument hfile
  refine ⟨h.sound.of_written hfresh hop hdocument (.inl hfile) hnext hissued,
    ⟨loaded, hloads, hsame.toSameState⟩,
    LedgerOp.apply_pendingCount h.pending_le hpermitted hcoordinator hop, ?_⟩
  have htombstones := LedgerOp.apply_tombstones h.sound.memory_valid hop
  rw [h.tombstones_eq, newest_append] at htombstones
  exact htombstones

theorem Represents.reopen (h : host.Represents) (hstep : host.reopen = some host') :
    host'.Represents := by
  obtain ⟨loaded, ⟨document, hfile, hopen⟩, hsame⟩ := h.agrees
  have hsound := (h.sound.reopen hstep).1
  simp only [LedgerHost.reopen, hfile, hopen, Option.some.injEq] at hstep
  subst hstep
  exact h.of_same hsound.memory_valid hsame

theorem Represents.call (h : host.Represents) {op : LedgerOp} {fault : Option WriteStep}
    (hfresh : host.IsFresh op) (hclean : host.CleanStep (.call op fault)) :
    ((host.call op fault).1.issue op).Represents := by
  have hpermitted := hfresh.permitted h.sound.memory_issued
  have hcalled := call_called host op fault
  generalize (host.call op fault).1 = after, (host.call op fault).2 = result at hcalled
  cases hcalled with
  | threw hop => exact h.issue op
  | returned hop => exact h.issue op
  | refused hop herror =>
    obtain ⟨hvalid, hsame⟩ := rollback_valid h.sound.memory_valid hpermitted hop
    exact (h.of_same hvalid hsame.toSameState).issue op
  | wrote hop hdocument hfault hfile => exact h.of_next hfresh hclean.1 hop hdocument hfile
  | failed hop hdocument hfault hfile =>
    -- the write failed before the rename
    obtain ⟨hvalid, hsame⟩ := rollback_valid h.sound.memory_valid hpermitted hop
    have hlate := hclean.2
    rw [hfault, Option.any_some] at hlate
    rw [hlate] at hfile
    exact ((h.of_file hfile).of_same hvalid hsame.toSameState).issue op

theorem Represents.crash (h : host.Represents) {op : LedgerOp} {before : WriteStep}
    (hfresh : host.IsFresh op) (hcoordinator : op.ByCoordinator)
    (hstep : ((host.crash op before).issue op).reopen = some host') : host'.Represents := by
  unfold LedgerHost.crash at hstep
  split at hstep
  · next next reply rollback hop =>
    split at hstep
    · next document hdocument =>
      have hfile := crashedWrite_file document before host.disk
      split at hfile
      · next hafter =>
        -- the file is the next state's: what is reopened is that state
        simp only [hafter, if_true] at hstep
        have hnext := h.of_next hfresh hcoordinator hop hdocument hfile
        exact hnext.reopen (by simpa [LedgerHost.reopen, LedgerHost.issue] using hstep)
      · next hbefore =>
        simp only [hbefore, Bool.false_eq_true, if_false] at hstep
        exact ((h.of_file hfile).issue op).reopen hstep
    · exact (h.issue op).reopen hstep
  · exact (h.issue op).reopen hstep

theorem Represents.step (h : host.Represents) {event : LedgerEvent}
    (hclean : host.CleanStep event) (hstep : host.step event = some host') :
    host'.Represents := by
  cases event with
  | call op fault =>
    simp only [LedgerHost.step] at hstep
    split at hstep
    · next hfresh =>
      cases hstep
      exact h.call hfresh hclean
    · cases hstep
  | crash op before =>
    simp only [LedgerHost.step] at hstep
    split at hstep
    · next hfresh => exact h.crash hfresh hclean hstep
    · cases hstep
  | reopen => exact h.reopen hstep

theorem start_represents : start.Represents where
  sound := start_sound
  agrees := ⟨.initial, ⟨_, rfl, openDocument_initialDocument⟩, .refl _⟩
  pending_le := by decide
  tombstones_eq := rfl

theorem represents_of_reachable (h : ledgerSystem.ReachableWhile CleanStep host) :
    host.Represents :=
  h.invariant (fun _ hinit => hinit ▸ start_represents) fun _ _ _ hr hclean hstep =>
    hr.step hclean hstep

end LedgerHost

/-- **Main**: the representation invariant and the persisted round trip of every run whose
    operations are the coordinator's and whose failed writes leave the old file.  Identities
    and idempotency hashes are pairwise different, the capacities hold, the tombstones are the
    retirements completed last, and the file loads the same records, the same tombstones in
    the same order and the same cleanups. -/
theorem ledger_representation {host : LedgerHost}
    (h : ledgerSystem.ReachableWhile LedgerHost.CleanStep host) :
    host.memory.launchIds.Nodup ∧ host.memory.attemptIds.Nodup ∧ host.memory.keyHashes.Nodup ∧
      host.memory.records.size ≤ 1000 ∧ host.memory.pendingCount ≤ 32 ∧
      host.memory.retirements.size ≤ 100 ∧
      host.memory.tombstones = newest 100 host.completed ∧
      host.memory.retirementCleanups.size + host.memory.retiringCount ≤ 1000 ∧
      ∃ document opened, host.disk.file = some document ∧ openDocument document = .ok opened ∧
        opened.records.values.Perm host.memory.records.values ∧
        opened.retirements.values = host.memory.retirements.values ∧
        opened.retirementCleanups.values.Perm host.memory.retirementCleanups.values := by
  have hr := LedgerHost.represents_of_reachable h
  have hvalid := hr.sound.memory_valid
  obtain ⟨opened, ⟨document, hfile, hopen⟩, hsame⟩ := hr.agrees
  exact ⟨hvalid.launchIds_nodup, hvalid.attemptIds_nodup, hvalid.keyHashes_nodup,
    hvalid.records_le, hr.pending_le, hvalid.retirements_le, hr.tombstones_eq, hvalid.cleanups_le,
    document, opened, hfile, hopen, hsame.records, by rw [hsame.retirements], hsame.cleanups⟩

/-- A run that reserves a launch and reopens the ledger. -/
theorem ledger_representation_reserved :
    ∃ host : LedgerHost, host.memory.records.size = 1 ∧ host.memory.launchIds.Nodup := by
  have hrun : ∃ host ∈ (ledgerSystem.restrict LedgerHost.CleanStep).run LedgerHost.start
      [.call sampleReserve none, .reopen], host.memory.records.size = 1 := by
    decide +kernel
  obtain ⟨host, hhost, hsize⟩ := hrun
  exact ⟨host, hsize, (ledger_representation (.ofRun (.init rfl) hhost)).1⟩

end AgentHost
