import AgentHost.Core.LedgerRuns

namespace AgentHost

/-!
# Atomicity of the ledger operations

What an operation that throws leaves in memory and on disk, for every step of the private
write that may fail.  A step up to the rename leaves both as they were.  A step after it
throws as well, and memory is rolled back, but the file is replaced already.

* `LedgerHost.Atomic` — the operation either throws and leaves memory and file as they were,
  or returns and leaves the new state in both.
* `ledger_atomic_iff` — **Main**: the operations of a run are all atomic exactly if no write
  of a changed state fails after its rename.
-/

/-- The state an operation computes: the current one where it writes nothing. -/
def LedgerOp.target (op : LedgerOp) (ledger : Ledger) : Ledger :=
  (op.apply ledger).next?.getD ledger

namespace LedgerHost

variable {host host' : LedgerHost}

/-- An operation is atomic: where it throws, memory is what it was and a reopening would load
    it; where it returns, both are the state it computes. -/
def Atomic (host : LedgerHost) (op : LedgerOp) (fault : Option WriteStep) : Prop :=
  let after := host.call op fault
  let expected := if after.2.isOk then op.target host.memory else host.memory
  after.1.memory.SameState expected ∧ Agrees after.1.disk expected

/-- The operation passes its checks and gets to write a state that is not the current one. -/
def Changes (host : LedgerHost) (op : LedgerOp) : Prop :=
  ∃ next ∈ (op.apply host.memory).next?,
    next.persist.isOk = true ∧ ¬ next.SameState host.memory

/-- The write of a changed state fails in a step after its rename. -/
def FailsAfterRename (host : LedgerHost) (op : LedgerOp) (fault : Option WriteStep) : Prop :=
  fault.any WriteStep.afterRename = true ∧ host.Changes op

instance (host : LedgerHost) (op : LedgerOp) (fault : Option WriteStep) :
    Decidable (host.FailsAfterRename op fault) := by
  unfold FailsAfterRename Changes
  infer_instance

/-- Only the content of the file counts. -/
theorem Agrees.of_file {disk disk' : PrivateFile LedgerDocument} {ledger : Ledger}
    (h : Agrees disk ledger) (hfile : disk'.file = disk.file) : Agrees disk' ledger := by
  obtain ⟨loaded, ⟨document, hold, hopen⟩, hsame⟩ := h
  exact ⟨loaded, ⟨document, hfile.trans hold, hopen⟩, hsame⟩

/-- Where memory and file agree, an operation is atomic unless it fails after the rename. -/
theorem atomic_iff (hsound : host.Sound) (hagrees : Agrees host.disk host.memory)
    {op : LedgerOp} (hfresh : host.IsFresh op) (fault : Option WriteStep) :
    host.Atomic op fault ↔ ¬ host.FailsAfterRename op fault := by
  have hpermitted := hfresh.permitted hsound.memory_issued
  unfold Atomic FailsAfterRename
  have hcalled := call_called host op fault
  generalize (host.call op fault) = after at hcalled ⊢
  obtain ⟨host', result⟩ := after
  dsimp only at hcalled ⊢
  cases hcalled with
  | threw hop => simp [Except.isOk, Except.toBool, Changes, LedgerOutcome.next?, hop, hagrees, Ledger.SameState.refl]
  | returned hop =>
    simp [Except.isOk, Except.toBool, Changes, LedgerOutcome.next?, LedgerOp.target, LedgerOutcome.next?, hop, hagrees,
      Ledger.SameState.refl]
  | refused hop herror =>
    have hsame := (rollback_valid hsound.memory_valid hpermitted hop).2.toSameState
    simp [Except.isOk, Except.toBool, Changes, LedgerOutcome.next?, hop, herror, hagrees, hsame]
  | wrote hop hdocument hfault hfile =>
    obtain ⟨loaded, hloads, -, hsame⟩ :=
      loads_persisted (hsound.next hfresh hop).1 hdocument hfile
    simp only [Except.isOk, Except.toBool, LedgerOp.target, LedgerOutcome.next?, hop, hfault, if_true, Option.any_none,
      Bool.false_eq_true, false_and, not_false_eq_true, iff_true]
    exact ⟨.refl _, loaded, hloads, hsame.toSameState⟩
  | @failed next rollback reply document disk step hop hdocument hfault hfile =>
    have hback := (rollback_valid hsound.memory_valid hpermitted hop).2.toSameState
    have hok : next.persist.isOk = true := by rw [hdocument]; rfl
    subst hfault
    by_cases hafter : step.afterRename = true
    · -- the file is the next state's: it agrees with memory only if nothing changed
      rw [if_pos hafter] at hfile
      obtain ⟨loaded, hloads, -, hsame⟩ :=
        loads_persisted (hsound.next hfresh hop).1 hdocument hfile
      have hchanged : Agrees disk host.memory ↔ next.SameState host.memory := by
        constructor
        · rintro ⟨other, hother, hmemory⟩
          exact hsame.toSameState.symm.trans (hother.unique hloads ▸ hmemory)
        · exact fun hnext => ⟨loaded, hloads, hsame.toSameState.trans hnext⟩
      simp [Except.isOk, Except.toBool, Changes, LedgerOutcome.next?, hop, hafter, hback, hchanged, hdocument]
    · rw [if_neg hafter] at hfile
      simp [Except.isOk, Except.toBool, hafter, hback, hagrees.of_file hfile]

/-- The condition on a step: an operation of the run is atomic. -/
def AtomicStep (host : LedgerHost) : LedgerEvent → Prop
  | .call op fault => host.Atomic op fault
  | _ => True

/-- The condition on a step: no write of a changed state fails after its rename. -/
def RenameIsLast (host : LedgerHost) : LedgerEvent → Prop
  | .call op fault => ¬ host.FailsAfterRename op fault
  | _ => True

/-- A step whose write does not fail after the rename leaves memory and file in agreement. -/
theorem agrees_step {event : LedgerEvent} (hsound : host.Sound)
    (hagrees : Agrees host.disk host.memory) (hlast : host.RenameIsLast event)
    (hstep : host.step event = some host') : Agrees host'.disk host'.memory := by
  have hreopened : ∀ before : LedgerHost, before.Sound → before.reopen = some host' →
      Agrees host'.disk host'.memory := fun before hb hr =>
    ⟨_, (hb.reopen hr).2, Ledger.SameState.refl _⟩
  cases event with
  | call op fault =>
    simp only [LedgerHost.step] at hstep
    split at hstep
    · next hfresh =>
      cases hstep
      obtain ⟨hmemory, loaded, hloads, hdisk⟩ := (atomic_iff hsound hagrees hfresh fault).mpr hlast
      exact ⟨loaded, hloads, hdisk.trans hmemory.symm⟩
    · cases hstep
  | crash op before =>
    simp only [LedgerHost.step] at hstep
    split at hstep
    · next hfresh => exact hreopened _ (hsound.crash hfresh before) hstep
    · cases hstep
  | reopen => exact hreopened host hsound hstep

end LedgerHost

/-- **Main**: from an absent file, the operations of a run are all atomic, in memory and on
    disk, exactly if none of its writes of a changed state fails in a step after the rename. -/
theorem ledger_atomic_iff (events : List LedgerEvent) :
    ledgerSystem.AllSteps LedgerHost.AtomicStep LedgerHost.start events ↔
      ledgerSystem.AllSteps LedgerHost.RenameIsLast LedgerHost.start events := by
  refine TransitionSystem.allSteps_iff
    (I := fun host => host.Sound ∧ LedgerHost.Agrees host.disk host.memory) ?_ ?_ ?_ events
  · rintro host event host' ⟨hsound, hagrees⟩ hstep
    cases event with
    | call op fault =>
      have hfresh : host.IsFresh op := by
        by_contra hnot
        simp [ledgerSystem, LedgerHost.step, hnot] at hstep
      exact LedgerHost.atomic_iff hsound hagrees hfresh fault
    | _ => exact Iff.rfl
  · rintro host event host' ⟨hsound, hagrees⟩ hlast hstep
    exact ⟨hsound.step hstep, LedgerHost.agrees_step hsound hagrees hlast hstep⟩
  · exact ⟨LedgerHost.start_sound,
      .initial, ⟨_, rfl, openDocument_initialDocument⟩, .refl _⟩

/-- A reservation whose file mode cannot be set after the rename throws, but its record is in
    the file. -/
theorem reserve_not_atomic :
    ¬ ∀ events, ledgerSystem.AllSteps LedgerHost.AtomicStep LedgerHost.start events := by
  intro h
  have hstep := h [.call sampleReserve (some .chmod)] _ rfl
  have hfresh : LedgerHost.start.IsFresh sampleReserve := by decide
  have hlate : LedgerHost.start.FailsAfterRename sampleReserve (some .chmod) := by
    decide +kernel
  exact (LedgerHost.atomic_iff LedgerHost.start_sound
    ⟨.initial, ⟨_, rfl, openDocument_initialDocument⟩, .refl _⟩ hfresh _).mp hstep.1 hlate

end AgentHost
