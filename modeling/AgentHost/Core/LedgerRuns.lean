import AgentHost.Core.LedgerRoundTrip
import AgentHost.SecureState
import AgentHost.Lib.TransitionSystem

namespace AgentHost

/-!
# Runs of the launch ledger over its file

An open ledger with its file: operations one after the other, each with the step of the
private write that fails, if any; reopenings; and crashes in the middle of a write.

* `LedgerHost.call` — one operation: decide, check the sizes, write, and roll memory back by
  hand where that fails.
* `LedgerHost.Sound` — memory and file both hold a valid ledger.  Every run keeps it
  (`LedgerHost.sound_of_reachable`).
* `LedgerHost.Agrees` — a reopening would load what memory holds.
-/

/-- An open ledger and its file; the identities generated so far and the launches whose
    retirement completed, oldest first. -/
structure LedgerHost where
  memory : Ledger
  disk : PrivateFile LedgerDocument
  issued : List (String × String)
  completed : List String

/-- What happens to a ledger.  A crash comes right before the given step of the write. -/
inductive LedgerEvent
  | call (op : LedgerOp) (fault : Option WriteStep)
  | crash (op : LedgerOp) (before : WriteStep)
  | reopen

/-- The operation of an event. -/
def LedgerEvent.op? : LedgerEvent → Option LedgerOp
  | .call op _ => some op
  | .crash op _ => some op
  | .reopen => none

/-- The identities an operation generates. -/
def LedgerOp.identities : LedgerOp → List (String × String)
  | .reserve id attemptId _ _ _ _ => [(id, attemptId)]
  | _ => []

/-- The identities a ledger mentions. -/
def Ledger.identities (ledger : Ledger) : List (String × String) :=
  ledger.records.values.map (fun record => (record.id, record.attemptId)) ++
    ledger.retirements.values.map (fun entry => (entry.launchId, entry.attemptId)) ++
    ledger.retirementCleanups.values.map (fun cleanup => (cleanup.launchId, cleanup.attemptId))

/-- The launches a reply reports as retired. -/
def LedgerReply.completed : LedgerReply → List String
  | .retirement entry => [entry.launchId]
  | _ => []

namespace LedgerHost

variable (host : LedgerHost)

/-- The ledger of an absent file. -/
def start : LedgerHost := ⟨.initial, ⟨some initialDocument, none⟩, [], []⟩

/-- One operation of the ledger: what it leaves, and what it returns or throws. -/
def call (op : LedgerOp) (fault : Option WriteStep) :
    LedgerHost × Except LedgerError LedgerReply :=
  match op.apply host.memory with
  | .throws error => (host, .error error)
  | .returns reply => (host, .ok reply)
  | .persists next reply rollback =>
    match next.persist with
    | .error error => ({ host with memory := rollback }, .error error)
    | .ok document =>
      let written := writePrivateFileAtomic document fault host.disk
      if written.2 then
        ({ host with
          memory := next
          disk := written.1
          completed := host.completed ++ reply.completed }, .ok reply)
      else ({ host with memory := rollback, disk := written.1 }, .error .writeFailed)

/-- Read the file again. -/
def reopen : Option LedgerHost :=
  match host.disk.file with
  | none => none
  | some document =>
    match openDocument document with
    | .error _ => none
    | .ok ledger => some { host with memory := ledger }

/-- The process dies right before a step of the write of an operation. -/
def crash (op : LedgerOp) (before : WriteStep) : LedgerHost :=
  match op.apply host.memory with
  | .persists next reply _ =>
    match next.persist with
    | .ok document =>
      { host with
        disk := crashedWrite document before host.disk
        completed :=
          if before.afterRename then host.completed ++ reply.completed else host.completed }
    | .error _ => host
  | _ => host

/-- Identities are generated at random: none comes twice. -/
def IsFresh (op : LedgerOp) : Prop :=
  ∀ identity ∈ op.identities, ∀ old ∈ host.issued,
    identity.1 ≠ old.1 ∧ identity.2 ≠ old.2

instance (op : LedgerOp) : Decidable (host.IsFresh op) := by unfold IsFresh; infer_instance

/-- Record the identities of an operation. -/
def issue (op : LedgerOp) : LedgerHost := { host with issued := host.issued ++ op.identities }

/-- One event of a run. -/
def step : LedgerEvent → Option LedgerHost
  | .call op fault => if host.IsFresh op then some ((host.call op fault).1.issue op) else none
  | .crash op before => if host.IsFresh op then ((host.crash op before).issue op).reopen else none
  | .reopen => host.reopen

end LedgerHost

/-- The runs of a ledger, from an absent file. -/
def ledgerSystem : TransitionSystem LedgerHost LedgerEvent where
  init := fun host => host = LedgerHost.start
  step := LedgerHost.step

/-- A reservation, for the runs that are replayed. -/
def sampleReserve : LedgerOp :=
  .reserve "launch:00000000-0000-4000-8000-000000000000"
    "attempt:00000000-0000-4000-8000-000000000000"
    "aaaaaaaaaaaaaaaaaaaaaaaaaaaaaaaaaaaaaaaaaaa" "sssssssssssssssssssssssssssssssssssssssssss"
    ⟨"cursor-sdk", "local", "default", "agent", ⟨true, false⟩, "1"⟩ 1756080000000

/-- Its first transition. -/
def sampleCreating : LedgerOp :=
  .transition "launch:00000000-0000-4000-8000-000000000000" [.requested]
    { state := some .creating, error := some none } 1756080001000

/-- Its agent is created. -/
def sampleOwned : LedgerOp :=
  .transition "launch:00000000-0000-4000-8000-000000000000" [.creating]
    { state := some .owned, providerAgentId := some "bc-1", agentId := some "cursor-sdk:1" }
    1756080002000

/-- Its retirement begins. -/
def sampleBegin : LedgerOp :=
  .beginRetirement "launch:00000000-0000-4000-8000-000000000000"
    "rrrrrrrrrrrrrrrrrrrrrrrrrrrrrrrrrrrrrrrrrrr" 1756080003000

/-! ### Identities -/

namespace Ledger

variable {ledger next : Ledger}

theorem mem_identities {identity : String × String} :
    identity ∈ ledger.identities ↔
      (∃ record ∈ ledger.records.values, (record.id, record.attemptId) = identity) ∨
      (∃ entry ∈ ledger.retirements.values, (entry.launchId, entry.attemptId) = identity) ∨
      ∃ cleanup ∈ ledger.retirementCleanups.values,
        (cleanup.launchId, cleanup.attemptId) = identity := by
  simp only [identities, List.mem_append, List.mem_map, or_assoc]

/-- A stored record adds its own identity only. -/
theorem identities_set {record : LaunchRecord} {identity : String × String}
    (h : identity ∈ { ledger with records := ledger.records.set record }.identities) :
    identity ∈ ledger.identities ∨ identity = (record.id, record.attemptId) := by
  rcases mem_identities.mp h with ⟨other, ho, rfl⟩ | h | h
  · rcases InsertionMap.mem_set.mp ho with rfl | ⟨ho, _⟩
    · exact .inr rfl
    · exact .inl (mem_identities.mpr (.inl ⟨other, ho, rfl⟩))
  · exact .inl (mem_identities.mpr (.inr (.inl h)))
  · exact .inl (mem_identities.mpr (.inr (.inr h)))

/-- A record stored again under its identities adds none. -/
theorem identities_replace {current r : LaunchRecord} {id : String}
    (hget : ledger.records.get? id = some current)
    (hsame : (r.id, r.attemptId) = (current.id, current.attemptId)) :
    { ledger with records := ledger.records.set r }.identities ⊆ ledger.identities := by
  intro identity h
  rcases identities_set h with h | rfl
  · exact h
  · exact mem_identities.mpr (.inl ⟨current, InsertionMap.mem_of_get? hget, hsame.symm⟩)

theorem identities_completed {current : LaunchRecord} {id : String} {now : Timestamp}
    {scope : Option String} (hget : ledger.records.get? id = some current) :
    (ledger.completed current (retirementEntry current now scope)).identities ⊆
      ledger.identities := by
  have hcurrent : (current.id, current.attemptId) ∈ ledger.identities :=
    mem_identities.mpr (.inl ⟨current, InsertionMap.mem_of_get? hget, rfl⟩)
  intro identity h
  rcases mem_identities.mp h with ⟨record, hr, rfl⟩ | ⟨entry, he, rfl⟩ | ⟨cleanup, hc, rfl⟩
  · exact mem_identities.mpr (.inl ⟨record, (InsertionMap.mem_delete.mp hr).1, rfl⟩)
  · rcases InsertionMap.mem_set.mp (List.mem_of_mem_drop he) with rfl | ⟨he, _⟩
    · exact hcurrent
    · exact mem_identities.mpr (.inr (.inl ⟨entry, he, rfl⟩))
  · have hc : cleanup = retirementCleanup (retirementEntry current now scope) ∨
        cleanup ∈ ledger.retirementCleanups.values := by
      simp only [completed] at hc
      split at hc
      · exact (InsertionMap.mem_set.mp hc).imp_right And.left
      · exact .inr (InsertionMap.mem_delete.mp hc).1
    rcases hc with rfl | hc
    · exact hcurrent
    · exact mem_identities.mpr (.inr (.inr ⟨cleanup, hc, rfl⟩))

theorem identities_released (cleanup : RetirementCleanup) :
    { ledger with
      retirementCleanups := ledger.retirementCleanups.delete cleanup.launchId
      retirements := ledger.releasedRetirements cleanup }.identities ⊆ ledger.identities := by
  intro identity h
  rcases mem_identities.mp h with h | ⟨entry, he, rfl⟩ | ⟨other, ho, rfl⟩
  · exact mem_identities.mpr (.inl h)
  · simp only [releasedRetirements] at he
    split at he
    · exact mem_identities.mpr (.inr (.inl ⟨entry, he, rfl⟩))
    · next retirement hretirement =>
      split at he
      · rcases InsertionMap.mem_set.mp he with rfl | ⟨he, _⟩
        · exact mem_identities.mpr
            (.inr (.inl ⟨retirement, InsertionMap.mem_of_get? hretirement, rfl⟩))
        · exact mem_identities.mpr (.inr (.inl ⟨entry, he, rfl⟩))
      · exact mem_identities.mpr (.inr (.inl ⟨entry, he, rfl⟩))
  · exact mem_identities.mpr (.inr (.inr ⟨other, (InsertionMap.mem_delete.mp ho).1, rfl⟩))

/-- Equal states mention the same identities. -/
theorem SameState.identities_subset {other : Ledger} (h : ledger.SameState other) :
    ledger.identities ⊆ other.identities := by
  intro identity hm
  refine mem_identities.mpr ?_
  rcases mem_identities.mp hm with ⟨record, hr, rfl⟩ | hm | ⟨cleanup, hc, rfl⟩
  · exact .inl ⟨record, h.records.mem_iff.mp hr, rfl⟩
  · exact .inr (.inl (h.retirements ▸ hm))
  · exact .inr (.inr ⟨cleanup, h.cleanups.mem_iff.mp hc, rfl⟩)

end Ledger

/-- An operation mentions no identities but the ledger's and those it generates. -/
theorem LedgerOp.apply_identities {op : LedgerOp} {ledger next rollback : Ledger}
    {reply : LedgerReply} (hop : op.apply ledger = .persists next reply rollback) :
    next.identities ⊆ ledger.identities ++ op.identities := by
  cases op with
  | reserve id attemptId keyHash signature request now =>
    obtain ⟨record, rfl, -, -, -, -, rfl, -⟩ := Ledger.reserve_persists hop
    intro identity h
    rcases Ledger.identities_set h with h | rfl
    · exact List.mem_append_left _ h
    · exact List.mem_append_right _ (List.mem_singleton.mpr rfl)
  | transition id expectedStates patch now =>
    obtain ⟨current, record, hget, -, hpatch, -, rfl, -⟩ := Ledger.transition_persists hop
    simpa [LedgerOp.identities] using Ledger.identities_replace hget (by rw [hpatch]; rfl)
  | beginRetirement id keyHash now =>
    obtain ⟨current, record, hget, -, -, -, rfl, -, rfl, -⟩ := Ledger.beginRetirement_persists hop
    simpa [LedgerOp.identities] using Ledger.identities_replace
      (r := Ledger.retiringRecord current keyHash now) hget rfl
  | completeRetirement id now scope =>
    obtain ⟨current, entry, hget, -, rfl, -, rfl, -⟩ := Ledger.completeRetirement_persists hop
    simpa [LedgerOp.identities] using Ledger.identities_completed hget
  | completeRetirementCleanup id keyHash =>
    obtain ⟨cleanup, hget, -, rfl, -⟩ := Ledger.completeRetirementCleanup_persists hop
    have hid : cleanup.launchId = id := InsertionMap.key_of_get? hget
    subst hid
    simpa [LedgerOp.identities] using Ledger.identities_released cleanup
  | cancelRetirement id keyHash now =>
    obtain ⟨current, record, hget, -, -, rfl, -, rfl, -⟩ := Ledger.cancelRetirement_persists hop
    simpa [LedgerOp.identities] using Ledger.identities_replace
      (r := Ledger.restoredRecord current now) hget rfl

namespace LedgerHost

variable {host host' : LedgerHost}

/-- A generated identity is not mentioned by a ledger of issued identities. -/
theorem IsFresh.permitted {op : LedgerOp} {ledger : Ledger} (h : host.IsFresh op)
    (hissued : ledger.identities ⊆ host.issued) : op.Permitted ledger := by
  cases op with
  | reserve id attemptId keyHash signature request now =>
    have hne := fun old (hold : old ∈ ledger.identities) =>
      h (id, attemptId) (List.mem_singleton.mpr rfl) old (hissued hold)
    have hrecord := fun record (hr : record ∈ ledger.records.values) =>
      hne _ (Ledger.mem_identities.mpr (.inl ⟨record, hr, rfl⟩))
    have hentry := fun entry (he : entry ∈ ledger.retirements.values) =>
      hne _ (Ledger.mem_identities.mpr (.inr (.inl ⟨entry, he, rfl⟩)))
    refine ⟨?_, ?_, fun cleanup hc => ?_⟩
    · simp only [Ledger.launchIds, List.mem_append, List.mem_map, not_or, not_exists, not_and]
      exact ⟨fun record hr => (hrecord record hr).1.symm, fun entry he => (hentry entry he).1.symm⟩
    · simp only [Ledger.attemptIds, List.mem_append, List.mem_map, not_or, not_exists, not_and]
      exact ⟨fun record hr => (hrecord record hr).2.symm, fun entry he => (hentry entry he).2.symm⟩
    · have := hne _ (Ledger.mem_identities.mpr (.inr (.inr ⟨cleanup, hc, rfl⟩)))
      exact ⟨this.1.symm, this.2.symm⟩
  | _ => trivial

/-! ### What every run keeps -/

/-- The file loads a given ledger. -/
def Loads (disk : PrivateFile LedgerDocument) (ledger : Ledger) : Prop :=
  ∃ document, disk.file = some document ∧ openDocument document = .ok ledger

/-- Memory and file each hold a valid ledger of issued identities. -/
structure Sound (host : LedgerHost) : Prop where
  memory_valid : host.memory.Valid
  memory_issued : host.memory.identities ⊆ host.issued
  disk_loads : ∃ ledger, Loads host.disk ledger ∧ ledger.Valid ∧ ledger.identities ⊆ host.issued

/-- A reopening would load what memory holds. -/
def Agrees (disk : PrivateFile LedgerDocument) (ledger : Ledger) : Prop :=
  ∃ loaded, Loads disk loaded ∧ loaded.SameState ledger

theorem start_sound : start.Sound where
  memory_valid := Ledger.initial_valid
  memory_issued := List.nil_subset _
  disk_loads := ⟨.initial, ⟨_, rfl, openDocument_initialDocument⟩, Ledger.initial_valid,
    List.nil_subset _⟩

/-- The two size checks a persisted document has passed. -/
theorem persist_ok {next : Ledger} {document : LedgerDocument} (h : next.persist = .ok document) :
    document = ledgerContent next ∧ (ledgerContent next).bytes ≤ maxLedgerBytes ∧
      (ledgerContent (projectRetirementCompletions next)).bytes ≤ maxLedgerBytes := by
  unfold Ledger.persist at h
  split at h
  · cases h
  next hcontent =>
  split at h
  · cases h
  next hprojection =>
  exact ⟨(Except.ok.inj h).symm, not_lt.mp hcontent, not_lt.mp hprojection⟩

/-- A file that holds a persisted document loads the persisted ledger. -/
theorem loads_persisted {next : Ledger} {document : LedgerDocument}
    {disk : PrivateFile LedgerDocument} (hvalid : next.Valid) (h : next.persist = .ok document)
    (hfile : disk.file = some document) :
    ∃ loaded, Loads disk loaded ∧ loaded.Valid ∧ loaded.Restores next := by
  obtain ⟨rfl, hbytes, -⟩ := persist_ok h
  obtain ⟨loaded, hopen, hrecords, hretirements, hcleanups, hloaded⟩ :=
    Ledger.openDocument_ledgerContent hvalid hbytes
  refine ⟨loaded, ⟨_, hfile, hopen⟩, hloaded, ⟨.of_eq (by rw [hrecords]), hretirements, hcleanups⟩,
    fun hexplicit => ?_⟩
  exact Ledger.explicit_of_openDocument hopen hexplicit

/-- A valid rollback: the ledger before the operation, perhaps in another order. -/
theorem rollback_valid {op : LedgerOp} {ledger next rollback : Ledger} {reply : LedgerReply}
    (hvalid : ledger.Valid) (hpermitted : op.Permitted ledger)
    (hop : op.apply ledger = .persists next reply rollback) :
    rollback.Valid ∧ rollback.Restores ledger := by
  obtain ⟨hsame, hcompact⟩ := LedgerOp.apply_rollback hpermitted hop
  refine ⟨hvalid.congr hsame.symm fun h entry he hscope => ?_, hsame, fun h => .inl (hcompact ▸ h)⟩
  have := hvalid.compact_scoped (hcompact ▸ h) entry (hsame.retirements ▸ he) hscope
  exact hsame.cleanups.mem_iff.mpr this

/-- The ways an operation ends. -/
inductive Called (host : LedgerHost) (op : LedgerOp) (fault : Option WriteStep) :
    LedgerHost → Except LedgerError LedgerReply → Prop
  | threw {error : LedgerError} : op.apply host.memory = .throws error →
      Called host op fault host (.error error)
  | returned {reply : LedgerReply} : op.apply host.memory = .returns reply →
      Called host op fault host (.ok reply)
  | refused {next rollback : Ledger} {reply : LedgerReply} {error : LedgerError} :
      op.apply host.memory = .persists next reply rollback → next.persist = .error error →
      Called host op fault { host with memory := rollback } (.error error)
  | wrote {next rollback : Ledger} {reply : LedgerReply} {document : LedgerDocument}
      {disk : PrivateFile LedgerDocument} :
      op.apply host.memory = .persists next reply rollback → next.persist = .ok document →
      fault = none → disk.file = some document →
      Called host op fault
        { host with memory := next, disk, completed := host.completed ++ reply.completed }
        (.ok reply)
  | failed {next rollback : Ledger} {reply : LedgerReply} {document : LedgerDocument}
      {disk : PrivateFile LedgerDocument} {step : WriteStep} :
      op.apply host.memory = .persists next reply rollback → next.persist = .ok document →
      fault = some step →
      disk.file = (if step.afterRename then some document else host.disk.file) →
      Called host op fault { host with memory := rollback, disk } (.error .writeFailed)

/-- Every operation ends in one of these ways. -/
theorem call_called (host : LedgerHost) (op : LedgerOp) (fault : Option WriteStep) :
    Called host op fault (host.call op fault).1 (host.call op fault).2 := by
  unfold call
  split
  · next herror => exact .threw herror
  · next hreply => exact .returned hreply
  next next reply rollback hop =>
  split
  · next herror => exact .refused hop herror
  next document hdocument =>
  have hthrown := writePrivateFileAtomic_thrown document fault host.disk
  have hfile := writePrivateFileAtomic_file document fault host.disk
  dsimp only
  cases fault with
  | none =>
    rw [if_pos (by simpa using hthrown)]
    exact .wrote hop hdocument rfl (by simpa using hfile)
  | some step =>
    rw [if_neg (by simp [hthrown])]
    exact .failed hop hdocument rfl (by simpa using hfile)

/-- Identities issued earlier stay issued. -/
theorem Sound.issue (h : host.Sound) (op : LedgerOp) : (host.issue op).Sound where
  memory_valid := h.memory_valid
  memory_issued := List.Subset.trans h.memory_issued (List.subset_append_left _ _)
  disk_loads := by
    obtain ⟨ledger, hloads, hvalid, hissued⟩ := h.disk_loads
    exact ⟨ledger, hloads, hvalid, List.Subset.trans hissued (List.subset_append_left _ _)⟩

/-- What an operation asks to write is valid and mentions issued identities only. -/
theorem Sound.next (h : host.Sound) {op : LedgerOp} {next rollback : Ledger}
    {reply : LedgerReply} (hfresh : host.IsFresh op)
    (hop : op.apply host.memory = .persists next reply rollback) :
    next.Valid ∧ next.identities ⊆ (host.issue op).issued := by
  refine ⟨LedgerOp.apply_valid h.memory_valid (hfresh.permitted h.memory_issued) hop, ?_⟩
  refine List.Subset.trans (LedgerOp.apply_identities hop) (List.append_subset.mpr ⟨?_, ?_⟩)
  · exact List.Subset.trans h.memory_issued (List.subset_append_left _ _)
  · exact List.subset_append_right _ _

/-- A state whose disk is either the old one or the persisted next one, and whose memory is
    valid, is sound. -/
theorem Sound.of_written (h : host.Sound) {op : LedgerOp} {next rollback memory : Ledger}
    {reply : LedgerReply} {document : LedgerDocument} {disk : PrivateFile LedgerDocument}
    {completed : List String} (hfresh : host.IsFresh op)
    (hop : op.apply host.memory = .persists next reply rollback)
    (hdocument : next.persist = .ok document)
    (hfile : disk.file = some document ∨ disk.file = host.disk.file) (hvalid : memory.Valid)
    (hissued : memory.identities ⊆ (host.issue op).issued) :
    ({ host with memory, disk, completed }.issue op).Sound := by
  obtain ⟨hnext, hnextIssued⟩ := h.next hfresh hop
  refine ⟨hvalid, hissued, ?_⟩
  rcases hfile with hfile | hfile
  · obtain ⟨loaded, hloads, hloaded, hsame⟩ := loads_persisted hnext hdocument hfile
    exact ⟨loaded, hloads, hloaded, List.Subset.trans hsame.identities_subset hnextIssued⟩
  · obtain ⟨ledger, ⟨old, hold, hopen⟩, hold', holdIssued⟩ := (h.issue op).disk_loads
    exact ⟨ledger, ⟨old, hfile.trans hold, hopen⟩, hold', holdIssued⟩

theorem Sound.call (h : host.Sound) {op : LedgerOp} (hfresh : host.IsFresh op)
    (fault : Option WriteStep) : ((host.call op fault).1.issue op).Sound := by
  have hpermitted := hfresh.permitted h.memory_issued
  have hissued := (h.issue op).memory_issued
  have hcalled := call_called host op fault
  generalize (host.call op fault).1 = after, (host.call op fault).2 = result at hcalled
  cases hcalled with
  | threw hop => exact h.issue op
  | returned hop => exact h.issue op
  | refused hop herror =>
    obtain ⟨hvalid, hsame⟩ := rollback_valid h.memory_valid hpermitted hop
    exact ⟨hvalid, List.Subset.trans hsame.identities_subset hissued, (h.issue op).disk_loads⟩
  | wrote hop hdocument hfault hfile =>
    obtain ⟨hnext, hnextIssued⟩ := h.next hfresh hop
    exact h.of_written hfresh hop hdocument (.inl hfile) hnext hnextIssued
  | failed hop hdocument hfault hfile =>
    obtain ⟨hvalid, hsame⟩ := rollback_valid h.memory_valid hpermitted hop
    refine h.of_written hfresh hop hdocument ?_ hvalid
      (List.Subset.trans hsame.identities_subset hissued)
    split at hfile
    · exact .inl hfile
    · exact .inr hfile

/-- What a reopening loads is what the file held. -/
theorem Sound.reopen (h : host.Sound) (hstep : host.reopen = some host') :
    host'.Sound ∧ Loads host'.disk host'.memory := by
  obtain ⟨ledger, ⟨document, hfile, hopen⟩, hvalid, hissued⟩ := h.disk_loads
  simp only [LedgerHost.reopen, hfile, hopen, Option.some.injEq] at hstep
  subst hstep
  exact ⟨⟨hvalid, hissued, ledger, ⟨document, hfile, hopen⟩, hvalid, hissued⟩,
    document, hfile, hopen⟩

/-- A crash leaves the file as it was, or with what the operation wrote. -/
theorem Sound.crash (h : host.Sound) {op : LedgerOp} (hfresh : host.IsFresh op)
    (before : WriteStep) : ((host.crash op before).issue op).Sound := by
  unfold LedgerHost.crash
  split
  · next next reply rollback hop =>
    split
    · next document hdocument =>
      have hfile := crashedWrite_file document before host.disk
      refine h.of_written hfresh hop hdocument ?_ h.memory_valid (h.issue op).memory_issued
      split at hfile
      · exact .inl hfile
      · exact .inr hfile
    · exact h.issue op
  · exact h.issue op

theorem Sound.step (h : host.Sound) {event : LedgerEvent} (hstep : host.step event = some host') :
    host'.Sound := by
  cases event with
  | call op fault =>
    simp only [LedgerHost.step] at hstep
    split at hstep
    · next hfresh =>
      cases hstep
      exact h.call hfresh fault
    · cases hstep
  | crash op before =>
    simp only [LedgerHost.step] at hstep
    split at hstep
    · next hfresh => exact ((h.crash hfresh before).reopen hstep).1
    · cases hstep
  | reopen => exact (h.reopen hstep).1

/-- **Main**: in every run memory and file hold valid ledgers. -/
theorem sound_of_reachable (h : ledgerSystem.Reachable host) : host.Sound :=
  h.invariant (fun _ hinit => hinit ▸ start_sound) fun _ _ _ hs hstep => hs.step hstep

/-! ### Properties of the ledgers of a run -/

/-- A property of the ledger in memory and of the one the file loads. -/
def Holds (P : Ledger → Prop) (host : LedgerHost) : Prop :=
  P host.memory ∧ ∀ ledger, Loads host.disk ledger → P ledger

/-- A file loads one ledger. -/
theorem Loads.unique {disk : PrivateFile LedgerDocument} {left right : Ledger}
    (hleft : Loads disk left) (hright : Loads disk right) : left = right := by
  obtain ⟨document, hfile, hopen⟩ := hleft
  obtain ⟨document', hfile', hopen'⟩ := hright
  rw [hfile] at hfile'
  obtain rfl := Option.some.inj hfile'
  rw [hopen] at hopen'
  exact Except.ok.inj hopen'

/-- Only the content of the file counts. -/
theorem Loads.of_file {disk disk' : PrivateFile LedgerDocument} {ledger : Ledger}
    (h : Loads disk' ledger) (hfile : disk'.file = disk.file) : Loads disk ledger := by
  obtain ⟨document, hold, hopen⟩ := h
  exact ⟨document, hfile.symm.trans hold, hopen⟩

theorem reopen_loads (hstep : host.reopen = some host') :
    Loads host.disk host'.memory ∧ host'.disk = host.disk ∧ host'.issued = host.issued := by
  unfold LedgerHost.reopen at hstep
  split at hstep
  · cases hstep
  next document hfile =>
  split at hstep
  · cases hstep
  next ledger hopen =>
  cases hstep
  exact ⟨⟨document, hfile, hopen⟩, rfl, rfl⟩

section Properties

variable {P : Ledger → Prop} (hsame : ∀ ledger other : Ledger, ledger.Restores other → P other →
  P ledger)

include hsame

/-- A property that does not see the order of records and cleanups, and that an operation
    keeps, holds of memory and file after the operation. -/
theorem Holds.call (h : host.Holds P) (hsound : host.Sound) {op : LedgerOp}
    (hfresh : host.IsFresh op) (fault : Option WriteStep)
    (hop : ∀ next reply rollback, op.apply host.memory = .persists next reply rollback →
      next.persist.isOk = true → P next) :
    (host.call op fault).1.Holds P := by
  have hpermitted := hfresh.permitted hsound.memory_issued
  have hcalled := call_called host op fault
  generalize (host.call op fault).1 = after, (host.call op fault).2 = result at hcalled
  cases hcalled with
  | threw => exact h
  | returned => exact h
  | refused hpersists herror =>
    have hback := (rollback_valid hsound.memory_valid hpermitted hpersists).2
    exact ⟨hsame _ _ hback h.1, h.2⟩
  | wrote hpersists hdocument hfault hfile =>
    have hnext := hop _ _ _ hpersists (by rw [hdocument]; rfl)
    obtain ⟨loaded, hloads, -, hloaded⟩ :=
      loads_persisted (hsound.next hfresh hpersists).1 hdocument hfile
    exact ⟨hnext, fun ledger hl => hl.unique hloads ▸ hsame _ _ hloaded hnext⟩
  | failed hpersists hdocument hfault hfile =>
    have hnext := hop _ _ _ hpersists (by rw [hdocument]; rfl)
    have hback := (rollback_valid hsound.memory_valid hpermitted hpersists).2
    refine ⟨hsame _ _ hback h.1, fun ledger hl => ?_⟩
    split at hfile
    · obtain ⟨loaded, hloads, -, hloaded⟩ :=
        loads_persisted (hsound.next hfresh hpersists).1 hdocument hfile
      exact hl.unique hloads ▸ hsame _ _ hloaded hnext
    · exact h.2 ledger (hl.of_file hfile)

theorem Holds.crash (h : host.Holds P) (hsound : host.Sound) {op : LedgerOp}
    (hfresh : host.IsFresh op) (before : WriteStep)
    (hop : ∀ next reply rollback, op.apply host.memory = .persists next reply rollback →
      next.persist.isOk = true → P next) :
    (host.crash op before).Holds P := by
  unfold LedgerHost.crash
  split
  · next next reply rollback hpersists =>
    split
    · next document hdocument =>
      have hfile := crashedWrite_file document before host.disk
      refine ⟨h.1, fun ledger hl => ?_⟩
      split at hfile
      · obtain ⟨loaded, hloads, -, hloaded⟩ :=
          loads_persisted (hsound.next hfresh hpersists).1 hdocument hfile
        exact hl.unique hloads ▸ hsame _ _ hloaded (hop _ _ _ hpersists (by rw [hdocument]; rfl))
      · exact h.2 ledger (hl.of_file hfile)
    · exact h
  · exact h

omit hsame in
theorem Holds.reopen (h : host.Holds P) (hstep : host.reopen = some host') : host'.Holds P := by
  obtain ⟨hloads, hdisk, -⟩ := reopen_loads hstep
  exact ⟨h.2 _ hloads, hdisk ▸ h.2⟩

/-- The step lemma of such a property. -/
theorem Holds.step (h : host.Holds P) (hsound : host.Sound) {event : LedgerEvent}
    (hop : ∀ op ∈ event.op?, ∀ next reply rollback,
      op.apply host.memory = .persists next reply rollback → next.persist.isOk = true → P next)
    (hstep : host.step event = some host') : host'.Holds P := by
  cases event with
  | call op fault =>
    simp only [LedgerHost.step] at hstep
    split at hstep
    · next hfresh =>
      cases hstep
      exact h.call hsame hsound hfresh fault (hop op rfl)
    · cases hstep
  | crash op before =>
    simp only [LedgerHost.step] at hstep
    split at hstep
    · next hfresh =>
      have hcrashed : ((host.crash op before).issue op).Holds P :=
        h.crash hsame hsound hfresh before (hop op rfl)
      exact hcrashed.reopen hstep
    · cases hstep
  | reopen => exact h.reopen hstep

end Properties

end LedgerHost

end AgentHost
