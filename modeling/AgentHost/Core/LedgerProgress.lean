import Mathlib
import AgentHost.Core.LedgerRuns

namespace AgentHost

/-!
# Launches do not go back

What the operations of the launch ledger never undo: a launch that has left the state in which it
was requested does not come back to it, and its request stays what it was.

* `Ledger.LeftRequested`, `LedgerOp.apply_leftRequested` — a launch past its request stays past it.
* `LedgerHost.Ahead` — **Main**: the file is never behind memory in this.  Every operation and
  every crash keep it (`Ahead.call`, `Ahead.crash`, `Ahead.reopen`).
* `LedgerHost.call_record` — the record that an operation returns.
* `LedgerHost.Names` — the provider that a launch was requested from, which no operation changes.
-/

/-! ### One operation -/

/-- The launch is not, or no longer, in the state in which it was requested. -/
def Ledger.LeftRequested (id : String) (ledger : Ledger) : Prop :=
  ∀ record ∈ ledger.records.values, record.id = id → record.state ≠ .requested

/-- The launch has a record past the requested state. -/
def Ledger.Past (id : String) (ledger : Ledger) : Prop :=
  ∃ record ∈ ledger.records.values, record.id = id ∧ record.state ≠ .requested

/-- The records of a launch name its provider. -/
def Ledger.NamesProvider (id provider : String) (ledger : Ledger) : Prop :=
  ∀ record ∈ ledger.records.values, record.id = id → record.request.provider = provider

/-- No transition leads back to the requested state. -/
def LedgerOp.Onward : LedgerOp → Prop
  | .transition _ _ patch _ => patch.state ≠ some .requested
  | _ => True

namespace Ledger

variable {ledger other next : Ledger} {id provider : String}

/-- There is one record for each launch. -/
theorem Past.leftRequested (h : ledger.Past id) : ledger.LeftRequested id := by
  obtain ⟨record, hrecord, hid, hstate⟩ := h
  intro other hother hother'
  have hsame : other = record := ledger.records.eq_of_key_eq hother hrecord (hother'.trans hid.symm)
  exact hsame ▸ hstate

theorem LeftRequested.of_restores (hsame : ledger.Restores other) (h : other.LeftRequested id) :
    ledger.LeftRequested id :=
  fun record hrecord => h record (hsame.records.mem_iff.mp hrecord)

theorem Past.of_restores (hsame : ledger.Restores other) (h : ledger.Past id) : other.Past id := by
  obtain ⟨record, hrecord, hrest⟩ := h
  exact ⟨record, hsame.records.mem_iff.mp hrecord, hrest⟩

theorem NamesProvider.of_restores (h : other.NamesProvider id provider)
    (hsame : ledger.Restores other) : ledger.NamesProvider id provider :=
  fun record hrecord => h record (hsame.records.mem_iff.mp hrecord)

/-- A stored record, and the other ones. -/
theorem forall_set {record : LaunchRecord} {P : LaunchRecord → Prop}
    (hrecord : P record) (h : ∀ old ∈ ledger.records.values, P old) :
    ∀ new ∈ (ledger.records.set record).values, P new := by
  intro new hnew
  obtain rfl | ⟨hold, _⟩ := InsertionMap.mem_set.mp hnew
  · exact hrecord
  · exact h new hold

end Ledger

/-- What holds of the records that were there, of a new request and of what an operation makes of a
    record holds of the records after the operation. -/
theorem LedgerOp.apply_records {op : LedgerOp} {ledger next rollback : Ledger}
    {reply : LedgerReply} {P : LaunchRecord → Prop}
    (hold : ∀ record ∈ ledger.records.values, P record)
    (hnew : ∀ record : LaunchRecord, (record.id, record.attemptId) ∈ op.identities →
      record.state = .requested → P record)
    (hmove : ∀ old ∈ ledger.records.values, ∀ new : LaunchRecord, P old → new.id = old.id →
      new.request = old.request → new.state ≠ .requested ∨ new.state = old.state → P new)
    (honward : op.Onward)
    (hop : op.apply ledger = .persists next reply rollback) :
    ∀ record ∈ next.records.values, P record := by
  have hget : ∀ {id : String} {current : LaunchRecord},
      ledger.records.get? id = some current → current ∈ ledger.records.values :=
    fun h => InsertionMap.mem_of_get? h
  cases op with
  | reserve id attemptId keyHash signature request now =>
    obtain ⟨record, rfl, -, -, -, -, rfl, -⟩ := Ledger.reserve_persists hop
    exact Ledger.forall_set (hnew _ (List.mem_singleton.mpr rfl) rfl) hold
  | transition id expectedStates patch now =>
    obtain ⟨current, record, hcurrent, -, rfl, -, rfl, -⟩ := Ledger.transition_persists hop
    refine Ledger.forall_set
      (hmove current (hget hcurrent) _ (hold _ (hget hcurrent)) rfl rfl ?_) hold
    cases hstate : patch.state with
    | none => exact .inr (by simp [LaunchPatch.apply, hstate])
    | some state =>
      refine .inl fun heq => honward ?_
      rw [hstate, ← heq]
      simp [LaunchPatch.apply, hstate]
  | beginRetirement id keyHash now =>
    obtain ⟨current, record, hcurrent, -, -, -, rfl, -, rfl, -⟩ :=
      Ledger.beginRetirement_persists hop
    exact Ledger.forall_set (hmove current (hget hcurrent)
      (Ledger.retiringRecord current keyHash now) (hold _ (hget hcurrent)) rfl rfl
      (.inl (by simp [Ledger.retiringRecord]))) hold
  | completeRetirement id now scope =>
    obtain ⟨current, entry, -, -, -, -, rfl, -⟩ := Ledger.completeRetirement_persists hop
    exact fun record hrecord => hold record (InsertionMap.mem_delete.mp hrecord).1
  | completeRetirementCleanup id keyHash =>
    obtain ⟨cleanup, -, -, rfl, -⟩ := Ledger.completeRetirementCleanup_persists hop
    exact hold
  | cancelRetirement id keyHash now =>
    obtain ⟨current, record, hcurrent, -, -, rfl, -, rfl, -⟩ :=
      Ledger.cancelRetirement_persists hop
    exact Ledger.forall_set (hmove current (hget hcurrent)
      (Ledger.restoredRecord current now) (hold _ (hget hcurrent)) rfl rfl
      (.inl (by simp [Ledger.restoredRecord]))) hold

section

variable {op : LedgerOp} {ledger next rollback : Ledger} {reply : LedgerReply}
  {id provider : String}

/-- An operation does not lead a launch back to its request. -/
theorem LedgerOp.apply_leftRequested (h : ledger.LeftRequested id) (honward : op.Onward)
    (hfresh : id ∉ op.identities.map Prod.fst)
    (hop : op.apply ledger = .persists next reply rollback) : next.LeftRequested id := by
  refine LedgerOp.apply_records h (fun record hrecord _ hid => ?_)
    (fun old _ new hold hnew _ hstate hid => ?_) honward hop
  · exact absurd (hid ▸ List.mem_map_of_mem hrecord) hfresh
  · obtain hstate | hstate := hstate
    · exact hstate
    · exact hstate ▸ hold (hnew.symm.trans hid)

/-- An operation leaves the provider of a launch as it is. -/
theorem LedgerOp.apply_namesProvider (h : ledger.NamesProvider id provider)
    (honward : op.Onward) (hfresh : id ∉ op.identities.map Prod.fst)
    (hop : op.apply ledger = .persists next reply rollback) : next.NamesProvider id provider := by
  refine LedgerOp.apply_records h (fun record hrecord _ hid => ?_)
    (fun old _ new hold hnew hrequest _ hid => ?_) honward hop
  · exact absurd (hid ▸ List.mem_map_of_mem hrecord) hfresh
  · exact hrequest ▸ hold (hnew.symm.trans hid)

end

/-! ### The file and memory -/

namespace LedgerHost

variable {host host' : LedgerHost} {op : LedgerOp} {id provider : String}

/-- A launch past its request in memory is past it in the file. -/
def Ahead (host : LedgerHost) : Prop :=
  ∀ id, host.memory.Past id → ∀ ledger, Loads host.disk ledger → ledger.LeftRequested id

theorem start_ahead : start.Ahead := by
  rintro id ⟨record, hrecord, -⟩
  cases hrecord

/-- Identities that were issued are not generated again. -/
theorem IsFresh.not_mem (h : host.IsFresh op) (hid : id ∈ host.issued.map Prod.fst) :
    id ∉ op.identities.map Prod.fst := by
  intro hmem
  obtain ⟨new, hnew, rfl⟩ := List.mem_map.mp hmem
  obtain ⟨old, hold, heq⟩ := List.mem_map.mp hid
  exact (h new hnew old hold).1 heq.symm

/-- A launch past its request is so whatever memory and file become. -/
theorem holds_leftRequested (h : host.Ahead) (hpast : host.memory.Past id) :
    host.Holds (Ledger.LeftRequested id) :=
  ⟨hpast.leftRequested, fun ledger hloads => h id hpast ledger hloads⟩

/-- The launches of memory are issued. -/
theorem Sound.issued_of_past (hsound : host.Sound) (h : host.memory.Past id) :
    id ∈ host.issued.map Prod.fst := by
  obtain ⟨record, hrecord, rfl, -⟩ := h
  have hmem : (record.id, record.attemptId) ∈ host.memory.identities :=
    Ledger.mem_identities.mpr (.inl ⟨record, hrecord, rfl⟩)
  exact List.mem_map_of_mem (hsound.memory_issued hmem)

/-- The file stays past the request of a launch, whichever write reaches it. -/
theorem leftRequested_written (h : host.Holds (Ledger.LeftRequested id)) (hsound : host.Sound)
    (hfresh : host.IsFresh op) (honward : op.Onward) (hid : id ∈ host.issued.map Prod.fst)
    {next rollback : Ledger} {reply : LedgerReply} {document : LedgerDocument}
    {disk : PrivateFile LedgerDocument}
    (hop : op.apply host.memory = .persists next reply rollback)
    (hdocument : next.persist = .ok document)
    (hfile : disk.file = some document ∨ disk.file = host.disk.file) :
    ∀ ledger, Loads disk ledger → ledger.LeftRequested id := by
  intro ledger hloads
  obtain hfile | hfile := hfile
  · obtain ⟨loaded, hloaded, -, hsame⟩ :=
      loads_persisted (hsound.next hfresh hop).1 hdocument hfile
    rw [hloads.unique hloaded]
    exact Ledger.LeftRequested.of_restores hsame
      (LedgerOp.apply_leftRequested h.1 honward (hfresh.not_mem hid) hop)
  · exact h.2 ledger (hloads.of_file hfile)

theorem Ahead.call (h : host.Ahead) (hsound : host.Sound) (hfresh : host.IsFresh op)
    (honward : op.Onward) (fault : Option WriteStep) : (host.call op fault).1.Ahead := by
  have hpermitted := hfresh.permitted hsound.memory_issued
  have hcalled := call_called host op fault
  generalize (host.call op fault).1 = after, (host.call op fault).2 = result at hcalled
  cases hcalled with
  | threw => exact h
  | returned => exact h
  | refused hop _ =>
    intro id hpast
    exact h id (hpast.of_restores (rollback_valid hsound.memory_valid hpermitted hop).2)
  | wrote hop hdocument _ hfile =>
    intro id hpast ledger hloads
    obtain ⟨loaded, hloaded, -, hsame⟩ :=
      loads_persisted (hsound.next hfresh hop).1 hdocument hfile
    rw [hloads.unique hloaded]
    exact Ledger.LeftRequested.of_restores hsame hpast.leftRequested
  | failed hop hdocument _ hfile =>
    intro id hpast
    have hpast' := hpast.of_restores (rollback_valid hsound.memory_valid hpermitted hop).2
    refine leftRequested_written (holds_leftRequested h hpast') hsound hfresh honward
      (hsound.issued_of_past hpast') hop hdocument ?_
    split at hfile
    · exact .inl hfile
    · exact .inr hfile

theorem Ahead.crash (h : host.Ahead) (hsound : host.Sound) (hfresh : host.IsFresh op)
    (honward : op.Onward) (before : WriteStep) : (host.crash op before).Ahead := by
  unfold LedgerHost.crash
  split
  · next next reply rollback hop =>
    split
    · next document hdocument =>
      intro id hpast
      have hfile := crashedWrite_file document before host.disk
      refine leftRequested_written (holds_leftRequested h hpast) hsound hfresh honward
        (hsound.issued_of_past hpast) hop hdocument ?_
      split at hfile
      · exact .inl hfile
      · exact .inr hfile
    · exact h
  · exact h

theorem Ahead.reopen (hstep : host.reopen = some host') : host'.Ahead := by
  obtain ⟨hloads, hdisk, -⟩ := reopen_loads hstep
  intro id hpast ledger hledger
  rw [hdisk] at hledger
  rw [hledger.unique hloads]
  exact hpast.leftRequested

/-- A launch past its request stays past it. -/
theorem leftRequested_call (h : host.Holds (Ledger.LeftRequested id)) (hsound : host.Sound)
    (hfresh : host.IsFresh op) (honward : op.Onward) (hid : id ∈ host.issued.map Prod.fst)
    (fault : Option WriteStep) : (host.call op fault).1.Holds (Ledger.LeftRequested id) :=
  h.call (fun _ _ => Ledger.LeftRequested.of_restores) hsound hfresh fault
    fun _ _ _ hop _ => LedgerOp.apply_leftRequested h.1 honward (hfresh.not_mem hid) hop

theorem leftRequested_crash (h : host.Holds (Ledger.LeftRequested id)) (hsound : host.Sound)
    (hfresh : host.IsFresh op) (honward : op.Onward) (hid : id ∈ host.issued.map Prod.fst)
    (before : WriteStep) : (host.crash op before).Holds (Ledger.LeftRequested id) :=
  h.crash (fun _ _ => Ledger.LeftRequested.of_restores) hsound hfresh before
    fun _ _ _ hop _ => LedgerOp.apply_leftRequested h.1 honward (hfresh.not_mem hid) hop

/-- An issued launch, and its provider. -/
structure Names (host : LedgerHost) (id provider : String) : Prop where
  issued : id ∈ host.issued.map Prod.fst
  memory : host.memory.NamesProvider id provider

/-- A record of memory names the provider of its launch. -/
theorem Sound.names (hsound : host.Sound) {record : LaunchRecord}
    (h : record ∈ host.memory.records.values) : host.Names record.id record.request.provider where
  issued :=
    List.mem_map_of_mem (hsound.memory_issued (Ledger.mem_identities.mpr (.inl ⟨record, h, rfl⟩)))
  memory := fun other hother hid => by
    rw [host.memory.records.eq_of_key_eq hother h hid]

theorem issued_mono (op : LedgerOp) (hid : id ∈ host.issued.map Prod.fst) :
    id ∈ (host.issue op).issued.map Prod.fst := by
  rw [issue, List.map_append]
  exact List.mem_append_left _ hid

theorem call_issued (host : LedgerHost) (op : LedgerOp) (fault : Option WriteStep) :
    (host.call op fault).1.issued = host.issued := by
  have hcalled := call_called host op fault
  generalize (host.call op fault).1 = after, (host.call op fault).2 = result at hcalled
  cases hcalled <;> rfl

theorem crash_issued (host : LedgerHost) (op : LedgerOp) (before : WriteStep) :
    (host.crash op before).issued = host.issued := by
  unfold LedgerHost.crash
  split
  · split <;> rfl
  · rfl

theorem Names.call (h : host.Names id provider) (hsound : host.Sound) (hfresh : host.IsFresh op)
    (honward : op.Onward) (fault : Option WriteStep) :
    ((host.call op fault).1.issue op).Names id provider := by
  refine ⟨issued_mono op ((call_issued host op fault).symm ▸ h.issued), ?_⟩
  have hpermitted := hfresh.permitted hsound.memory_issued
  have hcalled := call_called host op fault
  show (host.call op fault).1.memory.NamesProvider id provider
  generalize (host.call op fault).1 = after, (host.call op fault).2 = result at hcalled
  cases hcalled with
  | threw => exact h.memory
  | returned => exact h.memory
  | refused hop _ =>
    exact h.memory.of_restores (rollback_valid hsound.memory_valid hpermitted hop).2
  | wrote hop _ _ _ =>
    exact LedgerOp.apply_namesProvider h.memory honward (hfresh.not_mem h.issued) hop
  | failed hop _ _ _ =>
    exact h.memory.of_restores (rollback_valid hsound.memory_valid hpermitted hop).2

theorem Names.crash (h : host.Names id provider) (op : LedgerOp) (before : WriteStep) :
    ((host.crash op before).issue op).Names id provider := by
  refine ⟨issued_mono op ((crash_issued host op before).symm ▸ h.issued), ?_⟩
  show (host.crash op before).memory.NamesProvider id provider
  unfold LedgerHost.crash
  split
  · split <;> exact h.memory
  · exact h.memory

end LedgerHost

/-! ### The records that are returned -/

/-- The launch that an operation is about. -/
def LedgerOp.launchId : LedgerOp → String
  | .reserve id _ _ _ _ _ => id
  | .transition id _ _ _ => id
  | .beginRetirement id _ _ => id
  | .completeRetirement id _ _ => id
  | .completeRetirementCleanup id _ => id
  | .cancelRetirement id _ _ => id

/-- The record of a reply. -/
def LedgerReply.record? : LedgerReply → Option LaunchRecord
  | .record found => some found
  | .created made => some made
  | _ => none

section

variable {op : LedgerOp} {ledger next rollback : Ledger} {reply : LedgerReply}
  {record : LaunchRecord}

/-- A record that is returned without a write is in memory, and not a new one. -/
theorem LedgerOp.apply_returns (hop : op.apply ledger = .returns reply)
    (hrecord : reply.record? = some record) :
    record ∈ ledger.records.values ∧ record.id = op.launchId ∧ reply ≠ .created record := by
  cases op with
  | reserve id attemptId keyHash signature request now =>
    simp only [apply, Ledger.reserve] at hop
    repeat' split at hop
    all_goals cases hop
    all_goals cases hrecord
  | transition id expectedStates patch now =>
    simp only [apply, Ledger.transition] at hop
    split at hop
    · cases hop
    next current hget =>
    split at hop
    · cases hop
      obtain rfl := Option.some.inj hrecord
      exact ⟨InsertionMap.mem_of_get? hget, InsertionMap.key_of_get? hget, by simp⟩
    · split at hop <;> cases hop
  | beginRetirement id keyHash now =>
    simp only [apply, Ledger.beginRetirement] at hop
    split at hop
    · cases hop
    split at hop
    · cases hop
      cases hrecord
    next current hget =>
    split at hop
    · cases hop
      obtain rfl := Option.some.inj hrecord
      exact ⟨InsertionMap.mem_of_get? hget, InsertionMap.key_of_get? hget, by simp⟩
    · repeat' split at hop
      all_goals cases hop
  | completeRetirement id now scope =>
    simp only [apply, Ledger.completeRetirement] at hop
    repeat' split at hop
    all_goals cases hop
  | completeRetirementCleanup id keyHash =>
    simp only [apply, Ledger.completeRetirementCleanup] at hop
    repeat' split at hop
    all_goals cases hop
    all_goals cases hrecord
  | cancelRetirement id keyHash now =>
    simp only [apply, Ledger.cancelRetirement] at hop
    repeat' split at hop
    all_goals cases hop

/-- A record that is returned after a write was written. -/
theorem LedgerOp.apply_persisted (hop : op.apply ledger = .persists next reply rollback)
    (hrecord : reply.record? = some record) :
    record ∈ next.records.values ∧ record.id = op.launchId ∧
      (reply = .created record → (record.id, record.attemptId) ∈ op.identities) := by
  have hget : ∀ {id : String} {current : LaunchRecord},
      ledger.records.get? id = some current → current.id = id := InsertionMap.key_of_get?
  cases op with
  | reserve id attemptId keyHash signature request now =>
    obtain ⟨new, rfl, -, -, -, -, rfl, rfl, -⟩ := Ledger.reserve_persists hop
    obtain rfl := Option.some.inj hrecord
    exact ⟨InsertionMap.mem_set_self _ _, rfl, fun _ => List.mem_singleton.mpr rfl⟩
  | transition id expectedStates patch now =>
    obtain ⟨current, new, hcurrent, -, rfl, -, rfl, rfl, -⟩ := Ledger.transition_persists hop
    obtain rfl := Option.some.inj hrecord
    have hid : current.id = id := hget hcurrent
    exact ⟨InsertionMap.mem_set_self _ _, hid, by simp⟩
  | beginRetirement id keyHash now =>
    obtain ⟨current, new, hcurrent, -, -, -, rfl, -, rfl, rfl, -⟩ :=
      Ledger.beginRetirement_persists hop
    obtain rfl := Option.some.inj hrecord
    have hid : current.id = id := hget hcurrent
    exact ⟨InsertionMap.mem_set_self _ _, hid, by simp⟩
  | completeRetirement id now scope =>
    obtain ⟨current, entry, -, -, -, -, rfl, rfl, -⟩ := Ledger.completeRetirement_persists hop
    cases hrecord
  | completeRetirementCleanup id keyHash =>
    obtain ⟨cleanup, -, -, rfl, rfl, -⟩ := Ledger.completeRetirementCleanup_persists hop
    cases hrecord
  | cancelRetirement id keyHash now =>
    obtain ⟨current, new, hcurrent, -, -, rfl, -, rfl, rfl, -⟩ :=
      Ledger.cancelRetirement_persists hop
    obtain rfl := Option.some.inj hrecord
    have hid : current.id = id := hget hcurrent
    exact ⟨InsertionMap.mem_set_self _ _, hid, by simp⟩

end

namespace LedgerHost

variable {host : LedgerHost} {op : LedgerOp} {fault : Option WriteStep} {reply : LedgerReply}
  {record : LaunchRecord}

/-- A record that an operation returns is in memory; a new one has the identities it generated. -/
theorem call_record (hreply : (host.call op fault).2 = .ok reply)
    (hrecord : reply.record? = some record) :
    record ∈ (host.call op fault).1.memory.records.values ∧ record.id = op.launchId ∧
      (reply = .created record → (record.id, record.attemptId) ∈ op.identities) := by
  have hcalled := call_called host op fault
  generalize (host.call op fault).1 = after, (host.call op fault).2 = result at hcalled hreply
  cases hcalled with
  | threw => cases hreply
  | returned hop =>
    obtain rfl := Except.ok.inj hreply
    obtain ⟨hmem, hid, hne⟩ := LedgerOp.apply_returns hop hrecord
    exact ⟨hmem, hid, fun h => absurd h hne⟩
  | refused => cases hreply
  | wrote hop =>
    obtain rfl := Except.ok.inj hreply
    exact LedgerOp.apply_persisted hop hrecord
  | failed => cases hreply

/-- A launch that has left its request in memory has left it in the file too. -/
theorem leftRequested_of_mem (h : host.Ahead) (hrecord : record ∈ host.memory.records.values)
    (hstate : record.state ≠ .requested) : host.Holds (Ledger.LeftRequested record.id) :=
  holds_leftRequested h ⟨record, hrecord, rfl, hstate⟩

end LedgerHost

end AgentHost
