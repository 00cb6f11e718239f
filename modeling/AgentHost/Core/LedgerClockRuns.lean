import AgentHost.Core.LedgerClock

namespace AgentHost

/-!
# Ledger runs under two clocks

The same events, read off two clocks: a steady one whose readings never decrease, and
another.  Every operation has the same outcome in both runs as long as the other clock does
not move a record back in time.

* `Ledger.StampsAll.apply` — the stamps of a ledger are those it had and the readings of the
  operations.
* `ClockPair.Alike` — the two runs differ in their stamps only.
* `clock_independence` — **Main**: the same operations are accepted, and no record's stamp
  decreases.
* `transition_clock_behind` — a reading before a reservation's makes `transition` throw.
-/

/-! ### The stamps of a run -/

/-- The reading of the clock an operation stamps with. -/
def LedgerOp.reading? : LedgerOp → Option Timestamp
  | .reserve _ _ _ _ _ now => some now
  | .transition _ _ _ now => some now
  | .beginRetirement _ _ now => some now
  | .completeRetirement _ now _ => some now
  | .completeRetirementCleanup _ _ => none
  | .cancelRetirement _ _ now => some now

theorem laterTimestamp_cases {P : Timestamp → Prop} {previous candidate : Timestamp}
    (hp : P previous) (hc : P candidate) : P (laterTimestamp previous candidate) := by
  unfold laterTimestamp
  split
  · exact hp
  · exact hc

namespace Ledger

variable {P : Timestamp → Prop} {ledger next : Ledger}

theorem StampsAll.set (h : ledger.StampsAll P) {record : LaunchRecord}
    (hrecord : record.StampsAll P) :
    { ledger with records := ledger.records.set record }.StampsAll P where
  records := fun other ho => by
    rcases InsertionMap.mem_set.mp ho with rfl | ⟨ho, _⟩
    · exact hrecord
    · exact h.records other ho
  retirements := h.retirements

theorem StampsAll.of_same (h : ledger.StampsAll P) {other : Ledger}
    (hsame : other.SameState ledger) : other.StampsAll P where
  records := fun record hr => h.records record (hsame.records.mem_iff.mp hr)
  retirements := hsame.retirements ▸ h.retirements

theorem StampsAll.mono (h : ledger.StampsAll P) {Q : Timestamp → Prop}
    (himp : ∀ now, P now → Q now) : ledger.StampsAll Q where
  records := fun record hr => (h.records record hr).imp (himp _) (himp _)
  retirements := fun entry he => (h.retirements entry he).imp (himp _) (himp _)

theorem StampsAll.of_get (h : ledger.StampsAll P) {id : String} {current : LaunchRecord}
    (hget : ledger.records.get? id = some current) : current.StampsAll P :=
  h.records current (InsertionMap.mem_of_get? hget)

/-- What an operation writes is stamped as before and with its reading. -/
theorem StampsAll.apply (h : ledger.StampsAll P) {op : LedgerOp} {reply : LedgerReply}
    {rollback : Ledger} (hreading : ∀ now ∈ op.reading?, P now)
    (hop : op.apply ledger = .persists next reply rollback) : next.StampsAll P := by
  cases op with
  | reserve id attemptId keyHash signature request now =>
    obtain ⟨record, rfl, -, -, -, -, rfl, -⟩ := reserve_persists hop
    exact h.set ⟨hreading now rfl, hreading now rfl⟩
  | transition id expectedStates patch now =>
    obtain ⟨current, record, hget, -, rfl, -, rfl, -⟩ := transition_persists hop
    exact h.set ⟨(h.of_get hget).1, hreading now rfl⟩
  | beginRetirement id keyHash now =>
    obtain ⟨current, record, hget, -, -, -, rfl, -, rfl, -⟩ := beginRetirement_persists hop
    have hcurrent := h.of_get hget
    exact h.set ⟨hcurrent.1, laterTimestamp_cases hcurrent.2 (hreading now rfl)⟩
  | completeRetirement id now scope =>
    obtain ⟨current, entry, hget, -, rfl, -, rfl, -⟩ := completeRetirement_persists hop
    have hcurrent := h.of_get hget
    refine ⟨fun record hr => h.records record (InsertionMap.mem_delete.mp hr).1, ?_⟩
    intro entry he
    rcases InsertionMap.mem_set.mp (List.mem_of_mem_drop he) with rfl | ⟨he, _⟩
    · exact ⟨hcurrent.1, laterTimestamp_cases hcurrent.2 (hreading now rfl)⟩
    · exact h.retirements entry he
  | completeRetirementCleanup id keyHash =>
    obtain ⟨cleanup, hget, -, rfl, -⟩ := completeRetirementCleanup_persists hop
    refine ⟨h.records, fun entry he => ?_⟩
    simp only [releasedRetirements] at he
    split at he
    · exact h.retirements entry he
    · next retirement hretirement =>
      have hretired := h.retirements retirement (InsertionMap.mem_of_get? hretirement)
      split at he
      · rcases InsertionMap.mem_set.mp he with rfl | ⟨he, _⟩
        · exact hretired
        · exact h.retirements entry he
      · exact h.retirements entry he
  | cancelRetirement id keyHash now =>
    obtain ⟨current, record, hget, -, -, rfl, -, rfl, -⟩ := cancelRetirement_persists hop
    have hcurrent := h.of_get hget
    exact h.set ⟨hcurrent.1, laterTimestamp_cases hcurrent.2 (hreading now rfl)⟩

/-- No record of `later` is stamped before the record of the same launch in `ledger`. -/
def NotBefore (ledger later : Ledger) : Prop :=
  ∀ record ∈ ledger.records.values, ∀ other ∈ later.records.values,
    other.id = record.id → record.updatedAt ≤ other.updatedAt

theorem NotBefore.refl (ledger : Ledger) : ledger.NotBefore ledger :=
  fun _ hr _ ho hid => (ledger.records.eq_of_key_eq ho hr hid) ▸ le_rfl

theorem NotBefore.set {current record : LaunchRecord} {id : String}
    (hget : ledger.records.get? id = some current) (hid : record.id = current.id)
    (hle : current.updatedAt ≤ record.updatedAt) :
    ledger.NotBefore { ledger with records := ledger.records.set record } := by
  intro old hold other ho heq
  rcases InsertionMap.mem_set.mp ho with rfl | ⟨ho, _⟩
  · have := ledger.records.eq_of_key_eq hold (InsertionMap.mem_of_get? hget)
      (heq.symm.trans hid)
    exact this ▸ hle
  · exact NotBefore.refl ledger old hold other ho heq

/-- Only `transition` can move a stamp back, and does so only when its reading is behind. -/
theorem NotBefore.apply {op : LedgerOp} {reply : LedgerReply} {rollback : Ledger}
    (hpermitted : op.Permitted ledger) (hforward : op.Forward ledger)
    (hop : op.apply ledger = .persists next reply rollback) : ledger.NotBefore next := by
  cases op with
  | reserve id attemptId keyHash signature request now =>
    obtain ⟨record, rfl, -, -, -, -, rfl, -⟩ := reserve_persists hop
    intro old hold other ho heq
    rcases InsertionMap.mem_set.mp ho with rfl | ⟨ho, _⟩
    · have hid : id = old.id := heq
      exact absurd (List.mem_append_left _ (hid ▸ List.mem_map_of_mem hold)) hpermitted.1
    · exact NotBefore.refl ledger old hold other ho heq
  | transition id expectedStates patch now =>
    obtain ⟨current, record, hget, hstate, rfl, -, rfl, -⟩ := transition_persists hop
    exact NotBefore.set hget rfl (hforward current hget hstate)
  | beginRetirement id keyHash now =>
    obtain ⟨current, record, hget, -, -, -, rfl, -, rfl, -⟩ := beginRetirement_persists hop
    exact NotBefore.set hget rfl (le_laterTimestamp _ _)
  | completeRetirement id now scope =>
    obtain ⟨current, entry, hget, -, rfl, -, rfl, -⟩ := completeRetirement_persists hop
    exact fun old hold other ho => NotBefore.refl ledger old hold other
      (InsertionMap.mem_delete.mp ho).1
  | completeRetirementCleanup id keyHash =>
    obtain ⟨cleanup, hget, -, rfl, -⟩ := completeRetirementCleanup_persists hop
    exact NotBefore.refl ledger
  | cancelRetirement id keyHash now =>
    obtain ⟨current, record, hget, -, -, rfl, -, rfl, -⟩ := cancelRetirement_persists hop
    exact NotBefore.set hget rfl (le_laterTimestamp _ _)

theorem NotBefore.of_same {later other : Ledger} (h : ledger.NotBefore later)
    (hsame : other.SameState later) : ledger.NotBefore other :=
  fun record hr r hm => h record hr r (hsame.records.mem_iff.mp hm)

end Ledger

/-! ### One run under two clocks -/

/-- The operation of an event at another reading of the clock. -/
def LedgerEvent.withClock (now : Timestamp) : LedgerEvent → LedgerEvent
  | .call op fault => .call (op.withClock now) fault
  | .crash op before => .crash (op.withClock now) before
  | .reopen => .reopen

/-- An event and the readings of the two clocks. -/
structure ClockEvent where
  event : LedgerEvent
  steadyNow : Timestamp
  otherNow : Timestamp

/-- The two runs, and the last reading of the steady clock. -/
structure ClockPair where
  steady : LedgerHost
  other : LedgerHost
  last : Timestamp

/-- Both runs take the event, each at its own reading; the steady clock does not step back. -/
def ClockPair.step (pair : ClockPair) (e : ClockEvent) : Option ClockPair :=
  if pair.last ≤ e.steadyNow then do
    let steady ← pair.steady.step (e.event.withClock e.steadyNow)
    let other ← pair.other.step (e.event.withClock e.otherNow)
    return ⟨steady, other, e.steadyNow⟩
  else none

/-- The pairs of runs from an absent file. -/
def clockSystem : TransitionSystem ClockPair ClockEvent where
  init := fun pair => pair.steady = .start ∧ pair.other = .start
  step := ClockPair.step

namespace ClockPair

variable {pair pair' : ClockPair}

/-- The readings have years of four digits, and the other clock is not behind the record that a
    `transition` moves. -/
def Forward (pair : ClockPair) (e : ClockEvent) : Prop :=
  FourDigitYear e.steadyNow ∧ FourDigitYear e.otherNow ∧
    ∀ op ∈ (e.event.withClock e.otherNow).op?, op.Forward pair.other.memory

instance (pair : ClockPair) (e : ClockEvent) : Decidable (pair.Forward e) := by
  unfold Forward
  infer_instance

end ClockPair

/-- Two hosts differ in the time stamps only. -/
structure Alike (left right : LedgerHost) : Prop where
  memory : left.memory.untimed = right.memory.untimed
  file : left.disk.file.map LedgerDocument.untimed = right.disk.file.map LedgerDocument.untimed
  issued : left.issued = right.issued

/-- A sound host whose stamps have years of four digits. -/
structure Stamped (host : LedgerHost) : Prop where
  sound : host.Sound
  stamps : host.Holds (Ledger.StampsAll FourDigitYear)

theorem LedgerOp.withClock_withClock (op : LedgerOp) (now later : Timestamp) :
    (op.withClock now).withClock later = op.withClock later := by
  cases op <;> rfl

theorem LedgerOp.withClock_identities (op : LedgerOp) (now : Timestamp) :
    (op.withClock now).identities = op.identities := by
  cases op <;> rfl

theorem LedgerOp.withClock_reading {op : LedgerOp} {now reading : Timestamp}
    (h : reading ∈ (op.withClock now).reading?) : reading = now := by
  cases op <;> simp_all [withClock, reading?]

theorem Stamped.ordered {host : LedgerHost} (h : Stamped host) : host.memory.StampsOrdered :=
  fun record hr => (validateLaunchRecord_iff.mp
    (h.sound.memory_valid.records_valid record hr)).2.2.2.2.2.1

/-- Outcomes that differ in the stamps only are of one kind. -/
theorem LedgerOutcome.alike {left right : LedgerOutcome} (h : left.untimed = right.untimed) :
    (∃ error, left = .throws error ∧ right = .throws error) ∨
    (∃ reply reply', left = .returns reply ∧ right = .returns reply') ∨
    ∃ next reply rollback next' reply' rollback', left = .persists next reply rollback ∧
      right = .persists next' reply' rollback' ∧ next.untimed = next'.untimed ∧
      rollback.untimed = rollback'.untimed := by
  cases left with
  | throws error =>
    cases right with
    | throws error' => exact .inl ⟨error, rfl, congrArg _ (LedgerOutcome.throws.inj h).symm⟩
    | returns => cases h
    | persists => cases h
  | returns reply =>
    cases right with
    | throws => cases h
    | returns reply' => exact .inr (.inl ⟨reply, reply', rfl, rfl⟩)
    | persists => cases h
  | persists next reply rollback =>
    cases right with
    | throws => cases h
    | returns => cases h
    | persists next' reply' rollback' =>
      have hinj := LedgerOutcome.persists.inj h
      exact .inr (.inr ⟨_, _, _, _, _, _, rfl, rfl, hinj.1, hinj.2.2⟩)

section TwoClocks

variable {left right left' right' : LedgerHost} (halike : Alike left right) (hleft : Stamped left)
  (hright : Stamped right) {op : LedgerOp} {now now' : Timestamp}

include halike hleft hright

/-- The two operations have alike outcomes, and alike size checks. -/
theorem Alike.apply (hforward : (op.withClock now).Forward left.memory)
    (hforward' : (op.withClock now').Forward right.memory) :
    ((op.withClock now).apply left.memory).untimed =
      ((op.withClock now').apply right.memory).untimed := by
  rw [← Ledger.apply_untimed hleft.ordered hforward,
    ← Ledger.apply_untimed hright.ordered hforward', LedgerOp.withClock_withClock,
    LedgerOp.withClock_withClock, halike.memory]

omit halike in
theorem Alike.persist (hnow : FourDigitYear now) (hnow' : FourDigitYear now')
    {next next' rollback rollback' : Ledger} {reply reply' : LedgerReply}
    (hop : (op.withClock now).apply left.memory = .persists next reply rollback)
    (hop' : (op.withClock now').apply right.memory = .persists next' reply' rollback')
    (hnext : next.untimed = next'.untimed) :
    (∃ error, next.persist = .error error ∧ next'.persist = .error error) ∨
    ∃ document document', next.persist = .ok document ∧ next'.persist = .ok document' ∧
      document.untimed = document'.untimed := by
  have hstamps := hleft.stamps.1.apply (fun _ hr => LedgerOp.withClock_reading hr ▸ hnow) hop
  have hstamps' := hright.stamps.1.apply (fun _ hr => LedgerOp.withClock_reading hr ▸ hnow') hop'
  have hmap : next.persist.map LedgerDocument.untimed =
      next'.persist.map LedgerDocument.untimed := by
    rw [← Ledger.persist_untimed hstamps, ← Ledger.persist_untimed hstamps', hnext]
  cases hp : next.persist with
  | error error =>
    cases hp' : next'.persist with
    | error error' =>
      rw [hp, hp'] at hmap
      exact .inl ⟨error, rfl, congrArg _ (Except.error.inj hmap).symm⟩
    | ok => rw [hp, hp'] at hmap; cases hmap
  | ok document =>
    cases hp' : next'.persist with
    | error => rw [hp, hp'] at hmap; cases hmap
    | ok document' =>
      rw [hp, hp'] at hmap
      exact .inr ⟨document, document', rfl, rfl, Except.ok.inj hmap⟩

/-- **Main**: one operation under two clocks: both accept it or both refuse it, and what they
    leave differs in the stamps only. -/
theorem Alike.call (hnow : FourDigitYear now) (hnow' : FourDigitYear now')
    (hforward : (op.withClock now).Forward left.memory)
    (hforward' : (op.withClock now').Forward right.memory) (fault : Option WriteStep) :
    (left.call (op.withClock now) fault).2.isOk = (right.call (op.withClock now') fault).2.isOk ∧
      Alike ((left.call (op.withClock now) fault).1.issue (op.withClock now))
        ((right.call (op.withClock now') fault).1.issue (op.withClock now')) := by
  have hissued : left.issued ++ (op.withClock now).identities =
      right.issued ++ (op.withClock now').identities := by
    rw [halike.issued, LedgerOp.withClock_identities, LedgerOp.withClock_identities]
  have happly := Alike.apply halike hleft hright hforward hforward'
  unfold LedgerHost.call
  rcases LedgerOutcome.alike happly with ⟨error, hop, hop'⟩ | ⟨reply, reply', hop, hop'⟩ |
    ⟨next, reply, rollback, next', reply', rollback', hop, hop', hnext, hrollback⟩
  · simp only [hop, hop']
    exact ⟨trivial, halike.memory, halike.file, hissued⟩
  · simp only [hop, hop']
    exact ⟨rfl, halike.memory, halike.file, hissued⟩
  rcases Alike.persist hleft hright hnow hnow' hop hop' hnext with
    ⟨error, hpersist, hpersist'⟩ | ⟨document, document', hpersist, hpersist', hdocument⟩
  · simp only [hop, hop', hpersist, hpersist']
    exact ⟨trivial, hrollback, halike.file, hissued⟩
  have hfile : (writePrivateFileAtomic document fault left.disk).1.file.map LedgerDocument.untimed =
      (writePrivateFileAtomic document' fault right.disk).1.file.map LedgerDocument.untimed := by
    rw [writePrivateFileAtomic_file, writePrivateFileAtomic_file]
    split
    · exact congrArg some hdocument
    · exact halike.file
  simp only [hop, hop', hpersist, hpersist', writePrivateFileAtomic_thrown]
  split
  · exact ⟨rfl, hnext, hfile, hissued⟩
  · exact ⟨rfl, hrollback, hfile, hissued⟩

/-- A crash in the middle of one write under two clocks. -/
theorem Alike.crash (hnow : FourDigitYear now) (hnow' : FourDigitYear now')
    (hforward : (op.withClock now).Forward left.memory)
    (hforward' : (op.withClock now').Forward right.memory) (before : WriteStep) :
    Alike ((left.crash (op.withClock now) before).issue (op.withClock now))
      ((right.crash (op.withClock now') before).issue (op.withClock now')) := by
  have hissued : left.issued ++ (op.withClock now).identities =
      right.issued ++ (op.withClock now').identities := by
    rw [halike.issued, LedgerOp.withClock_identities, LedgerOp.withClock_identities]
  have happly := Alike.apply halike hleft hright hforward hforward'
  unfold LedgerHost.crash
  rcases LedgerOutcome.alike happly with ⟨error, hop, hop'⟩ | ⟨reply, reply', hop, hop'⟩ |
    ⟨next, reply, rollback, next', reply', rollback', hop, hop', hnext, hrollback⟩
  · simp only [hop, hop']
    exact ⟨halike.memory, halike.file, hissued⟩
  · simp only [hop, hop']
    exact ⟨halike.memory, halike.file, hissued⟩
  rcases Alike.persist hleft hright hnow hnow' hop hop' hnext with
    ⟨error, hpersist, hpersist'⟩ | ⟨document, document', hpersist, hpersist', hdocument⟩
  · simp only [hop, hop', hpersist, hpersist']
    exact ⟨halike.memory, halike.file, hissued⟩
  simp only [hop, hop', hpersist, hpersist']
  refine ⟨halike.memory, ?_, hissued⟩
  change (crashedWrite document before left.disk).file.map LedgerDocument.untimed =
    (crashedWrite document' before right.disk).file.map LedgerDocument.untimed
  rw [crashedWrite_file, crashedWrite_file]
  split
  · exact congrArg some hdocument
  · exact halike.file

end TwoClocks

/-- Documents that differ in the stamps only are opened as ledgers that do. -/
theorem openDocument_alike {document document' : LedgerDocument} {ledger ledger' : Ledger}
    (h : openDocument document = .ok ledger) (h' : openDocument document' = .ok ledger')
    (heq : document.untimed = document'.untimed) : ledger.untimed = ledger'.untimed := by
  have huntimed : ∀ {d : LedgerDocument} {l : Ledger}, openDocument d = .ok l →
      l.untimed = {
        records := .ofValues LaunchRecord.id d.untimed.records
        retirements := .ofValues Retirement.launchId d.untimed.retirementList
        retirementCleanups := .ofValues RetirementCleanup.launchId d.untimed.cleanupList
        compactCleanupEncoding :=
          !(decide (d.untimed.schemaVersion = launchSchemaVersion) &&
            d.untimed.retirements.isNone) && d.untimed.retirementCleanups.isNone } := by
    intro d l hopen
    have hretirements : d.untimed.retirementList =
        d.retirementList.map Retirement.untimed := by
      cases hd : d.retirements <;> simp [LedgerDocument.untimed, LedgerDocument.retirementList, hd]
    have hscoped : ((scopedRetirements (d.retirementList.map Retirement.untimed)).map
        retirementCleanup) = (scopedRetirements d.retirementList).map retirementCleanup := by
      rw [scopedRetirements, List.filter_map, List.map_map]
      rfl
    have hcleanups : d.untimed.cleanupList = d.cleanupList := by
      rw [LedgerDocument.cleanupList, hretirements, hscoped]
      rfl
    have hnone : d.untimed.retirements.isNone = d.retirements.isNone := by
      simp [LedgerDocument.untimed]
    rw [openDocument_eq hopen, hretirements, hcleanups, hnone]
    simp only [Ledger.untimed, InsertionMap.mapValues_ofValues]
    rfl
  rw [huntimed h, huntimed h', heq]

theorem Alike.reopen {left right left' right' : LedgerHost} (halike : Alike left right)
    (hstep : left.reopen = some left') (hstep' : right.reopen = some right') :
    Alike left' right' := by
  obtain ⟨⟨document, hfile, hopen⟩, hdisk, hissued⟩ := LedgerHost.reopen_loads hstep
  obtain ⟨⟨document', hfile', hopen'⟩, hdisk', hissued'⟩ := LedgerHost.reopen_loads hstep'
  have heq := halike.file
  rw [hfile, hfile'] at heq
  exact ⟨openDocument_alike hopen hopen' (Option.some.inj heq), hdisk ▸ hdisk' ▸ halike.file,
    by rw [hissued, hissued', halike.issued]⟩

/-- After an operation memory is what it was, or what the file loads. -/
theorem call_memory {host : LedgerHost} (hsound : host.Sound) {op : LedgerOp}
    (hfresh : host.IsFresh op) (fault : Option WriteStep) :
    (host.call op fault).1.memory.SameState host.memory ∨
      ∀ ledger, LedgerHost.Loads (host.call op fault).1.disk ledger →
        ledger.SameState (host.call op fault).1.memory := by
  have hpermitted := hfresh.permitted hsound.memory_issued
  have hcalled := LedgerHost.call_called host op fault
  generalize (host.call op fault).1 = after, (host.call op fault).2 = result at hcalled
  cases hcalled with
  | threw => exact .inl (.refl _)
  | returned => exact .inl (.refl _)
  | refused hop => exact .inl (LedgerHost.rollback_valid hsound.memory_valid hpermitted hop).2.toSameState
  | wrote hop hdocument hfault hfile =>
    obtain ⟨loaded, hloads, -, hsame⟩ :=
      LedgerHost.loads_persisted (hsound.next hfresh hop).1 hdocument hfile
    exact .inr fun ledger hl => hl.unique hloads ▸ hsame.toSameState
  | failed hop => exact .inl (LedgerHost.rollback_valid hsound.memory_valid hpermitted hop).2.toSameState

/-- A step keeps memory not ahead of the file, and moves no record of memory back. -/
theorem notBefore_step {host host' : LedgerHost} {event : LedgerEvent} (hsound : host.Sound)
    (hnot : ∀ ledger, LedgerHost.Loads host.disk ledger → host.memory.NotBefore ledger)
    (hforward : ∀ op ∈ event.op?, op.Forward host.memory)
    (hstep : host.step event = some host') :
    host.memory.NotBefore host'.memory ∧
      ∀ ledger, LedgerHost.Loads host'.disk ledger → host'.memory.NotBefore ledger := by
  have hsame : ∀ ledger other : Ledger, ledger.Restores other → host.memory.NotBefore other →
      host.memory.NotBefore ledger := fun _ _ hs h => h.of_same hs.toSameState
  have hholds : host.Holds host.memory.NotBefore := ⟨.refl _, hnot⟩
  have happly : ∀ op, host.IsFresh op → op ∈ event.op? → ∀ next reply rollback,
      op.apply host.memory = .persists next reply rollback → next.persist.isOk = true →
        host.memory.NotBefore next :=
    fun op hfresh hop _ _ _ hpersists _ =>
      .apply (hfresh.permitted hsound.memory_issued) (hforward op hop) hpersists
  -- a reopening puts into memory what the file loads
  have hreopened : ∀ before : LedgerHost, before.Holds host.memory.NotBefore →
      before.reopen = some host' → host.memory.NotBefore host'.memory ∧
        ∀ ledger, LedgerHost.Loads host'.disk ledger → host'.memory.NotBefore ledger := by
    intro before hb hreopen
    obtain ⟨hloads, hdisk, -⟩ := LedgerHost.reopen_loads hreopen
    refine ⟨hb.2 _ hloads, fun ledger hl => ?_⟩
    rw [hdisk] at hl
    exact hl.unique hloads ▸ .refl _
  cases event with
  | call op fault =>
    simp only [LedgerHost.step] at hstep
    split at hstep
    · next hfresh =>
      cases hstep
      have hcall := hholds.call hsame hsound hfresh fault (happly op hfresh rfl)
      refine ⟨hcall.1, fun ledger hl => ?_⟩
      rcases call_memory hsound hfresh fault with hback | hloaded
      · exact fun record hr => hcall.2 ledger hl record (hback.records.mem_iff.mp hr)
      · exact (Ledger.NotBefore.refl _).of_same (hloaded ledger hl)
    · cases hstep
  | crash op before =>
    simp only [LedgerHost.step] at hstep
    split at hstep
    · next hfresh =>
      exact hreopened ((host.crash op before).issue op)
        (hholds.crash hsame hsound hfresh before (happly op hfresh rfl)) hstep
    · cases hstep
  | reopen => exact hreopened host hholds hstep

/-! ### Every run under two clocks -/

namespace ClockPair

variable {pair pair' : ClockPair} {e : ClockEvent}

/-- What two clocks keep: the runs are alike, every stamp of the steady run is at most its last
    reading, and the other run's memory is not ahead of its file. -/
structure Inv (pair : ClockPair) : Prop where
  steady : Stamped pair.steady
  other : Stamped pair.other
  alike : Alike pair.steady pair.other
  upToLast : pair.steady.Holds (Ledger.StampsAll (· ≤ pair.last))
  notBefore : ∀ ledger, LedgerHost.Loads pair.other.disk ledger →
    pair.other.memory.NotBefore ledger

/-- The operations of a step are stamped with its reading. -/
theorem reading_eq {event : LedgerEvent} {now : Timestamp} :
    ∀ op ∈ (event.withClock now).op?, ∀ reading ∈ op.reading?, reading = now := by
  cases event with
  | call op fault =>
    intro op' hop
    obtain rfl := Option.mem_some_iff.mp hop
    exact fun _ => LedgerOp.withClock_reading
  | crash op before =>
    intro op' hop
    obtain rfl := Option.mem_some_iff.mp hop
    exact fun _ => LedgerOp.withClock_reading
  | reopen => exact fun _ hop => absurd hop (by simp [LedgerEvent.withClock, LedgerEvent.op?])

/-- A steady clock never moves a record back. -/
theorem Inv.steady_forward (h : pair.Inv) (hlast : pair.last ≤ e.steadyNow) :
    ∀ op ∈ (e.event.withClock e.steadyNow).op?, op.Forward pair.steady.memory := by
  intro op hop
  have hreading := reading_eq op hop
  cases op with
  | transition id expectedStates patch now =>
    intro current hget _
    exact ((h.upToLast.1.of_get hget).2.trans hlast).trans (hreading now rfl).ge
  | _ => trivial

/-- A step of a stamped host at a reading of a four-digit year. -/
theorem stamped_step {host host' : LedgerHost} {event : LedgerEvent} {now : Timestamp}
    (h : Stamped host) (hnow : FourDigitYear now)
    (hstep : host.step (event.withClock now) = some host') : Stamped host' where
  sound := h.sound.step hstep
  stamps := h.stamps.step (fun _ _ hs hp => hp.of_same hs.toSameState) h.sound
    (fun op hop _ _ _ hpersists _ => h.stamps.1.apply
      (fun reading hr => reading_eq op hop reading hr ▸ hnow) hpersists) hstep

/-- The two runs stay alike. -/
theorem alike_step {left right left' right' : LedgerHost} {event : LedgerEvent}
    {now now' : Timestamp} (halike : Alike left right) (hleft : Stamped left)
    (hright : Stamped right) (hnow : FourDigitYear now) (hnow' : FourDigitYear now')
    (hforward : ∀ op ∈ (event.withClock now).op?, op.Forward left.memory)
    (hforward' : ∀ op ∈ (event.withClock now').op?, op.Forward right.memory)
    (hstep : left.step (event.withClock now) = some left')
    (hstep' : right.step (event.withClock now') = some right') : Alike left' right' := by
  cases event with
  | call op fault =>
    simp only [LedgerEvent.withClock, LedgerHost.step, Option.ite_none_right_eq_some,
      Option.some.injEq] at hstep hstep'
    rw [← hstep.2, ← hstep'.2]
    exact (Alike.call halike hleft hright hnow hnow' (hforward _ rfl) (hforward' _ rfl) fault).2
  | crash op before =>
    simp only [LedgerEvent.withClock, LedgerHost.step, Option.ite_none_right_eq_some]
      at hstep hstep'
    exact (Alike.crash halike hleft hright hnow hnow' (hforward _ rfl) (hforward' _ rfl)
      before).reopen hstep.2 hstep'.2
  | reopen => exact halike.reopen hstep hstep'

theorem step_eq_some (hstep : pair.step e = some pair') :
    pair.last ≤ e.steadyNow ∧ pair'.last = e.steadyNow ∧
      pair.steady.step (e.event.withClock e.steadyNow) = some pair'.steady ∧
      pair.other.step (e.event.withClock e.otherNow) = some pair'.other := by
  unfold step at hstep
  split at hstep
  · next hlast =>
    simp only [Option.bind_eq_bind, Option.bind_eq_some_iff, Option.pure_def,
      Option.some.injEq] at hstep
    obtain ⟨steady, hsteady, other, hother, rfl⟩ := hstep
    exact ⟨hlast, rfl, hsteady, hother⟩
  · cases hstep

/-- The step lemma of a run under two clocks. -/
theorem Inv.step (h : pair.Inv) (hforward : pair.Forward e) (hstep : pair.step e = some pair') :
    pair'.Inv := by
  obtain ⟨hlast, hlast', hsteady, hother⟩ := step_eq_some hstep
  obtain ⟨hnow, hnow', hforward⟩ := hforward
  have hsteadyForward := h.steady_forward hlast
  have hupToLast : pair.steady.Holds (Ledger.StampsAll (· ≤ e.steadyNow)) :=
    ⟨h.upToLast.1.mono fun _ hle => hle.trans hlast,
      fun ledger hl => (h.upToLast.2 ledger hl).mono fun _ hle => hle.trans hlast⟩
  refine ⟨stamped_step h.steady hnow hsteady, stamped_step h.other hnow' hother,
    alike_step h.alike h.steady h.other hnow hnow' hsteadyForward hforward hsteady hother, ?_,
    (notBefore_step h.other.sound h.notBefore hforward hother).2⟩
  rw [hlast']
  exact hupToLast.step (fun _ _ hs hp => hp.of_same hs.toSameState) h.steady.sound
    (fun op hop _ _ _ hpersists _ => hupToLast.1.apply
      (fun reading hr => (reading_eq op hop reading hr).le) hpersists) hsteady

/-- A property without regard to order that the empty ledger has holds at the start. -/
theorem holds_start {P : Ledger → Prop} (h : P .initial) : LedgerHost.start.Holds P :=
  ⟨h, fun _ hl => hl.unique ⟨_, rfl, openDocument_initialDocument⟩ ▸ h⟩

theorem inv_of_start (h : clockSystem.init pair) : pair.Inv := by
  have hempty : ∀ P, Ledger.initial.StampsAll P := fun P =>
    ⟨fun _ hr => absurd hr List.not_mem_nil, fun _ he => absurd he List.not_mem_nil⟩
  have hstart : Stamped LedgerHost.start := ⟨LedgerHost.start_sound, holds_start (hempty _)⟩
  obtain ⟨hsteady, hother⟩ := h
  refine ⟨hsteady ▸ hstart, hother ▸ hstart, ?_, ?_, ?_⟩
  · rw [hsteady, hother]
    exact ⟨rfl, rfl, rfl⟩
  · rw [hsteady]
    exact holds_start (hempty _)
  · rw [hother]
    exact (holds_start (P := LedgerHost.start.memory.NotBefore) (.refl _)).2

theorem inv_of_reachable (h : clockSystem.ReachableWhile Forward pair) : pair.Inv :=
  h.invariant (fun _ => inv_of_start) fun _ _ _ hinv hforward hstep => hinv.step hforward hstep

end ClockPair

/-- **Main**: in every run whose `transition` readings are not behind the records they move, an
    operation is accepted exactly if it is accepted under a clock that never steps back, each
    record's update is not before its request, and no record's update moves back. -/
theorem clock_independence {pair : ClockPair}
    (h : clockSystem.ReachableWhile ClockPair.Forward pair) :
    (∀ record ∈ pair.other.memory.records.values, record.requestedAt ≤ record.updatedAt) ∧
      ∀ e pair', pair.Forward e → clockSystem.step pair e = some pair' →
        pair.other.memory.NotBefore pair'.other.memory ∧
          ∀ op fault, e.event = .call op fault →
            (pair.other.call (op.withClock e.otherNow) fault).2.isOk =
              (pair.steady.call (op.withClock e.steadyNow) fault).2.isOk := by
  have hinv := ClockPair.inv_of_reachable h
  refine ⟨hinv.other.ordered, fun e pair' hforward hstep => ?_⟩
  obtain ⟨hlast, -, hsteady, hother⟩ := ClockPair.step_eq_some hstep
  refine ⟨(notBefore_step hinv.other.sound hinv.notBefore hforward.2.2 hother).1, ?_⟩
  intro op fault hevent
  have hsteadyForward := hinv.steady_forward hlast
  have hotherForward := hforward.2.2
  rw [hevent] at hsteadyForward hotherForward
  exact (Alike.call hinv.alike hinv.steady hinv.other hforward.1 hforward.2.1
    (hsteadyForward _ rfl) (hotherForward _ rfl) fault).1.symm

/-- A clock that is five seconds ahead when the launch is reserved, and not behind the record
    afterwards. -/
theorem clock_independence_ahead :
    ∃ pair : ClockPair, pair.other.memory.records.size = 1 ∧
      ∀ record ∈ pair.other.memory.records.values, record.requestedAt ≤ record.updatedAt := by
  have hrun : ∃ pair ∈ (clockSystem.restrict ClockPair.Forward).run ⟨.start, .start, 0⟩
      [⟨.call sampleReserve none, 1000, 6000⟩, ⟨.call sampleCreating none, 2000, 6000⟩],
      pair.other.memory.records.size = 1 := by
    decide +kernel
  obtain ⟨pair, hpair, hsize⟩ := hrun
  exact ⟨pair, hsize, (clock_independence (.ofRun (.init ⟨rfl, rfl⟩) hpair)).1⟩

/-- A clock that steps back between the reservation and the first transition: `transition`
    throws, where it is accepted under the steady clock. -/
theorem transition_clock_behind :
    ∃ pair pair' : ClockPair, clockSystem.Reachable pair ∧
      clockSystem.step pair ⟨.call sampleCreating none, 2000, 5000⟩ = some pair' ∧
      (pair.steady.call (sampleCreating.withClock 2000) none).2.isOk = true ∧
      (pair.other.call (sampleCreating.withClock 5000) none).2.isOk = false := by
  have hrun : ∃ pair ∈ clockSystem.run ⟨.start, .start, 0⟩
        [⟨.call sampleReserve none, 1000, 6000⟩],
      (clockSystem.step pair ⟨.call sampleCreating none, 2000, 5000⟩).isSome = true ∧
        (pair.steady.call (sampleCreating.withClock 2000) none).2.isOk = true ∧
        (pair.other.call (sampleCreating.withClock 5000) none).2.isOk = false := by
    decide +kernel
  obtain ⟨pair, hpair, hstep, haccepted⟩ := hrun
  obtain ⟨pair', hpair'⟩ := Option.isSome_iff_exists.mp hstep
  exact ⟨pair, pair', .ofRun (.ofInit ⟨rfl, rfl⟩) hpair, hpair', haccepted⟩

end AgentHost
