import AgentHost.Core.RegistryRefresh

namespace AgentHost

/-!
# The circuits of the registry's adapters

* `Registry.AttemptsOk` — the circuits, what was admitted, and that a probe in flight is an attempt
  of the pass that runs; every function of the registry keeps it.
* `circuit_breaker` — the circuit of every adapter in every reachable state.
-/

namespace Registry

variable {δ κ : Type} {cfg : RegistryConfig δ κ} {s : Registry δ κ}

/-- The circuits of a registry and the attempts they wait for. -/
structure AttemptsOk (cfg : RegistryConfig δ κ) (s : Registry δ κ) : Prop where
  circuit : ∀ id, (s.circuits id).Ok cfg (s.reports id)
  admitted : ∀ admission ∈ s.admissions, admission.force = false →
    admission.nextAttemptAt ≤ admission.now
  probe : s.closed = false → ∀ id, (s.circuits id).probeInFlight = true →
    ∃ attempt, s.attempts.get? id = some attempt ∧ attempt.probe = true
  reused : ∀ attempt ∈ s.attempts.values, ∀ flight outcome,
    attempt.phase = .resumed flight outcome → outcome.reusedTimedOutFlight = true →
    outcome.status matches .timeout
  unmarked : ∀ attempt ∈ s.attempts.values, ∀ flight outcome,
    attempt.phase = .resumed flight outcome → outcome.markStale = false

theorem attemptsOk_empty : AttemptsOk cfg (empty : Registry δ κ) where
  circuit := fun _ => Circuit.ok_initial
  admitted := nofun
  probe := nofun
  reused := nofun
  unmarked := nofun

/-! ### The start of a pass -/

theorem discoverAdapter_attempts (s : Registry δ κ) (adapterId : String) (probe : Bool) :
    ∃ phase, (s.discoverAdapter adapterId probe).attempts = s.attempts.set ⟨adapterId, probe, phase⟩ ∧
      (∀ flight outcome, phase = .resumed flight outcome →
        (outcome.status matches .timeout) = true ∧ outcome.markStale = false) := by
  unfold discoverAdapter
  split
  · split
    · exact ⟨_, rfl, by rintro _ _ ⟨⟩; exact ⟨rfl, rfl⟩⟩
    · exact ⟨_, rfl, nofun⟩
  · exact ⟨_, rfl, nofun⟩

/-- An attempt that is added once its circuit has admitted it. -/
theorem AttemptsOk.startAttempt (h : AttemptsOk cfg s) (force : Bool) (now : String → Int)
    (adapter : AgentAdapter δ κ) : AttemptsOk cfg (s.startAttempt cfg force now adapter) := by
  have hcircuit := (h.circuit adapter.id).admitAdapter force (now adapter.id)
  have hflag := Circuit.admitAdapter_probeInFlight cfg (s.circuits adapter.id) force
    (now adapter.id)
  have hbusy : (s.circuits adapter.id).probeInFlight = true →
      ((s.circuits adapter.id).admitAdapter cfg force (now adapter.id)).2 = none := fun hb => by
    rw [Circuit.admitAdapter_of_probeInFlight hb]
  have htime : force = false →
      ((s.circuits adapter.id).admitAdapter cfg force (now adapter.id)).2 ≠ none →
      (s.circuits adapter.id).nextAttemptAt ≤ now adapter.id := fun hforce => by
    rw [hforce]
    exact Circuit.nextAttemptAt_le_of_admitted
  unfold Registry.startAttempt
  dsimp only
  generalize (s.circuits adapter.id).admitAdapter cfg force (now adapter.id) = admission at *
  obtain ⟨circuit, admitted⟩ := admission
  have hcircuits : ∀ id,
      (Function.update s.circuits adapter.id circuit id).Ok cfg (s.reports id) := fun id => by
    by_cases hid : id = adapter.id
    · subst hid
      rwa [Function.update_self]
    · rw [Function.update_of_ne hid]
      exact h.circuit id
  cases admitted with
  | none =>
    dsimp only
    refine ⟨hcircuits, h.admitted, fun hopen id hprobe => ?_, h.reused, h.unmarked⟩
    dsimp only at hopen hprobe ⊢
    by_cases hid : id = adapter.id
    · subst hid
      rw [Function.update_self] at hprobe
      exact h.probe hopen _ ((hflag.mp hprobe).resolve_right nofun)
    · rw [Function.update_of_ne hid] at hprobe
      exact h.probe hopen id hprobe
  | some probe =>
    dsimp only
    rw [discoverAdapter_eq]
    dsimp only
    generalize ht : ({ s with
      circuits := Function.update s.circuits adapter.id circuit
      admissions := _ } : Registry δ κ) = t
    obtain ⟨phase, hattempts, hphases⟩ :=
      discoverAdapter_attempts t adapter.id probe
    rw [hattempts]
    subst ht
    refine ⟨hcircuits, fun admission hadmission hforce => ?_, fun hopen id hprobe => ?_,
      fun attempt hattempt flight outcome hphase hreused => ?_,
      fun attempt hattempt flight outcome hphase => ?_⟩
    · rcases List.mem_append.mp hadmission with hadmission | hadmission
      · exact h.admitted admission hadmission hforce
      · obtain rfl := List.mem_singleton.mp hadmission
        exact htime hforce nofun
    · dsimp only at hopen hprobe ⊢
      by_cases hid : id = adapter.id
      · subst hid
        rw [Function.update_self] at hprobe
        -- no probe was in flight before, so the one that is now is this attempt
        have hnow := (hflag.mp hprobe).resolve_left fun hb => nomatch hbusy hb
        exact ⟨_, (InsertionMap.get?_set _ _ _).trans (if_pos rfl), Option.some.inj hnow⟩
      · rw [Function.update_of_ne hid] at hprobe
        obtain ⟨attempt, hattempt, hp⟩ := h.probe hopen id hprobe
        exact ⟨attempt, by rw [InsertionMap.get?_set, if_neg hid]; exact hattempt, hp⟩
    · rcases InsertionMap.mem_set.mp hattempt with rfl | ⟨hattempt, -⟩
      · exact (hphases flight outcome hphase).1
      · exact h.reused attempt hattempt flight outcome hphase hreused
    · rcases InsertionMap.mem_set.mp hattempt with rfl | ⟨hattempt, -⟩
      · exact (hphases flight outcome hphase).2
      · exact h.unmarked attempt hattempt flight outcome hphase

/-- What changes neither circuits nor attempts. -/
theorem AttemptsOk.congr {t : Registry δ κ} (h : AttemptsOk cfg s) (hcircuits : t.circuits = s.circuits)
    (hreports : t.reports = s.reports) (hadmissions : t.admissions = s.admissions)
    (hattempts : t.attempts = s.attempts) (hclosed : t.closed = false → s.closed = false) :
    AttemptsOk cfg t where
  circuit := by rw [hcircuits, hreports]; exact h.circuit
  admitted := by rw [hadmissions]; exact h.admitted
  probe := fun hopen => by rw [hcircuits, hattempts]; exact h.probe (hclosed hopen)
  reused := by rw [hattempts]; exact h.reused
  unmarked := by rw [hattempts]; exact h.unmarked

theorem AttemptsOk.enter (h : AttemptsOk cfg s) (now : String → Int) (loop : RefreshLoop) :
    AttemptsOk cfg (s.enter cfg now loop) :=
  enter_induction cfg s (h.congr rfl rfl rfl rfl id) fun _ force adapter ht =>
    ht.startAttempt force now adapter

/-! ### The end of an attempt -/

/-- What is recorded for an adapter, whose attempt may be over. -/
theorem AttemptsOk.report {adapterId : String} {probe : Bool} {report : CircuitReport}
    {t : Registry δ κ} (h : AttemptsOk cfg s)
    (hcircuits : t.circuits = (s.report cfg adapterId probe report).circuits)
    (hreports : t.reports = (s.report cfg adapterId probe report).reports)
    (hadmissions : t.admissions = s.admissions) (hclosed : t.closed = s.closed)
    (hattempts : t.attempts = s.attempts ∨ t.attempts = s.attempts.delete adapterId)
    (hprobe : s.closed = false → report = .superseded →
      (s.circuits adapterId).probeInFlight = true → probe = true) : AttemptsOk cfg t := by
  have hget : ∀ id, id ≠ adapterId → t.attempts.get? id = s.attempts.get? id := fun id hid => by
    rcases hattempts with he | he
    · rw [he]
    · rw [he, InsertionMap.get?_delete, if_neg hid]
  have hmem : ∀ attempt ∈ t.attempts.values, attempt ∈ s.attempts.values := fun attempt ha => by
    rcases hattempts with he | he
    · rwa [he] at ha
    · rw [he] at ha
      exact (InsertionMap.mem_delete.mp ha).1
  refine ⟨fun id => ?_, hadmissions ▸ h.admitted, fun hopen id hid => ?_,
    fun attempt ha => h.reused attempt (hmem attempt ha),
    fun attempt ha => h.unmarked attempt (hmem attempt ha)⟩
  · rw [hcircuits, hreports]
    unfold Registry.report
    by_cases hid : id = adapterId
    · subst hid
      simpa only [Function.update_self] using (h.circuit id).report probe report
    · simpa only [Function.update_of_ne hid] using h.circuit id
  · rw [hclosed] at hopen
    rw [hcircuits] at hid
    simp only [Registry.report] at hid
    by_cases he : id = adapterId
    · subst he
      rw [Function.update_self, Circuit.probeInFlight_report (hprobe hopen)] at hid
      cases hid
    · rw [Function.update_of_ne he] at hid
      rw [hget id he]
      exact h.probe hopen id hid

theorem logApplied_eq {flight : Option Nat} {outcome : AdapterOutcome δ κ} :
    s.logApplied flight outcome = { s with applied := (s.logApplied flight outcome).applied } := by
  unfold logApplied
  split <;> rfl

section Steps

variable [DecidableEq δ] [DecidableEq κ] {s' : Registry δ κ} {move : RegistryMove δ κ}

theorem AttemptsOk.conclude {adapterId time : String} {attempt : Attempt δ κ} {flight : Option Nat}
    {recordedAt : Int} {outcome : AdapterOutcome δ κ} (h : AttemptsOk cfg s)
    (hattempt : s.attempts.get? adapterId = some attempt) :
    AttemptsOk cfg (s.conclude cfg adapterId attempt.probe flight outcome recordedAt time) := by
  have hprobe : s.closed = false → (s.circuits adapterId).probeInFlight = true →
      attempt.probe = true := fun hopen hflag => by
    obtain ⟨attempt', hattempt', hp⟩ := h.probe hopen adapterId hflag
    rw [hattempt, Option.some.injEq] at hattempt'
    exact hattempt' ▸ hp
  unfold Registry.conclude
  dsimp only
  split
  · exact h.report rfl rfl rfl rfl (.inr rfl) fun hopen _ => hprobe hopen
  · split
    · next hclosed =>
      refine ⟨h.circuit, h.admitted, fun hopen => ?_, fun a ha => h.reused a ?_,
        fun a ha => h.unmarked a ?_⟩
      · exact absurd hopen (by simpa using hclosed)
      · exact (InsertionMap.mem_delete.mp ha).1
      · exact (InsertionMap.mem_delete.mp ha).1
    · rw [logApplied_eq]
      exact h.report rfl rfl rfl rfl (.inr rfl) fun hopen _ => hprobe hopen

theorem AttemptsOk.disconnect {adapterId time : String} {recordedAt : Int} (h : AttemptsOk cfg s) :
    AttemptsOk cfg (s.disconnect cfg adapterId recordedAt time) := by
  unfold Registry.disconnect
  split
  · exact h.report rfl rfl rfl rfl (.inl rfl) nofun
  · exact h.congr rfl rfl rfl rfl id

omit [DecidableEq δ] [DecidableEq κ] in
theorem AttemptsOk.resume {attempt : Attempt δ κ} {n : Nat} {flight : AdapterFlight δ κ}
    {race : RaceEnd} {adapterId : String} (h : AttemptsOk cfg s)
    (hattempt : s.attempts.get? adapterId = some attempt)
    (hresume : s.resume attempt n flight race = some s') : AttemptsOk cfg s' := by
  have hset : ∀ {t : Registry δ κ} {outcome : AdapterOutcome δ κ}, t.circuits = s.circuits →
      t.reports = s.reports → t.admissions = s.admissions → t.attempts = s.attempts →
      t.closed = s.closed → outcome.reusedTimedOutFlight = false → outcome.markStale = false →
      AttemptsOk cfg (t.setOutcome attempt n outcome) := by
    intro t outcome hc hr had hat hcl hreused hmark
    have ht := h.congr hc hr had hat (fun hopen => hcl ▸ hopen)
    refine ⟨ht.circuit, ht.admitted, fun hopen id hid => ?_, fun a ha fl o hphase ho => ?_,
      fun a ha fl o hphase => ?_⟩
    · obtain ⟨a, ha, hp⟩ := ht.probe hopen id hid
      by_cases hkey : id = attempt.adapterId
      · refine ⟨_, (InsertionMap.get?_set _ _ _).trans (if_pos hkey), ?_⟩
        have hid' : id = adapterId := hkey.trans (InsertionMap.key_of_get? hattempt)
        rw [hat, hid', hattempt, Option.some.injEq] at ha
        exact ha ▸ hp
      · exact ⟨a, (InsertionMap.get?_set _ _ _).trans ((if_neg hkey).trans ha), hp⟩
    · rcases InsertionMap.mem_set.mp ha with rfl | ⟨ha, -⟩
      · cases hphase
        rw [hreused] at ho
        cases ho
      · exact ht.reused a ha fl o hphase ho
    · rcases InsertionMap.mem_set.mp ha with rfl | ⟨ha, -⟩
      · cases hphase
        exact hmark
      · exact ht.unmarked a ha fl o hphase
  unfold Registry.resume at hresume
  split at hresume
  · split at hresume
    · cases hresume; exact hset rfl rfl rfl rfl rfl rfl rfl
    · cases hresume
  · cases hresume; exact hset rfl rfl rfl rfl rfl rfl rfl
  · split at hresume
    · cases hresume; exact hset rfl rfl rfl rfl rfl rfl rfl
    · cases hresume

theorem AttemptsOk.step (h : AttemptsOk cfg s) (hstep : s.step cfg move = some s') :
    AttemptsOk cfg s' := by
  cases step_cases hstep with
  | ignored => exact h
  | refresh | refreshAfterOwnedLaunchChange | adapterChanged | runQueuedRefresh | runFollowup =>
    exact h.enter _ _
  | disconnected => exact h.disconnect.enter _ _
  | resume hattempt _ _ ht => exact h.resume hattempt ht
  | conclude hattempt => exact h.conclude hattempt
  | deactivateOwnedLaunch =>
    rw [deactivateOwnedLaunch_eq]
    exact h.congr rfl rfl rfl rfl id
  | close => exact h.congr rfl rfl rfl rfl nofun
  | dropQueuedRefresh | abandonFollowup | discovered | discoveredOwned | dropFlight | endPass
  | activateOwnedLaunch | changeProvider | loadHistory | historyLoaded | historySettled
  | finishClose => exact h.congr rfl rfl rfl rfl id

/-- No attempt is left where no pass runs. -/
theorem attempts_step (h : s.loop.refreshPromise = none → s.attempts.values = [])
    (hstep : s.step cfg move = some s') :
    s'.loop.refreshPromise = none → s'.attempts.values = [] := by
  intro hnone
  cases step_cases hstep with
  | refresh =>
    rw [enter_loop] at hnone
    exact absurd hnone RefreshLoop.refreshPromise_refresh
  | refreshAfterOwnedLaunchChange =>
    rw [enter_loop] at hnone
    exact absurd hnone RefreshLoop.refreshPromise_afterOwnedChange
  | adapterChanged | disconnected =>
    rw [enter_loop] at hnone
    exact absurd hnone RefreshLoop.refreshPromise_adapterChanged
  | runQueuedRefresh | runFollowup =>
    rw [enter_loop] at hnone
    exact absurd hnone RefreshLoop.refreshPromise_refresh
  | abandonFollowup =>
    refine h ?_
    simp only [RefreshLoop.abandonFollowup, RefreshLoop.clearFollowup] at hnone
    split at hnone <;> exact hnone
  | resume hattempt _ _ ht =>
    rw [resume_eq s ht] at hnone
    simp [InsertionMap.get?, h hnone] at hattempt
  | conclude hattempt =>
    rw [conclude_eq] at hnone
    simp [InsertionMap.get?, h hnone] at hattempt
  | deactivateOwnedLaunch =>
    rw [deactivateOwnedLaunch_eq] at hnone ⊢
    exact h hnone
  | endPass _ hattempts => exact hattempts
  | ignored | dropQueuedRefresh | discovered | discoveredOwned | dropFlight
  | activateOwnedLaunch | changeProvider | loadHistory | historyLoaded | historySettled
  | close | finishClose => exact h hnone

omit [DecidableEq δ] [DecidableEq κ] in
/-- What a reused flight or a superseded one leaves as it was. -/
theorem report_of_not_counted {adapterId : String} {probe : Bool} {report : CircuitReport}
    (h : report = .superseded ∨ ∃ time, report = .recorded .reused time) :
    ((s.report cfg adapterId probe report).circuits adapterId).consecutiveFailures =
        (s.circuits adapterId).consecutiveFailures ∧
      ((s.report cfg adapterId probe report).circuits adapterId).nextAttemptAt =
        (s.circuits adapterId).nextAttemptAt := by
  simp only [Registry.report, Function.update_self]
  rcases h with rfl | ⟨time, rfl⟩
  · simp only [Circuit.report, Circuit.discardCircuitProbe]
    split <;> exact ⟨rfl, rfl⟩
  · exact ⟨rfl, rfl⟩

/-- The circuit of an adapter whose attempt ends without an outcome that counts. -/
theorem conclude_of_not_counted {adapterId time : String} {probe : Bool} {flight : Option Nat}
    {recordedAt : Int} {outcome : AdapterOutcome δ κ}
    (h : outcome.status = .superseded ∨
      (outcome.status = .timeout ∧ outcome.reusedTimedOutFlight = true)) :
    ((s.conclude cfg adapterId probe flight outcome recordedAt time).circuits
          adapterId).consecutiveFailures = (s.circuits adapterId).consecutiveFailures ∧
      ((s.conclude cfg adapterId probe flight outcome recordedAt time).circuits
          adapterId).nextAttemptAt = (s.circuits adapterId).nextAttemptAt := by
  unfold Registry.conclude
  rcases h with h | ⟨h, hreused⟩
  · simp only [h]
    exact report_of_not_counted (.inl rfl)
  · simp only [h]
    split
    · exact ⟨rfl, rfl⟩
    · rw [logApplied_eq]
      refine report_of_not_counted (.inr ⟨recordedAt, ?_⟩)
      simp [circuitReport, h, hreused]

theorem attemptsOk (h : (system cfg).Reachable s) : AttemptsOk cfg s := by
  refine h.invariant ?_ fun s move s' hs hstep => hs.step hstep
  rintro _ rfl
  exact attemptsOk_empty

theorem attempts_eq_nil (h : (system cfg).Reachable s) :
    s.loop.refreshPromise = none → s.attempts.values = [] := by
  refine h.invariant (P := fun s => s.loop.refreshPromise = none → s.attempts.values = []) ?_
    fun s move s' hs hstep => attempts_step hs hstep
  rintro _ rfl -
  rfl

end Steps

end Registry

open Registry

variable {δ κ : Type} [DecidableEq δ] [DecidableEq κ]

/-- **Circuit breaker.** Whatever the order of the moves and the readings of the clock: the circuit of
    an adapter is half open just while a probe is in flight, and else open or closed by the number of
    failures since the last success, the last of which set the time of the next attempt; no unforced
    attempt was admitted before its time; once a pass of an open registry has ended no probe is in
    flight; and what ends superseded or on a reused flight does not count. -/
theorem circuit_breaker (cfg : RegistryConfig δ κ) (s : Registry δ κ)
    (h : (system cfg).Reachable s) :
    (∀ id, ((s.circuits id).phase = .halfOpen ↔ (s.circuits id).probeInFlight = true) ∧
      ((s.circuits id).probeInFlight = false → (s.circuits id).phase =
        if cfg.circuitThreshold ≤ (s.circuits id).consecutiveFailures then .opened else .closed) ∧
      (s.circuits id).consecutiveFailures = (failureTimes (s.reports id)).length ∧
      (s.circuits id).nextAttemptAt = (failureTimes (s.reports id)).getLast?.elim 0 fun time =>
        time + (min cfg.circuitMaxMs
          (cfg.circuitBaseMs * 2 ^ ((s.circuits id).consecutiveFailures - 1)) : Nat)) ∧
    (∀ admission ∈ s.admissions, admission.force = false →
      admission.nextAttemptAt ≤ admission.now) ∧
    (s.closed = false → s.loop.refreshPromise = none →
      ∀ id, (s.circuits id).probeInFlight = false) ∧
    ∀ adapterId discoveryCurrent recordedAt time s' attempt flight outcome adapter,
      s.step cfg (.conclude adapterId discoveryCurrent recordedAt time) = some s' →
      s.attempts.get? adapterId = some attempt → attempt.phase = .resumed flight outcome →
      cfg.adapters.get? adapterId = some adapter →
      ((s.normalizeOutcome adapter outcome discoveryCurrent).status = .superseded ∨
        outcome.reusedTimedOutFlight = true) →
      (s'.circuits adapterId).consecutiveFailures = (s.circuits adapterId).consecutiveFailures ∧
        (s'.circuits adapterId).nextAttemptAt = (s.circuits adapterId).nextAttemptAt := by
  have hok := attemptsOk h
  refine ⟨fun id => ?_, hok.admitted, fun hopen hnone id => ?_, ?_⟩
  · have hcircuit := hok.circuit id
    exact ⟨hcircuit.halfOpen, hcircuit.resting, hcircuit.failures, hcircuit.nextAttemptAt⟩
  · by_contra hflag
    obtain ⟨attempt, hattempt, -⟩ := hok.probe hopen id (by simpa using hflag)
    simp [InsertionMap.get?, attempts_eq_nil h hnone] at hattempt
  · intro adapterId discoveryCurrent recordedAt time s' attempt flight outcome adapter hstep hattempt
      hphase hadapter hcount
    cases step_cases hstep with
    | ignored hcall => cases hcall
    | conclude hattempt' hphase' hadapter' =>
      rw [hattempt, Option.some.injEq] at hattempt'
      subst hattempt'
      rw [hphase] at hphase'
      cases hphase'
      rw [hadapter, Option.some.injEq] at hadapter'
      subst hadapter'
      refine conclude_of_not_counted (hcount.imp_right fun hreused => ?_)
      have hstatus := hok.reused _ (InsertionMap.mem_of_get? hattempt) _ _ hphase hreused
      unfold normalizeOutcome
      split at hstatus
      · next ht => simp [ht, hreused]
      · cases hstatus

/-- A registry with one adapter. -/
def tmuxConfig : RegistryConfig Unit Unit where
  adapters := .ofValues _ [{ id := "tmux" }]
  dateParse := fun _ => none
  localeCompare := compare
  normalizeRepositoryContext := id
  contextState := fun _ => "unsupported"

/-- A pass whose only discovery fails. -/
def failedPassRun : List (RegistryMove Unit Unit) :=
  [.refresh false fun _ => 0, .discovered 0 none, .resume "tmux" .flight,
    .conclude "tmux" true 5 "2024-01-01T00:00:00.000Z", .endPass]

theorem circuit_breaker_failure : ∃ s, (system tmuxConfig).run Registry.empty
    failedPassRun = some s ∧ (s.circuits "tmux").consecutiveFailures = 1 ∧
    (s.circuits "tmux").phase = .closed ∧ (s.circuits "tmux").nextAttemptAt = 1005 := by
  have hrun : ∃ s, (system tmuxConfig).run Registry.empty failedPassRun = some s ∧
      s.closed = false ∧ s.loop.refreshPromise = none ∧
      s.reports "tmux" = [.recorded .failure 5] := ⟨_, rfl, rfl, rfl, rfl⟩
  obtain ⟨s, hs, hopen, hnone, hreports⟩ := hrun
  have hlaw := circuit_breaker tmuxConfig s (reachable_of_run hs)
  obtain ⟨-, hresting, hfailures, hnext⟩ := hlaw.1 "tmux"
  rw [hreports] at hfailures hnext
  refine ⟨s, hs, hfailures, ?_, ?_⟩
  · rw [hresting (hlaw.2.2.1 hopen hnone "tmux"), hfailures]
    rfl
  · rw [hnext, hfailures]
    rfl

end AgentHost
