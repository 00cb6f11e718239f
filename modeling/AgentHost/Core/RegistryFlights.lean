import AgentHost.Core.RegistryCircuits

namespace AgentHost

/-!
# The flights of the registry's adapters

* `Registry.Landed` — a flight that has settled in time and that no adapter has any more; moves
  leave it alone (`Keeps`).
* `Registry.FlightsOk` — whose flight an attempt races for, where an outcome came from, and that
  every flight whose agents were stored has landed; every function of the registry keeps it.
* `Registry.AgentsOk` — what holds of the agents that the adapters answer with holds of those of the
  settled flights.
-/

namespace Registry

variable {δ κ : Type} {cfg : RegistryConfig δ κ} {s t : Registry δ κ}

/-- Flight `n` settled before its timeout, and no adapter has it any more. -/
def Landed (s : Registry δ κ) (n : Nat) : Prop :=
  (∃ flight answer, s.flights[n]? = some flight ∧ flight.timedOut = false ∧
    flight.phase = .settled answer) ∧ ∀ id, s.adapterFlights id ≠ some n

/-- Flights that have landed stay as they are. -/
def Keeps (s t : Registry δ κ) : Prop :=
  ∀ n, Landed s n → t.flights[n]? = s.flights[n]? ∧ ∀ id, t.adapterFlights id ≠ some n

/-- An outcome with agents is that of a flight that has landed with them. -/
def Origin (s : Registry δ κ) (adapterId : String) (n : Option Nat)
    (outcome : AdapterOutcome δ κ) : Prop :=
  ∀ agents, outcome.status = .success agents → ∃ m flight, n = some m ∧ Landed s m ∧
    s.flights[m]? = some flight ∧ flight.adapterId = adapterId ∧
    flight.phase = .settled (some agents) ∧
    outcome.ownedLaunchGeneration = some flight.ownedLaunchGeneration

/-- The agents of a flight that has landed were stored in an open registry, and in the generation of
    owned launches that the flight began with if its adapter can launch. -/
def AppliedOk (cfg : RegistryConfig δ κ) (s : Registry δ κ) (entry : AppliedFlight) : Prop :=
  entry.closed = false ∧ Landed s entry.flight ∧
    ∀ flight adapter, s.flights[entry.flight]? = some flight →
      cfg.adapters.get? flight.adapterId = some adapter → adapter.launchCapable = true →
      flight.ownedLaunchGeneration = entry.ownedLaunchGeneration

structure FlightsOk (cfg : RegistryConfig δ κ) (s : Registry δ κ) : Prop where
  current : ∀ id n, s.adapterFlights id = some n →
    ∃ flight, s.flights[n]? = some flight ∧ flight.adapterId = id
  racing : ∀ attempt ∈ s.attempts.values, ∀ n, attempt.phase = .racing n →
    s.adapterFlights attempt.adapterId = some n ∧
      ∃ flight, s.flights[n]? = some flight ∧ flight.timedOut = false
  resumed : ∀ attempt ∈ s.attempts.values, ∀ n outcome, attempt.phase = .resumed n outcome →
    Origin s attempt.adapterId n outcome
  applied : ∀ entry ∈ s.applied, AppliedOk cfg s entry

theorem flightsOk_empty : FlightsOk cfg (empty : Registry δ κ) where
  current := nofun
  racing := nofun
  resumed := nofun
  applied := nofun

theorem Keeps.landed (h : Keeps s t) {n : Nat} (hn : Landed s n) : Landed t n := by
  obtain ⟨hflights, hids⟩ := h n hn
  obtain ⟨⟨flight, answer, hflight, htime, hphase⟩, -⟩ := hn
  exact ⟨⟨flight, answer, hflights.trans hflight, htime, hphase⟩, hids⟩

theorem Keeps.origin (h : Keeps s t) {adapterId : String} {n : Option Nat}
    {outcome : AdapterOutcome δ κ} (ho : Origin s adapterId n outcome) :
    Origin t adapterId n outcome := by
  intro agents hagents
  obtain ⟨m, flight, hm, hlanded, hflight, hrest⟩ := ho agents hagents
  exact ⟨m, flight, hm, h.landed hlanded, (h m hlanded).1.trans hflight, hrest⟩

theorem Keeps.appliedOk (h : Keeps s t) {entry : AppliedFlight} (he : AppliedOk cfg s entry) :
    AppliedOk cfg t entry := by
  obtain ⟨hopen, hlanded, hgeneration⟩ := he
  refine ⟨hopen, h.landed hlanded, fun flight adapter hflight => ?_⟩
  exact hgeneration flight adapter ((h _ hlanded).1.symm.trans hflight)

/-- What leaves the flights alone. -/
theorem Keeps.of_eq (hflights : t.flights = s.flights) (hids : t.adapterFlights = s.adapterFlights) :
    Keeps s t := fun n hn => ⟨by rw [hflights], by rw [hids]; exact hn.2⟩

/-- Attempts that are new or moved on, beside those that were there. -/
theorem FlightsOk.of_keeps (h : FlightsOk cfg s) (hkeeps : Keeps s t)
    (hcurrent : ∀ id n, t.adapterFlights id = some n →
      ∃ flight, t.flights[n]? = some flight ∧ flight.adapterId = id)
    (hracing : ∀ attempt ∈ t.attempts.values, ∀ n, attempt.phase = .racing n →
      t.adapterFlights attempt.adapterId = some n ∧
        ∃ flight, t.flights[n]? = some flight ∧ flight.timedOut = false)
    (hresumed : ∀ attempt ∈ t.attempts.values, ∀ n outcome, attempt.phase = .resumed n outcome →
      attempt ∈ s.attempts.values ∨ Origin t attempt.adapterId n outcome)
    (happlied : t.applied = s.applied) : FlightsOk cfg t where
  current := hcurrent
  racing := hracing
  resumed := fun attempt ha n outcome hphase => by
    rcases hresumed attempt ha n outcome hphase with ha | ho
    · exact hkeeps.origin (h.resumed attempt ha n outcome hphase)
    · exact ho
  applied := fun entry he => hkeeps.appliedOk (h.applied entry (happlied ▸ he))

/-- What changes neither flights nor attempts. -/
theorem FlightsOk.congr (h : FlightsOk cfg s) (hflights : t.flights = s.flights)
    (hids : t.adapterFlights = s.adapterFlights) (hattempts : t.attempts = s.attempts)
    (happlied : t.applied = s.applied) : FlightsOk cfg t := by
  refine h.of_keeps (.of_eq hflights hids) ?_ ?_ (fun attempt ha _ _ _ => .inl ?_) happlied
  · rw [hids, hflights]
    exact h.current
  · rw [hids, hflights, hattempts]
    exact h.racing
  · exact hattempts ▸ ha

/-! ### The start of a pass -/

theorem FlightsOk.discoverAdapter (h : FlightsOk cfg s) (adapterId : String) (probe : Bool) :
    FlightsOk cfg (s.discoverAdapter adapterId probe) := by
  unfold Registry.discoverAdapter
  split
  · next n hn =>
    obtain ⟨flight, hflight, -⟩ := h.current adapterId n hn
    split
    · refine h.of_keeps (.of_eq rfl rfl) h.current (fun attempt ha m hphase => ?_)
        (fun attempt ha m outcome hphase => ?_) rfl
      · rcases InsertionMap.mem_set.mp ha with rfl | ⟨ha, -⟩
        · cases hphase
        · exact h.racing attempt ha m hphase
      · rcases InsertionMap.mem_set.mp ha with rfl | ⟨ha, -⟩
        · cases hphase
          exact .inr fun agents hagents => by cases hagents
        · exact .inl ha
    · next htime =>
      have htimedOut : flight.timedOut = false := by simpa [hflight] using htime
      refine h.of_keeps (.of_eq rfl rfl) h.current (fun attempt ha m hphase => ?_)
        (fun attempt ha m outcome hphase => ?_) rfl
      · rcases InsertionMap.mem_set.mp ha with rfl | ⟨ha, -⟩
        · cases hphase
          exact ⟨hn, flight, hflight, htimedOut⟩
        · exact h.racing attempt ha m hphase
      · rcases InsertionMap.mem_set.mp ha with rfl | ⟨ha, -⟩
        · cases hphase
        · exact .inl ha
  · next hnone =>
    have hold : ∀ {n flight}, s.flights[n]? = some flight → (s.flights ++
        [⟨adapterId, s.ownedLaunchGeneration, .discovering, false⟩])[n]? = some flight :=
      fun hn => by rw [List.getElem?_append_left (List.getElem?_eq_some_iff.mp hn).1, hn]
    refine h.of_keeps (fun n hn => ⟨?_, fun id => ?_⟩) (fun id n hid => ?_)
      (fun attempt ha m hphase => ?_) (fun attempt ha m outcome hphase => ?_) rfl
    · obtain ⟨⟨flight, -, hflight, -⟩, -⟩ := hn
      rw [hflight]
      exact hold hflight
    · -- the new flight has a number of its own
      obtain ⟨⟨flight, -, hflight, -⟩, hids⟩ := hn
      have hlt := (List.getElem?_eq_some_iff.mp hflight).1
      by_cases hid : id = adapterId
      · subst hid
        simpa using Nat.ne_of_gt hlt
      · simpa [Function.update_of_ne hid] using hids id
    · by_cases he : id = adapterId
      · subst he
        simp only [Function.update_self, Option.some.injEq] at hid
        subst hid
        exact ⟨_, List.getElem?_concat_length, rfl⟩
      · simp only [Function.update_of_ne he] at hid
        obtain ⟨flight, hflight, ha⟩ := h.current id n hid
        exact ⟨flight, hold hflight, ha⟩
    · rcases InsertionMap.mem_set.mp ha with rfl | ⟨ha, hkey⟩
      · cases hphase
        exact ⟨Function.update_self .., _, List.getElem?_concat_length, rfl⟩
      · obtain ⟨hid, flight, hflight, htime⟩ := h.racing attempt ha m hphase
        exact ⟨by simpa only [Function.update_of_ne hkey] using hid, flight, hold hflight, htime⟩
    · rcases InsertionMap.mem_set.mp ha with rfl | ⟨ha, -⟩
      · cases hphase
      · exact .inl ha

theorem FlightsOk.startAttempt (h : FlightsOk cfg s) (force : Bool) (now : String → Int)
    (adapter : AgentAdapter δ κ) : FlightsOk cfg (s.startAttempt cfg force now adapter) := by
  unfold Registry.startAttempt
  dsimp only
  split
  · exact h.congr rfl rfl rfl rfl
  · refine FlightsOk.discoverAdapter ?_ _ _
    exact h.congr rfl rfl rfl rfl

theorem FlightsOk.enter (h : FlightsOk cfg s) (now : String → Int) (loop : RefreshLoop) :
    FlightsOk cfg (s.enter cfg now loop) :=
  enter_induction cfg s (h.congr rfl rfl rfl rfl) fun _ force adapter ht =>
    ht.startAttempt force now adapter

/-! ### Flights that move on -/

/-- A flight that has not settled gets further. -/
theorem FlightsOk.setPhase {n : Nat} {flight : AdapterFlight δ κ} (h : FlightsOk cfg s)
    (hflight : s.flights[n]? = some flight) (hphase : ∀ answer, flight.phase ≠ .settled answer)
    (phase : FlightPhase δ κ) : FlightsOk cfg (s.setPhase n phase) := by
  have hget : ∀ {m : Nat} {f : AdapterFlight δ κ}, s.flights[m]? = some f →
      ∃ f', (s.setPhase n phase).flights[m]? = some f' ∧ f'.adapterId = f.adapterId ∧
        f'.timedOut = f.timedOut := by
    intro m f hf
    simp only [Registry.setPhase, List.getElem?_modify, hf]
    by_cases hm : n = m
    · exact ⟨{ f with phase := phase }, by simp [hm], rfl, rfl⟩
    · exact ⟨f, by simp [hm], rfl, rfl⟩
  refine h.of_keeps (fun m hm => ⟨?_, hm.2⟩) (fun id m hid => ?_) (fun attempt ha m hracing => ?_)
    (fun _ ha _ _ _ => .inl ha) rfl
  · obtain ⟨⟨f, answer, hf, -, hsettled⟩, -⟩ := hm
    refine List.getElem?_modify_ne _ _ fun he => ?_
    rw [← he, hflight, Option.some.injEq] at hf
    exact hphase answer (hf ▸ hsettled)
  · obtain ⟨f, hf, hadapter⟩ := h.current id m hid
    obtain ⟨f', hf', hadapter', -⟩ := hget hf
    exact ⟨f', hf', hadapter'.trans hadapter⟩
  · obtain ⟨hid, f, hf, htime⟩ := h.racing attempt ha m hracing
    obtain ⟨f', hf', -, htime'⟩ := hget hf
    exact ⟨hid, f', hf', htime'.trans htime⟩

/-- An adapter gives its flight up, which no attempt races for any more. -/
theorem FlightsOk.deleteFlight {adapterId : String} (h : FlightsOk cfg s)
    (hracing : ∀ attempt ∈ t.attempts.values, ∀ n, attempt.phase = .racing n →
      attempt ∈ s.attempts.values ∧ attempt.adapterId ≠ adapterId)
    (hflights : t.flights = s.flights)
    (hids : t.adapterFlights = (s.deleteFlight adapterId).adapterFlights)
    (hresumed : ∀ attempt ∈ t.attempts.values, ∀ n outcome, attempt.phase = .resumed n outcome →
      attempt ∈ s.attempts.values ∨ Origin t attempt.adapterId n outcome)
    (happlied : t.applied = s.applied) : FlightsOk cfg t := by
  have hsome : ∀ {id n}, t.adapterFlights id = some n →
      id ≠ adapterId ∧ s.adapterFlights id = some n := by
    intro id n hid
    rw [hids, Registry.deleteFlight] at hid
    by_cases he : id = adapterId
    · subst he
      simp at hid
    · exact ⟨he, by simpa [Function.update_of_ne he] using hid⟩
  refine h.of_keeps (fun n hn => ⟨by rw [hflights], fun id hid => hn.2 id (hsome hid).2⟩)
    (fun id n hid => ?_) (fun attempt ha n hphase => ?_) hresumed happlied
  · rw [hflights]
    exact h.current id n (hsome hid).2
  · obtain ⟨ha', hne⟩ := hracing attempt ha n hphase
    obtain ⟨hid, hflight⟩ := h.racing attempt ha' n hphase
    rw [hids, Registry.deleteFlight, hflights]
    exact ⟨by simpa [Function.update_of_ne hne] using hid, hflight⟩

theorem FlightsOk.dropFlight {n : Nat} {flight : AdapterFlight δ κ} (h : FlightsOk cfg s)
    (hflight : s.flights[n]? = some flight) (htime : flight.timedOut = true)
    (hid : s.adapterFlights flight.adapterId = some n) :
    FlightsOk cfg (s.deleteFlight flight.adapterId) := by
  refine h.deleteFlight (fun attempt ha m hphase => ⟨ha, fun he => ?_⟩) rfl rfl
    (fun _ ha _ _ _ => .inl ha) rfl
  -- an attempt that races has a flight that has not timed out
  obtain ⟨hm, f, hf, hf'⟩ := h.racing attempt ha m hphase
  rw [he, hid, Option.some.injEq] at hm
  subst hm
  rw [hflight, Option.some.injEq] at hf
  rw [← hf, htime] at hf'
  cases hf'

theorem FlightsOk.resume {adapterId : String} {attempt : Attempt δ κ} {n : Nat}
    {flight : AdapterFlight δ κ} {race : RaceEnd} (h : FlightsOk cfg s)
    (hattempt : s.attempts.get? adapterId = some attempt) (hphase : attempt.phase = .racing n)
    (hflight : s.flights[n]? = some flight) (ht : s.resume attempt n flight race = some t) :
    FlightsOk cfg t := by
  obtain ⟨hid, f, hf, htime⟩ := h.racing attempt (InsertionMap.mem_of_get? hattempt) n hphase
  rw [hflight, Option.some.injEq] at hf
  subst hf
  -- no other adapter has this flight
  have hown : ∀ id, s.adapterFlights id = some n → id = attempt.adapterId := fun id hid' => by
    obtain ⟨f, hf, hadapter⟩ := h.current id n hid'
    obtain ⟨f', hf', hadapter'⟩ := h.current _ n hid
    rw [hf, Option.some.injEq] at hf'
    rw [← hadapter, hf', hadapter']
  have hothers : ∀ {outcome : AdapterOutcome δ κ} {a : Attempt δ κ} {m : Nat},
      a ∈ (s.attempts.set { attempt with phase := .resumed (some n) outcome }).values →
      a.phase = .racing m → a ∈ s.attempts.values ∧ a.adapterId ≠ attempt.adapterId := by
    intro outcome a m ha hracing
    rcases InsertionMap.mem_set.mp ha with rfl | ⟨ha, hkey⟩
    · cases hracing
    · exact ⟨ha, hkey⟩
  unfold Registry.resume at ht
  split at ht
  · split at ht
    · next answer hsettled =>
      cases ht
      refine h.deleteFlight (fun a ha m hracing => hothers ha hracing) rfl rfl
        (fun a ha m outcome ho => ?_) rfl
      rcases InsertionMap.mem_set.mp ha with rfl | ⟨ha, -⟩
      · cases ho
        refine .inr fun agents hagents => ⟨n, flight, rfl, ⟨⟨flight, answer, hflight, htime, hsettled⟩, ?_⟩,
          hflight, ?_, ?_, rfl⟩
        · intro id hid'
          by_cases he : id = attempt.adapterId
          · subst he
            simp [setOutcome, Registry.deleteFlight] at hid'
          · simp only [setOutcome, Registry.deleteFlight, Function.update_of_ne he] at hid'
            exact he (hown id hid')
        · obtain ⟨f, hf, hadapter⟩ := h.current _ n hid
          rw [hflight, Option.some.injEq] at hf
          exact hf ▸ hadapter
        · cases answer with
          | none => cases hagents
          | some agents' => cases hagents; exact hsettled
      · exact .inl ha
    · cases ht
  · cases ht
    have hget : ∀ {m : Nat}, m ≠ n → (s.flights.modify n fun flight =>
        { flight with timedOut := true })[m]? = s.flights[m]? :=
      fun hm => List.getElem?_modify_ne _ _ hm.symm
    refine h.of_keeps (fun m hm => ⟨hget fun he => hm.2 _ (he ▸ hid), hm.2⟩) (fun id m hid' => ?_)
      (fun a ha m hracing => ?_) (fun a ha m outcome ho => ?_) rfl
    · obtain ⟨f, hf, hadapter⟩ := h.current id m hid'
      refine ⟨if n = m then { f with timedOut := true } else f, ?_, ?_⟩
      · simp only [setOutcome, List.getElem?_modify, hf]
        rfl
      · split <;> exact hadapter
    · obtain ⟨ha', hne⟩ := hothers ha hracing
      obtain ⟨hid', hflight'⟩ := h.racing a ha' m hracing
      refine ⟨hid', ?_⟩
      simp only [setOutcome]
      rwa [hget fun he => hne (hown _ (he ▸ hid'))]
    · rcases InsertionMap.mem_set.mp ha with rfl | ⟨ha, -⟩
      · cases ho
        exact .inr fun agents hagents => by cases hagents
      · exact .inl ha
  · split at ht
    · cases ht
      refine h.deleteFlight (fun a ha m hracing => hothers ha hracing) rfl rfl
        (fun a ha m outcome ho => ?_) rfl
      rcases InsertionMap.mem_set.mp ha with rfl | ⟨ha, -⟩
      · cases ho
        exact .inr fun agents hagents => by cases hagents
      · exact .inl ha
    · cases ht

/-! ### The end of an attempt -/

/-- What a success is after `normalizeOutcome`: it was one before, of the current generation of owned
    launches if the adapter can launch. -/
theorem success_of_normalizeOutcome {adapter : AgentAdapter δ κ} {outcome : AdapterOutcome δ κ}
    {discoveryCurrent : Bool} {agents : List (Agent δ κ)}
    (h : (s.normalizeOutcome adapter outcome discoveryCurrent).status = .success agents) :
    ∃ agents', outcome.status = .success agents' ∧ (∀ agent ∈ agents, agent ∈ agents') ∧
      (adapter.launchCapable = true →
        outcome.ownedLaunchGeneration = some s.ownedLaunchGeneration ∧
        ∀ agent ∈ agents, ∃ record ∈ s.recordsOf (s.providers adapter.id),
          record.agentId = agent.id) := by
  unfold normalizeOutcome at h
  split at h
  · next agents' hsuccess =>
    refine ⟨agents', hsuccess, ?_⟩
    split at h
    · cases h
    · next hgeneration =>
      split at h
      · cases h
      · split at h
        · next hlaunch =>
          cases h
          refine ⟨fun agent ha => (List.mem_filter.mp ha).1, fun _ => ⟨?_, fun agent ha => ?_⟩⟩
          · simpa [hlaunch] using hgeneration
          · simpa using (List.mem_filter.mp ha).2
        · next hlaunch =>
          rw [hsuccess] at h
          cases h
          exact ⟨fun _ ha => ha, fun hl => absurd hl hlaunch⟩
  · next hother => exact absurd h (hother agents)

section Steps

variable [DecidableEq δ] [DecidableEq κ] {s' : Registry δ κ} {move : RegistryMove δ κ}

theorem FlightsOk.conclude {adapterId time : String} {attempt : Attempt δ κ} {flight : Option Nat}
    {recordedAt : Int} {outcome : AdapterOutcome δ κ} {adapter : AgentAdapter δ κ}
    {discoveryCurrent : Bool} (h : FlightsOk cfg s)
    (hattempt : s.attempts.get? adapterId = some attempt)
    (hphase : attempt.phase = .resumed flight outcome)
    (hadapter : cfg.adapters.get? adapterId = some adapter) :
    FlightsOk cfg (s.conclude cfg adapterId attempt.probe flight
      (s.normalizeOutcome adapter outcome discoveryCurrent) recordedAt time) := by
  have hdeleted : FlightsOk cfg ({ s with attempts := s.attempts.delete adapterId } : Registry δ κ) :=
    h.of_keeps (.of_eq rfl rfl) h.current
      (fun a ha => h.racing a (InsertionMap.mem_delete.mp ha).1)
      (fun a ha _ _ _ => .inl (InsertionMap.mem_delete.mp ha).1) rfl
  unfold Registry.conclude
  dsimp only
  split
  · exact hdeleted.congr rfl rfl rfl rfl
  · split
    · exact hdeleted
    · next hopen =>
      unfold logApplied
      split
      · next n agents hagents =>
        have hkey : attempt.adapterId = adapterId := InsertionMap.key_of_get? hattempt
        obtain ⟨agents', hsuccess, -, hlaunch⟩ := success_of_normalizeOutcome hagents
        obtain ⟨m, f, hm, hlanded, hf, hown, -, hgeneration⟩ :=
          h.resumed attempt (InsertionMap.mem_of_get? hattempt) _ outcome hphase agents' hsuccess
        cases hm
        refine ⟨hdeleted.current, hdeleted.racing, hdeleted.resumed, fun entry he => ?_⟩
        rcases List.mem_append.mp he with he | he
        · exact hdeleted.applied entry he
        · obtain rfl := List.mem_singleton.mp he
          refine ⟨Bool.eq_false_iff.mpr hopen, hlanded, fun f' adapter' hf' hadapter' hcapable => ?_⟩
          -- the flight is one of this adapter
          rw [show s.flights[n]? = some f' from hf', Option.some.injEq] at hf
          subst hf
          rw [hown, hkey, hadapter, Option.some.injEq] at hadapter'
          subst hadapter'
          have hnow := (hlaunch hcapable).1
          rw [hgeneration, Option.some.injEq] at hnow
          exact hnow
      · exact hdeleted.congr rfl rfl rfl rfl

theorem FlightsOk.step (h : FlightsOk cfg s)
    (hidle : s.loop.refreshPromise = none → s.attempts.values = [])
    (hstep : s.step cfg move = some s') : FlightsOk cfg s' := by
  cases step_cases hstep with
  | ignored => exact h
  | refresh | refreshAfterOwnedLaunchChange | adapterChanged | runQueuedRefresh | runFollowup =>
    exact h.enter _ _
  | disconnected =>
    rw [disconnect_eq]
    refine FlightsOk.enter ?_ _ _
    exact h.congr rfl rfl rfl rfl
  | @discovered n answer flight adapter hflight hphase =>
    refine h.setPhase hflight (fun answer he => ?_) _
    rw [he] at hphase
    cases hphase
  | discoveredOwned hflight hphase =>
    exact h.setPhase hflight (fun answer he => by rw [he] at hphase; cases hphase) _
  | dropFlight hflight htime hid => exact h.dropFlight hflight htime hid
  | resume hattempt hphase hflight ht => exact h.resume hattempt hphase hflight ht
  | conclude hattempt hphase hadapter => exact h.conclude hattempt hphase hadapter
  | deactivateOwnedLaunch =>
    rw [deactivateOwnedLaunch_eq]
    exact h.congr rfl rfl rfl rfl
  | finishClose hclosed hnone =>
    have hattempts := hidle hnone
    refine h.of_keeps (fun n hn => ⟨rfl, nofun⟩) nofun (fun a ha => ?_) (fun a ha _ _ _ => .inl ha) rfl
    simp [hattempts] at ha
  | dropQueuedRefresh | abandonFollowup | endPass | activateOwnedLaunch | changeProvider
  | loadHistory | historyLoaded | historySettled | close => exact h.congr rfl rfl rfl rfl

/-! ### What the adapters answer -/

/-- An answer of an adapter has only agents that satisfy `P` for that adapter. -/
def AnswersWith (P : String → Agent δ κ → Prop) (s : Registry δ κ) : RegistryMove δ κ → Prop
  | .discovered n (some agents) | .discoveredOwned n (some agents) =>
    ∀ flight, s.flights[n]? = some flight → ∀ agent ∈ agents, P flight.adapterId agent
  | _ => True

/-- The flights have settled only with agents that satisfy `P`. -/
def AgentsOk (P : String → Agent δ κ → Prop) (s : Registry δ κ) : Prop :=
  ∀ (n : Nat) flight agents, s.flights[n]? = some flight → flight.phase = .settled (some agents) →
    ∀ agent ∈ agents, P flight.adapterId agent

variable {P : String → Agent δ κ → Prop}

omit [DecidableEq δ] [DecidableEq κ] in
/-- A new flight has not settled. -/
theorem AgentsOk.startAttempt (h : AgentsOk P s) (force : Bool) (now : String → Int)
    (adapter : AgentAdapter δ κ) : AgentsOk P (s.startAttempt cfg force now adapter) := by
  unfold Registry.startAttempt
  dsimp only
  split
  · exact h
  · unfold Registry.discoverAdapter
    split
    · split <;> exact h
    · intro n flight agents hflight hphase
      rcases List.mem_append.mp (List.mem_of_getElem? hflight) with hold | hnew
      · obtain ⟨m, hm⟩ := List.mem_iff_getElem?.mp hold
        exact h m flight agents hm hphase
      · obtain rfl := List.mem_singleton.mp hnew
        cases hphase

omit [DecidableEq δ] [DecidableEq κ] in
/-- A flight that settles has what its adapter answered. -/
theorem AgentsOk.setPhase {n : Nat} {phase : FlightPhase δ κ} (h : AgentsOk P s)
    (hphase : ∀ flight agents, s.flights[n]? = some flight → phase = .settled (some agents) →
      ∀ agent ∈ agents, P flight.adapterId agent) : AgentsOk P (s.setPhase n phase) := by
  intro m flight agents hflight hsettled
  simp only [Registry.setPhase, List.getElem?_modify] at hflight
  obtain ⟨f, hf, rfl⟩ := Option.map_eq_some_iff.mp hflight
  split at hsettled
  · next hm =>
    subst hm
    simpa using hphase f agents hf hsettled
  · next hm =>
    simpa [hm] using h m f agents hf hsettled

omit [DecidableEq δ] [DecidableEq κ] in
theorem AgentsOk.resume {attempt : Attempt δ κ} {n : Nat} {flight : AdapterFlight δ κ}
    {race : RaceEnd} (h : AgentsOk P s) (ht : s.resume attempt n flight race = some t) :
    AgentsOk P t := by
  unfold Registry.resume at ht
  split at ht
  · split at ht
    · cases ht; exact h
    · cases ht
  · cases ht
    intro m f agents hf hsettled
    simp only [setOutcome, List.getElem?_modify] at hf
    obtain ⟨f', hf', rfl⟩ := Option.map_eq_some_iff.mp hf
    split at hsettled
    · next hm => simpa [hm] using h m f' agents hf' hsettled
    · next hm => simpa [hm] using h m f' agents hf' hsettled
  · split at ht
    · cases ht; exact h
    · cases ht

omit [DecidableEq δ] [DecidableEq κ] in
theorem eq_of_provenAgents {adapterId : String} {provider : Option String}
    {records : List OwnedLaunch} {owned agents : List (Agent δ κ)}
    (h : provenAgents adapterId provider records owned = some agents) : agents = owned := by
  unfold provenAgents at h
  grind

omit [DecidableEq δ] [DecidableEq κ] in
/-- A discovery that settles the flight of an adapter, without the agents of its own launches, has
    the answer's agents. -/
theorem discoverPhase_agents {adapter : AgentAdapter δ κ} {answer : AdapterAnswer δ κ}
    {agents : List (Agent δ κ)} (h : s.discoverPhase adapter answer = .settled (some agents)) :
    agents = [] ∨ answer = some agents := by
  unfold discoverPhase at h
  grind

theorem AgentsOk.step (h : AgentsOk P s) (hmove : AnswersWith P s move)
    (hstep : s.step cfg move = some s') : AgentsOk P s' := by
  have henter : ∀ {t : Registry δ κ} {now : String → Int} {loop : RefreshLoop}, AgentsOk P t →
      AgentsOk P (t.enter cfg now loop) := fun ht =>
    enter_induction cfg _ ht fun _ force adapter hu => hu.startAttempt force _ adapter
  cases step_cases hstep with
  | ignored => exact h
  | refresh | refreshAfterOwnedLaunchChange | adapterChanged | runQueuedRefresh | runFollowup =>
    exact henter h
  | disconnected =>
    rw [disconnect_eq]
    exact henter h
  | @discovered n answer flight adapter hflight =>
    refine h.setPhase fun f agents hf hphase => ?_
    rcases discoverPhase_agents hphase with rfl | rfl
    · exact fun _ ha => absurd ha List.not_mem_nil
    · exact hmove f hf
  | @discoveredOwned n answer flight provider records hflight =>
    refine h.setPhase fun f agents hf hphase => ?_
    rw [FlightPhase.settled.injEq, Option.bind_eq_some_iff] at hphase
    obtain ⟨owned, rfl, hproven⟩ := hphase
    rw [eq_of_provenAgents hproven]
    exact hmove f hf
  | resume _ _ _ ht => exact h.resume ht
  | conclude =>
    rw [conclude_eq]
    exact h
  | deactivateOwnedLaunch =>
    rw [deactivateOwnedLaunch_eq]
    exact h
  | dropFlight | dropQueuedRefresh | abandonFollowup | endPass | activateOwnedLaunch
  | changeProvider | loadHistory | historyLoaded | historySettled | close | finishClose => exact h

theorem flightsOk (h : (system cfg).Reachable s) : FlightsOk cfg s := by
  have hboth : (system cfg).Reachable s ∧ FlightsOk cfg s := by
    refine h.invariant (P := fun s => (system cfg).Reachable s ∧ FlightsOk cfg s) ?_ ?_
    · rintro _ rfl
      exact ⟨.ofInit rfl, flightsOk_empty⟩
    · rintro s move s' ⟨hreach, hok⟩ hstep
      exact ⟨hreach.next hstep, hok.step (attempts_eq_nil hreach) hstep⟩
  exact hboth.2

end Steps

end Registry

end AgentHost
