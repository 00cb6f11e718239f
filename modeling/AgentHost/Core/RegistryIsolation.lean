import AgentHost.Core.RegistryFlights

namespace AgentHost

/-!
# What one adapter can do to the agents of the others

* `Registry.SourcesFixed` — the adapters answer with agents under their own source, and the ids of
  different sources are different.
* `Registry.Told` — where an outcome that is applied comes from: a disconnect, or the end of an
  attempt.
* `adapter_isolation` — an outcome leaves the agents of other sources as they are, and its own unless
  it has agents or the transport is lost; flights that timed out, were superseded or settled after
  `close` are never applied.
-/

namespace Registry

variable {δ κ : Type} {cfg : RegistryConfig δ κ} {s s' : Registry δ κ} {home : String → String}

/-- A move with agents of the adapter that answers, whose ids are those of its source. -/
def SourcesFixed (home : String → String) (s : Registry δ κ) (move : RegistryMove δ κ) : Prop :=
  AnswersWith (fun id agent => agent.source = id ∧ home agent.id = id) s move ∧
    match move with
    | .activateOwnedLaunch _ (some cached) _ => home cached.id = cached.source
    | _ => True

/-- The id of every stored agent is one of its source. -/
def HomeOk (home : String → String) (s : Registry δ κ) : Prop :=
  ∀ agent ∈ s.store.agents.values, home agent.id = agent.source

/-- The transport of an adapter is lost: it says so, or its discovery used an old one. -/
def TransportLost (cfg : RegistryConfig δ κ) (adapterId : String) : RegistryMove δ κ → Prop
  | .adapterChanged id disconnected _ _ _ => id = adapterId ∧ disconnected = true
  | .conclude id discoveryCurrent _ _ => id = adapterId ∧ discoveryCurrent = false ∧
      ∃ adapter, cfg.adapters.get? id = some adapter ∧ adapter.checksDiscovery = true
  | _ => False

/-- The agents of an outcome are those of a flight of its adapter, which is remembered as applied. -/
def FlightApplied (s s' : Registry δ κ) (adapterId : String) (agents : List (Agent δ κ)) : Prop :=
  ∃ n flight answer, s'.applied = s.applied ++ [⟨n, s.ownedLaunchGeneration, s.closed⟩] ∧
    s.flights[n]? = some flight ∧ flight.adapterId = adapterId ∧
    flight.phase = .settled (some answer) ∧ ∀ agent ∈ agents, agent ∈ answer

/-- Where the outcome comes from that a step from `s` to `s'` applies. -/
def Told (cfg : RegistryConfig δ κ) (s s' : Registry δ κ) (move : RegistryMove δ κ)
    (adapterId : String) : AgentStore.Report δ κ → Prop
  | .failed => True
  | .stale => TransportLost cfg adapterId move
  | .agents agents => FlightApplied s s' adapterId agents

theorem agentReport_eq_agents {outcome : AdapterOutcome δ κ} {agents : List (Agent δ κ)}
    (h : agentReport outcome = .agents agents) : outcome.status = .success agents := by
  unfold agentReport at h
  split at h
  · next hstatus => rw [hstatus]; cases h; rfl
  · split at h <;> cases h

/-- An outcome that was not marked stale is so only after a discovery over an old transport. -/
theorem discoveryCurrent_of_markStale {adapter : AgentAdapter δ κ} {outcome : AdapterOutcome δ κ}
    {discoveryCurrent : Bool} (hunmarked : outcome.markStale = false)
    (h : agentReport (s.normalizeOutcome adapter outcome discoveryCurrent) = .stale) :
    discoveryCurrent = false ∧ adapter.checksDiscovery = true := by
  unfold normalizeOutcome at h
  split at h
  · split at h
    · simp [agentReport, hunmarked] at h
    · split at h
      · next hcurrent => simpa [and_comm] using hcurrent
      · split at h
        · simp [agentReport] at h
        · next hstatus _ _ _ => simp [agentReport, hstatus] at h
  · next hstatus =>
    unfold agentReport at h
    split at h
    · cases h
    · rw [hunmarked] at h
      cases h

section Steps

variable [DecidableEq δ] [DecidableEq κ] {move : RegistryMove δ κ}

/-- The end of an attempt with agents remembers their flight. -/
theorem flightApplied_conclude {adapterId time : String} {attempt : Attempt δ κ}
    {flight : Option Nat} {recordedAt : Int} {outcome : AdapterOutcome δ κ}
    {adapter : AgentAdapter δ κ} {discoveryCurrent : Bool} {agents : List (Agent δ κ)}
    (hflights : FlightsOk cfg s) (hattempt : s.attempts.get? adapterId = some attempt)
    (hphase : attempt.phase = .resumed flight outcome) (hopen : s.closed = false)
    (hagents : (s.normalizeOutcome adapter outcome discoveryCurrent).status = .success agents) :
    FlightApplied s (s.conclude cfg adapterId attempt.probe flight
      (s.normalizeOutcome adapter outcome discoveryCurrent) recordedAt time) adapterId agents := by
  obtain ⟨answer, hsuccess, hsub, -⟩ := success_of_normalizeOutcome hagents
  obtain ⟨n, f, rfl, -, hf, hown, hsettled, -⟩ :=
    hflights.resumed attempt (InsertionMap.mem_of_get? hattempt) _ outcome hphase answer hsuccess
  refine ⟨n, f, answer, ?_, hf, hown.trans (InsertionMap.key_of_get? hattempt), hsettled, hsub⟩
  simp only [Registry.conclude, hagents, hopen, logApplied]
  rfl

/-- The moves that apply an outcome. -/
theorem told_of_storeMove {adapterId time : String} {report : AgentStore.Report δ κ}
    (hflights : FlightsOk cfg s) (hattempts : AttemptsOk cfg s) (hstep : s.step cfg move = some s')
    (hmove : s.storeMove cfg move = some (.outcome adapterId report time)) :
    Told cfg s s' move adapterId report := by
  unfold storeMove at hmove
  split at hmove
  · split at hmove
    · cases hmove
    · cases hmove
      exact ⟨rfl, rfl⟩
  · split at hmove
    · next id probe flight outcome adapter hattempt hadapter =>
      unfold concludeMove at hmove
      split at hmove
      · cases hmove
      · split at hmove
        · cases hmove
        · next hopen =>
          cases hmove
          rw [step, hattempt, hadapter, Option.some.injEq] at hstep
          subst hstep
          cases hreport : agentReport (s.normalizeOutcome adapter outcome _) with
          | failed => exact trivial
          | stale =>
            have hunmarked :=
              hattempts.unmarked _ (InsertionMap.mem_of_get? hattempt) _ outcome rfl
            obtain ⟨hcurrent, hchecks⟩ := discoveryCurrent_of_markStale hunmarked hreport
            exact ⟨rfl, hcurrent, adapter, hadapter, hchecks⟩
          | agents agents =>
            exact flightApplied_conclude hflights hattempt rfl (Bool.eq_false_iff.mpr hopen)
              (agentReport_eq_agents hreport)
    · cases hmove
  · cases hmove
  · obtain ⟨_, _, he⟩ := Option.map_eq_some_iff.mp hmove
    cases he
  · cases hmove
  · cases hmove

omit [DecidableEq δ] [DecidableEq κ] in
/-- What is reported of an adapter has its source and an id of that source. -/
theorem home_of_told {adapterId : String} {agents : List (Agent δ κ)}
    (hagents : AgentsOk (fun id agent => agent.source = id ∧ home agent.id = id) s)
    (htold : Told cfg s s' move adapterId (.agents agents)) :
    ∀ agent ∈ agents, agent.source = adapterId ∧ home agent.id = adapterId := by
  obtain ⟨n, flight, answer, -, hflight, hown, hsettled, hsub⟩ := htold
  intro agent hagent
  have hanswer := hagents n flight answer hflight hsettled agent (hsub agent hagent)
  rwa [hown] at hanswer

theorem HomeOk.step (h : HomeOk home s) (hflights : FlightsOk cfg s) (hattempts : AttemptsOk cfg s)
    (hagents : AgentsOk (fun id agent => agent.source = id ∧ home agent.id = id) s)
    (hmove : SourcesFixed home s move) (hstep : s.step cfg move = some s') : HomeOk home s' := by
  have hstore := store_step hstep
  intro agent hagent
  rw [hstore] at hagent
  cases hm : s.storeMove cfg move with
  | none =>
    rw [hm] at hagent
    exact h agent hagent
  | some m =>
    rw [hm] at hagent
    cases m with
    | outcome adapterId report time =>
      have htold := told_of_storeMove hflights hattempts hstep hm
      obtain ⟨previous, hid, hsource, hmem⟩ := AgentStore.mem_applyOutcome cfg s.store hagent
      rw [← hid, ← hsource]
      rcases hmem with ⟨hmem, -⟩ | ⟨agents, rfl, hmem⟩
      · exact h previous hmem
      · obtain ⟨hs, hh⟩ := home_of_told hagents htold previous hmem
        exact hh.trans hs.symm
    | evict agentId time =>
      rw [Option.elim, AgentStore.move, AgentStore.agents_evictCachedOwnedAgent] at hagent
      exact h agent (InsertionMap.mem_delete.mp hagent).1
    | restore record adapterId cached time =>
      rcases AgentStore.mem_restoreCachedOwnedAgent cfg s.store hagent with
        hold | ⟨-, -, hid, hsource⟩
      · exact h agent hold
      · rw [hid, hsource]
        unfold storeMove at hm
        split at hm
        · split at hm <;> cases hm
        · split at hm
          · unfold concludeMove at hm
            split at hm
            · cases hm
            · split at hm <;> cases hm
          · cases hm
        · cases hm
          exact hmove.2
        · obtain ⟨_, _, he⟩ := Option.map_eq_some_iff.mp hm
          cases he
        · cases hm
        · cases hm
    | history results time => exact h agent hagent

end Steps

end Registry

open Registry

variable {δ κ : Type} [DecidableEq δ] [DecidableEq κ]

/-- **Adapter isolation.** Where the adapters answer with agents under their own source and the ids of
    different sources are different, every outcome that a reachable registry applies to an adapter
    leaves the agents of the other sources as they are stored; a failed one leaves all of them, and a
    lost transport passes those of the adapter through `markStale`; agents are stored only from a
    flight of the adapter, and no such flight had timed out or ever does, was superseded, or was
    applied after `close`. -/
theorem adapter_isolation (cfg : RegistryConfig δ κ) (home : String → String) (s : Registry δ κ)
    (h : (system cfg).ReachableWhile (SourcesFixed home) s) :
    (∀ move s' adapterId report time, s.step cfg move = some s' →
      s.storeMove cfg move = some (.outcome adapterId report time) →
      (∀ agent, agent.source ≠ adapterId →
        (agent ∈ s'.store.agents.values ↔ agent ∈ s.store.agents.values)) ∧
      Told cfg s s' move adapterId report ∧
      (report = .failed → s'.store.agents = s.store.agents) ∧
      (report = .stale → s'.store.agents.values.map Agent.toAgentFields =
        s.store.agents.values.map fun agent =>
          match (cfg.adapters.get? adapterId).bind AgentAdapter.markStale with
          | some marking =>
            if agent.source = adapterId then (marking.apply agent).toAgentFields
            else agent.toAgentFields
          | none => agent.toAgentFields)) ∧
    ∀ entry ∈ s.applied, entry.closed = false ∧
      ∃ flight, s.flights[entry.flight]? = some flight ∧ flight.timedOut = false ∧
        ∀ adapter, cfg.adapters.get? flight.adapterId = some adapter →
          adapter.launchCapable = true →
          flight.ownedLaunchGeneration = entry.ownedLaunchGeneration := by
  have hall : (system cfg).Reachable s ∧ HomeOk home s ∧
      AgentsOk (fun id agent => agent.source = id ∧ home agent.id = id) s := by
    refine h.invariant (P := fun s => (system cfg).Reachable s ∧ HomeOk home s ∧
      AgentsOk (fun id agent => agent.source = id ∧ home agent.id = id) s) ?_ ?_
    · rintro _ rfl
      exact ⟨.ofInit rfl, fun _ ha => absurd ha List.not_mem_nil, nofun⟩
    · rintro s move s' ⟨hreach, hhome, hagents⟩ hmove hstep
      exact ⟨hreach.next hstep,
        hhome.step (flightsOk hreach) (attemptsOk hreach) hagents hmove hstep,
        hagents.step hmove.1 hstep⟩
  obtain ⟨hreach, hhome, hagents⟩ := hall
  refine ⟨fun move s' adapterId report time hstep hmove => ?_, fun entry hentry => ?_⟩
  · have htold := told_of_storeMove (flightsOk hreach) (attemptsOk hreach) hstep hmove
    have hstore := store_step hstep
    rw [hmove] at hstore
    rw [hstore]
    refine ⟨fun agent hsource => ?_, htold, ?_, ?_⟩
    · refine AgentStore.mem_applyOutcome_iff cfg s.store hsource ?_
      rintro agents rfl reported hreported
      obtain ⟨hs, hh⟩ := home_of_told hagents htold reported hreported
      -- an id of this source is none of another
      refine ⟨hs, fun hagent he => hsource ?_⟩
      rw [← hhome agent hagent, ← he, hh]
    · rintro rfl
      exact AgentStore.agents_applyOutcome_failed cfg s.store
    · rintro rfl
      exact AgentStore.fields_applyOutcome_stale cfg s.store
  · obtain ⟨hopen, ⟨⟨flight, answer, hflight, htime, -⟩, -⟩, hgeneration⟩ :=
      (flightsOk hreach).applied entry hentry
    exact ⟨hopen, flight, hflight, htime, fun adapter ha hc => hgeneration flight adapter hflight ha hc⟩

/-- A registry with two adapters. -/
def twoAdapters : RegistryConfig Unit Unit where
  adapters := .ofValues _ [{ id := "tmux" }, { id := "process" }]
  dateParse := fun _ => none
  localeCompare := compare
  normalizeRepositoryContext := id
  contextState := fun _ => "unsupported"

/-- An agent of the first. -/
def tmuxAgent : Agent Unit Unit where
  id := "tmux:1"
  provider := "codex"
  source := "tmux"
  details := ()
  repositoryContext := ()

/-- A pass in which one adapter has found an agent and the other has failed, but for the end. -/
theorem adapter_isolation_failure : ∃ s s', (system twoAdapters).run Registry.empty
    [.refresh true fun _ => 0, .discovered 0 (some [tmuxAgent]), .resume "tmux" .flight,
      .conclude "tmux" true 0 "", .discovered 1 none, .resume "process" .flight] = some s ∧
    s.step twoAdapters (.conclude "process" true 0 "") = some s' ∧
    s.store.agents.values.map (fun agent => agent.id) = ["tmux:1"] ∧
    s'.store.agents = s.store.agents := by
  have h0 : (system twoAdapters).ReachableWhile (SourcesFixed fun _ => "tmux") Registry.empty :=
    .init rfl
  have h1 := h0.step (e := RegistryMove.refresh true fun _ => 0) ⟨trivial, trivial⟩ rfl
  have h2 := h1.step (e := RegistryMove.discovered 0 (some [tmuxAgent]))
    ⟨fun flight hf agent ha => by cases List.mem_singleton.mp ha; cases hf; exact ⟨rfl, rfl⟩,
      trivial⟩ rfl
  have h3 := h2.step (e := RegistryMove.resume "tmux" .flight) ⟨trivial, trivial⟩ rfl
  have h4 := h3.step (e := RegistryMove.conclude "tmux" true 0 "") ⟨trivial, trivial⟩ rfl
  have h5 := h4.step (e := RegistryMove.discovered 1 none) ⟨trivial, trivial⟩ rfl
  have h6 := h5.step (e := RegistryMove.resume "process" .flight) ⟨trivial, trivial⟩ rfl
  exact ⟨_, _, rfl, rfl, rfl,
    ((adapter_isolation twoAdapters _ _ h6).1 (.conclude "process" true 0 "") _ "process" .failed ""
      rfl rfl).2.2.1 rfl⟩

end AgentHost
