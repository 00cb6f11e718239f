import AgentHost.Core.RegistryFlights

namespace AgentHost

/-!
# Whose agents the registry lists

* `Registry.OwnersFixed` — the adapters answer with agents of their own, name one provider, and an
  owned launch keeps its provider and agent.
* `Registry.Owned` — the agent of a launch that is activated as owned for the provider of its
  adapter.
* `owned_agents_only` — every agent of a launch-capable adapter that an open registry has stored is
  such an agent.
-/

namespace Registry

variable {δ κ : Type} {cfg : RegistryConfig δ κ} {s s' : Registry δ κ}

/-- A move that keeps adapters to their source and provider and owned launches to their agent. -/
def OwnersFixed (provider : String → String) (s : Registry δ κ) (move : RegistryMove δ κ) : Prop :=
  AnswersWith (fun id agent => agent.source = id) s move ∧
    match move with
    | .changeProvider id (some name) => name = provider id
    | .activateOwnedLaunch record _ _ => ∀ old ∈ s.ownedLaunches.values, old.id = record.id →
        old.provider = record.provider ∧ old.agentId = record.agentId
    | _ => True

/-- The id and the source of an agent are those of an activated owned launch. -/
def Owned (provider : String → String) (s : Registry δ κ) (id source : String) : Prop :=
  ∃ record ∈ s.ownedLaunches.values, record.provider = provider source ∧ record.agentId = id

/-- The agents of launch-capable adapters are owned. -/
def OwnedOnly (cfg : RegistryConfig δ κ) (provider : String → String) (s : Registry δ κ) : Prop :=
  ∀ adapter ∈ cfg.adapters.values, adapter.launchCapable = true →
    ∀ agent ∈ s.store.agents.values, agent.source = adapter.id →
      Owned provider s agent.id agent.source

/-- The adapters name no other provider. -/
def ProvidersOk (provider : String → String) (s : Registry δ κ) : Prop :=
  ∀ id name, s.providers id = some name → name = provider id

variable {provider : String → String}

theorem mem_recordsOf {name : Option String} {record : OwnedLaunch} :
    record ∈ s.recordsOf name ↔ record ∈ s.ownedLaunches.values ∧ some record.provider = name := by
  simp [recordsOf]

/-- The adapter of a provider. -/
theorem launchAdapter_eq {name id : String} (hproviders : ProvidersOk provider s)
    (h : s.launchAdapter cfg name = some id) : name = provider id := by
  obtain ⟨adapter, hadapter, rfl⟩ := Option.map_eq_some_iff.mp h
  have hfound := List.find?_some hadapter
  simp only [Bool.and_eq_true, beq_iff_eq] at hfound
  exact hproviders _ _ hfound.2

section Steps

variable [DecidableEq δ] [DecidableEq κ] {move : RegistryMove δ κ}

theorem ProvidersOk.step (h : ProvidersOk provider s) (hmove : OwnersFixed provider s move)
    (hstep : s.step cfg move = some s') : ProvidersOk provider s' := by
  cases step_cases hstep with
  | ignored => exact h
  | refresh | refreshAfterOwnedLaunchChange | adapterChanged | runQueuedRefresh | runFollowup =>
    unfold ProvidersOk
    rw [enter_providers]
    exact h
  | disconnected =>
    unfold ProvidersOk
    rw [enter_providers, disconnect_eq]
    exact h
  | resume _ _ _ ht =>
    rw [resume_eq s ht]
    exact h
  | conclude =>
    rw [conclude_eq]
    exact h
  | deactivateOwnedLaunch =>
    rw [deactivateOwnedLaunch_eq]
    exact h
  | @changeProvider id name =>
    intro id' name' hname
    dsimp only at hname
    by_cases he : id' = id
    · subst he
      rw [Function.update_self] at hname
      subst hname
      exact hmove.2
    · rw [Function.update_of_ne he] at hname
      exact h id' name' hname
  | discovered | discoveredOwned | dropFlight | dropQueuedRefresh | abandonFollowup | endPass
  | activateOwnedLaunch | loadHistory | historyLoaded | historySettled | close | finishClose =>
    exact h

/-- An outcome of one adapter. -/
theorem OwnedOnly.applyOutcome {t : Registry δ κ} {adapterId time : String}
    {report : AgentStore.Report δ κ} (h : OwnedOnly cfg provider s)
    (hstore : t.store = s.store.applyOutcome cfg adapterId report time)
    (howned : t.ownedLaunches = s.ownedLaunches)
    (hreport : ∀ agents, report = .agents agents → ∀ agent ∈ agents, agent.source = adapterId ∧
      ∀ adapter ∈ cfg.adapters.values, adapter.launchCapable = true → adapter.id = adapterId →
        Owned provider s agent.id agent.source) : OwnedOnly cfg provider t := by
  intro adapter hadapter hcapable agent hagent hsource
  rw [hstore] at hagent
  obtain ⟨previous, hid, hprevious, hmem⟩ := AgentStore.mem_applyOutcome cfg s.store hagent
  unfold Owned
  rw [howned, ← hid, ← hprevious]
  rw [← hprevious] at hsource
  rcases hmem with ⟨hmem, -⟩ | ⟨agents, rfl, hmem⟩
  · exact h adapter hadapter hcapable previous hmem hsource
  · obtain ⟨hown, hreported⟩ := hreport agents rfl previous hmem
    exact hreported adapter hadapter hcapable (hsource.symm.trans hown)

omit [DecidableEq δ] [DecidableEq κ] in
/-- What leaves the agents and the owned launches alone. -/
theorem OwnedOnly.congr {t : Registry δ κ} (h : OwnedOnly cfg provider s)
    (hstore : t.store.agents = s.store.agents) (howned : t.ownedLaunches = s.ownedLaunches) :
    OwnedOnly cfg provider t := by
  unfold OwnedOnly Owned
  rw [hstore, howned]
  exact h

theorem OwnedOnly.conclude {adapterId time : String} {attempt : Attempt δ κ} {flight : Option Nat}
    {recordedAt : Int} {outcome : AdapterOutcome δ κ} {adapter : AgentAdapter δ κ}
    {discoveryCurrent : Bool} (h : OwnedOnly cfg provider s) (hflights : FlightsOk cfg s)
    (hagents : AgentsOk (fun id agent => agent.source = id) s) (hproviders : ProvidersOk provider s)
    (hattempt : s.attempts.get? adapterId = some attempt)
    (hphase : attempt.phase = .resumed flight outcome)
    (hadapter : cfg.adapters.get? adapterId = some adapter) :
    OwnedOnly cfg provider (s.conclude cfg adapterId attempt.probe flight
      (s.normalizeOutcome adapter outcome discoveryCurrent) recordedAt time) := by
  unfold Registry.conclude
  dsimp only
  split
  · exact h.congr rfl rfl
  · split
    · exact h.congr rfl rfl
    · rw [logApplied_eq]
      refine h.applyOutcome rfl rfl fun agents hreport agent hagent => ?_
      have hsuccess : (s.normalizeOutcome adapter outcome discoveryCurrent).status =
          .success agents := by
        unfold agentReport at hreport
        split at hreport
        · next hstatus => rw [hstatus]; cases hreport; rfl
        · split at hreport <;> cases hreport
      obtain ⟨agents', hsuccess', hsub, hlaunch⟩ := success_of_normalizeOutcome hsuccess
      obtain ⟨m, f, -, -, hf, hown, hsettled, -⟩ :=
        hflights.resumed attempt (InsertionMap.mem_of_get? hattempt) _ outcome hphase agents' hsuccess'
      have hsource : agent.source = adapterId := by
        rw [hagents m f agents' hf hsettled agent (hsub agent hagent), hown]
        exact InsertionMap.key_of_get? hattempt
      refine ⟨hsource, fun adapter' hadapter' hcapable hid => ?_⟩
      have hsame : adapter' = adapter :=
        cfg.adapters.eq_of_key_eq hadapter' (InsertionMap.mem_of_get? hadapter)
          (hid.trans (InsertionMap.key_of_get? hadapter).symm)
      subst hsame
      obtain ⟨record, hrecord, hid'⟩ := (hlaunch hcapable).2 agent hagent
      obtain ⟨hmem, hprovider⟩ := mem_recordsOf.mp hrecord
      refine ⟨record, hmem, ?_, hid'⟩
      rw [hsource, ← hid]
      exact hproviders _ _ hprovider.symm

omit [DecidableEq κ] in
theorem OwnedOnly.activate {record : OwnedLaunch} {cached : Option (Agent δ κ)} {time : String}
    (h : OwnedOnly cfg provider s) (hproviders : ProvidersOk provider s)
    (hfixed : ∀ old ∈ s.ownedLaunches.values, old.id = record.id →
      old.provider = record.provider ∧ old.agentId = record.agentId) :
    OwnedOnly cfg provider (s.activateOwnedLaunch cfg record cached time) := by
  -- the record may replace one of the same launch
  have hkeep : ∀ {id source}, Owned provider s id source →
      Owned provider (s.activateOwnedLaunch cfg record cached time) id source := by
    rintro id source ⟨old, hold, hprovider, hid⟩
    by_cases he : old.id = record.id
    · obtain ⟨hp, ha⟩ := hfixed old hold he
      exact ⟨record, InsertionMap.mem_set_self _ _, hp ▸ hprovider, ha ▸ hid⟩
    · exact ⟨old, InsertionMap.mem_set.mpr (.inr ⟨hold, he⟩), hprovider, hid⟩
  intro adapter hadapter hcapable agent hagent hsource
  have hagent' : agent ∈ s.store.agents.values ∨ (agent.id = record.agentId ∧
      some agent.source = s.launchAdapter cfg record.provider) := by
    unfold Registry.activateOwnedLaunch at hagent
    cases cached with
    | none => exact .inl hagent
    | some cached =>
      exact (AgentStore.mem_restoreCachedOwnedAgent cfg s.store hagent).imp_right
        fun hrestored => ⟨hrestored.1, hrestored.2.1⟩
  rcases hagent' with hagent' | ⟨hid, hadapter'⟩
  · exact hkeep (h adapter hadapter hcapable agent hagent' hsource)
  · exact ⟨record, InsertionMap.mem_set_self _ _, launchAdapter_eq hproviders hadapter'.symm,
      hid.symm⟩

omit [DecidableEq κ] in
theorem OwnedOnly.deactivate {id time : String} (h : OwnedOnly cfg provider s) :
    OwnedOnly cfg provider (s.deactivateOwnedLaunch cfg id time) := by
  unfold Registry.deactivateOwnedLaunch
  split
  · exact h
  · next record hrecord =>
    intro adapter hadapter hcapable agent hagent hsource
    rw [AgentStore.agents_evictCachedOwnedAgent] at hagent
    obtain ⟨hmem, hne⟩ := InsertionMap.mem_delete.mp hagent
    obtain ⟨owner, howner, hprovider, hid⟩ := h adapter hadapter hcapable agent hmem hsource
    refine ⟨owner, InsertionMap.mem_delete.mpr ⟨howner, fun he => hne ?_⟩, hprovider, hid⟩
    -- the launch that goes is not the one of this agent, which stays
    have hsame := s.ownedLaunches.eq_of_key_eq howner (InsertionMap.mem_of_get? hrecord)
      (he.trans (InsertionMap.key_of_get? hrecord).symm)
    rw [← hid, hsame]

theorem OwnedOnly.step (h : OwnedOnly cfg provider s) (hflights : FlightsOk cfg s)
    (hagents : AgentsOk (fun id agent => agent.source = id) s) (hproviders : ProvidersOk provider s)
    (hmove : OwnersFixed provider s move) (hstep : s.step cfg move = some s')
    (hopen : s'.closed = false) : OwnedOnly cfg provider s' := by
  cases step_cases hstep with
  | ignored => exact h
  | refresh | refreshAfterOwnedLaunchChange | adapterChanged | runQueuedRefresh | runFollowup =>
    exact h.congr (by rw [enter_store]) enter_ownedLaunches
  | disconnected =>
    refine OwnedOnly.congr (s := s.disconnect cfg _ _ _) ?_ (by rw [enter_store]) enter_ownedLaunches
    refine h.applyOutcome (disconnect_store cfg s _ _ _) ?_ fun agents he => by cases he
    rw [disconnect_eq]
  | resume _ _ _ ht =>
    rw [resume_eq s ht]
    exact h.congr rfl rfl
  | conclude hattempt hphase hadapter =>
    exact h.conclude hflights hagents hproviders hattempt hphase hadapter
  | activateOwnedLaunch => exact h.activate hproviders hmove.2
  | deactivateOwnedLaunch => exact h.deactivate
  | finishClose hclosed => exact absurd hclosed (Bool.eq_false_iff.mp hopen)
  | discovered | discoveredOwned | dropFlight | dropQueuedRefresh | abandonFollowup | endPass
  | changeProvider | loadHistory | historyLoaded | historySettled | close => exact h.congr rfl rfl

end Steps

end Registry

open Registry

variable {δ κ : Type} [DecidableEq δ] [DecidableEq κ]

/-- **Owned agents only.** Whatever the order of refreshes, flights, failures, disconnects and changes
    of the owned launches, where adapters answer with agents of their own and neither they nor the
    launches change hands: an agent of a launch-capable adapter that an open registry has stored is
    that of a launch which is activated as owned for the adapter's provider. -/
theorem owned_agents_only (cfg : RegistryConfig δ κ) (provider : String → String)
    (s : Registry δ κ) (h : (system cfg).ReachableWhile (OwnersFixed provider) s)
    (hopen : s.closed = false) :
    ∀ adapter ∈ cfg.adapters.values, adapter.launchCapable = true →
      ∀ agent ∈ s.store.agents.values, agent.source = adapter.id →
        ∃ record ∈ s.ownedLaunches.values,
          record.provider = provider adapter.id ∧ record.agentId = agent.id := by
  have hall : (system cfg).Reachable s ∧ AgentsOk (fun id agent => agent.source = id) s ∧
      ProvidersOk provider s ∧ (s.closed = false → OwnedOnly cfg provider s) := by
    refine h.invariant (P := fun s => (system cfg).Reachable s ∧
      AgentsOk (fun id agent => agent.source = id) s ∧ ProvidersOk provider s ∧
      (s.closed = false → OwnedOnly cfg provider s)) ?_ ?_
    · rintro _ rfl
      exact ⟨.ofInit rfl, nofun, nofun, fun _ _ _ _ _ ha => absurd ha List.not_mem_nil⟩
    · rintro s move s' ⟨hreach, hagents, hproviders, howned⟩ hmove hstep
      refine ⟨hreach.next hstep, hagents.step hmove.1 hstep, hproviders.step hmove hstep,
        fun hopen' => ?_⟩
      have hopen := (loop_step hstep hopen').1
      exact (howned hopen).step (flightsOk hreach) hagents hproviders hmove hstep hopen'
  intro adapter hadapter hcapable agent hagent hsource
  obtain ⟨record, hrecord, hprovider, hid⟩ :=
    hall.2.2.2 hopen adapter hadapter hcapable agent hagent hsource
  exact ⟨record, hrecord, hsource ▸ hprovider, hid⟩

/-- A registry whose adapter can launch. -/
def cursorConfig : RegistryConfig Unit Unit where
  adapters := .ofValues _ [{ id := "cursor-sdk", launchCapable := true, discoversOwned := true }]
  dateParse := fun _ => none
  localeCompare := compare
  normalizeRepositoryContext := id
  contextState := fun _ => "unsupported"

/-- An agent of that adapter. -/
def cursorAgent : Agent Unit Unit where
  id := "cursor-sdk:1"
  provider := "cursor"
  source := "cursor-sdk"
  details := ()
  repositoryContext := ()

theorem cursorAgent_id_ne : "cursor-sdk:1" ≠ "" := by decide

/-- A pass that finds the agent of an owned launch. -/
def ownedPassRun : List (RegistryMove Unit Unit) :=
  [.changeProvider "cursor-sdk" (some "cursor"),
    .activateOwnedLaunch ⟨"launch", "cursor", "cursor-sdk:1", cursorAgent_id_ne⟩ none "",
    .refresh true fun _ => 0, .discovered 0 (some []), .discoveredOwned 0 (some [cursorAgent]),
    .resume "cursor-sdk" .flight, .conclude "cursor-sdk" true 0 ""]

theorem owned_agents_only_listed : ∃ s, (system cursorConfig).run Registry.empty ownedPassRun = some s ∧
    (s.store.list cursorConfig).map (fun agent => agent.id) = ["cursor-sdk:1"] ∧
    ∃ record ∈ s.ownedLaunches.values,
      record.provider = "cursor" ∧ record.agentId = "cursor-sdk:1" := by
  have h0 : (system cursorConfig).ReachableWhile (OwnersFixed fun _ => "cursor") Registry.empty :=
    .init rfl
  have h1 := h0.step (e := RegistryMove.changeProvider "cursor-sdk" (some "cursor")) ⟨trivial, rfl⟩ rfl
  have h2 := h1.step
    (e := RegistryMove.activateOwnedLaunch ⟨"launch", "cursor", "cursor-sdk:1", by decide⟩ none "")
    ⟨trivial, fun _ hold => absurd hold List.not_mem_nil⟩ rfl
  have h3 := h2.step (e := RegistryMove.refresh true fun _ => 0) ⟨trivial, trivial⟩ rfl
  have h4 := h3.step (e := RegistryMove.discovered 0 (some []))
    ⟨fun _ _ _ ha => absurd ha List.not_mem_nil, trivial⟩ rfl
  have h5 := h4.step (e := RegistryMove.discoveredOwned 0 (some [cursorAgent]))
    ⟨fun flight hf agent ha => by cases List.mem_singleton.mp ha; cases hf; rfl, trivial⟩ rfl
  have h6 := h5.step (e := RegistryMove.resume "cursor-sdk" .flight) ⟨trivial, trivial⟩ rfl
  have h7 := h6.step (e := RegistryMove.conclude "cursor-sdk" true 0 "") ⟨trivial, trivial⟩ rfl
  refine ⟨_, rfl, rfl, ?_⟩
  exact owned_agents_only cursorConfig (fun _ => "cursor") _ h7 rfl _ List.mem_cons_self rfl _
    List.mem_cons_self rfl

end AgentHost
