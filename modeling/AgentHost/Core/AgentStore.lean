import AgentHost.Core.Discovery

namespace AgentHost

/-!
# The agents of the registry and its event stream

What the registry stores of its adapters' answers, what it lists, and what it counts and emits
when that changes.

* `AgentStore.list`, `listRaw`, `listView` — the lists, and the revision that a page cursor of a
  view carries.
* `AgentStore.applyOutcome` — a pass of one adapter: other agents, the difference of the lists as
  events.
* `AgentStore.evictCachedOwnedAgent`, `restoreCachedOwnedAgent` — one agent that goes or comes
  back, with an event of its own.
* `AgentStore.mergeHistory` — a load of the histories of all adapters.
-/

/-- How the agents of an adapter look once its transport is lost: they stay the agents they are. -/
structure StaleMarking (δ κ : Type) where
  apply : Agent δ κ → Agent δ κ
  id_apply : ∀ agent, (apply agent).id = agent.id
  source_apply : ∀ agent, (apply agent).source = agent.source

/-- What the registry knows of an adapter: its id and which of the optional members
    `launchCapabilities`, `discoverOwned`, `isDiscoveryCurrent`, `discoverHistory` and `markStale` it
    has. -/
structure AgentAdapter (δ κ : Type) where
  id : String
  launchCapable : Bool := false
  discoversOwned : Bool := false
  checksDiscovery : Bool := false
  discoversHistory : Bool := false
  markStale : Option (StaleMarking δ κ) := none

/-! The defaults of a registry are in order. -/

theorem historyTtlMs_default : 0 < 300000 := by decide
theorem intervalMs_default : 0 < 1000 := by decide
theorem circuitThreshold_default : 0 < 3 := by decide
theorem circuitMaxMs_default : 1000 ≤ 60000 := by decide

/-- What a registry is constructed with, the checks of its constructor, and the functions of other
    modules and of the language that it calls: `Date.parse`, `localeCompare`, and for a repository
    context its normal form and the `state` of that. -/
structure RegistryConfig (δ κ : Type) where
  adapters : InsertionMap fun adapter : AgentAdapter δ κ => adapter.id
  historyTtlMs : Nat := 300000
  circuitBaseMs : Nat := 1000
  circuitMaxMs : Nat := 60000
  circuitThreshold : Nat := 3
  forcedProbeMinMs : Nat := 1000
  historyTtlMs_pos : 0 < historyTtlMs := by exact historyTtlMs_default
  circuitBaseMs_pos : 0 < circuitBaseMs := by exact intervalMs_default
  circuitThreshold_pos : 0 < circuitThreshold := by exact circuitThreshold_default
  forcedProbeMinMs_pos : 0 < forcedProbeMinMs := by exact intervalMs_default
  circuitBaseMs_le : circuitBaseMs ≤ circuitMaxMs := by exact circuitMaxMs_default
  dateParse : String → Option Int
  localeCompare : String → String → Ordering
  normalizeRepositoryContext : κ → κ
  contextState : κ → String

/-- What the registry reads of an owned launch record; the ledger has none without an agent id. -/
structure OwnedLaunch where
  id : String
  provider : String
  agentId : String
  agentId_ne : agentId ≠ ""
  deriving DecidableEq

/-! ### Events -/

/-- The agent events, and that of a repository context, whose `state` is missing where the agent is
    gone. -/
inductive AgentChange (δ κ : Type)
  | discovered (agent : Agent δ κ)
  | updated (agent : Agent δ κ)
  | removed (agentId : String)
  | repositoryAssociationsChanged (agentId : String) (state : Option String)
      (repositoryRevision : Nat)

/-- An event as it is emitted. -/
structure RegistryEvent (δ κ : Type) where
  change : AgentChange δ κ
  snapshotRevision : Nat
  time : String

/-- The difference of two lists: what is new, what has other fields, what is gone. -/
def agentChanges {δ κ : Type} [DecidableEq δ] (previous next : List (Agent δ κ)) :
    List (AgentChange δ κ) :=
  (next.filterMap fun agent =>
    match previous.find? fun old => old.id = agent.id with
    | none => some (.discovered agent)
    | some old => if old.toAgentFields = agent.toAgentFields then none else some (.updated agent)) ++
  (previous.filter fun old => !next.any fun agent => agent.id = old.id).map fun old =>
    .removed old.id

/-! ### The store -/

/-- The agents and histories, the counters and the events emitted until now. -/
structure AgentStore (δ κ : Type) where
  agents : AgentMap δ κ
  historyAgents : AgentMap δ κ
  revision : Nat
  rawRevision : Nat
  historyRevision : Nat
  historyOverlayRevision : Nat
  repositoryRevision : Nat
  events : List (RegistryEvent δ κ)

/-- `cursorRevision`. -/
inductive CursorRevision
  | live (revision : Nat)
  | history (historyRevision historyOverlayRevision : Nat)
  | raw (rawRevision historyRevision : Nat)
  deriving DecidableEq

variable {δ κ : Type}

/-- `historyOverlay`. -/
def historyOverlay (agents : List (AgentFields δ)) (historyAgents : AgentMap δ κ) :
    List (AgentFields δ) :=
  agents.filter fun agent => historyAgents.has agent.id || agent.matchesView .historical

/-- `sort(compareAgents)`. -/
def sortAgents (cfg : RegistryConfig δ κ) (agents : List (Agent δ κ)) : List (Agent δ κ) :=
  sortBy (fun a b => compareAgents cfg.dateParse a.toAgentFields b.toAgentFields) agents

namespace AgentStore

def empty : AgentStore δ κ where
  agents := .empty
  historyAgents := .empty
  revision := 0
  rawRevision := 0
  historyRevision := 0
  historyOverlayRevision := 0
  repositoryRevision := 0
  events := []

variable (cfg : RegistryConfig δ κ) (store : AgentStore δ κ)

/-! ### What it lists -/

def list : List (Agent δ κ) := sortAgents cfg (reconcileAgents store.agents.values false)

def listRaw : List (Agent δ κ) := sortAgents cfg (reconcileAgents store.agents.values true)

/-- The compared fields of `listRaw`. -/
def rawFields : List (AgentFields δ) := (store.listRaw cfg).map Agent.toAgentFields

/-- The compared fields of what lies over the history. -/
def overlay : List (AgentFields δ) := historyOverlay (store.rawFields cfg) store.historyAgents

/-- The histories under the live agents. -/
def combined : List (Agent δ κ) := (store.historyAgents.setAll (store.listRaw cfg)).values

/-- `listView`, once the histories are loaded. -/
def listView (view : Visibility) : List (Agent δ κ) × CursorRevision :=
  match view with
  | .historical =>
    (sortAgents cfg ((reconcileAgents (store.combined cfg) false).filter fun agent =>
        agent.matchesView .historical),
      .history store.historyRevision store.historyOverlayRevision)
  | .raw =>
    (sortAgents cfg (reconcileAgents (store.combined cfg) true),
      .raw store.rawRevision store.historyRevision)
  | view => ((store.list cfg).filter fun agent => agent.matchesView view, .live store.revision)

/-! ### Counting and emitting -/

/-- Count a difference of the lists and emit its events. -/
def announce (changes : List (AgentChange δ κ)) (time : String) : AgentStore δ κ :=
  let revision := if changes.isEmpty then store.revision else store.revision + 1
  { store with
    revision := revision
    events := store.events ++ changes.map fun change => ⟨change, revision, time⟩ }

/-- Count changes of repository contexts and emit their events. -/
def announceContexts (changes : List (String × Option String)) (time : String) : AgentStore δ κ :=
  let repositoryRevision :=
    if changes.isEmpty then store.repositoryRevision else store.repositoryRevision + 1
  { store with
    repositoryRevision := repositoryRevision
    events := store.events ++ changes.map fun change =>
      ⟨.repositoryAssociationsChanged change.1 change.2 repositoryRevision, store.revision, time⟩ }

/-- The normal form of an agent's repository context. -/
def context (agent : Agent δ κ) : κ := cfg.normalizeRepositoryContext agent.repositoryContext

/-- The state of an agent's repository context. -/
def contextState (agent : Agent δ κ) : String := cfg.contextState (context cfg agent)

section Changes

variable [DecidableEq δ] [DecidableEq κ]

/-- Other live agents, with the counters of `listRaw` and of the history overlay. -/
def replaceAgents (agents : AgentMap δ κ) : AgentStore δ κ :=
  let next := { store with agents := agents }
  { next with
    rawRevision :=
      if store.rawFields cfg = next.rawFields cfg then store.rawRevision
      else store.rawRevision + 1
    historyOverlayRevision :=
      if store.overlay cfg = next.overlay cfg then store.historyOverlayRevision
      else store.historyOverlayRevision + 1 }

/-! ### `applyOutcome` -/

/-- An agent as it is stored when it is reported. -/
def normalizeAgent (agent : Agent δ κ) : Agent δ κ :=
  { agent with repositoryContext := context cfg agent }

/-- The agents after a successful discovery of an adapter. -/
def discoveredAgents (adapterId : String) (agents : List (Agent δ κ)) : AgentMap δ κ :=
  (store.agents.filter fun agent => agent.source ≠ adapterId).setAll
    (agents.map (normalizeAgent cfg))

/-- An agent of an adapter that has lost its transport. -/
def staleAgent (marking : StaleMarking δ κ) (adapterId : String) (agent : Agent δ κ) : Agent δ κ :=
  if agent.source = adapterId then normalizeAgent cfg (marking.apply agent) else agent

omit [DecidableEq δ] [DecidableEq κ] in
theorem id_staleAgent (marking : StaleMarking δ κ) (adapterId : String) (agent : Agent δ κ) :
    (staleAgent cfg marking adapterId agent).id = agent.id := by
  unfold staleAgent
  split
  · exact marking.id_apply agent
  · rfl

/-- `repositoryContextsEqual`. -/
def repositoryContextsEqual (left right : κ) : Bool :=
  cfg.normalizeRepositoryContext left = cfg.normalizeRepositoryContext right

/-- An agent of the next map, with the times of the stored one. -/
def settleAgent (previous : Option (Agent δ κ)) (time : String) (agent : Agent δ κ) : Agent δ κ :=
  match previous with
  | none =>
    { agent with
      discoveredAt := some (agent.discoveredAt.getD time)
      updatedAt := some (agent.updatedAt.getD time) }
  | some previous =>
    if previous.toAgentFields ≠ agent.toAgentFields then
      { agent with discoveredAt := previous.discoveredAt, updatedAt := some time }
    else if !repositoryContextsEqual cfg previous.repositoryContext agent.repositoryContext then
      { previous with repositoryContext := agent.repositoryContext }
    else previous

theorem toAgentFields_settleAgent (previous : Option (Agent δ κ)) (time : String)
    (agent : Agent δ κ) :
    (settleAgent cfg previous time agent).toAgentFields = agent.toAgentFields := by
  unfold settleAgent
  split
  · rfl
  · split
    · rfl
    · next h =>
      rw [not_not] at h
      split <;> exact h

/-- The times of the stored agents on those of the next map. -/
def settleAgents (next : AgentMap δ κ) (time : String) : AgentMap δ κ :=
  next.mapValues (fun agent => settleAgent cfg (store.agents.get? agent.id) time agent)
    fun agent => congrArg AgentFields.id (toAgentFields_settleAgent cfg _ time agent)

/-- Whether and how the repository context of an agent that is new, kept or gone changes. -/
def contextChange (previous current : Option (Agent δ κ)) : Option (Option String) :=
  match previous, current with
  | none, none => none
  | none, some current =>
    if contextState cfg current = "unsupported" then none else some (contextState cfg current)
  | some previous, none => if contextState cfg previous = "unsupported" then none else some none
  | some previous, some current =>
    if repositoryContextsEqual cfg (context cfg previous) (context cfg current) then none
    else some (contextState cfg current)

/-- The changes of the repository contexts of some agents. -/
def contextChanges (ids : List String) (previous current : AgentMap δ κ) :
    List (String × Option String) :=
  ids.filterMap fun id =>
    (contextChange cfg (previous.get? id) (current.get? id)).map fun state => (id, state)

/-- The ids of two maps, those of the first before those that only the second has. -/
def idsOf (first second : AgentMap δ κ) : List String :=
  first.values.map (fun agent => agent.id) ++
    (second.values.map fun agent => agent.id).filter fun id => !first.has id

/-- What an adapter's outcome tells about its agents: the discovered ones, that its transport is
    lost, or nothing. -/
inductive Report (δ κ : Type)
  | agents (agents : List (Agent δ κ))
  | stale
  | failed

/-- The agents before their times are settled. -/
def nextAgents (adapterId : String) : Report δ κ → AgentMap δ κ
  | .agents agents => store.discoveredAgents cfg adapterId agents
  | .stale =>
    match (cfg.adapters.get? adapterId).bind AgentAdapter.markStale with
    | some marking =>
      store.agents.mapValues (staleAgent cfg marking adapterId) (id_staleAgent cfg marking adapterId)
    | none => store.agents
  | .failed => store.agents

/-- `#applyOutcome`. -/
def applyOutcome (adapterId : String) (report : Report δ κ) (time : String) : AgentStore δ κ :=
  let next := store.replaceAgents cfg
    (store.settleAgents cfg (store.nextAgents cfg adapterId report) time)
  (next.announce (agentChanges (store.list cfg) (next.list cfg)) time).announceContexts
    (contextChanges cfg (idsOf next.agents store.agents) store.agents next.agents) time

/-! ### Eviction and restoration -/

/-- `#evictCachedOwnedAgent`. -/
def evictCachedOwnedAgent (agentId time : String) : AgentStore δ κ :=
  match store.agents.get? agentId with
  | none => store
  | some previous =>
    let next := store.replaceAgents cfg (store.agents.delete agentId)
    let removed := (store.list cfg).any (fun agent => agent.id = agentId) &&
      !(next.list cfg).any fun agent => agent.id = agentId
    (next.announce (if removed then [.removed agentId] else []) time).announceContexts
      (if contextState cfg previous = "unsupported" then [] else [(agentId, none)]) time

/-- `#restoreCachedOwnedAgent`; `adapterId` is the adapter of the record's provider. -/
def restoreCachedOwnedAgent (record : OwnedLaunch) (adapterId : Option String)
    (cached : Agent δ κ) (time : String) : AgentStore δ κ :=
  if cached.id ≠ record.agentId ∨ cached.provider ≠ record.provider ∨
      some cached.source ≠ adapterId ∨ store.agents.has cached.id then store
  else
    let restored := { cached with updatedAt := some time }
    ((store.replaceAgents cfg (store.agents.set restored)).announce
        [.discovered restored] time).announceContexts
      (if contextState cfg restored = "unsupported" then []
        else [(restored.id, some (contextState cfg restored))]) time

/-! ### Histories -/

/-- The histories after a load: those of the adapters that answered are replaced. -/
def mergedHistory (results : List (String × Option (List (Agent δ κ)))) : AgentMap δ κ :=
  results.foldl
    (fun next result =>
      match result.2 with
      | none => next
      | some agents => (next.filter fun agent => agent.source ≠ result.1).setAll agents)
    store.historyAgents

/-- The compared fields of a history, by id. -/
def historyFields (agents : AgentMap δ κ) : List (AgentFields δ) :=
  sortBy (fun a b => cfg.localeCompare a.id b.id) (agents.values.map Agent.toAgentFields)

/-- The end of a load of the histories. -/
def loadHistory (results : List (String × Option (List (Agent δ κ)))) (time : String) :
    AgentStore δ κ :=
  let next := store.mergedHistory results
  let ids := (idsOf store.historyAgents next).filter fun id => !store.agents.has id
  let merged := { store with
    historyAgents := next
    historyRevision :=
      if historyFields cfg store.historyAgents = historyFields cfg next then store.historyRevision
      else store.historyRevision + 1 }
  merged.announceContexts (contextChanges cfg ids store.historyAgents next) time

/-! ### All of them -/

/-- What happens to the store. -/
inductive Move (δ κ : Type)
  | outcome (adapterId : String) (report : Report δ κ) (time : String)
  | evict (agentId time : String)
  | restore (record : OwnedLaunch) (adapterId : Option String) (cached : Agent δ κ) (time : String)
  | history (results : List (String × Option (List (Agent δ κ)))) (time : String)

def move : Move δ κ → AgentStore δ κ
  | .outcome adapterId report time => store.applyOutcome cfg adapterId report time
  | .evict agentId time => store.evictCachedOwnedAgent cfg agentId time
  | .restore record adapterId cached time =>
    store.restoreCachedOwnedAgent cfg record adapterId cached time
  | .history results time => store.loadHistory cfg results time

/-! ### The agents afterwards -/

omit [DecidableEq δ] [DecidableEq κ] in
/-- An agent before its times are settled: one that was stored, or one that was discovered. -/
theorem mem_nextAgents {adapterId : String} {report : Report δ κ} {agent : Agent δ κ}
    (h : agent ∈ (store.nextAgents cfg adapterId report).values) :
    ∃ previous : Agent δ κ, previous.id = agent.id ∧ previous.source = agent.source ∧
      (previous ∈ store.agents.values ∧ (∀ agents, report = .agents agents →
        previous.source ≠ adapterId) ∨ ∃ agents, report = .agents agents ∧ previous ∈ agents) := by
  unfold nextAgents at h
  split at h
  · next agents =>
    rcases InsertionMap.mem_of_mem_setAll h with hold | hnew
    · obtain ⟨hmem, hsource⟩ := List.mem_filter.mp hold
      exact ⟨agent, rfl, rfl, .inl ⟨hmem, fun _ _ => of_decide_eq_true hsource⟩⟩
    · obtain ⟨previous, hmem, rfl⟩ := List.mem_map.mp hnew
      exact ⟨previous, rfl, rfl, .inr ⟨agents, rfl, hmem⟩⟩
  · split at h
    · next marking _ =>
      obtain ⟨previous, hmem, rfl⟩ := List.mem_map.mp h
      refine ⟨previous, (id_staleAgent cfg marking adapterId previous).symm, ?_, .inl ⟨hmem, nofun⟩⟩
      unfold staleAgent
      split
      · exact (marking.source_apply previous).symm
      · rfl
    · exact ⟨agent, rfl, rfl, .inl ⟨h, nofun⟩⟩
  · exact ⟨agent, rfl, rfl, .inl ⟨h, nofun⟩⟩

/-- An agent after an outcome: one that was stored, or one that was discovered. -/
theorem mem_applyOutcome {adapterId time : String} {report : Report δ κ} {agent : Agent δ κ}
    (h : agent ∈ (store.applyOutcome cfg adapterId report time).agents.values) :
    ∃ previous : Agent δ κ, previous.id = agent.id ∧ previous.source = agent.source ∧
      (previous ∈ store.agents.values ∧ (∀ agents, report = .agents agents →
        previous.source ≠ adapterId) ∨ ∃ agents, report = .agents agents ∧ previous ∈ agents) := by
  obtain ⟨next, hnext, rfl⟩ := List.mem_map.mp h
  have hfields := toAgentFields_settleAgent cfg (store.agents.get? next.id) time next
  obtain ⟨previous, hid, hsource, hmem⟩ := mem_nextAgents cfg store hnext
  refine ⟨previous, ?_, ?_, hmem⟩
  · rw [hid, hfields]
  · rw [hsource, hfields]

/-- An agent that is reported as it is stored stays as it is. -/
theorem settleAgent_self (time : String) (agent : Agent δ κ) :
    settleAgent cfg (some agent) time agent = agent := by
  simp [settleAgent, repositoryContextsEqual]

/-- Stored agents that are all reported as they are. -/
theorem settleAgents_self (time : String) : store.settleAgents cfg store.agents time = store.agents := by
  apply InsertionMap.ext
  refine (List.map_congr_left fun agent hagent => ?_).trans (List.map_id _)
  rw [InsertionMap.get?_of_mem hagent]
  exact settleAgent_self cfg time agent

/-- An outcome that tells nothing about the agents. -/
theorem agents_applyOutcome_failed {adapterId time : String} :
    (store.applyOutcome cfg adapterId .failed time).agents = store.agents :=
  store.settleAgents_self cfg time

/-- The fields of the agents once an adapter's transport is lost. -/
theorem fields_applyOutcome_stale {adapterId time : String} :
    (store.applyOutcome cfg adapterId .stale time).agents.values.map Agent.toAgentFields =
      store.agents.values.map fun agent =>
        match (cfg.adapters.get? adapterId).bind AgentAdapter.markStale with
        | some marking =>
          if agent.source = adapterId then (marking.apply agent).toAgentFields
          else agent.toAgentFields
        | none => agent.toAgentFields := by
  change (store.settleAgents cfg (store.nextAgents cfg adapterId .stale) time).values.map _ = _
  simp only [settleAgents, InsertionMap.values_mapValues, List.map_map, Function.comp_def,
    toAgentFields_settleAgent, nextAgents]
  split
  · next marking hmarking =>
    simp only [InsertionMap.values_mapValues, List.map_map, Function.comp_def]
    refine List.map_congr_left fun agent _ => ?_
    unfold staleAgent
    split <;> rfl
  · rfl

/-- **Frame of an outcome.** Where an adapter reports only agents of its own, and none with the id of
    an agent of another, the agents of others are stored as before. -/
theorem mem_applyOutcome_iff {adapterId time : String} {report : Report δ κ} {agent : Agent δ κ}
    (hsource : agent.source ≠ adapterId)
    (hreport : ∀ agents, report = .agents agents → ∀ reported ∈ agents,
      reported.source = adapterId ∧ (agent ∈ store.agents.values → reported.id ≠ agent.id)) :
    agent ∈ (store.applyOutcome cfg adapterId report time).agents.values ↔
      agent ∈ store.agents.values := by
  have hnext : ∀ next : Agent δ κ, next.source ≠ adapterId →
      next ∈ (store.nextAgents cfg adapterId report).values → next ∈ store.agents.values := by
    intro next hne hmem
    unfold nextAgents at hmem
    split at hmem
    · next agents =>
      rcases InsertionMap.mem_of_mem_setAll hmem with hold | hnew
      · exact (List.mem_filter.mp hold).1
      · obtain ⟨reported, hreported, rfl⟩ := List.mem_map.mp hnew
        exact absurd (hreport agents rfl reported hreported).1 hne
    · split at hmem
      · next marking _ =>
        obtain ⟨previous, hprevious, rfl⟩ := List.mem_map.mp hmem
        by_cases hown : previous.source = adapterId
        · rw [staleAgent, if_pos hown] at hne
          exact absurd ((marking.source_apply previous).trans hown) hne
        · rwa [staleAgent, if_neg hown]
      · exact hmem
    · exact hmem
  constructor
  · intro h
    obtain ⟨next, hmem, rfl⟩ := List.mem_map.mp h
    rw [toAgentFields_settleAgent] at hsource
    have hstored := hnext next hsource hmem
    rw [InsertionMap.get?_of_mem hstored, settleAgent_self]
    exact hstored
  · intro h
    have hmem : agent ∈ (store.nextAgents cfg adapterId report).values := by
      unfold nextAgents
      split
      · next agents =>
        refine InsertionMap.mem_of_get? (k := agent.id) ?_
        rw [discoveredAgents, InsertionMap.get?_setAll_of_ne]
        · exact InsertionMap.get?_eq_some_iff.mpr
            ⟨List.mem_filter.mpr ⟨h, decide_eq_true hsource⟩, rfl⟩
        · intro reported hreported
          obtain ⟨original, horiginal, rfl⟩ := List.mem_map.mp hreported
          exact (hreport agents rfl original horiginal).2 h
      · split
        · refine List.mem_map.mpr ⟨agent, h, ?_⟩
          rw [staleAgent, if_neg hsource]
        · exact h
      · exact h
    refine List.mem_map.mpr ⟨agent, hmem, ?_⟩
    rw [InsertionMap.get?_of_mem h, settleAgent_self]

omit [DecidableEq κ] in
theorem agents_evictCachedOwnedAgent (agentId time : String) :
    (store.evictCachedOwnedAgent cfg agentId time).agents = store.agents.delete agentId := by
  unfold evictCachedOwnedAgent
  split
  · next hnone => exact (InsertionMap.delete_of_get?_none hnone).symm
  · rfl

omit [DecidableEq κ] in
/-- A restored agent is that of the record. -/
theorem mem_restoreCachedOwnedAgent {record : OwnedLaunch} {adapterId : Option String}
    {cached agent : Agent δ κ} {time : String}
    (h : agent ∈ (store.restoreCachedOwnedAgent cfg record adapterId cached time).agents.values) :
    agent ∈ store.agents.values ∨ (agent.id = record.agentId ∧ some agent.source = adapterId ∧
      agent.id = cached.id ∧ agent.source = cached.source) := by
  unfold restoreCachedOwnedAgent at h
  split at h
  · exact .inl h
  · next hguard =>
    push Not at hguard
    obtain ⟨hid, -, hsource, -⟩ := hguard
    rcases InsertionMap.mem_set.mp h with rfl | ⟨hmem, -⟩
    · exact .inr ⟨hid, hsource, rfl, rfl⟩
    · exact .inl hmem

end Changes

end AgentStore

end AgentHost
