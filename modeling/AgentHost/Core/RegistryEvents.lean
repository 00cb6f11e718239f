import AgentHost.Core.Registry

namespace AgentHost

/-!
# The event stream and the list

* `replay` — the agents a client knows that folds the events over an empty map.
* `lookupFields` — the compared fields of a list of agents by id; `foldl_agentChanges` — the
  difference of two lists as changes leads from one to the other.
* `AgentStore.Follows` — the events of a change of the store follow its list, and so does the
  revision; `AgentStore.Local` — an eviction or restoration that neither hides nor reveals another
  agent.
* `event_stream_refines_list` — the runs in which the events follow the list are those whose steps
  are local.  `eviction_reveals_duplicate` — a run in which they do not.
-/

variable {δ κ : Type}

/-! ### Clients -/

namespace AgentChange

/-- What a client knows after an event. -/
def apply (known : String → Option (AgentFields δ)) (change : AgentChange δ κ) :
    String → Option (AgentFields δ) :=
  match change with
  | .discovered agent | .updated agent =>
    Function.update known agent.id (some agent.toAgentFields)
  | .removed agentId => Function.update known agentId none
  | .repositoryAssociationsChanged .. => known

/-- What an event says of an id. -/
def effect (id : String) : AgentChange δ κ → Option (Option (AgentFields δ))
  | .discovered agent | .updated agent =>
    if id = agent.id then some (some agent.toAgentFields) else none
  | .removed agentId => if id = agentId then some none else none
  | .repositoryAssociationsChanged .. => none

theorem apply_eq (known : String → Option (AgentFields δ)) (change : AgentChange δ κ) (id : String) :
    change.apply known id = (change.effect id).getD (known id) := by
  unfold apply effect
  cases change with
  | discovered agent | updated agent | removed agentId =>
    simp only [Function.update_apply]
    split <;> rfl
  | repositoryAssociationsChanged => rfl

/-- Events that say nothing of an id but `value`, and do say it or find it known. -/
theorem foldl_apply_eq {changes : List (AgentChange δ κ)} {known : String → Option (AgentFields δ)}
    {id : String} {value : Option (AgentFields δ)}
    (hsame : ∀ change ∈ changes, ∀ v, change.effect id = some v → v = value)
    (hsome : known id = value ∨ ∃ change ∈ changes, change.effect id = some value) :
    changes.foldl apply known id = value := by
  induction changes generalizing known with
  | nil => simpa using hsome
  | cons change changes ih =>
    refine ih (fun c hc => hsame c (List.mem_cons_of_mem _ hc)) ?_
    rw [apply_eq]
    cases heffect : change.effect id with
    | some v =>
      left
      exact hsame change List.mem_cons_self v heffect
    | none =>
      refine hsome.imp (fun h => h) fun ⟨c, hc, he⟩ => ?_
      rcases List.mem_cons.mp hc with rfl | hc
      · rw [heffect] at he
        cases he
      · exact ⟨c, hc, he⟩

end AgentChange

/-- The agents a client knows after the events of a registry. -/
def replay (events : List (RegistryEvent δ κ)) : String → Option (AgentFields δ) :=
  (events.map RegistryEvent.change).foldl AgentChange.apply fun _ => none

/-! ### Lists -/

/-- The compared fields of the agents of a list, by id. -/
def lookupFields (agents : List (Agent δ κ)) (id : String) : Option (AgentFields δ) :=
  (agents.find? fun agent => agent.id = id).map Agent.toAgentFields

/-- A list whose agents have different ids. -/
def DistinctIds (agents : List (Agent δ κ)) : Prop := (agents.map fun agent => agent.id).Nodup

variable {old new : List (Agent δ κ)}

theorem find?_of_mem (h : DistinctIds old) {agent : Agent δ κ} (hmem : agent ∈ old) :
    (old.find? fun a => a.id = agent.id) = some agent := by
  cases hfind : old.find? fun a => a.id = agent.id with
  | none =>
    have hnone := List.find?_eq_none.mp hfind agent hmem
    simp at hnone
  | some found =>
    have hid : found.id = agent.id := by simpa using List.find?_some hfind
    rw [List.inj_on_of_nodup_map h (List.mem_of_find?_eq_some hfind) hmem hid]

theorem lookupFields_of_mem (h : DistinctIds old) {agent : Agent δ κ} (hmem : agent ∈ old) :
    lookupFields old agent.id = some agent.toAgentFields := by
  rw [lookupFields, find?_of_mem h hmem]
  rfl

theorem lookupFields_eq_none {id : String} :
    lookupFields old id = none ↔ ∀ agent ∈ old, agent.id ≠ id := by
  simp [lookupFields]

theorem exists_of_lookupFields {id : String} {fields : AgentFields δ}
    (h : lookupFields old id = some fields) :
    ∃ agent ∈ old, agent.id = id ∧ agent.toAgentFields = fields := by
  obtain ⟨agent, hfind, hfields⟩ := Option.map_eq_some_iff.mp h
  exact ⟨agent, List.mem_of_find?_eq_some hfind, by simpa using List.find?_some hfind, hfields⟩

section Changes

variable [DecidableEq δ]

/-- A change of a list: an agent of the next one that is new or other, or an id that is gone. -/
theorem mem_agentChanges {change : AgentChange δ κ} : change ∈ agentChanges old new ↔
    (∃ agent ∈ new, (change = .discovered agent ∧ (old.find? fun a => a.id = agent.id) = none) ∨
      ∃ previous, (old.find? fun a => a.id = agent.id) = some previous ∧
        previous.toAgentFields ≠ agent.toAgentFields ∧ change = .updated agent) ∨
    ∃ previous ∈ old, (∀ agent ∈ new, agent.id ≠ previous.id) ∧ change = .removed previous.id := by
  unfold agentChanges
  rw [List.mem_append, List.mem_filterMap, List.mem_map]
  refine or_congr (exists_congr fun agent => and_congr_right fun _ => ?_)
    (exists_congr fun previous => ?_)
  · cases hfind : old.find? fun a => a.id = agent.id with
    | none => simp only [Option.some.injEq, eq_comm, and_true, reduceCtorEq, false_and,
        exists_false, or_false]
    | some previous =>
      simp only [Option.some.injEq, reduceCtorEq, and_false, false_or, exists_eq_left']
      split
      · next heq => simp only [reduceCtorEq, false_iff]; exact fun h => h.1 heq
      · next hne =>
        rw [Option.some.injEq]
        exact ⟨fun h => ⟨hne, h.symm⟩, fun h => h.2.symm⟩
  · rw [List.mem_filter, Bool.not_eq_true', List.any_eq_false, and_assoc]
    simp only [decide_eq_true_eq]
    exact and_congr_right fun _ => and_congr_right fun _ => eq_comm

/-- The difference of two lists leads from the one to the other. -/
theorem foldl_agentChanges (old : List (Agent δ κ)) (hnew : DistinctIds new) :
    (agentChanges old new).foldl AgentChange.apply (lookupFields old) = lookupFields new := by
  funext id
  refine AgentChange.foldl_apply_eq (fun change hchange v hv => ?_) ?_
  · rcases mem_agentChanges.mp hchange with ⟨agent, hmem, hc⟩ | ⟨previous, -, hgone, rfl⟩
    · have hupdate : id = agent.id ∧ some agent.toAgentFields = v := by
        rcases hc with ⟨rfl, -⟩ | ⟨_, -, -, rfl⟩ <;>
        · simp only [AgentChange.effect] at hv
          split at hv
          · next hid => exact ⟨hid, Option.some.inj hv⟩
          · cases hv
      rw [hupdate.1, ← hupdate.2, lookupFields_of_mem hnew hmem]
    · simp only [AgentChange.effect] at hv
      split at hv
      · next hid =>
        rw [← Option.some.inj hv, hid]
        exact (lookupFields_eq_none.mpr hgone).symm
      · cases hv
  · cases hlook : lookupFields new id with
    | none =>
      cases hprevious : lookupFields old id with
      | none => exact .inl rfl
      | some fields =>
        obtain ⟨previous, hmem, rfl, -⟩ := exists_of_lookupFields hprevious
        refine .inr ⟨_, mem_agentChanges.mpr (.inr ⟨previous, hmem, ?_, rfl⟩), by
          simp [AgentChange.effect]⟩
        exact lookupFields_eq_none.mp hlook
    | some fields =>
      obtain ⟨agent, hmem, rfl, rfl⟩ := exists_of_lookupFields hlook
      cases hfind : old.find? fun a => a.id = agent.id with
      | none =>
        exact .inr ⟨_, mem_agentChanges.mpr (.inl ⟨agent, hmem, .inl ⟨rfl, hfind⟩⟩), by
          simp [AgentChange.effect]⟩
      | some previous =>
        by_cases heq : previous.toAgentFields = agent.toAgentFields
        · left
          rw [lookupFields, hfind, Option.map_some, heq]
        · exact .inr ⟨_, mem_agentChanges.mpr
            (.inl ⟨agent, hmem, .inr ⟨previous, hfind, heq, rfl⟩⟩), by simp [AgentChange.effect]⟩

/-- Two lists have no difference just where they have the same fields for each id. -/
theorem agentChanges_eq_nil_iff (hold : DistinctIds old) (hnew : DistinctIds new) :
    agentChanges old new = [] ↔ lookupFields old = lookupFields new := by
  constructor
  · intro h
    rw [← foldl_agentChanges old hnew, h]
    rfl
  · intro h
    refine List.eq_nil_iff_forall_not_mem.mpr fun change hchange => ?_
    rcases mem_agentChanges.mp hchange with ⟨agent, hmem, hc⟩ | ⟨previous, hmem, hgone, -⟩
    · have hlook := congrFun h agent.id
      rw [lookupFields_of_mem hnew hmem] at hlook
      rcases hc with ⟨-, hfind⟩ | ⟨previous, hfind, hne, -⟩
      · rw [lookupFields, hfind] at hlook
        cases hlook
      · rw [lookupFields, hfind] at hlook
        exact hne (Option.some.inj hlook)
    · have hlook := congrFun h previous.id
      rw [lookupFields_of_mem hold hmem, lookupFields_eq_none.mpr hgone] at hlook
      cases hlook

end Changes

/-! ### The list of a store -/

namespace AgentStore

variable (cfg : RegistryConfig δ κ) (s t : AgentStore δ κ)

theorem mem_list {agent : Agent δ κ} : agent ∈ s.list cfg ↔
    agent ∈ s.agents.values ∧ isListed s.agents.values agent = true := by
  rw [list, sortAgents, mem_sortBy, reconcileAgents_false, List.mem_filter]

theorem distinctIds_list : DistinctIds (s.list cfg) := by
  have hperm := (perm_sortBy (fun a b : Agent δ κ =>
    compareAgents cfg.dateParse a.toAgentFields b.toAgentFields)
    (reconcileAgents s.agents.values false)).map fun agent => agent.id
  refine hperm.nodup_iff.mpr ?_
  rw [reconcileAgents_false]
  exact s.agents.nodup.sublist (List.filter_sublist.map _)

/-- What is listed under an id is what is stored there, if it is not hidden. -/
theorem lookupFields_list (id : String) : lookupFields (s.list cfg) id =
    ((s.agents.get? id).filter (isListed s.agents.values)).map Agent.toAgentFields := by
  cases hget : s.agents.get? id with
  | none =>
    refine lookupFields_eq_none.mpr fun agent hagent => ?_
    exact InsertionMap.get?_eq_none_iff.mp hget agent ((mem_list cfg s).mp hagent).1
  | some agent =>
    obtain ⟨hmem, rfl⟩ := InsertionMap.get?_eq_some_iff.mp hget
    rw [Option.filter_some]
    cases hlisted : isListed s.agents.values agent with
    | true =>
      exact lookupFields_of_mem (distinctIds_list cfg s) ((mem_list cfg s).mpr ⟨hmem, hlisted⟩)
    | false =>
      refine lookupFields_eq_none.mpr fun other hother hid => ?_
      obtain ⟨hstored, hshown⟩ := (mem_list cfg s).mp hother
      rw [s.agents.eq_of_key_eq hstored hmem hid, hlisted] at hshown
      cases hshown

/-- The compared fields of the list. -/
def listFields : List (AgentFields δ) := (s.list cfg).map Agent.toAgentFields

theorem lookupFields_eq_find? (agents : List (Agent δ κ)) (id : String) :
    lookupFields agents id = (agents.map Agent.toAgentFields).find? fun fields => fields.id = id := by
  rw [lookupFields, List.find?_map]
  rfl

theorem listFields_eq_sortBy : s.listFields cfg = sortBy (compareAgents cfg.dateParse)
    ((reconcileAgents s.agents.values false).map Agent.toAgentFields) :=
  map_sortBy Agent.toAgentFields _ fun _ _ _ _ => rfl

/-- The list is sorted, so its compared fields are told by what it has for each id. -/
theorem listFields_eq_iff :
    s.listFields cfg = t.listFields cfg ↔ lookupFields (s.list cfg) = lookupFields (t.list cfg) := by
  constructor
  · intro h
    funext id
    rw [lookupFields_eq_find?, lookupFields_eq_find?]
    exact congrArg (List.find? fun fields => fields.id = id) h
  · intro h
    have hnodup : ∀ u : AgentStore δ κ, ((u.listFields cfg).map AgentFields.id).Nodup := by
      intro u
      rw [listFields, List.map_map]
      exact distinctIds_list cfg u
    have hmem : ∀ (u v : AgentStore δ κ), lookupFields (u.list cfg) = lookupFields (v.list cfg) →
        ∀ fields ∈ u.listFields cfg, fields ∈ v.listFields cfg := by
      intro u v huv fields hfields
      obtain ⟨agent, hagent, rfl⟩ := List.mem_map.mp hfields
      have hlook := lookupFields_of_mem (distinctIds_list cfg u) hagent
      rw [huv] at hlook
      obtain ⟨other, hother, -, heq⟩ := exists_of_lookupFields hlook
      exact heq ▸ List.mem_map_of_mem hother
    have hperm : (s.listFields cfg).Perm (t.listFields cfg) :=
      (List.perm_ext_iff_of_nodup (hnodup s).of_map (hnodup t).of_map).mpr fun fields =>
        ⟨hmem s t h fields, hmem t s h.symm fields⟩
    -- both lists are sorted by an order that tells their agents apart
    have hsorted : ∀ u : AgentStore δ κ,
        sortBy (compareAgents cfg.dateParse) (u.listFields cfg) = u.listFields cfg := by
      intro u
      rw [listFields_eq_sortBy]
      exact (pairwise_sortBy _ _).insertionSort_eq
    rw [← hsorted s, ← hsorted t]
    refine sortBy_eq_of_perm _ hperm fun a ha b hb hab => ?_
    exact List.inj_on_of_nodup_map (hnodup s) ha hb (id_eq_of_compareAgents _ hab)

/-! ### The law of a change -/

/-- The events up to a store lead to its list, and its revision is another than before just where
    its list is. -/
def Follows : Prop :=
  replay t.events = lookupFields (t.list cfg) ∧
    (t.revision ≠ s.revision ↔ t.listFields cfg ≠ s.listFields cfg)

/-- A change that changes nothing. -/
theorem follows_self (hreplay : replay s.events = lookupFields (s.list cfg)) : s.Follows cfg s :=
  ⟨hreplay, iff_of_false (fun h => h rfl) fun h => h rfl⟩

@[simp] theorem replay_announceContexts (changes : List (String × Option String)) (time : String) :
    replay (s.announceContexts changes time).events = replay s.events := by
  have hnone : ∀ (changes : List (String × Option String)) (revision : Nat)
      (known : String → Option (AgentFields δ)),
      (changes.map fun change => AgentChange.repositoryAssociationsChanged (δ := δ) (κ := κ) change.1
        change.2 revision).foldl AgentChange.apply known = known := by
    intro changes revision known
    induction changes with
    | nil => rfl
    | cons change changes ih => exact ih
  rw [announceContexts, replay, List.map_append, List.foldl_append, List.map_map]
  exact hnone changes _ _

theorem replay_announce (changes : List (AgentChange δ κ)) (time : String) :
    replay (s.announce changes time).events = changes.foldl AgentChange.apply (replay s.events) := by
  rw [announce, replay, List.map_append, List.foldl_append, List.map_map]
  exact congrArg (List.foldl _ _) (List.map_id _)

theorem revision_announce (changes : List (AgentChange δ κ)) (time : String) :
    (s.announce changes time).revision ≠ s.revision ↔ changes ≠ [] := by
  cases changes with
  | nil => simp [announce]
  | cons change changes => simp [announce]

section Moves

variable [DecidableEq δ] [DecidableEq κ]

/-- An outcome counts where the lists have a difference. -/
theorem revision_applyOutcome (adapterId : String) (report : Report δ κ) (time : String) :
    (s.applyOutcome cfg adapterId report time).revision ≠ s.revision ↔
      (s.applyOutcome cfg adapterId report time).listFields cfg ≠ s.listFields cfg := by
  let next := s.replaceAgents cfg (s.settleAgents cfg (s.nextAgents cfg adapterId report) time)
  change (next.announce (agentChanges (s.list cfg) (next.list cfg)) time).revision ≠ next.revision
    ↔ next.listFields cfg ≠ s.listFields cfg
  rw [revision_announce, ne_eq, ne_eq, listFields_eq_iff,
    agentChanges_eq_nil_iff (distinctIds_list cfg s) (distinctIds_list cfg next)]
  exact not_congr eq_comm

/-- An outcome emits the whole difference of the lists. -/
theorem follows_applyOutcome (hreplay : replay s.events = lookupFields (s.list cfg))
    (adapterId : String) (report : Report δ κ) (time : String) :
    s.Follows cfg (s.applyOutcome cfg adapterId report time) := by
  let next := s.replaceAgents cfg (s.settleAgents cfg (s.nextAgents cfg adapterId report) time)
  have hfold := foldl_agentChanges (s.list cfg) (distinctIds_list cfg next)
  refine ⟨?_, revision_applyOutcome cfg s adapterId report time⟩
  change replay (announceContexts _ _ _).events = lookupFields (next.list cfg)
  rw [replay_announceContexts, replay_announce]
  change List.foldl _ (replay s.events) _ = _
  rw [hreplay, hfold]

/-- A load of the histories leaves the live agents alone. -/
theorem follows_loadHistory (hreplay : replay s.events = lookupFields (s.list cfg))
    (results : List (String × Option (List (Agent δ κ)))) (time : String) :
    s.Follows cfg (s.loadHistory cfg results time) := by
  constructor
  · rw [loadHistory, replay_announceContexts]
    exact hreplay
  · exact iff_of_false (fun h => h rfl) fun h => h rfl

/-- No stored agent but that under an id is hidden or revealed. -/
def Unaffected (id : String) (next : AgentMap δ κ) : Prop :=
  ∀ other ∈ s.agents.values, other.id ≠ id →
    isListed next.values other = isListed s.agents.values other

omit [DecidableEq δ] [DecidableEq κ] in
/-- The lists differ in one id just where no other agent is hidden or revealed. -/
theorem lookupFields_eq_update_iff {id : String} {value : Option (AgentFields δ)}
    (hother : ∀ other ≠ id, t.agents.get? other = s.agents.get? other)
    (hvalue : lookupFields (t.list cfg) id = value) :
    Function.update (lookupFields (s.list cfg)) id value = lookupFields (t.list cfg) ↔
      s.Unaffected id t.agents := by
  constructor
  · intro h other hmem hne
    have hlook := congrFun h other.id
    rw [Function.update_of_ne hne, lookupFields_list, lookupFields_list, hother _ hne,
      InsertionMap.get?_of_mem hmem, Option.filter_some, Option.filter_some] at hlook
    cases hs : isListed s.agents.values other <;>
      cases ht : isListed t.agents.values other <;> simp_all
  · intro h
    funext other
    by_cases hid : other = id
    · rw [hid, Function.update_self, hvalue]
    · rw [Function.update_of_ne hid, lookupFields_list, lookupFields_list, hother _ hid]
      cases hget : s.agents.get? other with
      | none => rfl
      | some agent =>
        obtain ⟨hmem, rfl⟩ := InsertionMap.get?_eq_some_iff.mp hget
        rw [Option.filter_some, Option.filter_some, h agent hmem hid]

omit [DecidableEq κ] in
/-- An eviction of a stored agent says that it is gone if it was listed. -/
theorem evictCachedOwnedAgent_eq {agentId time : String} {previous : Agent δ κ}
    (hget : s.agents.get? agentId = some previous) :
    s.evictCachedOwnedAgent cfg agentId time =
      ((s.replaceAgents cfg (s.agents.delete agentId)).announce
        (if (lookupFields (s.list cfg) agentId).isSome then [.removed agentId] else [])
        time).announceContexts
          (if contextState cfg previous = "unsupported" then [] else [(agentId, none)]) time := by
  let next := s.replaceAgents cfg (s.agents.delete agentId)
  have hany : ∀ u : AgentStore δ κ, ((u.list cfg).any fun agent => agent.id = agentId) =
      (lookupFields (u.list cfg) agentId).isSome := fun u => by
    rw [lookupFields, Option.isSome_map, List.isSome_find?]
  have hgone : lookupFields (next.list cfg) agentId = none := by
    rw [lookupFields_list]
    change (((s.agents.delete agentId).get? agentId).filter _).map _ = _
    rw [InsertionMap.get?_delete, if_pos rfl]
    rfl
  have hremoved : ((s.list cfg).any (fun agent => agent.id = agentId) &&
      !(next.list cfg).any fun agent => agent.id = agentId) =
        (lookupFields (s.list cfg) agentId).isSome := by
    rw [hany, hany, hgone]
    exact Bool.and_true _
  rw [evictCachedOwnedAgent, hget]
  dsimp only
  rw [hremoved]

omit [DecidableEq κ] in
/-- An eviction counts where its agent was listed. -/
theorem revision_evictCachedOwnedAgent (agentId time : String) :
    (s.evictCachedOwnedAgent cfg agentId time).revision ≠ s.revision ↔
      (lookupFields (s.list cfg) agentId).isSome := by
  cases hget : s.agents.get? agentId with
  | none =>
    have hsame : s.evictCachedOwnedAgent cfg agentId time = s := by rw [evictCachedOwnedAgent, hget]
    rw [hsame, lookupFields_list, hget]
    exact iff_of_false (fun h => h rfl) nofun
  | some previous =>
    let next := s.replaceAgents cfg (s.agents.delete agentId)
    rw [evictCachedOwnedAgent_eq cfg s hget]
    change (next.announce _ time).revision ≠ next.revision ↔ _
    rw [revision_announce]
    cases (lookupFields (s.list cfg) agentId).isSome <;> simp

omit [DecidableEq κ] in
/-- What a client knows after an eviction. -/
theorem replay_evictCachedOwnedAgent (hreplay : replay s.events = lookupFields (s.list cfg))
    (agentId time : String) : replay (s.evictCachedOwnedAgent cfg agentId time).events =
      Function.update (lookupFields (s.list cfg)) agentId none := by
  cases hget : s.agents.get? agentId with
  | none =>
    have hsame : s.evictCachedOwnedAgent cfg agentId time = s := by rw [evictCachedOwnedAgent, hget]
    rw [hsame, hreplay, eq_comm, Function.update_eq_self_iff, lookupFields_list, hget]
    rfl
  | some previous =>
    rw [evictCachedOwnedAgent_eq cfg s hget, replay_announceContexts, replay_announce]
    change List.foldl _ (replay s.events) _ = _
    rw [hreplay]
    split
    · rfl
    · next hhidden =>
      -- nothing is said of an agent that was not listed
      rw [Option.not_isSome_iff_eq_none] at hhidden
      exact (Function.update_eq_self_iff.mpr hhidden.symm).symm

omit [DecidableEq κ] in
/-- An eviction says that its agent is gone, and no more. -/
theorem follows_evictCachedOwnedAgent_iff (hreplay : replay s.events = lookupFields (s.list cfg))
    (agentId time : String) : s.Follows cfg (s.evictCachedOwnedAgent cfg agentId time) ↔
      s.Unaffected agentId (s.agents.delete agentId) := by
  have hagents := agents_evictCachedOwnedAgent cfg s agentId time
  have hgone : lookupFields ((s.evictCachedOwnedAgent cfg agentId time).list cfg) agentId = none := by
    rw [lookupFields_list, hagents, InsertionMap.get?_delete, if_pos rfl]
    rfl
  have hother : ∀ other ≠ agentId, (s.evictCachedOwnedAgent cfg agentId time).agents.get? other =
      s.agents.get? other := fun other hne => by
    rw [hagents, InsertionMap.get?_delete, if_neg hne]
  have hlaw := lookupFields_eq_update_iff cfg s _ hother hgone
  rw [hagents] at hlaw
  rw [Follows, replay_evictCachedOwnedAgent cfg s hreplay, hlaw]
  refine and_iff_left_of_imp fun hlocal => ?_
  rw [revision_evictCachedOwnedAgent, ne_eq, listFields_eq_iff, ← hlaw.mpr hlocal,
    Function.update_eq_self_iff]
  cases lookupFields (s.list cfg) agentId <;> simp

omit [DecidableEq κ] in
/-- A restoration says that its agent is new. -/
theorem follows_restoreCachedOwnedAgent_iff (hreplay : replay s.events = lookupFields (s.list cfg))
    (record : OwnedLaunch) (adapterId : Option String) (cached : Agent δ κ) (time : String) :
    s.Follows cfg (s.restoreCachedOwnedAgent cfg record adapterId cached time) ↔
      (¬(cached.id ≠ record.agentId ∨ cached.provider ≠ record.provider ∨
          some cached.source ≠ adapterId ∨ s.agents.has cached.id) →
        isListed (s.agents.set { cached with updatedAt := some time }).values
            { cached with updatedAt := some time } = true ∧
          s.Unaffected cached.id (s.agents.set { cached with updatedAt := some time })) := by
  unfold restoreCachedOwnedAgent
  split
  · next hguard =>
    exact iff_of_true (follows_self cfg s hreplay) fun h => absurd hguard h
  · next hguard =>
    rw [imp_iff_right hguard]
    let restored : Agent δ κ := { cached with updatedAt := some time }
    let next := s.replaceAgents cfg (s.agents.set restored)
    have hnew : s.agents.get? cached.id = none := by
      push Not at hguard
      simpa [InsertionMap.has] using hguard.2.2.2
    have hother : ∀ other ≠ cached.id, next.agents.get? other = s.agents.get? other :=
      fun other hne => (InsertionMap.get?_set s.agents restored other).trans (if_neg hne)
    have hself : lookupFields (next.list cfg) cached.id =
        if isListed (s.agents.set restored).values restored then some restored.toAgentFields
        else none := by
      rw [lookupFields_list]
      change (((s.agents.set restored).get? cached.id).filter
        (isListed (s.agents.set restored).values)).map _ = _
      rw [InsertionMap.get?_set, if_pos rfl, Option.filter_some]
      cases isListed (s.agents.set restored).values restored <;> rfl
    have hbefore : lookupFields (s.list cfg) cached.id = none := by
      rw [lookupFields_list, hnew]
      rfl
    have hfollows : s.Follows cfg (((next.announce [.discovered restored] time).announceContexts
          (if contextState cfg restored = "unsupported" then []
            else [(restored.id, some (contextState cfg restored))]) time)) ↔
        Function.update (lookupFields (s.list cfg)) cached.id (some restored.toAgentFields) =
          lookupFields (next.list cfg) := by
      rw [Follows, replay_announceContexts, replay_announce]
      change List.foldl _ (replay s.events) _ = lookupFields (next.list cfg) ∧ _ ↔ _
      rw [hreplay]
      refine and_iff_left_of_imp fun hlist => iff_of_true ?_ ?_
      · exact Nat.succ_ne_self s.revision
      · rw [ne_eq, listFields_eq_iff]
        change ¬lookupFields (next.list cfg) = _
        have hupdate : Function.update (lookupFields (s.list cfg)) cached.id
          (some restored.toAgentFields) = lookupFields (next.list cfg) := hlist
        rw [← hupdate, Function.update_eq_self_iff, hbefore]
        exact Option.some_ne_none _
    refine hfollows.trans ⟨fun hlist => ?_, fun h => ?_⟩
    · have hshown := congrFun hlist cached.id
      rw [Function.update_self, hself] at hshown
      split at hshown
      · next hlisted =>
        rw [if_pos hlisted] at hself
        exact ⟨hlisted, (lookupFields_eq_update_iff cfg s next hother hself).mp hlist⟩
      · cases hshown
    · obtain ⟨hlisted, hlocal⟩ := h
      rw [if_pos hlisted] at hself
      exact (lookupFields_eq_update_iff cfg s next hother hself).mpr hlocal

/-- A change that neither hides nor reveals another agent than the one it is about. -/
def Local : Move δ κ → Prop
  | .evict agentId _ => s.Unaffected agentId (s.agents.delete agentId)
  | .restore record adapterId cached time =>
    ¬(cached.id ≠ record.agentId ∨ cached.provider ≠ record.provider ∨
        some cached.source ≠ adapterId ∨ s.agents.has cached.id) →
      isListed (s.agents.set { cached with updatedAt := some time }).values
          { cached with updatedAt := some time } = true ∧
        s.Unaffected cached.id (s.agents.set { cached with updatedAt := some time })
  | .outcome .. | .history .. => True

/-- The events follow the list over a change just where it is local. -/
theorem follows_move_iff (hreplay : replay s.events = lookupFields (s.list cfg))
    (move : Move δ κ) : s.Follows cfg (s.move cfg move) ↔ s.Local move := by
  cases move with
  | outcome adapterId report time =>
    exact iff_of_true (follows_applyOutcome cfg s hreplay adapterId report time) trivial
  | evict agentId time => exact follows_evictCachedOwnedAgent_iff cfg s hreplay agentId time
  | restore record adapterId cached time =>
    exact follows_restoreCachedOwnedAgent_iff cfg s hreplay record adapterId cached time
  | history results time => exact iff_of_true (follows_loadHistory cfg s hreplay results time) trivial

end Moves

end AgentStore

/-! ### Runs -/

namespace Registry

variable [DecidableEq δ] [DecidableEq κ]

/-- A step whose change of the store, if it makes one, is local. -/
def LocalStep (cfg : RegistryConfig δ κ) (s : Registry δ κ) (move : RegistryMove δ κ) : Prop :=
  ∀ change, s.storeMove cfg move = some change → s.store.Local change

theorem follows_step_iff {cfg : RegistryConfig δ κ} {s s' : Registry δ κ} {move : RegistryMove δ κ}
    (hreplay : replay s.store.events = lookupFields (s.store.list cfg))
    (h : s.step cfg move = some s') : s.store.Follows cfg s'.store ↔ s.LocalStep cfg move := by
  rw [store_step h, LocalStep]
  cases s.storeMove cfg move with
  | none =>
    refine iff_of_true (AgentStore.follows_self cfg s.store hreplay) fun change hchange => ?_
    cases hchange
  | some change =>
    refine (AgentStore.follows_move_iff cfg s.store hreplay change).trans ?_
    exact ⟨fun hlocal _ he => Option.some.inj he ▸ hlocal, fun hlocal => hlocal change rfl⟩

end Registry

open Registry

/-- **The events refine the list.** Over a list of moves of a registry the events lead, after every
    step, to the list by its compared fields, and the revision changes just where that list does, if
    and only if no step evicts or restores an owned agent so that another stored agent is hidden or
    revealed, or the restored one is not listed. -/
theorem event_stream_refines_list [DecidableEq δ] [DecidableEq κ] (cfg : RegistryConfig δ κ)
    (moves : List (RegistryMove δ κ)) :
    (system cfg).AllSteps
        (fun s move => ∀ s', s.step cfg move = some s' → s.store.Follows cfg s'.store)
        Registry.empty moves ↔
      (system cfg).AllSteps (fun s move => s.LocalStep cfg move) Registry.empty moves := by
  have hiff : ∀ (s : Registry δ κ) move s', replay s.store.events = lookupFields (s.store.list cfg) →
      s.step cfg move = some s' →
      ((∀ t, s.step cfg move = some t → s.store.Follows cfg t.store) ↔ s.LocalStep cfg move) := by
    intro s move s' hreplay hstep
    constructor
    · exact fun hfollows => (follows_step_iff hreplay hstep).mp (hfollows s' hstep)
    · exact fun hlocal t ht => (follows_step_iff hreplay ht).mpr hlocal
  refine TransitionSystem.allSteps_iff
    (I := fun s : Registry δ κ => replay s.store.events = lookupFields (s.store.list cfg))
    hiff (fun s move s' hreplay hlocal hstep => ?_) ?_ moves
  · exact ((follows_step_iff hreplay hstep).mpr hlocal).1
  · rfl

/-- A registry of processes and of owned agents. -/
def processConfig : RegistryConfig Unit Unit where
  adapters := .ofValues _
    [{ id := "process" }, { id := "cursor-sdk", launchCapable := true, discoversOwned := true }]
  dateParse := fun _ => none
  localeCompare := compare
  normalizeRepositoryContext := id
  contextState := fun _ => "unsupported"

/-- The record of a process. -/
def processRecord : Agent Unit Unit where
  id := "process:cursor:7"
  provider := "cursor"
  source := "process"
  pid := some 7
  discovery := some { kind := .process, visibility := some .active }
  details := ()
  repositoryContext := ()

/-- The owned agent that runs in it. -/
def ownedAgent : Agent Unit Unit where
  id := "cursor-sdk:1"
  provider := "cursor"
  source := "cursor-sdk"
  pid := some 7
  details := ()
  repositoryContext := ()

/-- An owned agent comes back, and its process is found and hidden. -/
def hiddenProcessRun : List (RegistryMove Unit Unit) :=
  [.changeProvider "cursor-sdk" (some "cursor"),
    .activateOwnedLaunch ⟨"launch", "cursor", "cursor-sdk:1", by decide⟩ (some ownedAgent) "",
    .refresh true fun _ => 0, .discovered 0 (some [processRecord]), .resume "process" .flight,
    .conclude "process" true 0 ""]

/-- Once the owned agent goes the process record is listed again, and no event says so. -/
theorem eviction_reveals_duplicate : ∃ s s',
    (system processConfig).run Registry.empty hiddenProcessRun = some s ∧
    s.step processConfig (.deactivateOwnedLaunch "launch" "") = some s' ∧
    lookupFields (s'.store.list processConfig) processRecord.id = some processRecord.toAgentFields ∧
    replay s'.store.events processRecord.id = none ∧ ¬s.store.Follows processConfig s'.store := by
  have hrun : ∃ s s', (system processConfig).run Registry.empty hiddenProcessRun = some s ∧
      s.step processConfig (.deactivateOwnedLaunch "launch" "") = some s' ∧
      lookupFields (s'.store.list processConfig) processRecord.id =
        some processRecord.toAgentFields ∧
      replay s'.store.events processRecord.id = none :=
    ⟨_, _, rfl, rfl, rfl, rfl⟩
  obtain ⟨s, s', hs, hs', hlisted, hknown⟩ := hrun
  refine ⟨s, s', hs, hs', hlisted, hknown, fun hfollows => ?_⟩
  rw [hfollows.1, hlisted] at hknown
  cases hknown

end AgentHost
