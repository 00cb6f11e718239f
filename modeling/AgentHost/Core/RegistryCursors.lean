import AgentHost.Core.AgentPages
import AgentHost.Core.RegistryEvents

namespace AgentHost

/-!
# The revisions that page cursors carry

When two lists of a view with the same `cursorRevision` have the same pages.

* `markedAgent`, `isDuplicate` — what `reconcileAgents` makes of an agent of a list.
* `AgentStore.Matched` — the histories under the live agents of two stores look the same, as far as a
  view shows them.
* `AgentStore.Steady` — a change of the store without an effect on a view that its comparisons miss.
* `cursor_revision_soundness` — over steady steps equal revisions have equal pages.
-/

variable {δ κ : Type}

/-! ### Process records that another agent stands for -/

/-- Whether another agent of a list stands for an agent. -/
def isDuplicate (agents : List (Agent δ κ)) (agent : Agent δ κ) : Bool :=
  (duplicateOf agents agent).isSome

/-- An agent of a list with duplicates. -/
def markedAgent (agents : List (Agent δ κ)) (agent : Agent δ κ) : Agent δ κ :=
  (duplicateOf agents agent).elim agent (markDuplicate agent)

theorem reconcileAgents_true (agents : List (Agent δ κ)) :
    reconcileAgents agents true = agents.map (markedAgent agents) := by
  rw [← List.filterMap_eq_map]
  refine List.filterMap_congr fun agent _ => ?_
  simp only [reconcileAgent, markedAgent, Function.comp_apply]
  cases duplicateOf agents agent <;> rfl

theorem id_markedAgent (agents : List (Agent δ κ)) (agent : Agent δ κ) :
    (markedAgent agents agent).id = agent.id := by
  unfold markedAgent
  cases duplicateOf agents agent <;> rfl

section Duplicates

variable {agents agents' : List (Agent δ κ)} {a a' : Agent δ κ}

/-- Which agent stands for a process is told by the compared fields of the agents. -/
theorem richByProcess_congr (h : agents.map Agent.toAgentFields = agents'.map Agent.toAgentFields)
    (key : String × Nat) : richByProcess agents key = richByProcess agents' key := by
  have hfields : ∀ agents : List (Agent δ κ), richByProcess agents key =
      (((agents.map Agent.toAgentFields).filter fun agent =>
        !agent.isProcess && agent.processKey == some key).getLast?.map
          fun agent => agent.id).filter (· ≠ "") := by
    intro agents
    rw [List.filter_map, List.getLast?_map, Option.map_map]
    rfl
  rw [hfields, hfields, h]

theorem duplicateOf_congr (h : agents.map Agent.toAgentFields = agents'.map Agent.toAgentFields)
    (hfields : a.toAgentFields = a'.toAgentFields) : duplicateOf agents a = duplicateOf agents' a' := by
  unfold duplicateOf
  rw [hfields]
  split
  · exact congrArg _ (funext (richByProcess_congr h))
  · rfl

/-- A record that is raw already looks the same when it is marked. -/
theorem shown_markDuplicate_of_raw (hraw : a.visibility? = some .raw) (id : String) :
    (markDuplicate a id).shown = a.shown := by
  obtain ⟨⟨_, _, _, _, _, _, _, _, _, discovery, _⟩, _, _, _⟩ := a
  cases discovery with
  | none => cases hraw
  | some discovery =>
    obtain ⟨kind, visibility, duplicate⟩ := discovery
    cases hraw
    rfl

/-- How a record looks when it is marked does not depend on the agent that stands for it. -/
theorem shown_markDuplicate (h : a.shown = a'.shown) (id id' : String) :
    (markDuplicate a id).shown = (markDuplicate a' id').shown := by
  have hmark : ∀ (agent : Agent δ κ) (id : String), (markDuplicate agent id).shown =
      ({ agent.shown.1 with
          discovery := agent.shown.1.discovery.map fun discovery =>
            { discovery with visibility := some .raw } }, agent.shown.2) := by
    intro agent id
    obtain ⟨⟨_, _, _, _, _, _, _, _, _, discovery, _⟩, _, _, _⟩ := agent
    cases discovery <;> rfl
  rw [hmark, hmark, h]

/-- Records that look the same do so when they are marked, if both are, or are raw already. -/
theorem shown_markedAgent (h : a.shown = a'.shown)
    (hduplicate : a.visibility? ≠ some .raw → isDuplicate agents a = isDuplicate agents' a') :
    (markedAgent agents a).shown = (markedAgent agents' a').shown := by
  have hvisibility : a.visibility? = a'.visibility? := by
    rw [← AgentFields.visibility?_withoutDuplicateOf, ← a'.visibility?_withoutDuplicateOf]
    exact congrArg (fun p => p.1.visibility?) h
  by_cases hraw : a.visibility? = some .raw
  · have hself : ∀ {agents : List (Agent δ κ)} {agent : Agent δ κ}, agent.visibility? = some .raw →
        (markedAgent agents agent).shown = agent.shown := by
      intro agents agent hraw
      unfold markedAgent
      cases duplicateOf agents agent with
      | none => rfl
      | some id => exact shown_markDuplicate_of_raw hraw id
    rw [hself hraw, hself (hvisibility ▸ hraw), h]
  · have hboth := hduplicate hraw
    unfold isDuplicate at hboth
    unfold markedAgent
    cases hd : duplicateOf agents a with
    | none =>
      rw [hd, eq_comm, Option.isSome_none, Option.isSome_eq_false_iff,
        Option.isNone_iff_eq_none] at hboth
      rw [hboth]
      exact h
    | some id =>
      rw [hd, eq_comm, Option.isSome_some, Option.isSome_iff_exists] at hboth
      obtain ⟨id', hid'⟩ := hboth
      rw [hid']
      exact shown_markDuplicate h id id'

theorem shown_congr (hfields : a.toAgentFields = a'.toAgentFields)
    (hactivity : a.activityAt = a'.activityAt) : a.shown = a'.shown := by
  rw [Agent.shown, Agent.shown, hfields, hactivity]

end Duplicates

namespace AgentStore

variable (cfg : RegistryConfig δ κ) (s t : AgentStore δ κ)

/-! ### What the lists hold -/

theorem mem_listRaw {a : Agent δ κ} :
    a ∈ s.listRaw cfg ↔ ∃ x ∈ s.agents.values, markedAgent s.agents.values x = a := by
  rw [listRaw, sortAgents, mem_sortBy, reconcileAgents_true, List.mem_map]

theorem distinctIds_sortAgents {l : List (Agent δ κ)} (h : DistinctIds l) :
    DistinctIds (sortAgents cfg l) := ((perm_sortBy _ l).map _).nodup_iff.mpr h

theorem distinctIds_reconcileAgents_true {l : List (Agent δ κ)} (h : DistinctIds l) :
    DistinctIds (reconcileAgents l true) := by
  rw [reconcileAgents_true, DistinctIds, List.map_map]
  exact (List.map_congr_left fun agent _ => id_markedAgent l agent) ▸ h

theorem distinctIds_listRaw : DistinctIds (s.listRaw cfg) :=
  distinctIds_sortAgents cfg (distinctIds_reconcileAgents_true s.agents.nodup)

theorem mem_combined {a : Agent δ κ} : a ∈ s.combined cfg ↔
    a ∈ s.listRaw cfg ∨ a ∈ s.historyAgents.values ∧ ∀ x ∈ s.agents.values, x.id ≠ a.id := by
  rw [combined, InsertionMap.mem_setAll_iff (distinctIds_listRaw cfg s)]
  refine or_congr_right (and_congr_right fun _ => ?_)
  simp only [mem_listRaw, forall_exists_index, and_imp, forall_apply_eq_imp_iff₂, id_markedAgent]

theorem distinctIds_combined : DistinctIds (s.combined cfg) :=
  (s.historyAgents.setAll (s.listRaw cfg)).nodup

/-- What a view lists has different ids. -/
theorem distinctIds_listView (view : Visibility) : DistinctIds (s.listView cfg view).1 := by
  have hfilter : ∀ {l : List (Agent δ κ)} (p : Agent δ κ → Bool), DistinctIds l →
      DistinctIds (l.filter p) := fun p h => h.sublist (List.filter_sublist.map _)
  cases view with
  | active | recent => exact hfilter _ (distinctIds_list cfg s)
  | historical =>
    refine distinctIds_sortAgents cfg (hfilter _ ?_)
    rw [reconcileAgents_false]
    exact hfilter _ (distinctIds_combined cfg s)
  | raw => exact distinctIds_sortAgents cfg (distinctIds_reconcileAgents_true (distinctIds_combined cfg s))

/-- What a view lists is in the order of `compareAgents`. -/
theorem pairwise_listView (view : Visibility) : (s.listView cfg view).1.Pairwise fun a b =>
    (compareAgents cfg.dateParse a.toAgentFields b.toAgentFields).isLE := by
  have hsort : ∀ l : List (Agent δ κ), (sortAgents cfg l).Pairwise fun a b =>
      (compareAgents cfg.dateParse a.toAgentFields b.toAgentFields).isLE := fun l =>
    pairwise_sortBy (fun a b : Agent δ κ =>
      compareAgents cfg.dateParse a.toAgentFields b.toAgentFields) l
  cases view with
  | active | recent => exact (hsort _).sublist List.filter_sublist
  | historical | raw => exact hsort _

/-- Lists of a view whose agents look the same are the same to the pages. -/
theorem shown_listView_eq {view : Visibility}
    (hst : ∀ a ∈ (s.listView cfg view).1, ∃ a' ∈ (t.listView cfg view).1, a'.shown = a.shown)
    (hts : ∀ a ∈ (t.listView cfg view).1, ∃ a' ∈ (s.listView cfg view).1, a'.shown = a.shown) :
    (s.listView cfg view).1.map Agent.shown = (t.listView cfg view).1.map Agent.shown := by
  let le := fun p q : AgentFields δ × Option String => (compareAgents cfg.dateParse p.1 q.1).isLE = true
  have hnodup : ∀ u : AgentStore δ κ,
      (((u.listView cfg view).1.map Agent.shown).map fun p => p.1.id).Nodup := fun u => by
    rw [List.map_map]
    exact distinctIds_listView cfg u view
  have hsorted : ∀ u : AgentStore δ κ, ((u.listView cfg view).1.map Agent.shown).Pairwise le := by
    intro u
    rw [List.pairwise_map]
    refine (pairwise_listView cfg u view).imp fun {a b} h => ?_
    exact (congrArg Ordering.isLE (compareAgents_withoutDuplicateOf cfg.dateParse _ _)).trans h
  have hsub : ∀ {u v : AgentStore δ κ},
      (∀ a ∈ (u.listView cfg view).1, ∃ a' ∈ (v.listView cfg view).1, a'.shown = a.shown) →
      ∀ p ∈ (u.listView cfg view).1.map Agent.shown, p ∈ (v.listView cfg view).1.map Agent.shown := by
    intro u v h p hp
    obtain ⟨a, ha, rfl⟩ := List.mem_map.mp hp
    obtain ⟨a', ha', heq⟩ := h a ha
    exact heq ▸ List.mem_map_of_mem ha'
  have hperm := (List.perm_ext_iff_of_nodup (hnodup s).of_map (hnodup t).of_map).mpr
    fun p => ⟨hsub hst p, hsub hts p⟩
  refine List.Perm.eq_of_pairwise (fun p q hp hq hpq hqp => ?_) (hsorted s) (hsorted t) hperm
  -- the order tells different ids apart
  have hid := id_eq_of_compareAgents cfg.dateParse (Std.OrientedCmp.isLE_antisymm hpq hqp)
  exact List.inj_on_of_nodup_map (hnodup s) hp (hperm.mem_iff.mpr hq) hid

/-! ### Stores that look the same -/

section Matched

variable {cfg s t}

theorem exists_of_rawFields (h : s.rawFields cfg = t.rawFields cfg) {a : Agent δ κ}
    (ha : a ∈ s.listRaw cfg) : ∃ a' ∈ t.listRaw cfg, a'.toAgentFields = a.toAgentFields := by
  have hmem : a.toAgentFields ∈ s.rawFields cfg := List.mem_map_of_mem ha
  rw [h] at hmem
  exact List.mem_map.mp hmem

/-- The histories under the live agents of one store have, as far as `P` says, the records of those
    of another; none is a duplicate in the one only. -/
def Matched (cfg : RegistryConfig δ κ) (P : Agent δ κ → Prop) (s t : AgentStore δ κ) : Prop :=
  ∀ a ∈ s.combined cfg, P a → ∃ a' ∈ t.combined cfg, a'.toAgentFields = a.toAgentFields ∧
    a'.activityAt = a.activityAt ∧
    (a.visibility? ≠ some .raw →
      isDuplicate (s.combined cfg) a = isDuplicate (t.combined cfg) a')

theorem visibility?_of_historical {a : AgentFields δ} (h : a.matchesView .historical = true) :
    a.visibility? = some .historical := by
  rw [AgentFields.matchesView, beq_iff_eq, AgentFields.visibility] at h
  cases hv : a.visibility? with
  | some visibility => rw [hv] at h; exact congrArg some h
  | none =>
    rw [hv, Option.getD_none] at h
    split at h <;> cases h

theorem mem_listView_historical {a : Agent δ κ} : a ∈ (s.listView cfg .historical).1 ↔
    a ∈ s.combined cfg ∧ isDuplicate (s.combined cfg) a = false ∧
      a.matchesView .historical = true := by
  change a ∈ sortAgents cfg (List.filter _ _) ↔ _
  rw [sortAgents, mem_sortBy, reconcileAgents_false, List.mem_filter, List.mem_filter, and_assoc]
  refine and_congr_right fun _ => and_congr_left fun hview => ?_
  rw [isListed, isDuplicate, visibility?_of_historical hview]
  cases duplicateOf (s.combined cfg) a <;> simp

/-- Stores that match in what the historical view shows. -/
theorem Matched.historical (h : Matched cfg (fun a => a.matchesView .historical = true) s t) :
    ∀ a ∈ (s.listView cfg .historical).1, ∃ a' ∈ (t.listView cfg .historical).1,
      a'.shown = a.shown := by
  intro a ha
  obtain ⟨hmem, hduplicate, hview⟩ := mem_listView_historical.mp ha
  obtain ⟨a', ha', hfields, hactivity, hsame⟩ := h a hmem hview
  refine ⟨a', mem_listView_historical.mpr ⟨ha', ?_, ?_⟩, shown_congr hfields hactivity⟩
  · rw [← hsame (by rw [visibility?_of_historical hview]; decide), hduplicate]
  · rw [hfields]
    exact hview

/-- Stores that match in everything. -/
theorem Matched.raw (h : Matched cfg (fun _ => True) s t) :
    ∀ a ∈ (s.listView cfg .raw).1, ∃ a' ∈ (t.listView cfg .raw).1, a'.shown = a.shown := by
  have hmem : ∀ {u : AgentStore δ κ} {a : Agent δ κ}, a ∈ (u.listView cfg .raw).1 ↔
      ∃ x ∈ u.combined cfg, markedAgent (u.combined cfg) x = a := by
    intro u a
    change a ∈ sortAgents cfg _ ↔ _
    rw [sortAgents, mem_sortBy, reconcileAgents_true, List.mem_map]
  intro a ha
  obtain ⟨x, hx, rfl⟩ := hmem.mp ha
  obtain ⟨x', hx', hfields, hactivity, hsame⟩ := h x hx trivial
  refine ⟨_, hmem.mpr ⟨x', hx', rfl⟩, ?_⟩
  exact (shown_markedAgent (shown_congr hfields hactivity).symm hsame).symm

/-- Matching in everything is matching in what the historical view shows. -/
theorem Matched.of_true {P : Agent δ κ → Prop} (h : Matched cfg (fun _ => True) s t) :
    Matched cfg P s t := fun a ha _ => h a ha trivial

theorem activityAt_congr {a a' : Agent δ κ} (hfields : a'.toAgentFields = a.toAgentFields)
    (hupdated : a.lastActivityAt = none → a'.updatedAt = a.updatedAt) :
    a'.activityAt = a.activityAt := by
  unfold Agent.activityAt
  rw [hfields]
  cases hlast : a.lastActivityAt with
  | some _ => rfl
  | none => rw [hupdated hlast]

theorem lastActivityAt_markedAgent (agents : List (Agent δ κ)) (a : Agent δ κ) :
    (markedAgent agents a).lastActivityAt = a.lastActivityAt := by
  unfold markedAgent
  cases duplicateOf agents a <;> rfl

theorem updatedAt_markedAgent (agents : List (Agent δ κ)) (a : Agent δ κ) :
    (markedAgent agents a).updatedAt = a.updatedAt := by
  unfold markedAgent
  cases duplicateOf agents a <;> rfl

/-- A marked agent that is not raw was not marked. -/
theorem markedAgent_eq_self {agents : List (Agent δ κ)} {a : Agent δ κ}
    (h : (markedAgent agents a).visibility? ≠ some .raw) : markedAgent agents a = a := by
  unfold markedAgent at h ⊢
  cases hd : duplicateOf agents a with
  | none => rfl
  | some id =>
    rw [hd] at h
    unfold duplicateOf at hd
    split at hd
    · next hprocess =>
      rw [AgentFields.isProcess] at hprocess
      cases hdiscovery : a.discovery with
      | none => rw [hdiscovery] at hprocess; cases hprocess
      | some discovery =>
        refine absurd ?_ h
        simp [AgentFields.visibility?, markDuplicate, hdiscovery]
    · cases hd

/-- Where the raw list keeps its compared fields, and its agents without an activity their times, all
    records match. -/
theorem matched_of_rawFields (hhistory : s.historyAgents = t.historyAgents)
    (hraw : s.rawFields cfg = t.rawFields cfg)
    (hkept : ∀ x ∈ s.agents.values, ∀ x' ∈ t.agents.values, x'.id = x.id →
      x.lastActivityAt = none → x'.lastActivityAt = none → x'.updatedAt = x.updatedAt) :
    Matched cfg (fun _ => True) s t := by
  have hcombined : (s.combined cfg).map Agent.toAgentFields =
      (t.combined cfg).map Agent.toAgentFields :=
    InsertionMap.map_values_setAll_congr (f := Agent.toAgentFields)
      (fun _ _ h => congrArg AgentFields.id h) (by rw [hhistory]) hraw
  have hsame : ∀ {a a' : Agent δ κ}, a'.toAgentFields = a.toAgentFields →
      isDuplicate (s.combined cfg) a = isDuplicate (t.combined cfg) a' := fun h => by
    rw [isDuplicate, isDuplicate, duplicateOf_congr hcombined h.symm]
  intro a ha _
  rcases (mem_combined cfg s).mp ha with hlive | ⟨hold, hfree⟩
  · obtain ⟨a', ha', hfields⟩ := exists_of_rawFields hraw hlive
    refine ⟨a', (mem_combined cfg t).mpr (.inl ha'), hfields, ?_, fun _ => hsame hfields⟩
    obtain ⟨x, hx, rfl⟩ := (mem_listRaw cfg s).mp hlive
    obtain ⟨x', hx', rfl⟩ := (mem_listRaw cfg t).mp ha'
    have hid := congrArg AgentFields.id hfields
    have hlast := congrArg AgentFields.lastActivityAt hfields
    rw [id_markedAgent, id_markedAgent] at hid
    rw [lastActivityAt_markedAgent, lastActivityAt_markedAgent] at hlast
    refine activityAt_congr hfields fun hnone => ?_
    rw [lastActivityAt_markedAgent] at hnone
    rw [updatedAt_markedAgent, updatedAt_markedAgent]
    exact hkept x hx x' hx' hid hnone (hlast.trans hnone)
  · refine ⟨a, (mem_combined cfg t).mpr (.inr ⟨hhistory ▸ hold, fun x' hx' hid => ?_⟩), rfl, rfl,
      fun _ => hsame rfl⟩
    -- a live agent of that id would be in both raw lists
    obtain ⟨b, hb, hfields⟩ := exists_of_rawFields hraw.symm ((mem_listRaw cfg t).mpr ⟨x', hx', rfl⟩)
    obtain ⟨x, hx, rfl⟩ := (mem_listRaw cfg s).mp hb
    have hids := congrArg AgentFields.id hfields
    rw [id_markedAgent, id_markedAgent] at hids
    exact hfree x hx (hids.trans hid)

/-- Where the overlay of the history keeps its compared fields, its agents their times, and no
    historical record becomes or ceases to be a duplicate, the historical records match. -/
theorem matched_of_overlay (hhistory : s.historyAgents = t.historyAgents)
    (hoverlay : s.overlay cfg = t.overlay cfg)
    (hkept : ∀ x ∈ s.agents.values, ∀ x' ∈ t.agents.values,
      x'.toAgentFields = x.toAgentFields → x'.updatedAt = x.updatedAt)
    (hcover : ∀ a ∈ s.combined cfg, a.matchesView .historical = true → ∀ a' ∈ t.combined cfg,
      a'.toAgentFields = a.toAgentFields →
      isDuplicate (s.combined cfg) a = isDuplicate (t.combined cfg) a') :
    Matched cfg (fun a => a.matchesView .historical = true) s t := by
  have hmem : ∀ {u : AgentStore δ κ} {fields : AgentFields δ}, fields ∈ u.overlay cfg ↔
      (∃ a ∈ u.listRaw cfg, a.toAgentFields = fields) ∧
        (u.historyAgents.has fields.id || fields.matchesView .historical) = true := by
    intro u fields
    rw [overlay, historyOverlay, List.mem_filter, rawFields, List.mem_map]
  intro a ha hview
  rcases (mem_combined cfg s).mp ha with hlive | ⟨hold, hfree⟩
  · have hover := hmem.mpr ⟨⟨a, hlive, rfl⟩, by rw [hview, Bool.or_true]⟩
    rw [hoverlay] at hover
    obtain ⟨⟨a', ha', hfields⟩, -⟩ := hmem.mp hover
    have hmem' := (mem_combined cfg t).mpr (.inl ha')
    refine ⟨a', hmem', hfields, ?_, fun _ => hcover a ha hview a' hmem' hfields⟩
    obtain ⟨x, hx, rfl⟩ := (mem_listRaw cfg s).mp hlive
    obtain ⟨x', hx', rfl⟩ := (mem_listRaw cfg t).mp ha'
    -- what the historical view shows is not marked
    have hraw : (markedAgent s.agents.values x).visibility? ≠ some .raw := by
      rw [visibility?_of_historical hview]
      decide
    have hraw' : (markedAgent t.agents.values x').visibility? ≠ some .raw := by rwa [hfields]
    rw [markedAgent_eq_self hraw, markedAgent_eq_self hraw'] at hfields ⊢
    exact activityAt_congr hfields fun _ => hkept x hx x' hx' hfields
  · have hmem' : a ∈ t.combined cfg := by
      refine (mem_combined cfg t).mpr (.inr ⟨hhistory ▸ hold, fun x' hx' hid => ?_⟩)
      -- a live agent with the id of a history record lies over it in both stores
      have hover : (markedAgent t.agents.values x').toAgentFields ∈ t.overlay cfg := by
        refine hmem.mpr ⟨⟨_, (mem_listRaw cfg t).mpr ⟨x', hx', rfl⟩, rfl⟩, ?_⟩
        have hhas : t.historyAgents.has a.id = true := by
          rw [InsertionMap.has, ← hhistory, InsertionMap.get?_of_mem hold]
          rfl
        rw [id_markedAgent, hid, hhas, Bool.true_or]
      rw [← hoverlay] at hover
      obtain ⟨⟨b, hb, hfields⟩, -⟩ := hmem.mp hover
      obtain ⟨x, hx, rfl⟩ := (mem_listRaw cfg s).mp hb
      have hids := congrArg AgentFields.id hfields
      rw [id_markedAgent, id_markedAgent] at hids
      exact hfree x hx (hids.trans hid)
    exact ⟨a, hmem', rfl, rfl, fun _ => hcover a ha hview a hmem' rfl⟩

/-- Where the histories keep their compared fields, their records without an activity their times, and
    no record becomes or ceases to be a duplicate, all records match. -/
theorem matched_of_history (hagents : s.agents = t.agents)
    (hfields : ∀ a ∈ s.historyAgents.values, ∃ a' ∈ t.historyAgents.values,
      a'.toAgentFields = a.toAgentFields)
    (hkept : ∀ a ∈ s.historyAgents.values, (∀ x ∈ s.agents.values, x.id ≠ a.id) →
      a.lastActivityAt = none → ∀ a' ∈ t.historyAgents.values, a'.id = a.id →
      a'.lastActivityAt = none → a'.updatedAt = a.updatedAt)
    (hcover : ∀ a ∈ s.combined cfg, a.visibility? ≠ some .raw → ∀ a' ∈ t.combined cfg,
      a'.toAgentFields = a.toAgentFields →
      isDuplicate (s.combined cfg) a = isDuplicate (t.combined cfg) a') :
    Matched cfg (fun _ => True) s t := by
  have hlists : t.listRaw cfg = s.listRaw cfg := by rw [listRaw, listRaw, hagents]
  intro a ha _
  rcases (mem_combined cfg s).mp ha with hlive | ⟨hold, hfree⟩
  · have hmem' := (mem_combined cfg t).mpr (.inl (hlists ▸ hlive))
    exact ⟨a, hmem', rfl, rfl, fun hraw => hcover a ha hraw a hmem' rfl⟩
  · obtain ⟨a', ha', hsame⟩ := hfields a hold
    have hid : a'.id = a.id := congrArg AgentFields.id hsame
    have hmem' := (mem_combined cfg t).mpr (.inr ⟨ha', by rw [← hagents, hid]; exact hfree⟩)
    refine ⟨a', hmem', hsame, ?_, fun hraw => hcover a ha hraw a' hmem' hsame⟩
    exact activityAt_congr hsame fun hnone => hkept a hold hfree hnone a' ha' hid (by rw [hsame, hnone])

end Matched

/-! ### Changes of the store -/

section Changes

variable [DecidableEq δ] [DecidableEq κ]

/-- No record of the histories under the live agents that `P` is about becomes or ceases to be a
    duplicate. -/
def CoverKept (P : Agent δ κ → Prop) : Prop :=
  ∀ a ∈ s.combined cfg, P a → ∀ a' ∈ t.combined cfg, a'.toAgentFields = a.toAgentFields →
    isDuplicate (s.combined cfg) a = isDuplicate (t.combined cfg) a'

/-- A change that has no effect on a view which the comparisons behind its revision do not see. -/
def Steady : Move δ κ → Prop
  | .outcome adapterId report time =>
    let t := s.applyOutcome cfg adapterId report time
    -- an outcome that the raw list does not show changes no stored agent that is listed by its update
    (s.rawFields cfg = t.rawFields cfg → ∀ x ∈ s.agents.values, x.lastActivityAt = none →
      ∀ x' ∈ (s.nextAgents cfg adapterId report).values, x'.id = x.id →
        x'.toAgentFields = x.toAgentFields) ∧
    (s.overlay cfg = t.overlay cfg → CoverKept cfg s t fun a => a.matchesView .historical = true)
  | .evict agentId time =>
    let t := s.evictCachedOwnedAgent cfg agentId time
    -- an eviction of what is not listed neither hides nor reveals another agent
    (lookupFields (s.list cfg) agentId = none → ∀ other ∈ s.agents.values, other.id ≠ agentId →
      other.matchesView .recent = true →
      isListed (s.agents.delete agentId).values other = isListed s.agents.values other) ∧
    (s.overlay cfg = t.overlay cfg → CoverKept cfg s t fun a => a.matchesView .historical = true)
  | .restore record adapterId cached time =>
    let t := s.restoreCachedOwnedAgent cfg record adapterId cached time
    s.overlay cfg = t.overlay cfg → CoverKept cfg s t fun a => a.matchesView .historical = true
  | .history results time =>
    -- histories that compare equal keep the updates by which their records are listed
    historyFields cfg s.historyAgents = historyFields cfg (s.mergedHistory results) →
      (∀ a ∈ s.historyAgents.values, (∀ x ∈ s.agents.values, x.id ≠ a.id) →
        a.lastActivityAt = none → ∀ a' ∈ (s.mergedHistory results).values, a'.id = a.id →
          a'.updatedAt = a.updatedAt) ∧
      CoverKept cfg s (s.loadHistory cfg results time) fun a => a.visibility? ≠ some .raw

/-- What a change of the live agents does to the store, but for the agents and the revision. -/
theorem move_cases (change : Move δ κ) :
    (∃ results time, change = .history results time) ∨ s.move cfg change = s ∨
    ∃ agents changes contexts time, s.move cfg change =
      ((s.replaceAgents cfg agents).announce changes time).announceContexts contexts time := by
  cases change with
  | outcome adapterId report time => exact .inr (.inr ⟨_, _, _, _, rfl⟩)
  | evict agentId time =>
    rw [move, evictCachedOwnedAgent]
    split
    · exact .inr (.inl rfl)
    · exact .inr (.inr ⟨_, _, _, _, rfl⟩)
  | restore record adapterId cached time =>
    rw [move, restoreCachedOwnedAgent]
    split
    · exact .inr (.inl rfl)
    · exact .inr (.inr ⟨_, _, _, _, rfl⟩)
  | history results time => exact .inl ⟨results, time, rfl⟩

/-- The counters do not go back. -/
def CountersLe (s t : AgentStore δ κ) : Prop :=
  s.revision ≤ t.revision ∧ s.rawRevision ≤ t.rawRevision ∧
    s.historyRevision ≤ t.historyRevision ∧ s.historyOverlayRevision ≤ t.historyOverlayRevision

omit [DecidableEq δ] [DecidableEq κ] in
theorem CountersLe.trans {s t u : AgentStore δ κ} (hst : CountersLe s t) (htu : CountersLe t u) :
    CountersLe s u := by
  unfold CountersLe at *
  omega

theorem countersLe_move (change : Move δ κ) : CountersLe s (s.move cfg change) := by
  have hcount : ∀ (P : Prop) [Decidable P] (n : Nat), n ≤ if P then n else n + 1 := by
    intro P _ n
    split
    · exact le_rfl
    · exact Nat.le_succ n
  rcases move_cases cfg s change with ⟨results, time, rfl⟩ | hsame | ⟨agents, changes, _, time, heq⟩
  · exact ⟨le_rfl, le_rfl, hcount _ _, le_rfl⟩
  · rw [hsame]
    exact ⟨le_rfl, le_rfl, le_rfl, le_rfl⟩
  · rw [heq]
    exact ⟨hcount _ _, hcount _ _, le_rfl, hcount _ _⟩

omit [DecidableEq δ] [DecidableEq κ] in
/-- Between two moments with the same revision of a view there is no other. -/
theorem cursorRevision_eq_of_between {s t u : AgentStore δ κ} {view : Visibility}
    (hst : CountersLe s t) (htu : CountersLe t u)
    (h : (s.listView cfg view).2 = (u.listView cfg view).2) :
    (s.listView cfg view).2 = (t.listView cfg view).2 := by
  obtain ⟨h1, h2, h3, h4⟩ := hst
  obtain ⟨h1', h2', h3', h4'⟩ := htu
  cases view <;> simp only [listView, CursorRevision.live.injEq, CursorRevision.history.injEq,
    CursorRevision.raw.injEq] at h ⊢ <;> omega

/-- A counter that stays says that its comparison saw no difference. -/
theorem eq_of_count {P : Prop} [Decidable P] {n : Nat} (h : (if P then n else n + 1) = n) : P := by
  by_contra hne
  rw [if_neg hne] at h
  exact Nat.succ_ne_self n h

/-- What stays behind the revisions that stay over a change of the live agents. -/
theorem fields_of_counters {change : Move δ κ}
    (hlive : ∀ results time, change ≠ .history results time) :
    (s.move cfg change).historyAgents = s.historyAgents ∧
    ((s.move cfg change).rawRevision = s.rawRevision →
      s.rawFields cfg = (s.move cfg change).rawFields cfg) ∧
    ((s.move cfg change).historyOverlayRevision = s.historyOverlayRevision →
      s.overlay cfg = (s.move cfg change).overlay cfg) := by
  rcases move_cases cfg s change with ⟨results, time, rfl⟩ | hsame | ⟨agents, changes, _, time, heq⟩
  · exact absurd rfl (hlive results time)
  · rw [hsame]
    exact ⟨rfl, fun _ => rfl, fun _ => rfl⟩
  · rw [heq]
    exact ⟨rfl, fun h => eq_of_count h, fun h => eq_of_count h⟩

/-- An agent that is reported with the fields it has keeps its time. -/
theorem updatedAt_settleAgent {previous agent : Agent δ κ} {time : String}
    (h : agent.toAgentFields = previous.toAgentFields) :
    (settleAgent cfg (some previous) time agent).updatedAt = previous.updatedAt := by
  simp only [settleAgent, h, ne_eq, not_true, if_false]
  split <;> rfl

/-- Agents that keep their fields keep their time, and so do those without an activity where a steady
    change leaves the raw list alone. -/
theorem updatedAt_move {change : Move δ κ} (hsteady : s.Steady cfg change) :
    (∀ x ∈ s.agents.values, ∀ x' ∈ (s.move cfg change).agents.values,
      x'.toAgentFields = x.toAgentFields → x'.updatedAt = x.updatedAt) ∧
    (s.rawFields cfg = (s.move cfg change).rawFields cfg → ∀ x ∈ s.agents.values,
      ∀ x' ∈ (s.move cfg change).agents.values, x'.id = x.id → x.lastActivityAt = none →
      x'.updatedAt = x.updatedAt) := by
  -- all but an outcome leave the agents that stay as they are
  have hstored : (∀ x ∈ s.agents.values, ∀ x' ∈ (s.move cfg change).agents.values,
      x'.id = x.id → x' = x) → (∀ x ∈ s.agents.values, ∀ x' ∈ (s.move cfg change).agents.values,
        x'.toAgentFields = x.toAgentFields → x'.updatedAt = x.updatedAt) ∧
      (s.rawFields cfg = (s.move cfg change).rawFields cfg → ∀ x ∈ s.agents.values,
        ∀ x' ∈ (s.move cfg change).agents.values, x'.id = x.id → x.lastActivityAt = none →
        x'.updatedAt = x.updatedAt) := fun h =>
    ⟨fun x hx x' hx' hf => by rw [h x hx x' hx' (congrArg AgentFields.id hf)],
      fun _ x hx x' hx' hid _ => by rw [h x hx x' hx' hid]⟩
  cases change with
  | outcome adapterId report time =>
    have hsettle : ∀ x ∈ s.agents.values, ∀ y ∈ (s.nextAgents cfg adapterId report).values,
        y.toAgentFields = x.toAgentFields →
        (settleAgent cfg (s.agents.get? y.id) time y).updatedAt = x.updatedAt := by
      intro x hx y _ hf
      rw [congrArg AgentFields.id hf, InsertionMap.get?_of_mem hx]
      exact updatedAt_settleAgent cfg hf
    refine ⟨fun x hx x' hx' hf => ?_, fun hraw x hx x' hx' hid hnone => ?_⟩
    · obtain ⟨y, hy, rfl⟩ := List.mem_map.mp hx'
      rw [toAgentFields_settleAgent] at hf
      exact hsettle x hx y hy hf
    · obtain ⟨y, hy, rfl⟩ := List.mem_map.mp hx'
      rw [toAgentFields_settleAgent] at hid
      exact hsettle x hx y hy (hsteady.1 hraw x hx hnone y hy hid)
  | evict agentId time =>
    refine hstored fun x hx x' hx' hid => ?_
    rw [move, agents_evictCachedOwnedAgent] at hx'
    exact s.agents.eq_of_key_eq (InsertionMap.mem_delete.mp hx').1 hx hid
  | restore record adapterId cached time =>
    refine hstored fun x hx x' hx' hid => ?_
    rw [move, restoreCachedOwnedAgent] at hx'
    split at hx'
    · exact s.agents.eq_of_key_eq hx' hx hid
    · next hguard =>
      push Not at hguard
      rcases InsertionMap.mem_set.mp hx' with rfl | ⟨hmem, -⟩
      · refine absurd ?_ hguard.2.2.2
        rw [InsertionMap.has, show cached.id = x.id from hid, InsertionMap.get?_of_mem hx]
        rfl
      · exact s.agents.eq_of_key_eq hmem hx hid
  | history results time =>
    exact hstored fun x hx x' hx' hid => s.agents.eq_of_key_eq hx' hx hid

/-! ### Steady changes -/

/-- What the live list shows of recent agents where the revision stays. -/
theorem list_move {change : Move δ κ} (hsteady : s.Steady cfg change)
    (hrevision : (s.move cfg change).revision = s.revision) :
    (∀ a ∈ s.list cfg, a.matchesView .recent = true →
      ∃ a' ∈ (s.move cfg change).list cfg, a'.shown = a.shown) ∧
    (∀ a ∈ (s.move cfg change).list cfg, a.matchesView .recent = true →
      ∃ a' ∈ s.list cfg, a'.shown = a.shown) := by
  have hkept := (updatedAt_move cfg s hsteady).1
  cases change with
  | outcome adapterId report time =>
    let t := s.applyOutcome cfg adapterId report time
    have hfields : t.listFields cfg = s.listFields cfg := by
      by_contra hne
      exact (revision_applyOutcome cfg s adapterId report time).mpr hne hrevision
    refine ⟨fun a ha _ => ?_, fun a ha _ => ?_⟩
    · have hmem : a.toAgentFields ∈ t.listFields cfg := hfields ▸ List.mem_map_of_mem ha
      obtain ⟨a', ha', hf⟩ := List.mem_map.mp hmem
      refine ⟨a', ha', shown_congr hf (activityAt_congr hf fun _ => ?_)⟩
      exact hkept a ((mem_list cfg s).mp ha).1 a' ((mem_list cfg t).mp ha').1 hf
    · have hmem : a.toAgentFields ∈ s.listFields cfg := hfields ▸ List.mem_map_of_mem ha
      obtain ⟨a', ha', hf⟩ := List.mem_map.mp hmem
      refine ⟨a', ha', shown_congr hf (activityAt_congr hf fun _ => ?_)⟩
      exact (hkept a' ((mem_list cfg s).mp ha').1 a ((mem_list cfg t).mp ha).1 hf.symm).symm
  | evict agentId time =>
    have hhidden : lookupFields (s.list cfg) agentId = none := by
      have hcount := (revision_evictCachedOwnedAgent cfg s agentId time).not.mp (not_not.mpr hrevision)
      exact Option.not_isSome_iff_eq_none.mp hcount
    have hagents := agents_evictCachedOwnedAgent cfg s agentId time
    have hlisted := hsteady.1 hhidden
    refine ⟨fun a ha hview => ⟨a, ?_, rfl⟩, fun a ha hview => ⟨a, ?_, rfl⟩⟩
    · have hne := lookupFields_eq_none.mp hhidden a ha
      obtain ⟨hmem, hshown⟩ := (mem_list cfg s).mp ha
      refine (mem_list cfg _).mpr ?_
      rw [move, hagents]
      exact ⟨InsertionMap.mem_delete.mpr ⟨hmem, hne⟩, by rw [hlisted a hmem hne hview, hshown]⟩
    · obtain ⟨hmem, hshown⟩ := (mem_list cfg _).mp ha
      rw [move, hagents] at hmem hshown
      obtain ⟨hold, hne⟩ := InsertionMap.mem_delete.mp hmem
      exact (mem_list cfg s).mpr ⟨hold, by rw [← hlisted a hold hne hview, hshown]⟩
  | restore record adapterId cached time =>
    have hsame : s.restoreCachedOwnedAgent cfg record adapterId cached time = s := by
      rw [move, restoreCachedOwnedAgent] at hrevision
      rw [restoreCachedOwnedAgent]
      split at hrevision
      · next hguard => exact if_pos hguard
      · exact absurd hrevision (Nat.succ_ne_self s.revision)
    rw [move, hsame]
    exact ⟨fun a ha _ => ⟨a, ha, rfl⟩, fun a ha _ => ⟨a, ha, rfl⟩⟩
  | history results time =>
    exact ⟨fun a ha _ => ⟨a, ha, rfl⟩, fun a ha _ => ⟨a, ha, rfl⟩⟩

/-- The records that are not live, where the revision of the histories stays. -/
theorem matched_loadHistory {results : List (String × Option (List (Agent δ κ)))} {time : String}
    (hsteady : s.Steady cfg (.history results time))
    (hrevision : (s.loadHistory cfg results time).historyRevision = s.historyRevision) :
    Matched cfg (fun _ => True) s (s.loadHistory cfg results time) ∧
      Matched cfg (fun _ => True) (s.loadHistory cfg results time) s := by
  have hfields : historyFields cfg s.historyAgents = historyFields cfg (s.mergedHistory results) :=
    eq_of_count hrevision
  obtain ⟨hkept, hcover⟩ := hsteady hfields
  have hmem : ∀ {m m' : AgentMap δ κ}, historyFields cfg m = historyFields cfg m' →
      ∀ a ∈ m.values, ∃ a' ∈ m'.values, a'.toAgentFields = a.toAgentFields := by
    intro m m' h a ha
    have hin : a.toAgentFields ∈ historyFields cfg m := mem_sortBy.mpr (List.mem_map_of_mem ha)
    rw [h] at hin
    exact List.mem_map.mp (mem_sortBy.mp hin)
  refine ⟨matched_of_history rfl (hmem hfields) ?_ hcover,
    matched_of_history rfl (hmem hfields.symm) ?_ ?_⟩
  · exact fun a ha hfree hnone a' ha' hid _ => hkept a ha hfree hnone a' ha' hid
  · intro a' ha' hfree _ a ha hid hnone
    exact (hkept a ha (fun x hx => hid ▸ hfree x hx) hnone a' ha' hid.symm).symm
  · intro a' ha' hraw a ha hf
    have hraw' : a.visibility? ≠ some .raw := by rwa [hf]
    exact (hcover a ha hraw' a' ha' hf.symm).symm

/-- A load that finds the histories as they are is steady. -/
theorem steady_of_mergedHistory_eq {results : List (String × Option (List (Agent δ κ)))}
    (h : s.mergedHistory results = s.historyAgents) (time : String) :
    s.Steady cfg (.history results time) := by
  have hcombined : (s.loadHistory cfg results time).combined cfg = s.combined cfg := by
    change ((s.mergedHistory results).setAll (s.listRaw cfg)).values = _
    rw [h]
    rfl
  intro _
  refine ⟨fun a ha _ _ a' ha' hid => ?_, fun a _ _ a' _ hf => ?_⟩
  · rw [h] at ha'
    rw [s.historyAgents.eq_of_key_eq ha' ha hid]
  · rw [hcombined, isDuplicate, isDuplicate, duplicateOf_congr rfl hf]

/-- **Main.** A steady change that leaves the revision of a view leaves what its pages show. -/
theorem shown_listView_move {change : Move δ κ} (hsteady : s.Steady cfg change) {view : Visibility}
    (h : (s.listView cfg view).2 = ((s.move cfg change).listView cfg view).2) :
    (s.listView cfg view).1.map Agent.shown =
      ((s.move cfg change).listView cfg view).1.map Agent.shown := by
  have hview : ∀ {a a' : Agent δ κ} (view : Visibility), a'.shown = a.shown →
      a.matchesView view = a'.matchesView view := by
    intro a a' view hs
    rw [← AgentFields.matchesView_withoutDuplicateOf, ← a'.matchesView_withoutDuplicateOf]
    exact congrArg (fun p => p.1.matchesView view) hs.symm
  have hfilter : ∀ {view : Visibility} {l l' : List (Agent δ κ)},
      (∀ a : Agent δ κ, a.matchesView view = true → a.matchesView .recent = true) →
      (∀ a ∈ l, a.matchesView .recent = true → ∃ a' ∈ l', a'.shown = a.shown) →
      ∀ a ∈ l.filter (fun a => a.matchesView view),
        ∃ a' ∈ l'.filter (fun a => a.matchesView view), a'.shown = a.shown := by
    intro view l l' hrecent hl a ha
    obtain ⟨hmem, hshow⟩ := List.mem_filter.mp ha
    obtain ⟨a', ha', hs⟩ := hl a hmem (hrecent a hshow)
    exact ⟨a', List.mem_filter.mpr ⟨ha', by rw [← hview view hs, hshow]⟩, hs⟩
  have hactive : ∀ a : Agent δ κ, a.matchesView .active = true → a.matchesView .recent = true :=
    fun a ha => Bool.or_eq_true_iff.mpr (.inl ha)
  cases view with
  | active =>
    obtain ⟨hst, hts⟩ := list_move cfg s hsteady (CursorRevision.live.inj h).symm
    exact shown_listView_eq cfg s _ (hfilter hactive hst) (hfilter hactive hts)
  | recent =>
    obtain ⟨hst, hts⟩ := list_move cfg s hsteady (CursorRevision.live.inj h).symm
    exact shown_listView_eq cfg s _ (hfilter (fun _ ha => ha) hst) (hfilter (fun _ ha => ha) hts)
  | historical =>
    obtain ⟨hhistory, hover⟩ := CursorRevision.history.inj h
    by_cases hlive : ∃ results time, change = .history results time
    · obtain ⟨results, time, rfl⟩ := hlive
      obtain ⟨hst, hts⟩ := matched_loadHistory cfg s hsteady hhistory.symm
      exact shown_listView_eq cfg s _ hst.of_true.historical hts.of_true.historical
    · push Not at hlive
      obtain ⟨hsame, -, hoverlay⟩ := fields_of_counters cfg s hlive
      have hoverlay := hoverlay hover.symm
      have hkept := (updatedAt_move cfg s hsteady).1
      have hcover : CoverKept cfg s (s.move cfg change) fun a => a.matchesView .historical = true := by
        cases change with
        | outcome adapterId report time => exact hsteady.2 hoverlay
        | evict agentId time => exact hsteady.2 hoverlay
        | restore record adapterId cached time => exact hsteady hoverlay
        | history results time => exact absurd rfl (hlive results time)
      refine shown_listView_eq cfg s _
        (matched_of_overlay hsame.symm hoverlay hkept hcover).historical
        (matched_of_overlay hsame hoverlay.symm ?_ ?_).historical
      · exact fun x' hx' x hx hf => (hkept x hx x' hx' hf.symm).symm
      · intro a' ha' hshow a ha hf
        have hshow' : a.matchesView .historical = true := by rwa [hf]
        exact (hcover a ha hshow' a' ha' hf.symm).symm
  | raw =>
    obtain ⟨hrawcount, hhistory⟩ := CursorRevision.raw.inj h
    by_cases hlive : ∃ results time, change = .history results time
    · obtain ⟨results, time, rfl⟩ := hlive
      obtain ⟨hst, hts⟩ := matched_loadHistory cfg s hsteady hhistory.symm
      exact shown_listView_eq cfg s _ hst.raw hts.raw
    · push Not at hlive
      obtain ⟨hsame, hraw, -⟩ := fields_of_counters cfg s hlive
      have hraw := hraw hrawcount.symm
      have hkept := (updatedAt_move cfg s hsteady).2 hraw
      refine shown_listView_eq cfg s _ (matched_of_rawFields hsame.symm hraw ?_).raw
        (matched_of_rawFields hsame hraw.symm ?_).raw
      · exact fun x hx x' hx' hid hnone _ => hkept x hx x' hx' hid hnone
      · exact fun x' hx' x hx hid _ hnone => (hkept x hx x' hx' hid.symm hnone).symm

end Changes

end AgentStore

/-! ### Runs -/

namespace Registry

variable [DecidableEq δ] [DecidableEq κ] {cfg : RegistryConfig δ κ} {s s' : Registry δ κ}

/-- A step whose change of the store, if it makes one, is steady. -/
def SteadyStep (cfg : RegistryConfig δ κ) (s : Registry δ κ) (move : RegistryMove δ κ) : Prop :=
  ∀ change, s.storeMove cfg move = some change → s.store.Steady cfg change

theorem countersLe_step {move : RegistryMove δ κ} (h : s.step cfg move = some s') :
    s.store.CountersLe s'.store := by
  rw [store_step h]
  cases s.storeMove cfg move with
  | none => exact ⟨le_rfl, le_rfl, le_rfl, le_rfl⟩
  | some change => exact AgentStore.countersLe_move cfg s.store change

theorem countersLe_run {moves : List (RegistryMove δ κ)} (h : (system cfg).run s moves = some s') :
    s.store.CountersLe s'.store :=
  TransitionSystem.run_invariant (P := fun u : Registry δ κ => s.store.CountersLe u.store)
    (fun _ _ _ hle hstep => hle.trans (countersLe_step hstep)) ⟨le_rfl, le_rfl, le_rfl, le_rfl⟩ h

/-- What the pages of a view show is the same at both ends of a run of steady steps with one revision
    of the view. -/
theorem shown_listView_run {moves : List (RegistryMove δ κ)}
    (hrun : (system cfg).run s moves = some s')
    (hsteady : (system cfg).AllSteps (SteadyStep cfg) s moves) {view : Visibility}
    (h : (s.store.listView cfg view).2 = (s'.store.listView cfg view).2) :
    (s.store.listView cfg view).1.map Agent.shown =
      (s'.store.listView cfg view).1.map Agent.shown := by
  induction moves generalizing s with
  | nil =>
    cases hrun
    rfl
  | cons move moves ih =>
    rw [TransitionSystem.run_cons, Option.bind_eq_some_iff] at hrun
    obtain ⟨u, hu, hrest⟩ := hrun
    obtain ⟨hmove, hsteps⟩ := hsteady u hu
    have hmid := AgentStore.cursorRevision_eq_of_between cfg (countersLe_step hu)
      (countersLe_run hrest) h
    rw [← ih hrest hsteps (hmid.symm.trans h)]
    have hstore := store_step hu
    unfold SteadyStep at hmove
    cases hchange : s.storeMove cfg move with
    | none =>
      rw [hchange] at hstore
      change u.store = s.store at hstore
      rw [hstore]
    | some change =>
      rw [hchange] at hstore
      change u.store = s.store.move cfg change at hstore
      rw [hstore] at hmid ⊢
      exact AgentStore.shown_listView_move cfg s.store (hmove change hchange) hmid

end Registry

open Registry

/-- **Cursor revisions are sound over steady steps.** Where every step from one moment of a registry to
    another is steady and a view has the same revision at both, every query has the same page at both;
    and where a cursor of a page at the first is accepted at the second, the two pages are together a
    stretch of the selected agents, with none left out and none twice. -/
theorem cursor_revision_soundness [DecidableEq δ] [DecidableEq κ] (cfg : RegistryConfig δ κ)
    (texts : PageTexts) (s s' : Registry δ κ) (moves : List (RegistryMove δ κ))
    (hrun : (system cfg).run s moves = some s')
    (hsteady : (system cfg).AllSteps (SteadyStep cfg) s moves) (view : Visibility) :
    let before := s.store.listView cfg view
    let after := s'.store.listView cfg view
    (before.2 = after.2 → ∀ query,
      pageIds texts before.1 query before.2 = pageIds texts after.1 query after.2) ∧
    ∀ query page cursor offset limit next,
      pageAgents texts before.1 query before.2 = .ok page → page.nextCursor = some cursor →
      decodeCursor cursor after.2 query.filter = .ok offset →
      pageAgents texts after.1 ⟨query.filter, offset, limit⟩ after.2 = .ok next →
      ((page.agents ++ next.agents).map fun agent => agent.id) =
          (((query.filter.select texts before.1).map fun agent => agent.id).drop query.offset).take
            (page.agents.length + limit) ∧
        ((page.agents ++ next.agents).map fun agent => agent.id).Nodup := by
  intro before after
  have hshown : before.2 = after.2 → before.1.map Agent.shown = after.1.map Agent.shown := fun h =>
    shown_listView_run hrun hsteady h
  refine ⟨fun h query => ?_, fun query page cursor offset limit next hpage hcursor haccept hnext => ?_⟩
  · rw [h]
    exact pageAgents_of_shown texts (hshown h) query after.2
  · have hissued : cursor.revision = before.2 := by
      unfold pageAgents at hpage
      dsimp only at hpage
      split at hpage
      · cases hpage
      · obtain rfl := Except.ok.inj hpage
        dsimp only at hcursor
        split at hcursor
        · rw [← Option.some.inj hcursor]
        · cases hcursor
    have hsame : before.2 = after.2 ∧ cursor.offset = offset := by
      unfold decodeCursor at haccept
      split at haccept
      · cases haccept
      · next hrevision =>
        split at haccept
        · cases haccept
        · exact ⟨hissued.symm.trans (not_not.mp hrevision), Except.ok.inj haccept⟩
    rw [← hsame.2] at hnext
    have hstretch := page_append_next texts (hshown hsame.1) hpage hcursor hnext
    refine ⟨hstretch, hstretch ▸ ?_⟩
    have hnodup := nodup_select texts query.filter (AgentStore.distinctIds_listView cfg s.store view)
    exact hnodup.sublist ((List.take_sublist _ _).trans (List.drop_sublist _ _))

/-- A registry with one adapter, which has a history. -/
def codexConfig : RegistryConfig Unit Unit where
  adapters := .ofValues _ [{ id := "codex", discoversHistory := true }]
  dateParse := fun _ => none
  localeCompare := compare
  normalizeRepositoryContext := id
  contextState := fun _ => "unsupported"

/-- Texts that are compared as they are, and two dates. -/
def plainTexts : PageTexts where
  toLocaleLowerCase := id
  fold := id
  dateParse := fun text => if text = "early" then some 0 else if text = "late" then some 1 else none

/-- An agent of that adapter, without an activity. -/
def codexAgent (id updatedAt : String) : Agent Unit Unit where
  id := id
  provider := "codex"
  source := "codex"
  updatedAt := some updatedAt
  discovery := some { kind := .native, visibility := some .historical }
  details := ()
  repositoryContext := ()

/-- A load of the histories at a time. -/
def historyRun (now : Int) (agents : List (Agent Unit Unit)) : List (RegistryMove Unit Unit) :=
  [.loadHistory now, .historyLoaded (fun _ => some agents) now "", .historySettled]

/-- The historical agents by activity, one to a page. -/
def activityQuery : AgentQuery where
  filter :=
    { view := .historical, providers := [], statuses := [], cwd := "", query := ""
      sort := .activity, direction := .asc }
  offset := 0
  limit := 1

/-- Two agents of that adapter. -/
def codexAgents : List (Agent Unit Unit) :=
  [codexAgent "codex:a" "early", codexAgent "codex:b" "late"]

/-- Histories that are loaded again as they were. -/
theorem cursor_revision_soundness_reload : ∃ s s',
    (system codexConfig).run Registry.empty (historyRun 0 codexAgents) = some s ∧
    (system codexConfig).run s (historyRun 300000 codexAgents) = some s' ∧
    pageIds plainTexts (s.store.listView codexConfig .historical).1 activityQuery
        (s.store.listView codexConfig .historical).2 =
      pageIds plainTexts (s'.store.listView codexConfig .historical).1 activityQuery
        (s'.store.listView codexConfig .historical).2 := by
  have hrun : ∃ s s',
      (system codexConfig).run Registry.empty (historyRun 0 codexAgents) = some s ∧
      (system codexConfig).run s (historyRun 300000 codexAgents) = some s' ∧
      (s.store.listView codexConfig .historical).2 = (s'.store.listView codexConfig .historical).2 ∧
      s.store.mergedHistory [("codex", some codexAgents)] = s.store.historyAgents :=
    ⟨_, _, rfl, rfl, rfl, rfl⟩
  obtain ⟨s, s', hs, hs', hsame, hmerged⟩ := hrun
  have hsteady : (system codexConfig).AllSteps (SteadyStep codexConfig) s
      (historyRun 300000 codexAgents) := by
    intro t ht
    have hstep : s.step codexConfig (.loadHistory 300000) = some t := ht
    have hstore : t.store = s.store := store_step hstep
    refine ⟨fun change hchange => ?_, fun u _ => ⟨fun change hchange => ?_, fun v _ =>
      ⟨fun change hchange => ?_, trivial⟩⟩⟩
    · cases hchange
    · cases hchange
      rw [hstore]
      exact AgentStore.steady_of_mergedHistory_eq codexConfig s.store hmerged ""
    · cases hchange
  exact ⟨s, s', hs, hs', (cursor_revision_soundness codexConfig plainTexts s s' _ hs' hsteady
    .historical).1 hsame activityQuery⟩

/-- The histories are loaded again with other times: the revision stays, and the agent of the first
    page is that of the second too. -/
theorem reload_repeats_agent : ∃ s s',
    (system codexConfig).run Registry.empty (historyRun 0 codexAgents) = some s ∧
    (system codexConfig).run s
      (historyRun 300000 [codexAgent "codex:a" "late", codexAgent "codex:b" "early"]) = some s' ∧
    (s.store.listView codexConfig .historical).2 = (s'.store.listView codexConfig .historical).2 ∧
    pageIds plainTexts (s.store.listView codexConfig .historical).1 activityQuery
      (s.store.listView codexConfig .historical).2 = .ok ["codex:a"] ∧
    pageIds plainTexts (s'.store.listView codexConfig .historical).1 activityQuery
      (s'.store.listView codexConfig .historical).2 = .ok ["codex:b"] ∧
    pageIds plainTexts (s'.store.listView codexConfig .historical).1 { activityQuery with offset := 1 }
      (s'.store.listView codexConfig .historical).2 = .ok ["codex:a"] :=
  ⟨_, _, rfl, rfl, rfl, rfl, rfl, rfl⟩

end AgentHost
