import AgentHost.Core.Registry

namespace AgentHost

/-!
# Refreshes of the registry

* `Registry.loop_step` — what a move of an open registry does to its passes.
* `refresh_coalescing` — one pass at a time, and what the promises of `refresh` and
  `refreshAfterOwnedLaunchChange` wait for.
* `refresh_joins_older_pass` — a promise of `refreshAfterOwnedLaunchChange` that resolves without a
  later forced pass.
-/

namespace Registry

variable {δ κ : Type} [DecidableEq δ] [DecidableEq κ] {cfg : RegistryConfig δ κ}
  {s s' : Registry δ κ} {move : RegistryMove δ κ}

/-- A move that leaves the registry open. -/
theorem loop_step (h : s.step cfg move = some s') (hopen : s'.closed = false) :
    s.closed = false ∧ RefreshLoop.Step s.loop s'.loop := by
  cases step_cases h with
  | ignored => exact ⟨hopen, .stay⟩
  | refresh hs => exact ⟨hs, by rw [enter_loop]; exact .refresh _⟩
  | refreshAfterOwnedLaunchChange hs => exact ⟨hs, by rw [enter_loop]; exact .afterOwnedChange⟩
  | adapterChanged hs => exact ⟨hs, by rw [enter_loop]; exact .adapterChanged⟩
  | disconnected hs => exact ⟨hs, by rw [enter_loop]; exact .adapterChanged⟩
  | dropQueuedRefresh hs => exact absurd hs (Bool.eq_false_iff.mp hopen)
  | runQueuedRefresh hs => exact ⟨hs, by rw [enter_loop]; exact .runQueuedRefresh⟩
  | abandonFollowup hs => exact absurd hs (Bool.eq_false_iff.mp hopen)
  | runFollowup hs hk hended => exact ⟨hs, by rw [enter_loop]; exact .runFollowup hk hended⟩
  | resume _ _ _ ht =>
    rw [resume_eq s ht] at hopen ⊢
    exact ⟨hopen, .stay⟩
  | conclude =>
    rw [conclude_eq] at hopen ⊢
    exact ⟨hopen, .stay⟩
  | endPass hn =>
    have hs : s.closed = false := hopen
    exact ⟨hs, by rw [hs]; exact .endPass hn⟩
  | deactivateOwnedLaunch =>
    rw [deactivateOwnedLaunch_eq] at hopen ⊢
    exact ⟨hopen, .stay⟩
  | close => cases hopen
  | finishClose hs => exact absurd hs (Bool.eq_false_iff.mp hopen)
  | discovered | discoveredOwned | dropFlight | activateOwnedLaunch | changeProvider | loadHistory
  | historyLoaded | historySettled => exact ⟨hopen, .stay⟩

/-- The passes of a registry satisfy their invariant until `close`. -/
theorem loop_ok (h : (system cfg).Reachable s) : s.closed = false → s.loop.Ok := by
  refine h.invariant (P := fun s => s.closed = false → s.loop.Ok) ?_ fun s move s' hs hstep => ?_
  · rintro _ rfl -
    exact RefreshLoop.ok_empty
  · intro hopen
    obtain ⟨hopen', hloop⟩ := loop_step hstep hopen
    exact (hs hopen').step hloop

end Registry

open Registry RefreshLoop

variable {δ κ : Type} [DecidableEq δ] [DecidableEq κ]

/-- **Refresh coalescing.** Until `close`, whatever the order of the moves: one pass at most runs; a
    forced refresh has resolved only once a forced pass has ended that had not ended at the call; a
    call of `refreshAfterOwnedLaunchChange` has resolved only once a forced pass has ended that
    started after the call, if the pending follow-up waited for the forced pass that ran, and that is
    also when a call gets a promise that goes through such a pass; an adapter change during a pass is
    followed by a later pass, or that pass still runs or the microtask that starts the next is due. -/
theorem refresh_coalescing (cfg : RegistryConfig δ κ) (s : Registry δ κ)
    (h : (system cfg).Reachable s) (hopen : s.closed = false) :
    s.loop.running.length ≤ 1 ∧
    (∀ call ∈ s.loop.calls, call.forced = true → s.loop.Resolved call.promise →
      ∃ n, s.loop.passes[n]? = some true ∧ n ∉ call.endedBefore ∧ n ∈ s.loop.ended) ∧
    (∀ call ∈ s.loop.calls, call.afterOwnedChange = true → call.followupWaits = true →
      s.loop.Resolved call.promise →
      ∃ n, s.loop.passes[n]? = some true ∧ call.startedBefore ≤ n ∧ n ∈ s.loop.ended) ∧
    (s.loop.refreshAfterOwnedLaunchChange.1.Leads (s.loop.passes.length ≤ ·)
      s.loop.refreshAfterOwnedLaunchChange.2 ↔ s.loop.followupWaits = true) ∧
    ∀ m ∈ s.loop.changes, s.loop.Followed m := by
  have hok := loop_ok h hopen
  refine ⟨hok.running_le, fun call hc hf hp => ?_, fun call hc ha hw hp => ?_,
    hok.leads_iff_followupWaits, hok.changes⟩
  · exact ((hok.calls call hc).forced hf).exists_pass hp
  · exact ((hok.calls call hc).afterOwnedChange ha hw).exists_pass hp

/-- A registry without adapters. -/
def plainConfig : RegistryConfig Unit Unit where
  adapters := .empty
  dateParse := fun _ => none
  localeCompare := compare
  normalizeRepositoryContext := id
  contextState := fun _ => "unsupported"

/-- An owned launch changes while an unforced pass runs; its follow-up runs after that pass. -/
def followupRun : List (RegistryMove Unit Unit) :=
  [.refresh false fun _ => 0, .refreshAfterOwnedLaunchChange fun _ => 0, .endPass,
    .runFollowup 0 fun _ => 0, .endPass]

theorem refresh_coalescing_followup : ∃ s, (system plainConfig).run Registry.empty
    followupRun = some s ∧ ∃ n, s.loop.passes[n]? = some true ∧ 1 ≤ n ∧ n ∈ s.loop.ended := by
  have hrun : ∃ s, (system plainConfig).run Registry.empty followupRun = some s ∧
      s.closed = false ∧ s.loop.followups[0]? = some ⟨0, some (.pass 1)⟩ ∧ 1 ∈ s.loop.ended ∧
      ⟨true, true, .followup 0, 1, [], true⟩ ∈ s.loop.calls :=
    ⟨_, rfl, rfl, rfl, by decide, by decide⟩
  obtain ⟨s, hs, hopen, hfollowup, hended, hcall⟩ := hrun
  have hlaw := refresh_coalescing plainConfig s (reachable_of_run hs) hopen
  exact ⟨s, hs, hlaw.2.2.1 _ hcall rfl rfl (.followup hfollowup (.pass hended))⟩

/-- A pass with a follow-up ends, a forced one starts before the follow-up has noticed, an owned
    launch changes, and the follow-up joins the pass that runs. -/
def olderPassRun : List (RegistryMove Unit Unit) :=
  [.refresh false fun _ => 0, .refresh true fun _ => 0, .endPass, .refresh true fun _ => 0,
    .refreshAfterOwnedLaunchChange fun _ => 0, .runFollowup 0 fun _ => 0, .endPass]

/-- A promise of `refreshAfterOwnedLaunchChange` that has resolved although no pass has started
    since the call. -/
theorem refresh_joins_older_pass : ∃ s : Registry Unit Unit, (system plainConfig).Reachable s ∧
    s.closed = false ∧ ∃ call ∈ s.loop.calls, call.afterOwnedChange = true ∧
      s.loop.Resolved call.promise ∧
      ¬ ∃ n, s.loop.passes[n]? = some true ∧ call.startedBefore ≤ n ∧ n ∈ s.loop.ended := by
  have hrun : ∃ s, (system plainConfig).run Registry.empty olderPassRun = some s ∧
      s.closed = false ∧ s.loop.passes = [false, true] ∧
      s.loop.followups[0]? = some ⟨0, some (.pass 1)⟩ ∧ 1 ∈ s.loop.ended ∧
      ⟨true, true, .followup 0, 2, [0], false⟩ ∈ s.loop.calls :=
    ⟨_, rfl, rfl, rfl, rfl, by decide, by decide⟩
  obtain ⟨s, hs, hopen, hpasses, hfollowup, hended, hcall⟩ := hrun
  refine ⟨s, reachable_of_run hs, hopen, _, hcall, rfl, .followup hfollowup (.pass hended), ?_⟩
  rintro ⟨n, hn, hle, -⟩
  have hlt := (List.getElem?_eq_some_iff.mp hn).1
  rw [hpasses] at hlt
  exact absurd hlt (Nat.not_lt.mpr hle)

end AgentHost
