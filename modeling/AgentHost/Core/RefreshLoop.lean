import Mathlib.Data.List.Basic

namespace AgentHost

/-!
# The refresh passes of the registry

Who starts a refresh pass and who waits for which one: `#refreshPromise`, the flag of a forced
pass, the shared follow-up and the flag of a queued adapter change, one event for each stretch
of the source between two suspensions.

* `RefreshLoop.refresh`, `queueForcedFollowup`, `refreshAfterOwnedLaunchChange`,
  `adapterChanged` — the source functions; a promise is a `RefreshPromise`.
* `RefreshLoop.endPass`, `runQueuedRefresh`, `runFollowup` — the continuations.
* `RefreshLoop.Leads` — every way the promise can still resolve goes through a forced pass with a
  given property; `Leads.exists_pass` is what that gives once it has resolved.
* `RefreshLoop.Ok` — the invariant, with one lemma for each of the functions; `Ok.step` for all.
-/

/-- A promise that a caller gets: an already resolved one, that of a pass, or that of a forced
    follow-up. -/
inductive RefreshPromise
  | listed
  | pass (n : Nat)
  | followup (k : Nat)
  deriving DecidableEq

/-- A forced follow-up: the pass it is chained to, and what its callback returned once that ran. -/
structure Followup where
  base : Nat
  joined : Option RefreshPromise
  deriving DecidableEq

/-- A call of `refresh` or of `refreshAfterOwnedLaunchChange`: the promise it returned, how many
    passes had started by then, which had ended, and whether a pending follow-up waited for the
    forced pass that ran. -/
structure RefreshCall where
  forced : Bool
  afterOwnedChange : Bool
  promise : RefreshPromise
  startedBefore : Nat
  endedBefore : List Nat
  followupWaits : Bool
  deriving DecidableEq

/-- The fields of the registry that coordinate its passes.  `passes` holds the `force` flag of
    every pass that started, `ended` the passes that ended, `queuedRefreshes` counts the scheduled
    microtasks; `calls` and `changes` are logs, the latter of the adapter changes that arrived
    during a pass, by the number of passes started until then. -/
structure RefreshLoop where
  passes : List Bool
  ended : List Nat
  refreshPromise : Option Nat
  currentRefreshForced : Bool
  adapterRefreshQueued : Bool
  queuedRefreshes : Nat
  followups : List Followup
  forcedFollowupPromise : Option Nat
  calls : List RefreshCall
  changes : List Nat
  deriving DecidableEq

namespace RefreshLoop

def empty : RefreshLoop where
  passes := []
  ended := []
  refreshPromise := none
  currentRefreshForced := false
  adapterRefreshQueued := false
  queuedRefreshes := 0
  followups := []
  forcedFollowupPromise := none
  calls := []
  changes := []

variable (s : RefreshLoop)

/-- The passes that run. -/
def running : List Nat := (List.range s.passes.length).filter (· ∉ s.ended)

/-- The start of `#runRefresh`. -/
def startPass (force : Bool) : RefreshLoop :=
  { s with
    passes := s.passes ++ [force]
    refreshPromise := some s.passes.length
    currentRefreshForced := force }

/-- `#queueForcedFollowup`, while the promise of pass `n` is `#refreshPromise`. -/
def queueForcedFollowup (n : Nat) : RefreshLoop × RefreshPromise :=
  match s.forcedFollowupPromise with
  | some k => (s, .followup k)
  | none =>
    ({ s with
        followups := s.followups ++ [⟨n, none⟩]
        forcedFollowupPromise := some s.followups.length },
      .followup s.followups.length)

/-- `refresh`, in an open registry. -/
def refresh (force : Bool) : RefreshLoop × RefreshPromise :=
  match s.refreshPromise with
  | some n => if force && !s.currentRefreshForced then s.queueForcedFollowup n else (s, .pass n)
  | none => (s.startPass force, .pass s.passes.length)

/-- `refreshAfterOwnedLaunchChange`, in an open registry. -/
def refreshAfterOwnedLaunchChange : RefreshLoop × RefreshPromise :=
  match s.refreshPromise with
  | none => s.refresh true
  | some n => s.queueForcedFollowup n

/-- A pending follow-up waits for the pass that runs, if that is a forced one. -/
def followupWaits : Bool :=
  match s.forcedFollowupPromise, s.refreshPromise with
  | some k, some n =>
    !s.currentRefreshForced || s.followups[k]?.any fun followup => followup.base = n
  | _, _ => true

/-- Record what a caller got. -/
def record (forced afterOwnedChange : Bool) (after : RefreshLoop × RefreshPromise) : RefreshLoop :=
  { after.1 with
    calls := after.1.calls ++
      [⟨forced, afterOwnedChange, after.2, s.passes.length, s.ended, s.followupWaits⟩] }

/-- The end of an adapter's change handler: remember the change, or refresh. -/
def adapterChanged : RefreshLoop :=
  if s.refreshPromise.isSome then
    { s with adapterRefreshQueued := true, changes := s.changes ++ [s.passes.length] }
  else (s.refresh false).1

/-- The `finally` of a pass, in an open or a closed registry. -/
def endPass (closed : Bool) (n : Nat) : RefreshLoop :=
  { s with
    ended := s.ended ++ [n]
    refreshPromise := none
    currentRefreshForced := false
    adapterRefreshQueued := s.adapterRefreshQueued && closed
    queuedRefreshes :=
      if s.adapterRefreshQueued && !closed then s.queuedRefreshes + 1 else s.queuedRefreshes }

/-- The microtask behind an adapter change that was queued. -/
def runQueuedRefresh : RefreshLoop :=
  (({ s with queuedRefreshes := s.queuedRefreshes - 1 } : RefreshLoop).refresh false).1

/-- A follow-up forgets itself before it refreshes. -/
def clearFollowup (k : Nat) : RefreshLoop :=
  if s.forcedFollowupPromise = some k then { s with forcedFollowupPromise := none } else s

/-- Follow-up `k` resolves with what its callback returned. -/
def join (k : Nat) (promise : RefreshPromise) : RefreshLoop :=
  { s with followups := s.followups.modify k fun followup => { followup with joined := promise } }

/-- The callback of a follow-up in a closed registry. -/
def abandonFollowup (k : Nat) : RefreshLoop := (s.clearFollowup k).join k .listed

/-- The callback of a follow-up, once the pass it is chained to has ended. -/
def runFollowup (k : Nat) : RefreshLoop :=
  let after := (s.clearFollowup k).refresh true
  after.1.join k after.2

/-! ### Promises -/

/-- The promises that have resolved. -/
inductive Resolved : RefreshPromise → Prop
  | listed : Resolved .listed
  | pass {n : Nat} : n ∈ s.ended → Resolved (.pass n)
  | followup {k b : Nat} {p : RefreshPromise} :
      s.followups[k]? = some ⟨b, some p⟩ → Resolved p → Resolved (.followup k)

/-- A promise that resolves with a forced pass that satisfies `P`, whatever happens first: where
    its follow-up is still to run, a forced pass that runs now satisfies `P` or is the one the
    follow-up waits for. -/
inductive Leads (P : Nat → Prop) : RefreshPromise → Prop
  | pass {n : Nat} : s.passes[n]? = some true → P n → Leads P (.pass n)
  | joined {k b : Nat} {p : RefreshPromise} :
      s.followups[k]? = some ⟨b, some p⟩ → Leads P p → Leads P (.followup k)
  | pending {k b : Nat} : s.followups[k]? = some ⟨b, none⟩ →
      (∀ r, s.refreshPromise = some r → s.currentRefreshForced = true → r = b ∨ P r) →
      Leads P (.followup k)

variable {s} {t : RefreshLoop} {P : Nat → Prop} {p : RefreshPromise}

/-- What a resolved promise went through. -/
theorem Leads.exists_pass (h : s.Leads P p) (hp : s.Resolved p) :
    ∃ n, s.passes[n]? = some true ∧ P n ∧ n ∈ s.ended := by
  induction h with
  | @pass n hforced hn =>
    cases hp with
    | pass hended => exact ⟨n, hforced, hn, hended⟩
  | joined hk _ ih =>
    cases hp with
    | followup hk' hp' =>
      rw [hk, Option.some.injEq, Followup.mk.injEq, Option.some.injEq] at hk'
      exact ih (hk'.2 ▸ hp')
  | pending hk _ =>
    cases hp with
    | followup hk' _ => rw [hk] at hk'; cases hk'

theorem getElem?_mono {α : Type} {l l' : List α} (h : l <+: l') {k : Nat} {x : α}
    (hk : l[k]? = some x) : l'[k]? = some x := by
  obtain ⟨rest, rfl⟩ := h
  rw [List.getElem?_append_left (List.getElem?_eq_some_iff.mp hk).1, hk]

/-- A promise keeps leading where passes and follow-ups are only added and a pass that starts
    satisfies `P`. -/
theorem Leads.mono (h : s.Leads P p) (hpasses : s.passes <+: t.passes)
    (hfollowups : s.followups <+: t.followups)
    (hrunning : ∀ r, t.refreshPromise = some r → t.currentRefreshForced = true →
      P r ∨ (s.refreshPromise = some r ∧ s.currentRefreshForced = true)) : t.Leads P p := by
  induction h with
  | pass hforced hn => exact .pass (getElem?_mono hpasses hforced) hn
  | joined hk _ ih => exact .joined (getElem?_mono hfollowups hk) ih
  | pending hk hforced =>
    refine .pending (getElem?_mono hfollowups hk) fun r hr hrf => ?_
    rcases hrunning r hr hrf with hP | ⟨hr', hrf'⟩
    · exact .inr hP
    · exact hforced r hr' hrf'

/-! ### The invariant -/

/-- What a recorded call was promised: a forced pass that had not ended by then, or one that
    started later. -/
structure CallOk (s : RefreshLoop) (call : RefreshCall) : Prop where
  startedBefore_le : call.startedBefore ≤ s.passes.length
  endedBefore_lt : ∀ n ∈ call.endedBefore, n < s.passes.length
  forced : call.forced → s.Leads (· ∉ call.endedBefore) call.promise
  afterOwnedChange : call.afterOwnedChange → call.followupWaits →
    s.Leads (call.startedBefore ≤ ·) call.promise

/-- An adapter change that arrived when `m` passes had started is followed by a later pass, or the
    pass it arrived in still runs, or the microtask behind it is scheduled. -/
def Followed (s : RefreshLoop) (m : Nat) : Prop :=
  m < s.passes.length ∨ (m = s.passes.length ∧
    ((s.adapterRefreshQueued = true ∧ s.refreshPromise.isSome) ∨
      (0 < s.queuedRefreshes ∧ s.refreshPromise = none)))

structure Ok (s : RefreshLoop) : Prop where
  current : ∀ n, s.refreshPromise = some n →
    s.passes[n]? = some s.currentRefreshForced ∧ n ∉ s.ended
  only : ∀ n, n < s.passes.length → n ∉ s.ended → s.refreshPromise = some n
  ended_lt : ∀ n ∈ s.ended, n < s.passes.length
  pending : ∀ k, s.forcedFollowupPromise = some k → ∃ b, s.followups[k]? = some ⟨b, none⟩
  calls : ∀ call ∈ s.calls, CallOk s call
  changes : ∀ m ∈ s.changes, Followed s m

theorem ok_empty : Ok empty := by
  constructor <;> simp [empty]

/-- At most one pass runs. -/
theorem Ok.running_le (h : Ok s) : s.running.length ≤ 1 := by
  have hnodup : s.running.Nodup := List.nodup_range.filter _
  have hall : ∀ n ∈ s.running, s.refreshPromise = some n := by
    intro n hn
    obtain ⟨hlt, hended⟩ := List.mem_filter.mp hn
    exact h.only n (List.mem_range.mp hlt) (of_decide_eq_true hended)
  match hrunning : s.running with
  | [] => simp
  | [_] => simp
  | m :: n :: rest =>
    rw [hrunning] at hnodup hall
    have hm := hall m (by simp)
    have hn := hall n (by simp)
    rw [hm, Option.some.injEq] at hn
    simp [hn] at hnodup

/-- What the recorded calls need of a change that starts no pass or one that every call may
    take. -/
theorem CallOk.mono {call : RefreshCall} (h : CallOk s call) (hpasses : s.passes <+: t.passes)
    (hfollowups : s.followups <+: t.followups)
    (hrunning : ∀ r, t.refreshPromise = some r → t.currentRefreshForced = true →
      r = s.passes.length ∨ (s.refreshPromise = some r ∧ s.currentRefreshForced = true)) :
    CallOk t call where
  startedBefore_le := Nat.le_trans h.startedBefore_le hpasses.length_le
  endedBefore_lt := fun n hn => Nat.lt_of_lt_of_le (h.endedBefore_lt n hn) hpasses.length_le
  forced := fun hf => (h.forced hf).mono hpasses hfollowups fun r hr hrf =>
    (hrunning r hr hrf).imp_left fun he hin =>
      absurd (h.endedBefore_lt r hin) (by omega)
  afterOwnedChange := fun ha hw => (h.afterOwnedChange ha hw).mono hpasses hfollowups fun r hr hrf =>
    (hrunning r hr hrf).imp_left fun he => by rw [he]; exact h.startedBefore_le

/-! ### The functions keep it -/

theorem Ok.startPass (h : Ok s) (hnone : s.refreshPromise = none) (force : Bool) :
    Ok (s.startPass force) := by
  have hpasses : s.passes <+: (s.startPass force).passes := List.prefix_append _ _
  have hlength : (s.startPass force).passes.length = s.passes.length + 1 := by
    simp [RefreshLoop.startPass]
  have hall : ∀ n, n < s.passes.length → n ∈ s.ended := fun n hn => by
    by_contra hended
    rw [h.only n hn hended] at hnone
    cases hnone
  refine ⟨fun n hn => ?_, fun n hn hended => ?_, fun n hn => ?_, h.pending, fun call hc => ?_,
    fun m hm => ?_⟩
  · obtain rfl := Option.some.inj hn
    exact ⟨List.getElem?_concat_length, fun hin => Nat.lt_irrefl _ (h.ended_lt _ hin)⟩
  · rw [hlength] at hn
    have hge : ¬ n < s.passes.length := fun hlt => hended (hall n hlt)
    exact congrArg some (by omega : s.passes.length = n)
  · have hlt := h.ended_lt n hn
    omega
  · refine (h.calls call hc).mono hpasses (List.prefix_refl _) fun r hr _ => ?_
    exact .inl (Option.some.inj hr).symm
  · left
    rw [hlength]
    rcases h.changes m hm with hlt | ⟨rfl, -⟩ <;> omega

/-- What leaves the passes alone and only adds follow-ups. -/
theorem Ok.queueForcedFollowup (h : Ok s) (n : Nat) : Ok (s.queueForcedFollowup n).1 := by
  unfold RefreshLoop.queueForcedFollowup
  split
  · exact h
  · refine ⟨h.current, h.only, h.ended_lt, fun k hk => ?_, fun call hc => ?_, h.changes⟩
    · obtain rfl := Option.some.inj hk
      exact ⟨n, List.getElem?_concat_length⟩
    · exact (h.calls call hc).mono (List.prefix_refl _) (List.prefix_append _ _)
        fun r hr hrf => .inr ⟨hr, hrf⟩

theorem Ok.refresh (h : Ok s) (force : Bool) : Ok (s.refresh force).1 := by
  unfold RefreshLoop.refresh
  split
  · next n hn =>
    split
    · exact h.queueForcedFollowup n
    · exact h
  · next hnone => exact h.startPass hnone force

/-- What `queueForcedFollowup` promises while no forced pass that does not satisfy `P` runs. -/
theorem Ok.leads_queueForcedFollowup {n : Nat} (h : Ok s)
    (hP : ∀ k r, s.forcedFollowupPromise = some k → s.refreshPromise = some r →
      s.currentRefreshForced = true → (∃ f, s.followups[k]? = some f ∧ r = f.base) ∨ P r)
    (hn : s.refreshPromise = some n) :
    (s.queueForcedFollowup n).1.Leads P (s.queueForcedFollowup n).2 := by
  unfold RefreshLoop.queueForcedFollowup
  split
  · next k hk =>
    obtain ⟨b, hb⟩ := h.pending k hk
    refine .pending hb fun r hr hrf => ?_
    rcases hP k r hk hr hrf with ⟨f, hf, hrb⟩ | hPr
    · rw [hb, Option.some.injEq] at hf
      subst hf
      exact .inl hrb
    · exact .inr hPr
  · refine .pending List.getElem?_concat_length fun r hr _ => .inl ?_
    exact Option.some.inj (hr.symm.trans hn)

/-- What a forced `refresh` promises: the pass it starts or joins, or a follow-up of a pass that is
    not forced. -/
theorem Ok.leads_refresh (h : Ok s) (hnew : s.refreshPromise = none → P s.passes.length)
    (hrunning : ∀ r, s.refreshPromise = some r → s.currentRefreshForced = true → P r) :
    (s.refresh true).1.Leads P (s.refresh true).2 := by
  unfold RefreshLoop.refresh
  split
  · next n hn =>
    split
    · next hunforced =>
      refine h.leads_queueForcedFollowup (fun k r _ hr hrf => ?_) hn
      simp [hrf] at hunforced
    · next hforced =>
      have hcurrent : s.currentRefreshForced = true := by simpa using hforced
      exact .pass (hcurrent ▸ (h.current n hn).1) (hrunning n hn hcurrent)
  · next hnone => exact .pass List.getElem?_concat_length (hnew hnone)

theorem passes_queueForcedFollowup {n : Nat} :
    (s.queueForcedFollowup n).1.passes = s.passes ∧
      (s.queueForcedFollowup n).1.ended = s.ended := by
  unfold queueForcedFollowup
  split <;> exact ⟨rfl, rfl⟩

theorem passes_refresh {force : Bool} : s.passes <+: (s.refresh force).1.passes ∧
    (s.refresh force).1.ended = s.ended := by
  unfold refresh
  split
  · split
    · rw [passes_queueForcedFollowup.1, passes_queueForcedFollowup.2]
      exact ⟨List.prefix_refl _, rfl⟩
    · exact ⟨List.prefix_refl _, rfl⟩
  · exact ⟨List.prefix_append _ _, rfl⟩

/-- A call that is recorded with what it was promised. -/
theorem Ok.record {forced afterOwnedChange : Bool} {after : RefreshLoop × RefreshPromise}
    (hs : Ok s) (h : Ok after.1) (hpasses : s.passes.length ≤ after.1.passes.length)
    (hforced : forced → after.1.Leads (· ∉ s.ended) after.2)
    (hafter : afterOwnedChange → s.followupWaits → after.1.Leads (s.passes.length ≤ ·) after.2) :
    Ok (s.record forced afterOwnedChange after) := by
  have hleads : ∀ {P : Nat → Prop} {p : RefreshPromise}, after.1.Leads P p →
      (s.record forced afterOwnedChange after).Leads P p := fun hp =>
    hp.mono (List.prefix_refl _) (List.prefix_refl _) fun _ hr hrf => .inr ⟨hr, hrf⟩
  refine ⟨h.current, h.only, h.ended_lt, h.pending, fun call hc => ?_, h.changes⟩
  rcases List.mem_append.mp hc with hc | hc
  · have hcall := h.calls call hc
    exact ⟨hcall.startedBefore_le, hcall.endedBefore_lt, fun hf => hleads (hcall.forced hf),
      fun ha hw => hleads (hcall.afterOwnedChange ha hw)⟩
  · obtain rfl := List.mem_singleton.mp hc
    exact ⟨hpasses, fun n hn => Nat.lt_of_lt_of_le (hs.ended_lt n hn) hpasses,
      fun hf => hleads (hforced hf), fun ha hw => hleads (hafter ha hw)⟩

/-- A call of `refresh`. -/
theorem Ok.recordRefresh (h : Ok s) (force : Bool) :
    Ok (s.record force false (s.refresh force)) := by
  refine h.record (h.refresh force) passes_refresh.1.length_le (fun hforce => ?_) (by simp)
  subst hforce
  exact h.leads_refresh (fun _ hin => Nat.lt_irrefl _ (h.ended_lt _ hin))
    fun r hr _ => (h.current r hr).2

/-- Where a forced pass runs, the pending follow-up waits for it. -/
theorem base_of_followupWaits {k r : Nat} (h : s.followupWaits = true)
    (hk : s.forcedFollowupPromise = some k) (hr : s.refreshPromise = some r)
    (hrf : s.currentRefreshForced = true) : ∃ f, s.followups[k]? = some f ∧ r = f.base := by
  simp only [followupWaits, hk, hr, hrf, Bool.not_true, Bool.false_or] at h
  obtain ⟨f, hf, hbase⟩ := Option.any_eq_true _ _ |>.mp h
  exact ⟨f, hf, (of_decide_eq_true hbase).symm⟩

/-- Where no follow-up waits for the forced pass that runs, that pass is all that the promise may go
    through, and it started before the call. -/
theorem Ok.followupWaits_of_leads (h : Ok s) (hleads : s.refreshAfterOwnedLaunchChange.1.Leads
    (s.passes.length ≤ ·) s.refreshAfterOwnedLaunchChange.2) : s.followupWaits = true := by
  unfold followupWaits
  split
  · next k n hk hn =>
    obtain ⟨b, hb⟩ := h.pending k hk
    have hlt : n < s.passes.length := (List.getElem?_eq_some_iff.mp (h.current n hn).1).1
    simp only [refreshAfterOwnedLaunchChange, RefreshLoop.queueForcedFollowup, hn, hk] at hleads
    cases hleads with
    | joined hj _ =>
      rw [hb] at hj
      cases hj
    | pending hj hforced =>
      rw [hb, Option.some.injEq, Followup.mk.injEq] at hj
      cases hf : s.currentRefreshForced with
      | false => rfl
      | true =>
        rcases hforced n hn hf with hnb | hle
        · simp [hb, hj.1, hnb]
        · omega
  · rfl

/-- The promise of `refreshAfterOwnedLaunchChange` goes through a pass that starts later, if and only
    if the pending follow-up waits for the forced pass that runs. -/
theorem Ok.leads_iff_followupWaits (h : Ok s) : s.refreshAfterOwnedLaunchChange.1.Leads
    (s.passes.length ≤ ·) s.refreshAfterOwnedLaunchChange.2 ↔ s.followupWaits = true := by
  refine ⟨h.followupWaits_of_leads, fun hwaits => ?_⟩
  unfold refreshAfterOwnedLaunchChange
  split
  · next hnone =>
    exact h.leads_refresh (fun _ => Nat.le_refl _) fun r hr => by rw [hnone] at hr; cases hr
  · next n hn =>
    exact h.leads_queueForcedFollowup
      (fun k r hk hr hrf => .inl (base_of_followupWaits hwaits hk hr hrf)) hn

/-- A call of `refreshAfterOwnedLaunchChange`. -/
theorem Ok.recordAfterOwnedChange (h : Ok s) :
    Ok (s.record true true s.refreshAfterOwnedLaunchChange) := by
  have hlater := h.leads_iff_followupWaits
  unfold refreshAfterOwnedLaunchChange at hlater ⊢
  split at hlater
  · next hnone =>
    refine h.record (h.refresh true) passes_refresh.1.length_le (fun _ => ?_) fun _ => hlater.mpr
    exact h.leads_refresh (fun _ hin => Nat.lt_irrefl _ (h.ended_lt _ hin))
      fun r hr _ => (h.current r hr).2
  · next n hn =>
    refine h.record (h.queueForcedFollowup n) (passes_queueForcedFollowup.1 ▸ Nat.le_refl _)
      (fun _ => ?_) fun _ => hlater.mpr
    exact h.leads_queueForcedFollowup (fun _ r _ hr _ => .inr (h.current r hr).2) hn

theorem Ok.adapterChanged (h : Ok s) : Ok s.adapterChanged := by
  unfold RefreshLoop.adapterChanged
  split
  · next hsome =>
    refine ⟨h.current, h.only, h.ended_lt, h.pending, fun call hc => ?_, fun m hm => ?_⟩
    · exact (h.calls call hc).mono (List.prefix_refl _) (List.prefix_refl _)
        fun r hr hrf => .inr ⟨hr, hrf⟩
    · rcases List.mem_append.mp hm with hm | hm
      · rcases h.changes m hm with hlt | ⟨he, -⟩
        · exact .inl hlt
        · exact .inr ⟨he, .inl ⟨rfl, hsome⟩⟩
      · exact .inr ⟨List.mem_singleton.mp hm, .inl ⟨rfl, hsome⟩⟩
  · exact h.refresh false

theorem Ok.endPass {n : Nat} (h : Ok s) (hn : n < s.passes.length) (hended : n ∉ s.ended) :
    Ok (s.endPass false n) := by
  have hcurrent := h.only n hn hended
  refine ⟨fun r hr => ?_, fun r hr hre => ?_, fun r hr => ?_, h.pending, fun call hc => ?_,
    fun m hm => ?_⟩
  · cases hr
  · have hre' : r ∉ s.ended ∧ r ≠ n := by
      simpa [RefreshLoop.endPass, not_or] using hre
    rw [h.only r hr hre'.1, Option.some.injEq] at hcurrent
    exact absurd hcurrent hre'.2
  · rcases List.mem_append.mp hr with hr | hr
    · exact h.ended_lt r hr
    · exact List.mem_singleton.mp hr ▸ hn
  · exact (h.calls call hc).mono (List.prefix_refl _) (List.prefix_refl _) fun r hr _ => by cases hr
  · rcases h.changes m hm with hlt | ⟨he, ⟨hqueued, -⟩ | ⟨-, hnone⟩⟩
    · exact .inl hlt
    · refine .inr ⟨he, .inr ⟨?_, rfl⟩⟩
      simp [RefreshLoop.endPass, hqueued]
    · rw [hcurrent] at hnone
      cases hnone

theorem Ok.runQueuedRefresh (h : Ok s) : Ok s.runQueuedRefresh := by
  unfold RefreshLoop.runQueuedRefresh RefreshLoop.refresh
  split
  · next n hn =>
    -- a pass that runs now started after every change whose microtask is scheduled
    refine ⟨h.current, h.only, h.ended_lt, h.pending, fun call hc => ?_, fun m hm => ?_⟩
    · exact (h.calls call hc).mono (List.prefix_refl _) (List.prefix_refl _)
        fun r hr hrf => .inr ⟨hr, hrf⟩
    · rcases h.changes m hm with hlt | ⟨he, hqueued | ⟨-, hnone⟩⟩
      · exact .inl hlt
      · exact .inr ⟨he, .inl hqueued⟩
      · rw [hnone] at hn
        cases hn
  · next hnone =>
    have hstarted := h.startPass hnone false
    refine ⟨hstarted.current, hstarted.only, hstarted.ended_lt, hstarted.pending, fun call hc => ?_,
      fun m hm => ?_⟩
    · exact (hstarted.calls call hc).mono (List.prefix_refl _) (List.prefix_refl _)
        fun r hr hrf => .inr ⟨hr, hrf⟩
    · have hlt : m < (s.startPass false).passes.length := by
        rcases hstarted.changes m hm with hlt | ⟨he, -⟩
        · exact hlt
        · rcases h.changes m hm with hlt | ⟨he', -⟩ <;>
            simp [RefreshLoop.startPass] at he ⊢ <;> omega
      exact .inl hlt

/-! ### The callback of a follow-up -/

theorem getElem?_join {k j : Nat} {q : RefreshPromise} (h : j ≠ k) :
    (s.join k q).followups[j]? = s.followups[j]? :=
  List.getElem?_modify_ne _ _ h.symm

theorem getElem?_join_self {k b : Nat} {q : RefreshPromise}
    (hk : s.followups[k]? = some ⟨b, none⟩) : (s.join k q).followups[k]? = some ⟨b, some q⟩ := by
  rw [join, List.getElem?_modify_eq, hk]
  rfl

/-- What leads through a pending follow-up still does after that follow-up has joined `q`, if `q`
    leads there. -/
theorem Leads.join {k b : Nat} {q : RefreshPromise} (h : s.Leads P p)
    (hk : s.followups[k]? = some ⟨b, none⟩)
    (hq : (∀ r, s.refreshPromise = some r → s.currentRefreshForced = true → r = b ∨ P r) →
      (s.join k q).Leads P q) : (s.join k q).Leads P p := by
  induction h with
  | pass hforced hn => exact .pass hforced hn
  | @joined j _ _ hj _ ih =>
    have hne : j ≠ k := by rintro rfl; rw [hk] at hj; cases hj
    exact .joined ((getElem?_join hne).trans hj) ih
  | @pending j _ hj hforced =>
    by_cases hjk : j = k
    · subst hjk
      rw [hk, Option.some.injEq, Followup.mk.injEq] at hj
      rw [← hj.1] at hforced
      exact .joined (getElem?_join_self hk) (hq hforced)
    · exact .pending ((getElem?_join hjk).trans hj) hforced

/-- A promise that is no follow-up, or the pending one, does not go through follow-up `k`. -/
theorem Leads.join_of_ne {k : Nat} {q r : RefreshPromise} (h : s.Leads P q)
    (hq : ∀ j, q = .followup j → j ≠ k ∧ ∃ b, s.followups[j]? = some ⟨b, none⟩) :
    (s.join k r).Leads P q := by
  cases h with
  | pass hforced hn => exact .pass hforced hn
  | @joined j _ _ hj _ =>
    obtain ⟨-, b, hb⟩ := hq j rfl
    rw [hb] at hj
    cases hj
  | @pending j _ hj hforced => exact .pending ((getElem?_join (hq j rfl).1).trans hj) hforced

theorem followups_refresh {force : Bool} : s.followups <+: (s.refresh force).1.followups := by
  unfold refresh queueForcedFollowup
  split
  · split
    · split
      · exact List.prefix_refl _
      · exact List.prefix_append _ _
    · exact List.prefix_refl _
  · exact List.prefix_refl _

/-- The follow-up that `refresh` returns is the pending one. -/
theorem followup_of_refresh {force : Bool} {k : Nat} (h : (s.refresh force).2 = .followup k) :
    (s.refresh force).1.forcedFollowupPromise = some k := by
  unfold refresh queueForcedFollowup at *
  grind

theorem forcedFollowupPromise_refresh (force : Bool) {k : Nat} (hk : k < s.followups.length)
    (hne : s.forcedFollowupPromise ≠ some k) :
    (s.refresh force).1.forcedFollowupPromise ≠ some k := by
  unfold refresh queueForcedFollowup startPass
  grind

theorem Ok.clearFollowup (h : Ok s) (k : Nat) : Ok (s.clearFollowup k) := by
  unfold RefreshLoop.clearFollowup
  split
  · refine ⟨h.current, h.only, h.ended_lt, fun j hj => ?_, fun call hc => ?_, h.changes⟩
    · cases hj
    · exact (h.calls call hc).mono (List.prefix_refl _) (List.prefix_refl _)
        fun r hr hrf => .inr ⟨hr, hrf⟩
  · exact h

theorem clearFollowup_frame (k : Nat) : (s.clearFollowup k).passes = s.passes ∧
    (s.clearFollowup k).ended = s.ended ∧ (s.clearFollowup k).followups = s.followups ∧
    (s.clearFollowup k).forcedFollowupPromise ≠ some k := by
  unfold clearFollowup
  split
  · exact ⟨rfl, rfl, rfl, nofun⟩
  · next h => exact ⟨rfl, rfl, rfl, h⟩

/-- Follow-up `k` joins what `refresh` returned, after the pass it waited for has ended. -/
theorem Ok.joinRefresh {k b : Nat} (h : Ok s) (hk : s.followups[k]? = some ⟨b, none⟩)
    (hended : b ∈ s.ended) (hne : s.forcedFollowupPromise ≠ some k) :
    Ok ((s.refresh true).1.join k (s.refresh true).2) := by
  have hlt : k < s.followups.length := (List.getElem?_eq_some_iff.mp hk).1
  have hafter := h.refresh true
  have hk' : (s.refresh true).1.followups[k]? = some ⟨b, none⟩ :=
    getElem?_mono followups_refresh hk
  have hne' := forcedFollowupPromise_refresh true hlt hne
  -- what a call that waited for follow-up `k` was promised holds of what `refresh` returned
  have hq : ∀ P : Nat → Prop, (∀ r, (s.refresh true).1.refreshPromise = some r →
      (s.refresh true).1.currentRefreshForced = true → r = b ∨ P r) →
      ((s.refresh true).1.join k (s.refresh true).2).Leads P (s.refresh true).2 := by
    intro P hP
    have hP' : ∀ r, (s.refresh true).1.refreshPromise = some r →
        (s.refresh true).1.currentRefreshForced = true → P r := fun r hr hrf => by
      refine (hP r hr hrf).resolve_left fun he => (hafter.current r hr).2 ?_
      rw [passes_refresh.2, he]
      exact hended
    refine (h.leads_refresh (fun hnone => ?_) fun r hr hrf => ?_).join_of_ne fun j hj => ?_
    · refine hP' s.passes.length ?_ ?_ <;> simp [RefreshLoop.refresh, RefreshLoop.startPass, hnone]
    · refine hP' r ?_ ?_ <;> simp [RefreshLoop.refresh, hr, hrf]
    · have hpending := followup_of_refresh hj
      refine ⟨fun he => hne' (he ▸ hpending), hafter.pending j hpending⟩
  refine ⟨hafter.current, hafter.only, hafter.ended_lt, fun j hj => ?_, fun call hc => ?_,
    hafter.changes⟩
  · obtain ⟨b', hb'⟩ := hafter.pending j hj
    refine ⟨b', (getElem?_join fun he => hne' ?_).trans hb'⟩
    rw [← he]
    exact hj
  · have hcall := hafter.calls call hc
    exact ⟨hcall.startedBefore_le, hcall.endedBefore_lt,
      fun hf => (hcall.forced hf).join hk' (hq _),
      fun ha hw => (hcall.afterOwnedChange ha hw).join hk' (hq _)⟩

theorem Ok.runFollowup {k b : Nat} (h : Ok s) (hk : s.followups[k]? = some ⟨b, none⟩)
    (hended : b ∈ s.ended) : Ok (s.runFollowup k) := by
  obtain ⟨-, hends, hfollowups, hne⟩ := clearFollowup_frame (s := s) k
  exact (h.clearFollowup k).joinRefresh (hfollowups ▸ hk) (hends ▸ hended) hne

/-! ### A pass runs after every one of them -/

theorem refreshPromise_refresh {force : Bool} : (s.refresh force).1.refreshPromise ≠ none := by
  unfold refresh queueForcedFollowup startPass
  grind

theorem refreshPromise_afterOwnedChange :
    s.refreshAfterOwnedLaunchChange.1.refreshPromise ≠ none := by
  unfold refreshAfterOwnedLaunchChange
  split
  · exact refreshPromise_refresh
  · next hn =>
    unfold queueForcedFollowup
    split <;> simp [hn]

theorem refreshPromise_adapterChanged : s.adapterChanged.refreshPromise ≠ none := by
  unfold adapterChanged
  split
  · next hsome => exact Option.isSome_iff_ne_none.mp hsome
  · exact refreshPromise_refresh

/-! ### All of them -/

/-- What happens to the passes of an open registry. -/
inductive Step (s : RefreshLoop) : RefreshLoop → Prop
  | stay : Step s s
  | refresh (force : Bool) : Step s (s.record force false (s.refresh force))
  | afterOwnedChange : Step s (s.record true true s.refreshAfterOwnedLaunchChange)
  | adapterChanged : Step s s.adapterChanged
  | runQueuedRefresh : Step s s.runQueuedRefresh
  | runFollowup {k b : Nat} :
      s.followups[k]? = some ⟨b, none⟩ → b ∈ s.ended → Step s (s.runFollowup k)
  | endPass {n : Nat} : s.refreshPromise = some n → Step s (s.endPass false n)

theorem Ok.step (h : Ok s) (hstep : Step s t) : Ok t := by
  cases hstep with
  | stay => exact h
  | refresh force => exact h.recordRefresh force
  | afterOwnedChange => exact h.recordAfterOwnedChange
  | adapterChanged => exact h.adapterChanged
  | runQueuedRefresh => exact h.runQueuedRefresh
  | runFollowup hk hended => exact h.runFollowup hk hended
  | endPass hn =>
    obtain ⟨hforced, hended⟩ := h.current _ hn
    exact h.endPass (List.getElem?_eq_some_iff.mp hforced).1 hended

end RefreshLoop

end AgentHost
