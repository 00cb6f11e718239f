import Mathlib
import AgentHost.Core.CoordinatorLanes

namespace AgentHost.LaunchCoordinator

/-!
# The steps of the launch coordinator

What each action of a task makes of the invariant, and what its task knows afterwards.

* `kept_ledgerStep`, `kept_openStep` — the operations of the ledger.
* `keptBy_invokeRun`, `keptBy_invokeEntry` — the provider calls of an active launch and of an active
  retirement.
* `kept_beginRun`, `keptBy_enqueueBy`, … — who may have a launch created.
* `kept_world`, `inv_restart` — the answers of the providers, and a new process.
-/

open Coordinator

variable {s s' t : Coordinator} {n : Nat}

namespace Coordinator

/-! ### The ledger -/

/-- What becomes of the file and memory keeps what the invariant says of them. -/
structure HostKept (host host' : LedgerHost) : Prop where
  sound : host'.Sound
  ahead : host'.Ahead
  issued : ∀ id ∈ host.issued.map Prod.fst, id ∈ host'.issued.map Prod.fst
  left : ∀ id ∈ host.issued.map Prod.fst, host.Holds (Ledger.LeftRequested id) →
    host'.Holds (Ledger.LeftRequested id)

/-- New permits for launches that were not created. -/
structure Grants (s : Coordinator) (host : LedgerHost) (new : List (String × Option Nat)) :
    Prop where
  nodup : (new.map Prod.fst).Nodup
  apart : ∀ id ∈ new.map Prod.fst, id ∉ s.permits.map Prod.fst ∧ id ∉ s.launched
  issued : ∀ id ∈ new.map Prod.fst, id ∈ host.issued.map Prod.fst

theorem Grants.none (s : Coordinator) (host : LedgerHost) : Grants s host [] where
  nodup := List.nodup_nil
  apart := fun _ hid => by cases hid
  issued := fun _ hid => by cases hid

/-- The permits after a change of the ledger. -/
theorem Permits.grant (h : s.Permits) {host : LedgerHost} {new : List (String × Option Nat)}
    (hhost : HostKept s.host host) (hnew : Grants s host new) :
    Permits { s with host := host, permits := s.permits ++ new } where
  nodup := by
    rw [List.map_append, List.nodup_append]
    refine ⟨h.nodup, hnew.nodup, fun id hid other hother heq => ?_⟩
    exact (hnew.apart other hother).1 (heq ▸ hid)
  issued := fun id hid => by
    rw [List.map_append, List.mem_append] at hid
    obtain hid | hid := hid
    · exact hhost.issued id (h.issued id hid)
    · exact hnew.issued id hid
  queue := fun item hitem hkind => List.mem_append_left _ (h.queue item hitem hkind)
  active := fun run hrun hkind howner => List.mem_append_left _ (h.active run hrun hkind howner)
  launched_nodup := h.launched_nodup
  launched_apart := fun id hid hmem => by
    rw [List.map_append, List.mem_append] at hmem
    obtain hmem | hmem := hmem
    · exact h.launched_apart id hid hmem
    · exact (hnew.apart id hmem).2 hid
  launched_issued := fun id hid => hhost.issued id (h.launched_issued id hid)
  launched_left := fun id hid => hhost.left id (h.launched_issued id hid) (h.launched_left id hid)

/-- The ledger changes while the coordinator is open. -/
theorem kept_host (h : s.Inv) {host : LedgerHost} {new : List (String × Option Nat)}
    (hopening : s.opening = true) (hhost : HostKept s.host host) (hnew : Grants s host new)
    (hnames : ∀ id provider, s.host.Names id provider → host.Names id provider) :
    Kept s { s with host := host, permits := s.permits ++ new } := by
  refine ⟨⟨hhost.sound, hhost.ahead, { h.lanes with }, h.held, ?_, h.permits.grant hhost hnew,
    { h.begun with }, ?_⟩, fun n => ?_⟩
  · refine ⟨fun item hitem => hnames _ _ (h.named.queue item hitem),
      fun run hrun => hnames _ _ (h.named.active run hrun),
      fun entry hentry => ?_, fun entry hentry => ?_⟩
    · exact (h.named.retirementQueue entry hentry).imp_left (hnames _ _)
    · exact (h.named.activeRetirements entry hentry).imp_left (hnames _ _)
  · intro hclosed
    rw [show s.opening = false from hclosed] at hopening
    cases hopening
  · exact { Rely.refl n s with
      permits := fun id hid => List.mem_append_left _ hid
      left := hhost.left
      issued := hhost.issued
      names := fun _ => hnames }

theorem hostKept_call {host : LedgerHost} {op : LedgerOp} (hsound : host.Sound)
    (hahead : host.Ahead) (hfresh : host.IsFresh op) (honward : op.Onward)
    (fault : Option WriteStep) : HostKept host ((host.call op fault).1.issue op) where
  sound := hsound.call hfresh fault
  ahead := hahead.call hsound hfresh honward fault
  issued := fun _ hid => LedgerHost.issued_mono op
    ((LedgerHost.call_issued host op fault).symm ▸ hid)
  left := fun _ hid hleft => LedgerHost.leftRequested_call hleft hsound hfresh honward hid fault

theorem hostKept_crash {host : LedgerHost} {op : LedgerOp} (hsound : host.Sound)
    (hahead : host.Ahead) (hfresh : host.IsFresh op) (honward : op.Onward)
    (before : WriteStep) : HostKept host ((host.crash op before).issue op) where
  sound := hsound.crash hfresh before
  ahead := hahead.crash hsound hfresh honward before
  issued := fun _ hid => LedgerHost.issued_mono op
    ((LedgerHost.crash_issued host op before).symm ▸ hid)
  left := fun _ hid hleft => LedgerHost.leftRequested_crash hleft hsound hfresh honward hid before

theorem hostKept_reopen {host host' : LedgerHost} (hsound : host.Sound)
    (hreopen : host.reopen = some host') : HostKept host host' where
  sound := (hsound.reopen hreopen).1
  ahead := LedgerHost.Ahead.reopen hreopen
  issued := fun _ hid => (LedgerHost.reopen_loads hreopen).2.2.symm ▸ hid
  left := fun _ _ hleft => hleft.reopen hreopen

/-- What a reservation grants is for a new launch. -/
theorem grants_granted (h : s.Inv) {op : LedgerOp} (hfresh : s.host.IsFresh op)
    (fault : Option WriteStep) (n : Nat) :
    Grants s ((s.host.call op fault).1.issue op) (granted n (s.host.call op fault).2) := by
  cases hreply : (s.host.call op fault).2 with
  | error error => exact .none _ _
  | ok reply =>
    cases reply with
    | created record =>
      obtain ⟨-, -, hmade⟩ := LedgerHost.call_record hreply rfl
      have hid : record.id ∈ op.identities.map Prod.fst := List.mem_map_of_mem (hmade rfl)
      have hnew : record.id ∉ s.host.issued.map Prod.fst := fun hmem => hfresh.not_mem hmem hid
      refine ⟨List.nodup_singleton _, fun id hmem => ?_, fun id hmem => ?_⟩
      · obtain rfl := List.mem_singleton.mp hmem
        exact ⟨fun hold => hnew (h.permits.issued _ hold),
          fun hold => hnew (h.permits.launched_issued _ hold)⟩
      · obtain rfl := List.mem_singleton.mp hmem
        rw [LedgerHost.issue, List.map_append]
        exact List.mem_append_right _ hid
    | _ => exact .none _ _

theorem onward_op {request : LedgerRequest} (h : request.Onward)
    (c : Circumstance) : (request.op c).Onward := by
  cases request <;> exact h

/-- A coordinator with an open ledger has begun to start. -/
theorem Inv.opening_of_open (h : s.Inv) (hopen : s.ledgerOpen = true) : s.opening = true := by
  refine Bool.eq_true_of_not_eq_false fun hclosed => ?_
  rw [(h.fresh hclosed).ledgerOpen] at hopen
  cases hopen

theorem Inv.opening_of_started (h : s.Inv) (hstarted : s.started = true) : s.opening = true := by
  refine Bool.eq_true_of_not_eq_false fun hclosed => ?_
  rw [(h.fresh hclosed).started] at hstarted
  cases hstarted

/-- What an operation of the ledger replies, and what its caller knows then. -/
structure Replied (n : Nat) (request : LedgerRequest) (s : Coordinator)
    (result : Except LedgerError LedgerReply) : Prop where
  opening : ∀ reply, result = .ok reply → s.opening = true
  mem : ∀ reply record, result = .ok reply → reply.record? = some record →
    record ∈ s.host.memory.records.values
  left : ∀ reply record, result = .ok reply → reply.record? = some record →
    record.state ≠ .requested → s.host.Holds (Ledger.LeftRequested record.id)
  id : ∀ reply record id, result = .ok reply → reply.record? = some record →
    request.launchId? = some id → record.id = id
  created : ∀ record, result = .ok (.created record) → (record.id, some n) ∈ s.permits

theorem Replied.error {request : LedgerRequest} {error : LedgerError} :
    Replied n request s (.error error) where
  opening := fun _ h => by cases h
  mem := fun _ _ h => by cases h
  left := fun _ _ h => by cases h
  id := fun _ _ _ h => by cases h
  created := fun _ h => by cases h

theorem launchId_op {request : LedgerRequest} {id : String} (h : request.launchId? = some id)
    (c : Circumstance) : (request.op c).launchId = id := by
  cases request with
  | reserve => cases h
  | _ => exact Option.some.inj h

/-- An operation of the ledger. -/
theorem kept_ledgerStep (h : s.Inv) {request : LedgerRequest} (honward : request.Onward)
    {c : Circumstance} {result : Except LedgerError LedgerReply}
    (hstep : s.ledgerStep n request c = some (s', result)) :
    Kept s s' ∧ Replied n request s' result := by
  simp only [ledgerStep] at hstep
  split at hstep
  · obtain ⟨rfl, rfl⟩ := Prod.mk.inj (Option.some.inj hstep)
    exact ⟨.refl h, .error⟩
  next hopen =>
  have hopening := h.opening_of_open (Bool.eq_true_of_not_eq_false hopen)
  split at hstep
  · cases hstep
  next hfresh =>
  rw [Decidable.not_not] at hfresh
  have hop := onward_op honward c
  split at hstep
  · next before hdies =>
    obtain ⟨rfl, rfl⟩ := Prod.mk.inj (Option.some.inj hstep)
    refine ⟨?_, .error⟩
    have hhost := kept_host h hopening (hostKept_crash h.sound h.ahead hfresh hop before)
      (.none _ _) fun id provider hnames => hnames.crash _ before
    refine hhost.trans (Same.kept ?_ hhost.inv)
    exact { Same.refl _ with permits := (List.append_nil _).symm }
  · obtain ⟨rfl, rfl⟩ := Prod.mk.inj (Option.some.inj hstep)
    have hkept := kept_host h hopening (hostKept_call h.sound h.ahead hfresh hop c.fault)
      (grants_granted h hfresh c.fault n) fun id provider hnames =>
        hnames.call h.sound hfresh hop c.fault
    refine ⟨hkept, fun _ _ => hopening, fun reply record hreply hrecord => ?_,
      fun reply record hreply hrecord hstate => ?_, fun reply record id hreply hrecord hid => ?_,
      fun record hreply => ?_⟩
    · exact (LedgerHost.call_record hreply hrecord).1
    · exact LedgerHost.leftRequested_of_mem hkept.inv.ahead
        (LedgerHost.call_record hreply hrecord).1 hstate
    · exact (LedgerHost.call_record hreply hrecord).2.1.trans (launchId_op hid c)
    · rw [hreply]
      exact List.mem_append_right _ (List.mem_singleton.mpr rfl)

/-- What the call that opens the ledger knows of the records it gets. -/
structure Opened (n : Nat) (records : List LaunchRecord) (s : Coordinator) : Prop where
  opening : s.opening = true
  nodup : (records.map LaunchRecord.id).Nodup
  names : ∀ record ∈ records, s.host.Names record.id record.request.provider
  permits : ∀ record ∈ records, record.state = .requested → (record.id, some n) ∈ s.permits

/-- The ledger is opened. -/
theorem kept_openStep (h : s.Inv) {c : Circumstance} {result : Option (List LaunchRecord)}
    (hstep : s.openStep n c = some (s', result)) :
    Kept s s' ∧ ∀ records, result = some records → Opened n records s' := by
  have hbegun : ∀ s : Coordinator, s.Inv → Kept s { s with opening := true } := fun s h =>
    ⟨⟨h.sound, h.ahead, { h.lanes with }, h.held, { h.named with }, { h.permits with },
      { h.begun with }, fun hclosed => by cases hclosed⟩, fun n => { Rely.refl n s with
        opening := fun _ => rfl }⟩
  simp only [openStep] at hstep
  split at hstep
  · cases hstep
  next hopening =>
  split at hstep
  · obtain ⟨rfl, rfl⟩ := Prod.mk.inj (Option.some.inj hstep)
    exact ⟨hbegun s h, fun _ hrecords => by cases hrecords⟩
  split at hstep
  · obtain ⟨rfl, rfl⟩ := Prod.mk.inj (Option.some.inj hstep)
    exact ⟨hbegun s h, fun _ hrecords => by cases hrecords⟩
  next host hreopen =>
  obtain ⟨rfl, rfl⟩ := Prod.mk.inj (Option.some.inj hstep)
  have hfresh := h.fresh (Bool.eq_false_iff.mpr hopening)
  have hhost := hostKept_reopen h.sound hreopen
  have hloads := LedgerHost.reopen_loads hreopen
  have hmem : ∀ id ∈ (resumable n host.memory.records.values).map Prod.fst,
      ∃ record ∈ host.memory.records.values, record.id = id ∧ record.state = .requested := by
    intro id hid
    simp only [resumable, List.map_map, List.mem_map, List.mem_filter, decide_eq_true_eq] at hid
    obtain ⟨record, ⟨hrecord, hstate⟩, heq⟩ := hid
    exact ⟨record, hrecord, heq, hstate⟩
  have hgrants : Grants s host (resumable n host.memory.records.values) := by
    refine ⟨?_, fun id hid => ⟨?_, fun hlaunched => ?_⟩, fun id hid => ?_⟩
    · rw [resumable, List.map_map]
      exact host.memory.records.nodup.sublist (List.filter_sublist.map _)
    · rw [hfresh.permits]
      exact List.not_mem_nil
    · obtain ⟨record, hrecord, heq, hstate⟩ := hmem id hid
      exact (h.permits.launched_left id hlaunched).2 _ hloads.1 record hrecord heq hstate
    · obtain ⟨record, hrecord, rfl, -⟩ := hmem id hid
      exact (hhost.sound.names hrecord).issued
  have hpermits := h.permits.grant hhost hgrants
  refine ⟨⟨⟨hhost.sound, hhost.ahead, { h.lanes with }, h.held, ?_, { hpermits with },
    { h.begun with }, fun hclosed => by cases hclosed⟩, fun m => ?_⟩, fun records hrecords => ?_⟩
  · refine ⟨?_, ?_, ?_, ?_⟩
    · rw [hfresh.queue]
      exact fun _ hitem => by cases hitem
    · rw [hfresh.active]
      exact fun _ hrun => by cases hrun
    · rw [hfresh.retirementQueue]
      exact fun _ hentry => by cases hentry
    · rw [hfresh.activeRetirements]
      exact fun _ hentry => by cases hentry
  · exact { Rely.refl m s with
      permits := fun id hid => List.mem_append_left _ hid
      left := hhost.left
      issued := hhost.issued
      opening := fun _ => rfl
      names := fun hopen => absurd hopen hopening }
  · obtain rfl := Option.some.inj hrecords
    refine ⟨rfl, host.memory.records.nodup, fun record hrecord => hhost.sound.names hrecord,
      fun record hrecord hstate => List.mem_append_right _ ?_⟩
    exact List.mem_map.mpr ⟨record, List.mem_filter.mpr ⟨hrecord, decide_eq_true hstate⟩, rfl⟩

/-! ### Provider calls -/

/-- A call joins the others. -/
theorem getElem?_invoke (s : Coordinator) (call : ProviderCall) {k : Nat}
    {invocation : Invocation} (h : (s.invoke call).invocations[k]? = some invocation) :
    s.invocations[k]? = some invocation ∨
      k = s.invocations.length ∧ invocation = { call := call } := by
  rw [invoke, List.getElem?_append] at h
  split at h
  · exact .inl h
  next hle =>
  obtain ⟨hzero, hget⟩ := List.getElem?_eq_some_iff.mp h
  have hk : k = s.invocations.length := by
    simp only [List.length_singleton] at hzero
    omega
  subst hk
  exact .inr ⟨rfl, by simpa using hget.symm⟩

/-- A new call is pending for the provider that it keeps busy. -/
theorem pending_invoke {call : ProviderCall} {k : Nat} {provider : String}
    (h : (s.invoke call).Pending k provider) :
    s.Pending k provider ∨ k = s.invocations.length ∧ call.lane? = some provider := by
  obtain ⟨invocation, hget, hlive, houtcome, hlane⟩ := h
  obtain hget | ⟨rfl, rfl⟩ := getElem?_invoke s call hget
  · exact .inl ⟨invocation, hget, hlive, houtcome, hlane⟩
  · exact .inr ⟨rfl, hlane⟩

theorem launched_invoke (s : Coordinator) (call : ProviderCall) :
    (s.invoke call).launched = s.launched ++ call.launched?.toList := by
  rw [launched, launched, invoke, List.filterMap_append]
  congr 1

/-- What is settled stays settled. -/
theorem isSettled_invoke (call : ProviderCall) {k : Nat} (h : s.isSettled (some k) = true) :
    (s.invoke call).isSettled (some k) = true := by
  simp only [isSettled, outcomeOf, Option.all_some, invoke] at h ⊢
  cases hget : s.invocations[k]? with
  | none => simp [hget] at h
  | some invocation =>
    have hlt := (List.getElem?_eq_some_iff.mp hget).1
    rw [List.getElem?_append_left hlt, hget]
    rwa [hget] at h

/-- A call that keeps no provider busy and creates nothing. -/
theorem kept_invoke (h : s.Inv) {call : ProviderCall} (hlane : call.lane? = none)
    (hlaunched : call.launched? = none) : Kept s (s.invoke call) := by
  have hsame : (s.invoke call).launched = s.launched := by
    rw [launched_invoke, hlaunched]
    exact List.append_nil _
  refine ⟨⟨h.sound, h.ahead, { h.lanes with }, fun k provider hpending => ?_, { h.named with }, ?_,
    { h.begun with }, fun hclosed => { h.fresh hclosed with }⟩, fun m => ?_⟩
  · obtain hpending | ⟨-, hnew⟩ := pending_invoke hpending
    · exact h.held k provider hpending
    · rw [hlane] at hnew
      cases hnew
  · obtain ⟨hnodup, hissued, hqueue, hactive, hlnodup, hapart, hlissued, hleft⟩ := h.permits
    exact ⟨hnodup, hissued, hqueue, hactive, hsame.symm ▸ hlnodup, hsame.symm ▸ hapart,
      hsame.symm ▸ hlissued, hsame.symm ▸ hleft⟩
  · exact { Rely.refl m s with settled := fun k hk => isSettled_invoke call hk }

/-- The launch that a call creates was permitted to its caller, and has left its request. -/
def Permitted (n : Nat) (s : Coordinator) (call : ProviderCall) : Prop :=
  ∀ id, call.launched? = some id →
    (id, some n) ∈ s.permits ∧ s.host.Holds (Ledger.LeftRequested id)

/-- A permit that is used up, and the call that uses it. -/
theorem permits_spend (h : s.Permits) {call : ProviderCall} (hcall : Permitted n s call)
    (active : InsertionMap ActiveRun.id)
    (hactive : ∀ run ∈ active.values, run.item.kind = .create → run.owner = none →
      (run.id, none) ∈ s.permits) :
    Permits ({ s.spend n call with active := active }.invoke call) := by
  have hlaunched : ∀ s : Coordinator, ∀ active : InsertionMap ActiveRun.id,
      ({ s with active := active }.invoke call).launched =
        s.launched ++ call.launched?.toList := fun s _ => launched_invoke s call
  cases hid : call.launched? with
  | none =>
    have hspend : s.spend n call = s := by cases call <;> first | rfl | cases hid
    have hsame : ({ s with active := active }.invoke call).launched = s.launched := by
      rw [hlaunched, hid]
      exact List.append_nil _
    rw [hspend]
    obtain ⟨hnodup, hissued, hqueue, -, hlnodup, hapart, hlissued, hleft⟩ := h
    exact ⟨hnodup, hissued, hqueue, hactive, hsame.symm ▸ hlnodup, hsame.symm ▸ hapart,
      hsame.symm ▸ hlissued, hsame.symm ▸ hleft⟩
  | some id =>
    obtain ⟨hpermit, hleft⟩ := hcall id hid
    have hissued := h.issued id (List.mem_map_of_mem hpermit)
    have hspend : s.spend n call =
        { s with permits := s.permits.filter fun permit => permit ≠ (id, some n) } := by
      cases call with
      | launch provider record =>
        cases hid
        rfl
      | _ => cases hid
    have hmem : ∀ permit, permit ∈ (s.permits.filter fun permit => permit ≠ (id, some n)) ↔
        permit ∈ s.permits ∧ permit ≠ (id, some n) := fun permit => by
      rw [List.mem_filter, decide_eq_true_eq]
    have hsub : ∀ other ∈ (s.permits.filter fun permit => permit ≠ (id, some n)).map Prod.fst,
        other ∈ s.permits.map Prod.fst := fun other hother =>
      (List.filter_sublist.map _).subset hother
    have hnew : ({ s.spend n call with active := active }.invoke call).launched =
        s.launched ++ [id] := by
      rw [hspend, hlaunched, hid]
      rfl
    have hfresh : id ∉ s.launched := fun hold =>
      h.launched_apart id hold (List.mem_map_of_mem hpermit)
    have hcases : ∀ other ∈ s.launched ++ [id], other ∈ s.launched ∨ other = id :=
      fun other hother => (List.mem_append.mp hother).imp_right List.mem_singleton.mp
    rw [hspend] at hnew ⊢
    refine ⟨h.nodup.sublist (List.filter_sublist.map _), fun other hother =>
      h.issued other (hsub other hother), fun item hitem hkind => ?_,
      fun run hrun hkind howner => ?_, ?_, fun other hother => ?_, fun other hother => ?_,
      fun other hother => ?_⟩
    · exact (hmem _).mpr ⟨h.queue item hitem hkind, by simp⟩
    · exact (hmem _).mpr ⟨hactive run hrun hkind howner, by simp⟩
    · rw [hnew, List.nodup_append]
      refine ⟨h.launched_nodup, List.nodup_singleton _, fun other hother new hmem heq => ?_⟩
      exact hfresh (List.mem_singleton.mp hmem ▸ heq ▸ hother)
    · rw [hnew] at hother
      obtain hother | rfl := hcases other hother
      · exact fun hmem => h.launched_apart other hother (hsub other hmem)
      · intro hmem'
        obtain ⟨permit, hpermit', heq⟩ := List.mem_map.mp hmem'
        obtain ⟨hold, hne⟩ := (hmem permit).mp hpermit'
        exact hne (List.inj_on_of_nodup_map h.nodup hold hpermit heq)
    · rw [hnew] at hother
      obtain hother | rfl := hcases other hother
      · exact h.launched_issued other hother
      · exact hissued
    · rw [hnew] at hother
      obtain hother | rfl := hcases other hother
      · exact h.launched_left other hother
      · exact hleft

/-- What a task knows of the active item that it runs. -/
structure OwnRun (n : Nat) (s : Coordinator) (item : QueueItem) (settled : Option Nat) : Prop where
  run : ∃ run ∈ s.active.values, run.item = item ∧ run.owner = some n ∧
    run.providerSettled = settled

theorem OwnRun.rely {item : QueueItem} {settled : Option Nat} (h : OwnRun n s item settled)
    (hrely : Rely n s s') : OwnRun n s' item settled := by
  obtain ⟨run, hrun, rfl, howner, rfl⟩ := h
  obtain ⟨run', hrun', hitem, howner', hsettled⟩ := hrely.runs run hrun howner
  exact ⟨run', hrun', hitem, howner', hsettled⟩

/-- The active items after one of them changed, all but its provider call. -/
theorem map_updateRun {run : ActiveRun} {β : Type} (f : ActiveRun → β) {new : ActiveRun}
    (hrun : run ∈ s.active.values) (hitem : new.item = run.item) (hf : f run = f new) :
    (s.active.set new).values.map f = s.active.values.map f := by
  have hid : new.id = run.id := congrArg QueueItem.id hitem
  exact InsertionMap.map_set_of_get?_some f (hid ▸ InsertionMap.get?_of_mem hrun) hf

/-- What is queued, active and occupied does not see a change of an active item. -/
theorem lanes_updateRun (h : s.Lanes) {run new : ActiveRun} (hrun : run ∈ s.active.values)
    (hitem : new.item = run.item) : Lanes { s with active := s.active.set new } := by
  have hitems : (({ s with active := s.active.set new } : Coordinator).itemIds) = s.itemIds := by
    simp only [itemIds]
    rw [map_updateRun ActiveRun.id hrun hitem (congrArg QueueItem.id hitem.symm)]
  have hoccupants : (({ s with active := s.active.set new } : Coordinator).occupants) =
      s.occupants := by
    simp only [occupants]
    rw [map_updateRun (fun run => run.item.provider) hrun hitem
      (congrArg QueueItem.provider hitem.symm)]
  exact ⟨hitems.symm ▸ h.items_nodup, h.entries_nodup, h.tracked,
    fun provider => hoccupants.symm ▸ h.counts provider, hoccupants.symm ▸ h.lanes_nodup,
    hoccupants.symm ▸ h.room⟩

/-- The active items after a change of one of them. -/
theorem mem_updateRun {run new other : ActiveRun} (hitem : new.item = run.item)
    (hother : other ∈ (s.active.set new).values) :
    other = new ∨ other ∈ s.active.values ∧ other.id ≠ run.id := by
  have hid : new.id = run.id := congrArg QueueItem.id hitem
  exact (InsertionMap.mem_set.mp hother).imp_right fun hold => hid ▸ hold

theorem named_updateRun (h : s.Named) {run new : ActiveRun} (hrun : run ∈ s.active.values)
    (hitem : new.item = run.item) : Named { s with active := s.active.set new } := by
  refine { h with active := fun other hother => ?_ }
  obtain rfl | ⟨hold, -⟩ := mem_updateRun hitem hother
  · have hnames := h.active run hrun
    rwa [show other.id = run.id from congrArg QueueItem.id hitem, hitem]
  · exact h.active other hold

/-- An active item whose provider call is being made, by its task. -/
theorem keptBy_invokeRun (h : s.Inv) {item : QueueItem} (hown : OwnRun n s item none)
    {call : ProviderCall} (hlane : call.lane? = some item.provider)
    (hcall : Permitted n s call) :
    KeptBy n s (s.invokeStep n call (.run item.id)) ∧
      OwnRun n (s.invokeStep n call (.run item.id)) item (some s.invocations.length) := by
  obtain ⟨run, hrun, rfl, howner, hsettled⟩ := hown
  have hspendActive : (s.spend n call).active = s.active := by cases call <;> rfl
  have hget : s.active.get? run.item.id = some run := InsertionMap.get?_of_mem hrun
  have hstep : s.invokeStep n call (.run run.item.id) =
      { s.spend n call with
        active := s.active.set { run with providerSettled := some s.invocations.length }
        }.invoke call := by
    simp only [invokeStep, keepIn, updateRun, hspendActive, hget]
  rw [hstep]
  have hspend : s.spend n call = { s with permits := (s.spend n call).permits } := by
    cases call <;> rfl
  have hpermits := permits_spend h.permits hcall
    (s.active.set { run with providerSettled := some s.invocations.length })
    fun other hother hkind hnone => by
      obtain rfl | ⟨hold, -⟩ := mem_updateRun rfl hother
      · rw [show run.owner = none from hnone] at howner
        cases howner
      · exact h.permits.active other hold hkind hnone
  have hlanes : Lanes { s with
      active := s.active.set { run with providerSettled := some s.invocations.length } } :=
    lanes_updateRun h.lanes hrun rfl
  have hnamed : Named { s with
      active := s.active.set { run with providerSettled := some s.invocations.length } } :=
    named_updateRun h.named hrun rfl
  have hkept : ∀ id m, m ≠ n → (id, some m) ∈ s.permits →
      (id, some m) ∈ (s.spend n call).permits := by
    intro id m hm hid
    cases call with
    | launch provider record =>
      refine List.mem_filter.mpr ⟨hid, decide_eq_true fun heq => hm ?_⟩
      exact Option.some.inj (Prod.mk.inj heq).2
    | _ => exact hid
  rw [hspend] at hpermits ⊢
  refine ⟨⟨⟨h.sound, h.ahead, { hlanes with }, fun k provider hpending => ?_, { hnamed with },
    hpermits, ?_, fun hclosed => ?_⟩, fun m hm => ?_⟩, ?_⟩
  · obtain hpending | ⟨rfl, hnew⟩ := pending_invoke hpending
    · obtain ⟨other, hother, hprovider, hk⟩ | hentry := h.held k provider hpending
      · refine .inl ⟨other, InsertionMap.mem_set.mpr (.inr ⟨hother, fun heq => ?_⟩), hprovider, hk⟩
        have hsame : other = run := s.active.eq_of_key_eq hother hrun heq
        rw [hsame, hsettled] at hk
        cases hk
      · exact .inr hentry
    · rw [hlane] at hnew
      exact .inl ⟨_, InsertionMap.mem_set_self _ _, Option.some.inj hnew, rfl⟩
  · refine { h.begun with runs := fun other hother hnone => ?_ }
    obtain rfl | ⟨hold, -⟩ := mem_updateRun rfl hother
    · rw [show run.owner = none from hnone] at howner
      cases howner
    · exact h.begun.runs other hold hnone
  · rw [(h.fresh hclosed).active] at hrun
    cases hrun
  · refine { Rely.refl m s with
      permits := fun id hid => hkept id m hm hid
      runs := fun other hother howner' => ?_
      settled := fun k hk => isSettled_invoke call hk }
    refine ⟨other, InsertionMap.mem_set.mpr (.inr ⟨hother, fun heq => hm ?_⟩), rfl, howner', rfl⟩
    have hsame : other = run := s.active.eq_of_key_eq hother hrun heq
    rw [hsame, howner] at howner'
    exact (Option.some.inj howner').symm
  · exact ⟨_, InsertionMap.mem_set_self _ _, rfl, howner, rfl⟩

/-- What a task knows of the retirement that it runs. -/
structure OwnEntry (n : Nat) (s : Coordinator) (entry : RetirementEntry) (settled : Option Nat) :
    Prop where
  active : entry ∈ s.activeRetirements.values
  owner : s.entryOwner entry.serial = some n
  settled : s.entrySettled entry.serial = settled

theorem OwnEntry.rely {entry : RetirementEntry} {settled : Option Nat}
    (h : OwnEntry n s entry settled) (hrely : Rely n s s') : OwnEntry n s' entry settled := by
  obtain ⟨hactive, howner, hsettled⟩ := hrely.entries entry h.active h.owner
  exact ⟨hactive, howner, hsettled.trans h.settled⟩

/-- An active retirement whose provider call is being made, by its task. -/
theorem keptBy_invokeEntry (h : s.Inv) {entry : RetirementEntry} (hown : OwnEntry n s entry none)
    (call : ProviderCall) (hlane : call.lane? = some entry.provider)
    (hlaunched : call.launched? = none) :
    KeptBy n s ((s.keepIn (.entry entry.serial) s.invocations.length).invoke call) ∧
      OwnEntry n ((s.keepIn (.entry entry.serial) s.invocations.length).invoke call) entry
        (some s.invocations.length) := by
  have hother : ∀ serial, serial ≠ entry.serial →
      Function.update s.entrySettled entry.serial (some s.invocations.length) serial =
        s.entrySettled serial := fun serial hne => Function.update_of_ne hne _ _
  have hself : Function.update s.entrySettled entry.serial (some s.invocations.length)
      entry.serial = some s.invocations.length := Function.update_self _ _ _
  have hsame : ((s.keepIn (.entry entry.serial) s.invocations.length).invoke call).launched =
      s.launched := by
    rw [launched_invoke, hlaunched]
    exact List.append_nil _
  refine ⟨⟨⟨h.sound, h.ahead, { h.lanes with }, fun k provider hpending => ?_, { h.named with }, ?_,
    ?_, fun hclosed => ?_⟩, fun m hm => ?_⟩, ⟨hown.active, hown.owner, hself⟩⟩
  · obtain hpending | ⟨rfl, hnew⟩ := pending_invoke hpending
    · obtain hrun | ⟨other, hmem, hprovider, hk⟩ := h.held k provider hpending
      · exact .inl hrun
      · refine .inr ⟨other, hmem, hprovider, ?_⟩
        by_cases hserial : other.serial = entry.serial
        · rw [hserial, hown.settled] at hk
          cases hk
        · exact (hother _ hserial).trans hk
    · rw [hlane] at hnew
      exact .inr ⟨entry, hown.active, Option.some.inj hnew, hself⟩
  · obtain ⟨hnodup, hissued, hqueue, hactive, hlnodup, hapart, hlissued, hleft⟩ := h.permits
    exact ⟨hnodup, hissued, hqueue, hactive, hsame.symm ▸ hlnodup, hsame.symm ▸ hapart,
      hsame.symm ▸ hlissued, hsame.symm ▸ hleft⟩
  · refine { h.begun with entries := fun serial hnone => ?_ }
    have hne : serial ≠ entry.serial := fun heq => by
      rw [heq] at hnone
      cases hown.owner.symm.trans hnone
    exact (hother serial hne).trans (h.begun.entries serial hnone)
  · have hmem := hown.active
    rw [(h.fresh hclosed).activeRetirements] at hmem
    cases hmem
  · refine { Rely.refl m s with
      entries := fun other hmem howner => ⟨hmem, howner, ?_⟩
      settled := fun k hk => isSettled_invoke call hk }
    refine hother _ fun heq => hm ?_
    rw [heq, hown.owner] at howner
    exact (Option.some.inj howner).symm

/-! ### Tasks take over -/

/-- An active item changes in nothing that matters to others. -/
theorem kept_updateRun (h : s.Inv) (id : String) {f : ActiveRun → ActiveRun}
    (hf : ∀ run, (f run).item = run.item ∧ (f run).owner = run.owner ∧
      (f run).providerSettled = run.providerSettled) : Kept s (s.updateRun id f) := by
  unfold updateRun
  split
  · exact .refl h
  next run hget =>
  obtain ⟨hrun, -⟩ := InsertionMap.get?_eq_some_iff.mp hget
  obtain ⟨hitem, howner, hsettled⟩ := hf run
  have hid : (f run).id = run.id := congrArg QueueItem.id hitem
  have hkeep : ∀ other ∈ s.active.values, ∃ new ∈ (s.active.set (f run)).values,
      new.item = other.item ∧ new.owner = other.owner ∧
        new.providerSettled = other.providerSettled := by
    intro other hother
    by_cases heq : other.id = run.id
    · have hsame : other = run := s.active.eq_of_key_eq hother hrun heq
      exact ⟨f run, InsertionMap.mem_set_self _ _, hsame ▸ hitem, hsame ▸ howner,
        hsame ▸ hsettled⟩
    · exact ⟨other, InsertionMap.mem_set.mpr (.inr ⟨hother, fun h => heq (h.trans hid)⟩), rfl, rfl,
        rfl⟩
  refine ⟨⟨h.sound, h.ahead, lanes_updateRun h.lanes hrun hitem, fun k provider hpending => ?_,
    named_updateRun h.named hrun hitem, ?_, ?_, fun hclosed => ?_⟩, fun m => ?_⟩
  · obtain ⟨other, hother, hprovider, hk⟩ | hentry := h.held k provider hpending
    · obtain ⟨new, hnew, hitem', -, hsettled'⟩ := hkeep other hother
      exact .inl ⟨new, hnew, hitem' ▸ hprovider, hsettled'.trans hk⟩
    · exact .inr hentry
  · refine { h.permits with active := fun other hother hkind hnone => ?_ }
    obtain rfl | ⟨hold, -⟩ := mem_updateRun hitem hother
    · rw [hid]
      exact h.permits.active run hrun (hitem ▸ hkind) (howner.symm.trans hnone)
    · exact h.permits.active other hold hkind hnone
  · refine { h.begun with runs := fun other hother hnone => ?_ }
    obtain rfl | ⟨hold, -⟩ := mem_updateRun hitem hother
    · exact hsettled.trans (h.begun.runs run hrun (howner.symm.trans hnone))
    · exact h.begun.runs other hold hnone
  · rw [(h.fresh hclosed).active] at hrun
    cases hrun
  · refine { Rely.refl m s with runs := fun other hother hmine => ?_ }
    obtain ⟨new, hnew, hitem', howner', hsettled'⟩ := hkeep other hother
    exact ⟨new, hnew, hitem', howner'.trans hmine, hsettled'⟩

/-- The permits after one of them passed on. -/
theorem mem_passPermit {id : String} {holder next : Option Nat} {permit : String × Option Nat} :
    permit ∈ (s.passPermit id holder next).permits ↔
      permit ∈ s.permits ∧ permit ≠ (id, holder) ∨
        (id, holder) ∈ s.permits ∧ permit = (id, next) := by
  rw [passPermit, List.mem_map]
  constructor
  · rintro ⟨old, hold, rfl⟩
    split
    · next heq => exact .inr ⟨heq ▸ hold, rfl⟩
    · next hne => exact .inl ⟨hold, hne⟩
  · rintro (⟨hmem, hne⟩ | ⟨hmem, rfl⟩)
    · exact ⟨permit, hmem, if_neg hne⟩
    · exact ⟨_, hmem, if_pos rfl⟩

theorem passPermit_ids (s : Coordinator) (id : String) (holder next : Option Nat) :
    (s.passPermit id holder next).permits.map Prod.fst = s.permits.map Prod.fst := by
  rw [passPermit, List.map_map]
  refine List.map_congr_left fun permit _ => ?_
  simp only [Function.comp_apply]
  split
  · next heq => rw [heq]
  · rfl

/-- A permit passes to or from a call. -/
theorem permits_passPermit (h : s.Permits) {id : String} {holder next : Option Nat}
    (hqueue : ∀ item ∈ s.queue, item.kind = .create → holder = none → item.id ≠ id)
    (hactive : ∀ run ∈ s.active.values, run.item.kind = .create → run.owner = none →
      holder = none → run.id ≠ id) : Permits (s.passPermit id holder next) := by
  have hids := passPermit_ids s id holder next
  refine ⟨hids.symm ▸ h.nodup, hids.symm ▸ h.issued, fun item hitem hkind => ?_,
    fun run hrun hkind hnone => ?_, h.launched_nodup, hids.symm ▸ h.launched_apart,
    h.launched_issued, h.launched_left⟩
  · refine mem_passPermit.mpr (.inl ⟨h.queue item hitem hkind, fun heq => ?_⟩)
    exact hqueue item hitem hkind (Prod.mk.inj heq).2.symm (Prod.mk.inj heq).1
  · refine mem_passPermit.mpr (.inl ⟨h.active run hrun hkind hnone, fun heq => ?_⟩)
    exact hactive run hrun hkind hnone (Prod.mk.inj heq).2.symm (Prod.mk.inj heq).1

/-- A call gives its permit to the queue. -/
theorem keptBy_passPermit (h : s.Inv) (id : String) :
    KeptBy n s (s.passPermit id (some n) none) := by
  refine ⟨⟨h.sound, h.ahead, { h.lanes with }, h.held, { h.named with },
    permits_passPermit h.permits (fun _ _ _ hnone => by cases hnone)
      (fun _ _ _ _ hnone => by cases hnone), { h.begun with }, fun hclosed => ?_⟩, fun m hm => ?_⟩
  · have hnil := (h.fresh hclosed).permits
    exact { h.fresh hclosed with permits := by rw [passPermit, hnil]; rfl }
  · refine { Rely.refl m s with permits := fun other hother => ?_ }
    refine mem_passPermit.mpr (.inl ⟨hother, fun heq => hm ?_⟩)
    exact Option.some.inj (Prod.mk.inj heq).2

/-- What a call knows that is about to queue a launch. -/
structure MayEnqueue (n : Nat) (s : Coordinator) (item : QueueItem) : Prop where
  opening : s.opening = true
  names : s.host.Names item.id item.provider
  permit : item.kind = .create → (item.id, some n) ∈ s.permits

theorem MayEnqueue.rely {item : QueueItem} (h : MayEnqueue n s item) (hrely : Rely n s s') :
    MayEnqueue n s' item :=
  ⟨hrely.opening h.opening, hrely.names h.opening _ _ h.names,
    fun hkind => hrely.permits _ (h.permit hkind)⟩

/-- A call queues a launch; it keeps its other permits. -/
theorem keptBy_enqueueBy (h : s.Inv) {item : QueueItem} (hmay : MayEnqueue n s item) :
    KeptBy n s (s.enqueueBy n item) ∧ ∀ other, MayEnqueue n s other → other.id ≠ item.id →
      MayEnqueue n (s.enqueueBy n item) other := by
  unfold enqueueBy
  split
  · next hkind =>
    have hpass := keptBy_passPermit (n := n) h item.id
    have hqueue := kept_enqueue hpass.inv hmay.opening hmay.names fun _ =>
      mem_passPermit.mpr (.inr ⟨hmay.permit hkind, rfl⟩)
    refine ⟨hpass.trans hqueue, fun other hother hne => ?_⟩
    have hstill : MayEnqueue n (s.passPermit item.id (some n) none) other :=
      ⟨hother.opening, hother.names, fun hkind' =>
        mem_passPermit.mpr (.inl ⟨hother.permit hkind', fun heq => hne (Prod.mk.inj heq).1⟩)⟩
    exact hstill.rely (hqueue.rely n)
  · next hkind =>
    have hqueue := kept_enqueue h hmay.opening hmay.names fun hcreate => by
      rw [hkind] at hcreate
      cases hcreate
    exact ⟨hqueue.keptBy n, fun other hother _ => hother.rely (hqueue.rely n)⟩

theorem keptBy_accept (h : s.Inv) {record : LaunchRecord}
    (hmay : MayEnqueue n s ⟨record.id, .create, record.request.provider⟩) :
    KeptBy n s (s.accept n record) := by
  have hemit : Kept s (s.emit record "accepted") := Same.kept { Same.refl s with } h
  have hqueue := (keptBy_enqueueBy hemit.inv (hmay.rely (hemit.rely n))).1
  refine ⟨(hqueue.trans (kept_pump hqueue.inv)).inv, fun m hm => ?_⟩
  exact (hemit.rely m).trans ((hqueue.trans (kept_pump hqueue.inv)).rely m hm)

/-- What a task knows once it runs an active item. -/
structure Running (n : Nat) (s : Coordinator) (item : QueueItem) (record : Option LaunchRecord) :
    Prop where
  own : OwnRun n s item none
  opening : s.opening = true
  names : s.host.Names item.id item.provider
  permit : item.kind = .create → (item.id, some n) ∈ s.permits
  record : ∀ found, record = some found →
    found.id = item.id ∧ found.request.provider = item.provider

/-- An active item that nobody runs yet gets its task. -/
theorem kept_own (h : s.Inv) {run : ActiveRun} (hrun : run ∈ s.active.values)
    (hnone : run.owner = none) :
    Kept s { s with active := s.active.set { run with owner := some n } } := by
  have hsettled := h.begun.runs run hrun hnone
  have hkeep : ∀ other ∈ s.active.values, other = run ∨
      other ∈ (s.active.set { run with owner := some n }).values := by
    intro other hother
    by_cases heq : other.id = run.id
    · exact .inl (s.active.eq_of_key_eq hother hrun heq)
    · exact .inr (InsertionMap.mem_set.mpr (.inr ⟨hother, heq⟩))
  refine ⟨⟨h.sound, h.ahead, lanes_updateRun h.lanes hrun rfl, fun k provider hpending => ?_,
    named_updateRun h.named hrun rfl, ?_, ?_, fun hclosed => ?_⟩, fun m => ?_⟩
  · obtain ⟨other, hother, hprovider, hk⟩ | hentry := h.held k provider hpending
    · obtain rfl | hnew := hkeep other hother
      · rw [hsettled] at hk
        cases hk
      · exact .inl ⟨other, hnew, hprovider, hk⟩
    · exact .inr hentry
  · refine { h.permits with active := fun other hother hkind hnone' => ?_ }
    obtain rfl | ⟨hold, -⟩ := mem_updateRun rfl hother
    · cases hnone'
    · exact h.permits.active other hold hkind hnone'
  · refine { h.begun with runs := fun other hother hnone' => ?_ }
    obtain rfl | ⟨hold, -⟩ := mem_updateRun rfl hother
    · cases hnone'
    · exact h.begun.runs other hold hnone'
  · rw [(h.fresh hclosed).active] at hrun
    cases hrun
  · refine { Rely.refl m s with runs := fun other hother hmine => ?_ }
    obtain rfl | hnew := hkeep other hother
    · cases hnone.symm.trans hmine
    · exact ⟨other, hnew, rfl, hmine, rfl⟩

/-- The permit of an active item passes from the queue to its task. -/
theorem kept_takePermit (h : s.Inv) {run : ActiveRun} (hrun : run ∈ s.active.values)
    (howner : run.owner = some n) : Kept s (s.passPermit run.id none (some n)) := by
  refine ⟨⟨h.sound, h.ahead, { h.lanes with }, h.held, { h.named with },
    permits_passPermit h.permits (fun item hitem _ _ heq => ?_)
      (fun other hother _ hnone _ heq => ?_), { h.begun with }, fun hclosed => ?_⟩, fun m => ?_⟩
  · have hget := InsertionMap.get?_eq_none_iff.mp (h.lanes.not_active hitem)
    exact hget run hrun heq.symm
  · have hsame : other = run := s.active.eq_of_key_eq hother hrun heq
    rw [hsame, howner] at hnone
    cases hnone
  · rw [(h.fresh hclosed).active] at hrun
    cases hrun
  · exact { Rely.refl m s with
      permits := fun other hother => mem_passPermit.mpr (.inl ⟨hother, by simp⟩) }

/-- A task takes over an active item. -/
theorem kept_beginRun (h : s.Inv) {id : String} {item : QueueItem} {record : Option LaunchRecord}
    (hstep : s.beginRun n id = some (s', item, record)) :
    Kept s s' ∧ item.id = id ∧ Running n s' item record := by
  unfold beginRun at hstep
  split at hstep
  · cases hstep
  next run hget =>
  split at hstep
  · cases hstep
  next hnone =>
  rw [Bool.not_eq_true, Option.isSome_eq_false_iff, Option.isNone_iff_eq_none] at hnone
  obtain ⟨hrun, rfl⟩ := InsertionMap.get?_eq_some_iff.mp hget
  have hbegun : s.updateRun run.id (fun run => { run with owner := some n }) =
      { s with active := s.active.set { run with owner := some n } } := by
    rw [updateRun, hget]
  have hown := kept_own (n := n) h hrun hnone
  have hnames := h.named.active run hrun
  have hopening : s.opening = true := by
    refine Bool.eq_true_of_not_eq_false fun hclosed => ?_
    rw [(h.fresh hclosed).active] at hrun
    cases hrun
  have hmem : ({ run with owner := some n } : ActiveRun) ∈
      (s.active.set { run with owner := some n }).values := InsertionMap.mem_set_self _ _
  have hrecord : ∀ found, s.host.memory.records.get? run.id = some found →
      found.id = run.item.id ∧ found.request.provider = run.item.provider := by
    intro found hfound
    obtain ⟨hmem', hid⟩ := InsertionMap.get?_eq_some_iff.mp hfound
    exact ⟨hid, hnames.memory found hmem' hid⟩
  rw [hbegun] at hstep
  obtain ⟨rfl, rfl, rfl⟩ : _ ∧ run.item = item ∧ s.host.memory.records.get? run.id = record := by
    simpa using hstep
  have hsettled := h.begun.runs run hrun hnone
  cases hkind : run.item.kind with
  | create =>
    have htake := kept_takePermit (n := n) hown.inv hmem rfl
    refine ⟨hown.trans htake, rfl, ⟨⟨_, hmem, rfl, rfl, hsettled⟩, hopening, hnames,
      fun _ => ?_, hrecord⟩⟩
    exact mem_passPermit.mpr (.inr ⟨h.permits.active run hrun hkind hnone, rfl⟩)
  | reconcile =>
    refine ⟨hown, rfl, ⟨⟨_, hmem, rfl, rfl, hsettled⟩, hopening, hnames, fun hcreate => ?_,
      hrecord⟩⟩
    rw [hkind] at hcreate
    cases hcreate

/-- A task takes over an active retirement. -/
theorem kept_beginRetirementRun (h : s.Inv) {serial : Nat} {entry : RetirementEntry}
    (hstep : s.beginRetirementRun n serial = some (s', entry)) :
    Kept s s' ∧ OwnEntry n s' entry none ∧ s'.opening = true ∧
      s'.host.Names entry.id entry.provider ∧ entry.provider = entry.record.request.provider ∧
      entry.serial = serial := by
  unfold beginRetirementRun at hstep
  split at hstep
  · cases hstep
  next found hfind =>
  split at hstep
  · cases hstep
  next hnone =>
  rw [Bool.not_eq_true, Option.isSome_eq_false_iff, Option.isNone_iff_eq_none] at hnone
  obtain ⟨rfl, rfl⟩ := Prod.mk.inj (Option.some.inj hstep)
  have hserial : found.serial = serial := by simpa using List.find?_some hfind
  have hmem := List.mem_of_find?_eq_some hfind
  have hopening : s.opening = true := by
    refine Bool.eq_true_of_not_eq_false fun hclosed => ?_
    rw [(h.fresh hclosed).activeRetirements] at hmem
    cases hmem
  have hsettled := h.begun.entries serial hnone
  refine ⟨⟨⟨h.sound, h.ahead, { h.lanes with }, h.held, { h.named with }, { h.permits with }, ?_,
    fun hclosed => { h.fresh hclosed with }⟩, fun m => ?_⟩, ⟨hmem, ?_, hserial ▸ hsettled⟩,
    hopening, (h.named.activeRetirements found hmem).1, (h.named.activeRetirements found hmem).2, hserial⟩
  · refine { h.begun with entries := fun other hother => h.begun.entries other ?_ }
    by_cases heq : other = serial
    · subst heq
      exact hnone
    · exact (Function.update_of_ne heq _ _).symm.trans hother
  · refine { Rely.refl m s with entries := fun other hother howner => ⟨hother, ?_, rfl⟩ }
    have hne : other.serial ≠ serial := fun heq => by
      rw [heq, hnone] at howner
      cases howner
    exact (Function.update_of_ne hne _ _).trans howner
  · rw [hserial]
    exact Function.update_self _ _ _

/-! ### Retirements -/

theorem kept_resumeRetirement (h : s.Inv) {record : LaunchRecord} (hopening : s.opening = true)
    (hnames : s.host.Names record.id record.request.provider) :
    Kept s (s.resumeRetirement record) := by
  unfold resumeRetirement
  split
  · exact .refl h
  next hnew =>
  rw [not_or, Bool.not_eq_true] at hnew
  exact kept_trackRetirement h hopening hnames hnew.1

/-- What is tracked is a launch of the ledger whose retirement is not tracked yet. -/
theorem admitRetireKey_track {id keyHash keyHash' : String} {record : LaunchRecord}
    {replayed : Bool} (h : s.admitRetireKey id keyHash = .ok (.track record keyHash' replayed)) :
    record ∈ s.host.memory.records.values ∧ s.retirements.has record.id = false := by
  simp only [admitRetireKey] at h
  split at h
  · cases h
  split at h
  · cases h
  split at h
  · split at h <;> cases h
  split at h
  · cases h
  split at h
  · cases h
  split at h
  · cases h
  next found hget =>
  simp only [admitRecord] at h
  split at h
  · cases h
  split at h
  · cases h
  split at h
  · split at h <;> cases h
  next hnone =>
  split at h
  · cases h
  split at h
  · cases h
  cases h
  refine ⟨InsertionMap.mem_of_get? hget, ?_⟩
  rw [InsertionMap.has, hnone]
  rfl

/-- Nothing is tracked before the coordinator has started. -/
theorem admitRetire_track {env : LaunchEnv} {id key keyHash : String} {payload : Json}
    {record : LaunchRecord} {replayed : Bool}
    (h : s.admitRetire env id payload key = .ok (.track record keyHash replayed)) :
    s.started = true ∧ record ∈ s.host.memory.records.values ∧
      s.retirements.has record.id = false := by
  simp only [admitRetire] at h
  split at h
  · cases h
  next hstarted =>
  split at h
  · cases h
  split at h
  · cases h
  split at h
  · cases h
  exact ⟨Bool.eq_true_of_not_eq_false hstarted, admitRetireKey_track h⟩

theorem admitSubmit_started {env : LaunchEnv} {payload : Json} {key : String}
    {admission : Admission} (h : s.admitSubmit env payload key = .ok admission) :
    s.started = true := by
  simp only [admitSubmit] at h
  split at h
  · cases h
  · next hstarted => exact Bool.eq_true_of_not_eq_false hstarted

theorem kept_retireStep (h : s.Inv) (env : LaunchEnv) (id : String) (payload : Json)
    (key : String) : Kept s (s.retireStep env id payload key).1 := by
  unfold retireStep
  split
  · exact .refl h
  · exact .refl h
  · exact .refl h
  · next record keyHash replayed htrack =>
    obtain ⟨hstarted, hrecord, hnew⟩ := admitRetire_track htrack
    exact kept_trackRetirement h (h.opening_of_started hstarted) (h.sound.names hrecord) hnew

/-- The preparation of an owned launch starts. -/
theorem kept_startRetirement (h : s.Inv) (entry : RetirementEntry) :
    Kept s (s.startRetirement entry).1 := by
  unfold startRetirement
  split
  · exact .refl h
  split
  · have hsame : Kept s { s with
        preparations := Function.update s.preparations entry.record.request.provider
          (some s.invocations.length) } := Same.kept { Same.refl s with } h
    exact hsame.trans (kept_invoke hsame.inv rfl rfl)
  · exact .refl h

/-- A preparation is released, by the task of its retirement. -/
theorem keptBy_releasePreparation (h : s.Inv) {entry : RetirementEntry}
    (hown : OwnEntry n s entry none) (hprovider : entry.provider = entry.record.request.provider) :
    KeptBy n s (s.releasePreparation entry) ∧
      OwnEntry n (s.releasePreparation entry) entry (some s.invocations.length) := by
  have hsame : Kept s { s with
      admissionFences := Function.update s.admissionFences entry.keyHash (some entry.record.id) } :=
    Same.kept { Same.refl s with } h
  obtain ⟨hkept, hown'⟩ := keptBy_invokeEntry hsame.inv (hown.rely (hsame.rely n))
    (.cancelLaunchRetirementPreparation entry.record.request.provider entry.record entry.keyHash)
    (congrArg some hprovider.symm) rfl
  exact ⟨⟨hkept.inv, fun m hm => (hsame.rely m).trans (hkept.rely m hm)⟩, hown'⟩

/-! ### What concerns neither queues nor ledger -/

theorem same_enqueueRetirementCleanup (s : Coordinator) (cleanup : RetirementCleanup) :
    Same s (s.enqueueRetirementCleanup cleanup) := by
  unfold enqueueRetirementCleanup pumpRetirementCleanup
  split
  · exact .refl s
  · split <;> exact { Same.refl s with }

theorem Same.trans (h : Same s s') (h' : Same s' t) (hopening : s'.opening = s.opening) :
    Same s t where
  host := h'.host.trans h.host
  opening := h'.opening.trans h.opening
  started := fun hnow => by
    obtain hold | hold := h'.started hnow
    · exact h.started hold
    · exact .inr (hopening ▸ hold)
  ledgerOpen := fun hnow => h.ledgerOpen (h'.ledgerOpen hnow)
  queue := h'.queue.trans h.queue
  active := h'.active.trans h.active
  activeProviders := h'.activeProviders.trans h.activeProviders
  retirements := h'.retirements.trans h.retirements
  retirementQueue := h'.retirementQueue.trans h.retirementQueue
  activeRetirements := h'.activeRetirements.trans h.activeRetirements
  entrySettled := h'.entrySettled.trans h.entrySettled
  entryOwner := h'.entryOwner.trans h.entryOwner
  invocations := h'.invocations.trans h.invocations
  permits := h'.permits.trans h.permits

theorem same_foldl_cleanups (cleanups : List RetirementCleanup) (s : Coordinator) :
    Same s (cleanups.foldl enqueueRetirementCleanup s) := by
  induction cleanups generalizing s with
  | nil => exact .refl s
  | cons cleanup rest ih =>
    have hfirst := same_enqueueRetirementCleanup s cleanup
    exact hfirst.trans (ih _) hfirst.opening

theorem same_markStarted (hopening : s.opening = true) : Same s s.markStarted := by
  have hfirst : Same s { s with started := true } :=
    { Same.refl s with started := fun _ => .inr hopening }
  exact hfirst.trans (same_foldl_cleanups _ _) rfl

theorem same_announceRetired (s : Coordinator) (entry : Retirement) :
    Same s (s.announceRetired entry) := by
  have hfirst : Same s (s.emitRetired entry) := { Same.refl s with }
  exact hfirst.trans (same_enqueueRetirementCleanup _ _) rfl

theorem same_resolveRetirement (s : Coordinator) (serial : Nat)
    (result : Except CoordinatorError Retirement) : Same s (s.resolveRetirement serial result) := by
  unfold resolveRetirement
  split
  · exact .refl s
  · exact { Same.refl s with }

theorem same_dropFence (s : Coordinator) (keyHash id : String) :
    Same s (s.dropFence keyHash id) := by
  unfold dropFence
  split
  · exact { Same.refl s with }
  · exact .refl s

theorem same_nextCleanup {result : Option RetirementCleanup}
    (hstep : s.nextCleanup = some (s', result)) : Same s s' := by
  unfold nextCleanup at hstep
  split at hstep
  · cases hstep
  split at hstep
  · cases hstep
    exact { Same.refl s with }
  split at hstep
  · cases hstep
    exact { Same.refl s with }
  · cases hstep
    exact { Same.refl s with }

/-- Nothing queued starts any more. -/
theorem kept_beginStop (h : s.Inv) : Kept s s.beginStop.1 := by
  unfold beginStop
  split
  · exact .refl h
  refine ⟨⟨h.sound, h.ahead, ?_, h.held, ?_, ?_, { h.begun with }, fun hclosed => ?_⟩,
    fun m => { Rely.refl m s with }⟩
  · have hentries := List.nodup_append.mp h.lanes.entries_nodup
    refine { h.lanes with
      items_nodup := (List.nodup_append.mp h.lanes.items_nodup).2.1
      entries_nodup := hentries.2.1
      tracked := fun id hid => ?_ }
    have htracked := h.lanes.tracked id (List.mem_append_right _ hid)
    obtain ⟨entry, hget⟩ := Option.isSome_iff_exists.mp htracked
    obtain ⟨hmem, rfl⟩ := InsertionMap.get?_eq_some_iff.mp hget
    have hnot : entry ∉ s.retirementQueue := fun hqueued =>
      hentries.2.2 entry.id (List.mem_map_of_mem hqueued) entry.id hid rfl
    refine InsertionMap.key_mem_iff.mp (List.mem_map_of_mem ?_)
    exact List.mem_filter.mpr ⟨hmem, by simpa using hnot⟩
  · exact { h.named with
      queue := fun _ hitem => by cases hitem
      retirementQueue := fun _ hentry => by cases hentry }
  · exact { h.permits with queue := fun _ hitem => by cases hitem }
  · exact { h.fresh hclosed with queue := rfl, retirementQueue := rfl }

/-! ### Providers and processes -/

/-- A change of a call that leaves alone what it asks for. -/
theorem map_set_of_same {α β : Type} {l : List α} {k : Nat} {a b : α} (f : α → β)
    (hget : l[k]? = some a) (hf : f b = f a) : (l.set k b).map f = l.map f := by
  refine List.ext_getElem? fun i => ?_
  rw [List.getElem?_map, List.getElem?_map, List.getElem?_set]
  split
  · next heq =>
    subst heq
    have hlt := (List.getElem?_eq_some_iff.mp hget).1
    rw [if_pos hlt, hget, Option.map_some, Option.map_some, hf]
  · rfl

/-- The same calls, of which more are settled. -/
structure SameCalls (s s' : Coordinator) : Prop where
  calls : s'.invocations.map Invocation.call = s.invocations.map Invocation.call
  pending : ∀ k provider, s'.Pending k provider → s.Pending k provider
  settled : ∀ k, s.isSettled (some k) = true → s'.isSettled (some k) = true

theorem launched_eq (s : Coordinator) :
    s.launched = (s.invocations.map Invocation.call).filterMap ProviderCall.launched? := by
  rw [launched, List.filterMap_map]
  rfl

theorem SameCalls.kept {invocations : List Invocation}
    (hcalls : SameCalls s { s with invocations := invocations }) (h : s.Inv) :
    Kept s { s with invocations := invocations } := by
  have hsame : ({ s with invocations := invocations } : Coordinator).launched = s.launched := by
    rw [launched_eq, launched_eq, hcalls.calls]
  refine ⟨⟨h.sound, h.ahead, { h.lanes with },
    fun k provider hpending => h.held k provider (hcalls.pending k provider hpending),
    { h.named with }, ?_, { h.begun with }, fun hclosed => { h.fresh hclosed with }⟩, fun m => ?_⟩
  · obtain ⟨hnodup, hissued, hqueue, hactive, hlnodup, hapart, hlissued, hleft⟩ := h.permits
    exact ⟨hnodup, hissued, hqueue, hactive, hsame.symm ▸ hlnodup, hsame.symm ▸ hapart,
      hsame.symm ▸ hlissued, hsame.symm ▸ hleft⟩
  · exact { Rely.refl m s with settled := hcalls.settled }

/-- A call that is settled, or seen. -/
theorem sameCalls_set {k : Nat} {old : Invocation} (new : Invocation)
    (hget : s.invocations[k]? = some old) (hcall : new.call = old.call) (hlive : new.live = old.live)
    (houtcome : new.outcome = none → old.outcome = none) :
    SameCalls s { s with invocations := s.invocations.set k new } := by
  have hlt := (List.getElem?_eq_some_iff.mp hget).1
  refine ⟨map_set_of_same _ hget hcall, fun j provider hpending => ?_, fun j hj => ?_⟩
  · obtain ⟨invocation, hinvocation, hlive', hnone, hlane⟩ := hpending
    rw [List.getElem?_set] at hinvocation
    split at hinvocation
    · next heq =>
      subst heq
      obtain rfl := Option.some.inj hinvocation
      exact ⟨old, hget, hlive ▸ hlive', houtcome hnone, hcall ▸ hlane⟩
    · exact ⟨invocation, hinvocation, hlive', hnone, hlane⟩
  · simp only [isSettled, outcomeOf, Option.all_some, List.getElem?_set] at hj ⊢
    split
    · next heq =>
      subst heq
      rw [hget] at hj
      refine Option.isSome_iff_ne_none.mpr fun hnone => ?_
      have hold : old.outcome = none := houtcome hnone
      simp [hold] at hj
    · exact hj

theorem kept_world (h : s.Inv) {change : Change} (hstep : Coordinator.world change s = some s') :
    Kept s s' := by
  cases change with
  | settle k outcome =>
    simp only [Coordinator.world, settleStep] at hstep
    split at hstep
    · cases hstep
    next invocation hget =>
    split at hstep
    · cases hstep
    obtain rfl := Option.some.inj hstep
    exact (sameCalls_set { invocation with outcome := some outcome } hget rfl rfl
      fun hnone => by cases hnone).kept h
  | forgetPreparation provider =>
    simp only [Coordinator.world] at hstep
    split at hstep
    · obtain rfl := Option.some.inj hstep
      exact Same.kept { Same.refl s with } h
    · cases hstep
  | seeRelease k =>
    simp only [Coordinator.world, seeRelease] at hstep
    split at hstep
    · next provider record keyHash hget =>
      obtain rfl := Option.some.inj hstep
      have hset := (sameCalls_set ⟨.cancelLaunchRetirementPreparation provider record keyHash,
        some (some (.flag true)), true, true⟩ hget rfl rfl fun hnone => by cases hnone).kept h
      exact hset.trans ((same_dropFence _ _ _).kept hset.inv)
    · cases hstep

/-- A coordinator with nothing to do, whose provider calls are those of processes before it. -/
theorem inv_new {host : LedgerHost} {emitted : List (LaunchView × String)}
    {invocations : List Invocation} (hsound : host.Sound) (hahead : host.Ahead)
    (hdead : ∀ invocation ∈ invocations, invocation.live = false)
    (hnodup : (invocations.filterMap fun invocation => invocation.call.launched?).Nodup)
    (hlaunched : ∀ id ∈ invocations.filterMap fun invocation => invocation.call.launched?,
      id ∈ host.issued.map Prod.fst ∧ host.Holds (Ledger.LeftRequested id)) :
    Inv { host := host, emitted := emitted, invocations := invocations } := by
  refine ⟨hsound, hahead, ?_, fun k provider hpending => ?_, ?_, ?_, ?_, fun _ => ?_⟩
  · constructor
    · exact List.nodup_nil
    · exact List.nodup_nil
    · exact fun _ hid => absurd hid List.not_mem_nil
    · exact fun _ => rfl
    · exact List.nodup_nil
    · exact Nat.zero_le _
  · obtain ⟨invocation, hget, hlive, -⟩ := hpending
    rw [hdead invocation (List.mem_of_getElem? hget)] at hlive
    cases hlive
  · constructor
    · exact fun _ hitem => absurd hitem List.not_mem_nil
    · exact fun _ hrun => absurd hrun List.not_mem_nil
    · exact fun _ hentry => absurd hentry List.not_mem_nil
    · exact fun _ hentry => absurd hentry List.not_mem_nil
  · constructor
    · exact List.nodup_nil
    · exact fun _ hid => absurd hid List.not_mem_nil
    · exact fun _ hitem => absurd hitem List.not_mem_nil
    · exact fun _ hrun => absurd hrun List.not_mem_nil
    · exact hnodup
    · exact fun _ _ hid => absurd hid List.not_mem_nil
    · exact fun id hid => (hlaunched id hid).1
    · exact fun id hid => (hlaunched id hid).2
  · exact ⟨fun _ hrun => absurd hrun List.not_mem_nil, fun _ _ => rfl⟩
  · exact ⟨rfl, rfl, rfl, rfl, rfl, rfl, rfl⟩

/-- A new process keeps the invariant. -/
theorem inv_restart (h : s.Inv) : s.restart.Inv := by
  have hlaunched : s.restart.launched = s.launched := by
    rw [launched_eq, launched_eq, restart, List.map_map]
    rfl
  refine inv_new h.sound h.ahead (fun invocation hmem => ?_) ?_ fun id hid => ?_
  · obtain ⟨old, -, rfl⟩ := List.mem_map.mp hmem
    rfl
  · have hnodup : s.restart.launched.Nodup := hlaunched.symm ▸ h.permits.launched_nodup
    exact hnodup
  · have hold : id ∈ s.launched := hlaunched ▸ hid
    exact ⟨h.permits.launched_issued id hold, h.permits.launched_left id hold⟩

/-- The coordinator of an absent ledger file. -/
theorem inv_initial : Inv { host := LedgerHost.start } :=
  inv_new LedgerHost.start_sound LedgerHost.start_ahead (fun _ hmem => absurd hmem List.not_mem_nil)
    List.nodup_nil fun _ hid => absurd hid List.not_mem_nil

end Coordinator

end AgentHost.LaunchCoordinator
