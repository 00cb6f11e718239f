import Mathlib
import AgentHost.Core.CoordinatorSteps

namespace AgentHost.LaunchCoordinator

/-!
# A launch is created once

The tasks of the launch coordinator keep what its steps keep, whatever the others do between their
actions; so the invariant holds in every run.

* `kept_plain`, `preserves_plain` — the actions that any task may do at any time.
* `ensures_run`, `ensures_start`, `ensures_submit`, `ensures_runRetirement`, … — every method and
  every task keeps its contract.
* `launches_once` — **Main**: no launch is created twice, over crashes and restarts.
* `providers_exclusive`, `lanes_kept` — **Main**: a provider is kept busy by one call at a time.
-/

open Coordinator

variable {s s' t : Coordinator} {n : Nat} {env : LaunchEnv} {α β : Type}

/-- The contract of call `n`. -/
abbrev own (env : LaunchEnv) (n : Nat) : Contract Coordinator Action Reply Circumstance :=
  (program env).ownContract Inv Rely n

/-- An action that a task may do whatever it knows. -/
def Action.Plain : Action → Prop
  | .ledger request => request.Onward
  | .invoke call slot => call.lane? = none ∧ call.launched? = none ∧ slot = .nowhere
  | .markStarted | .enqueue _ | .resumeRetirement _ | .accept _ | .finishRun _
  | .releasePreparation _ | .releaseRetirement _ => False
  | _ => True

theorem actStep_of_perform {action : Action} {c : Circumstance} {reply : Reply action}
    (hstep : Coordinator.perform env n action c s = some (s', reply)) :
    s.actStep env n action c = some (s', reply) := by
  unfold Coordinator.perform at hstep
  by_cases hhalted : s.halted = true
  · rw [if_pos hhalted] at hstep
    cases hstep
  · rwa [if_neg hhalted] at hstep

/-- An action that leaves the state as it is. -/
theorem kept_of_map {ρ : Type} (h : s.Inv) {value : Option ρ} {reply : ρ}
    (hstep : value.map (fun outcome => (s, outcome)) = some (s', reply)) : Kept s s' := by
  obtain ⟨outcome, -, heq⟩ := Option.map_eq_some_iff.mp hstep
  cases heq
  exact .refl h

/-- An action that waited for a condition. -/
theorem of_ite {P : Prop} [Decidable P] {reply : Unit}
    (hstep : (if P then some (s, ()) else none) = some (s', reply)) : s' = s ∧ P := by
  by_cases hP : P
  · rw [if_pos hP] at hstep
    cases hstep
    exact ⟨rfl, hP⟩
  · rw [if_neg hP] at hstep
    cases hstep

theorem kept_of_ite (h : s.Inv) {P : Prop} [Decidable P] {reply : Unit}
    (hstep : (if P then some (s, ()) else none) = some (s', reply)) : Kept s s' := by
  obtain ⟨rfl, -⟩ := of_ite hstep
  exact .refl h

theorem kept_plain (h : s.Inv) {action : Action} (hplain : action.Plain) {c : Circumstance}
    {reply : Reply action} (hperform : Coordinator.perform env n action c s = some (s', reply)) :
    Kept s s' := by
  have hstep := actStep_of_perform hperform
  have hsame : ∀ t, Same s t → Kept s t := fun t hsame => hsame.kept h
  cases action <;> simp only [actStep] at hstep
  case ledger request => exact (kept_ledgerStep h hplain hstep).1
  case openLedger => exact (kept_openStep h hstep).1
  case beginRun id =>
    have hbegin : s.beginRun n id = some (s', reply.1, reply.2) := hstep
    exact (kept_beginRun h hbegin).1
  case beginRetirementRun serial => exact (kept_beginRetirementRun h hstep).1
  case awaitRetirement serial => exact kept_of_map h hstep
  case awaitOutcome invocation => exact kept_of_map h hstep
  case awaitProviderSettled id => exact kept_of_ite h hstep
  case awaitEntrySettled serial => exact kept_of_ite h hstep
  case awaitRetirements serials => exact kept_of_ite h hstep
  case awaitCleanupWorker => exact kept_of_ite h hstep
  case awaitStateReady ids => exact kept_of_ite h hstep
  case awaitRuns ids => exact kept_of_ite h hstep
  case nextCleanup => exact hsame _ (same_nextCleanup hstep)
  case isStarted | isDraining | admitSubmit | refresh | listActive =>
    cases hstep
    exact .refl h
  case setCapabilities | activate | deactivate | emit | spawnLate | endPreparationRollback
      | endRetirementRollback | pauseCleanup | endCleanup =>
    cases hstep
    exact hsame _ { Same.refl s with }
  case closeLedger =>
    cases hstep
    exact hsame _ { Same.refl s with ledgerOpen := fun hopen => by cases hopen }
  case pump =>
    cases hstep
    exact kept_pump h
  case pumpRetirementCleanup =>
    cases hstep
    unfold pumpRetirementCleanup
    split
    · exact .refl h
    · exact hsame _ { Same.refl s with }
  case admitRetire id payload key =>
    have hfirst := kept_retireStep h env id payload key
    rw [Option.some.inj hstep] at hfirst
    exact hfirst
  case markStateReady id =>
    cases hstep
    exact kept_updateRun h id fun run => ⟨rfl, rfl, rfl⟩
  case invoke call slot =>
    obtain ⟨hlane, hlaunched, rfl⟩ := hplain
    cases hstep
    have hspend : s.spend n call = s := by cases call <;> first | rfl | cases hlaunched
    rw [invokeStep, hspend]
    exact kept_invoke h hlane hlaunched
  case awaitResult invocation =>
    split at hstep
    · exact kept_of_map h hstep
    · cases hstep
      exact .refl h
  case startRetirement entry =>
    have hfirst := kept_startRetirement h entry
    rw [Option.some.inj hstep] at hfirst
    exact hfirst
  case dropFence keyHash id =>
    cases hstep
    exact hsame _ (same_dropFence s keyHash id)
  case retired entry =>
    cases hstep
    exact hsame _ (same_announceRetired s entry)
  case resolveRetirement serial result =>
    cases hstep
    exact hsame _ (same_resolveRetirement s serial result)
  case beginLate =>
    obtain ⟨task, -, heq⟩ := Option.map_eq_some_iff.mp hstep
    cases heq
    exact hsame _ { Same.refl s with }
  case beginPreparationRollback record keyHash outcome =>
    split at hstep
    · cases hstep
      exact hsame _ { Same.refl s with }
    · cases hstep
      exact .refl h
  case beginRetirementRollback record serial outcome =>
    split at hstep
    · cases hstep
      exact hsame _ { Same.refl s with }
    · cases hstep
      exact .refl h
  case beginStop =>
    have hfirst := kept_beginStop h
    rw [Option.some.inj hstep] at hfirst
    exact hfirst
  case markStarted | enqueue | resumeRetirement | accept | finishRun | releasePreparation
      | releaseRetirement => exact hplain.elim

/-! ### Rules for tasks -/

/-- What others leave alone stays true. -/
theorem stable_of_rely {P : Coordinator → Prop} (h : ∀ s s', Rely n s s' → P s → P s') :
    (own env n).Stable P := fun s s' _ hrely hs => h s s' hrely hs

/-- What is settled stays settled. -/
theorem Coordinator.Rely.isSettled (h : Rely n s s') {settled : Option Nat}
    (hsettled : s.isSettled settled = true) : s'.isSettled settled = true := by
  cases settled with
  | none => rfl
  | some k => exact h.settled k hsettled

theorem stable_true : (own env n).Stable fun _ => True := fun _ _ _ _ _ => trivial

/-- An action of a task and what follows it, from what the task knows. -/
theorem ensures_act {action : Action} {f : Reply action → Task α} {P : Coordinator → Prop}
    {returns : α → Coordinator → Prop} {throws : CoordinatorError → Coordinator → Prop}
    (hstable : (own env n).Stable P) (hs : P s)
    (hstep : ∀ s c s' reply, s.Inv → P s →
      Coordinator.perform env n action c s = some (s', reply) →
        KeptBy n s s' ∧ (own env n).Ensures (f reply) returns throws s') :
    (own env n).Ensures ((act action).bind f) returns throws s := by
  refine Contract.ensures_act fun s' c s'' reply hinv hrely hperform => ?_
  obtain ⟨hkept, hnext⟩ := hstep s' c s'' reply hinv (hstable s s' hinv hrely hs) hperform
  exact ⟨hkept.inv, hkept.rely, hnext⟩

/-- A plain action before the rest of a task. -/
theorem ensures_plain (action : Action) (hplain : action.Plain) {f : Reply action → Task α}
    {P : Coordinator → Prop} {returns : α → Coordinator → Prop}
    {throws : CoordinatorError → Coordinator → Prop} (hstable : (own env n).Stable P) (hs : P s)
    (hnext : ∀ reply s, P s → (own env n).Ensures (f reply) returns throws s) :
    (own env n).Ensures ((act action).bind f) returns throws s := by
  refine ensures_act hstable hs fun s c s' reply hinv hP hperform => ?_
  have hkept := kept_plain hinv hplain hperform
  exact ⟨hkept.keptBy n, hnext reply s' (hstable s s' hkept.inv (hkept.rely n) hP)⟩

/-- A plain action changes nothing that its task relies on. -/
theorem preserves_plain (action : Action) (hplain : action.Plain) :
    (own env n).Preserves (act action) :=
  Contract.preserves_act (fun s c s' reply hinv hperform => by
    have hkept := kept_plain hinv hplain hperform
    exact ⟨hkept.inv, fun m _ => hkept.rely m, hkept.rely n⟩)
    fun reply => Contract.preserves_done reply

/-- A routine that preserves what is stable, before the rest of a task. -/
theorem ensures_preserving {routine : Task α} {f : α → Task β} {P : Coordinator → Prop}
    {returns : β → Coordinator → Prop} {throws : CoordinatorError → Coordinator → Prop}
    (hroutine : (own env n).Preserves routine) (hstable : (own env n).Stable P) (hs : P s)
    (hnext : ∀ value s, P s → (own env n).Ensures (f value) returns throws s)
    (hthrows : ∀ error s, P s → throws error s) :
    (own env n).Ensures (routine.bind f) returns throws s :=
  Contract.Ensures.preserving hroutine hstable hs hnext hthrows

/-- An operation of the ledger, with what its caller knows then. -/
theorem ensures_ledger {request : LedgerRequest} (honward : request.Onward)
    {P : Coordinator → Prop} {returns : LedgerReply → Coordinator → Prop}
    {throws : CoordinatorError → Coordinator → Prop} (hstable : (own env n).Stable P) (hs : P s)
    (hreturns : ∀ reply s, s.Inv → P s → Replied n request s (.ok reply) → returns reply s)
    (hthrows : ∀ error s, P s → throws error s) :
    (own env n).Ensures (ledger request) returns throws s := by
  refine ensures_act hstable hs fun s c s' reply hinv hP hperform => ?_
  obtain ⟨hkept, hreplied⟩ := kept_ledgerStep hinv honward (actStep_of_perform hperform)
  have hP' := hstable s s' hkept.inv (hkept.rely n) hP
  refine ⟨hkept.keptBy n, ?_⟩
  cases reply with
  | ok reply => exact hreturns reply s' hkept.inv hP' hreplied
  | error error => exact hthrows _ s' hP'

theorem ensures_ledgerRecord {request : LedgerRequest} (honward : request.Onward)
    {P : Coordinator → Prop} {returns : LaunchRecord → Coordinator → Prop}
    {throws : CoordinatorError → Coordinator → Prop} (hstable : (own env n).Stable P) (hs : P s)
    (hreturns : ∀ record s, s.Inv → P s → Replied n request s (.ok (.record record)) →
      returns record s)
    (hthrows : ∀ error s, P s → throws error s) :
    (own env n).Ensures (ledgerRecord request) returns throws s := by
  unfold ledgerRecord
  rw [Routine.bind_eq, Contract.ensures_bind]
  refine ensures_ledger honward hstable hs (fun reply s hinv hP hreplied => ?_) hthrows
  cases reply with
  | record record => exact hreturns record s hinv hP hreplied
  | _ => exact hthrows _ s hP

/-! ### Routines that only do what others may do -/

theorem preserves_ledger {request : LedgerRequest} (honward : request.Onward) :
    (own env n).Preserves (ledger request) := fun _ hstable _ hs =>
  ensures_ledger honward hstable hs (fun _ _ _ hP _ => hP) fun _ _ hP => hP

theorem preserves_ledgerRecord {request : LedgerRequest} (honward : request.Onward) :
    (own env n).Preserves (ledgerRecord request) := fun _ hstable _ hs =>
  ensures_ledgerRecord honward hstable hs (fun _ _ _ hP _ => hP) fun _ _ hP => hP

theorem preserves_refresh : (own env n).Preserves refresh := by
  refine (preserves_plain .refresh trivial).bind fun reply => ?_
  cases reply with
  | true => exact Contract.preserves_done ()
  | false => exact Contract.preserves_fail _

theorem preserves_settle (record : LaunchRecord) (result : LaunchResult) :
    (own env n).Preserves (settle record result) := by
  cases result with
  | owned providerAgentId agentId =>
    refine (preserves_ledgerRecord (by simp [LedgerRequest.Onward])).bind fun owned => ?_
    split
    · refine (preserves_plain _ (by trivial)).bind fun _ => preserves_refresh.bind fun _ => ?_
      exact (preserves_plain _ (by trivial)).bind fun _ => Contract.preserves_done _
    · exact Contract.preserves_done _
  | failed code =>
    refine (preserves_ledgerRecord (by simp [LedgerRequest.Onward])).bind fun failed => ?_
    exact (preserves_plain _ (by trivial)).bind fun _ => Contract.preserves_done _
  | uncertain code =>
    refine (preserves_ledgerRecord (by simp [LedgerRequest.Onward])).bind fun uncertain => ?_
    exact (preserves_plain _ (by trivial)).bind fun _ => Contract.preserves_done _

theorem preserves_recoverPreparations (records : List LaunchRecord) :
    (own env n).Preserves (recoverPreparations env records) := by
  unfold recoverPreparations
  dsimp only
  split
  · refine (preserves_plain _ (by exact ⟨rfl, rfl, rfl⟩)).bind fun invocation => ?_
    refine (preserves_plain (.awaitResult invocation) trivial).bind fun result => ?_
    split
    · exact Contract.preserves_fail _
    · exact Contract.preserves_done _
  · exact Contract.preserves_done _

theorem preserves_restore {record : LaunchRecord} {keyHash : String} {ended : Action}
    (hended : ended.Plain) : (own env n).Preserves (restore record keyHash ended) := by
  refine (preserves_ledgerRecord (by trivial)).attempt.bind fun restored => ?_
  cases restored with
  | error error => exact (preserves_plain _ hended).bind fun _ => Contract.preserves_done _
  | ok restored =>
    refine (preserves_plain _ (by trivial)).bind fun _ => ?_
    refine (preserves_plain _ (by exact ⟨rfl, rfl, rfl⟩)).bind fun refreshing => ?_
    refine (preserves_plain (.awaitResult refreshing) trivial).bind fun _ => ?_
    refine (preserves_plain _ (by trivial)).bind fun _ => ?_
    exact (preserves_plain _ hended).bind fun _ => Contract.preserves_done _

theorem preserves_late : (own env n).Preserves late := by
  refine (preserves_plain _ (by trivial)).bind fun task => ?_
  cases task with
  | preparation record keyHash invocation =>
    refine (preserves_plain (.awaitOutcome invocation) trivial).bind fun outcome => ?_
    refine (preserves_plain
      (.beginPreparationRollback record keyHash outcome) trivial).bind fun may => ?_
    cases may with
    | true => exact (preserves_restore (by trivial)).bind fun _ => Contract.preserves_done _
    | false => exact Contract.preserves_done _
  | retirement record invocation serial =>
    refine (preserves_plain (.awaitOutcome invocation) trivial).bind fun outcome => ?_
    refine (preserves_plain
      (.beginRetirementRollback record serial outcome) trivial).bind fun may => ?_
    cases may with
    | true => exact (preserves_restore (by trivial)).bind fun _ => Contract.preserves_done _
    | false => exact Contract.preserves_done _

theorem preserves_cleanUp : (own env n).Preserves cleanUp := by
  refine (preserves_plain _ (by trivial)).bind fun found => ?_
  cases found with
  | none => exact Contract.preserves_done _
  | some cleanup =>
    have hend : ∀ value : Unit, (own env n).Preserves
        ((act (.endCleanup cleanup)).bind fun _ => (.done Answer.none : Task Answer)) :=
      fun _ => (preserves_plain _ (by trivial)).bind fun _ => Contract.preserves_done _
    refine (preserves_plain _ (by exact ⟨rfl, rfl, rfl⟩)).bind fun invocation => ?_
    refine (preserves_plain (.awaitResult invocation) trivial).bind fun result => ?_
    split
    · exact (preserves_plain _ (by trivial)).bind fun _ => hend ()
    · refine (preserves_ledger (by trivial)).attempt.bind fun outcome => ?_
      cases outcome with
      | error error => exact (preserves_plain _ (by trivial)).bind fun _ => hend ()
      | ok reply => exact hend ()
    · exact hend ()

theorem preserves_stop : (own env n).Preserves stop := by
  refine (preserves_plain _ (by trivial)).bind fun found => ?_
  cases found with
  | none => exact Contract.preserves_done _
  | some serials =>
    refine (preserves_plain _ (by trivial)).bind fun _ => ?_
    refine (preserves_plain _ (by trivial)).bind fun _ => ?_
    refine (preserves_plain .listActive trivial).bind fun active => ?_
    refine (preserves_plain _ (by trivial)).bind fun _ => ?_
    refine (preserves_plain _ (by trivial)).bind fun _ => ?_
    exact (preserves_plain _ (by trivial)).bind fun _ => Contract.preserves_done _

theorem preserves_retire (id : String) (payload : Json) (key : String) :
    (own env n).Preserves (retire id payload key) := by
  refine (preserves_plain (.admitRetire id payload key) trivial).bind fun admission => ?_
  cases admission with
  | error error => exact Contract.preserves_fail _
  | ok admission =>
    cases admission with
    | inl entry => exact Contract.preserves_done _
    | inr found =>
      refine (preserves_plain (.awaitRetirement found.1) trivial).bind fun result => ?_
      cases result with
      | error error => exact Contract.preserves_fail _
      | ok entry => exact Contract.preserves_done _

/-! ### The task of an active launch -/

/-- The task still runs its item. -/
def Owns (n : Nat) (item : QueueItem) (s : Coordinator) : Prop := ∃ settled, OwnRun n s item settled

theorem stable_ownRun (item : QueueItem) (settled : Option Nat) :
    (own env n).Stable fun s => OwnRun n s item settled :=
  stable_of_rely fun _ _ hrely hown => hown.rely hrely

theorem stable_owns (item : QueueItem) : (own env n).Stable (Owns n item) :=
  stable_of_rely fun _ _ hrely h => h.imp fun _ hown => hown.rely hrely

/-- What a task knows of its item before the provider is called. -/
structure Ready (n : Nat) (item : QueueItem) (s : Coordinator) : Prop where
  own : OwnRun n s item none
  opening : s.opening = true
  names : s.host.Names item.id item.provider
  permit : item.kind = .create → (item.id, some n) ∈ s.permits

theorem Ready.rely {item : QueueItem} (h : Ready n item s) (hrely : Rely n s s') :
    Ready n item s' :=
  ⟨h.own.rely hrely, hrely.opening h.opening, hrely.names h.opening _ _ h.names,
    fun hkind => hrely.permits _ (h.permit hkind)⟩

theorem stable_ready (item : QueueItem) : (own env n).Stable (Ready n item) :=
  stable_of_rely fun _ _ hrely h => h.rely hrely

theorem Ready.owns {item : QueueItem} (h : Ready n item s) : Owns n item s := ⟨none, h.own⟩

/-- The provider call of an item, and what its task does then. -/
theorem ensures_invokeRun {item : QueueItem} {call : ProviderCall} {f : Nat → Task α}
    {P : Coordinator → Prop} {returns : α → Coordinator → Prop}
    {throws : CoordinatorError → Coordinator → Prop} (hstable : (own env n).Stable P) (hs : P s)
    (hP : ∀ s, P s → OwnRun n s item none ∧ Permitted n s call)
    (hlane : call.lane? = some item.provider)
    (hnext : ∀ k s, Owns n item s → (own env n).Ensures (f k) returns throws s) :
    (own env n).Ensures ((act (.invoke call (.run item.id))).bind f) returns throws s := by
  refine ensures_act hstable hs fun s c s' reply hinv hs hperform => ?_
  obtain ⟨hown, hcall⟩ := hP s hs
  obtain ⟨hkept, hown'⟩ := keptBy_invokeRun hinv hown hlane hcall
  cases actStep_of_perform hperform
  exact ⟨hkept, hnext _ _ ⟨_, hown'⟩⟩

/-- `#create` of an item, by the task that may. -/
theorem ensures_create {item : QueueItem} (hkind : item.kind = .create) (h : Ready n item s) :
    (own env n).Ensures (create item.id) (fun _ => Owns n item) (fun _ => Owns n item) s := by
  unfold create
  rw [Routine.bind_eq, Contract.ensures_bind]
  refine ensures_ledgerRecord (by simp [LedgerRequest.Onward]) (stable_ready item) h
    (fun creating s hinv h hreplied => ?_) fun _ _ h => h.owns
  have hid : creating.id = item.id := hreplied.id _ creating item.id rfl rfl rfl
  have hprovider : creating.request.provider = item.provider :=
    h.names.memory creating (hreplied.mem _ creating rfl rfl) hid
  split
  · exact h.owns
  next hstate =>
  rw [Decidable.not_not] at hstate
  have hleft : s.host.Holds (Ledger.LeftRequested creating.id) :=
    hreplied.left _ creating rfl rfl (by rw [hstate]; decide)
  -- the launch has left its request durably, and stays so until the provider is asked
  have hstable : (own env n).Stable fun s => Ready n item s ∧
      s.host.Holds (Ledger.LeftRequested creating.id) :=
    stable_of_rely fun _ _ hrely h => ⟨h.1.rely hrely,
      hrely.left _ (hid ▸ h.1.names.issued) h.2⟩
  refine ensures_plain _ (by trivial) hstable ⟨h, hleft⟩ fun _ s hs => ?_
  refine ensures_invokeRun hstable hs (fun s hs => ⟨hs.1.own, fun id hlaunched => ?_⟩)
    (congrArg some hprovider) fun invocation s howns => ?_
  · obtain rfl : creating.id = id := Option.some.inj hlaunched
    exact ⟨hid.symm ▸ hs.1.permit hkind, hs.2⟩
  refine ensures_plain (.awaitResult invocation) (by trivial) (stable_owns item) howns
    fun result s howns => ?_
  exact ensures_preserving (preserves_settle _ _) (stable_owns item) howns
    (fun _ _ howns => howns) fun _ _ howns => howns

/-- `#reconcile` of an item. -/
theorem ensures_reconcile {item : QueueItem} {record : LaunchRecord} (h : Ready n item s)
    (hid : record.id = item.id) (hprovider : record.request.provider = item.provider) :
    (own env n).Ensures (reconcile record) (fun _ => Owns n item) (fun _ => Owns n item) s := by
  unfold reconcile
  rw [hid]
  refine ensures_invokeRun (stable_ready item) h
    (fun s h => ⟨h.own, fun id hlaunched => by cases hlaunched⟩) (congrArg some hprovider)
    fun invocation s howns => ?_
  refine ensures_plain (.awaitResult invocation) (by trivial) (stable_owns item) howns
    fun result s howns => ?_
  dsimp only
  split
  · exact howns
  · exact ensures_preserving (preserves_settle _ _) (stable_owns item) howns
      (fun _ _ howns => howns) fun _ _ howns => howns

/-- The end of an item whose provider call is settled. -/
theorem ensures_finishRun {item : QueueItem} (h : ∃ settled, OwnRun n s item settled ∧
      s.isSettled settled = true) :
    (own env n).Ensures ((act (.finishRun item)).bind fun _ => (.done Answer.none : Task Answer))
      (fun _ _ => True) (fun _ _ => True) s := by
  have hstable : (own env n).Stable fun s => ∃ settled, OwnRun n s item settled ∧
      s.isSettled settled = true := by
    refine stable_of_rely fun s s' hrely h => ?_
    obtain ⟨settled, hown, hsettled⟩ := h
    exact ⟨settled, hown.rely hrely, hrely.isSettled hsettled⟩
  refine ensures_act hstable h fun s c s' reply hinv hs hperform => ?_
  obtain ⟨settled, ⟨run, hrun, rfl, howner, rfl⟩, hsettled⟩ := hs
  cases actStep_of_perform hperform
  exact ⟨keptBy_finish hinv hrun howner hsettled, trivial⟩

/-- `#run` of an active item. -/
theorem ensures_run (id : String) (s : Coordinator) :
    (own env n).Ensures (run id) (fun _ _ => True) (fun _ _ => True) s := by
  refine ensures_act (P := fun _ => True) stable_true trivial
    fun s c s' reply hinv _ hperform => ?_
  obtain ⟨item, record⟩ := reply
  obtain ⟨hkept, rfl, hrunning⟩ := kept_beginRun hinv (actStep_of_perform hperform)
  refine ⟨hkept.keptBy n, ?_⟩
  have hready : Ready n item s' :=
    ⟨hrunning.own, hrunning.opening, hrunning.names, hrunning.permit⟩
  cases record with
  | none =>
    refine ensures_plain _ (by trivial) (stable_ownRun item none) hrunning.own fun _ s hown => ?_
    exact ensures_finishRun ⟨none, hown, rfl⟩
  | some record =>
    obtain ⟨hid, hprovider⟩ := hrunning.record record rfl
    have hbody : (own env n).Ensures (runRecord item.kind record) (fun _ => Owns n item)
        (fun _ => Owns n item) s' := by
      unfold runRecord
      split
      · next hkind =>
        rw [hid]
        exact ensures_create hkind hready
      · exact ensures_reconcile hready hid hprovider
    show (own env n).Ensures ((Routine.attempt (ε := CoordinatorError) _).bind _) _ _ _
    rw [Contract.ensures_bind, Contract.ensures_attempt]
    refine hbody.mono (fun _ s howns => ?_) fun _ s howns => ?_
    all_goals
      refine ensures_plain _ (by trivial) (stable_owns item) howns fun _ s howns => ?_
      refine ensures_act (stable_owns item) howns fun s c s' reply hinv howns hperform => ?_
      have hstep := actStep_of_perform hperform
      obtain ⟨rfl, hsettled⟩ := of_ite hstep
      obtain ⟨settled, run, hrun, rfl, howner, rfl⟩ := howns
      rw [show s'.active.get? run.item.id = some run from InsertionMap.get?_of_mem hrun,
        Option.all_some] at hsettled
      exact ⟨(Kept.refl hinv).keptBy n,
        ensures_finishRun ⟨_, ⟨run, hrun, rfl, howner, rfl⟩, hsettled⟩⟩

/-! ### The methods that queue launches -/

theorem stable_mayEnqueue (item : QueueItem) : (own env n).Stable fun s => MayEnqueue n s item :=
  stable_of_rely fun _ _ hrely hmay => hmay.rely hrely

theorem ensures_submit (payload : Json) (key : String) (s : Coordinator) :
    (own env n).Ensures (submit payload key) (fun _ _ => True) (fun _ _ => True) s := by
  refine ensures_act (P := fun _ => True) stable_true trivial
    fun s c s' reply hinv _ hperform => ?_
  have hplain : Action.Plain (.admitSubmit payload key) := trivial
  refine ⟨(kept_plain hinv hplain hperform).keptBy n, ?_⟩
  cases reply with
  | error error => trivial
  | ok admission =>
    cases admission with
    | replay launch => trivial
    | reserve keyHash signature request =>
      show (own env n).Ensures ((ledger (.reserve keyHash signature request)).bind _) _ _ _
      rw [Contract.ensures_bind]
      refine ensures_ledger (by trivial) stable_true trivial
        (fun reply s hinv _ hreplied => ?_) fun _ _ _ => trivial
      cases reply with
      | created record =>
        have hmay : MayEnqueue n s ⟨record.id, .create, record.request.provider⟩ :=
          ⟨hreplied.opening _ rfl, hinv.sound.names (hreplied.mem _ record rfl rfl),
            fun _ => hreplied.created record rfl⟩
        refine ensures_act (stable_mayEnqueue _) hmay fun s c s' reply hinv hmay hperform => ?_
        cases actStep_of_perform hperform
        exact ⟨keptBy_accept hinv hmay, trivial⟩
      | retired entry => dsimp only; split <;> trivial
      | existing record => dsimp only; split <;> trivial
      | _ => trivial

theorem stable_opened (env : LaunchEnv) (n : Nat) (records : List LaunchRecord) :
    (own env n).Stable (Opened n records) := by
  refine stable_of_rely fun s s' hrely h => ?_
  exact ⟨hrely.opening h.opening, h.nodup, fun record hrecord =>
    hrely.names h.opening _ _ (h.names record hrecord), fun record hrecord hstate =>
      hrely.permits _ (h.permits record hrecord hstate)⟩

theorem Coordinator.Opened.tail {record : LaunchRecord} {records : List LaunchRecord}
    (h : Opened n (record :: records) s) : Opened n records s :=
  ⟨h.opening, (List.nodup_cons.mp h.nodup).2,
    fun other hother => h.names other (List.mem_cons_of_mem _ hother),
    fun other hother => h.permits other (List.mem_cons_of_mem _ hother)⟩

/-- The loop of `start` queues the launch of a record. -/
theorem Coordinator.Opened.enqueueBy (hinv : s.Inv) {record : LaunchRecord}
    {records : List LaunchRecord} (h : Opened n (record :: records) s) {item : QueueItem} (hmay : MayEnqueue n s item)
    (hid : item.id = record.id) :
    KeptBy n s (s.enqueueBy n item) ∧ Opened n records (s.enqueueBy n item) := by
  obtain ⟨hkept, hothers⟩ := keptBy_enqueueBy hinv hmay
  have hne : ∀ other ∈ records, other.id ≠ item.id := fun other hother heq =>
    (List.nodup_cons.mp h.nodup).1 (List.mem_map.mpr ⟨other, hother, heq.trans hid⟩)
  refine ⟨hkept, ?_, h.tail.nodup, fun other hother => ?_, fun other hother hstate => ?_⟩
  · exact (hkept.rely (n + 1) (Nat.succ_ne_self n)).opening h.opening
  · have hstill := hothers ⟨other.id, .reconcile, other.request.provider⟩
      ⟨h.opening, h.tail.names other hother, fun hcreate => by cases hcreate⟩ (hne other hother)
    exact hstill.names
  · have hstill := hothers ⟨other.id, .create, other.request.provider⟩
      ⟨h.opening, h.tail.names other hother, fun _ => h.tail.permits other hother hstate⟩
      (hne other hother)
    exact hstill.permit rfl

theorem ensures_enqueue {record : LaunchRecord} {records : List LaunchRecord} {item : QueueItem}
    (h : Opened n (record :: records) s) (hmay : MayEnqueue n s item) (hid : item.id = record.id) :
    (own env n).Ensures (act (.enqueue item)) (fun _ => Opened n records) (fun _ _ => True) s := by
  have hstable : (own env n).Stable fun s => Opened n (record :: records) s ∧
      MayEnqueue n s item := fun s s' hinv hrely h =>
    ⟨stable_opened env n _ s s' hinv hrely h.1, h.2.rely hrely⟩
  refine Contract.ensures_act fun s' c s'' reply hinv hrely hperform => ?_
  obtain ⟨hopened, hmay⟩ := hstable s s' hinv hrely ⟨h, hmay⟩
  cases actStep_of_perform hperform
  obtain ⟨hkept, hopened'⟩ := hopened.enqueueBy hinv hmay hid
  exact ⟨hkept.inv, hkept.rely, hopened'⟩

/-- One record of the loop of `start`. -/
theorem ensures_resume {record : LaunchRecord} {records : List LaunchRecord}
    (h : Opened n (record :: records) s) :
    (own env n).Ensures (resume record) (fun _ => Opened n records) (fun _ _ => True) s := by
  have hnames := h.names record List.mem_cons_self
  have hreconcile : MayEnqueue n s ⟨record.id, .reconcile, record.request.provider⟩ :=
    ⟨h.opening, hnames, fun hcreate => by cases hcreate⟩
  unfold resume
  split
  · refine ensures_plain _ (by trivial) (stable_opened env n _) h fun _ s h => h.tail
  · next hstate =>
    exact ensures_enqueue h ⟨h.opening, hnames, fun _ =>
      h.permits record List.mem_cons_self hstate⟩ rfl
  · refine Contract.ensures_bind.mpr ?_
    refine ensures_ledgerRecord (by simp [LedgerRequest.Onward]) (stable_opened env n _) h
      (fun uncertain s hinv h hreplied => ?_) fun _ _ _ => trivial
    have hid : uncertain.id = record.id := hreplied.id _ uncertain record.id rfl rfl rfl
    refine ensures_enqueue h ⟨h.opening, hinv.sound.names (hreplied.mem _ uncertain rfl rfl),
      fun hcreate => by cases hcreate⟩ hid
  · exact ensures_enqueue h hreconcile rfl
  · refine Contract.ensures_act fun s' c s'' reply hinv hrely hperform => ?_
    have h' := stable_opened env n _ s s' hinv hrely h
    cases actStep_of_perform hperform
    have hkept := kept_resumeRetirement hinv h'.opening (h'.names record List.mem_cons_self)
    refine ⟨hkept.inv, fun m _ => hkept.rely m, ?_⟩
    exact stable_opened env n _ s' _ hkept.inv (hkept.rely n) h'.tail
  · exact h.tail

/-- The loop of `start`, by induction on the records that are left. -/
theorem ensures_resumeAll (records : List LaunchRecord) (h : Opened n records s) :
    (own env n).Ensures (resumeAll records) (fun _ _ => True) (fun _ _ => True) s := by
  induction records generalizing s with
  | nil => trivial
  | cons record records ih =>
    rw [resumeAll]
    refine Contract.ensures_bind.mpr ?_
    exact (ensures_resume h).mono (fun _ s h => ih h) fun _ _ => id

theorem ensures_start (s : Coordinator) :
    (own env n).Ensures (start env) (fun _ _ => True) (fun _ _ => True) s := by
  refine ensures_plain .isStarted trivial stable_true trivial fun started s _ => ?_
  split
  · trivial
  refine ensures_act stable_true trivial fun s c s' reply hinv _ hperform => ?_
  obtain ⟨hkept, hopened⟩ := kept_openStep hinv (actStep_of_perform hperform)
  refine ⟨hkept.keptBy n, ?_⟩
  cases reply with
  | none => trivial
  | some records =>
    have hstable := stable_opened env n records
    refine ensures_plain _ (by trivial) hstable (hopened records rfl) fun _ s h => ?_
    refine ensures_preserving (preserves_recoverPreparations records) hstable h
      (fun _ s h => ?_) fun _ _ _ => trivial
    refine ensures_act hstable h fun s c s' reply hinv h hperform => ?_
    cases actStep_of_perform hperform
    have hmark := (same_markStarted h.opening).kept hinv
    refine ⟨hmark.keptBy n, ?_⟩
    refine Contract.ensures_bind.mpr ?_
    refine (ensures_resumeAll records (hstable s _ hmark.inv (hmark.rely n) h)).mono
      (fun _ s _ => ?_) fun _ _ _ => trivial
    refine ensures_plain _ (by trivial) stable_true trivial fun _ s _ => ?_
    exact ensures_plain _ (by trivial) stable_true trivial fun _ s _ => trivial

/-! ### The task of an active retirement -/

/-- The task still runs its retirement. -/
def OwnsEntry (n : Nat) (entry : RetirementEntry) (s : Coordinator) : Prop :=
  ∃ settled, OwnEntry n s entry settled

/-- What a task knows of its retirement before the provider is called. -/
structure Retiring (n : Nat) (entry : RetirementEntry) (s : Coordinator) : Prop where
  own : OwnEntry n s entry none
  opening : s.opening = true
  names : s.host.Names entry.id entry.provider

theorem Retiring.ownsEntry {entry : RetirementEntry} (h : Retiring n entry s) :
    OwnsEntry n entry s := ⟨none, h.own⟩

theorem stable_ownsEntry (entry : RetirementEntry) : (own env n).Stable (OwnsEntry n entry) :=
  stable_of_rely fun _ _ hrely h => h.imp fun _ hown => hown.rely hrely

theorem stable_retiring (env : LaunchEnv) (n : Nat) (entry : RetirementEntry) :
    (own env n).Stable (Retiring n entry) :=
  stable_of_rely fun _ _ hrely h =>
    ⟨h.own.rely hrely, hrely.opening h.opening, hrely.names h.opening _ _ h.names⟩

/-- What is left of a retirement once its provider has been asked. -/
theorem Coordinator.OwnEntry.preserves {entry : RetirementEntry} {settled : Option Nat}
    (h : OwnEntry n s entry settled) {routine : Task α} (hroutine : (own env n).Preserves routine) :
    (own env n).Ensures routine (fun _ => OwnsEntry n entry) (fun _ => OwnsEntry n entry) s :=
  hroutine _ (stable_ownsEntry entry) s ⟨settled, h⟩

theorem preserves_emit {record : LaunchRecord} {phase : String} :
    (own env n).Preserves (act (.emit record phase)) := preserves_plain _ trivial

/-- `#finishRetirement`, by the task of the retirement. -/
theorem ensures_finishRetirement {entry : RetirementEntry} {record : LaunchRecord}
    (recovered : Bool) (h : Retiring n entry s)
    (hprovider : record.request.provider = entry.provider) :
    (own env n).Ensures (finishRetirement entry record recovered)
      (fun _ => OwnsEntry n entry) (fun _ => OwnsEntry n entry) s := by
  have hstable := stable_retiring env n entry
  refine ensures_plain _ (by trivial) hstable h fun _ s h => ?_
  refine ensures_preserving preserves_refresh hstable h (fun _ s h => ?_) fun _ _ h => h.ownsEntry
  refine ensures_act hstable h fun s c s' reply hinv h hperform => ?_
  cases actStep_of_perform hperform
  obtain ⟨hkept, hown⟩ := keptBy_invokeEntry hinv h.own
    (.retireLaunch record.request.provider record) (congrArg some hprovider) rfl
  refine ⟨hkept, hown.preserves ?_⟩
  refine (preserves_plain (.awaitResult _) trivial).bind fun result => ?_
  dsimp only
  split
  · exact Contract.preserves_fail _
  split
  · refine (preserves_ledgerRecord (by trivial)).bind fun restored => ?_
    refine (preserves_plain _ (by trivial)).bind fun _ => preserves_refresh.bind fun _ => ?_
    exact preserves_emit.bind fun _ => Contract.preserves_fail _
  split
  · split
    · exact (preserves_plain _ (by trivial)).bind fun _ => Contract.preserves_fail _
    · exact Contract.preserves_fail _
  · refine (preserves_ledger (by trivial)).bind fun reply => ?_
    cases reply with
    | retirement completed =>
      refine (preserves_plain _ (by trivial)).bind fun _ => preserves_refresh.bind fun _ => ?_
      exact (preserves_plain _ (by trivial)).bind fun _ => Contract.preserves_done _
    | _ => exact Contract.preserves_fail _

theorem preserves_throwUnfenced (error : CoordinatorError) :
    (own env n).Preserves (throwUnfenced error) := by
  unfold throwUnfenced
  split <;> exact Contract.preserves_fail _

/-- A preparation is released whose fence could not be stored. -/
theorem ensures_releaseAfter {entry : RetirementEntry} (status : Option String)
    (error : CoordinatorError) (h : Retiring n entry s)
    (hprovider : entry.provider = entry.record.request.provider) :
    (own env n).Ensures (releaseAfter entry status error)
      (fun _ => OwnsEntry n entry) (fun _ => OwnsEntry n entry) s := by
  unfold releaseAfter
  dsimp only
  split
  · refine ensures_act (stable_retiring env n entry) h fun s c s' reply hinv h hperform => ?_
    cases actStep_of_perform hperform
    obtain ⟨hkept, hown⟩ := keptBy_releasePreparation hinv h.own hprovider
    refine ⟨hkept, hown.preserves ?_⟩
    refine (preserves_plain (.awaitResult _) trivial).bind fun result => ?_
    split
    · exact Contract.preserves_fail _
    · exact (preserves_plain _ (by trivial)).bind fun _ => preserves_throwUnfenced error
  · exact h.own.preserves (preserves_throwUnfenced error)

theorem ensures_continueRetirement {entry : RetirementEntry} {record : LaunchRecord}
    (status : Option String) (preparation : Nat) (h : Retiring n entry s)
    (hprovider : record.request.provider = entry.provider) :
    (own env n).Ensures (continueRetirement entry record status preparation)
      (fun _ => OwnsEntry n entry) (fun _ => OwnsEntry n entry) s := by
  have hstable := stable_retiring env n entry
  refine ensures_plain _ (by trivial) hstable h fun _ s h => ?_
  refine ensures_plain _ (by trivial) hstable h fun _ s h => ?_
  split
  · refine ensures_plain _ (by trivial) hstable h fun _ s h => ?_
    exact ensures_plain _ (by trivial) hstable h fun _ s h => h.ownsEntry
  split
  · exact h.ownsEntry
  · refine ensures_plain .isDraining trivial hstable h fun draining s h => ?_
    split
    · exact h.ownsEntry
    · exact ensures_finishRetirement false h hprovider

/-- `#runRetirement`, by the task of the retirement. -/
theorem ensures_retireEntry {entry : RetirementEntry} (h : Retiring n entry s)
    (hprovider : entry.provider = entry.record.request.provider) :
    (own env n).Ensures (retireEntry entry) (fun _ => OwnsEntry n entry)
      (fun _ => OwnsEntry n entry) s := by
  have hstable := stable_retiring env n entry
  refine ensures_plain (.startRetirement entry) trivial hstable h fun started s h => ?_
  cases started with
  | error error => exact h.ownsEntry
  | ok preparation =>
    cases preparation with
    | none =>
      dsimp only
      split
      · exact h.ownsEntry
      refine ensures_plain .isDraining trivial hstable h fun draining s h => ?_
      split
      · exact h.ownsEntry
      · exact ensures_finishRetirement _ h hprovider.symm
    | some preparation =>
      refine ensures_plain (.awaitResult preparation) trivial hstable h
        fun result s h => ?_
      dsimp only
      split
      · exact h.ownsEntry
      refine Contract.ensures_bind.mpr (Contract.ensures_attempt.mpr ?_)
      refine ensures_ledger (by trivial) hstable h (fun reply s hinv h hreplied => ?_)
        fun error s h => ensures_releaseAfter _ _ h hprovider
      cases reply with
      | record record =>
        have hid : record.id = entry.record.id := hreplied.id _ record entry.record.id rfl rfl rfl
        exact ensures_continueRetirement _ _ h
          (h.names.memory record (hreplied.mem _ record rfl rfl) hid)
      | _ => exact h.ownsEntry

/-- The release of a retirement whose provider call is settled. -/
theorem ensures_releaseRetirement {entry : RetirementEntry}
    (h : ∃ settled, OwnEntry n s entry settled ∧ s.isSettled settled = true) :
    (own env n).Ensures
      ((act (.releaseRetirement entry)).bind fun _ => (.done Answer.none : Task Answer))
      (fun _ _ => True) (fun _ _ => True) s := by
  have hstable : (own env n).Stable fun s => ∃ settled, OwnEntry n s entry settled ∧
      s.isSettled settled = true := by
    refine stable_of_rely fun s s' hrely h => ?_
    obtain ⟨settled, hown, hsettled⟩ := h
    exact ⟨settled, hown.rely hrely, hrely.isSettled hsettled⟩
  refine ensures_act hstable h fun s c s' reply hinv hs hperform => ?_
  obtain ⟨settled, ⟨hactive, howner, rfl⟩, hsettled⟩ := hs
  cases actStep_of_perform hperform
  exact ⟨keptBy_release hinv hactive howner hsettled, trivial⟩

/-- A retirement that `#pumpRetirements` started, with its release. -/
theorem ensures_runRetirement (serial : Nat) (s : Coordinator) :
    (own env n).Ensures (runRetirement serial) (fun _ _ => True) (fun _ _ => True) s := by
  refine ensures_act stable_true trivial fun s c s' entry hinv _ hperform => ?_
  obtain ⟨hkept, hown, hopening, hnames, hprovider, hserial⟩ :=
    kept_beginRetirementRun hinv (actStep_of_perform hperform)
  refine ⟨hkept.keptBy n, Contract.ensures_bind.mpr (Contract.ensures_attempt.mpr ?_)⟩
  refine (ensures_retireEntry ⟨hown, hopening, hnames⟩ hprovider).mono (fun _ s h => ?_)
    fun _ s h => ?_
  all_goals
    refine ensures_plain _ (by trivial) (stable_ownsEntry entry) h fun _ s h => ?_
    refine ensures_act (stable_ownsEntry entry) h fun s c s' reply hinv h hperform => ?_
    obtain ⟨rfl, hsettled⟩ := of_ite (actStep_of_perform hperform)
    obtain ⟨settled, hown⟩ := h
    rw [← hserial, hown.settled] at hsettled
    exact ⟨(Kept.refl hinv).keptBy n, ensures_releaseRetirement ⟨settled, hown, hsettled⟩⟩

/-! ### Every run -/

/-- What the calls of the coordinator need to be sound together. -/
theorem owned (env : LaunchEnv) :
    (program env).Owned (fun s => s = { host := LedgerHost.start }) Inv Rely where
  init := by
    rintro s rfl
    exact inv_initial
  refl := Rely.refl
  trans := fun _ _ _ _ h h' => h.trans h'
  world := fun change s s' hinv hstep => by
    have hkept := kept_world hinv hstep
    exact ⟨hkept.inv, hkept.rely⟩
  restart := fun _ hinv => inv_restart hinv
  code := fun n request s _ => by
    cases request with
    | start => exact ensures_start s
    | submit payload key => exact ensures_submit payload key s
    | retire id payload key => exact (preserves_retire id payload key).ensures s
    | stop => exact preserves_stop.ensures s
    | run id => exact ensures_run id s
    | runRetirement serial => exact ensures_runRetirement serial s
    | late => exact preserves_late.ensures s
    | cleanUp => exact preserves_cleanUp.ensures s

/-- The invariant holds in every run. -/
theorem inv_of_reachable {s : RoutineState Coordinator Action Reply CoordinatorError Answer Request}
    (h : (coordinatorSystem env).Reachable s) : s.shared.Inv :=
  ((owned env).of_reachable h).shared

/-! ### The providers that are kept busy -/

/-- The providers that calls of this process keep busy, one for each call that is not settled. -/
def Coordinator.busy (s : Coordinator) : List String :=
  s.invocations.filterMap fun invocation =>
    if invocation.live ∧ invocation.outcome = none then invocation.call.lane? else none

/-- A call that keeps a provider busy is pending. -/
theorem pending_of_busy {k : Nat} {invocation : Invocation} {provider : String}
    (hget : s.invocations[k]? = some invocation)
    (hbusy : (if invocation.live ∧ invocation.outcome = none then invocation.call.lane? else none) =
      some provider) : s.Pending k provider := by
  split at hbusy
  · next hlive => exact ⟨invocation, hget, hlive.1, hlive.2, hbusy⟩
  · cases hbusy

/-- A pending call is that of what occupies its provider. -/
theorem Coordinator.Inv.mem_occupants (h : s.Inv) {k : Nat} {provider : String}
    (hpending : s.Pending k provider) : provider ∈ s.occupants := by
  obtain ⟨run, hrun, rfl, -⟩ | ⟨entry, hentry, rfl, -⟩ := h.held k provider hpending
  · exact List.mem_append_left _ (List.mem_map_of_mem hrun)
  · exact List.mem_append_right _ (List.mem_map_of_mem hentry)

/-- No two calls keep one provider busy. -/
theorem Coordinator.Inv.pending_unique (h : s.Inv) {i j : Nat} {provider : String}
    (hi : s.Pending i provider) (hj : s.Pending j provider) : i = j := by
  obtain ⟨hruns, hentries, hapart⟩ := List.nodup_append.mp h.lanes.lanes_nodup
  obtain ⟨run, hrun, hprovider, hsettled⟩ | ⟨entry, hentry, hprovider, hsettled⟩ :=
    h.held i provider hi
  all_goals
    obtain ⟨run', hrun', hprovider', hsettled'⟩ | ⟨entry', hentry', hprovider', hsettled'⟩ :=
      h.held j provider hj
  · have hsame := List.inj_on_of_nodup_map hruns hrun hrun' (hprovider.trans hprovider'.symm)
    rw [hsame, hsettled'] at hsettled
    exact (Option.some.inj hsettled).symm
  · exact absurd (hprovider.trans hprovider'.symm) (hapart _ (List.mem_map_of_mem hrun) _
      (List.mem_map_of_mem hentry'))
  · exact absurd (hprovider'.trans hprovider.symm) (hapart _ (List.mem_map_of_mem hrun') _
      (List.mem_map_of_mem hentry))
  · have hsame := List.inj_on_of_nodup_map hentries hentry hentry'
      (hprovider.trans hprovider'.symm)
    rw [hsame, hsettled'] at hsettled
    exact (Option.some.inj hsettled).symm

theorem Coordinator.Inv.busy_nodup (h : s.Inv) : s.busy.Nodup := by
  rw [List.Nodup, busy, List.pairwise_filterMap, List.pairwise_iff_getElem]
  intro i j hi hj hlt provider hbusy provider' hbusy' heq
  have hpending := pending_of_busy (List.getElem?_eq_getElem hi) hbusy
  have hpending' := pending_of_busy (List.getElem?_eq_getElem hj) hbusy'
  have hsame := h.pending_unique hpending (heq ▸ hpending')
  omega

theorem Coordinator.Inv.busy_subset (h : s.Inv) : s.busy ⊆ s.occupants := by
  intro provider hmem
  obtain ⟨invocation, hinvocation, hbusy⟩ := List.mem_filterMap.mp hmem
  obtain ⟨k, hget⟩ := List.getElem?_of_mem hinvocation
  exact h.mem_occupants (pending_of_busy hget hbusy)

/-! ### A launch that a crash interrupts -/

def sampleLaunchEnv : LaunchEnv where
  keyHash := fun _ => "aaaaaaaaaaaaaaaaaaaaaaaaaaaaaaaaaaaaaaaaaaa"
  signature := fun _ => "sssssssssssssssssssssssssssssssssssssssssss"
  recovers := true

def sampleLaunch : String := "launch:00000000-0000-0000-0000-000000000001"

def samplePayload : Json :=
  .obj [("provider", .str "codex"), ("target", .str "home"), ("profile", .str "default"),
    ("mode", .str "plan"), ("confirmations",
      .obj [("localMutation", .bool false), ("externalBillable", .bool false)])]

def sampleCircumstance : Circumstance where
  id := sampleLaunch
  attemptId := "attempt:00000000-0000-0000-0000-000000000002"
  capabilities :=
    ⟨[⟨"codex", "1", [⟨"home", ["default"], [⟨"plan", true, ⟨false, false⟩⟩]⟩]⟩]⟩

/-- A call is made and does its first actions. -/
def callEvents (n : Nat) (request : Request) (actions : Nat) :
    List (RoutineEvent Request Circumstance Change) :=
  .call request :: List.replicate actions (.advance n sampleCircumstance)

/-- The process dies after the provider was asked for a launch, and the next one asks it what became
    of it. -/
def interruptedLaunch : List (RoutineEvent Request Circumstance Change) :=
  List.flatten [callEvents 0 .start 6, callEvents 1 (.submit samplePayload "launch-1") 3,
    callEvents 2 (.run sampleLaunch) 4, [.crash], callEvents 3 .start 7,
    callEvents 4 (.run sampleLaunch) 2]

/-- Then the launch was asked for once, and its provider is busy with what asks for its outcome. -/
theorem interruptedLaunch_reachable : ∃ s, (coordinatorSystem sampleLaunchEnv).Reachable s ∧
    s.shared.launched = [sampleLaunch] ∧ s.shared.busy = ["codex"] := by
  have hrun : ((coordinatorSystem sampleLaunchEnv).run ⟨{ host := LedgerHost.start }, []⟩
      interruptedLaunch).map (fun s => (s.shared.launched, s.shared.busy)) =
        some ([sampleLaunch], ["codex"]) := by
    decide +kernel
  obtain ⟨s, hs, hviews⟩ := Option.map_eq_some_iff.mp hrun
  obtain ⟨hlaunched, hbusy⟩ := Prod.mk.inj hviews
  exact ⟨s, .ofRun (.ofInit ⟨rfl, rfl⟩) hs, hlaunched, hbusy⟩

/-! ### What holds in every run -/

/-- **Main.** No launch is created twice: in every run, whatever crashes, restarts and failing
    writes it has, every provider call that creates a launch is for another one, and the ledger in
    memory and the one that the file loads are past its request. -/
theorem launches_once {s : RoutineState Coordinator Action Reply CoordinatorError Answer Request}
    (h : (coordinatorSystem env).Reachable s) :
    s.shared.launched.Nodup ∧
      ∀ id ∈ s.shared.launched, s.shared.host.Holds (Ledger.LeftRequested id) :=
  have hpermits := (inv_of_reachable h).permits
  ⟨hpermits.launched_nodup, hpermits.launched_left⟩

/-- After the crash, the launch is not created again. -/
theorem launches_once_interrupted : ∃ s, (coordinatorSystem sampleLaunchEnv).Reachable s ∧
    s.shared.launched = [sampleLaunch] ∧ s.shared.launched.Nodup ∧
      ∀ id ∈ s.shared.launched, s.shared.host.Holds (Ledger.LeftRequested id) := by
  obtain ⟨s, hs, hlaunched, -⟩ := interruptedLaunch_reachable
  exact ⟨s, hs, hlaunched, launches_once hs⟩

/-- **Main.** In every run a provider is kept busy by one call at a time, and at most four of them
    are: also by calls that were given up at their deadline and are not settled yet. -/
theorem providers_exclusive
    {s : RoutineState Coordinator Action Reply CoordinatorError Answer Request}
    (h : (coordinatorSystem env).Reachable s) :
    s.shared.busy.Nodup ∧ s.shared.busy.length ≤ maxActiveGlobal := by
  have hinv := inv_of_reachable h
  have hle := (hinv.busy_nodup.subperm hinv.busy_subset).length_le
  exact ⟨hinv.busy_nodup, hle.trans hinv.lanes.room⟩

/-- After the crash, the one provider is busy once. -/
theorem providers_exclusive_interrupted : ∃ s, (coordinatorSystem sampleLaunchEnv).Reachable s ∧
    s.shared.busy = ["codex"] ∧ s.shared.busy.Nodup ∧
      s.shared.busy.length ≤ maxActiveGlobal := by
  obtain ⟨s, hs, -, hbusy⟩ := interruptedLaunch_reachable
  exact ⟨s, hs, hbusy, providers_exclusive hs⟩

/-- **Main.** In every run a launch is queued or active once, and so is its retirement; what is
    active has its own provider each, at most four together; and the counts of the active items of
    the providers are right. -/
theorem lanes_kept {s : RoutineState Coordinator Action Reply CoordinatorError Answer Request}
    (h : (coordinatorSystem env).Reachable s) : s.shared.Lanes := (inv_of_reachable h).lanes

theorem lanes_kept_interrupted : ∃ s, (coordinatorSystem sampleLaunchEnv).Reachable s ∧
    s.shared.launched = [sampleLaunch] ∧ s.shared.Lanes := by
  obtain ⟨s, hs, hlaunched, -⟩ := interruptedLaunch_reachable
  exact ⟨s, hs, hlaunched, lanes_kept hs⟩

end AgentHost.LaunchCoordinator
