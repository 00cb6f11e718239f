import Mathlib
import AgentHost.Core.LedgerProgress
import AgentHost.Core.LaunchTasks

namespace AgentHost.LaunchCoordinator

/-!
# The lanes of the launch coordinator

What holds of the queues, the active items and the provider calls of a coordinator at any moment,
and what each of its tasks may rely on while others run.

* `Coordinator.Lanes` — every launch is queued or active at most once, and so is every
  retirement; what is active occupies each provider once and all of them together four times.
* `Coordinator.Permits` — who may still have a launch created by the provider.
* `Coordinator.Inv` — all that every moment of a run has; `Rely n` — what call `n` relies on.
* `Kept.pump`, `Kept.pumpRetirements`, … — the steps of the coordinator keep both.
-/

/-! ### Views of a coordinator -/

/-- The launch that a provider call creates. -/
def ProviderCall.launched? : ProviderCall → Option String
  | .launch _ record => some record.id
  | _ => none

/-- The provider that a call keeps busy: one that changes what the provider has. -/
def ProviderCall.lane? : ProviderCall → Option String
  | .launch provider _ => some provider
  | .reconcileLaunch provider _ => some provider
  | .cancelLaunchRetirementPreparation provider _ _ => some provider
  | .retireLaunch provider _ => some provider
  | _ => none

/-- No operation that the coordinator asks for leads a launch back to its request. -/
def LedgerRequest.Onward : LedgerRequest → Prop
  | .transition _ _ patch => patch.state ≠ some .requested
  | _ => True

/-- The launch that an operation of the ledger is asked for, where it is named. -/
def LedgerRequest.launchId? : LedgerRequest → Option String
  | .reserve _ _ _ => none
  | .transition id _ _ => some id
  | .beginRetirement id _ => some id
  | .completeRetirement id _ => some id
  | .completeRetirementCleanup id _ => some id
  | .cancelRetirement id _ => some id

namespace Coordinator

variable (s : Coordinator)

/-- The launches that providers were asked to create, oldest first. -/
def launched : List String := s.invocations.filterMap fun invocation => invocation.call.launched?

/-- The launches that are queued or active. -/
def itemIds : List String := s.queue.map QueueItem.id ++ s.active.values.map ActiveRun.id

/-- The launches whose retirement is queued or active. -/
def entryIds : List String :=
  s.retirementQueue.map RetirementEntry.id ++ s.activeRetirements.values.map RetirementEntry.id

/-- The providers that active items and retirements occupy. -/
def occupants : List String :=
  s.active.values.map (fun run => run.item.provider) ++
    s.activeRetirements.values.map RetirementEntry.provider

/-- A call of this process that keeps a provider busy and is not settled. -/
def Pending (n : Nat) (provider : String) : Prop :=
  ∃ invocation, s.invocations[n]? = some invocation ∧ invocation.live = true ∧
    invocation.outcome = none ∧ invocation.call.lane? = some provider

/-- What is queued or active, and what it occupies. -/
structure Lanes : Prop where
  items_nodup : s.itemIds.Nodup
  entries_nodup : s.entryIds.Nodup
  tracked : ∀ id ∈ s.entryIds, s.retirements.has id = true
  counts : ∀ provider, s.activeProviders provider = s.occupants.count provider
  lanes_nodup : s.occupants.Nodup
  room : s.occupants.length ≤ maxActiveGlobal

/-- The calls that keep a provider busy belong to what occupies it. -/
def Held : Prop :=
  ∀ n provider, s.Pending n provider →
    (∃ run ∈ s.active.values, run.item.provider = provider ∧ run.providerSettled = some n) ∨
      ∃ entry ∈ s.activeRetirements.values, entry.provider = provider ∧
        s.entrySettled entry.serial = some n

/-- Whatever is queued or active is for the provider of its launch. -/
structure Named : Prop where
  queue : ∀ item ∈ s.queue, s.host.Names item.id item.provider
  active : ∀ run ∈ s.active.values, s.host.Names run.id run.item.provider
  retirementQueue : ∀ entry ∈ s.retirementQueue, s.host.Names entry.id entry.provider ∧
    entry.provider = entry.record.request.provider
  activeRetirements : ∀ entry ∈ s.activeRetirements.values,
    s.host.Names entry.id entry.provider ∧ entry.provider = entry.record.request.provider

/-- Who may have a launch created: nobody where it was created before, one call at most, and the
    queue for the items that wait there. -/
structure Permits : Prop where
  nodup : (s.permits.map Prod.fst).Nodup
  issued : ∀ id ∈ s.permits.map Prod.fst, id ∈ s.host.issued.map Prod.fst
  queue : ∀ item ∈ s.queue, item.kind = .create → (item.id, none) ∈ s.permits
  active : ∀ run ∈ s.active.values, run.item.kind = .create → run.owner = none →
    (run.id, none) ∈ s.permits
  launched_nodup : s.launched.Nodup
  launched_apart : ∀ id ∈ s.launched, id ∉ s.permits.map Prod.fst
  launched_issued : ∀ id ∈ s.launched, id ∈ s.host.issued.map Prod.fst
  launched_left : ∀ id ∈ s.launched, s.host.Holds (Ledger.LeftRequested id)

/-- What no call has taken over yet waits for no provider call. -/
structure Begun : Prop where
  runs : ∀ run ∈ s.active.values, run.owner = none → run.providerSettled = none
  entries : ∀ serial, s.entryOwner serial = none → s.entrySettled serial = none

/-- A coordinator that has not begun to start has nothing to do. -/
structure Fresh : Prop where
  queue : s.queue = []
  active : s.active = .empty
  retirementQueue : s.retirementQueue = []
  activeRetirements : s.activeRetirements = .empty
  permits : s.permits = []
  started : s.started = false
  ledgerOpen : s.ledgerOpen = false

/-- What holds at every moment of a run. -/
structure Inv : Prop where
  sound : s.host.Sound
  ahead : s.host.Ahead
  lanes : s.Lanes
  held : s.Held
  named : s.Named
  permits : s.Permits
  begun : s.Begun
  fresh : s.opening = false → s.Fresh

/-- What call `n` relies on: what it holds stays, and what was decided stays decided. -/
structure Rely (n : Nat) (s s' : Coordinator) : Prop where
  permits : ∀ id, (id, some n) ∈ s.permits → (id, some n) ∈ s'.permits
  runs : ∀ run ∈ s.active.values, run.owner = some n → ∃ run' ∈ s'.active.values,
    run'.item = run.item ∧ run'.owner = some n ∧ run'.providerSettled = run.providerSettled
  entries : ∀ entry ∈ s.activeRetirements.values, s.entryOwner entry.serial = some n →
    entry ∈ s'.activeRetirements.values ∧ s'.entryOwner entry.serial = some n ∧
      s'.entrySettled entry.serial = s.entrySettled entry.serial
  left : ∀ id ∈ s.host.issued.map Prod.fst, s.host.Holds (Ledger.LeftRequested id) →
    s'.host.Holds (Ledger.LeftRequested id)
  issued : ∀ id ∈ s.host.issued.map Prod.fst, id ∈ s'.host.issued.map Prod.fst
  opening : s.opening = true → s'.opening = true
  names : s.opening = true → ∀ id provider, s.host.Names id provider → s'.host.Names id provider
  settled : ∀ n, s.isSettled (some n) = true → s'.isSettled (some n) = true

/-- A step keeps the invariant and what every call relies on. -/
structure Kept (s s' : Coordinator) : Prop where
  inv : s'.Inv
  rely : ∀ n, Rely n s s'

end Coordinator

open Coordinator

variable {s s' t : Coordinator} {n : Nat}

namespace Coordinator

theorem Rely.refl (n : Nat) (s : Coordinator) : Rely n s s where
  permits := fun _ => id
  runs := fun run hrun howner => ⟨run, hrun, rfl, howner, rfl⟩
  entries := fun _ hentry howner => ⟨hentry, howner, rfl⟩
  left := fun _ _ => id
  issued := fun _ => id
  opening := id
  names := fun _ _ _ => id
  settled := fun _ => id

theorem Rely.trans (h : Rely n s s') (h' : Rely n s' t) : Rely n s t where
  permits := fun id hid => h'.permits id (h.permits id hid)
  runs := fun run hrun howner => by
    obtain ⟨run', hrun', hitem, howner', hsettled⟩ := h.runs run hrun howner
    obtain ⟨last, hlast, hitem', howner'', hsettled'⟩ := h'.runs run' hrun' howner'
    exact ⟨last, hlast, hitem'.trans hitem, howner'', hsettled'.trans hsettled⟩
  entries := fun entry hentry howner => by
    obtain ⟨hentry', howner', hsettled⟩ := h.entries entry hentry howner
    obtain ⟨hlast, howner'', hsettled'⟩ := h'.entries entry hentry' howner'
    exact ⟨hlast, howner'', hsettled'.trans hsettled⟩
  left := fun id hid hleft => h'.left id (h.issued id hid) (h.left id hid hleft)
  issued := fun id hid => h'.issued id (h.issued id hid)
  opening := fun hopening => h'.opening (h.opening hopening)
  names := fun hopening id provider hnames =>
    h'.names (h.opening hopening) id provider (h.names hopening id provider hnames)
  settled := fun k hk => h'.settled k (h.settled k hk)

theorem Kept.refl (h : s.Inv) : Kept s s := ⟨h, fun n => .refl n s⟩

theorem Kept.trans (h : Kept s s') (h' : Kept s' t) : Kept s t :=
  ⟨h'.inv, fun n => (h.rely n).trans (h'.rely n)⟩

/-- A change of none of the fields that the invariant is about. -/
structure Same (s s' : Coordinator) : Prop where
  host : s'.host = s.host
  opening : s'.opening = s.opening
  started : s'.started = true → s.started = true ∨ s.opening = true
  ledgerOpen : s'.ledgerOpen = true → s.ledgerOpen = true
  queue : s'.queue = s.queue
  active : s'.active = s.active
  activeProviders : s'.activeProviders = s.activeProviders
  retirements : s'.retirements = s.retirements
  retirementQueue : s'.retirementQueue = s.retirementQueue
  activeRetirements : s'.activeRetirements = s.activeRetirements
  entrySettled : s'.entrySettled = s.entrySettled
  entryOwner : s'.entryOwner = s.entryOwner
  invocations : s'.invocations = s.invocations
  permits : s'.permits = s.permits

theorem Same.refl (s : Coordinator) : Same s s :=
  ⟨rfl, rfl, .inl, id, rfl, rfl, rfl, rfl, rfl, rfl, rfl, rfl, rfl, rfl⟩

theorem Same.kept (hsame : Same s s') (h : s.Inv) : Kept s s' := by
  have hoccupants : s'.occupants = s.occupants := by
    rw [occupants, occupants, hsame.active, hsame.activeRetirements]
  have hitems : s'.itemIds = s.itemIds := by rw [itemIds, itemIds, hsame.queue, hsame.active]
  have hentries : s'.entryIds = s.entryIds := by
    rw [entryIds, entryIds, hsame.retirementQueue, hsame.activeRetirements]
  have hlaunched : s'.launched = s.launched := by rw [launched, launched, hsame.invocations]
  have hsettled : ∀ n, s'.isSettled (some n) = s.isSettled (some n) := fun n => by
    simp only [isSettled, outcomeOf, hsame.invocations]
  refine ⟨⟨?_, ?_, ?_, ?_, ?_, ?_, ?_, ?_⟩, fun n => ?_⟩
  · exact hsame.host.symm ▸ h.sound
  · exact hsame.host.symm ▸ h.ahead
  · refine ⟨?_, ?_, ?_, ?_, ?_, ?_⟩
    · exact hitems.symm ▸ h.lanes.items_nodup
    · exact hentries.symm ▸ h.lanes.entries_nodup
    · rw [hentries, hsame.retirements]
      exact h.lanes.tracked
    · rw [hoccupants, hsame.activeProviders]
      exact h.lanes.counts
    · exact hoccupants.symm ▸ h.lanes.lanes_nodup
    · exact hoccupants.symm ▸ h.lanes.room
  · intro n provider hpending
    rw [hsame.active, hsame.activeRetirements, hsame.entrySettled]
    refine h.held n provider ?_
    rwa [Pending, hsame.invocations] at hpending
  · refine ⟨?_, ?_, ?_, ?_⟩
    · rw [hsame.queue, hsame.host]
      exact h.named.queue
    · rw [hsame.active, hsame.host]
      exact h.named.active
    · rw [hsame.retirementQueue, hsame.host]
      exact h.named.retirementQueue
    · rw [hsame.activeRetirements, hsame.host]
      exact h.named.activeRetirements
  · obtain ⟨hnodup, hissued, hqueue, hactive, hlnodup, hapart, hlissued, hleft⟩ := h.permits
    constructor <;> simp only [hsame.permits, hsame.host, hsame.queue, hsame.active, hlaunched] <;>
      assumption
  · refine ⟨?_, ?_⟩
    · exact hsame.active.symm ▸ h.begun.runs
    · rw [hsame.entryOwner, hsame.entrySettled]
      exact h.begun.entries
  · rw [hsame.opening]
    intro hopening
    obtain ⟨hqueue, hactive, hretiring, hactiveRetiring, hpermits, hstarted, hclosed⟩ :=
      h.fresh hopening
    refine ⟨hsame.queue.trans hqueue, hsame.active.trans hactive,
      hsame.retirementQueue.trans hretiring, hsame.activeRetirements.trans hactiveRetiring,
      hsame.permits.trans hpermits, ?_, ?_⟩
    · refine Bool.eq_false_iff.mpr fun hnow => ?_
      obtain hold | hold := hsame.started hnow
      · exact absurd (hold.symm.trans hstarted) (by decide)
      · exact absurd (hold.symm.trans hopening) (by decide)
    · exact Bool.eq_false_iff.mpr fun hnow =>
        absurd ((hsame.ledgerOpen hnow).symm.trans hclosed) (by decide)
  · refine ⟨?_, ?_, ?_, ?_, ?_, ?_, ?_, ?_⟩
    · exact fun id hid => hsame.permits.symm ▸ hid
    · exact fun run hrun howner => ⟨run, hsame.active.symm ▸ hrun, rfl, howner, rfl⟩
    · rw [hsame.activeRetirements, hsame.entryOwner, hsame.entrySettled]
      exact fun entry hentry howner => ⟨hentry, howner, rfl⟩
    · exact hsame.host.symm ▸ fun _ _ => id
    · exact hsame.host.symm ▸ fun _ => id
    · exact fun hopening => hsame.opening.trans hopening
    · exact hsame.host.symm ▸ fun _ _ _ => id
    · exact fun k hk => (hsettled k).trans hk

/-! ### The queues -/

/-- An item that is queued is not active. -/
theorem Lanes.not_active (h : s.Lanes) {item : QueueItem} (hitem : item ∈ s.queue) :
    s.active.get? item.id = none := by
  rw [InsertionMap.get?_eq_none_iff]
  intro run hrun heq
  exact (List.nodup_append.mp h.items_nodup).2.2 item.id (List.mem_map_of_mem hitem) run.id
    (List.mem_map_of_mem hrun) heq.symm

/-- An entry that is queued is not active. -/
theorem Lanes.not_retiring (h : s.Lanes) {entry : RetirementEntry}
    (hentry : entry ∈ s.retirementQueue) : s.activeRetirements.get? entry.id = none := by
  rw [InsertionMap.get?_eq_none_iff]
  intro other hother heq
  exact (List.nodup_append.mp h.entries_nodup).2.2 entry.id (List.mem_map_of_mem hentry) other.id
    (List.mem_map_of_mem hother) heq.symm

/-- A free provider is not occupied. -/
theorem Lanes.not_mem_occupants (h : s.Lanes) {provider : String}
    (hfree : s.free provider = true) : provider ∉ s.occupants := by
  have hzero : s.activeProviders provider = 0 := by
    simpa [free, maxActivePerProvider] using hfree
  exact List.count_eq_zero.mp ((h.counts provider).symm.trans hzero)

theorem occupants_length (s : Coordinator) :
    s.occupants.length = s.active.size + s.activeRetirements.size := by
  simp [occupants, InsertionMap.size]

/-- The counts after another item occupies a provider. -/
theorem Lanes.occupy_counts (h : s.Lanes) {provider : String} {occupants : List String}
    (hperm : occupants.Perm (provider :: s.occupants)) (other : String) :
    (s.occupy provider).activeProviders other = occupants.count other := by
  rw [hperm.count_eq, List.count_cons, occupy]
  by_cases heq : other = provider
  · subst heq
    simp [h.counts]
  · simp [Function.update_of_ne heq, h.counts, Ne.symm heq]

/-- The counts after what occupied a provider has ended. -/
theorem Lanes.vacate_counts (h : s.Lanes) {provider : String} {occupants : List String}
    (hperm : s.occupants.Perm (provider :: occupants)) (other : String) :
    (s.vacate provider).activeProviders other = occupants.count other := by
  have hcount := h.counts other
  rw [hperm.count_eq, List.count_cons] at hcount
  by_cases heq : other = provider
  · subst heq
    simp only [vacate, Function.update_self, hcount, beq_self_eq_true, if_true]
    omega
  · simpa [vacate, Function.update_of_ne heq, Ne.symm heq] using hcount

theorem pumpStep_cases (hstep : s.pumpStep = some s') :
    ∃ item, item ∈ s.queue ∧ s.free item.provider = true ∧ s.hasRoom = true ∧
      s' = { s.occupy item.provider with
        queue := s.queue.erase item
        active := s.active.set { item := item } } := by
  unfold pumpStep at hstep
  split at hstep
  · cases hstep
  next hroom =>
  split at hstep
  · cases hstep
  next item hfind =>
  obtain rfl := Option.some.inj hstep
  rw [not_or] at hroom
  have hfree := List.find?_some hfind
  exact ⟨item, List.mem_of_find?_eq_some hfind, hfree, by simpa using hroom.2, rfl⟩

theorem pumpRetirementStep_cases (hstep : s.pumpRetirementStep = some s') :
    ∃ entry, entry ∈ s.retirementQueue ∧ s.free entry.provider = true ∧ s.hasRoom = true ∧
      s' = { s.occupy entry.provider with
        retirementQueue := s.retirementQueue.erase entry
        activeRetirements := s.activeRetirements.set entry } := by
  unfold pumpRetirementStep at hstep
  split at hstep
  · cases hstep
  next hroom =>
  split at hstep
  · cases hstep
  next entry hfind =>
  obtain rfl := Option.some.inj hstep
  rw [not_or] at hroom
  have hfree := List.find?_some hfind
  exact ⟨entry, List.mem_of_find?_eq_some hfind, hfree, by simpa using hroom.2, rfl⟩

/-- A queued item becomes active. -/
theorem kept_pumpStep (h : s.Inv) (hstep : s.pumpStep = some s') : Kept s s' := by
  obtain ⟨item, hitem, hfree, hroom, rfl⟩ := pumpStep_cases hstep
  have hvalues : (s.active.set { item := item }).values = s.active.values ++ [{ item := item }] :=
    InsertionMap.values_set_of_get?_none (h.lanes.not_active hitem)
  have hqueue := List.perm_cons_erase hitem
  have hmem : ∀ other ∈ s.queue.erase item, other ∈ s.queue := fun _ => List.mem_of_mem_erase
  have hitems : (({ s.occupy item.provider with
      queue := s.queue.erase item
      active := s.active.set { item := item } } : Coordinator).itemIds).Perm s.itemIds := by
    simp only [itemIds, hvalues, List.map_append, List.map_cons, List.map_nil]
    refine List.Perm.trans ?_ ((hqueue.map QueueItem.id).symm.append_right _)
    rw [← List.append_assoc]
    exact List.perm_append_singleton _ _
  have hoccupants : (({ s.occupy item.provider with
      queue := s.queue.erase item
      active := s.active.set { item := item } } : Coordinator).occupants).Perm
        (item.provider :: s.occupants) := by
    simp only [occupants, hvalues, List.map_append, List.map_cons, List.map_nil, List.append_assoc,
      List.singleton_append]
    exact List.perm_middle
  refine ⟨⟨h.sound, h.ahead, ?_, ?_, ?_, ?_, ?_, ?_⟩, fun n => ?_⟩
  · refine ⟨hitems.nodup_iff.mpr h.lanes.items_nodup, h.lanes.entries_nodup, h.lanes.tracked,
      h.lanes.occupy_counts hoccupants, ?_, ?_⟩
    · rw [hoccupants.nodup_iff, List.nodup_cons]
      exact ⟨h.lanes.not_mem_occupants hfree, h.lanes.lanes_nodup⟩
    · rw [hoccupants.length_eq, List.length_cons, occupants_length]
      simpa [hasRoom] using hroom
  · intro n provider hpending
    obtain ⟨run, hrun, hrest⟩ | hentry := h.held n provider hpending
    · exact .inl ⟨run, hvalues.symm ▸ List.mem_append_left _ hrun, hrest⟩
    · exact .inr hentry
  · refine ⟨fun other hother => h.named.queue other (hmem other hother), fun run hrun => ?_,
      h.named.retirementQueue, h.named.activeRetirements⟩
    obtain hrun | hrun := List.mem_append.mp (hvalues ▸ hrun)
    · exact h.named.active run hrun
    · obtain rfl := List.mem_singleton.mp hrun
      exact h.named.queue item hitem
  · refine { h.permits with
      queue := fun other hother => h.permits.queue other (hmem other hother)
      active := fun run hrun hkind howner => ?_ }
    obtain hrun | hrun := List.mem_append.mp (hvalues ▸ hrun)
    · exact h.permits.active run hrun hkind howner
    · obtain rfl := List.mem_singleton.mp hrun
      exact h.permits.queue item hitem hkind
  · refine { h.begun with runs := fun run hrun howner => ?_ }
    obtain hrun | hrun := List.mem_append.mp (hvalues ▸ hrun)
    · exact h.begun.runs run hrun howner
    · obtain rfl := List.mem_singleton.mp hrun
      rfl
  · intro hopening
    rw [(h.fresh hopening).queue] at hitem
    cases hitem
  · refine { Rely.refl n s with runs := fun run hrun howner => ?_ }
    exact ⟨run, hvalues.symm ▸ List.mem_append_left _ hrun, rfl, howner, rfl⟩

/-- A queued retirement becomes active. -/
theorem kept_pumpRetirementStep (h : s.Inv) (hstep : s.pumpRetirementStep = some s') :
    Kept s s' := by
  obtain ⟨entry, hentry, hfree, hroom, rfl⟩ := pumpRetirementStep_cases hstep
  have hvalues : (s.activeRetirements.set entry).values = s.activeRetirements.values ++ [entry] :=
    InsertionMap.values_set_of_get?_none (h.lanes.not_retiring hentry)
  have hqueue := List.perm_cons_erase hentry
  have hmem : ∀ other ∈ s.retirementQueue.erase entry, other ∈ s.retirementQueue :=
    fun _ => List.mem_of_mem_erase
  have hentries : (({ s.occupy entry.provider with
      retirementQueue := s.retirementQueue.erase entry
      activeRetirements := s.activeRetirements.set entry } : Coordinator).entryIds).Perm
        s.entryIds := by
    simp only [entryIds, hvalues, List.map_append, List.map_cons, List.map_nil]
    refine List.Perm.trans ?_ ((hqueue.map RetirementEntry.id).symm.append_right _)
    rw [← List.append_assoc]
    exact List.perm_append_singleton _ _
  have hoccupants : (({ s.occupy entry.provider with
      retirementQueue := s.retirementQueue.erase entry
      activeRetirements := s.activeRetirements.set entry } : Coordinator).occupants).Perm
        (entry.provider :: s.occupants) := by
    simp only [occupants, hvalues, List.map_append, List.map_cons, List.map_nil]
    rw [← List.append_assoc]
    exact List.perm_append_singleton _ _
  refine ⟨⟨h.sound, h.ahead, ?_, ?_, ?_, ?_, { h.begun with }, ?_⟩, fun n => ?_⟩
  · refine ⟨h.lanes.items_nodup, hentries.nodup_iff.mpr h.lanes.entries_nodup,
      fun id hid => h.lanes.tracked id (hentries.mem_iff.mp hid),
      h.lanes.occupy_counts hoccupants, ?_, ?_⟩
    · rw [hoccupants.nodup_iff, List.nodup_cons]
      exact ⟨h.lanes.not_mem_occupants hfree, h.lanes.lanes_nodup⟩
    · rw [hoccupants.length_eq, List.length_cons, occupants_length]
      simpa [hasRoom] using hroom
  · intro n provider hpending
    obtain hrun | ⟨other, hother, hrest⟩ := h.held n provider hpending
    · exact .inl hrun
    · exact .inr ⟨other, hvalues.symm ▸ List.mem_append_left _ hother, hrest⟩
  · refine ⟨h.named.queue, h.named.active,
      fun other hother => h.named.retirementQueue other (hmem other hother),
      fun other hother => ?_⟩
    obtain hother | hother := List.mem_append.mp (hvalues ▸ hother)
    · exact h.named.activeRetirements other hother
    · obtain rfl := List.mem_singleton.mp hother
      exact h.named.retirementQueue other hentry
  · exact { h.permits with }
  · intro hopening
    rw [(h.fresh hopening).retirementQueue] at hentry
    cases hentry
  · refine { Rely.refl n s with entries := fun other hother howner => ?_ }
    exact ⟨hvalues.symm ▸ List.mem_append_left _ hother, howner, rfl⟩

/-- What every round of a loop keeps, the loop keeps. -/
theorem kept_repeatStep {step : Coordinator → Option Coordinator}
    (hstep : ∀ s s' : Coordinator, s.Inv → step s = some s' → Kept s s') (m : Nat) (h : s.Inv) :
    Kept s (repeatStep step m s) := by
  induction m generalizing s with
  | zero => exact .refl h
  | succ m ih =>
    rw [repeatStep]
    cases heq : step s with
    | none => exact .refl h
    | some next =>
      have hnext := hstep s next h heq
      exact hnext.trans (ih hnext.inv)

theorem kept_pump (h : s.Inv) : Kept s s.pump :=
  kept_repeatStep (fun _ _ => kept_pumpStep) _ h

theorem kept_pumpRetirements (h : s.Inv) : Kept s s.pumpRetirements :=
  kept_repeatStep (fun _ _ => kept_pumpRetirementStep) _ h

/-- A launch is queued for the provider that it names. -/
theorem kept_enqueue (h : s.Inv) {item : QueueItem} (hopening : s.opening = true)
    (hnames : s.host.Names item.id item.provider)
    (hpermit : item.kind = .create → (item.id, none) ∈ s.permits) : Kept s (s.enqueue item) := by
  unfold enqueue
  split
  · exact .refl h
  next hnew =>
  simp only [not_or] at hnew
  obtain ⟨-, hqueue, hactive⟩ := hnew
  have hmem : ∀ other ∈ s.queue ++ [item], other ∈ s.queue ∨ other = item := fun other hother =>
    (List.mem_append.mp hother).imp_right List.mem_singleton.mp
  have hitems : (({ s with queue := s.queue ++ [item] } : Coordinator).itemIds).Perm
      (item.id :: s.itemIds) := by
    simp only [itemIds, List.map_append, List.map_cons, List.map_nil, List.append_assoc,
      List.singleton_append]
    exact List.perm_middle
  have hfresh : item.id ∉ s.itemIds := by
    rw [itemIds, List.mem_append, not_or]
    exact ⟨hqueue, fun hmem => hactive (InsertionMap.key_mem_iff.mp hmem)⟩
  refine ⟨⟨h.sound, h.ahead, ?_, h.held, ?_, ?_, { h.begun with }, ?_⟩,
    fun n => { Rely.refl n s with }⟩
  · refine { h.lanes with items_nodup := ?_ }
    rw [hitems.nodup_iff, List.nodup_cons]
    exact ⟨hfresh, h.lanes.items_nodup⟩
  · refine { h.named with queue := fun other hother => ?_ }
    obtain hother | rfl := hmem other hother
    · exact h.named.queue other hother
    · exact hnames
  · refine { h.permits with queue := fun other hother hkind => ?_ }
    obtain hother | rfl := hmem other hother
    · exact h.permits.queue other hother hkind
    · exact hpermit hkind
  · intro hclosed
    rw [show s.opening = false from hclosed] at hopening
    cases hopening

/-- A retirement is tracked that was not. -/
theorem kept_pushRetirement (h : s.Inv) (entry : RetirementEntry) (hopening : s.opening = true)
    (hnames : s.host.Names entry.id entry.provider)
    (hprovider : entry.provider = entry.record.request.provider)
    (hnew : s.retirements.has entry.id = false) : Kept s (s.pushRetirement entry) := by
  have hid : entry.id ∉ s.entryIds := fun hmem => by
    rw [h.lanes.tracked entry.id hmem] at hnew
    cases hnew
  have hentries : ((s.pushRetirement entry).entryIds).Perm (entry.id :: s.entryIds) := by
    simp only [pushRetirement, entryIds, List.map_append, List.map_cons, List.map_nil,
      List.append_assoc, List.singleton_append]
    exact List.perm_middle
  refine ⟨⟨h.sound, h.ahead, ?_, h.held, ?_, { h.permits with }, { h.begun with }, ?_⟩,
    fun n => { Rely.refl n s with }⟩
  · refine { h.lanes with entries_nodup := ?_, tracked := fun id hmem => ?_ }
    · rw [hentries.nodup_iff, List.nodup_cons]
      exact ⟨hid, h.lanes.entries_nodup⟩
    · rw [InsertionMap.has, pushRetirement, InsertionMap.get?_set]
      split
      · rfl
      next hne =>
      obtain heq | hmem := List.mem_cons.mp (hentries.mem_iff.mp hmem)
      · exact absurd heq hne
      · exact h.lanes.tracked id hmem
  · refine { h.named with retirementQueue := fun other hother => ?_ }
    obtain hother | hother := List.mem_append.mp hother
    · exact h.named.retirementQueue other hother
    · obtain rfl := List.mem_singleton.mp hother
      exact ⟨hnames, hprovider⟩
  · intro hclosed
    rw [show s.opening = false from hclosed] at hopening
    cases hopening

theorem kept_trackRetirement (h : s.Inv) {record : LaunchRecord} {keyHash : String}
    (hopening : s.opening = true) (hnames : s.host.Names record.id record.request.provider)
    (hnew : s.retirements.has record.id = false) :
    Kept s (s.trackRetirement record keyHash) := by
  have hpush := kept_pushRetirement h ⟨s.entries, record, keyHash, record.request.provider⟩ hopening
    hnames rfl hnew
  exact hpush.trans (kept_pumpRetirements hpush.inv)

/-! ### The end of what is active -/

/-- What call `n` does that only it may do: the invariant and what every other call relies on. -/
structure KeptBy (n : Nat) (s s' : Coordinator) : Prop where
  inv : s'.Inv
  rely : ∀ m, m ≠ n → Rely m s s'

theorem Kept.keptBy (h : Kept s s') (n : Nat) : KeptBy n s s' := ⟨h.inv, fun m _ => h.rely m⟩

theorem KeptBy.trans (h : KeptBy n s s') (h' : Kept s' t) : KeptBy n s t :=
  ⟨h'.inv, fun m hm => (h.rely m hm).trans (h'.rely m)⟩

/-- A settled call is not pending. -/
theorem not_pending {k : Nat} {provider : String} (h : s.isSettled (some k) = true) :
    ¬ s.Pending k provider := by
  rintro ⟨invocation, hget, -, hnone, -⟩
  simp [isSettled, outcomeOf, hget, hnone] at h

/-- An active item ends, once its provider call is settled. -/
theorem keptBy_dropRun (h : s.Inv) {run : ActiveRun} (hrun : run ∈ s.active.values)
    (howner : run.owner = some n) (hsettled : s.isSettled run.providerSettled = true) :
    KeptBy n s ((s.dropRun run.item).vacate run.item.provider) := by
  have hget : s.active.get? run.item.id = some run := InsertionMap.get?_of_mem hrun
  have hperm := InsertionMap.perm_cons_delete hget
  have hmem : ∀ other, other ∈ (s.active.delete run.item.id).values ↔
      other ∈ s.active.values ∧ other.id ≠ run.item.id := fun other => InsertionMap.mem_delete
  have hitems : s.itemIds.Perm (run.id ::
      ((s.dropRun run.item).vacate run.item.provider).itemIds) :=
    ((hperm.map ActiveRun.id).append_left _).trans List.perm_middle
  have hoccupants : s.occupants.Perm (run.item.provider :: (s.dropRun run.item).occupants) :=
    (hperm.map fun run => run.item.provider).append_right _
  refine ⟨⟨h.sound, h.ahead, ?_, ?_, ?_, ?_, ?_, ?_⟩, fun m hm => ?_⟩
  · refine { h.lanes with
      items_nodup := (List.nodup_cons.mp (hitems.nodup_iff.mp h.lanes.items_nodup)).2
      counts := h.lanes.vacate_counts hoccupants
      lanes_nodup := (List.nodup_cons.mp (hoccupants.nodup_iff.mp h.lanes.lanes_nodup)).2
      room := ?_ }
    have hlength := hoccupants.length_eq
    have hroom := h.lanes.room
    rw [List.length_cons] at hlength
    exact Nat.le_trans (Nat.le_of_succ_le (Nat.le_of_eq hlength.symm)) hroom
  · intro k provider hpending
    obtain ⟨other, hother, hprovider, hkept⟩ | hentry := h.held k provider hpending
    · refine .inl ⟨other, (hmem other).mpr ⟨hother, fun heq => ?_⟩, hprovider, hkept⟩
      have hsame : other = run := s.active.eq_of_key_eq hother hrun heq
      rw [hsame] at hkept
      rw [hkept] at hsettled
      exact not_pending hsettled hpending
    · exact .inr hentry
  · exact { h.named with
      active := fun other hother => h.named.active other ((hmem other).mp hother).1 }
  · exact { h.permits with
      active := fun other hother => h.permits.active other ((hmem other).mp hother).1 }
  · exact { h.begun with runs := fun other hother => h.begun.runs other ((hmem other).mp hother).1 }
  · intro hclosed
    rw [(h.fresh hclosed).active] at hrun
    cases hrun
  · refine { Rely.refl m s with runs := fun other hother howner' => ?_ }
    refine ⟨other, (hmem other).mpr ⟨hother, fun heq => hm ?_⟩, rfl, howner', rfl⟩
    have hsame : other = run := s.active.eq_of_key_eq hother hrun heq
    rw [hsame, howner] at howner'
    exact (Option.some.inj howner').symm

theorem keptBy_finish (h : s.Inv) {run : ActiveRun} (hrun : run ∈ s.active.values)
    (howner : run.owner = some n) (hsettled : s.isSettled run.providerSettled = true) :
    KeptBy n s (s.finish run.item) := by
  have hdrop := keptBy_dropRun h hrun howner hsettled
  have hpump := kept_pumpRetirements hdrop.inv
  exact (hdrop.trans hpump).trans (kept_pump hpump.inv)

/-- An active retirement ends, once its provider call is settled. -/
theorem keptBy_dropRetirement (h : s.Inv) {entry : RetirementEntry}
    (hentry : entry ∈ s.activeRetirements.values) (howner : s.entryOwner entry.serial = some n)
    (hsettled : s.isSettled (s.entrySettled entry.serial) = true) :
    KeptBy n s ((s.dropRetirement entry).vacate entry.provider) := by
  have hget : s.activeRetirements.get? entry.id = some entry := InsertionMap.get?_of_mem hentry
  have hperm := InsertionMap.perm_cons_delete hget
  have hmem : ∀ other, other ∈ (s.activeRetirements.delete entry.id).values ↔
      other ∈ s.activeRetirements.values ∧ other.id ≠ entry.id :=
    fun other => InsertionMap.mem_delete
  have hentries : s.entryIds.Perm (entry.id ::
      ((s.dropRetirement entry).vacate entry.provider).entryIds) :=
    ((hperm.map RetirementEntry.id).append_left _).trans List.perm_middle
  have hoccupants : s.occupants.Perm (entry.provider :: (s.dropRetirement entry).occupants) :=
    ((hperm.map RetirementEntry.provider).append_left _).trans List.perm_middle
  have hnodup := List.nodup_cons.mp (hentries.nodup_iff.mp h.lanes.entries_nodup)
  refine ⟨⟨h.sound, h.ahead, ?_, ?_, ?_, { h.permits with }, { h.begun with }, ?_⟩, fun m hm => ?_⟩
  · refine { h.lanes with
      entries_nodup := hnodup.2
      tracked := fun id hid => ?_
      counts := h.lanes.vacate_counts hoccupants
      lanes_nodup := (List.nodup_cons.mp (hoccupants.nodup_iff.mp h.lanes.lanes_nodup)).2
      room := ?_ }
    · have hne : id ≠ entry.id := fun heq => hnodup.1 (heq ▸ hid)
      have htracked := h.lanes.tracked id (hentries.mem_iff.mpr (List.mem_cons_of_mem _ hid))
      show (InsertionMap.has (if s.retirements.get? entry.id = some entry then
        s.retirements.delete entry.id else s.retirements) id) = true
      split
      · rw [InsertionMap.has, InsertionMap.get?_delete, if_neg hne]
        exact htracked
      · exact htracked
    · have hlength := hoccupants.length_eq
      have hroom := h.lanes.room
      rw [List.length_cons] at hlength
      exact Nat.le_trans (Nat.le_of_succ_le (Nat.le_of_eq hlength.symm)) hroom
  · intro k provider hpending
    obtain hrun | ⟨other, hother, hprovider, hkept⟩ := h.held k provider hpending
    · exact .inl hrun
    · refine .inr ⟨other, (hmem other).mpr ⟨hother, fun heq => ?_⟩, hprovider, hkept⟩
      have hsame : other = entry := s.activeRetirements.eq_of_key_eq hother hentry heq
      rw [hsame] at hkept
      rw [hkept] at hsettled
      exact not_pending hsettled hpending
  · exact { h.named with
      activeRetirements := fun other hother =>
        h.named.activeRetirements other ((hmem other).mp hother).1 }
  · intro hclosed
    rw [(h.fresh hclosed).activeRetirements] at hentry
    cases hentry
  · refine { Rely.refl m s with entries := fun other hother howner' => ?_ }
    refine ⟨(hmem other).mpr ⟨hother, fun heq => hm ?_⟩, howner', rfl⟩
    have hsame : other = entry := s.activeRetirements.eq_of_key_eq hother hentry heq
    rw [hsame, howner] at howner'
    exact (Option.some.inj howner').symm

theorem keptBy_release (h : s.Inv) {entry : RetirementEntry}
    (hentry : entry ∈ s.activeRetirements.values) (howner : s.entryOwner entry.serial = some n)
    (hsettled : s.isSettled (s.entrySettled entry.serial) = true) :
    KeptBy n s (s.release entry) := by
  have hdrop := keptBy_dropRetirement h hentry howner hsettled
  have hpump := kept_pump hdrop.inv
  exact (hdrop.trans hpump).trans (kept_pumpRetirements hpump.inv)

end Coordinator

end AgentHost.LaunchCoordinator
