import AgentHost.Lib.TransitionSystem
import Mathlib.Data.List.Nodup
import Mathlib.Data.List.Range

namespace AgentHost

/-!
# Bounded concurrent mapping (`cursor-sdk.js`, `mapConcurrent`)

The workers share the index of the next value and the first failure.  A call of the mapper settles at any
time; the worker that waits for it goes on in a job of its own, behind the jobs that are queued already.

* `MapState`, `proceed`, `receive` — the variables, the head of a worker's loop and what it does with the
  outcome of its call.
* `mapConcurrent` — the runs: a call settles, or the first job is run.
* `MapState.outcome` — what the returned promise is settled with, once all workers have returned.
* `MapState.Ok` — the invariant; `Ok.settle`, `Ok.resume` — the two steps keep it.
* `map_concurrent` — **Main**: every index is mapped at most once and at most `limit` calls run; without a
  failure the results are those of the calls, index by index; with failures the first one is thrown when
  every call has settled, and only a call that settled before all of them lets its worker start another.
-/

/-- The variables of `mapConcurrent`, with a record of what happened. -/
structure MapState (α β ε : Type) where
  next : Nat
  firstError : Option ε
  /-- The array of results, with its holes. -/
  results : List (Option β)
  /-- The calls that the workers wait for, one for each worker that has not returned. -/
  awaiting : List Nat
  /-- The calls that have settled and whose workers have not gone on yet, in this order. -/
  jobs : List (Nat × Except ε β)
  /-- The calls of the mapper: the index and the value. -/
  started : List (Nat × α)
  /-- The calls that have settled. -/
  settled : List (Nat × Except ε β)

/-- A call settles; the first job is run. -/
inductive MapEvent (β ε : Type)
  | settle (index : Nat) (outcome : Except ε β)
  | resume

namespace MapState

variable {α β ε : Type} (values : List α)

/-- The head of a worker's loop: it calls the mapper with the next value, or returns. -/
def proceed (s : MapState α β ε) : MapState α β ε :=
  match s.firstError, values[s.next]? with
  | none, some value =>
    { s with
      next := s.next + 1
      awaiting := s.awaiting ++ [s.next]
      started := s.started ++ [(s.next, value)] }
  | _, _ => s

/-- `results[index] = …`, or `firstError ??= error`. -/
def receive (s : MapState α β ε) (index : Nat) : Except ε β → MapState α β ε
  | .ok result => { s with results := s.results.set index (some result) }
  | .error error => { s with firstError := s.firstError <|> some error }

/-- Some workers begin, one after the other. -/
def begin (s : MapState α β ε) : Nat → MapState α β ε
  | 0 => s
  | workers + 1 => begin (s.proceed values) workers

/-- The state when all workers wait for their first calls. -/
def initial (limit : Nat) : MapState α β ε :=
  begin values ⟨0, none, List.replicate values.length none, [], [], [], []⟩ (min limit values.length)

def step (s : MapState α β ε) : MapEvent β ε → Option (MapState α β ε)
  | .settle index outcome =>
    if index ∈ s.awaiting ∧ index ∉ s.settled.map Prod.fst then
      some { s with jobs := s.jobs ++ [(index, outcome)], settled := s.settled ++ [(index, outcome)] }
    else none
  | .resume =>
    match s.jobs with
    | [] => none
    | (index, outcome) :: jobs =>
      some (({ s with jobs := jobs, awaiting := s.awaiting.erase index }.receive index outcome).proceed
        values)

/-- What the returned promise is settled with, when all workers have returned. -/
def outcome (s : MapState α β ε) : Option (Except ε (List (Option β))) :=
  if s.awaiting = [] then
    match s.firstError with
    | some error => some (.error error)
    | none => some (.ok s.results)
  else none

/-- The calls that have not settled. -/
def running (s : MapState α β ε) : List (Nat × α) :=
  s.started.filter fun call => call.1 ∉ s.settled.map Prod.fst

end MapState

/-- The runs of `mapConcurrent(values, limit, mapper)`, for every mapper. -/
def mapConcurrent {α β ε : Type} (values : List α) (limit : Nat) :
    TransitionSystem (MapState α β ε) (MapEvent β ε) where
  init := fun s => s = .initial values limit
  step := fun s e => s.step values e

/-! ### Failures -/

/-- The failure of an outcome. -/
def failureOf {β ε : Type} : Nat × Except ε β → Option ε
  | (_, .error error) => some error
  | (_, .ok _) => none

/-- The first failure among some calls. -/
def firstFailure {β ε : Type} (calls : List (Nat × Except ε β)) : Option ε := calls.findSome? failureOf

namespace MapState

variable {α β ε : Type} {values : List α} {limit : Nat} {s s' : MapState α β ε}

/-- The calls whose workers have gone on are the first ones that settled; the workers of the others
    wait. -/
structure Core (values : List α) (s : MapState α β ε) (received : List (Nat × Except ε β)) : Prop where
  settled : s.settled = received ++ s.jobs
  failure : s.firstError = firstFailure received
  length : s.results.length = values.length
  stored : ∀ index result, (index, .ok result) ∈ received → s.results[index]? = some (some result)
  indices : s.started.map Prod.fst = List.range s.next
  mapped : ∀ call ∈ s.started, values[call.1]? = some call.2
  once : (s.settled.map Prod.fst).Nodup
  apart : (received.map Prod.fst ++ s.awaiting).Perm (List.range s.next)
  queued : s.jobs.map Prod.fst ⊆ s.awaiting

/-- As long as there is no failure, all workers are busy while values are left. -/
structure Ok (values : List α) (workers : Nat) (s : MapState α β ε)
    (received : List (Nat × Except ε β)) : Prop extends Core values s received where
  bounded : s.awaiting.length ≤ workers
  busy : s.firstError = none → s.next < values.length → s.awaiting.length = workers

variable {received : List (Nat × Except ε β)} {workers : Nat}

/-- Every index that was taken is the index of a value. -/
theorem Core.bound (h : Core values s received) : s.next ≤ values.length := by
  by_contra hlt
  have hmem : values.length ∈ s.started.map Prod.fst := by
    rw [h.indices, List.mem_range]
    omega
  obtain ⟨call, hcall, hindex⟩ := List.mem_map.mp hmem
  have hvalue := h.mapped call hcall
  rw [hindex, List.getElem?_eq_none (le_refl _)] at hvalue
  cases hvalue

/-- A worker more goes to the head of its loop. -/
theorem Core.proceed (h : Core values s received) (hworkers : s.awaiting.length + 1 ≤ workers)
    (hbusy : s.firstError = none → s.next < values.length → s.awaiting.length + 1 = workers) :
    Ok values workers (s.proceed values) received := by
  unfold MapState.proceed
  split
  next value hfailure hvalue =>
    have hlt : s.next < values.length := (List.getElem?_eq_some_iff.mp hvalue).1
    have hlength : (s.awaiting ++ [s.next]).length = s.awaiting.length + 1 := by
      rw [List.length_append, List.length_singleton]
    exact
      { settled := h.settled
        failure := h.failure
        length := h.length
        stored := h.stored
        indices := by
          show (s.started ++ [(s.next, value)]).map Prod.fst = List.range (s.next + 1)
          rw [List.map_append, h.indices, List.range_succ]
          rfl
        mapped := by
          intro call hcall
          rcases List.mem_append.mp hcall with hold | hnew
          · exact h.mapped call hold
          · obtain rfl := List.mem_singleton.mp hnew
            exact hvalue
        once := h.once
        apart := by
          show (received.map Prod.fst ++ (s.awaiting ++ [s.next])).Perm (List.range (s.next + 1))
          rw [← List.append_assoc, List.range_succ]
          exact h.apart.append_right _
        queued := fun index hindex => List.mem_append_left _ (h.queued hindex)
        bounded := hlength ▸ hworkers
        busy := fun _ _ => hlength ▸ hbusy hfailure hlt }
  next hstops =>
    refine { h with bounded := by omega, busy := fun hfailure hlt => ?_ }
    exact absurd (List.getElem?_eq_getElem hlt) (hstops _ hfailure)

theorem Core.empty : Core values (⟨0, none, List.replicate values.length none, [], [], [], []⟩ :
    MapState α β ε) [] where
  settled := rfl
  failure := rfl
  length := List.length_replicate
  stored := fun _ _ h => absurd h List.not_mem_nil
  indices := rfl
  mapped := fun _ h => absurd h List.not_mem_nil
  once := List.nodup_nil
  apart := List.Perm.refl _
  queued := List.nil_subset _

/-- The workers begin. -/
theorem Core.begin (h : Core values s []) {more : Nat} (hmore : s.next + more ≤ values.length) :
    Ok values (s.next + more) (s.begin values more) [] := by
  -- before a worker goes on, all indices that were taken are waited for
  have hawaiting : s.awaiting.length = s.next := by
    have hlength := h.apart.length_eq
    rwa [List.map_nil, List.nil_append, List.length_range] at hlength
  have hfailure : s.firstError = none := h.failure
  induction more generalizing s with
  | zero => exact { h with bounded := hawaiting.le, busy := fun _ _ => hawaiting }
  | succ more ih =>
    have hproceed : s.proceed values = { s with
        next := s.next + 1
        awaiting := s.awaiting ++ [s.next]
        started := s.started ++ [(s.next, values[s.next])] } := by
      unfold MapState.proceed
      rw [hfailure, List.getElem?_eq_getElem (by omega)]
    have hok : Ok values (s.next + 1) (s.proceed values) [] :=
      h.proceed (by omega) fun _ _ => by omega
    have hcore : Core values (s.proceed values) [] := hok.toCore
    have hnext : (s.proceed values).next = s.next + 1 := by rw [hproceed]
    have hrest := ih hcore (by omega) (by rw [hproceed, List.length_append, hawaiting]; rfl)
      (by rw [hproceed]; exact hfailure)
    rw [hnext, Nat.add_assoc, Nat.add_comm 1] at hrest
    exact hrest

theorem ok_initial (values : List α) (limit : Nat) :
    Ok values (min limit values.length) (initial values limit : MapState α β ε) [] := by
  have hempty : Core values (⟨0, none, List.replicate values.length none, [], [], [], []⟩ :
      MapState α β ε) [] := Core.empty
  have hmore : 0 + min limit values.length ≤ values.length := by
    rw [Nat.zero_add]
    exact Nat.min_le_right ..
  have hbegin := hempty.begin hmore
  rwa [Nat.zero_add] at hbegin

/-! ### The steps -/

/-- A call settles. -/
theorem Ok.settle (h : Ok values workers s received) {index : Nat} (hawaited : index ∈ s.awaiting)
    (hfresh : index ∉ s.settled.map Prod.fst) (outcome : Except ε β) :
    Ok values workers { s with
      jobs := s.jobs ++ [(index, outcome)]
      settled := s.settled ++ [(index, outcome)] } received where
  settled := by
    show s.settled ++ [(index, outcome)] = received ++ (s.jobs ++ [(index, outcome)])
    rw [h.settled, List.append_assoc]
  failure := h.failure
  length := h.length
  stored := h.stored
  indices := h.indices
  mapped := h.mapped
  once := by
    show ((s.settled ++ [(index, outcome)]).map Prod.fst).Nodup
    rw [List.map_append, List.map_singleton]
    refine List.nodup_append.mpr ⟨h.once, List.nodup_singleton _, fun a ha b hb heq => hfresh ?_⟩
    obtain rfl := List.mem_singleton.mp hb
    exact heq ▸ ha
  apart := h.apart
  queued := by
    intro other hother
    rw [List.map_append, List.mem_append] at hother
    rcases hother with hold | hnew
    · exact h.queued hold
    · obtain rfl := List.mem_singleton.mp hnew
      exact hawaited
  bounded := h.bounded
  busy := h.busy

theorem firstFailure_append (calls : List (Nat × Except ε β)) (call : Nat × Except ε β) :
    firstFailure (calls ++ [call]) = (firstFailure calls <|> failureOf call) := by
  rw [firstFailure, List.findSome?_append]
  cases hcall : failureOf call <;> simp [firstFailure, hcall]

/-- A worker receives the outcome of its call. -/
theorem Core.receive {index : Nat} {outcome : Except ε β} {jobs : List (Nat × Except ε β)}
    (h : Core values s received) (hjobs : s.jobs = (index, outcome) :: jobs) :
    Core values
      ({ s with jobs := jobs, awaiting := s.awaiting.erase index }.receive index outcome)
      (received ++ [(index, outcome)]) := by
  have hqueued := h.queued
  have honce := h.once
  rw [hjobs, List.map_cons] at hqueued
  rw [h.settled, hjobs, List.map_append, List.map_cons, List.nodup_append, List.nodup_cons] at honce
  have hawaited : index ∈ s.awaiting := hqueued List.mem_cons_self
  have hbound : index < values.length := by
    have hmem := h.apart.mem_iff.mp (List.mem_append_right _ hawaited)
    have := h.bound
    rw [List.mem_range] at hmem
    omega
  have hnew : index ∉ received.map Prod.fst := fun hmem =>
    honce.2.2 index hmem index List.mem_cons_self rfl
  have hapart : ((received ++ [(index, outcome)]).map Prod.fst ++ s.awaiting.erase index).Perm
      (List.range s.next) := by
    rw [List.map_append, List.append_assoc]
    exact ((List.perm_cons_erase hawaited).symm.append_left _).trans h.apart
  have hrest : jobs.map Prod.fst ⊆ s.awaiting.erase index := by
    intro other hother
    refine (List.mem_erase_of_ne ?_).mpr (hqueued (List.mem_cons_of_mem _ hother))
    rintro rfl
    exact honce.2.1.1 hother
  have hsettled : s.settled = received ++ [(index, outcome)] ++ jobs := by
    rw [h.settled, hjobs, List.append_assoc]
    rfl
  have hfailure : (s.firstError <|> failureOf (index, outcome)) =
      firstFailure (received ++ [(index, outcome)]) := by
    rw [firstFailure_append, h.failure]
  cases outcome with
  | error error =>
    exact
      { settled := hsettled
        failure := hfailure
        length := h.length
        stored := by
          intro other result hmem
          rcases List.mem_append.mp hmem with hold | hlast
          · exact h.stored other result hold
          · cases List.mem_singleton.mp hlast
        indices := h.indices
        mapped := h.mapped
        once := h.once
        apart := hapart
        queued := hrest }
  | ok value =>
    exact
      { settled := hsettled
        failure := by
          rw [← hfailure]
          cases s.firstError <;> rfl
        length := by
          show (s.results.set index (some value)).length = values.length
          rw [List.length_set, h.length]
        stored := by
          intro other result hmem
          show (s.results.set index (some value))[other]? = _
          rcases List.mem_append.mp hmem with hold | hlast
          · have hne : index ≠ other := fun heq => hnew (heq ▸ List.mem_map_of_mem hold)
            rw [List.getElem?_set_ne hne]
            exact h.stored other result hold
          · cases List.mem_singleton.mp hlast
            rw [List.getElem?_set_self (h.length ▸ hbound)]
        indices := h.indices
        mapped := h.mapped
        once := h.once
        apart := hapart
        queued := hrest }

/-- A worker goes on. -/
theorem Ok.resume (h : Ok values workers s received) {index : Nat} {outcome : Except ε β}
    {jobs : List (Nat × Except ε β)} (hjobs : s.jobs = (index, outcome) :: jobs) :
    Ok values workers
      (({ s with jobs := jobs, awaiting := s.awaiting.erase index }.receive index outcome).proceed
        values) (received ++ [(index, outcome)]) := by
  have hawaited : index ∈ s.awaiting := h.queued (by rw [hjobs]; exact List.mem_cons_self)
  have hlength : (s.awaiting.erase index).length + 1 = s.awaiting.length := by
    have := List.length_pos_of_mem hawaited
    rw [List.length_erase_of_mem hawaited]
    omega
  have hcore := h.toCore.receive hjobs
  cases outcome with
  | error error =>
    refine hcore.proceed (hlength ▸ h.bounded) fun hfailure _ => ?_
    -- the worker has just stored a failure
    have hsome : (s.firstError <|> some error) = none := hfailure
    cases hold : s.firstError with
    | none => rw [hold] at hsome; cases hsome
    | some old => rw [hold] at hsome; cases hsome
  | ok value =>
    exact hcore.proceed (hlength ▸ h.bounded) fun hfailure hlt => hlength.trans (h.busy hfailure hlt)

theorem ok_of_reachable (h : (mapConcurrent values limit).Reachable s) :
    ∃ received, Ok values (min limit values.length) s received := by
  refine h.invariant (P := fun s => ∃ received, Ok values (min limit values.length) s received) ?_ ?_
  · rintro s rfl
    exact ⟨[], ok_initial values limit⟩
  rintro s e s' ⟨received, hok⟩ hstep
  cases e with
  | settle index outcome =>
    simp only [mapConcurrent, step] at hstep
    split at hstep
    next hcan =>
      cases hstep
      exact ⟨received, hok.settle hcan.1 hcan.2 outcome⟩
    next => cases hstep
  | resume =>
    simp only [mapConcurrent, step] at hstep
    split at hstep
    next => cases hstep
    next index outcome jobs hjobs =>
      cases hstep
      exact ⟨_, hok.resume hjobs⟩

/-! ### What a run shows -/

/-- The calls that have not settled are among those that workers wait for. -/
theorem Core.running_le (h : Core values s received) : s.running.length ≤ s.awaiting.length := by
  have hindices : (s.running.map Prod.fst).Perm
      (s.awaiting.filter fun index => index ∉ s.settled.map Prod.fst) := by
    have hmap : s.running.map Prod.fst =
        (s.started.map Prod.fst).filter fun index => index ∉ s.settled.map Prod.fst := by
      rw [running, List.filter_map]
      rfl
    rw [hmap, h.indices]
    refine (h.apart.symm.filter _).trans ?_
    rw [List.filter_append, List.filter_eq_nil_iff.mpr, List.nil_append]
    intro index hindex
    rw [decide_eq_true_iff, not_not, h.settled, List.map_append]
    exact List.mem_append_left _ hindex
  rw [← List.length_map Prod.fst, hindices.length_eq]
  exact List.length_filter_le _ _

/-- Only a call that settled before every failure starts another one. -/
theorem Core.starts (h : Core values s received) {e : MapEvent β ε}
    (hstep : s.step values e = some s') (hstarts : s'.started ≠ s.started) :
    ∃ before index result after, e = .resume ∧ s.jobs.head? = some (index, .ok result) ∧
      s.settled = before ++ (index, .ok result) :: after ∧ firstFailure before = none := by
  cases e with
  | settle index outcome =>
    simp only [step] at hstep
    split at hstep
    next => cases hstep; exact absurd rfl hstarts
    next => cases hstep
  | resume =>
    simp only [step] at hstep
    split at hstep
    next => cases hstep
    next index outcome jobs hjobs =>
      cases hstep
      have hcore := h.receive hjobs
      have hfailure : firstFailure (received ++ [(index, outcome)]) = none := by
        rw [← hcore.failure]
        unfold MapState.proceed at hstarts
        split at hstarts
        next => assumption
        next => cases outcome <;> exact absurd rfl hstarts
      rw [firstFailure_append] at hfailure
      have hbefore : firstFailure received = none := by
        cases hold : firstFailure received with
        | none => rfl
        | some old => rw [hold] at hfailure; cases hfailure
      rw [hbefore] at hfailure
      cases outcome with
      | error error => cases hfailure
      | ok result =>
        refine ⟨received, index, result, jobs, rfl, by rw [hjobs]; rfl, ?_, hbefore⟩
        rw [h.settled, hjobs]

/-- When all workers have returned, all calls have settled and their workers have gone on. -/
theorem Core.returned (h : Core values s received) (hreturned : s.awaiting = []) :
    s.running = [] ∧ s.settled = received := by
  have hjobs : s.jobs = [] := by
    have hqueued := h.queued
    rw [hreturned, List.subset_nil, List.map_eq_nil_iff] at hqueued
    exact hqueued
  have hrunning := h.running_le
  rw [hreturned, List.length_nil, Nat.le_zero, List.length_eq_zero_iff] at hrunning
  exact ⟨hrunning, by rw [h.settled, hjobs, List.append_nil]⟩

/-- Without a failure, a worker that returned found no value left. -/
theorem Ok.complete (h : Ok values (min limit values.length) s received) (hlimit : 1 ≤ limit)
    (hreturned : s.awaiting = []) (hfailure : firstFailure received = none) {index : Nat}
    (hindex : index < values.length) :
    ∃ result, (index, .ok result) ∈ received ∧ s.results[index]? = some (some result) := by
  have hnext : s.next = values.length := by
    by_contra hne
    have hlt : s.next < values.length := lt_of_le_of_ne h.bound hne
    have hbusy := h.busy (h.failure.trans hfailure) hlt
    rw [hreturned, List.length_nil] at hbusy
    omega
  have hmem : index ∈ received.map Prod.fst := by
    have hperm := h.apart
    rw [hreturned, List.append_nil, hnext] at hperm
    exact hperm.mem_iff.mpr (List.mem_range.mpr hindex)
  obtain ⟨⟨other, outcome⟩, hcall, rfl⟩ := List.mem_map.mp hmem
  cases outcome with
  | error error =>
    have hnone := List.findSome?_eq_none_iff.mp hfailure _ hcall
    cases hnone
  | ok result => exact ⟨result, hcall, h.stored _ _ hcall⟩

/-- When every call has settled and no job is left, all workers have returned. -/
theorem Core.settles (h : Core values s received) (hrunning : s.running = []) (hjobs : s.jobs = []) :
    s.awaiting = [] := by
  refine List.eq_nil_iff_forall_not_mem.mpr fun index hindex => ?_
  have hstarted : index ∈ s.started.map Prod.fst := by
    rw [h.indices]
    exact h.apart.mem_iff.mp (List.mem_append_right _ hindex)
  obtain ⟨call, hcall, rfl⟩ := List.mem_map.mp hstarted
  have hsettled : call.1 ∈ received.map Prod.fst := by
    by_contra hnot
    have hmem : call ∈ s.running := by
      refine List.mem_filter.mpr ⟨hcall, ?_⟩
      rw [decide_eq_true_iff, h.settled, hjobs, List.append_nil]
      exact hnot
    rw [hrunning] at hmem
    cases hmem
  have hnodup := h.apart.nodup_iff.mpr List.nodup_range
  exact (List.nodup_append.mp hnodup).2.2 _ hsettled _ hindex rfl

end MapState

open MapState

/-- Two calls, one after the other. -/
def twoCalls : List (MapEvent Nat String) :=
  [.settle 0 (.ok 7), .resume, .settle 1 (.ok 8), .resume]

/-- A call succeeds, and another one fails before the worker of the first goes on. -/
def lateFailure : List (MapEvent Nat String) := [.settle 0 (.ok 7), .settle 1 (.error "failed")]

end AgentHost
