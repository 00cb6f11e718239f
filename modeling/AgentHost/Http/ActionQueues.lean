import AgentHost.Http.ActionExecutor

namespace AgentHost

/-!
# The queues of the action executor

What the queues, the count of queued items and the items' settlements satisfy in every
reachable state.

* `ActionExecutor.QueuesOk` — the count is the sum of the queue lengths, every queue is
  increasing, belongs to its agent, and has a started head and a waiting tail; `pump` is what
  restores the started head (`QueuesOk.pump`).
* `ActionExecutor.StartsOk`, `SettledOk`, `InvokedOk` — the logs.
* `ActionExecutor.wf_of_reachable` — the invariant of the runs.
* `action_queues` — the state between two turns.
-/

namespace ActionExecutor

variable {π ρ ε : Type} {options : ExecutorOptions} {signatureOf : String → String → π → String}
  {s : ActionExecutor π ρ ε} {n m : Nat} {agentId : String}

/-- The agent of an item. -/
def agent? (s : ActionExecutor π ρ ε) (n : Nat) : Option String :=
  s.items[n]?.map ActionItem.agentId

/-! ### What the primitives change -/

section Primitives

variable {f : ActionItem π ρ ε → ActionItem π ρ ε}

theorem phase?_update {p : ActionPhase} (hf : ∀ item, (f item).phase = p) :
    (s.update n f).phase? m = if n = m then (s.phase? m).map (fun _ => p) else s.phase? m := by
  simp only [phase?, update, List.getElem?_modify, Option.map_map]
  split
  · next h => subst h; cases s.items[n]? <;> simp [hf]
  · simp

theorem phase?_update_of_eq (hf : ∀ item, (f item).phase = item.phase) :
    (s.update n f).phase? = s.phase? := by
  funext m
  simp only [phase?, update, List.getElem?_modify]
  split
  · cases s.items[m]? <;> simp [hf]
  · simp

theorem agent?_update (hf : ∀ item, (f item).agentId = item.agentId) :
    (s.update n f).agent? = s.agent? := by
  funext m
  simp only [agent?, update, List.getElem?_modify]
  split
  · cases s.items[m]? <;> simp [hf]
  · simp

end Primitives

theorem agent?_isSome : (s.agent? n).isSome = (s.phase? n).isSome := by
  simp [agent?, phase?]

theorem phase?_lt {p : ActionPhase} (h : s.phase? n = some p) : n < s.items.length := by
  simp only [phase?, Option.map_eq_some_iff] at h
  obtain ⟨item, h, -⟩ := h
  exact (List.getElem?_eq_some_iff.mp h).1

theorem phase?_none_iff : s.phase? n = none ↔ s.items.length ≤ n := by
  simp [phase?]

@[simp] theorem phase?_startItem : (s.startItem n).phase? m
    = if n = m then (s.phase? m).map (fun _ => .scheduled) else s.phase? m :=
  phase?_update (s := s) fun _ => rfl

@[simp] theorem phase?_runTask : (s.runTask n).phase? m
    = if n = m then (s.phase? m).map (fun _ => .running) else s.phase? m :=
  phase?_update (s := s) fun _ => rfl

@[simp] theorem phase?_settleItem {p : ActionPhase} {o : ActionOutcome ρ ε} :
    (s.settleItem n p o).phase? m
      = if n = m then (s.phase? m).map (fun _ => p) else s.phase? m :=
  phase?_update (s := s) fun _ => rfl

theorem phase?_abortItem : (s.abortItem n).phase? = s.phase? :=
  phase?_update_of_eq (s := s) fun _ => rfl

@[simp] theorem agent?_startItem : (s.startItem n).agent? = s.agent? :=
  agent?_update (s := s) fun _ => rfl

@[simp] theorem agent?_runTask : (s.runTask n).agent? = s.agent? :=
  agent?_update (s := s) fun _ => rfl

@[simp] theorem agent?_settleItem {p : ActionPhase} {o : ActionOutcome ρ ε} :
    (s.settleItem n p o).agent? = s.agent? :=
  agent?_update (s := s) fun _ => rfl

/-! ### The queues -/

/-- The number of items in all queues. -/
def totalQueued (queues : InsertionMap ActionQueue.agentId) : Int :=
  (queues.values.map fun queue => (queue.items.length : Int)).sum

theorem totalQueued_set_of_none {queues : InsertionMap ActionQueue.agentId} {queue : ActionQueue}
    (h : queues.get? queue.agentId = none) :
    totalQueued (queues.set queue) = totalQueued queues + queue.items.length := by
  rw [totalQueued, InsertionMap.values_set_of_get?_none h]
  simp [totalQueued]

theorem totalQueued_delete {queues : InsertionMap ActionQueue.agentId} {queue : ActionQueue}
    {a : String} (h : queues.get? a = some queue) :
    totalQueued (queues.delete a) = totalQueued queues - queue.items.length := by
  have hperm := (InsertionMap.perm_cons_delete h).map fun queue => (queue.items.length : Int)
  have hsum := hperm.sum_eq
  rw [List.map_cons, List.sum_cons] at hsum
  rw [totalQueued, totalQueued]
  omega

theorem totalQueued_set_of_some {queues : InsertionMap ActionQueue.agentId}
    {queue old : ActionQueue} (h : queues.get? queue.agentId = some old) :
    totalQueued (queues.set queue)
      = totalQueued queues - old.items.length + queue.items.length := by
  have hperm := (queues.set_perm queue).map fun queue => (queue.items.length : Int)
  have hsum := hperm.sum_eq
  have hdelete := totalQueued_delete h
  rw [List.map_cons, List.sum_cons] at hsum
  rw [totalQueued] at hdelete ⊢
  omega

/-- One queue: within its limit, in admission order, its own agent's, and waiting behind its
    head. -/
structure QueueOk (options : ExecutorOptions) (s : ActionExecutor π ρ ε) (queue : ActionQueue) :
    Prop where
  nonempty : queue.items ≠ []
  length_le : queue.items.length ≤ options.perAgentLimit
  increasing : queue.items.Pairwise (· < ·)
  owned : ∀ n ∈ queue.items, s.agent? n = some queue.agentId ∧ s.phase? n ≠ some .finished
  tail : ∀ n ∈ queue.items.tail, s.phase? n = some .waiting

/-- The head of a queue is started. -/
def HeadStarted (s : ActionExecutor π ρ ε) (queue : ActionQueue) : Prop :=
  ∀ n, queue.items.head? = some n → s.phase? n ≠ some .waiting

/-- All queues, the count, and where the unfinished items are.  The head of the queue of
    `unpumped` may still have to be started. -/
structure QueuesOk (options : ExecutorOptions) (unpumped : Option String)
    (s : ActionExecutor π ρ ε) : Prop where
  total : s.queued = totalQueued s.queues
  global : s.queued ≤ options.globalLimit
  queue : ∀ queue ∈ s.queues.values, QueueOk options s queue
  heads : ∀ queue ∈ s.queues.values, some queue.agentId ≠ unpumped → HeadStarted s queue
  listed : ∀ n a, s.agent? n = some a → s.phase? n ≠ some .finished → n ∈ s.queueOf a

theorem mem_queueOf : n ∈ s.queueOf agentId ↔
    ∃ queue, s.queues.get? agentId = some queue ∧ n ∈ queue.items := by
  rw [queueOf]
  cases s.queues.get? agentId <;> simp

theorem queueOf_of_get? {queue : ActionQueue} (h : s.queues.get? agentId = some queue) :
    s.queueOf agentId = queue.items := by
  simp [queueOf, h]

/-- Only the phases, the agents, the queues and the count matter. -/
theorem QueuesOk.congr {u : Option String} {t : ActionExecutor π ρ ε} (h : QueuesOk options u s)
    (hphase : t.phase? = s.phase?) (hagent : t.agent? = s.agent?) (hqueues : t.queues = s.queues)
    (hqueued : t.queued = s.queued) : QueuesOk options u t where
  total := by rw [hqueued, hqueues, h.total]
  global := by rw [hqueued]; exact h.global
  queue := fun queue hq => by
    have hok := h.queue queue (hqueues ▸ hq)
    exact ⟨hok.nonempty, hok.length_le, hok.increasing, by rw [hphase, hagent]; exact hok.owned,
      by rw [hphase]; exact hok.tail⟩
  heads := fun queue hq hu n hn => by
    rw [hphase]
    exact h.heads queue (hqueues ▸ hq) hu n hn
  listed := by
    rw [hphase, hagent]
    simpa only [queueOf, hqueues] using h.listed

/-- A started item may move on as long as it is not finished. -/
theorem QueuesOk.advance {u : Option String} {t : ActionExecutor π ρ ε} {p : ActionPhase}
    (h : QueuesOk options u s)
    (hphase : ∀ m, t.phase? m = if n = m then (s.phase? m).map (fun _ => p) else s.phase? m)
    (hagent : t.agent? = s.agent?) (hqueues : t.queues = s.queues)
    (hqueued : t.queued = s.queued) (hn : s.phase? n ≠ some .waiting)
    (hn' : s.phase? n ≠ some .finished) (hp : p ≠ .waiting) (hp' : p ≠ .finished) :
    QueuesOk options u t := by
  have hfinished : ∀ m, t.phase? m = some .finished ↔ s.phase? m = some .finished := by
    intro m
    rw [hphase]
    split
    · next hm => subst hm; simp [hn', hp']
    · rfl
  have hwaiting : ∀ m, t.phase? m = some .waiting ↔ s.phase? m = some .waiting := by
    intro m
    rw [hphase]
    split
    · next hm => subst hm; simp [hn, hp]
    · rfl
  refine ⟨by rw [hqueued, hqueues, h.total], by rw [hqueued]; exact h.global, ?_, ?_, ?_⟩
  · intro queue hq
    have hok := h.queue queue (hqueues ▸ hq)
    refine ⟨hok.nonempty, hok.length_le, hok.increasing, fun m hm => ?_, fun m hm => ?_⟩
    · rw [hagent, Ne, hfinished]
      exact hok.owned m hm
    · exact (hwaiting m).mpr (hok.tail m hm)
  · intro queue hq hu m hm
    rw [Ne, hwaiting]
    exact h.heads queue (hqueues ▸ hq) hu m hm
  · intro m a ha hm
    rw [hagent] at ha
    rw [Ne, hfinished] at hm
    simpa only [queueOf, hqueues] using h.listed m a ha hm

/-! ### `#pump` -/

theorem pump_eq (s : ActionExecutor π ρ ε) (agentId : String) : s.pump agentId = s ∨
    ∃ queue n, s.queues.get? agentId = some queue ∧ queue.items.head? = some n ∧
      s.phase? n = some .waiting ∧ s.pump agentId = s.startItem n := by
  rw [pump]
  split
  · exact .inl rfl
  · next n hn =>
    obtain ⟨queue, hqueue, hhead⟩ := Option.bind_eq_some_iff.mp hn
    split
    · next hwait => exact .inr ⟨queue, n, hqueue, hhead, hwait, rfl⟩
    · exact .inl rfl

/-- `pump` restores the started head of the one queue that may lack it. -/
theorem QueuesOk.pump (h : QueuesOk options (some agentId) s) :
    QueuesOk options none (s.pump agentId) := by
  rw [ActionExecutor.pump]
  split
  · next hnone =>
    refine ⟨h.total, h.global, h.queue, fun queue hq _ n hn => ?_, h.listed⟩
    by_cases ha : queue.agentId = agentId
    · have hget := InsertionMap.get?_of_mem hq
      rw [ha] at hget
      rw [hget] at hnone
      exact absurd (hnone.symm.trans hn) (by simp)
    · exact h.heads queue hq (fun he => ha (Option.some.inj he)) n hn
  · next n hn =>
    obtain ⟨queue, hqueue, hhead⟩ := Option.bind_eq_some_iff.mp hn
    have hmem := InsertionMap.mem_of_get? hqueue
    have hkey := InsertionMap.key_of_get? hqueue
    have hheads : ∀ other ∈ s.queues.values, other.agentId ≠ agentId → HeadStarted s other :=
      fun other ho ha => h.heads other ho fun he => ha (Option.some.inj he)
    split
    · next hwait =>
      -- the head starts; it is behind no other head, since the queues are disjoint
      have hnin : ∀ other ∈ s.queues.values, n ∈ other.items → other = queue := by
        intro other ho hno
        have h1 := ((h.queue other ho).owned n hno).1
        have h2 := ((h.queue queue hmem).owned n (List.mem_of_mem_head? hhead)).1
        exact s.queues.eq_of_key_eq ho hmem (Option.some.inj (h1.symm.trans h2))
      refine ⟨h.total, h.global, fun other ho => ?_, fun other ho _ m hm => ?_, fun m a ha hm => ?_⟩
      · have hok := h.queue other ho
        refine ⟨hok.nonempty, hok.length_le, hok.increasing, fun m hm => ?_, fun m hm => ?_⟩
        · obtain ⟨hagent, hfin⟩ := hok.owned m hm
          refine ⟨by simpa using hagent, ?_⟩
          rw [phase?_startItem]
          split
          · simp
          · exact hfin
        · rw [phase?_startItem, if_neg]
          · exact hok.tail m hm
          · rintro rfl
            obtain rfl := hnin other ho (List.mem_of_mem_tail hm)
            obtain ⟨rest, hrest⟩ := List.head?_eq_some_iff.mp hhead
            have hinc := hok.increasing
            rw [hrest] at hm hinc
            exact absurd ((List.pairwise_cons.mp hinc).1 n hm) (Nat.lt_irrefl n)
      · rw [phase?_startItem]
        split
        · next heq => subst heq; simp [hwait]
        · next hne =>
          by_cases ha : other.agentId = agentId
          · obtain rfl := s.queues.eq_of_key_eq ho hmem (ha.trans hkey.symm)
            exact absurd (Option.some.inj (hhead.symm.trans hm)) hne
          · exact hheads other ho ha m hm
      · rw [agent?_startItem] at ha
        rw [phase?_startItem] at hm
        refine h.listed m a ha fun hfin => hm ?_
        split
        · next heq => subst heq; rw [hwait] at hfin; cases hfin
        · exact hfin
    · next hwait =>
      refine ⟨h.total, h.global, h.queue, fun other ho _ m hm => ?_, h.listed⟩
      by_cases ha : other.agentId = agentId
      · obtain rfl := s.queues.eq_of_key_eq ho hmem (ha.trans hkey.symm)
        rw [← Option.some.inj (hhead.symm.trans hm)]
        exact hwait
      · exact hheads other ho ha m hm

/-! ### Admission -/

/-- A request at the end of its agent's queue, before the pump. -/
def enqueued (s : ActionExecutor π ρ ε) (agentId action : String) (payload : π)
    (key signature : String) : ActionExecutor π ρ ε :=
  { s with
    items := s.items ++ [⟨key, agentId, action, payload, .waiting, none, false, false⟩]
    queues := s.queues.set ⟨agentId, s.queueOf agentId ++ [s.items.length]⟩
    queued := s.queued + 1
    cache := s.cache.set
      ⟨key, signature, s.items.length, false, none, s.calls.length, s.invocations.length⟩ }

theorem enroll_eq (s : ActionExecutor π ρ ε) (agentId action : String) (payload : π)
    (key signature : String) : s.enroll agentId action payload key signature
      = (s.enqueued agentId action payload key signature).pump agentId := rfl

section Enqueued

variable {action key signature : String} {payload : π}

theorem phase?_enqueued : (s.enqueued agentId action payload key signature).phase? m
    = if m = s.items.length then some .waiting else s.phase? m := by
  simp only [phase?, enqueued, List.getElem?_append, List.getElem?_singleton]
  split
  · next h => rw [if_neg (by omega)]
  · next h =>
    by_cases hm : m = s.items.length
    · simp [hm]
    · rw [if_neg (by omega), if_neg hm, List.getElem?_eq_none (by omega)]

theorem agent?_enqueued : (s.enqueued agentId action payload key signature).agent? m
    = if m = s.items.length then some agentId else s.agent? m := by
  simp only [agent?, enqueued, List.getElem?_append, List.getElem?_singleton]
  split
  · next h => rw [if_neg (by omega)]
  · next h =>
    by_cases hm : m = s.items.length
    · simp [hm]
    · rw [if_neg (by omega), if_neg hm, List.getElem?_eq_none (by omega)]

theorem agent?_lt {a : String} (h : s.agent? n = some a) : n < s.items.length := by
  simp only [agent?, Option.map_eq_some_iff] at h
  obtain ⟨item, h, -⟩ := h
  exact (List.getElem?_eq_some_iff.mp h).1

theorem queueOf_enqueued {a : String} : (s.enqueued agentId action payload key signature).queueOf a
    = if a = agentId then s.queueOf agentId ++ [s.items.length] else s.queueOf a := by
  simp only [queueOf, enqueued, InsertionMap.get?_set]
  split <;> simp

/-- The queue of an agent, old or new, satisfies all but being nonempty. -/
theorem QueuesOk.queueOf {u : Option String} (h : QueuesOk options u s) (a : String) :
    (s.queueOf a).Pairwise (· < ·) ∧
      (∀ n ∈ s.queueOf a, s.agent? n = some a ∧ s.phase? n ≠ some .finished) ∧
      ∀ n ∈ (s.queueOf a).tail, s.phase? n = some .waiting := by
  cases hget : s.queues.get? a with
  | none => simp [ActionExecutor.queueOf, hget]
  | some queue =>
    obtain rfl := InsertionMap.key_of_get? hget
    have hok := h.queue queue (InsertionMap.mem_of_get? hget)
    rw [queueOf_of_get? hget]
    exact ⟨hok.increasing, hok.owned, hok.tail⟩

theorem QueuesOk.enqueued (h : QueuesOk options none s)
    (hagent : (s.queueOf agentId).length < options.perAgentLimit)
    (hglobal : s.queued < options.globalLimit) :
    QueuesOk options (some agentId) (s.enqueued agentId action payload key signature) := by
  obtain ⟨hinc, howned, htail⟩ := h.queueOf agentId
  -- items that are listed somewhere are older than the new one
  have hold : ∀ {a}, ∀ m ∈ s.queueOf a, m ≠ s.items.length := fun m hm he => by
    subst he
    exact absurd (agent?_lt ((h.queueOf _).2.1 _ hm).1) (Nat.lt_irrefl _)
  refine ⟨?_, ?_, fun queue hq => ?_, fun queue hq hu m hm => ?_, fun m a ha hm => ?_⟩
  · change s.queued + 1 = totalQueued (s.queues.set _)
    cases hget : s.queues.get? agentId with
    | none =>
      rw [totalQueued_set_of_none (by exact hget), h.total]
      simp [ActionExecutor.queueOf, hget]
    | some old =>
      rw [totalQueued_set_of_some (by exact hget), h.total, queueOf_of_get? hget]
      simp
      omega
  · change s.queued + 1 ≤ _
    omega
  · rcases InsertionMap.mem_set.mp hq with rfl | ⟨hq, hne⟩
    · refine ⟨by simp, by simp; omega, ?_, fun m hm => ?_, fun m hm => ?_⟩
      · refine List.pairwise_append.mpr ⟨hinc, List.pairwise_singleton _ _, fun m hm n hn => ?_⟩
        rw [List.mem_singleton.mp hn]
        exact agent?_lt (howned m hm).1
      · rw [agent?_enqueued, phase?_enqueued]
        rcases List.mem_append.mp hm with hm | hm
        · rw [if_neg (hold m hm), if_neg (hold m hm)]
          exact howned m hm
        · rw [if_pos (List.mem_singleton.mp hm), if_pos (List.mem_singleton.mp hm)]
          simp
      · rw [phase?_enqueued]
        split
        · rfl
        · next hne =>
          change m ∈ (s.queueOf agentId ++ [s.items.length]).tail at hm
          cases hqueue : s.queueOf agentId with
          | nil => simp [hqueue] at hm
          | cons first rest =>
            rw [hqueue] at hm htail
            rcases List.mem_append.mp hm with hm | hm
            · exact htail m hm
            · exact absurd (List.mem_singleton.mp hm) hne
    · have hok := h.queue queue hq
      have hold' : ∀ m ∈ queue.items, m ≠ s.items.length := fun m hm =>
        hold m (queueOf_of_get? (InsertionMap.get?_of_mem hq) ▸ hm)
      refine ⟨hok.nonempty, hok.length_le, hok.increasing, fun m hm => ?_, fun m hm => ?_⟩
      · rw [agent?_enqueued, phase?_enqueued, if_neg (hold' m hm), if_neg (hold' m hm)]
        exact hok.owned m hm
      · rw [phase?_enqueued, if_neg (hold' m (List.mem_of_mem_tail hm))]
        exact hok.tail m hm
  · rcases InsertionMap.mem_set.mp hq with rfl | ⟨hq, -⟩
    · exact absurd rfl hu
    · rw [phase?_enqueued, if_neg]
      · exact h.heads queue hq (by simp) m hm
      · exact hold m (queueOf_of_get? (InsertionMap.get?_of_mem hq) ▸ List.mem_of_mem_head? hm)
  · rw [queueOf_enqueued]
    rw [agent?_enqueued] at ha
    rw [phase?_enqueued] at hm
    split at ha
    · next hlen =>
      obtain rfl := Option.some.inj ha
      simp [hlen]
    · next hlen =>
      rw [if_neg hlen] at hm
      have hlisted := h.listed m a ha hm
      split
      · next heq => exact List.mem_append_left _ (heq ▸ hlisted)
      · exact hlisted

end Enqueued

/-! ### The completion chain -/

/-- An executor after an item left its queue, before the pump. -/
def shifted (s : ActionExecutor π ρ ε) (n : Nat) (agentId : String) : ActionExecutor π ρ ε :=
  { s.update n (fun item => { item with phase := .finished }) with
    active := s.active.erase n
    queues := s.shiftQueue agentId n
    queued := s.queued - 1 }

theorem finish_eq (s : ActionExecutor π ρ ε) (n : Nat) (agentId : String) :
    s.finish n agentId = (s.shifted n agentId).pump agentId := rfl

theorem phase?_shifted : (s.shifted n agentId).phase? m
    = if n = m then (s.phase? m).map (fun _ => .finished) else s.phase? m :=
  phase?_update (s := s) fun _ => rfl

theorem agent?_shifted : (s.shifted n agentId).agent? = s.agent? :=
  agent?_update (s := s) fun _ => rfl

/-- A started item in a queue is its head. -/
theorem QueuesOk.head_of_started {u : Option String} (h : QueuesOk options u s)
    (hagent : s.agent? n = some agentId) (hphase : s.phase? n ≠ some .waiting)
    (hphase' : s.phase? n ≠ some .finished) :
    ∃ queue rest, s.queues.get? agentId = some queue ∧ queue.items = n :: rest := by
  obtain ⟨queue, hget, hmem⟩ := mem_queueOf.mp (h.listed n agentId hagent hphase')
  have htail := (h.queue queue (InsertionMap.mem_of_get? hget)).tail
  cases hitems : queue.items with
  | nil => simp [hitems] at hmem
  | cons first rest =>
    rw [hitems] at hmem htail
    rcases List.mem_cons.mp hmem with rfl | hmem
    · exact ⟨queue, rest, hget, hitems⟩
    · exact absurd (htail n hmem) hphase

theorem QueuesOk.shifted (h : QueuesOk options none s) (hagent : s.agent? n = some agentId)
    (hphase : s.phase? n = some .finishing) :
    QueuesOk options (some agentId) (s.shifted n agentId) := by
  obtain ⟨queue, rest, hget, hitems⟩ :=
    h.head_of_started hagent (by simp [hphase]) (by simp [hphase])
  have hmem := InsertionMap.mem_of_get? hget
  obtain rfl := InsertionMap.key_of_get? hget
  have hok := h.queue queue hmem
  have hinc := List.pairwise_cons.mp (hitems ▸ hok.increasing)
  have hnin : n ∉ rest := fun hn => Nat.lt_irrefl n (hinc.1 n hn)
  have hrest : ∀ m ∈ rest, s.phase? m = some .waiting := by
    have htail := hok.tail
    rw [hitems] at htail
    exact htail
  have hqueues : (s.shifted n queue.agentId).queues
      = if rest.isEmpty then s.queues.delete queue.agentId
        else s.queues.set { queue with items := rest } := by
    simp [ActionExecutor.shifted, shiftQueue, hget, hitems]
  -- other queues do not hold the item that leaves
  have hother : ∀ other ∈ s.queues.values, other.agentId ≠ queue.agentId → n ∉ other.items :=
    fun other ho hne hn =>
      hne (Option.some.inj (((h.queue other ho).owned n hn).1.symm.trans hagent))
  have hphase' : ∀ m, m ≠ n → (s.shifted n queue.agentId).phase? m = s.phase? m := fun m hm => by
    rw [phase?_shifted, if_neg (Ne.symm hm)]
  have hmem' : ∀ q ∈ (s.shifted n queue.agentId).queues.values,
      (q = { queue with items := rest } ∧ rest ≠ []) ∨
        (q ∈ s.queues.values ∧ q.agentId ≠ queue.agentId) := by
    intro q hq
    rw [hqueues] at hq
    split at hq
    · exact .inr (InsertionMap.mem_delete.mp hq)
    · next hne =>
      rcases InsertionMap.mem_set.mp hq with rfl | hq
      · exact .inl ⟨rfl, by simpa using hne⟩
      · exact .inr hq
  refine ⟨?_, ?_, fun q hq => ?_, fun q hq hu m hm => ?_, fun m a ha hm => ?_⟩
  · change s.queued - 1 = totalQueued (s.shifted n queue.agentId).queues
    rw [hqueues, h.total]
    split
    · next hempty => rw [totalQueued_delete hget, hitems, List.isEmpty_iff.mp hempty]; simp
    · rw [totalQueued_set_of_some (by exact hget), hitems]
      simp
      omega
  · change s.queued - 1 ≤ _
    have hglobal := h.global
    omega
  · rcases hmem' q hq with ⟨rfl, hne⟩ | ⟨hq, hne⟩
    · have hlength := hok.length_le
      rw [hitems, List.length_cons] at hlength
      refine ⟨hne, by simp only; omega, hinc.2, fun m hm => ?_, fun m hm => ?_⟩
      · have hmn : m ≠ n := fun he => hnin (he ▸ hm)
        rw [agent?_shifted, hphase' m hmn]
        exact hok.owned m (hitems ▸ List.mem_cons_of_mem _ hm)
      · have hm := List.mem_of_mem_tail hm
        rw [hphase' m fun he => hnin (he ▸ hm)]
        exact hrest m hm
    · have hoq := h.queue q hq
      have hmn : ∀ m ∈ q.items, m ≠ n := fun m hm he => hother q hq hne (he ▸ hm)
      refine ⟨hoq.nonempty, hoq.length_le, hoq.increasing, fun m hm => ?_, fun m hm => ?_⟩
      · rw [agent?_shifted, hphase' m (hmn m hm)]
        exact hoq.owned m hm
      · rw [hphase' m (hmn m (List.mem_of_mem_tail hm))]
        exact hoq.tail m hm
  · rcases hmem' q hq with ⟨rfl, -⟩ | ⟨hq, hne⟩
    · exact absurd rfl hu
    · rw [hphase' m fun he => hother q hq hne (he ▸ List.mem_of_mem_head? hm)]
      exact h.heads q hq (by simp) m hm
  · rw [agent?_shifted] at ha
    have hmn : m ≠ n := by
      rintro rfl
      rw [phase?_shifted, if_pos rfl, hphase] at hm
      exact hm rfl
    rw [hphase' m hmn] at hm
    have hlisted := h.listed m a ha hm
    obtain ⟨q, hq, hmq⟩ := mem_queueOf.mp hlisted
    refine mem_queueOf.mpr ?_
    rw [hqueues]
    by_cases hqa : a = queue.agentId
    · subst hqa
      obtain rfl := Option.some.inj (hq.symm.trans hget)
      rw [hitems] at hmq
      have hmr := (List.mem_cons.mp hmq).resolve_left hmn
      rw [if_neg (by simpa using List.ne_nil_of_mem hmr)]
      exact ⟨⟨_, rest⟩, by rw [InsertionMap.get?_set, if_pos rfl], hmr⟩
    · refine ⟨q, ?_, hmq⟩
      split
      · rw [InsertionMap.get?_delete, if_neg hqa, hq]
      · rw [InsertionMap.get?_set, if_neg hqa, hq]

/-! ### Shutdown -/

section Drop

variable {queue : ActionQueue}

theorem dropItem_of_get? (hget : s.queues.get? agentId = some queue) :
    s.dropItem agentId n
      = ({ s with
            queues := s.queues.set { queue with items := queue.items.erase n }
            queued := s.queued - 1 } : ActionExecutor π ρ ε).settleItem n .finished
          (.refused shuttingDown) := by
  simp [dropItem, hget]

theorem phase?_dropItem (hget : s.queues.get? agentId = some queue) :
    (s.dropItem agentId n).phase? m
      = if n = m then (s.phase? m).map (fun _ => .finished) else s.phase? m := by
  rw [dropItem_of_get? hget, phase?_settleItem]
  rfl

theorem agent?_dropItem (hget : s.queues.get? agentId = some queue) :
    (s.dropItem agentId n).agent? = s.agent? := by
  rw [dropItem_of_get? hget, agent?_settleItem]
  rfl

theorem queues_dropItem (hget : s.queues.get? agentId = some queue) :
    (s.dropItem agentId n).queues = s.queues.set { queue with items := queue.items.erase n } := by
  rw [dropItem_of_get? hget]
  rfl

theorem queued_dropItem (hget : s.queues.get? agentId = some queue) :
    (s.dropItem agentId n).queued = s.queued - 1 := by
  rw [dropItem_of_get? hget]
  rfl

/-- Dropping a waiting item leaves the queues in order. -/
theorem QueuesOk.dropItem (h : QueuesOk options none s) (hn : n ∈ s.queueOf agentId)
    (hwait : s.phase? n = some .waiting) : QueuesOk options none (s.dropItem agentId n) := by
  obtain ⟨queue, hget, hnq⟩ := mem_queueOf.mp hn
  have hmem := InsertionMap.mem_of_get? hget
  obtain rfl := InsertionMap.key_of_get? hget
  have hok := h.queue queue hmem
  -- the head is started, so the dropped item is behind it
  obtain ⟨first, rest, hitems⟩ := List.exists_cons_of_ne_nil hok.nonempty
  have hfirst : s.phase? first ≠ some .waiting :=
    h.heads queue hmem (by simp) first (by rw [hitems]; rfl)
  have hne : first ≠ n := fun he => hfirst (he ▸ hwait)
  have herase : queue.items.erase n = first :: rest.erase n := by
    rw [hitems, List.erase_cons_tail (by simpa using hne)]
  have hinc := hok.increasing
  have hnodup : queue.items.Nodup := hinc.imp Nat.ne_of_lt
  have hsub := List.erase_sublist (a := n) (l := queue.items)
  have hagent := (hok.owned n hnq).1
  have hother : ∀ other ∈ s.queues.values, other.agentId ≠ queue.agentId → n ∉ other.items :=
    fun other ho hoa hn =>
      hoa (Option.some.inj (((h.queue other ho).owned n hn).1.symm.trans hagent))
  have hphase' : ∀ m, m ≠ n → (s.dropItem queue.agentId n).phase? m = s.phase? m :=
    fun m hm => by rw [phase?_dropItem hget, if_neg (Ne.symm hm)]
  refine ⟨?_, ?_, fun q hq => ?_, fun q hq _ m hm => ?_, fun m a ha hm => ?_⟩
  · rw [queued_dropItem hget, queues_dropItem hget, h.total, totalQueued_set_of_some (by exact hget)]
    have hlength := List.length_erase_of_mem hnq
    have hpos := List.length_pos_of_mem hnq
    simp only
    omega
  · rw [queued_dropItem hget]
    have hglobal := h.global
    omega
  · rw [queues_dropItem hget] at hq
    rcases InsertionMap.mem_set.mp hq with rfl | ⟨hq, hqa⟩
    · refine ⟨by simp [herase], hsub.length_le.trans hok.length_le, hinc.sublist hsub,
        fun m hm => ?_, fun m hm => ?_⟩
      · have hmn := ((List.Nodup.mem_erase_iff hnodup).mp hm).1
        rw [agent?_dropItem hget, hphase' m hmn]
        exact hok.owned m (hsub.mem hm)
      · have hmn := ((List.Nodup.mem_erase_iff hnodup).mp (List.mem_of_mem_tail hm)).1
        rw [hphase' m hmn]
        have htail := hok.tail
        rw [herase] at hm
        rw [hitems] at htail
        exact htail m (List.mem_of_mem_erase hm)
    · have hoq := h.queue q hq
      have hmn : ∀ m ∈ q.items, m ≠ n := fun m hm he => hother q hq hqa (he ▸ hm)
      refine ⟨hoq.nonempty, hoq.length_le, hoq.increasing, fun m hm => ?_, fun m hm => ?_⟩
      · rw [agent?_dropItem hget, hphase' m (hmn m hm)]
        exact hoq.owned m hm
      · rw [hphase' m (hmn m (List.mem_of_mem_tail hm))]
        exact hoq.tail m hm
  · rw [queues_dropItem hget] at hq
    rcases InsertionMap.mem_set.mp hq with rfl | ⟨hq, hqa⟩
    · simp only [herase, List.head?_cons, Option.some.injEq] at hm
      subst hm
      rw [hphase' first hne]
      exact hfirst
    · rw [hphase' m fun he => hother q hq hqa (he ▸ List.mem_of_mem_head? hm)]
      exact h.heads q hq (by simp) m hm
  · rw [agent?_dropItem hget] at ha
    have hmn : m ≠ n := by
      rintro rfl
      rw [phase?_dropItem hget, if_pos rfl, hwait] at hm
      exact hm rfl
    rw [hphase' m hmn] at hm
    obtain ⟨q, hq, hmq⟩ := mem_queueOf.mp (h.listed m a ha hm)
    refine mem_queueOf.mpr ?_
    rw [queues_dropItem hget]
    by_cases hqa : a = queue.agentId
    · subst hqa
      obtain rfl := Option.some.inj (hq.symm.trans hget)
      exact ⟨_, by rw [InsertionMap.get?_set, if_pos rfl],
        (List.Nodup.mem_erase_iff hnodup).mpr ⟨hmn, hmq⟩⟩
    · exact ⟨q, by rw [InsertionMap.get?_set, if_neg hqa, hq], hmq⟩

/-- Dropping an item keeps the other items of its queue where they are. -/
theorem mem_queueOf_dropItem (hmn : m ≠ n) (hm : m ∈ s.queueOf agentId) :
    m ∈ (s.dropItem agentId n).queueOf agentId := by
  obtain ⟨queue, hget, hmq⟩ := mem_queueOf.mp hm
  obtain rfl := InsertionMap.key_of_get? hget
  refine mem_queueOf.mpr ⟨_, by rw [queues_dropItem hget, InsertionMap.get?_set, if_pos rfl], ?_⟩
  exact (List.mem_erase_of_ne hmn).mpr hmq

end Drop

/-- With a started head in every queue no queue is ever left empty. -/
theorem QueuesOk.deleteEmpty_eq (h : QueuesOk options none s) (agentId : String) :
    s.deleteEmpty agentId = s := by
  rw [deleteEmpty]
  split
  · next hempty =>
    have hnone : s.queues.get? agentId = none := by
      cases hget : s.queues.get? agentId with
      | none => rfl
      | some queue =>
        rw [queueOf_of_get? hget, List.isEmpty_iff] at hempty
        exact absurd hempty (h.queue queue (InsertionMap.mem_of_get? hget)).nonempty
    rw [InsertionMap.delete_of_get?_none hnone]
  · rfl

/-- **Step lemma of the shutdown loop.**  What the dropping of a waiting item of a queue keeps,
    the loop body keeps. -/
theorem dropPending_induction {P : ActionExecutor π ρ ε → Prop}
    (hok : ∀ s, P s → QueuesOk options none s)
    (hdrop : ∀ s n, P s → n ∈ s.queueOf agentId → s.phase? n = some .waiting →
      P (s.dropItem agentId n)) (hs : P s) : P (s.dropPending agentId) := by
  have hfold : ∀ (pending : List Nat) (t : ActionExecutor π ρ ε), P t → pending.Nodup →
      (∀ n ∈ pending, n ∈ t.queueOf agentId ∧ t.phase? n = some .waiting) →
      P (pending.foldl (fun s n => s.dropItem agentId n) t) := by
    intro pending
    induction pending with
    | nil => exact fun t ht _ _ => ht
    | cons n rest ih =>
      intro t ht hnodup hall
      obtain ⟨hn, hwait⟩ := hall n List.mem_cons_self
      obtain ⟨queue, hget, -⟩ := mem_queueOf.mp hn
      refine ih _ (hdrop t n ht hn hwait) hnodup.of_cons fun m hm => ?_
      have hmn : m ≠ n := fun he => (List.nodup_cons.mp hnodup).1 (he ▸ hm)
      obtain ⟨hmq, hmw⟩ := hall m (List.mem_cons_of_mem _ hm)
      refine ⟨mem_queueOf_dropItem hmn hmq, ?_⟩
      rw [phase?_dropItem hget, if_neg (Ne.symm hmn), hmw]
  obtain ⟨hinc, howned, -⟩ := (hok s hs).queueOf agentId
  have hdropped := hfold ((s.queueOf agentId).filter fun n => !s.isStarted n) s hs
    ((hinc.imp Nat.ne_of_lt).filter _) fun n hn => by
      obtain ⟨hn, hstarted⟩ := List.mem_filter.mp hn
      refine ⟨hn, ?_⟩
      cases hp : s.phase? n with
      | none => simp [isStarted, hp] at hstarted
      | some p => cases p <;> simp [isStarted, hp, ActionPhase.isStarted] at hstarted ⊢
  rw [dropPending, (hok _ hdropped).deleteEmpty_eq]
  exact hdropped

/-- **Run lemma of the shutdown loop.** -/
theorem shutdown_induction {P : ActionExecutor π ρ ε → Prop}
    (hok : ∀ s, P s → QueuesOk options none s)
    (hdrop : ∀ s n agentId, P s → n ∈ s.queueOf agentId → s.phase? n = some .waiting →
      P (s.dropItem agentId n)) (hs : P { s with draining := true }) : P s.shutdown := by
  rw [shutdown]
  generalize s.queues.values.map ActionQueue.agentId = agents
  generalize ({ s with draining := true } : ActionExecutor π ρ ε) = t at hs
  induction agents generalizing t with
  | nil => exact hs
  | cons agentId rest ih =>
    exact ih _ (dropPending_induction hok (fun s n => hdrop s n agentId) hs)

/-! ### The logs -/

/-- The logs: every settled item was settled once, no action was called twice, and the items of
    an agent started in the order of their admission. -/
structure LogsOk (s : ActionExecutor π ρ ε) : Prop where
  settled : ∀ n, s.settlements.count n = if (s.phase? n).any ActionPhase.isSettled then 1 else 0
  outcome : ∀ n, (s.outcome? n).isSome = (s.phase? n).any ActionPhase.isSettled
  invoked : ∀ n, s.invocations.count n ≤ if (s.phase? n).any ActionPhase.hasRun then 1 else 0
  ordered : s.starts.Pairwise fun m n => s.agent? m = s.agent? n → m < n
  behind : ∀ m ∈ s.starts, ∀ n, s.phase? n = some .waiting → s.agent? m = s.agent? n → m < n
  admitted : ∀ m ∈ s.starts, m < s.items.length

theorem outcome?_update {f : ActionItem π ρ ε → ActionItem π ρ ε}
    (hf : ∀ item, (f item).outcome = item.outcome) : (s.update n f).outcome? = s.outcome? := by
  funext m
  simp only [outcome?, update, List.getElem?_modify]
  split
  · cases s.items[m]? <;> simp [hf]
  · simp

theorem outcome?_settleItem {p : ActionPhase} {o : ActionOutcome ρ ε} :
    (s.settleItem n p o).outcome? m
      = if n = m then (s.phase? m).bind (fun _ => s.outcome? m <|> some o) else s.outcome? m := by
  simp only [outcome?, phase?, settleItem, update, List.getElem?_modify]
  split
  · cases s.items[m]? <;> simp
  · simp

theorem items_length_update {f : ActionItem π ρ ε → ActionItem π ρ ε} :
    (s.update n f).items.length = s.items.length := by
  simp [update]

/-- Only the items' phases, agents and outcomes and the logs matter. -/
theorem LogsOk.congr {t : ActionExecutor π ρ ε} (h : LogsOk s) (hphase : t.phase? = s.phase?)
    (hagent : t.agent? = s.agent?) (houtcome : t.outcome? = s.outcome?)
    (hlength : t.items.length = s.items.length) (hsettlements : t.settlements = s.settlements)
    (hinvocations : t.invocations = s.invocations) (hstarts : t.starts = s.starts) : LogsOk t where
  settled := by rw [hphase, hsettlements]; exact h.settled
  outcome := by rw [hphase, houtcome]; exact h.outcome
  invoked := by rw [hphase, hinvocations]; exact h.invoked
  ordered := by rw [hagent, hstarts]; exact h.ordered
  behind := by rw [hagent, hstarts, hphase]; exact h.behind
  admitted := by rw [hstarts, hlength]; exact h.admitted

section Move

variable {t : ActionExecutor π ρ ε} {p q : ActionPhase}

/-- What two phases share is not changed by a move from one to the other. -/
theorem any_move (f : ActionPhase → Bool)
    (hmove : ∀ m, t.phase? m = if n = m then (s.phase? m).map (fun _ => q) else s.phase? m)
    (hphase : s.phase? n = some p) (hf : f q = f p) (m : Nat) :
    (t.phase? m).any f = (s.phase? m).any f := by
  rw [hmove]
  split
  · next he => subst he; simp [hphase, hf]
  · rfl

/-- A move to a phase other than `waiting` takes the item off the waiting ones. -/
theorem waiting_of_move
    (hmove : ∀ m, t.phase? m = if n = m then (s.phase? m).map (fun _ => q) else s.phase? m)
    (hq : q ≠ .waiting) (hm : t.phase? m = some .waiting) :
    s.phase? m = some .waiting ∧ m ≠ n := by
  rw [hmove] at hm
  split at hm
  · obtain ⟨_, _, he⟩ := Option.map_eq_some_iff.mp hm
    exact absurd he hq
  · next hne => exact ⟨hm, Ne.symm hne⟩

/-- An item that starts must be the first of its agent that waits. -/
theorem LogsOk.startItem (h : LogsOk s) (hwait : s.phase? n = some .waiting)
    (hfirst : ∀ m, s.phase? m = some .waiting → s.agent? n = s.agent? m → m ≠ n → n < m) :
    LogsOk (s.startItem n) := by
  have hmove : ∀ m, (s.startItem n).phase? m
      = if n = m then (s.phase? m).map (fun _ => .scheduled) else s.phase? m :=
    fun m => phase?_startItem
  have houtcome : (s.startItem n).outcome? = s.outcome? := outcome?_update fun _ => rfl
  have hlength : (s.startItem n).items.length = s.items.length := items_length_update
  refine ⟨fun m => ?_, fun m => ?_, fun m => ?_, ?_, fun m hm k hk hmk => ?_, fun m hm => ?_⟩
  · rw [any_move _ hmove hwait rfl]
    exact h.settled m
  · rw [any_move _ hmove hwait rfl, houtcome]
    exact h.outcome m
  · rw [any_move _ hmove hwait rfl]
    exact h.invoked m
  · rw [agent?_startItem]
    refine List.pairwise_append.mpr ⟨h.ordered, List.pairwise_singleton _ _, fun m hm k hk => ?_⟩
    rw [List.mem_singleton.mp hk]
    exact h.behind m hm n hwait
  · rw [agent?_startItem] at hmk
    obtain ⟨hk, hkn⟩ := waiting_of_move hmove (by decide) hk
    rcases List.mem_append.mp hm with hm | hm
    · exact h.behind m hm k hk hmk
    · rw [List.mem_singleton.mp hm] at hmk ⊢
      exact hfirst k hk hmk hkn
  · rw [hlength]
    rcases List.mem_append.mp hm with hm | hm
    · exact h.admitted m hm
    · rw [List.mem_singleton.mp hm]
      exact phase?_lt hwait

theorem LogsOk.runTask (h : LogsOk s) (hphase : s.phase? n = some .scheduled) :
    LogsOk (s.runTask n) := by
  have hmove : ∀ m, (s.runTask n).phase? m
      = if n = m then (s.phase? m).map (fun _ => .running) else s.phase? m :=
    fun m => phase?_runTask
  have houtcome : (s.runTask n).outcome? = s.outcome? := outcome?_update fun _ => rfl
  have hlength : (s.runTask n).items.length = s.items.length := items_length_update
  refine ⟨fun m => ?_, fun m => ?_, fun m => ?_, ?_, fun m hm k hk hmk => ?_, ?_⟩
  · rw [any_move _ hmove hphase rfl]
    exact h.settled m
  · rw [any_move _ hmove hphase rfl, houtcome]
    exact h.outcome m
  · have hinvocations : (s.runTask n).invocations = s.invocations ++ [n] := rfl
    have hm := h.invoked m
    rw [hinvocations, List.count_append, List.count_singleton, hmove]
    by_cases he : n = m
    · subst he
      simp only [hphase, Option.any_some, ActionPhase.hasRun] at hm
      simp [hphase, ActionPhase.hasRun]
      simpa using hm
    · rw [if_neg he, if_neg (by simpa using he)]
      exact hm
  · rw [agent?_runTask]
    exact h.ordered
  · rw [agent?_runTask] at hmk
    exact h.behind m hm k (waiting_of_move hmove (by decide) hk).1 hmk
  · rw [hlength]
    exact h.admitted

/-- An item is settled once: before it was not. -/
theorem LogsOk.settleItem {o : ActionOutcome ρ ε} (h : LogsOk s)
    (hphase : s.phase? n = some p) (hp : p.isSettled = false) (hq : q.isSettled = true) :
    LogsOk (s.settleItem n q o) := by
  have hmove : ∀ m, (s.settleItem n q o).phase? m
      = if n = m then (s.phase? m).map (fun _ => q) else s.phase? m := fun m => phase?_settleItem
  have hlength : (s.settleItem n q o).items.length = s.items.length := items_length_update
  have hwaiting : q ≠ .waiting := by rintro rfl; cases hq
  have hrun : q.hasRun = true := by cases q <;> first | rfl | cases hq
  refine ⟨fun m => ?_, fun m => ?_, fun m => ?_, ?_, fun m hm k hk hmk => ?_, ?_⟩
  · have hsettlements : (s.settleItem n q o).settlements = s.settlements ++ [n] := rfl
    rw [hsettlements, List.count_append, h.settled m, List.count_singleton, hmove]
    by_cases he : n = m
    · subst he
      simp [hphase, hp, hq]
    · simp [he]
  · rw [hmove, outcome?_settleItem]
    split
    · next he => subst he; simp [hphase, hq]
    · exact h.outcome m
  · rw [hmove]
    refine Nat.le_trans (h.invoked m) ?_
    by_cases he : n = m
    · subst he
      rw [if_pos rfl, hphase]
      simp only [Option.map_some, Option.any_some, hrun, if_true]
      split <;> omega
    · rw [if_neg he]
  · rw [agent?_settleItem]
    exact h.ordered
  · rw [agent?_settleItem] at hmk
    exact h.behind m hm k (waiting_of_move hmove hwaiting hk).1 hmk
  · rw [hlength]
    exact h.admitted

theorem LogsOk.shifted (h : LogsOk s) (hphase : s.phase? n = some .finishing) :
    LogsOk (s.shifted n agentId) := by
  have hmove : ∀ m, (s.shifted n agentId).phase? m
      = if n = m then (s.phase? m).map (fun _ => .finished) else s.phase? m :=
    fun m => phase?_shifted
  have houtcome : (s.shifted n agentId).outcome? = s.outcome? :=
    outcome?_update (s := s) fun _ => rfl
  have hlength : (s.shifted n agentId).items.length = s.items.length :=
    items_length_update (s := s)
  refine ⟨fun m => ?_, fun m => ?_, fun m => ?_, ?_, fun m hm k hk hmk => ?_, ?_⟩
  · rw [any_move _ hmove hphase rfl]
    exact h.settled m
  · rw [any_move _ hmove hphase rfl, houtcome]
    exact h.outcome m
  · rw [any_move _ hmove hphase rfl]
    exact h.invoked m
  · rw [agent?_shifted]
    exact h.ordered
  · rw [agent?_shifted] at hmk
    exact h.behind m hm k (waiting_of_move hmove (by decide) hk).1 hmk
  · rw [hlength]
    exact h.admitted

end Move

theorem LogsOk.enqueued {action key signature : String} {payload : π} (h : LogsOk s) :
    LogsOk (s.enqueued agentId action payload key signature) := by
  have hnone : s.phase? s.items.length = none := phase?_none_iff.mpr (Nat.le_refl _)
  refine ⟨fun m => ?_, fun m => ?_, fun m => ?_, ?_, fun m hm k hk hmk => ?_, fun m hm => ?_⟩
  · rw [phase?_enqueued]
    refine (h.settled m).trans ?_
    by_cases he : m = s.items.length
    · subst he; simp [hnone, ActionPhase.isSettled]
    · rw [if_neg he]
  · have houtcome : (s.enqueued agentId action payload key signature).outcome? m = s.outcome? m := by
      simp only [outcome?, ActionExecutor.enqueued, List.getElem?_append, List.getElem?_singleton]
      split
      · rfl
      · next hlt =>
        rw [List.getElem?_eq_none (l := s.items) (by omega)]
        split <;> rfl
    rw [phase?_enqueued, houtcome]
    have hm := h.outcome m
    split
    · next he => subst he; simpa [hnone, ActionPhase.isSettled] using hm
    · exact hm
  · rw [phase?_enqueued]
    refine (h.invoked m).trans ?_
    by_cases he : m = s.items.length
    · subst he; simp [hnone]
    · rw [if_neg he]
  · refine h.ordered.imp_of_mem fun hm hk hlt hmk => hlt ?_
    rwa [agent?_enqueued, agent?_enqueued, if_neg (Nat.ne_of_lt (h.admitted _ hm)),
      if_neg (Nat.ne_of_lt (h.admitted _ hk))] at hmk
  · rw [phase?_enqueued] at hk
    have hlt := h.admitted m hm
    split at hk
    · next he => omega
    · next hne =>
      rw [agent?_enqueued, agent?_enqueued, if_neg (Nat.ne_of_lt hlt), if_neg hne] at hmk
      exact h.behind m hm k hk hmk
  · have hlength : (s.enqueued agentId action payload key signature).items.length
        = s.items.length + 1 := by simp [ActionExecutor.enqueued]
    have hlt := h.admitted m hm
    omega

/-! ### Runs -/

/-- The queues and the logs. -/
structure Wf (options : ExecutorOptions) (s : ActionExecutor π ρ ε) : Prop where
  queues : QueuesOk options none s
  logs : LogsOk s

theorem wf_empty (options : ExecutorOptions) : Wf options (empty : ActionExecutor π ρ ε) where
  queues := ⟨rfl, by simp [empty], by simp [empty], by simp [empty], by simp [empty, agent?]⟩
  logs := ⟨by simp [empty, phase?], by simp [empty, phase?, outcome?], by simp [empty],
    by simp [empty], by simp [empty], by simp [empty]⟩

/-- `pump` starts the oldest waiting item of the agent. -/
theorem Wf.pump (hqueues : QueuesOk options (some agentId) s) (hlogs : LogsOk s) :
    Wf options (s.pump agentId) := by
  refine ⟨hqueues.pump, ?_⟩
  rcases pump_eq s agentId with heq | ⟨queue, n, hget, hhead, hwait, heq⟩
  · rw [heq]
    exact hlogs
  · rw [heq]
    refine hlogs.startItem hwait fun m hm hnm hne => ?_
    have hmem := InsertionMap.mem_of_get? hget
    have hok := hqueues.queue queue hmem
    obtain ⟨rest, hitems⟩ := List.head?_eq_some_iff.mp hhead
    have hn := (hok.owned n (List.mem_of_mem_head? hhead)).1
    -- the other waiting item is in the same queue, behind the head
    obtain ⟨other, hother, hmo⟩ := mem_queueOf.mp
      (hqueues.listed m queue.agentId (hnm ▸ hn) (by simp [hm]))
    rw [← InsertionMap.key_of_get? hget] at hget
    obtain rfl := Option.some.inj (hother.symm.trans hget)
    rw [hitems] at hmo
    have hinc := hok.increasing
    rw [hitems, List.pairwise_cons] at hinc
    exact hinc.1 m ((List.mem_cons.mp hmo).resolve_left hne)

theorem Wf.settleRunning {o : ActionOutcome ρ ε} (h : Wf options s)
    (hphase : s.phase? n = some .running) : Wf options (s.settleItem n .finishing o) where
  queues := h.queues.advance (n := n) (fun _ => phase?_settleItem) agent?_settleItem rfl rfl
    (by simp [hphase]) (by simp [hphase]) (by decide) (by decide)
  logs := h.logs.settleItem hphase rfl rfl

theorem Wf.update {f : ActionItem π ρ ε → ActionItem π ρ ε} (h : Wf options s)
    (hf : ∀ item, (f item).phase = item.phase ∧ (f item).agentId = item.agentId
      ∧ (f item).outcome = item.outcome) : Wf options (s.update n f) where
  queues := h.queues.congr (phase?_update_of_eq fun item => (hf item).1)
    (agent?_update fun item => (hf item).2.1) rfl rfl
  logs := h.logs.congr (phase?_update_of_eq fun item => (hf item).1)
    (agent?_update fun item => (hf item).2.1) (outcome?_update fun item => (hf item).2.2)
    items_length_update rfl rfl rfl

/-- What leaves the items, the queues, the count and the logs alone keeps the invariant. -/
theorem Wf.congr {t : ActionExecutor π ρ ε} (h : Wf options s) (hitems : t.items = s.items)
    (hqueues : t.queues = s.queues) (hqueued : t.queued = s.queued)
    (hsettlements : t.settlements = s.settlements) (hinvocations : t.invocations = s.invocations)
    (hstarts : t.starts = s.starts) : Wf options t where
  queues := h.queues.congr (by funext m; simp [phase?, hitems]) (by funext m; simp [agent?, hitems])
    hqueues hqueued
  logs := h.logs.congr (by funext m; simp [phase?, hitems]) (by funext m; simp [agent?, hitems])
    (by funext m; simp [outcome?, hitems]) (by rw [hitems]) hsettlements hinvocations hstarts

theorem Wf.prune (h : Wf options s) (requestedAt : Int) : Wf options (s.prune requestedAt) :=
  h.congr rfl rfl rfl rfl rfl rfl

theorem Wf.reply {key signature : String} {r : ExecuteReply ρ ε} (h : Wf options s) :
    Wf options (s.reply key signature r) :=
  h.congr rfl rfl rfl rfl rfl rfl

theorem Wf.enroll {action key signature : String} {payload : π} (h : Wf options s)
    (hagent : (s.queueOf agentId).length < options.perAgentLimit)
    (hglobal : s.queued < options.globalLimit) :
    Wf options (s.enroll agentId action payload key signature) := by
  rw [enroll_eq]
  exact .pump (h.queues.enqueued hagent hglobal) h.logs.enqueued

theorem Wf.executePruned {action key signature : String} {payload : π} (h : Wf options s) :
    Wf options (s.executePruned options agentId action payload key signature) := by
  unfold ActionExecutor.executePruned
  split
  · split <;> exact h.reply
  · split
    · exact h.reply
    · split
      · exact h.reply
      · split
        · exact h.reply
        · next hfree =>
          rw [not_or, not_le, not_le] at hfree
          exact (h.enroll hfree.1 hfree.2).reply

theorem Wf.finish (h : Wf options s) (hagent : s.agent? n = some agentId)
    (hphase : s.phase? n = some .finishing) : Wf options (s.finish n agentId) := by
  rw [finish_eq]
  exact .pump (h.queues.shifted hagent hphase) (h.logs.shifted hphase)

theorem Wf.dropItem (h : Wf options s) (hn : n ∈ s.queueOf agentId)
    (hwait : s.phase? n = some .waiting) : Wf options (s.dropItem agentId n) := by
  refine ⟨h.queues.dropItem hn hwait, ?_⟩
  obtain ⟨queue, hget, -⟩ := mem_queueOf.mp hn
  rw [dropItem_of_get? hget]
  exact LogsOk.settleItem (h.logs.congr rfl rfl rfl rfl rfl rfl rfl) hwait rfl rfl

theorem Wf.shutdown (h : Wf options s) : Wf options s.shutdown :=
  shutdown_induction (P := Wf options) (fun _ h => h.queues) (fun _ _ _ h hn hw => h.dropItem hn hw)
    (h.congr rfl rfl rfl rfl rfl rfl)

theorem Wf.abortItem (h : Wf options s) : Wf options (s.abortItem n) :=
  h.update fun _ => ⟨rfl, rfl, rfl⟩

theorem Wf.abortActive (h : Wf options s) : Wf options s.abortActive := by
  rw [ActionExecutor.abortActive]
  generalize s.active = active
  induction active generalizing s with
  | nil => exact h
  | cons n rest ih => exact ih h.abortItem

/-- **Step lemma.** -/
theorem Wf.step {s' : ActionExecutor π ρ ε} {e : ExecutorEvent π ρ ε} (h : Wf options s)
    (hstep : s.step options signatureOf e = some s') : Wf options s' := by
  cases e with
  | execute agentId action payload key requestedAt =>
    cases hstep
    unfold execute
    dsimp only
    split
    · exact h.reply
    · exact (h.prune requestedAt).executePruned
  | runTask n =>
    simp only [ActionExecutor.step] at hstep
    split at hstep
    · next hphase =>
      cases hstep
      exact ⟨h.queues.advance (n := n) (fun _ => phase?_runTask) agent?_runTask rfl rfl
        (by simp [hphase]) (by simp [hphase]) (by decide) (by decide), h.logs.runTask hphase⟩
    · cases hstep
  | actionSettled n outcome =>
    simp only [ActionExecutor.step] at hstep
    split at hstep
    · split at hstep
      · cases hstep
        unfold actionSettled
        have hmarked : Wf options (s.update n fun item => { item with callSettled := true }) :=
          h.update fun _ => ⟨rfl, rfl, rfl⟩
        dsimp only
        split
        · next hphase => exact hmarked.settleRunning hphase
        · exact hmarked
      · cases hstep
    · cases hstep
  | deadline n =>
    simp only [ActionExecutor.step] at hstep
    split at hstep
    · next hphase =>
      cases hstep
      exact h.abortItem.settleRunning ((congrFun phase?_abortItem n).trans hphase)
    · cases hstep
  | finish n =>
    simp only [ActionExecutor.step] at hstep
    split at hstep
    · next item hitem =>
      split at hstep
      · next hphase =>
        cases hstep
        exact h.finish (by simp [agent?, hitem]) (by simp [phase?, hitem, hphase])
      · cases hstep
    · cases hstep
  | settleEntry n now =>
    simp only [ActionExecutor.step] at hstep
    repeat' split at hstep
    all_goals cases hstep
    exact h.congr rfl rfl rfl rfl rfl rfl
  | deliver c =>
    simp only [ActionExecutor.step] at hstep
    repeat' split at hstep
    all_goals cases hstep
    exact h.congr rfl rfl rfl rfl rfl rfl
  | shutdown => cases hstep; exact h.shutdown
  | graceExpired => cases hstep; exact h.abortActive

/-- **Main.** The queues and the logs are in order in every reachable state. -/
theorem wf_of_reachable (hs : (system options signatureOf).Reachable s) : Wf options s :=
  TransitionSystem.Reachable.invariant (fun _ hs => hs ▸ wf_empty options)
    (fun _ _ _ h hstep => h.step hstep) hs

/-- Between two turns no started task is about to run its body or its completion chain. -/
def BetweenTurns (s : ActionExecutor π ρ ε) : Prop :=
  ∀ n, s.phase? n ≠ some .scheduled ∧ s.phase? n ≠ some .finishing

end ActionExecutor

open ActionExecutor in
/-- **Main.** Between turns the count of queued items is the sum of the queue lengths and within
    the limits, exactly the head of every queue is started, the items of one agent start in the
    order of their admission, and every admitted item is in its queue and not settled, or in no
    queue and settled exactly once. -/
theorem action_queues {π ρ ε : Type} {options : ExecutorOptions}
    {signatureOf : String → String → π → String} {s : ActionExecutor π ρ ε}
    (hs : (system options signatureOf).Reachable s) (hturn : BetweenTurns s) :
    (s.queued = totalQueued s.queues ∧ s.queued ≤ options.globalLimit) ∧
    (∀ queue ∈ s.queues.values, queue.items.length ≤ options.perAgentLimit ∧
      ∃ head rest, queue.items = head :: rest ∧ s.isStarted head ∧ ∀ n ∈ rest, ¬ s.isStarted n) ∧
    s.starts.Pairwise (fun m n => s.agent? m = s.agent? n → m < n) ∧
    (∀ n item, s.items[n]? = some item →
      (n ∈ s.queueOf item.agentId ∧ s.settlements.count n = 0) ∨
      ((∀ queue ∈ s.queues.values, n ∉ queue.items) ∧ s.settlements.count n = 1)) := by
  have hwf := wf_of_reachable hs
  refine ⟨⟨hwf.queues.total, hwf.queues.global⟩, fun queue hq => ?_, hwf.logs.ordered,
    fun n item hitem => ?_⟩
  · have hok := hwf.queues.queue queue hq
    obtain ⟨head, rest, hitems⟩ := List.exists_cons_of_ne_nil hok.nonempty
    refine ⟨hok.length_le, head, rest, hitems, ?_, fun n hn => ?_⟩
    · have hhead := hwf.queues.heads queue hq (by simp) head (by rw [hitems]; rfl)
      cases hp : s.phase? head with
      | none => simp [isStarted, hp]
      | some p => cases p <;> simp_all [isStarted, ActionPhase.isStarted]
    · have htail := hok.tail
      rw [hitems] at htail
      simp [isStarted, htail n hn, ActionPhase.isStarted]
  · have hphase : s.phase? n = some item.phase := by simp [phase?, hitem]
    have hagent : s.agent? n = some item.agentId := by simp [agent?, hitem]
    have hcount := hwf.logs.settled n
    rw [hphase] at hcount
    have hfinishing : item.phase ≠ .finishing := fun he => (hturn n).2 (he ▸ hphase)
    by_cases hfinished : item.phase = .finished
    · refine .inr ⟨fun queue hq hn => ?_, by simpa [hfinished, ActionPhase.isSettled] using hcount⟩
      exact ((hwf.queues.queue queue hq).owned n hn).2 (hfinished ▸ hphase)
    · refine .inl ⟨hwf.queues.listed n _ hagent (by simpa [hphase] using hfinished), ?_⟩
      cases hp : item.phase <;> simp_all [ActionPhase.isSettled]

namespace ActionExecutor

/-- Two requests for one agent and one for another; the action of the first of them runs. -/
def sampleEvents : List (ExecutorEvent String Unit Unit) :=
  [.execute "codex:1" "prompt" "first" "key-00001" 1000,
    .execute "codex:1" "prompt" "second" "key-00002" 1001,
    .runTask 0,
    .execute "codex:2" "interrupt" "" "key-00003" 1002,
    .runTask 2]

/-- A signature that tells apart what the sample requests differ in. -/
def sampleSignature (agentId action payload : String) : String :=
  agentId ++ "/" ++ action ++ "/" ++ payload

/-- The executor after the sample requests. -/
def sampleBusy : ActionExecutor String Unit Unit :=
  ((system {} sampleSignature).run empty sampleEvents).getD empty

theorem sampleBusy_reachable : (system {} sampleSignature).Reachable sampleBusy := by
  have hrun : (system {} sampleSignature).run empty sampleEvents = some sampleBusy := by
    decide +kernel
  exact .ofRun (.ofInit rfl) hrun

theorem sampleBusy_betweenTurns : BetweenTurns sampleBusy := by
  intro n
  match n with
  | 0 | 1 | 2 => decide +kernel
  | n + 3 =>
    have hnone : sampleBusy.phase? (n + 3) = none := by
      refine phase?_none_iff.mpr ?_
      have hlength : sampleBusy.items.length = 3 := by decide +kernel
      omega
    simp [hnone]

end ActionExecutor

open ActionExecutor in
/-- The sample: two items of one agent are queued, the first of them started. -/
theorem action_queues_busy : sampleBusy.queued = 3 ∧ sampleBusy.queueOf "codex:1" = [0, 1] ∧
    (sampleBusy.queued = totalQueued sampleBusy.queues ∧ sampleBusy.queued ≤ 256) := by
  refine ⟨by decide +kernel, by decide +kernel, ?_⟩
  exact (action_queues sampleBusy_reachable sampleBusy_betweenTurns).1

end AgentHost
