import AgentHost.Http.ActionQueues

namespace AgentHost

/-!
# Idempotency of the action executor

An entry of the cache stands for one request: while it is there, its action is called at most
once, and every call with its key gets that request's outcome or is refused.

* `ActionExecutor.CacheOk` — what the entries and the calls satisfy: an unsettled item is still
  cached, calls and invocations since an entry was made go to its item.
* `CacheOk.forward` — the one lemma for every event that only moves items on.
* `ActionExecutor.cacheOk_of_reachable` — the invariant of the runs.
* `action_idempotency` — the law.
-/

namespace ActionExecutor

variable {π ρ ε : Type} {options : ExecutorOptions} {signatureOf : String → String → π → String}
  {s t : ActionExecutor π ρ ε} {n m : Nat} {agentId : String}

/-- The key and the signature an item was admitted with. -/
def identity? (signatureOf : String → String → π → String) (s : ActionExecutor π ρ ε) (n : Nat) :
    Option (String × String) :=
  s.items[n]?.map fun item => (item.key, signatureOf item.agentId item.action item.payload)

/-- An item that is not settled. -/
def Pending (s : ActionExecutor π ρ ε) (n : Nat) : Prop :=
  ∃ p, s.phase? n = some p ∧ p.isSettled = false

/-- What a call with the key of an entry gets while the entry is there: the promise of the entry's
    item where the signatures agree, a conflict otherwise. -/
def Served (s : ActionExecutor π ρ ε) (entry : CacheEntry) (call : ExecuteCall ρ ε) : Prop :=
  if call.signature = entry.signature then
    (∃ replayed, call.reply = .waiting entry.item replayed) ∨
      ∃ outcome replayed, call.reply = .answered entry.item outcome replayed ∧
        s.outcome? entry.item = some outcome
  else call.reply = .refused idempotencyConflict

/-- One entry of the cache. -/
structure EntryOk (options : ExecutorOptions) (signatureOf : String → String → π → String)
    (s : ActionExecutor π ρ ε) (entry : CacheEntry) : Prop where
  key : idempotencyKey entry.key
  item : s.identity? signatureOf entry.item = some (entry.key, entry.signature)
  expiry : entry.settled → (s.outcome? entry.item).isSome ∧
    ∃ t, (entry.item, t) ∈ s.expiries ∧ entry.expiresAt = some (t + options.ttlMs)
  callsBefore_le : entry.callsBefore ≤ s.calls.length
  invocationsBefore_le : entry.invocationsBefore ≤ s.invocations.length
  calls : ∀ call ∈ s.calls.drop entry.callsBefore, call.key = entry.key → Served s entry call
  invocations : ∀ n ∈ s.invocations.drop entry.invocationsBefore,
    (s.identity? signatureOf n).map Prod.fst = some entry.key → n = entry.item

/-- The cache: its entries, and that an unsettled item still has its entry. -/
structure CacheOk (options : ExecutorOptions) (signatureOf : String → String → π → String)
    (s : ActionExecutor π ρ ε) : Prop where
  entry : ∀ entry ∈ s.cache.values, EntryOk options signatureOf s entry
  pending : ∀ n key, Pending s n → (s.identity? signatureOf n).map Prod.fst = some key →
    ∃ entry, s.cache.get? key = some entry ∧ entry.item = n

/-! ### Events that move items on -/

theorem identity?_update {f : ActionItem π ρ ε → ActionItem π ρ ε}
    (hf : ∀ item, (f item).key = item.key ∧ (f item).agentId = item.agentId ∧
      (f item).action = item.action ∧ (f item).payload = item.payload) :
    (s.update n f).identity? signatureOf = s.identity? signatureOf := by
  funext m
  simp only [identity?, update, List.getElem?_modify]
  split
  · cases s.items[m]? <;> simp [hf]
  · simp

/-- `t` comes from `s` by moving items on: nothing is forgotten, and what is pending was
    pending. -/
structure Forward (signatureOf : String → String → π → String) (s t : ActionExecutor π ρ ε) :
    Prop where
  identity : t.identity? signatureOf = s.identity? signatureOf
  outcome : ∀ n o, s.outcome? n = some o → t.outcome? n = some o
  pending : ∀ n, Pending t n → Pending s n
  cache : t.cache = s.cache
  calls : t.calls = s.calls
  invocations : t.invocations = s.invocations
  expiries : t.expiries = s.expiries

theorem Forward.refl (s : ActionExecutor π ρ ε) : Forward signatureOf s s :=
  ⟨rfl, fun _ _ h => h, fun _ h => h, rfl, rfl, rfl, rfl⟩

theorem Forward.trans {u : ActionExecutor π ρ ε} (h : Forward signatureOf s t)
    (h' : Forward signatureOf t u) : Forward signatureOf s u where
  identity := h'.identity.trans h.identity
  outcome := fun n o ho => h'.outcome n o (h.outcome n o ho)
  pending := fun n hn => h.pending n (h'.pending n hn)
  cache := h'.cache.trans h.cache
  calls := h'.calls.trans h.calls
  invocations := h'.invocations.trans h.invocations
  expiries := h'.expiries.trans h.expiries

theorem Served.forward {entry : CacheEntry} {call : ExecuteCall ρ ε} (h : Served s entry call)
    (houtcome : ∀ n o, s.outcome? n = some o → t.outcome? n = some o) : Served t entry call := by
  unfold Served at h ⊢
  split
  · next hsig =>
    rw [if_pos hsig] at h
    rcases h with hwait | ⟨o, replayed, hreply, ho⟩
    · exact .inl hwait
    · exact .inr ⟨o, replayed, hreply, houtcome _ _ ho⟩
  · next hsig => rwa [if_neg hsig] at h

theorem EntryOk.forward {entry : CacheEntry} (h : EntryOk options signatureOf s entry)
    (hst : Forward signatureOf s t) : EntryOk options signatureOf t entry where
  key := h.key
  item := by rw [hst.identity, h.item]
  expiry := fun hsettled => by
    obtain ⟨hsome, htime⟩ := h.expiry hsettled
    obtain ⟨o, ho⟩ := Option.isSome_iff_exists.mp hsome
    rw [hst.expiries, hst.outcome _ _ ho]
    exact ⟨rfl, htime⟩
  callsBefore_le := by rw [hst.calls]; exact h.callsBefore_le
  invocationsBefore_le := by rw [hst.invocations]; exact h.invocationsBefore_le
  calls := fun call hc hk => (h.calls call (hst.calls ▸ hc) hk).forward hst.outcome
  invocations := by rw [hst.invocations, hst.identity]; exact h.invocations

/-- **Main.** Moving items on keeps the cache in order. -/
theorem CacheOk.forward (h : CacheOk options signatureOf s) (hst : Forward signatureOf s t) :
    CacheOk options signatureOf t where
  entry := fun entry he => (h.entry entry (hst.cache ▸ he)).forward hst
  pending := fun n key hn hk => by
    rw [hst.identity] at hk
    rw [hst.cache]
    exact h.pending n key (hst.pending n hn) hk

theorem Forward.update {f : ActionItem π ρ ε → ActionItem π ρ ε}
    (hf : ∀ item, (f item).key = item.key ∧ (f item).agentId = item.agentId ∧
      (f item).action = item.action ∧ (f item).payload = item.payload)
    (hphase : ∀ item, (f item).phase = item.phase)
    (houtcome : ∀ item, (f item).outcome = item.outcome) :
    Forward signatureOf s (s.update n f) where
  identity := identity?_update hf
  outcome := by rw [outcome?_update houtcome]; exact fun _ _ h => h
  pending := by simp only [Pending, phase?_update_of_eq hphase]; exact fun _ h => h
  cache := rfl
  calls := rfl
  invocations := rfl
  expiries := rfl

theorem Pending.of_move {p q : ActionPhase}
    (hmove : ∀ m, t.phase? m = if n = m then (s.phase? m).map (fun _ => q) else s.phase? m)
    (hphase : s.phase? n = some p) (hsettled : p.isSettled = true → q.isSettled = true)
    (hm : Pending t m) : Pending s m := by
  obtain ⟨r, hr, hpend⟩ := hm
  rw [hmove] at hr
  split at hr
  · next he =>
    subst he
    rw [hphase, Option.map_some, Option.some.injEq] at hr
    subst hr
    refine ⟨p, hphase, ?_⟩
    cases hp : p.isSettled with
    | false => rfl
    | true => rw [hsettled hp] at hpend; cases hpend
  · exact ⟨r, hr, hpend⟩

theorem Forward.startItem (hwait : s.phase? n = some .waiting) :
    Forward signatureOf s (s.startItem n) where
  identity := identity?_update (s := s) fun _ => ⟨rfl, rfl, rfl, rfl⟩
  outcome := by
    have houtcome : (s.startItem n).outcome? = s.outcome? := outcome?_update fun _ => rfl
    rw [houtcome]
    exact fun _ _ h => h
  pending := fun _ => Pending.of_move (fun _ => phase?_startItem) hwait (by decide)
  cache := rfl
  calls := rfl
  invocations := rfl
  expiries := rfl

theorem Forward.settleItem {p q : ActionPhase} {o : ActionOutcome ρ ε}
    (hphase : s.phase? n = some p) (hq : q.isSettled = true) :
    Forward signatureOf s (s.settleItem n q o) where
  identity := identity?_update (s := s) fun _ => ⟨rfl, rfl, rfl, rfl⟩
  outcome := fun m o' ho => by
    rw [outcome?_settleItem]
    split
    · next he => subst he; simp [hphase, ho]
    · exact ho
  pending := fun _ => Pending.of_move (fun _ => phase?_settleItem) hphase fun _ => hq
  cache := rfl
  calls := rfl
  invocations := rfl
  expiries := rfl

theorem Forward.pump (s : ActionExecutor π ρ ε) (agentId : String) :
    Forward signatureOf s (s.pump agentId) := by
  rcases pump_eq s agentId with heq | ⟨queue, n, -, -, hwait, heq⟩
  · rw [heq]
    exact .refl s
  · rw [heq]
    exact .startItem hwait

theorem Forward.shifted (hphase : s.phase? n = some .finishing) :
    Forward signatureOf s (s.shifted n agentId) where
  identity := identity?_update (s := s) fun _ => ⟨rfl, rfl, rfl, rfl⟩
  outcome := by
    have houtcome : (s.shifted n agentId).outcome? = s.outcome? :=
      outcome?_update (s := s) fun _ => rfl
    rw [houtcome]
    exact fun _ _ h => h
  pending := fun _ => Pending.of_move (fun _ => phase?_shifted) hphase (by decide)
  cache := rfl
  calls := rfl
  invocations := rfl
  expiries := rfl

theorem Forward.dropItem (hn : n ∈ s.queueOf agentId) (hwait : s.phase? n = some .waiting) :
    Forward signatureOf s (s.dropItem agentId n) := by
  obtain ⟨queue, hget, -⟩ := mem_queueOf.mp hn
  rw [dropItem_of_get? hget]
  refine Forward.trans (t := { s with
      queues := s.queues.set { queue with items := queue.items.erase n }
      queued := s.queued - 1 }) ⟨rfl, fun _ _ h => h, fun _ h => h, rfl, rfl, rfl, rfl⟩ ?_
  exact .settleItem hwait rfl

theorem Forward.abortItem : Forward signatureOf s (s.abortItem n) :=
  .update (fun _ => ⟨rfl, rfl, rfl, rfl⟩) (fun _ => rfl) fun _ => rfl

theorem Forward.abortActive : Forward signatureOf s s.abortActive := by
  rw [ActionExecutor.abortActive]
  generalize s.active = active
  induction active generalizing s with
  | nil => exact .refl s
  | cons n rest ih => exact .trans .abortItem ih

theorem Forward.shutdown (h : Wf options s) : Forward signatureOf s s.shutdown := by
  have hboth : Wf options s.shutdown ∧ Forward signatureOf s s.shutdown :=
    shutdown_induction (P := fun t => Wf options t ∧ Forward signatureOf s t)
      (fun _ h => h.1.queues)
      (fun _ _ _ h hn hw => ⟨h.1.dropItem hn hw, h.2.trans (.dropItem hn hw)⟩)
      ⟨h.congr rfl rfl rfl rfl rfl rfl, ⟨rfl, fun _ _ h => h, fun _ h => h, rfl, rfl, rfl, rfl⟩⟩
  exact hboth.2

/-! ### The other events -/

/-- `registry.action` is called for an item that is still cached. -/
theorem CacheOk.runTask (h : CacheOk options signatureOf s)
    (hphase : s.phase? n = some .scheduled) : CacheOk options signatureOf (s.runTask n) := by
  have hidentity : (s.runTask n).identity? signatureOf = s.identity? signatureOf :=
    identity?_update (s := s) fun _ => ⟨rfl, rfl, rfl, rfl⟩
  have houtcome : (s.runTask n).outcome? = s.outcome? := outcome?_update fun _ => rfl
  have hpending : ∀ m, Pending (s.runTask n) m → Pending s m :=
    fun _ => Pending.of_move (fun _ => phase?_runTask) hphase (by decide)
  refine ⟨fun entry he => ?_, fun m key hm hk => h.pending m key (hpending m hm) (hidentity ▸ hk)⟩
  have hentry := h.entry entry he
  refine ⟨hentry.key, by rw [hidentity]; exact hentry.item, by rw [houtcome]; exact hentry.expiry,
    hentry.callsBefore_le, ?_, fun call hc hk => ?_, fun m hm hk => ?_⟩
  · have hle := hentry.invocationsBefore_le
    change _ ≤ (s.invocations ++ [n]).length
    rw [List.length_append]
    omega
  · exact (hentry.calls call hc hk).forward (by rw [houtcome]; exact fun _ _ ho => ho)
  · rw [hidentity] at hk
    change m ∈ (s.invocations ++ [n]).drop _ at hm
    rw [List.drop_append_of_le_length hentry.invocationsBefore_le] at hm
    rcases List.mem_append.mp hm with hm | hm
    · exact hentry.invocations m hm hk
    · rw [List.mem_singleton.mp hm] at hk ⊢
      obtain ⟨current, hget, hitem⟩ := h.pending n entry.key ⟨_, hphase, rfl⟩ hk
      have hget' := InsertionMap.get?_of_mem he
      rw [Option.some.inj (hget'.symm.trans hget), hitem]

/-- An entry keeps its item's outcome, calls and invocations where these do not change. -/
theorem EntryOk.congr {entry : CacheEntry} (h : EntryOk options signatureOf s entry)
    (hitems : t.items = s.items) (hcalls : t.calls = s.calls)
    (hinvocations : t.invocations = s.invocations) (hexpiries : t.expiries = s.expiries) :
    EntryOk options signatureOf t entry := by
  have hidentity : t.identity? signatureOf = s.identity? signatureOf := by
    funext n
    simp [identity?, hitems]
  have houtcome : t.outcome? = s.outcome? := by funext n; simp [outcome?, hitems]
  refine ⟨h.key, by rw [hidentity]; exact h.item, by rw [houtcome, hexpiries]; exact h.expiry,
    by rw [hcalls]; exact h.callsBefore_le, by rw [hinvocations]; exact h.invocationsBefore_le,
    fun call hc hk => ?_, by rw [hidentity, hinvocations]; exact h.invocations⟩
  exact (h.calls call (hcalls ▸ hc) hk).forward (by rw [houtcome]; exact fun _ _ ho => ho)

/-- Dropping entries whose retention is over: an item that is pending keeps its entry. -/
theorem CacheOk.prune (h : CacheOk options signatureOf s) (hlogs : LogsOk s)
    (requestedAt : Int) : CacheOk options signatureOf (s.prune requestedAt) := by
  refine ⟨fun entry he => ?_, fun m key hm hk => ?_⟩
  · have hmem : entry ∈ s.cache.values := by
      change entry ∈ (s.cache.deleteAll _).values at he
      rw [InsertionMap.values_deleteAll] at he
      exact (List.mem_filter.mp he).1
    exact (h.entry entry hmem).congr rfl rfl rfl rfl
  · obtain ⟨entry, hget, hitem⟩ := h.pending m key hm hk
    obtain ⟨p, hp, hunsettled⟩ := hm
    have hmem := InsertionMap.mem_of_get? hget
    have hopen : entry.settled = false := by
      cases hs : entry.settled with
      | false => rfl
      | true =>
        have hsome := ((h.entry entry hmem).expiry hs).1
        rw [hitem, hlogs.outcome m] at hsome
        change s.phase? m = some p at hp
        simp [hp, hunsettled] at hsome
    refine ⟨entry, ?_, hitem⟩
    rw [← InsertionMap.key_of_get? hget]
    refine InsertionMap.get?_of_mem ?_
    change entry ∈ (s.cache.deleteAll _).values
    rw [InsertionMap.values_deleteAll, List.mem_filter]
    refine ⟨hmem, decide_eq_true fun hin => ?_⟩
    obtain ⟨other, hother, hkey⟩ := List.mem_map.mp hin
    obtain ⟨hother, hsettled⟩ := List.mem_filter.mp hother
    rw [s.cache.eq_of_key_eq hother hmem hkey, hopen] at hsettled
    cases hsettled

/-- A call that is answered from the cache or at least does not contradict an entry. -/
theorem CacheOk.reply {key signature : String} {r : ExecuteReply ρ ε}
    (h : CacheOk options signatureOf s)
    (hserved : ∀ entry ∈ s.cache.values, key = entry.key → Served s entry ⟨key, signature, r⟩) :
    CacheOk options signatureOf (s.reply key signature r) := by
  refine ⟨fun entry he => ?_, h.pending⟩
  have hentry := h.entry entry he
  refine ⟨hentry.key, hentry.item, hentry.expiry, ?_, hentry.invocationsBefore_le,
    fun call hc hk => ?_, hentry.invocations⟩
  · have hle := hentry.callsBefore_le
    change _ ≤ (s.calls ++ [_]).length
    rw [List.length_append]
    omega
  · change call ∈ (s.calls ++ [_]).drop _ at hc
    rw [List.drop_append_of_le_length hentry.callsBefore_le] at hc
    rcases List.mem_append.mp hc with hc | hc
    · exact (hentry.calls call hc hk).forward fun _ _ ho => ho
    · obtain rfl := List.mem_singleton.mp hc
      exact (hserved entry he hk).forward fun _ _ ho => ho

section Enroll

variable {action key signature : String} {payload : π}

theorem identity?_enqueued :
    (s.enqueued agentId action payload key signature).identity? signatureOf m
      = if m = s.items.length then some (key, signatureOf agentId action payload)
        else s.identity? signatureOf m := by
  simp only [identity?, enqueued, List.getElem?_append, List.getElem?_singleton]
  split
  · next h => rw [if_neg (by omega)]
  · next h =>
    by_cases hm : m = s.items.length
    · simp [hm]
    · rw [if_neg (by omega), if_neg hm, List.getElem?_eq_none (by omega)]

theorem outcome?_enqueued :
    (s.enqueued agentId action payload key signature).outcome? m = s.outcome? m := by
  simp only [outcome?, enqueued, List.getElem?_append, List.getElem?_singleton]
  split
  · rfl
  · next hlt =>
    rw [List.getElem?_eq_none (l := s.items) (by omega)]
    split <;> rfl

theorem identity?_lt {i : String × String} (h : s.identity? signatureOf n = some i) :
    n < s.items.length := by
  simp only [identity?, Option.map_eq_some_iff] at h
  obtain ⟨item, h, -⟩ := h
  exact (List.getElem?_eq_some_iff.mp h).1

/-- A new entry, before its own call is recorded. -/
theorem CacheOk.enqueued (h : CacheOk options signatureOf s) (hlogs : LogsOk s)
    (hkey : idempotencyKey key) (hnone : s.cache.get? key = none) :
    CacheOk options signatureOf (s.enqueued agentId action payload key
      (signatureOf agentId action payload)) := by
  refine ⟨fun entry he => ?_, fun m k hm hk => ?_⟩
  · rcases InsertionMap.mem_set.mp he with rfl | ⟨he, hne⟩
    · refine ⟨hkey, by rw [identity?_enqueued, if_pos rfl], by simp, Nat.le_refl _, Nat.le_refl _,
        fun call hc => ?_, fun n hn => ?_⟩
      · change call ∈ s.calls.drop s.calls.length at hc
        simp at hc
      · change n ∈ s.invocations.drop s.invocations.length at hn
        simp at hn
    · have hentry := h.entry entry he
      have hold := identity?_lt hentry.item
      refine ⟨hentry.key, ?_, ?_, hentry.callsBefore_le, hentry.invocationsBefore_le,
        fun call hc hk => ?_, fun n hn hk => ?_⟩
      · rw [identity?_enqueued, if_neg (by omega)]
        exact hentry.item
      · rw [outcome?_enqueued]
        exact hentry.expiry
      · exact (hentry.calls call hc hk).forward fun _ _ ho => by rw [outcome?_enqueued, ho]
      · -- what was invoked was admitted before
        have hinvoked : s.phase? n ≠ none := by
          intro hnone
          have hcount := hlogs.invoked n
          rw [hnone] at hcount
          have hmem : n ∈ s.invocations := List.mem_of_mem_drop hn
          have hpos := List.count_pos_iff.mpr hmem
          simp at hcount
          omega
        rw [identity?_enqueued, if_neg fun he => hinvoked (phase?_none_iff.mpr (by omega))] at hk
        exact hentry.invocations n hn hk
  · rw [identity?_enqueued] at hk
    obtain ⟨p, hp, hunsettled⟩ := hm
    rw [phase?_enqueued] at hp
    change ∃ entry, (s.cache.set _).get? k = some entry ∧ entry.item = m
    rw [InsertionMap.get?_set]
    split at hk
    · next hm =>
      obtain rfl := Option.some.inj hk
      exact ⟨_, if_pos rfl, hm.symm⟩
    · next hm =>
      rw [if_neg hm] at hp
      obtain ⟨entry, hget, hitem⟩ := h.pending m k ⟨p, hp, hunsettled⟩ hk
      have hne : k ≠ key := by
        rintro rfl
        rw [hnone] at hget
        cases hget
      exact ⟨entry, by rw [if_neg hne, hget], hitem⟩

end Enroll

/-- A call of `execute` with a well-formed key. -/
theorem CacheOk.executePruned {action key : String} {payload : π}
    (h : CacheOk options signatureOf s) (hlogs : LogsOk s) (hkey : idempotencyKey key) :
    CacheOk options signatureOf (s.executePruned options agentId action payload key
      (signatureOf agentId action payload)) := by
  unfold ActionExecutor.executePruned
  split
  · next existing hget =>
    have honly : ∀ entry ∈ s.cache.values, key = entry.key → entry = existing := fun entry he hk =>
      s.cache.eq_of_key_eq he (InsertionMap.mem_of_get? hget)
        (hk.symm.trans (InsertionMap.key_of_get? hget).symm)
    split
    · next hne =>
      refine h.reply fun entry he hk => ?_
      rw [honly entry he hk, Served, if_neg (Ne.symm hne)]
    · next heq =>
      refine h.reply fun entry he hk => ?_
      rw [honly entry he hk, Served, if_pos (not_not.mp heq).symm]
      exact .inl ⟨true, rfl⟩
  · next hnone =>
    have hfree : ∀ {r : ExecuteReply ρ ε}, ∀ entry ∈ s.cache.values, key = entry.key →
        Served s entry ⟨key, signatureOf agentId action payload, r⟩ := fun entry he hk => by
      rw [hk, InsertionMap.get?_of_mem he] at hnone
      cases hnone
    split
    · exact h.reply hfree
    · split
      · exact h.reply hfree
      · split
        · exact h.reply hfree
        · -- the new entry is the only one with this key
          rw [enroll_eq]
          have hpump : Forward signatureOf (s.enqueued agentId action payload key
              (signatureOf agentId action payload)) _ := .pump _ agentId
          refine ((h.enqueued hlogs hkey hnone).forward hpump).reply fun entry he hk => ?_
          rw [hpump.cache] at he
          rcases InsertionMap.mem_set.mp he with rfl | ⟨-, hne⟩
          · rw [Served, if_pos rfl]
            exact .inl ⟨false, rfl⟩
          · exact absurd hk.symm hne

/-- The settlement of an entry: only its retention changes. -/
theorem CacheOk.settleEntry {entry : CacheEntry} {now : Int} (h : CacheOk options signatureOf s)
    (hget : s.cache.get? entry.key = some entry) (hsome : (s.outcome? entry.item).isSome) :
    CacheOk options signatureOf (s.settleEntry options entry now) := by
  have hmem := InsertionMap.mem_of_get? hget
  refine ⟨fun other he => ?_, fun m key hm hk => ?_⟩
  · rcases InsertionMap.mem_set.mp he with rfl | ⟨he, -⟩
    · have hentry := h.entry entry hmem
      refine ⟨hentry.key, hentry.item, fun _ => ⟨hsome, now, List.mem_append_right _ ?_, rfl⟩,
        hentry.callsBefore_le, hentry.invocationsBefore_le, fun call hc hk => ?_,
        hentry.invocations⟩
      · exact List.mem_singleton.mpr rfl
      · exact hentry.calls call hc hk
    · have hentry := h.entry other he
      refine ⟨hentry.key, hentry.item, fun hsettled => ?_, hentry.callsBefore_le,
        hentry.invocationsBefore_le, fun call hc hk => ?_, hentry.invocations⟩
      · obtain ⟨hsome, t, ht, hexpires⟩ := hentry.expiry hsettled
        exact ⟨hsome, t, List.mem_append_left _ ht, hexpires⟩
      · exact (hentry.calls call hc hk).forward fun _ _ ho => ho
  · obtain ⟨current, hcurrent, hitem⟩ := h.pending m key hm hk
    change ∃ entry, (s.cache.set _).get? key = some entry ∧ entry.item = m
    rw [InsertionMap.get?_set]
    by_cases hkey : key = entry.key
    · subst hkey
      rw [Option.some.inj (hcurrent.symm.trans hget)] at hitem
      exact ⟨_, if_pos rfl, hitem⟩
    · exact ⟨current, by rw [if_neg hkey, hcurrent], hitem⟩

/-- A waiting call is answered with the outcome of the promise it awaits. -/
theorem CacheOk.deliver {c : Nat} {key signature : String} {replayed : Bool}
    {o : ActionOutcome ρ ε} (h : CacheOk options signatureOf s)
    (hcall : s.calls[c]? = some ⟨key, signature, .waiting n replayed⟩)
    (houtcome : s.outcome? n = some o) :
    CacheOk options signatureOf (s.deliver c n o replayed) := by
  refine ⟨fun entry he => ?_, h.pending⟩
  have hentry := h.entry entry he
  refine ⟨hentry.key, hentry.item, hentry.expiry, ?_, hentry.invocationsBefore_le,
    fun call hc hk => ?_, hentry.invocations⟩
  · change _ ≤ (s.calls.modify c _).length
    rw [List.length_modify]
    exact hentry.callsBefore_le
  · obtain ⟨i, hi⟩ := List.mem_iff_getElem?.mp hc
    change ((s.calls.modify c _).drop _)[i]? = _ at hi
    rw [List.getElem?_drop, List.getElem?_modify, Option.map_eq_map, Option.map_eq_some_iff] at hi
    obtain ⟨before, hbefore, rfl⟩ := hi
    have hmem : before ∈ s.calls.drop entry.callsBefore :=
      List.mem_iff_getElem?.mpr ⟨i, by rw [List.getElem?_drop, hbefore]⟩
    split at hk
    · next hc =>
      rw [if_pos hc]
      rw [← hc, hcall] at hbefore
      obtain rfl := Option.some.inj hbefore
      have hserved := hentry.calls _ hmem hk
      unfold Served at hserved ⊢
      split at hserved
      · next hsig =>
        rw [if_pos hsig]
        rcases hserved with ⟨_, hwait⟩ | ⟨_, _, hanswered, -⟩
        · obtain ⟨rfl, -⟩ := ExecuteReply.waiting.inj hwait
          exact .inr ⟨o, replayed, rfl, houtcome⟩
        · cases hanswered
      · cases hserved
    · next hc =>
      rw [if_neg hc]
      exact (hentry.calls _ hmem hk).forward fun _ _ ho => ho

/-! ### Runs -/

theorem cacheOk_empty : CacheOk options signatureOf (empty : ActionExecutor π ρ ε) :=
  ⟨by simp [empty], by simp [empty, Pending, phase?]⟩

/-- **Step lemma.** -/
theorem CacheOk.step {s' : ActionExecutor π ρ ε} {e : ExecutorEvent π ρ ε} (hwf : Wf options s)
    (h : CacheOk options signatureOf s) (hstep : s.step options signatureOf e = some s') :
    CacheOk options signatureOf s' := by
  cases e with
  | execute agentId action payload key requestedAt =>
    cases hstep
    unfold execute
    dsimp only
    split
    · next hkey =>
      refine h.reply fun entry he hk => ?_
      rw [hk] at hkey
      exact absurd (h.entry entry he).key hkey
    · next hkey =>
      exact (h.prune hwf.logs requestedAt).executePruned (hwf.prune requestedAt).logs
        (not_not.mp hkey)
  | runTask n =>
    simp only [ActionExecutor.step] at hstep
    split at hstep
    · next hphase => cases hstep; exact h.runTask hphase
    · cases hstep
  | actionSettled n outcome =>
    simp only [ActionExecutor.step] at hstep
    split at hstep
    · split at hstep
      · cases hstep
        have hmarked : Forward signatureOf s
            (s.update n fun item => { item with callSettled := true }) :=
          .update (fun _ => ⟨rfl, rfl, rfl, rfl⟩) (fun _ => rfl) fun _ => rfl
        unfold actionSettled
        dsimp only
        split
        · next hphase => exact h.forward (hmarked.trans (.settleItem hphase rfl))
        · exact h.forward hmarked
      · cases hstep
    · cases hstep
  | deadline n =>
    simp only [ActionExecutor.step] at hstep
    split at hstep
    · next hphase =>
      cases hstep
      exact h.forward (.trans .abortItem
        (.settleItem ((congrFun phase?_abortItem n).trans hphase) rfl))
    · cases hstep
  | finish n =>
    simp only [ActionExecutor.step] at hstep
    split at hstep
    · next item hitem =>
      split at hstep
      · next hphase =>
        cases hstep
        rw [finish_eq]
        exact h.forward (.trans (.shifted (by simp [phase?, hitem, hphase])) (.pump _ _))
      · cases hstep
    · cases hstep
  | settleEntry n now =>
    simp only [ActionExecutor.step] at hstep
    split at hstep
    · next item hitem =>
      split at hstep
      · next entry hget =>
        split at hstep
        · next hguard =>
          cases hstep
          obtain ⟨rfl, -, hsome⟩ := hguard
          refine h.settleEntry ?_ (by simpa [outcome?, hitem] using hsome)
          rw [InsertionMap.key_of_get? hget, hget]
        · cases hstep
      · cases hstep
    · cases hstep
  | deliver c =>
    simp only [ActionExecutor.step] at hstep
    split at hstep
    · next key signature n replayed hcall =>
      split at hstep
      · next o houtcome => cases hstep; exact h.deliver hcall houtcome
      · cases hstep
    · cases hstep
  | shutdown => cases hstep; exact h.forward (.shutdown hwf)
  | graceExpired => cases hstep; exact h.forward .abortActive

theorem cacheOk_of_reachable (hs : (system options signatureOf).Reachable s) :
    Wf options s ∧ CacheOk options signatureOf s :=
  TransitionSystem.Reachable.invariant (P := fun s => Wf options s ∧ CacheOk options signatureOf s)
    (fun _ hs => hs ▸ ⟨wf_empty options, cacheOk_empty⟩)
    (fun _ _ _ h hstep => ⟨h.1.step hstep, h.2.step h.1 hstep⟩) hs

/-- The calls of `registry.action` for the key of an entry since the entry was made. -/
def invocationsSince (signatureOf : String → String → π → String) (s : ActionExecutor π ρ ε)
    (entry : CacheEntry) : List Nat :=
  (s.invocations.drop entry.invocationsBefore).filter fun n =>
    (s.identity? signatureOf n).map Prod.fst = some entry.key

/-- At most one of the invocations since an entry was made is for its key. -/
theorem EntryOk.invocationsSince_le {entry : CacheEntry}
    (h : EntryOk options signatureOf s entry) (hlogs : LogsOk s) :
    (invocationsSince signatureOf s entry).length ≤ 1 := by
  have hitem : (invocationsSince signatureOf s entry).length
      ≤ (s.invocations.drop entry.invocationsBefore).count entry.item := by
    rw [invocationsSince, ← List.countP_eq_length_filter]
    refine List.countP_mono_left fun n hn hkey => beq_iff_eq.mpr ?_
    exact h.invocations n hn (of_decide_eq_true hkey)
  have hall := (List.drop_sublist entry.invocationsBefore s.invocations).count_le entry.item
  refine hitem.trans (hall.trans ((hlogs.invoked _).trans ?_))
  split <;> omega

/-! ### What leaves the cache -/

theorem cache_enroll {action key signature : String} {payload : π} :
    (s.enroll agentId action payload key signature).cache
      = s.cache.set ⟨key, signature, s.items.length, false, none, s.calls.length,
        s.invocations.length⟩ := by
  have hpump : Forward (fun _ _ _ => "") (s.enqueued agentId action payload key signature) _ :=
    .pump _ agentId
  rw [enroll_eq, hpump.cache]
  rfl

/-- Apart from the dropping of old entries, `execute` only adds to the cache. -/
theorem mem_cache_executePruned {action key signature : String} {payload : π} {entry : CacheEntry}
    (h : entry ∈ s.cache.values) :
    entry ∈ (s.executePruned options agentId action payload key signature).cache.values := by
  unfold executePruned
  split
  · split <;> exact h
  · next hnone =>
    split
    · exact h
    · split
      · exact h
      · split
        · exact h
        · change entry ∈ (s.enroll agentId action payload key signature).cache.values
          rw [cache_enroll]
          refine InsertionMap.mem_set.mpr (.inr ⟨h, fun hkey => ?_⟩)
          change entry.key = key at hkey
          rw [← hkey, InsertionMap.get?_of_mem h] at hnone
          cases hnone

/-- An entry that `execute` drops is settled and its retention is over. -/
theorem mem_cache_execute {entry : CacheEntry} (h : entry ∈ s.cache.values)
    (agentId action : String) (payload : π) (key : String) (requestedAt : Int) :
    entry ∈ (s.execute options signatureOf agentId action payload key requestedAt).cache.values ∨
      (entry.settled = true ∧ ∃ t, entry.expiresAt = some t ∧ t ≤ requestedAt) := by
  unfold execute
  dsimp only
  split
  · exact .inl h
  · by_cases hold : entry.settled && entry.expiresAt.any (fun t => decide (t ≤ requestedAt))
    · obtain ⟨hsettled, hexpired⟩ := Bool.and_eq_true_iff.mp hold
      obtain ⟨t, ht, hle⟩ := (Option.any_eq_true _ _).mp hexpired
      exact .inr ⟨hsettled, t, ht, of_decide_eq_true hle⟩
    · refine .inl (mem_cache_executePruned ?_)
      change entry ∈ (s.cache.deleteAll _).values
      rw [InsertionMap.values_deleteAll, List.mem_filter]
      refine ⟨h, decide_eq_true fun hin => hold ?_⟩
      obtain ⟨other, hother, hkey⟩ := List.mem_map.mp hin
      obtain ⟨hmem, hother⟩ := List.mem_filter.mp hother
      rwa [s.cache.eq_of_key_eq hmem h hkey] at hother

/-- A call with the key of an entry that stays and another signature admits nothing. -/
theorem items_execute_of_conflict {action key : String} {payload : π} {requestedAt : Int}
    {entry : CacheEntry}
    (he : entry ∈ (s.execute options signatureOf agentId action payload key requestedAt).cache.values)
    (hkey : entry.key = key) (hsignature : signatureOf agentId action payload ≠ entry.signature) :
    (s.execute options signatureOf agentId action payload key requestedAt).items = s.items ∧
      (s.execute options signatureOf agentId action payload key requestedAt).invocations
        = s.invocations := by
  unfold execute at he ⊢
  dsimp only at he ⊢
  split at he
  · next hinvalid => rw [if_pos hinvalid]; exact ⟨rfl, rfl⟩
  · next hvalid =>
    rw [if_neg hvalid]
    unfold executePruned at he ⊢
    split
    · split <;> exact ⟨rfl, rfl⟩
    · next hnone =>
      split
      · exact ⟨rfl, rfl⟩
      · next hdraining =>
        split
        · exact ⟨rfl, rfl⟩
        · next hsize =>
          split
          · exact ⟨rfl, rfl⟩
          · next hfree =>
            simp only [hnone, if_neg hdraining, if_neg hsize, if_neg hfree] at he
            change entry ∈ (ActionExecutor.enroll _ agentId action payload key _).cache.values at he
            rw [cache_enroll] at he
            rcases InsertionMap.mem_set.mp he with rfl | ⟨-, hne⟩
            · exact absurd rfl hsignature
            · exact absurd hkey hne

/-- Only `execute` drops entries. -/
theorem mem_cache_step {s' : ActionExecutor π ρ ε} {e : ExecutorEvent π ρ ε} {entry : CacheEntry}
    (hwf : Wf options s) (hstep : s.step options signatureOf e = some s')
    (h : entry ∈ s.cache.values) :
    (∃ entry' ∈ s'.cache.values, entry'.key = entry.key ∧ entry'.item = entry.item) ∨
      ∃ agentId action payload key requestedAt,
        e = .execute agentId action payload key requestedAt ∧
        entry.settled = true ∧ ∃ t, entry.expiresAt = some t ∧ t ≤ requestedAt := by
  have hkept : s'.cache = s.cache →
      ∃ entry' ∈ s'.cache.values, entry'.key = entry.key ∧ entry'.item = entry.item :=
    fun hcache => ⟨entry, hcache ▸ h, rfl, rfl⟩
  cases e with
  | execute agentId action payload key requestedAt =>
    cases hstep
    rcases mem_cache_execute h agentId action payload key requestedAt with hmem | hold
    · exact .inl ⟨entry, hmem, rfl, rfl⟩
    · exact .inr ⟨agentId, action, payload, key, requestedAt, rfl, hold⟩
  | settleEntry n now =>
    simp only [ActionExecutor.step] at hstep
    repeat' split at hstep
    all_goals cases hstep
    next current hget _ =>
      refine .inl ?_
      by_cases hkey : entry.key = current.key
      · obtain rfl := s.cache.eq_of_key_eq h (InsertionMap.mem_of_get? hget) hkey
        exact ⟨_, InsertionMap.mem_set_self _ _, rfl, rfl⟩
      · exact ⟨entry, InsertionMap.mem_set.mpr (.inr ⟨h, hkey⟩), rfl, rfl⟩
  | actionSettled n outcome =>
    simp only [ActionExecutor.step] at hstep
    repeat' split at hstep
    all_goals cases hstep
    refine .inl (hkept ?_)
    unfold actionSettled
    dsimp only
    split <;> rfl
  | finish n =>
    simp only [ActionExecutor.step] at hstep
    repeat' split at hstep
    all_goals cases hstep
    refine .inl (hkept ?_)
    have hpump := fun t : ActionExecutor π ρ ε => (Forward.pump t : ∀ a, Forward signatureOf t _)
    rw [finish_eq, (hpump _ _).cache]
    rfl
  | runTask n =>
    simp only [ActionExecutor.step] at hstep
    split at hstep <;> cases hstep
    exact .inl (hkept rfl)
  | deadline n =>
    simp only [ActionExecutor.step] at hstep
    split at hstep <;> cases hstep
    exact .inl (hkept rfl)
  | deliver c =>
    simp only [ActionExecutor.step] at hstep
    repeat' split at hstep
    all_goals cases hstep
    exact .inl (hkept rfl)
  | shutdown =>
    cases hstep
    have hshutdown : Forward signatureOf s s.shutdown := .shutdown hwf
    exact .inl (hkept hshutdown.cache)
  | graceExpired =>
    cases hstep
    have habort : Forward signatureOf s s.abortActive := .abortActive
    exact .inl (hkept habort.cache)

end ActionExecutor

open ActionExecutor in
/-- **Main.** While an entry is in the cache its key caused at most one call of
    `registry.action`, and every call with its key since then awaits, or was answered with, the
    outcome of the entry's item where the signatures agree, and was refused as a conflict, with
    nothing admitted or invoked, where they do not.  An entry leaves the cache only after its
    promise settled and its retention, counted from the reading at that settlement, is over. -/
theorem action_idempotency {π ρ ε : Type} {options : ExecutorOptions}
    {signatureOf : String → String → π → String} {s : ActionExecutor π ρ ε}
    (hs : (system options signatureOf).Reachable s) :
    (∀ entry ∈ s.cache.values,
      (invocationsSince signatureOf s entry).length ≤ 1 ∧
      ∀ call ∈ s.calls.drop entry.callsBefore, call.key = entry.key → Served s entry call) ∧
    (∀ agentId action payload key requestedAt s',
      s.step options signatureOf (.execute agentId action payload key requestedAt) = some s' →
      ∀ entry ∈ s'.cache.values, entry.key = key →
        signatureOf agentId action payload ≠ entry.signature →
        s'.items = s.items ∧ s'.invocations = s.invocations) ∧
    (∀ e s', s.step options signatureOf e = some s' → ∀ entry ∈ s.cache.values,
      (∀ entry' ∈ s'.cache.values, ¬ (entry'.key = entry.key ∧ entry'.item = entry.item)) →
      ∃ agentId action payload key requestedAt,
        e = .execute agentId action payload key requestedAt ∧
        (s.outcome? entry.item).isSome ∧
        ∃ t, (entry.item, t) ∈ s.expiries ∧ t + options.ttlMs ≤ requestedAt) := by
  obtain ⟨hwf, hcache⟩ := cacheOk_of_reachable hs
  refine ⟨fun entry he => ?_, ?_, fun e s' hstep entry he hgone => ?_⟩
  · have hentry := hcache.entry entry he
    exact ⟨hentry.invocationsSince_le hwf.logs, hentry.calls⟩
  · intro agentId action payload key requestedAt s' hstep entry he hkey hsignature
    cases hstep
    exact items_execute_of_conflict he hkey hsignature
  · rcases mem_cache_step hwf hstep he with ⟨entry', he', hsame⟩ | hdropped
    · exact absurd hsame (hgone entry' he')
    · obtain ⟨agentId, action, payload, key, requestedAt, rfl, hsettled, t, hexpires, hle⟩ := hdropped
      obtain ⟨hsome, t', ht', hexpires'⟩ := (hcache.entry entry he).expiry hsettled
      rw [hexpires', Option.some.injEq] at hexpires
      exact ⟨agentId, action, payload, key, requestedAt, rfl, hsome, t', ht', hexpires ▸ hle⟩

open ActionExecutor in
/-- The sample: no key caused two calls. -/
theorem action_idempotency_busy : sampleBusy.invocations = [0, 2] ∧
    ∀ entry ∈ sampleBusy.cache.values,
      (invocationsSince sampleSignature sampleBusy entry).length ≤ 1 :=
  ⟨by decide +kernel, fun entry he => ((action_idempotency sampleBusy_reachable).1 entry he).1⟩

end AgentHost
