import AgentHost.Adapters.CodexRpc

namespace AgentHost

/-!
# Requests and replies of the Codex RPC client

Which reply settles which request.

* `CodexRpc.Matched` — the pending map, the phases of the requests and what was written agree, all
  that is pending belongs to the live connection, and a promise is settled once.
* `CodexRpc.Matched.finish` — settling requests and forgetting their entries keeps it; every way to
  settle a request is an instance.
* `CodexRpc.Starting` — what waits for a start waits for one that runs or has ended.
* `CodexRpc.wf_of_reachable` — both hold in every run.
* `CodexRpc.canSettle` — every request that is not settled can be.
* `rpc_matching` — what follows for requests.
-/

variable {ι π ρ : Type}

/-- The ids of two requests differ. -/
theorem requestId_injective : Function.Injective requestId := by
  intro m n h
  have hdigits : Nat.toDigits 10 m = Nat.toDigits 10 n := by
    have htext := congrArg String.toList h
    simpa [requestId, Nat.toString_eq_ofList_toDigits] using htext
  calc m = Nat.ofDigitChars 10 (Nat.toDigits 10 m) 0 := Nat.ofDigitChars_ten_toDigits.symm
    _ = n := hdigits ▸ Nat.ofDigitChars_ten_toDigits

namespace CodexRpc

variable {rpc : CodexRpc π ρ} {r m g k : Nat} {rs : List Nat} {outcome : RequestOutcome ρ}
  {fails : Bool}

/-! ### Phases and outcomes -/

/-- The generation a request expects, where there is such a request. -/
def expected? (rpc : CodexRpc π ρ) (r : Nat) : Option (Option Nat) :=
  rpc.requests[r]?.map RpcRequest.expectedGeneration

/-- The settlements of one promise, in order. -/
def outcomes (rpc : CodexRpc π ρ) (r : Nat) : List (RequestOutcome ρ) :=
  (rpc.settlements.filter fun s => s.1 = r).map Prod.snd

/-- The settlements that a phase stands for. -/
def settledBy : Option (RequestPhase ρ) → List (RequestOutcome ρ)
  | some (.settled outcome) => [outcome]
  | _ => []

/-- A request whose promise is not settled. -/
def Unsettled (rpc : CodexRpc π ρ) (r : Nat) : Prop :=
  (∃ k, rpc.phase? r = some (.waiting k)) ∨ rpc.phase? r = some .pending

@[simp] theorem phase?_settle : (rpc.settle rs outcome).phase? m
    = if m ∈ rs then (rpc.phase? m).map (fun _ => .settled outcome) else rpc.phase? m := by
  simp only [phase?, settle, List.getElem?_mapIdx, Option.map_map]
  split
  all_goals cases rpc.requests[m]? <;> simp

@[simp] theorem expected?_settle : (rpc.settle rs outcome).expected? m = rpc.expected? m := by
  simp only [expected?, settle, List.getElem?_mapIdx, Option.map_map]
  cases rpc.requests[m]? with
  | none => rfl
  | some request =>
    show some (ite _ _ _ : RpcRequest π ρ).expectedGeneration = _
    split <;> rfl

/-- Settling promises adds one settlement to each of them. -/
theorem outcomes_settle (hnodup : rs.Nodup) : (rpc.settle rs outcome).outcomes m
    = rpc.outcomes m ++ if m ∈ rs then [outcome] else [] := by
  show ((rpc.settlements ++ rs.map fun r => (r, outcome)).filter fun s => s.1 = m).map Prod.snd = _
  rw [List.filter_append, List.map_append]
  refine congrArg (rpc.outcomes m ++ ·) ?_
  induction rs with
  | nil => rfl
  | cons r rs ih =>
    obtain ⟨hnot, hnodup⟩ := List.nodup_cons.mp hnodup
    by_cases hr : r = m
    · have hrest := ih hnodup
      rw [if_neg (hr ▸ hnot)] at hrest
      simp [hr, hrest]
    · have hmr : ¬ m = r := fun h => hr h.symm
      simp [hr, hmr, ih hnodup]

/-- What a change of one request leaves of the others. -/
theorem phase?_modify_of_ne (f : RpcRequest π ρ → RpcRequest π ρ) (hne : m ≠ r) :
    (rpc.requests.modify r f)[m]?.map RpcRequest.phase = rpc.phase? m := by
  rw [List.getElem?_modify]
  cases h : rpc.requests[m]? with
  | none => simp [phase?, h]
  | some request => simp [phase?, h, Ne.symm hne]

/-! ### The pending map -/

/-- The pending map, the phases and what was written agree; what is pending belongs to the live
    connection; a promise has at most the settlement that its phase says. -/
structure Matched (rpc : CodexRpc π ρ) : Prop where
  entry : ∀ e ∈ rpc.pending.values, e.generation = rpc.generation ∧ e ∈ rpc.written ∧
    rpc.phase? e.request = some .pending
  listed : ∀ r, rpc.phase? r = some .pending → ∃ e ∈ rpc.pending.values, e.request = r
  written : ∀ w ∈ rpc.written, (∃ n < rpc.nextId, w.id = requestId n) ∧
    (∀ k, rpc.phase? w.request ≠ some (.waiting k)) ∧
    ∃ expectedGeneration, rpc.expected? w.request = some expectedGeneration ∧
      ∀ g, expectedGeneration = some g → g = w.generation
  ids : (rpc.written.map PendingRequest.id).Nodup
  requests : (rpc.written.map PendingRequest.request).Nodup
  outcomes : ∀ r, rpc.outcomes r = settledBy (rpc.phase? r)
  idle : rpc.started = false → rpc.pending.values = []
  writer_isSome : rpc.started = rpc.writer.isSome
  writer_eq : ∀ g, rpc.writer = some g → g = rpc.generation
  ended_le : ∀ g ∈ rpc.ended, g ≤ rpc.generation
  ended : rpc.generation ∈ rpc.ended → rpc.pending.values = [] ∧ rpc.wireOpen = false ∧
    (rpc.transport = .stdio → rpc.writer = none)

/-- Nothing is written on a connection that has ended. -/
theorem Matched.not_writable (h : rpc.Matched) (hended : rpc.generation ∈ rpc.ended) :
    ¬ rpc.Writable := by
  rintro ⟨hwriter, hopen⟩
  obtain ⟨_, hwire, hstdio⟩ := h.ended hended
  cases htransport : rpc.transport with
  | stdio =>
    rw [hstdio htransport] at hwriter
    cases hwriter
  | control => exact Bool.false_ne_true (hwire.symm.trans (hopen htransport))

/-- No two entries stand for one request. -/
theorem Matched.entry_inj (h : rpc.Matched) {e f : PendingRequest} (he : e ∈ rpc.pending.values)
    (hf : f ∈ rpc.pending.values) (heq : e.request = f.request) : e = f :=
  List.inj_on_of_nodup_map h.requests (h.entry e he).2.1 (h.entry f hf).2.1 heq

/-- Settling promises that are not settled and forgetting the entries of exactly these. -/
theorem Matched.finish (h : rpc.Matched) (outcome : RequestOutcome ρ) {rs : List Nat}
    (hnodup : rs.Nodup) (hopen : ∀ r ∈ rs, rpc.Unsettled r)
    {pending : InsertionMap PendingRequest.id}
    (hmem : ∀ e, e ∈ pending.values ↔ e ∈ rpc.pending.values ∧ e.request ∉ rs) :
    { rpc.settle rs outcome with pending := pending }.Matched where
  entry := by
    intro e he
    obtain ⟨he, hne⟩ := (hmem e).mp he
    obtain ⟨hgen, hwritten, hphase⟩ := h.entry e he
    refine ⟨hgen, hwritten, ?_⟩
    show (rpc.settle rs outcome).phase? e.request = _
    rw [phase?_settle, if_neg hne, hphase]
  listed := by
    intro r hr
    have hr : (rpc.settle rs outcome).phase? r = some .pending := hr
    rw [phase?_settle] at hr
    split at hr
    · cases hphase : rpc.phase? r <;> simp [hphase] at hr
    · next hne =>
      obtain ⟨e, he, rfl⟩ := h.listed r hr
      exact ⟨e, (hmem e).mpr ⟨he, hne⟩, rfl⟩
  written := by
    intro w hw
    obtain ⟨hid, hphase, expectedGeneration, hexpected, heq⟩ := h.written w hw
    refine ⟨hid, ?_, expectedGeneration, expected?_settle.trans hexpected, heq⟩
    intro k hk
    have hk : (rpc.settle rs outcome).phase? w.request = some (.waiting k) := hk
    rw [phase?_settle] at hk
    split at hk
    · cases hphase : rpc.phase? w.request <;> simp [hphase] at hk
    · exact hphase k hk
  ids := h.ids
  requests := h.requests
  outcomes := by
    intro r
    show (rpc.settle rs outcome).outcomes r = settledBy ((rpc.settle rs outcome).phase? r)
    rw [outcomes_settle hnodup, phase?_settle, h.outcomes]
    split
    · next hr =>
      obtain ⟨k, hphase⟩ | hphase := hopen r hr <;> simp [hphase, settledBy]
    · exact List.append_nil _
  idle := by
    intro hidle
    refine List.eq_nil_iff_forall_not_mem.mpr fun e he => ?_
    have hmem := ((hmem e).mp he).1
    rw [h.idle hidle] at hmem
    exact absurd hmem List.not_mem_nil
  writer_isSome := h.writer_isSome
  writer_eq := h.writer_eq
  ended_le := h.ended_le
  ended := by
    intro hended
    obtain ⟨hempty, hwire⟩ := h.ended hended
    refine ⟨List.eq_nil_iff_forall_not_mem.mpr fun e he => ?_, hwire⟩
    have hmem := ((hmem e).mp he).1
    rw [hempty] at hmem
    exact absurd hmem List.not_mem_nil

/-- A request that waits is settled. -/
theorem Matched.settle_waiting (h : rpc.Matched) (outcome : RequestOutcome ρ)
    (hr : rpc.phase? r = some (.waiting k)) : (rpc.settle [r] outcome).Matched := by
  have hmem : ∀ e, e ∈ rpc.pending.values ↔ e ∈ rpc.pending.values ∧ e.request ∉ [r] := by
    intro e
    refine ⟨fun he => ⟨he, fun hm => ?_⟩, And.left⟩
    -- an entry stands for a pending request, not for one that waits
    have hphase := (h.entry e he).2.2
    rw [List.mem_singleton.mp hm, hr] at hphase
    cases hphase
  refine h.finish outcome (List.nodup_singleton r) ?_ hmem
  intro m hm
  exact List.mem_singleton.mp hm ▸ .inl ⟨k, hr⟩

/-- A pending request is settled by an abort or its timer. -/
theorem Matched.dropPending (h : rpc.Matched) (outcome : RequestOutcome ρ)
    (hr : rpc.phase? r = some .pending) : (rpc.dropPending r outcome).Matched := by
  refine h.finish outcome (List.nodup_singleton r) ?_ ?_
  · intro m hm
    exact List.mem_singleton.mp hm ▸ .inr hr
  · intro e
    simp

/-- A pending request is settled by the reply with the id of its entry. -/
theorem Matched.reply (h : rpc.Matched) (outcome : RequestOutcome ρ) {e : PendingRequest} {id : String}
    (hget : rpc.pending.get? id = some e) :
    { rpc.settle [e.request] outcome with pending := rpc.pending.delete id }.Matched := by
  obtain ⟨he, hid⟩ := InsertionMap.get?_eq_some_iff.mp hget
  refine h.finish outcome (List.nodup_singleton _) ?_ ?_
  · intro m hm
    exact List.mem_singleton.mp hm ▸ .inr (h.entry e he).2.2
  · intro f
    rw [InsertionMap.mem_delete, List.mem_singleton]
    refine and_congr_right fun hf => not_congr ⟨fun hkey => ?_, fun hreq => ?_⟩
    · rw [rpc.pending.eq_of_key_eq hf he (hkey.trans hid.symm)]
    · exact h.entry_inj hf he hreq ▸ hid

/-- What a lost connection does to what is pending on it. -/
theorem Matched.rejectPending (h : rpc.Matched) : (rpc.rejectPending rpc.generation).Matched := by
  refine h.finish .disconnected ?_ ?_ ?_
  · refine List.Nodup.map_on ?_ (rpc.pending.values_nodup.filter _)
    intro e he f hf heq
    exact h.entry_inj (List.mem_of_mem_filter he) (List.mem_of_mem_filter hf) heq
  · intro r hr
    obtain ⟨e, he, rfl⟩ := List.mem_map.mp hr
    exact .inr (h.entry e (List.mem_of_mem_filter he)).2.2
  · intro e
    rw [InsertionMap.values_filter, List.mem_filter, List.mem_map]
    refine and_congr_right fun he => ?_
    have hgen := (h.entry e he).1
    constructor
    · intro hne
      simp [hgen] at hne
    · intro hnot
      exact absurd ⟨e, List.mem_filter.mpr ⟨he, by simp [hgen]⟩, rfl⟩ hnot

/-- After a disconnect nothing is pending. -/
theorem Matched.rejectPending_values (h : rpc.Matched) :
    (rpc.rejectPending rpc.generation).pending.values = [] := by
  show (rpc.pending.filter _).values = []
  rw [InsertionMap.values_filter, List.filter_eq_nil_iff]
  intro e he
  simp [(h.entry e he).1]

theorem Matched.disconnect (h : rpc.Matched) :
    (rpc.disconnect (ι := ι) g).1.Matched := by
  unfold CodexRpc.disconnect
  split
  · exact h
  · next hg =>
    obtain rfl : g = rpc.generation := not_not.mp hg
    have hreject := h.rejectPending
    refine { hreject with
      idle := fun _ => h.rejectPending_values
      writer_isSome := rfl
      writer_eq := fun g hg => by cases hg
      ended_le := ?_
      ended := fun _ => ⟨h.rejectPending_values, rfl, fun _ => rfl⟩ }
    · intro g hg
      obtain hg | hg := List.mem_cons.mp hg
      · exact Nat.le_of_eq hg
      · exact h.ended_le g hg

/-! ### Requests -/

/-- A change of the requests that keeps the phases and the expected generations, but for new
    requests that wait. -/
theorem Matched.ofRequests (h : rpc.Matched) {requests : List (RpcRequest π ρ)}
    (hphase : ∀ m, requests[m]?.map RpcRequest.phase = rpc.phase? m ∨
      rpc.phase? m = none ∧ ∃ k, requests[m]?.map RpcRequest.phase = some (.waiting k))
    (hexpected : ∀ m expectedGeneration, rpc.expected? m = some expectedGeneration →
      requests[m]?.map RpcRequest.expectedGeneration = some expectedGeneration) :
    { rpc with requests := requests }.Matched where
  entry := by
    intro e he
    obtain ⟨hgen, hwritten, hpending⟩ := h.entry e he
    refine ⟨hgen, hwritten, ?_⟩
    obtain hsame | ⟨hnone, _⟩ := hphase e.request
    · exact hsame.trans hpending
    · rw [hnone] at hpending
      cases hpending
  listed := by
    intro r hr
    have hr : requests[r]?.map RpcRequest.phase = some .pending := hr
    obtain hsame | ⟨_, k, hk⟩ := hphase r
    · exact h.listed r (hsame ▸ hr)
    · rw [hk] at hr
      cases hr
  written := by
    intro w hw
    obtain ⟨hid, hwaiting, expectedGeneration, hexp, heq⟩ := h.written w hw
    refine ⟨hid, ?_, expectedGeneration, hexpected _ _ hexp, heq⟩
    intro k hk
    have hk : requests[w.request]?.map RpcRequest.phase = some (.waiting k) := hk
    obtain hsame | ⟨hnone, _⟩ := hphase w.request
    · exact hwaiting k (hsame ▸ hk)
    · -- the request is there: it was written
      simp only [phase?, expected?, Option.map_eq_none_iff, Option.map_eq_some_iff] at hnone hexp
      obtain ⟨request, hrequest, _⟩ := hexp
      rw [hnone] at hrequest
      cases hrequest
  ids := h.ids
  requests := h.requests
  outcomes := by
    intro r
    refine (h.outcomes r).trans ?_
    show _ = settledBy (requests[r]?.map RpcRequest.phase)
    obtain hsame | ⟨hnone, k, hk⟩ := hphase r
    · rw [hsame]
    · rw [hnone, hk]
      rfl
  idle := h.idle
  writer_isSome := h.writer_isSome
  writer_eq := h.writer_eq
  ended_le := h.ended_le
  ended := h.ended

/-- A request that is added waits. -/
theorem phase?_append (request : RpcRequest π ρ) :
    (rpc.requests ++ [request])[m]?.map RpcRequest.phase
      = if m = rpc.requests.length then some request.phase else rpc.phase? m := by
  rw [List.getElem?_append]
  split
  · next hlt => rw [if_neg (Nat.ne_of_lt hlt), phase?]
  · next hge =>
    have hnone : rpc.requests[m]? = none := List.getElem?_eq_none (Nat.not_lt.mp hge)
    by_cases hm : m = rpc.requests.length
    · simp [hm]
    · have hpos : m - rpc.requests.length ≠ 0 := by omega
      simp [hm, phase?, hnone, hpos]

theorem phase?_length : rpc.phase? rpc.requests.length = none := by
  simp [phase?]

theorem Matched.append (h : rpc.Matched) (request : RpcRequest π ρ)
    (hk : request.phase = .waiting k) :
    { rpc with requests := rpc.requests ++ [request] }.Matched := by
  refine h.ofRequests (fun m => ?_) (fun m expectedGeneration hexp => ?_)
  · rw [phase?_append, hk]
    split
    · next hm => exact .inr ⟨hm ▸ phase?_length, k, rfl⟩
    · exact .inl rfl
  · simp only [expected?, Option.map_eq_some_iff] at hexp
    obtain ⟨old, hold, rfl⟩ := hexp
    rw [List.getElem?_append_left (List.getElem?_eq_some_iff.mp hold).1, hold]
    rfl

theorem phase?_aborted :
    (rpc.requests.modify r fun request => { request with aborted := true })[m]?.map
      RpcRequest.phase = rpc.phase? m := by
  rw [List.getElem?_modify, phase?]
  cases rpc.requests[m]? with
  | none => rfl
  | some request => simp; split <;> rfl

/-- The signal of a request that waits is remembered. -/
theorem Matched.abort (h : rpc.Matched) :
    ({ rpc with
      requests := rpc.requests.modify r fun request => { request with aborted := true } }
        : CodexRpc π ρ).Matched := by
  refine h.ofRequests (fun m => .inl phase?_aborted) (fun m expectedGeneration hexp => ?_)
  rw [List.getElem?_modify]
  simp only [expected?] at hexp
  cases hm : rpc.requests[m]? with
  | none => simp [hm] at hexp
  | some request =>
    rw [hm] at hexp
    rw [← hexp]
    simp
    split <;> rfl

theorem Matched.nextId (h : rpc.Matched) : { rpc with nextId := rpc.nextId + 1 }.Matched :=
  { h with
    written := fun w hw => by
      obtain ⟨⟨n, hn, hid⟩, hrest⟩ := h.written w hw
      exact ⟨⟨n, Nat.lt_succ_of_lt hn, hid⟩, hrest⟩ }

/-- The id of the next request is new. -/
theorem Matched.fresh (h : rpc.Matched) : ∀ w ∈ rpc.written, w.id ≠ requestId rpc.nextId := by
  intro w hw heq
  obtain ⟨⟨n, hn, hid⟩, _⟩ := h.written w hw
  exact Nat.ne_of_lt hn (requestId_injective (hid.symm.trans heq))

/-- **Writing.** A request that waits is written on the live connection and becomes pending. -/
theorem Matched.write (h : rpc.Matched) {request : RpcRequest π ρ}
    (hr : rpc.requests[r]? = some request) (hk : request.phase = .waiting k)
    (hactive : ¬ rpc.NotActive request.expectedGeneration) (hwritable : rpc.Writable) :
    { rpc with
      nextId := rpc.nextId + 1
      pending := rpc.pending.set ⟨requestId rpc.nextId, rpc.generation, r⟩
      requests := rpc.requests.modify r fun request => { request with phase := .pending }
      written := rpc.written ++ rpc.writer.toList.map fun generation =>
        PendingRequest.mk (requestId rpc.nextId) generation r }.Matched := by
  obtain ⟨generation, hwriter⟩ := Option.isSome_iff_exists.mp hwritable.1
  obtain rfl := h.writer_eq generation hwriter
  have hold : rpc.phase? r = some (.waiting k) := by rw [phase?, hr, ← hk]; rfl
  -- the request was not written before: it waits
  have hnew : ∀ w ∈ rpc.written, w.request ≠ r := fun w hw heq =>
    (h.written w hw).2.1 k (heq ▸ hold)
  have hself : (rpc.requests.modify r fun request => { request with phase := .pending })[r]?.map
      RpcRequest.phase = some .pending := by
    rw [List.getElem?_modify, hr]
    simp
  have hexpected : ∀ m, (rpc.requests.modify r fun request =>
      { request with phase := .pending })[m]?.map RpcRequest.expectedGeneration
        = rpc.expected? m := by
    intro m
    rw [List.getElem?_modify, expected?]
    cases rpc.requests[m]? with
    | none => rfl
    | some request => simp; split <;> rfl
  rw [hwriter]
  have hstarted : rpc.started = true := by rw [h.writer_isSome, hwriter]; rfl
  exact
    { entry := by
        intro e he
        obtain rfl | ⟨he, _⟩ := InsertionMap.mem_set.mp he
        · exact ⟨rfl, by simp, hself⟩
        · obtain ⟨hgen, hwritten, hphase⟩ := h.entry e he
          refine ⟨hgen, List.mem_append_left _ hwritten, ?_⟩
          exact (phase?_modify_of_ne _ (hnew e hwritten)).trans hphase
      listed := by
        intro m hm
        by_cases hmr : m = r
        · exact ⟨_, InsertionMap.mem_set_self _ _, hmr.symm⟩
        · obtain ⟨e, he, rfl⟩ := h.listed m ((phase?_modify_of_ne _ hmr).symm.trans hm)
          exact ⟨e, InsertionMap.mem_set.mpr (.inr ⟨he, h.fresh e (h.entry e he).2.1⟩), rfl⟩
      written := by
        intro w hw
        obtain hw | hw := List.mem_append.mp hw
        · obtain ⟨⟨n, hn, hid⟩, hphase, expectedGeneration, hexp, heq⟩ := h.written w hw
          refine ⟨⟨n, Nat.lt_succ_of_lt hn, hid⟩, fun k hk => ?_, expectedGeneration,
            (hexpected _).trans hexp, heq⟩
          exact hphase k ((phase?_modify_of_ne _ (hnew w hw)).symm.trans hk)
        · obtain rfl := List.mem_singleton.mp hw
          refine ⟨⟨rpc.nextId, Nat.lt_succ_self _, rfl⟩, fun k hk => ?_,
            request.expectedGeneration, ?_, fun g hg => ?_⟩
          · exact absurd (hself.symm.trans hk) (by simp)
          · refine (hexpected r).trans ?_
            rw [expected?, hr]
            rfl
          · -- a request that expects a generation is written only while that one is active
            by_contra hne
            refine hactive ⟨by rw [hg]; rfl, .inr fun heq => hne ?_⟩
            exact Option.some.inj (hg.symm.trans heq)
      ids := by
        rw [List.map_append, List.nodup_append]
        refine ⟨h.ids, List.nodup_singleton _, ?_⟩
        intro id hid _ hnext heq
        obtain ⟨w, hw, rfl⟩ := List.mem_map.mp hid
        exact h.fresh w hw (heq.trans (List.mem_singleton.mp hnext))
      requests := by
        rw [List.map_append, List.nodup_append]
        refine ⟨h.requests, List.nodup_singleton _, ?_⟩
        intro m hm _ hnext heq
        obtain ⟨w, hw, rfl⟩ := List.mem_map.mp hm
        exact hnew w hw (heq.trans (List.mem_singleton.mp hnext))
      outcomes := by
        intro m
        refine (h.outcomes m).trans ?_
        by_cases hmr : m = r
        · rw [hmr, hold]
          show settledBy (some .pending) = _
          exact congrArg settledBy hself.symm
        · exact congrArg settledBy (phase?_modify_of_ne _ hmr).symm
      idle := fun hidle => absurd (hstarted.symm.trans hidle) (by simp)
      writer_isSome := h.writer_isSome.trans (congrArg Option.isSome hwriter)
      writer_eq := fun g hg => (Option.some.inj hg).symm
      ended_le := h.ended_le
      ended := fun hended => absurd hwritable (h.not_writable hended) }

/-- The end of `request` settles the request or makes it pending. -/
theorem Matched.issue (h : rpc.Matched) (hk : rpc.phase? r = some (.waiting k)) :
    (rpc.issue r fails).Matched := by
  have hnext : { rpc with nextId := rpc.nextId + 1 }.Matched := h.nextId
  have hwait : ({ rpc with nextId := rpc.nextId + 1 } : CodexRpc π ρ).phase? r
      = some (.waiting k) := hk
  unfold CodexRpc.issue
  cases hr : rpc.requests[r]? with
  | none => exact h
  | some request =>
    have hphase : request.phase = .waiting k := by simpa [phase?, hr] using hk
    dsimp only
    split
    · exact h.settle_waiting .aborted hk
    split
    · exact hnext.settle_waiting .notActive hwait
    next hactive =>
    split
    · exact hnext.settle_waiting .notWritten hwait
    · next hwrite =>
      rw [not_or, not_not] at hwrite
      exact h.write hr hphase hactive hwrite.1

/-! ### What the operations do to the phases -/

/-- A request that was issued does not wait, the others are as they were. -/
theorem phase?_issue_of_ne (hne : m ≠ r) : (rpc.issue r fails).phase? m = rpc.phase? m := by
  unfold CodexRpc.issue
  cases rpc.requests[r]? with
  | none => rfl
  | some request =>
    have hsettle : ∀ (base : CodexRpc π ρ) outcome, (base.settle [r] outcome).phase? m
        = base.phase? m := by
      intro base outcome
      rw [phase?_settle, if_neg (by simpa using hne)]
    dsimp only
    split
    · exact hsettle _ _
    split
    · exact hsettle _ _
    split
    · exact hsettle _ _
    · exact phase?_modify_of_ne _ hne

theorem phase?_issue_self (fails : Bool) (hr : rpc.requests[r]?.isSome = true) :
    ∃ phase, (rpc.issue r fails).phase? r = some phase ∧ ∀ k, phase ≠ .waiting k := by
  unfold CodexRpc.issue
  obtain ⟨request, hrequest⟩ := Option.isSome_iff_exists.mp hr
  rw [hrequest]
  have hsettle : ∀ (base : CodexRpc π ρ) outcome, base.requests = rpc.requests →
      ∃ phase, (base.settle [r] outcome).phase? r = some phase ∧ ∀ k, phase ≠ .waiting k := by
    intro base outcome hbase
    refine ⟨.settled outcome, ?_, fun k hk => by cases hk⟩
    rw [phase?_settle, if_pos List.mem_cons_self, phase?, hbase, hrequest]
    rfl
  dsimp only
  split
  · exact hsettle _ _ rfl
  split
  · exact hsettle _ _ rfl
  split
  · exact hsettle _ _ rfl
  · refine ⟨.pending, ?_, fun k hk => by cases hk⟩
    show (List.modify _ _ _)[r]?.map _ = _
    rw [List.getElem?_modify, hrequest]
    simp

/-- What issuing a request leaves alone. -/
theorem issue_frame (rpc : CodexRpc π ρ) (r : Nat) (fails : Bool) :
    (rpc.issue r fails).starting = rpc.starting ∧
    (rpc.issue r fails).attempts = rpc.attempts ∧ (rpc.issue r fails).started = rpc.started ∧
    (rpc.issue r fails).transport = rpc.transport := by
  unfold CodexRpc.issue
  cases rpc.requests[r]? with
  | none => exact ⟨rfl, rfl, rfl, rfl⟩
  | some request =>
    dsimp only
    split
    · exact ⟨rfl, rfl, rfl, rfl⟩
    split
    · exact ⟨rfl, rfl, rfl, rfl⟩
    split
    · exact ⟨rfl, rfl, rfl, rfl⟩
    · exact ⟨rfl, rfl, rfl, rfl⟩

/-- A lost connection rejects exactly what is pending. -/
theorem Matched.mem_rejected (h : rpc.Matched) :
    m ∈ (rpc.pending.values.filter fun entry => entry.generation = rpc.generation).map
        PendingRequest.request ↔ rpc.phase? m = some .pending := by
  constructor
  · intro hm
    obtain ⟨e, he, rfl⟩ := List.mem_map.mp hm
    exact (h.entry e (List.mem_of_mem_filter he)).2.2
  · intro hm
    obtain ⟨e, he, rfl⟩ := h.listed m hm
    refine List.mem_map.mpr ⟨e, List.mem_filter.mpr ⟨he, ?_⟩, rfl⟩
    exact decide_eq_true (h.entry e he).1

theorem Matched.phase?_disconnect (h : rpc.Matched) (hne : rpc.phase? m ≠ some .pending) :
    (rpc.disconnect (ι := ι) g).1.phase? m = rpc.phase? m := by
  unfold CodexRpc.disconnect
  split
  · rfl
  · next heq =>
    obtain rfl : g = rpc.generation := not_not.mp heq
    show (rpc.settle _ _).phase? m = _
    rw [phase?_settle, if_neg (mt h.mem_rejected.mp hne)]

theorem Matched.phase?_disconnect_pending (h : rpc.Matched) (hp : rpc.phase? m = some .pending) :
    (rpc.disconnect (ι := ι) g).1.phase? m
      = some (if g = rpc.generation then .settled .disconnected else .pending) := by
  unfold CodexRpc.disconnect
  split
  · exact hp
  · next heq =>
    obtain rfl : g = rpc.generation := not_not.mp heq
    show (rpc.settle _ _).phase? m = _
    rw [phase?_settle, if_pos (h.mem_rejected.mpr hp), hp, if_pos rfl]
    rfl

theorem disconnect_frame : (rpc.disconnect (ι := ι) g).1.starting = rpc.starting ∧
    (rpc.disconnect (ι := ι) g).1.attempts = rpc.attempts ∧
    ((rpc.disconnect (ι := ι) g).1.started = true → rpc.started = true) ∧
    (rpc.disconnect (ι := ι) g).1.transport = rpc.transport := by
  unfold CodexRpc.disconnect
  split
  · exact ⟨rfl, rfl, id, rfl⟩
  · exact ⟨rfl, rfl, fun h => absurd h Bool.false_ne_true, rfl⟩

/-! ### Waiting for a start -/

/-- A request waits for a start that runs or has ended; but for the `initialize` request the client
    is not started while a start runs. -/
structure Starting (rpc : CodexRpc π ρ) : Prop where
  waiting : ∀ r k, rpc.phase? r = some (.waiting k) →
    k < rpc.attempts.length ∨ k = rpc.attempts.length ∧ rpc.starting.isSome = true
  initializing : ∀ r, rpc.starting = some (.initializing r) →
    ∃ phase, rpc.phase? r = some phase ∧ ∀ k, phase ≠ .waiting k
  quiet : ∀ phase, rpc.starting = some phase → (∀ r, phase ≠ .initializing r) →
    rpc.started = false
  socket : rpc.starting = some .handshake ∨ rpc.starting = some .opened →
    rpc.transport = .control

/-- What neither starts nor adds a request keeps this. -/
theorem Starting.frame (h : rpc.Starting) {next : CodexRpc π ρ}
    (hwaiting : ∀ r k, next.phase? r = some (.waiting k) → rpc.phase? r = some (.waiting k))
    (hissued : ∀ r, (∃ phase, rpc.phase? r = some phase ∧ ∀ k, phase ≠ .waiting k) →
      ∃ phase, next.phase? r = some phase ∧ ∀ k, phase ≠ .waiting k)
    (hframe : next.starting = rpc.starting ∧ next.attempts = rpc.attempts ∧
      (next.started = true → rpc.started = true) ∧ next.transport = rpc.transport) :
    next.Starting := by
  obtain ⟨hstarting, hattempts, hstarted, htransport⟩ := hframe
  constructor
  · intro r k hk
    rw [hattempts, hstarting]
    exact h.waiting r k (hwaiting r k hk)
  · intro r hr
    exact hissued r (h.initializing r (hstarting ▸ hr))
  · intro phase hphase hne
    have hquiet := h.quiet phase (hstarting ▸ hphase) hne
    exact Bool.eq_false_iff.mpr fun htrue => Bool.eq_false_iff.mp hquiet (hstarted htrue)
  · intro hsocket
    rw [htransport]
    exact h.socket (hstarting ▸ hsocket)

theorem Starting.settle (h : rpc.Starting) : (rpc.settle rs outcome).Starting := by
  refine h.frame (fun m k hk => ?_) (fun m ⟨phase, hphase, hne⟩ => ?_) ⟨rfl, rfl, id, rfl⟩
  · rw [phase?_settle] at hk
    split at hk
    · cases hphase : rpc.phase? m <;> simp [hphase] at hk
    · exact hk
  · rw [phase?_settle]
    split
    · exact ⟨.settled outcome, by rw [hphase]; rfl, fun k hk => by cases hk⟩
    · exact ⟨phase, hphase, hne⟩

/-- Forgetting entries of the pending map keeps it as well. -/
theorem Starting.settle_pending (h : rpc.Starting) {pending : InsertionMap PendingRequest.id} :
    { rpc.settle rs outcome with pending := pending }.Starting :=
  have hsettled : (rpc.settle rs outcome).Starting := h.settle
  hsettled.frame (fun _ _ hk => hk) (fun _ hphase => hphase) ⟨rfl, rfl, id, rfl⟩

theorem Starting.issue (h : rpc.Starting) (hr : rpc.requests[r]?.isSome = true) :
    (rpc.issue r fails).Starting := by
  obtain ⟨hstarting, hattempts, hstarted, htransport⟩ := issue_frame rpc r fails
  refine h.frame (fun m k hk => ?_) (fun m hm => ?_)
    ⟨hstarting, hattempts, fun hs => hstarted ▸ hs, htransport⟩
  · by_cases hmr : m = r
    · obtain ⟨phase, hphase, hne⟩ := phase?_issue_self fails hr
      rw [hmr, hphase] at hk
      exact absurd (Option.some.inj hk) (hne k)
    · exact (phase?_issue_of_ne hmr).symm.trans hk
  · by_cases hmr : m = r
    · rw [hmr]
      exact phase?_issue_self fails hr
    · rw [phase?_issue_of_ne hmr]
      exact hm

theorem Starting.disconnect (h : rpc.Starting) (hm : rpc.Matched) :
    (rpc.disconnect (ι := ι) g).1.Starting := by
  refine h.frame (fun m k hk => ?_) (fun m ⟨phase, hphase, hne⟩ => ?_) disconnect_frame
  · cases hphase : rpc.phase? m with
    | none =>
      rw [hm.phase?_disconnect (by rw [hphase]; exact fun h => (by cases h)), hphase] at hk
      cases hk
    | some phase =>
      cases phase with
      | pending =>
        rw [hm.phase?_disconnect_pending hphase] at hk
        split at hk <;> cases hk
      | waiting | settled =>
        rw [hm.phase?_disconnect (by rw [hphase]; exact fun h => (by cases h)), hphase] at hk
        exact hk
  · by_cases hp : phase = .pending
    · refine ⟨_, hm.phase?_disconnect_pending (hp ▸ hphase), fun k hk => ?_⟩
      split at hk <;> cases hk
    · have hsame := hm.phase?_disconnect (ι := ι) (m := m) (g := g)
        (fun h => hp (Option.some.inj (hphase.symm.trans h)))
      exact ⟨phase, hsame.trans hphase, hne⟩

/-! ### Events -/

/-- The invariant of a client. -/
structure WF (rpc : CodexRpc π ρ) : Prop where
  matched : rpc.Matched
  start : rpc.Starting

theorem WF.disconnect (h : rpc.WF) : (rpc.disconnect (ι := ι) g).1.WF :=
  ⟨h.matched.disconnect, h.start.disconnect h.matched⟩

/-- `start` makes a start run, unless the client is started. -/
theorem Starting.begin (h : rpc.Starting) (hs : rpc.started = false) :
    { rpc with starting := rpc.starting.or (some .spawning) }.Starting := by
  cases hstarting : rpc.starting with
  | some phase =>
    have hsame : { rpc with starting := some phase } = rpc := by rw [← hstarting]
    show { rpc with starting := some phase }.Starting
    rw [hsame]
    exact h
  | none =>
    refine ⟨fun r k hk => ?_, fun r hr => (by cases hr), fun _ _ _ => hs, fun hor => ?_⟩
    · obtain hlt | ⟨heq, _⟩ := h.waiting r k hk
      · exact .inl hlt
      · exact .inr ⟨heq, rfl⟩
    · cases hor with
      | inl hs | inr hs => cases hs

theorem Matched.begin (h : rpc.Matched) (phase : Option StartPhase) :
    { rpc with starting := phase }.Matched := { h with }

theorem WF.begin (h : rpc.WF) : rpc.start.WF := by
  unfold CodexRpc.start
  split
  · exact h
  · next hs => exact ⟨h.matched.begin _, h.start.begin (Bool.eq_false_iff.mpr hs)⟩

/-- A failed start leaves the client closing. -/
theorem WF.failStart (h : rpc.WF) : (rpc.failStart (ι := ι)).1.WF := by
  have hclosed : (rpc.disconnect (ι := ι) rpc.generation).1.WF := h.disconnect
  obtain ⟨hstarting, hattempts, _, _⟩ := rpc.disconnect_frame (ι := ι) (g := rpc.generation)
  have hstarted : (rpc.disconnect (ι := ι) rpc.generation).1.started = false := by
    unfold CodexRpc.disconnect
    rw [if_neg (not_not.mpr rfl)]
  refine ⟨hclosed.matched.begin _, fun r k hk => ?_, fun r hr => (by cases hr),
    fun _ _ _ => hstarted, fun hor => ?_⟩
  · obtain hlt | ⟨heq, _⟩ := hclosed.start.waiting r k hk
    · exact .inl hlt
    · exact .inr ⟨heq, rfl⟩
  · cases hor with
    | inl hs | inr hs => cases hs

/-- A start that has ended lets those that wait for it go on. -/
theorem WF.endStart (h : rpc.WF) (ok : Bool) :
    { rpc with starting := none, attempts := rpc.attempts ++ [ok] }.WF := by
  refine ⟨{ h.matched with }, fun r k hk => .inl ?_, fun r hr => (by cases hr),
    fun phase hphase => (by cases hphase), fun hor => ?_⟩
  · have hle : k ≤ rpc.attempts.length := by
      obtain hlt | ⟨heq, _⟩ := h.start.waiting r k hk
      · exact Nat.le_of_lt hlt
      · exact Nat.le_of_eq heq
    show k < (rpc.attempts ++ [ok]).length
    rw [List.length_append]
    exact Nat.lt_succ_of_le hle
  · cases hor with
    | inl hs | inr hs => cases hs

/-- A request that is added and waits for a start that runs or begins now. -/
theorem Starting.append (h : rpc.Starting) (request : RpcRequest π ρ)
    (hk : request.phase = .waiting rpc.attempts.length) (hs : rpc.starting.isSome = true) :
    { rpc with requests := rpc.requests ++ [request] }.Starting := by
  refine ⟨fun r k hr => ?_, fun r hr => ?_, h.quiet, h.socket⟩
  · have hr : (rpc.requests ++ [request])[r]?.map RpcRequest.phase = some (.waiting k) := hr
    rw [phase?_append, hk] at hr
    split at hr
    · exact .inr ⟨(RequestPhase.waiting.inj (Option.some.inj hr)).symm, hs⟩
    · exact h.waiting r k hr
  · obtain ⟨phase, hphase, hne⟩ := h.initializing r hr
    refine ⟨phase, ?_, hne⟩
    show (rpc.requests ++ [request])[r]?.map RpcRequest.phase = some phase
    rw [phase?_append, if_neg, hphase]
    intro heq
    rw [heq, phase?_length] at hphase
    cases hphase

theorem WF.settle_waiting (h : rpc.WF) (hk : rpc.phase? r = some (.waiting k)) :
    (rpc.settle [r] outcome).WF := ⟨h.matched.settle_waiting outcome hk, h.start.settle⟩

theorem WF.dropPending (h : rpc.WF) (hp : rpc.phase? r = some .pending) :
    (rpc.dropPending r outcome).WF := ⟨h.matched.dropPending outcome hp, h.start.settle_pending⟩

theorem isSome_of_phase? {phase : RequestPhase ρ} (h : rpc.phase? r = some phase) :
    rpc.requests[r]?.isSome = true := by
  rw [phase?, Option.map_eq_some_iff] at h
  obtain ⟨request, hrequest, _⟩ := h
  rw [hrequest]
  rfl

theorem WF.issue (h : rpc.WF) (hk : rpc.phase? r = some (.waiting k)) : (rpc.issue r fails).WF :=
  ⟨h.matched.issue hk, h.start.issue (isSome_of_phase? hk)⟩

/-- A new request: it is settled or issued at once, or waits for the next start. -/
theorem WF.request (h : rpc.WF) (method : String) (params : π) (expectedGeneration : Option Nat)
    (aborted fails : Bool) : (rpc.request method params expectedGeneration aborted fails).WF := by
  unfold CodexRpc.request
  set request : RpcRequest π ρ :=
    ⟨method, params, expectedGeneration, .waiting rpc.attempts.length, aborted⟩ with hrequest
  set next : CodexRpc π ρ := { rpc with requests := rpc.requests ++ [request] } with hnext
  have hmatched : next.Matched := h.matched.append request rfl
  have hwait : next.phase? rpc.requests.length = some (.waiting rpc.attempts.length) :=
    (phase?_append request).trans (if_pos rfl)
  -- until it is issued the request may wait for a start that does not run
  have hstart : ∀ done : CodexRpc π ρ, (∀ m ≠ rpc.requests.length, done.phase? m = next.phase? m) →
      (∃ phase, done.phase? rpc.requests.length = some phase ∧ ∀ k, phase ≠ .waiting k) →
      done.starting = rpc.starting ∧ done.attempts = rpc.attempts ∧
        done.started = rpc.started ∧ done.transport = rpc.transport → done.Starting := by
    intro done hne ⟨phase, hphase, hdone⟩ ⟨hstarting, hattempts, hstarted, htransport⟩
    have hold : ∀ m ≠ rpc.requests.length, done.phase? m = rpc.phase? m := fun m hm =>
      (hne m hm).trans ((phase?_append request).trans (if_neg hm))
    refine h.start.frame (fun m k hk => ?_) (fun m hm => ?_)
      ⟨hstarting, hattempts, fun hs => hstarted ▸ hs, htransport⟩
    · by_cases hm : m = rpc.requests.length
      · rw [hm, hphase] at hk
        exact absurd (Option.some.inj hk) (hdone k)
      · rw [← hold m hm, hk]
    · by_cases hmr : m = rpc.requests.length
      · exact ⟨phase, hmr ▸ hphase, hdone⟩
      · rw [hold m hmr]
        exact hm
  dsimp only
  split
  · refine ⟨hmatched.settle_waiting .notActive hwait, hstart _ (fun m hm => ?_) ?_
      ⟨rfl, rfl, rfl, rfl⟩⟩
    · rw [phase?_settle, if_neg (by simpa using hm)]
    · refine ⟨.settled .notActive, ?_, fun k hk => (by cases hk)⟩
      rw [phase?_settle, if_pos List.mem_cons_self, hwait]
      rfl
  split
  · refine ⟨hmatched.issue hwait, hstart _ (fun m hm => phase?_issue_of_ne hm)
      (phase?_issue_self fails (isSome_of_phase? hwait)) ?_⟩
    exact issue_frame next _ _
  · next hs =>
    refine ⟨hmatched.begin _, ?_⟩
    have hbegin := h.start.begin (Bool.eq_false_iff.mpr hs)
    refine hbegin.append request rfl ?_
    cases rpc.starting <;> rfl

/-- The `initialize` request of a start on a connection that has just been opened. -/
theorem WF.requestInitialize (h : rpc.Matched) (hwaiting : ∀ r k,
      rpc.phase? r = some (.waiting k) → k < rpc.attempts.length ∨ k = rpc.attempts.length)
    (params : π) (fails : Bool) : (rpc.requestInitialize params fails).WF := by
  unfold CodexRpc.requestInitialize
  set request : RpcRequest π ρ :=
    ⟨"initialize", params, none, .waiting rpc.attempts.length, false⟩ with hrequest
  set next : CodexRpc π ρ := { rpc with requests := rpc.requests ++ [request] } with hnext
  have hmatched : next.Matched := h.append request rfl
  have hwait : next.phase? rpc.requests.length = some (.waiting rpc.attempts.length) :=
    (phase?_append request).trans (if_pos rfl)
  have hissued := phase?_issue_self fails (isSome_of_phase? hwait)
  refine ⟨(hmatched.issue hwait).begin _, fun m k hk => ?_, fun m hm => ?_, ?_, fun hor => ?_⟩
  · have hk : (next.issue rpc.requests.length fails).phase? m = some (.waiting k) := hk
    show k < (next.issue rpc.requests.length fails).attempts.length ∨
      k = (next.issue rpc.requests.length fails).attempts.length ∧ _
    rw [(issue_frame next _ _).2.1]
    by_cases hm : m = rpc.requests.length
    · obtain ⟨phase, hphase, hne⟩ := hissued
      rw [hm, hphase] at hk
      exact absurd (Option.some.inj hk) (hne k)
    · rw [phase?_issue_of_ne hm] at hk
      have hold : rpc.phase? m = some (.waiting k) :=
        ((phase?_append request).trans (if_neg hm)).symm.trans hk
      exact (hwaiting m k hold).imp id fun heq => ⟨heq, rfl⟩
  · obtain rfl := StartPhase.initializing.inj (Option.some.inj hm)
    exact hissued
  · intro phase hphase hne
    obtain rfl := Option.some.inj hphase
    exact absurd rfl (hne rpc.requests.length)
  · cases hor with
    | inl hs | inr hs => cases hs

/-- A new connection: nothing is pending before it. -/
theorem Matched.connect (h : rpc.Matched) (hs : rpc.started = false) (started : Bool)
    (writer : Option Nat) (hwriter : started = writer.isSome)
    (hgeneration : ∀ g, writer = some g → g = rpc.generation + 1) (wireOpen : Bool) :
    { rpc with
      generation := rpc.generation + 1
      started := started
      writer := writer
      wireOpen := wireOpen }.Matched := by
  have hempty := h.idle hs
  refine { h with
    entry := fun e he => ?_
    idle := fun _ => hempty
    writer_isSome := hwriter
    writer_eq := hgeneration
    ended_le := fun g hg => Nat.le_succ_of_le (h.ended_le g hg)
    ended := fun hended => ?_ }
  · rw [hempty] at he
    exact absurd he List.not_mem_nil
  · exact absurd (h.ended_le _ hended) (Nat.not_succ_le_self _)

/-- The socket that was opened is written to. -/
theorem Matched.attach (h : rpc.Matched) (hs : rpc.started = false)
    (hsocket : rpc.transport = .control) :
    { rpc with writer := some rpc.generation, started := true }.Matched := by
  refine { h with
    idle := fun _ => h.idle hs
    writer_isSome := rfl
    writer_eq := fun g hg => (Option.some.inj hg).symm
    ended := fun hended => ?_ }
  obtain ⟨hempty, hwire, _⟩ := h.ended hended
  refine ⟨hempty, hwire, fun hstdio => ?_⟩
  cases hsocket.symm.trans hstdio

theorem WF.handleLine (h : rpc.WF) (textOf : ι → String) (g : Nat) (message : RpcMessage ι π ρ) :
    (rpc.handleLine textOf g message).1.WF := by
  unfold CodexRpc.handleLine
  split
  · exact h
  cases message.id with
  | none => cases message.method <;> exact h
  | some id =>
    cases message.method with
    | some method => exact h
    | none =>
      dsimp only
      cases hget : rpc.pending.get? (textOf id) with
      | none => exact h
      | some e =>
        dsimp only
        split
        · exact h
        cases message.error with
        | none => exact ⟨h.matched.reply _ hget, h.start.settle_pending⟩
        | some error => exact ⟨h.matched.reply _ hget, h.start.settle_pending⟩

/-- Every event keeps the invariant. -/
theorem WF.step (h : rpc.WF) {textOf : ι → String} {e : RpcEvent ι π ρ} {next : CodexRpc π ρ}
    {out : List (RpcOutput ι π)} (hstep : rpc.step textOf e = some (next, out)) : next.WF := by
  cases e with
  | start =>
    cases hstep
    exact h.begin
  | request method params expectedGeneration aborted fails =>
    cases hstep
    exact h.request method params expectedGeneration aborted fails
  | resume r fails =>
    simp only [CodexRpc.step] at hstep
    split at hstep
    · next hk =>
      split at hstep
      · cases hstep
      · cases hstep
        exact h.issue hk
      · cases hstep
        exact h.settle_waiting hk
    · cases hstep
  | abort r =>
    simp only [CodexRpc.step] at hstep
    split at hstep
    · cases hstep
      refine ⟨h.matched.abort, h.start.frame (fun m k hk => ?_) (fun m hm => ?_)
        ⟨rfl, rfl, id, rfl⟩⟩
      · exact phase?_aborted.symm.trans hk
      · obtain ⟨phase, hphase, hne⟩ := hm
        exact ⟨phase, phase?_aborted.trans hphase, hne⟩
    · next hp =>
      cases hstep
      exact h.dropPending hp
    · cases hstep
  | timeout r =>
    simp only [CodexRpc.step] at hstep
    split at hstep
    · next hp =>
      cases hstep
      exact h.dropPending hp
    · cases hstep
  | spawned params fails =>
    simp only [CodexRpc.step] at hstep
    split at hstep
    · cases hstep
    next hspawning =>
    rw [not_not] at hspawning
    have hs := h.start.quiet _ hspawning fun r hr => by cases hr
    split at hstep
    · cases hstep
      have hconnect := h.matched.connect hs true (some (rpc.generation + 1)) rfl
        (fun g hg => (Option.some.inj hg).symm)
        rpc.wireOpen
      refine WF.requestInitialize hconnect ?_ params fails
      · exact fun r k hk => (h.start.waiting r k hk).imp id And.left
    · next hcontrol =>
      cases hstep
      refine ⟨(h.matched.connect hs _ _ (h.matched.writer_isSome) ?_ true).begin _,
        fun r k hk => ?_, fun r hr => (by cases hr), fun _ _ _ => hs, fun _ => hcontrol⟩
      · intro g hg
        have hsome := h.matched.writer_isSome
        rw [hs, hg] at hsome
        cases hsome
      · obtain hlt | ⟨heq, _⟩ := h.start.waiting r k hk
        · exact .inl hlt
        · exact .inr ⟨heq, rfl⟩
  | spawnFailed =>
    simp only [CodexRpc.step] at hstep
    split at hstep
    · cases hstep
    · cases hstep
      exact h.failStart
  | handshakeDone =>
    simp only [CodexRpc.step] at hstep
    split at hstep
    · next hboth =>
      cases hstep
      have hs := h.start.quiet _ hboth.1 fun r hr => by cases hr
      refine ⟨h.matched.begin _, fun r k hk => ?_, fun r hr => (by cases hr), fun _ _ _ => hs,
        fun _ => h.start.socket (.inl hboth.1)⟩
      obtain hlt | ⟨heq, _⟩ := h.start.waiting r k hk
      · exact .inl hlt
      · exact .inr ⟨heq, rfl⟩
    · cases hstep
  | startContinues params fails =>
    simp only [CodexRpc.step] at hstep
    split at hstep
    · split at hstep
      · cases hstep
      · cases hstep
        exact h.failStart
    · next hopened =>
      cases hstep
      have hs := h.start.quiet _ hopened fun r hr => by cases hr
      refine WF.requestInitialize (h.matched.attach hs (h.start.socket (.inr hopened))) ?_ params
        fails
      exact fun r k hk => (h.start.waiting r k hk).imp id And.left
    · cases hstep
  | startEnds =>
    simp only [CodexRpc.step] at hstep
    split at hstep
    · split at hstep
      · split at hstep
        · cases hstep
          exact h.endStart true
        · cases hstep
          exact h.failStart
      · cases hstep
        exact h.failStart
      · cases hstep
    · cases hstep
  | closed =>
    simp only [CodexRpc.step] at hstep
    split at hstep
    · cases hstep
    · cases hstep
      exact h.endStart false
  | line g message =>
    obtain rfl : (rpc.handleLine textOf g message).1 = next :=
      congrArg Prod.fst (Option.some.inj hstep)
    exact h.handleLine textOf g message
  | lost g =>
    obtain rfl : (rpc.disconnect (ι := ι) g).1 = next := congrArg Prod.fst (Option.some.inj hstep)
    exact h.disconnect
  | close =>
    obtain rfl : (rpc.disconnect (ι := ι) rpc.generation).1 = next :=
      congrArg Prod.fst (Option.some.inj hstep)
    exact h.disconnect

section Runs

variable (textOf : ι → String) {transport : RpcTransport}

/-- **Invariant.** Every client that a run leads to satisfies it. -/
theorem wf_of_reachable (h : (codexRpc π ρ textOf transport).Reachable rpc) : rpc.WF := by
  refine TransitionSystem.Reachable.invariant (fun rpc hinit => ?_) (fun rpc e next hwf hstep => ?_) h
  · obtain rfl : rpc = { transport := transport } := hinit
    constructor
    · exact ⟨fun e he => absurd he List.not_mem_nil, fun r hr => by simp [phase?] at hr,
        fun w hw => absurd hw List.not_mem_nil, List.nodup_nil, List.nodup_nil,
        fun r => by simp [outcomes, settledBy, phase?], fun _ => rfl, rfl,
        fun g hg => (by cases hg), fun g hg => absurd hg List.not_mem_nil,
        fun hg => absurd hg List.not_mem_nil⟩
    · refine ⟨fun r k hk => by simp [phase?] at hk, fun r hr => (by cases hr),
        fun phase hphase => (by cases hphase), fun hor => ?_⟩
      cases hor with
      | inl hs | inr hs => cases hs
  · obtain ⟨⟨next', out⟩, hfull, rfl⟩ := Option.map_eq_some_iff.mp hstep
    exact hwf.step hfull

/-! ### Every request can be settled -/

variable (transport)

/-- The client goes on to another, in which what waited still waits. -/
def Continues (rpc next : CodexRpc π ρ) : Prop :=
  (∃ es, (codexRpc π ρ textOf transport).run rpc es = some next) ∧
    ∀ r k, rpc.phase? r = some (.waiting k) → next.phase? r = some (.waiting k)

variable {textOf transport}

theorem Continues.trans {a b c : CodexRpc π ρ} (hab : Continues textOf transport a b)
    (hbc : Continues textOf transport b c) : Continues textOf transport a c := by
  obtain ⟨⟨es, hes⟩, hkeep⟩ := hab
  obtain ⟨⟨fs, hfs⟩, hkeep'⟩ := hbc
  refine ⟨⟨es ++ fs, ?_⟩, fun r k hk => hkeep' r k (hkeep r k hk)⟩
  rw [TransitionSystem.run_append, hes]
  exact hfs

theorem Continues.step {next : CodexRpc π ρ} {e : RpcEvent ι π ρ} {o : List (RpcOutput ι π)}
    (hstep : rpc.step textOf e = some (next, o))
    (hkeep : ∀ r k, rpc.phase? r = some (.waiting k) → next.phase? r = some (.waiting k)) :
    Continues textOf transport rpc next := by
  refine ⟨⟨[e], ?_⟩, hkeep⟩
  show ((rpc.step textOf e).map Prod.fst).bind _ = _
  rw [hstep]
  rfl

theorem WF.failStart_waiting (h : rpc.WF) (hk : rpc.phase? r = some (.waiting k)) :
    (rpc.failStart (ι := ι)).1.phase? r = some (.waiting k) :=
  (h.matched.phase?_disconnect (by rw [hk]; exact fun hp => by cases hp)).trans hk

variable (textOf transport)

/-- A client that is closing after a failed start ends that start. -/
theorem closing_ends (hclosing : rpc.starting = some .closing) : ∃ next,
    Continues textOf transport rpc next ∧
      rpc.attempts.length < next.attempts.length := by
  refine ⟨{ rpc with starting := none, attempts := rpc.attempts ++ [false] },
    Continues.step (e := .closed) (o := []) ?_ (fun r k hk => hk), by simp⟩
  simp only [CodexRpc.step, hclosing, ne_eq, not_true_eq_false, if_false]

/-- A start that fails ends. -/
theorem WF.failStart_ends (h : rpc.WF) {e : RpcEvent ι π ρ}
    (hstep : rpc.step textOf e = some rpc.failStart) : ∃ next,
      Continues textOf transport rpc next ∧
        rpc.attempts.length < next.attempts.length := by
  obtain ⟨next, hnext, hlt⟩ := closing_ends textOf transport
    (show (rpc.failStart (ι := ι)).1.starting = some .closing from rfl)
  have hattempts : (rpc.failStart (ι := ι)).1.attempts = rpc.attempts := disconnect_frame.2.1
  exact ⟨next, (Continues.step hstep fun r k hk => h.failStart_waiting hk).trans hnext,
    hattempts ▸ hlt⟩

/-- A start whose `initialize` request is out ends: with its reply or its timer. -/
theorem WF.initializing_ends (h : rpc.WF) (hr : rpc.starting = some (.initializing r)) : ∃ next,
    Continues textOf transport rpc next ∧
      rpc.attempts.length < next.attempts.length := by
  obtain ⟨phase, hphase, hne⟩ := h.start.initializing r hr
  have hsettled : ∀ (base : CodexRpc π ρ), base.WF → base.starting = some (.initializing r) →
      (∃ o, base.phase? r = some (.settled o)) → ∃ next,
        Continues textOf transport base next ∧
          base.attempts.length < next.attempts.length := by
    intro base hwf hstarting ⟨o, ho⟩
    by_cases hok : (∃ result, o = .resolved result) ∧ base.Writable
    · obtain ⟨⟨result, rfl⟩, hwritable⟩ := hok
      refine ⟨{ base with starting := none, attempts := base.attempts ++ [true] },
        Continues.step (e := .startEnds) (o := [.connected base.generation]) ?_
          (fun r k hk => hk), by simp⟩
      simp only [CodexRpc.step, hstarting, ho, if_pos hwritable]
    · refine hwf.failStart_ends textOf transport (e := .startEnds) ?_
      simp only [CodexRpc.step, hstarting, ho]
      split
      · next result heq =>
        have hresolved := RequestPhase.settled.inj (Option.some.inj heq)
        rw [if_neg fun hw => hok ⟨⟨result, hresolved⟩, hw⟩]
      · rfl
      · next hother => exact absurd rfl (hother o)
  cases phase with
  | waiting k => exact absurd rfl (hne k)
  | settled o => exact hsettled rpc h hr ⟨o, hphase⟩
  | pending =>
    obtain ⟨next, hnext, hlt⟩ := hsettled (rpc.dropPending r .timedOut) (h.dropPending hphase) hr
      ⟨.timedOut, by
        show (rpc.settle [r] _).phase? r = _
        rw [phase?_settle, if_pos List.mem_cons_self, hphase]
        rfl⟩
    refine ⟨next, (Continues.step (e := .timeout r) (o := []) ?_ ?_).trans hnext, hlt⟩
    · simp only [CodexRpc.step, hphase]
    · intro m k hk
      show (rpc.settle [r] _).phase? m = _
      rw [phase?_settle, if_neg, hk]
      intro hm
      rw [List.mem_singleton.mp hm, hphase] at hk
      cases hk

/-- Every start that runs can end. -/
theorem WF.start_ends (h : rpc.WF) (params : π) {phase : StartPhase}
    (hphase : rpc.starting = some phase) : ∃ next,
      Continues textOf transport rpc next ∧
        rpc.attempts.length < next.attempts.length := by
  cases phase with
  | closing => exact closing_ends textOf transport hphase
  | initializing r => exact h.initializing_ends textOf transport hphase
  | spawning =>
    refine h.failStart_ends textOf transport (e := .spawnFailed) ?_
    simp only [CodexRpc.step, hphase, ne_eq, not_true_eq_false, if_false]
  | handshake =>
    -- the socket is lost before or after the handshake is done
    have hwf : (rpc.disconnect (ι := ι) rpc.generation).1.WF := h.disconnect
    obtain ⟨hstarting, hattempts, _, _⟩ := rpc.disconnect_frame (ι := ι) (g := rpc.generation)
    obtain ⟨next, hnext, hlt⟩ := hwf.failStart_ends textOf transport
      (e := .startContinues params false) (by
        simp only [CodexRpc.step, hstarting, hphase]
        unfold CodexRpc.disconnect
        simp)
    refine ⟨next, (Continues.step (e := .lost rpc.generation) rfl ?_).trans hnext, hattempts ▸ hlt⟩
    intro r k hk
    exact (h.matched.phase?_disconnect (by rw [hk]; exact fun hp => by cases hp)).trans hk
  | opened =>
    set next : CodexRpc π ρ := ({ rpc with
      writer := some rpc.generation, started := true }).requestInitialize params false with hnext
    have hstep : rpc.step textOf (.startContinues params false) = some (next, []) := by
      simp only [CodexRpc.step, hphase, hnext]
    have hwf : next.WF := h.step hstep
    obtain ⟨last, hlast, hlt⟩ := hwf.initializing_ends textOf transport
      (r := rpc.requests.length) rfl
    refine ⟨last, (Continues.step hstep fun r k hk => ?_).trans hlast, ?_⟩
    · have hne : r ≠ rpc.requests.length := by
        intro heq
        rw [heq, phase?_length] at hk
        cases hk
      show (CodexRpc.issue _ rpc.requests.length false).phase? r = _
      rw [phase?_issue_of_ne hne]
      exact (phase?_append _).trans ((if_neg hne).trans hk)
    · refine Nat.lt_of_le_of_lt (Nat.le_of_eq ?_) hlt
      show rpc.attempts.length = (CodexRpc.issue _ rpc.requests.length false).attempts.length
      rw [(issue_frame _ _ _).2.1]

/-- **Progress.** Whatever a request waits for, it can still be settled: the start it waits for
    ends, and the timer of a request that was written runs. -/
theorem WF.canSettle (h : rpc.WF) (hr : r < rpc.requests.length) : ∃ es next o,
    (codexRpc π ρ textOf transport).run rpc es = some next ∧
      next.phase? r = some (.settled o) := by
  have hsettled : ∀ (base : CodexRpc π ρ), (∃ phase, base.phase? r = some phase ∧
      ∀ k, phase ≠ .waiting k) → ∃ es next o,
        (codexRpc π ρ textOf transport).run base es = some next ∧
          next.phase? r = some (.settled o) := by
    intro base ⟨phase, hphase, hne⟩
    cases phase with
    | waiting k => exact absurd rfl (hne k)
    | settled o => exact ⟨[], base, o, rfl, hphase⟩
    | pending =>
      refine ⟨[.timeout r], base.dropPending r .timedOut, .timedOut, ?_, ?_⟩
      · show ((base.step textOf (.timeout r)).map Prod.fst).bind _ = _
        simp only [CodexRpc.step, hphase]
        rfl
      · show (base.settle [r] _).phase? r = _
        rw [phase?_settle, if_pos List.mem_cons_self, hphase]
        rfl
  -- a request that waits for a start that has ended goes on with the result of that start
  have hended : ∀ (base : CodexRpc π ρ) k, base.phase? r = some (.waiting k) →
      k < base.attempts.length → ∃ es next o,
        (codexRpc π ρ textOf transport).run base es = some next ∧
          next.phase? r = some (.settled o) := by
    intro base k hk hlt
    obtain ⟨next, hstep, hnext⟩ : ∃ next, base.step textOf (.resume r false) = some (next, []) ∧
        ∃ phase, next.phase? r = some phase ∧ ∀ k, phase ≠ .waiting k := by
      simp only [CodexRpc.step, hk, List.getElem?_eq_getElem hlt]
      cases base.attempts[k] with
      | true => exact ⟨_, rfl, phase?_issue_self false (isSome_of_phase? hk)⟩
      | false =>
        refine ⟨_, rfl, .settled .startFailed, ?_, fun k hk => by cases hk⟩
        rw [phase?_settle, if_pos List.mem_cons_self, hk]
        rfl
    obtain ⟨es, last, o, hrun, ho⟩ := hsettled next hnext
    refine ⟨.resume r false :: es, last, o, ?_, ho⟩
    show ((base.step textOf (.resume r false)).map Prod.fst).bind _ = _
    rw [hstep]
    exact hrun
  obtain ⟨request, hrequest⟩ : ∃ request, rpc.requests[r]? = some request :=
    ⟨_, List.getElem?_eq_getElem hr⟩
  have hphase : rpc.phase? r = some request.phase := by rw [phase?, hrequest]; rfl
  cases hwait : request.phase with
  | pending => exact hsettled rpc ⟨_, hwait ▸ hphase, fun k hk => by cases hk⟩
  | settled o => exact hsettled rpc ⟨_, hwait ▸ hphase, fun k hk => by cases hk⟩
  | waiting k =>
    rw [hwait] at hphase
    obtain hlt | ⟨heq, hstarting⟩ := h.start.waiting r k hphase
    · exact hended rpc k hphase hlt
    · obtain ⟨phase, hstart⟩ := Option.isSome_iff_exists.mp hstarting
      obtain ⟨next, ⟨⟨es, hes⟩, hkeep⟩, hlt⟩ := h.start_ends textOf transport
        request.params hstart
      obtain ⟨fs, last, o, hfs, ho⟩ := hended next k (hkeep r k hphase) (heq ▸ hlt)
      refine ⟨es ++ fs, last, o, ?_, ho⟩
      rw [TransitionSystem.run_append, hes]
      exact hfs

end Runs

/-! ### Replies -/

/-- The outcomes that a response has. -/
def IsReply : RequestOutcome ρ → Prop
  | .resolved _ | .serverError _ => True
  | _ => False

/-- What a response settles a promise with. -/
def replyOf (message : RpcMessage ι π ρ) : RequestOutcome ρ :=
  match message.error with
  | some error => .serverError error
  | none => .resolved message.result

/-- Settlements are added, and none of them is a reply. -/
def AddsNoReply (rpc next : CodexRpc π ρ) : Prop :=
  ∃ added, next.settlements = rpc.settlements ++ added ∧ ∀ s ∈ added, ¬ IsReply s.2

theorem AddsNoReply.refl : AddsNoReply rpc rpc := ⟨[], by simp, by simp⟩

theorem AddsNoReply.settle (base : CodexRpc π ρ) (hbase : base.settlements = rpc.settlements)
    (houtcome : ¬ IsReply outcome) : AddsNoReply rpc (base.settle rs outcome) := by
  refine ⟨rs.map fun r => (r, outcome), by rw [← hbase]; rfl, fun s hs => ?_⟩
  obtain ⟨r, _, rfl⟩ := List.mem_map.mp hs
  exact houtcome

theorem AddsNoReply.issue (base : CodexRpc π ρ) (hbase : base.settlements = rpc.settlements) :
    AddsNoReply rpc (base.issue r fails) := by
  unfold CodexRpc.issue
  have hnone : ∀ next : CodexRpc π ρ, next.settlements = rpc.settlements → AddsNoReply rpc next :=
    fun next hnext => ⟨[], by rw [hnext, List.append_nil], by simp⟩
  cases base.requests[r]? with
  | none => exact hnone _ hbase
  | some request =>
    dsimp only
    split
    · exact settle _ hbase id
    split
    · exact settle _ hbase id
    split
    · exact settle _ hbase id
    · exact hnone _ hbase

theorem AddsNoReply.disconnect : AddsNoReply rpc (rpc.disconnect (ι := ι) g).1 := by
  unfold CodexRpc.disconnect
  split
  · exact refl
  · have hsettled : ∀ rs, AddsNoReply rpc (rpc.settle rs .disconnected) := fun _ =>
      settle rpc rfl id
    exact hsettled _

theorem AddsNoReply.request (method : String) (params : π) (expectedGeneration : Option Nat)
    (aborted fails : Bool) :
    AddsNoReply rpc (rpc.request method params expectedGeneration aborted fails) := by
  unfold CodexRpc.request
  dsimp only
  split
  · exact settle _ rfl id
  split
  · exact issue _ rfl
  · exact refl

/-- Promises are settled with replies only by lines that arrive. -/
theorem addsNoReply_of_step {textOf : ι → String} {e : RpcEvent ι π ρ} {next : CodexRpc π ρ}
    {out : List (RpcOutput ι π)} (hstep : rpc.step textOf e = some (next, out))
    (hline : ∀ g message, e ≠ .line g message) : AddsNoReply rpc next := by
  cases e with
  | start =>
    cases hstep
    unfold CodexRpc.start
    split <;> exact .refl
  | request method params expectedGeneration aborted fails =>
    cases hstep
    exact .request method params expectedGeneration aborted fails
  | resume r fails =>
    simp only [CodexRpc.step] at hstep
    split at hstep
    · split at hstep <;> cases hstep
      · exact .issue rpc rfl
      · exact .settle rpc rfl id
    · cases hstep
  | abort r =>
    simp only [CodexRpc.step] at hstep
    split at hstep <;> cases hstep
    · exact .refl
    · have hsettled : AddsNoReply rpc (rpc.settle [r] .aborted) := .settle rpc rfl id
      exact hsettled
  | timeout r =>
    simp only [CodexRpc.step] at hstep
    split at hstep <;> cases hstep
    have hsettled : AddsNoReply rpc (rpc.settle [r] .timedOut) := .settle rpc rfl id
    exact hsettled
  | spawned params fails =>
    simp only [CodexRpc.step] at hstep
    split at hstep
    · cases hstep
    split at hstep <;> cases hstep
    · exact .issue _ rfl
    · exact .refl
  | spawnFailed =>
    simp only [CodexRpc.step] at hstep
    split at hstep <;> cases hstep
    exact AddsNoReply.disconnect (ι := ι)
  | handshakeDone =>
    simp only [CodexRpc.step] at hstep
    split at hstep <;> cases hstep
    exact .refl
  | startContinues params fails =>
    simp only [CodexRpc.step] at hstep
    split at hstep
    · split at hstep <;> cases hstep
      exact AddsNoReply.disconnect (ι := ι)
    · cases hstep
      exact .issue _ rfl
    · cases hstep
  | startEnds =>
    simp only [CodexRpc.step] at hstep
    split at hstep
    · split at hstep
      · split at hstep <;> cases hstep
        · exact .refl
        · exact AddsNoReply.disconnect (ι := ι)
      · cases hstep
        exact AddsNoReply.disconnect (ι := ι)
      · cases hstep
    · cases hstep
  | closed =>
    simp only [CodexRpc.step] at hstep
    split at hstep <;> cases hstep
    exact .refl
  | line g message => exact absurd rfl (hline g message)
  | lost g =>
    obtain rfl : (rpc.disconnect (ι := ι) g).1 = next := congrArg Prod.fst (Option.some.inj hstep)
    exact .disconnect
  | close =>
    obtain rfl : (rpc.disconnect (ι := ι) rpc.generation).1 = next :=
      congrArg Prod.fst (Option.some.inj hstep)
    exact .disconnect

/-- A line settles at most the request of the entry with its id. -/
theorem handleLine_settlements (rpc : CodexRpc π ρ) (g : Nat) (textOf : ι → String)
    (message : RpcMessage ι π ρ) :
    (rpc.handleLine textOf g message).1.settlements = rpc.settlements ∨
      ∃ id entry, message.id = some id ∧ message.method = none ∧
        rpc.pending.get? (textOf id) = some entry ∧ entry.generation = g ∧
        (rpc.handleLine textOf g message).1.settlements
          = rpc.settlements ++ [(entry.request, replyOf message)] := by
  unfold CodexRpc.handleLine
  split
  · exact .inl rfl
  cases hid : message.id with
  | none => cases message.method <;> exact .inl rfl
  | some id =>
    cases message.method with
    | some method => exact .inl rfl
    | none =>
      dsimp only
      cases hget : rpc.pending.get? (textOf id) with
      | none => exact .inl rfl
      | some entry =>
        dsimp only
        split
        · exact .inl rfl
        · next hgen =>
          refine .inr ⟨id, entry, rfl, rfl, hget, not_not.mp hgen, ?_⟩
          unfold replyOf
          cases message.error <;> rfl

/-- What a step adds to the settlements of a promise. -/
theorem outcomes_of_append {next : CodexRpc π ρ} {added : List (Nat × RequestOutcome ρ)}
    (h : next.settlements = rpc.settlements ++ added) :
    next.outcomes r = rpc.outcomes r ++ (added.filter fun s => s.1 = r).map Prod.snd := by
  rw [outcomes, h, List.filter_append, List.map_append]
  rfl

theorem length_settledBy (phase : Option (RequestPhase ρ)) : (settledBy phase).length ≤ 1 := by
  rcases phase with _ | _ | _ | o <;> simp [settledBy]

/-- A promise that is settled stays as it is. -/
theorem Matched.outcomes_keep {next : CodexRpc π ρ} (h : next.Matched)
    {added : List (Nat × RequestOutcome ρ)} (hadded : next.settlements = rpc.settlements ++ added)
    (ho : rpc.outcomes r = [outcome]) : next.outcomes r = [outcome] := by
  have hlength := length_settledBy (next.phase? r)
  rw [← h.outcomes, outcomes_of_append hadded, ho] at hlength
  rw [outcomes_of_append hadded, ho]
  have hnil : (added.filter fun s => s.1 = r).map Prod.snd = [] := by
    refine List.eq_nil_of_length_eq_zero ?_
    rw [List.length_append, List.length_singleton] at hlength
    omega
  rw [hnil, List.append_nil]

theorem step_settlements {textOf : ι → String} {e : RpcEvent ι π ρ} {next : CodexRpc π ρ}
    {out : List (RpcOutput ι π)} (hstep : rpc.step textOf e = some (next, out)) :
    ∃ added, next.settlements = rpc.settlements ++ added ∧ ∀ s ∈ added, IsReply s.2 →
      ∃ g message id entry, e = .line g message ∧ message.id = some id ∧ message.method = none ∧
        rpc.pending.get? (textOf id) = some entry ∧ entry.generation = g ∧
        s = (entry.request, replyOf message) := by
  by_cases hline : ∃ g message, e = .line g message
  · obtain ⟨g, message, rfl⟩ := hline
    obtain rfl : (rpc.handleLine textOf g message).1 = next :=
      congrArg Prod.fst (Option.some.inj hstep)
    obtain hsame | ⟨id, entry, hid, hmethod, hget, hgen, hadded⟩ :=
      handleLine_settlements rpc g textOf message
    · exact ⟨[], by rw [hsame, List.append_nil], fun s hs => absurd hs List.not_mem_nil⟩
    · refine ⟨_, hadded, fun s hs _ => ?_⟩
      exact ⟨g, message, id, entry, rfl, hid, hmethod, hget, hgen, List.mem_singleton.mp hs⟩
  · obtain ⟨added, hadded, hno⟩ := addsNoReply_of_step hstep fun g message heq =>
      hline ⟨g, message, heq⟩
    exact ⟨added, hadded, fun s hs hreply => absurd hreply (hno s hs)⟩

end CodexRpc

end AgentHost
