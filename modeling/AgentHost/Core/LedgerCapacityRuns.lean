import AgentHost.Core.LedgerGrowth

namespace AgentHost

/-!
# Both exits of the retirement fence, in every run

* `retirement_capacity` — **Main**: in every run whose other operations leave every selection
  of the pending retirements room, both exits of every retiring record stay open, whatever
  completes or is cancelled in whatever order, and whatever writes fail.
* `retirement_capacity_lost` — a reachable ledger that only has room for none and for all of
  its two pending retirements: the first cannot complete.
-/

/-- An exit from a fence, at a reading of a four-digit year and with a valid scope or none. -/
def LedgerOp.IsExit : LedgerOp → Prop
  | .completeRetirement _ now scope => FourDigitYear now ∧ scope.all safeCleanupScope = true
  | .cancelRetirement _ _ now => FourDigitYear now
  | _ => False

instance : DecidablePred LedgerOp.IsExit
  | .completeRetirement _ now scope => inferInstanceAs (Decidable
      (FourDigitYear now ∧ scope.all safeCleanupScope = true))
  | .cancelRetirement _ _ now => inferInstanceAs (Decidable (FourDigitYear now))
  | .reserve .. | .transition .. | .beginRetirement .. | .completeRetirementCleanup .. =>
    inferInstanceAs (Decidable False)

namespace LedgerHost

variable {host host' : LedgerHost}

/-- Both exits of every retiring record are accepted, unless the write itself fails. -/
def ExitsOpen (host : LedgerHost) : Prop :=
  ∀ current ∈ host.memory.records.values, current.state = .retiring →
    ∀ op : LedgerOp, op.ExitOf current → ∀ fault error,
      (host.call op fault).2 = .error error → fault ≠ none ∧ error = .writeFailed

/-- The condition on a step: what an operation other than an exit writes is a ledger in which
    every selection of the pending retirements has room. -/
def LeavesRoom (host : LedgerHost) (event : LedgerEvent) : Prop :=
  ∀ op ∈ event.op?, op.IsExit ∨
    ∀ next ∈ (op.apply host.memory).next?, next.persist.isOk = true → next.ReservesEveryPart

instance (host : LedgerHost) (event : LedgerEvent) : Decidable (host.LeavesRoom event) := by
  unfold LeavesRoom
  infer_instance

/-- An operation whose ledger passes the size checks only fails with its write. -/
theorem call_error_of_persist {op : LedgerOp} {next rollback : Ledger} {reply : LedgerReply}
    {fault : Option WriteStep} {error : LedgerError}
    (hop : op.apply host.memory = .persists next reply rollback)
    (hpersist : next.persist.isOk = true) (herror : (host.call op fault).2 = .error error) :
    fault ≠ none ∧ error = .writeFailed := by
  have hcalled := call_called host op fault
  generalize (host.call op fault).1 = after, (host.call op fault).2 = result at hcalled herror
  cases hcalled with
  | threw hthrows => rw [hop] at hthrows; cases hthrows
  | returned => cases herror
  | refused hop' hrefused =>
    obtain ⟨rfl, rfl, rfl⟩ := LedgerOutcome.persists.inj (hop.symm.trans hop')
    rw [hrefused] at hpersist
    cases hpersist
  | wrote => cases herror
  | failed _ _ hfault => exact ⟨by simp [hfault], (Except.error.inj herror).symm⟩

theorem exitsOpen_of_reservesEveryPart (hsound : host.Sound)
    (h : host.memory.ReservesEveryPart) : host.ExitsOpen := by
  intro current hmem hstate op hexit fault error herror
  obtain ⟨next, reply, rollback, hop, hpersist, -⟩ :=
    h.exit hsound.memory_valid hmem hstate hexit
  exact call_error_of_persist hop hpersist herror

/-- An exit that asks for a write is the exit of a retiring record. -/
theorem exitOf_of_persists {op : LedgerOp} {next rollback : Ledger} {reply : LedgerReply}
    (hexit : op.IsExit) (hop : op.apply host.memory = .persists next reply rollback) :
    ∃ current ∈ host.memory.records.values, current.state = .retiring ∧ op.ExitOf current := by
  cases op with
  | completeRetirement id now scope =>
    obtain ⟨current, entry, hget, hstate, -⟩ := Ledger.completeRetirement_persists hop
    have hid : current.id = id := InsertionMap.key_of_get? hget
    exact ⟨current, InsertionMap.mem_of_get? hget, hstate, hid.symm, hexit⟩
  | cancelRetirement id keyHash now =>
    obtain ⟨current, record, hget, hstate, hkey, -⟩ := Ledger.cancelRetirement_persists hop
    have hid : current.id = id := InsertionMap.key_of_get? hget
    exact ⟨current, InsertionMap.mem_of_get? hget, hstate, hid.symm, hexit, hkey⟩
  | reserve => exact hexit.elim
  | transition => exact hexit.elim
  | beginRetirement => exact hexit.elim
  | completeRetirementCleanup => exact hexit.elim

/-- The step lemma: exits leave every selection of the rest the room it had, and so does
    whatever reaches the file only, or memory only. -/
theorem reservesEveryPart_step {event : LedgerEvent} (hsound : host.Sound)
    (h : host.Holds Ledger.ReservesEveryPart) (hroom : host.LeavesRoom event)
    (hstep : host.step event = some host') : host'.Holds Ledger.ReservesEveryPart := by
  refine h.step (fun _ _ hrestores hp => hp.of_restores hrestores) hsound ?_ hstep
  intro op hevent next reply rollback hop hpersist
  rcases hroom op hevent with hexit | hnext
  · obtain ⟨current, hmem, hstate, hexit⟩ := exitOf_of_persists hexit hop
    obtain ⟨next', reply', rollback', hop', -, hnext⟩ :=
      h.1.exit hsound.memory_valid hmem hstate hexit
    obtain ⟨rfl, rfl, rfl⟩ := LedgerOutcome.persists.inj (hop.symm.trans hop')
    exact hnext
  · exact hnext next (by rw [hop]; rfl) hpersist

theorem holds_reservesEveryPart (h : ledgerSystem.ReachableWhile LeavesRoom host) :
    host.Sound ∧ host.Holds Ledger.ReservesEveryPart := by
  refine h.invariant (P := fun host => host.Sound ∧ host.Holds Ledger.ReservesEveryPart) ?_ ?_
  · rintro host rfl
    have hempty : Ledger.initial.ReservesEveryPart := by
      intro selected
      have hbytes : Ledger.initial.partialBytes (fun _ => false) ≤ maxLedgerBytes := by decide
      exact hbytes
    exact ⟨start_sound, hempty,
      fun _ hl => hl.unique ⟨_, rfl, openDocument_initialDocument⟩ ▸ hempty⟩
  · rintro host event host' ⟨hsound, hholds⟩ hroom hstep
    exact ⟨hsound.step hstep, reservesEveryPart_step hsound hholds hroom hstep⟩

end LedgerHost

/-- **Main**: in every run whose operations other than exits leave every selection of the
    pending retirements room, both exits of every retiring record are accepted in every state,
    unless the write itself fails. -/
theorem retirement_capacity {host : LedgerHost}
    (h : ledgerSystem.ReachableWhile LedgerHost.LeavesRoom host) : host.ExitsOpen := by
  obtain ⟨hsound, hholds⟩ := LedgerHost.holds_reservesEveryPart h
  exact LedgerHost.exitsOpen_of_reservesEveryPart hsound hholds.1

/-- One retirement on its own: its fence is left either way. -/
theorem retirement_capacity_single :
    ∃ host : LedgerHost, host.memory.retiringCount = 1 ∧ host.ExitsOpen := by
  have hrun : ∃ host ∈ (ledgerSystem.restrict LedgerHost.LeavesRoom).run .start
      [.call sampleReserve none, .call sampleCreating none, .call sampleOwned none,
        .call sampleBegin none], host.memory.retiringCount = 1 := by
    decide +kernel
  obtain ⟨host, hhost, hcount⟩ := hrun
  exact ⟨host, hcount, retirement_capacity (.ofRun (.init rfl) hhost)⟩

/-! ### A full ledger -/

namespace LedgerHost

/-- The longest identifier. -/
def longId : String := String.ofList (List.replicate 100 'a')

def longRequest (provider : String) : LaunchRequest :=
  ⟨provider, longId, longId, longId, ⟨true, false⟩, longId⟩

def ownedPatch (agent : String) : LaunchPatch :=
  { state := some .owned, providerAgentId := some agent, agentId := some agent }

def failedPatch : LaunchPatch := { state := some .failed, error := some (some ⟨longId, false⟩) }

/-- A launch whose tombstone is shorter than its record. -/
def shrinking : LaunchRecord := numbered (decidedStage (longRequest "p") (ownedPatch longId)) 0

/-- A launch whose tombstone is longer than its record. -/
def growing : LaunchRecord := numbered (decidedStage (longRequest longId) (ownedPatch "a")) 1

/-- A failed launch. -/
def filler (n : Nat) : LaunchRecord :=
  numbered (decidedStage (longRequest longId) failedPatch) n

def fillers (n : Nat) : List LaunchRecord := (List.range n).map fun i => filler (i + 2)

/-- The two owned launches, and failed ones. -/
def launches (n : Nat) : List LaunchRecord := shrinking :: growing :: fillers n

/-- The sizes of the texts of the launches. -/
theorem bytes_texts : Json.bytes (.str longId) = 102 ∧ Json.bytes (.str "p") = 3 ∧
    Json.bytes (.str "a") = 3 ∧ (∀ n, Json.bytes (.str (numberedLaunch n)) = 45) ∧
    (∀ n, Json.bytes (.str (numberedAttempt n)) = 46) ∧
    (∀ n, Json.bytes (.str (numberedHash n)) = 45) ∧
    Json.bytes (.str (IsoTime.toISOString 0)) = 26 ∧
    (LaunchRisk.toJson ⟨true, false⟩).bytes = 47 := by
  have hhash : ∀ n, Json.bytes (.str (numberedHash n)) = 45 := fun n => by
    have h := plain_append_digits (t := "") (by decide) 43 n
    rwa [String.empty_append] at h
  exact ⟨Json.bytes_str (by decide), by decide, by decide,
    plain_append_digits (by decide) 36, plain_append_digits (by decide) 36, hhash, by decide,
    by decide⟩

/-- What a stage of a launch has to satisfy, with a bound for its size. -/
theorem add_launch {host : LedgerHost} {compact : Bool} {records : List LaunchRecord}
    (h : host.Grown compact records) (hsize : records.length < 1000) {request : LaunchRequest}
    {patch : LaunchPatch} {b : Nat}
    (hstages : ∀ stage ∈ [requestedStage request, creatingStage request,
        decidedStage request patch],
      validateLaunchRecord (numbered stage 0) = true ∧ stage.state ≠ .retiring ∧
        recordBytes (numbered stage 0) ≤ b)
    (hdecided : (decidedStage request patch).pending = false ∧
      (decidedStage request patch).retirementKeyHash = none)
    (hroom : Json.separatedBytes (records.map recordBytes) + b + 33 ≤ maxLedgerBytes) :
    ∃ host' : LedgerHost, host'.Grown compact
      (records ++ [numbered (decidedStage request patch) records.length]) := by
  refine h.add hsize (fun stage hstage => ?_) hdecided
  obtain ⟨hvalid, hstate, hlimit⟩ := hstages stage hstage
  refine ⟨hvalid, hstate, ?_⟩
  simp only [contentBytes, Json.enclosedBytes_eq, List.map_append, List.map_cons, List.map_nil,
    Json.separatedBytes_append, Json.separatedBytes_cons, Json.separatedBytes_nil,
    Option.elim_none]
  omega

theorem safeId_longId : safeId longId = true := by decide

theorem bytes_longRequest (provider : String) :
    (longRequest provider).toJson.bytes = 526 + Json.bytes (.str provider) := by
  obtain ⟨hlong, -, -, -, -, -, -, hrisk⟩ := bytes_texts
  rw [requestBytes_eq]
  simp only [longRequest, hlong, hrisk]
  omega

theorem validResolvedRequest_longRequest {provider : String} (h : safeId provider = true) :
    validResolvedRequest (longRequest provider) = true := by
  simp [validResolvedRequest, longRequest, h, safeId_longId]

theorem requested_stage {p : String} (h : safeId p = true) :
    validateLaunchRecord (numbered (requestedStage (longRequest p)) 0) = true ∧
      recordBytes (numbered (requestedStage (longRequest p)) 0) =
        862 + Json.bytes (.str p) := by
  obtain ⟨-, -, -, hlaunch, hattempt, hhash, htime, -⟩ := bytes_texts
  have hrequest := bytes_longRequest p
  have hvalid := validResolvedRequest_longRequest h
  constructor
  · rw [validateLaunchRecord_numbered]
    simp [requestedStage, Ledger.requestedRecord, hvalid, safeHash_numberedHash, validOwnership,
      validRetirementKeyHash, validError]
  · have hstate : Json.bytes (.str "requested") = 11 := by decide
    rw [recordBytes_eq]
    simp only [numbered, requestedStage, Ledger.requestedRecord, hlaunch, hattempt, hhash, htime,
      hrequest, LaunchState.text, hstate, optionalBytes, Option.elim_none]
    omega

theorem creating_stage {p : String} (h : safeId p = true) :
    validateLaunchRecord (numbered (creatingStage (longRequest p)) 0) = true ∧
      recordBytes (numbered (creatingStage (longRequest p)) 0) =
        861 + Json.bytes (.str p) := by
  obtain ⟨-, -, -, hlaunch, hattempt, hhash, htime, -⟩ := bytes_texts
  have hrequest := bytes_longRequest p
  have hvalid := validResolvedRequest_longRequest h
  constructor
  · rw [validateLaunchRecord_numbered]
    simp [creatingStage, creatingPatch, LaunchPatch.apply, requestedStage, Ledger.requestedRecord,
      hvalid, safeHash_numberedHash, validOwnership, validRetirementKeyHash, validError]
  · have hstate : Json.bytes (.str "creating") = 10 := by decide
    rw [recordBytes_eq]
    simp [numbered, creatingStage, creatingPatch, LaunchPatch.apply, requestedStage,
      Ledger.requestedRecord, hlaunch, hattempt, hhash, htime, hrequest, LaunchState.text, hstate,
      optionalBytes]
    omega

theorem owned_stage {p a : String} (h : safeId p = true)
    (hagent : safeId a = true) :
    validateLaunchRecord (numbered (decidedStage (longRequest p) (ownedPatch a)) 0) =
        true ∧
      recordBytes (numbered (decidedStage (longRequest p) (ownedPatch a)) 0) =
        888 + Json.bytes (.str p) + 2 * Json.bytes (.str a) := by
  obtain ⟨-, -, -, hlaunch, hattempt, hhash, htime, -⟩ := bytes_texts
  have hrequest := bytes_longRequest p
  have hvalid := validResolvedRequest_longRequest h
  constructor
  · rw [validateLaunchRecord_numbered]
    simp [decidedStage, ownedPatch, creatingStage, creatingPatch, LaunchPatch.apply, requestedStage,
      Ledger.requestedRecord, hvalid, safeHash_numberedHash, validOwnership,
      validRetirementKeyHash, validError, hagent]
  · have hstate : Json.bytes (.str "owned") = 7 := by decide
    rw [recordBytes_eq]
    simp [numbered, decidedStage, ownedPatch, creatingStage, creatingPatch, LaunchPatch.apply,
      requestedStage, Ledger.requestedRecord, hlaunch, hattempt, hhash, htime, hrequest,
      LaunchState.text, hstate, optionalBytes]
    omega

theorem failed_stage :
    validateLaunchRecord (filler 0) = true ∧ recordBytes (filler 0) = 1099 := by
  obtain ⟨hlong, -, -, hlaunch, hattempt, hhash, htime, -⟩ := bytes_texts
  have hrequest := bytes_longRequest longId
  have hvalid := validResolvedRequest_longRequest safeId_longId
  have hid := safeId_longId
  have hcode : Json.byteLength (Json.quote "code") = 6 := by decide
  have herror : (LaunchError.toJson ⟨longId, false⟩).bytes = 129 := by
    rw [LaunchError.toJson, Json.bytes_obj, Json.enclosedBytes_of_ne_nil (by simp)]
    simp only [List.map_cons, List.map_nil, Json.memberBytes, hcode, hlong]
    decide
  constructor
  · rw [filler, validateLaunchRecord_numbered]
    simp [decidedStage, failedPatch, creatingStage, creatingPatch, LaunchPatch.apply,
      requestedStage, Ledger.requestedRecord, hvalid, safeHash_numberedHash, validOwnership,
      validRetirementKeyHash, validError, hid]
  · have hstate : Json.bytes (.str "failed") = 8 := by decide
    rw [recordBytes_eq]
    simp [filler, numbered, decidedStage, failedPatch, creatingStage, creatingPatch,
      LaunchPatch.apply, requestedStage, Ledger.requestedRecord, hlaunch, hattempt, hhash, htime,
      hrequest, hlong, herror, LaunchState.text, hstate, optionalBytes]
theorem separatedBytes_fillers (n : Nat) :
    Json.separatedBytes ((fillers n).map recordBytes) = n * 1100 := by
  induction n with
  | zero => rfl
  | succ n ih =>
    rw [fillers] at ih ⊢
    rw [List.range_succ, List.map_append, List.map_append, Json.separatedBytes_append, ih]
    have hlast : recordBytes (filler (n + 2)) = 1099 :=
      (recordBytes_numbered _ _ 0).trans failed_stage.2
    simp only [List.map_cons, List.map_nil, Json.separatedBytes_cons, Json.separatedBytes_nil,
      hlast]
    omega

/-- The sizes of the two owned launches. -/
theorem owned_bytes : recordBytes shrinking = 1095 ∧ recordBytes growing = 996 := by
  obtain ⟨hlong, hp, ha, -⟩ := bytes_texts
  constructor
  · rw [shrinking, (owned_stage (by decide) safeId_longId).2, hlong, hp]
  · rw [growing, recordBytes_numbered _ 1 0, (owned_stage safeId_longId (by decide)).2, hlong, ha]

theorem grown_bytes {host : LedgerHost} {compact : Bool} {records : List LaunchRecord}
    (h : host.Grown compact records) :
    (ledgerContent host.memory).bytes ≤ contentBytes (records.map recordBytes) none none := by
  have hselection : host.memory.selection (fun _ => false) = [] := by simp [Ledger.selection]
  have hunselected : host.memory.unselected (fun _ => false) = host.memory.records.values := by
    simp [Ledger.unselected]
  refine (Ledger.content_le_partialBytes host.memory).trans_eq ?_
  rw [Ledger.partialBytes_fresh h.retirements_eq h.cleanups_eq (.inl hselection)
    (by rw [hselection]; decide), hselection, hunselected, h.records_eq]
  rfl

/-- The two launches owned. -/
theorem grown_owned : ∃ host : LedgerHost, host.Grown true [shrinking, growing] := by
  obtain ⟨hlong, hp, ha, -⟩ := bytes_texts
  obtain ⟨hshrinking, -⟩ := owned_bytes
  have hfirst : ∃ host : LedgerHost, host.Grown false [shrinking] := by
    refine add_launch (b := 1099) grown_start (by decide) ?_ ⟨rfl, rfl⟩ (by decide)
    simp only [List.forall_mem_cons, List.not_mem_nil, false_implies, implies_true, and_true]
    have h₁ := requested_stage (p := "p") (by decide)
    have h₂ := creating_stage (p := "p") (by decide)
    have h₃ := owned_stage (p := "p") (by decide) safeId_longId
    refine ⟨⟨h₁.1, by decide, ?_⟩, ⟨h₂.1, by decide, ?_⟩, h₃.1, by decide, ?_⟩ <;> omega
  obtain ⟨first, hfirst⟩ := hfirst
  obtain ⟨reopened, hreopened⟩ := hfirst.reopen (by simp) ((grown_bytes hfirst).trans (by
    simp only [contentBytes, Json.enclosedBytes_eq, List.map_cons, List.map_nil,
      Json.separatedBytes_cons, Json.separatedBytes_nil, hshrinking]
    decide))
  refine add_launch (b := 1099) hreopened (by simp) ?_ ⟨rfl, rfl⟩ ?_
  · simp only [List.forall_mem_cons, List.not_mem_nil, false_implies, implies_true, and_true]
    have h₁ := requested_stage safeId_longId
    have h₂ := creating_stage safeId_longId
    have h₃ := owned_stage safeId_longId (a := "a") (by decide)
    refine ⟨⟨h₁.1, by decide, ?_⟩, ⟨h₂.1, by decide, ?_⟩, h₃.1, by decide, ?_⟩ <;> omega
  · simp only [List.map_cons, List.map_nil, Json.separatedBytes_cons, Json.separatedBytes_nil,
      hshrinking]
    decide

theorem grown_launches {n : Nat} (hn : n ≤ 907) :
    ∃ host : LedgerHost, host.Grown true (launches n) := by
  obtain ⟨hshrinking, hgrowing⟩ := owned_bytes
  obtain ⟨hlong, -⟩ := bytes_texts
  induction n with
  | zero => exact grown_owned
  | succ n ih =>
    obtain ⟨host, hhost⟩ := ih (by omega)
    have hlength : (launches n).length = n + 2 := by simp [launches, fillers]
    have hlaunches : launches (n + 1) = launches n ++ [filler (launches n).length] := by
      rw [hlength, launches, fillers, List.range_succ, List.map_append]
      rfl
    rw [hlaunches]
    refine add_launch (b := 1099) hhost (by omega) ?_ ⟨rfl, rfl⟩ ?_
    · simp only [List.forall_mem_cons, List.not_mem_nil, false_implies, implies_true, and_true]
      have h₁ := requested_stage safeId_longId
      have h₂ := creating_stage safeId_longId
      refine ⟨⟨h₁.1, by decide, ?_⟩, ⟨h₂.1, by decide, ?_⟩, failed_stage.1, by decide,
        failed_stage.2.le⟩ <;> omega
    · have hfillers := separatedBytes_fillers n
      simp only [launches, List.map_cons, Json.separatedBytes_cons, hgrowing, hshrinking, hfillers,
        maxLedgerBytes]
      omega
/-- The keys of the two retirements. -/
def growingKey : String := "ggggggggggggggggggggggggggggggggggggggggggg"

def shrinkingKey : String := "sssssssssssssssssssssssssssssssssssssssssss"

/-- A retirement key with a letter is no numbered creation key. -/
theorem numberedHash_ne {key : String} (hletter : key.toList.all Char.isDigit = false) (n : Nat) :
    numberedHash n ≠ key := by
  rintro rfl
  rw [numberedHash, IsoTime.isDigit_digits] at hletter
  cases hletter

/-- The fence of an owned launch in a ledger without tombstones. -/
theorem beginRetirement_owned (ledger : Ledger) {c : LaunchRecord} (key : String)
    (hmem : c ∈ ledger.records.values) (hstate : c.state = .owned)
    (hretirements : ledger.retirements = .empty) (hcleanups : ledger.retirementCleanups = .empty)
    (hsize : ledger.records.values.length < 1000) (hkey : safeHash key = true)
    (hapart : ∀ entry ∈ ledger.records.values,
      entry.keyHash ≠ key ∧ entry.retirementKeyHash ≠ some key)
    (hvalid : validateLaunchRecord (Ledger.retiringRecord c key 0) = true) :
    ∃ reply rollback, ledger.beginRetirement c.id key 0 =
      .persists (ledger.withRecord (Ledger.retiringRecord c key 0)) reply rollback := by
  have hget : ledger.records.get? c.id = some c := InsertionMap.get?_of_mem hmem
  have hroom : ledger.retirementCleanups.size + ledger.retiringCount < maxRetirementCleanups := by
    have hcount : ledger.retiringCount ≤ ledger.records.values.length := List.countP_le_length
    rw [hcleanups]
    exact (Nat.zero_add _).trans_lt (hcount.trans_lt hsize)
  have hfree : ¬ ledger.retirementKeyClaimed c.id key := by
    rw [Ledger.retirementKeyClaimed, hretirements]
    rintro (⟨entry, he, -, hk⟩ | ⟨entry, he, -⟩ | ⟨entry, he, hk⟩ | ⟨entry, he, -⟩)
    · exact (hapart entry he).2 hk
    · exact List.not_mem_nil he
    · exact (hapart entry he).1 hk
    · exact List.not_mem_nil he
  simp [Ledger.beginRetirement, hkey, hget, hstate, not_le.mpr hroom, hfree, hvalid]
  rfl

end LedgerHost

/-- The sizes of the selections in a ledger whose first two records may be retiring. -/
theorem Ledger.partialBytes_two {ledger : Ledger} {a b : LaunchRecord} {rest : List LaunchRecord}
    (hvalues : ledger.records.values = a :: b :: rest)
    (hretirements : ledger.retirements = .empty) (hcleanups : ledger.retirementCleanups = .empty)
    (hcompact : ledger.compactCleanupEncoding = true) (ha : a.state = .retiring)
    (hrest : ∀ record ∈ rest, record.state ≠ .retiring) :
    ledger.partialBytes (fun _ => false) =
        contentBytes ((a :: b :: rest).map recordBytes) none none ∧
      ledger.partialBytes (fun _ => true) =
        if b.state = .retiring then contentBytes (rest.map recordBytes)
          (some [retirementBytes (projectedEntry a), retirementBytes (projectedEntry b)]) none
        else contentBytes ((b :: rest).map recordBytes)
          (some [retirementBytes (projectedEntry a)]) none := by
  have hnone : rest.filter (fun record => decide (record.state = .retiring)) = [] :=
    List.filter_eq_nil_iff.mpr fun record hr => by simpa using hrest record hr
  have hall : rest.filter (fun record => !decide (record.state = .retiring)) = rest :=
    List.filter_eq_self.mpr fun record hr => by simpa using hrest record hr
  constructor
  · have hselection : ledger.selection (fun _ => false) = [] := by simp [selection]
    have hunselected : ledger.unselected (fun _ => false) = ledger.records.values := by
      simp [unselected]
    rw [partialBytes_fresh hretirements hcleanups (.inl hselection) (by rw [hselection]; decide),
      hselection, hunselected, hvalues]
    rfl
  · by_cases hb : b.state = .retiring
    · have hselection : ledger.selection (fun _ => true) = [a, b] := by
        simp [selection, retiring, hvalues, ha, hb, hnone]
      have hunselected : ledger.unselected (fun _ => true) = rest := by
        simp [unselected, hvalues, ha, hb, hall]
      rw [partialBytes_fresh hretirements hcleanups (.inr hcompact)
        (by rw [hselection]; simp [maxRetirements]), hselection, hunselected, if_pos hb]
      rfl
    · have hselection : ledger.selection (fun _ => true) = [a] := by
        simp [selection, retiring, hvalues, ha, hb, hnone]
      have hunselected : ledger.unselected (fun _ => true) = b :: rest := by
        simp [unselected, hvalues, ha, hb, hall]
      rw [partialBytes_fresh hretirements hcleanups (.inr hcompact)
        (by rw [hselection]; simp [maxRetirements]), hselection, hunselected, if_neg hb]
      rfl

namespace LedgerHost

/-- The two launches, being retired. -/
def growingFenced : LaunchRecord := Ledger.retiringRecord growing growingKey 0

def shrinkingFenced : LaunchRecord := Ledger.retiringRecord shrinking shrinkingKey 0

/-- Completion lengthens the one by 97 bytes and shortens the other by 200. -/
theorem fenced_bytes : recordBytes shrinkingFenced = 1164 ∧ recordBytes growingFenced = 1065 ∧
    retirementBytes (projectedEntry shrinkingFenced) = 964 ∧
    retirementBytes (projectedEntry growingFenced) = 1162 := by
  obtain ⟨hlong, hp, ha, hlaunch, hattempt, hhash, htime, hrisk⟩ := bytes_texts
  have hkeys : Json.bytes (.str growingKey) = 45 ∧ Json.bytes (.str shrinkingKey) = 45 := by
    decide
  have hscope : Json.bytes (.str "xxxxxxxxxxxxxxxx") = 18 := by decide
  have hstate : Json.bytes (.str "retiring") = 10 := by decide
  have hrequest := bytes_longRequest
  refine ⟨?_, ?_, ?_, ?_⟩
  · rw [recordBytes_eq]
    simp [shrinkingFenced, Ledger.retiringRecord, laterTimestamp, shrinking, numbered, decidedStage,
      ownedPatch, creatingStage, creatingPatch, LaunchPatch.apply, requestedStage,
      Ledger.requestedRecord, hlaunch, hattempt, hhash, htime, hrequest, hlong, hp, hkeys,
      LaunchState.text, hstate, optionalBytes]
  · rw [recordBytes_eq]
    simp [growingFenced, Ledger.retiringRecord, laterTimestamp, growing, numbered, decidedStage,
      ownedPatch, creatingStage, creatingPatch, LaunchPatch.apply, requestedStage,
      Ledger.requestedRecord, hlaunch, hattempt, hhash, htime, hrequest, hlong, ha, hkeys,
      LaunchState.text, hstate, optionalBytes]
  · rw [retirementBytes_eq]
    simp [projectedEntry, retirementEntry, shrinkingFenced, Ledger.retiringRecord, laterTimestamp,
      shrinking, numbered, decidedStage, ownedPatch, creatingStage, creatingPatch,
      LaunchPatch.apply, requestedStage, Ledger.requestedRecord, hlaunch, hattempt, hhash, htime, hrequest, hkeys, hp,
      optionalBytes, hscope]
    simp [longRequest, hp]
  · rw [retirementBytes_eq]
    simp [projectedEntry, retirementEntry, growingFenced, Ledger.retiringRecord, laterTimestamp,
      growing, numbered, decidedStage, ownedPatch, creatingStage, creatingPatch, LaunchPatch.apply,
      requestedStage, Ledger.requestedRecord, hlaunch, hattempt, hhash, htime, hrequest, hlong, hkeys,
      optionalBytes, hscope]
    simp [longRequest, hlong]

theorem fillers_state (n : Nat) : ∀ record ∈ fillers n, record.state ≠ .retiring := by
  intro record hr
  rw [fillers] at hr
  obtain ⟨i, -, rfl⟩ := List.mem_map.mp hr
  exact fun heq : LaunchState.failed = .retiring => by cases heq

theorem validateLaunchRecord_fenced :
    validateLaunchRecord shrinkingFenced = true ∧ validateLaunchRecord growingFenced = true := by
  have hfenced : ∀ {p a : String} {key : String} (n : Nat), safeId p = true → safeId a = true →
      safeHash key = true → validateLaunchRecord (Ledger.retiringRecord
        (numbered (decidedStage (longRequest p) (ownedPatch a)) n) key 0) = true := by
    intro p a key n hp ha hkey
    have hvalid := validResolvedRequest_longRequest hp
    have hnumbered := validateLaunchRecord_numbered
      (Ledger.retiringRecord (decidedStage (longRequest p) (ownedPatch a)) key 0) n
    refine Eq.trans ?_ (hnumbered.trans ?_)
    · rfl
    · simp [Ledger.retiringRecord, laterTimestamp, decidedStage, ownedPatch, creatingStage,
        creatingPatch, LaunchPatch.apply, requestedStage, Ledger.requestedRecord, hvalid,
        safeHash_numberedHash, validOwnership, validRetirementKeyHash, validError, ha, hkey]
  exact ⟨hfenced 0 (by decide) safeId_longId (by decide),
    hfenced 1 safeId_longId (by decide) (by decide)⟩

/-- A retirement begins where there is room for none and for all of the pending ones. -/
theorem fence {host : LedgerHost} (h : ledgerSystem.Reachable host) {c : LaunchRecord}
    {key : String} (hmem : c ∈ host.memory.records.values) (hstate : c.state = .owned)
    (hretirements : host.memory.retirements = .empty)
    (hcleanups : host.memory.retirementCleanups = .empty)
    (hsize : host.memory.records.values.length < 1000) (hkey : safeHash key = true)
    (hapart : ∀ entry ∈ host.memory.records.values,
      entry.keyHash ≠ key ∧ entry.retirementKeyHash ≠ some key)
    (hvalid : validateLaunchRecord (Ledger.retiringRecord c key 0) = true)
    (hnone : (host.memory.withRecord (Ledger.retiringRecord c key 0)).partialBytes
      (fun _ => false) ≤ maxLedgerBytes)
    (hall : (host.memory.withRecord (Ledger.retiringRecord c key 0)).partialBytes
      (fun _ => true) ≤ maxLedgerBytes) :
    ∃ host', ledgerSystem.Reachable host' ∧
      host'.memory = host.memory.withRecord (Ledger.retiringRecord c key 0) := by
  obtain ⟨_, _, hop⟩ := beginRetirement_owned host.memory key hmem hstate hretirements hcleanups
    hsize hkey hapart hvalid
  have hfresh : host.IsFresh (.beginRetirement c.id key 0) :=
    fun _ hidentity => absurd hidentity List.not_mem_nil
  obtain ⟨host', hreachable, hmemory, -⟩ := accept h hfresh hop
    (Ledger.persist_of_partialBytes ((sound_of_reachable h).next hfresh hop).1 hnone hall)
  exact ⟨host', hreachable, hmemory⟩

/-- What the proof of the two fences needs of the launches. -/
theorem fenced_shape : shrinking.state = .owned ∧ growing.state = .owned ∧
    shrinkingFenced.state = .retiring ∧ growingFenced.state = .retiring ∧
    shrinkingFenced.id = shrinking.id ∧ growingFenced.id = growing.id ∧
    shrinking.id ≠ growing.id ∧ shrinkingFenced.keyHash = numberedHash 0 ∧
    shrinkingFenced.retirementKeyHash = some shrinkingKey :=
  ⟨rfl, rfl, rfl, rfl, rfl, rfl,
    fun heq => absurd (numberedLaunch_inj (by decide) (by decide) heq) (by decide), rfl, rfl⟩

theorem keys_apart : safeHash shrinkingKey = true ∧ safeHash growingKey = true ∧
    shrinkingKey.toList.all Char.isDigit = false ∧ growingKey.toList.all Char.isDigit = false ∧
    shrinkingKey ≠ growingKey := by decide

/-- The first retirement begins: there is room for none and for it. -/
theorem exists_fenced_shrinking {n : Nat} (hn : n = 907) : ∃ host : LedgerHost, ledgerSystem.Reachable host ∧
    host.memory.records.values = shrinkingFenced :: growing :: fillers n ∧
    host.memory.retirements = .empty ∧ host.memory.retirementCleanups = .empty ∧
    host.memory.compactCleanupEncoding = true ∧
    ∀ entry ∈ host.memory.records.values,
      entry.keyHash ≠ growingKey ∧ entry.retirementKeyHash ≠ some growingKey := by
  obtain ⟨host, hhost⟩ := grown_launches hn.le
  obtain ⟨-, hgrowing⟩ := owned_bytes
  obtain ⟨hfirst, -, hentry, -⟩ := fenced_bytes
  obtain ⟨hstate, hstate', hstate₁, -, hid, -, -, hhash₁, hkey₁⟩ := fenced_shape
  obtain ⟨hkey, -, hletter, hletter', hne⟩ := keys_apart
  have hfillers := separatedBytes_fillers n
  have hrecords : host.memory.records.values = shrinking :: growing :: fillers n := hhost.records_eq
  have hapart : ∀ key : String, key.toList.all Char.isDigit = false →
      ∀ record ∈ shrinking :: growing :: fillers n,
        record.keyHash ≠ key ∧ record.retirementKeyHash ≠ some key := by
    intro key hletter record hr
    obtain ⟨i, -, hrecord⟩ := hhost.numbered record hr
    refine ⟨?_, by rw [(hhost.decided record hr).2.1]; simp⟩
    rw [hrecord]
    exact numberedHash_ne hletter i
  have hvalues : (host.memory.withRecord shrinkingFenced).records.values =
      shrinkingFenced :: growing :: fillers n := by
    change InsertionMap.upsert LaunchRecord.id shrinkingFenced host.memory.records.values = _
    rw [hrecords, InsertionMap.upsert, if_pos hid.symm]
  obtain ⟨hnone, hall⟩ := Ledger.partialBytes_two hvalues hhost.retirements_eq hhost.cleanups_eq
    hhost.encoding hstate₁ (fillers_state n)
  rw [if_neg (by rw [hstate']; simp)] at hall
  have hlength : host.memory.records.values.length < 1000 := by
    rw [hrecords, fillers, List.length_cons, List.length_cons, List.length_map, List.length_range]
    omega
  obtain ⟨host', hreachable, hmemory⟩ := fence hhost.reachable
    (by rw [hrecords]; exact List.mem_cons_self) hstate hhost.retirements_eq hhost.cleanups_eq
    hlength hkey
    (by rw [hrecords]; exact hapart shrinkingKey hletter) validateLaunchRecord_fenced.1
    (hnone.trans_le (by
      simp only [contentBytes, Json.enclosedBytes_eq, List.map_cons, Json.separatedBytes_cons,
        hfirst, hgrowing, hfillers, Option.elim_none, maxLedgerBytes]
      omega)) (hall.trans_le (by
      simp only [contentBytes, Json.enclosedBytes_eq, List.map_cons,
        Json.separatedBytes_cons, Json.separatedBytes_nil, hgrowing, hentry, hfillers,
        Option.elim_none, Option.elim_some, maxLedgerBytes]
      omega))
  refine ⟨host', hreachable, ?_⟩
  rw [hmemory]
  refine ⟨hvalues, hhost.retirements_eq, hhost.cleanups_eq, hhost.encoding, fun entry he => ?_⟩
  change entry ∈ (host.memory.withRecord shrinkingFenced).records.values at he
  rw [hvalues] at he
  rcases List.mem_cons.mp he with rfl | he
  · rw [hhash₁, hkey₁]
    exact ⟨numberedHash_ne hletter' 0, fun heq => hne (Option.some.inj heq)⟩
  · exact hapart growingKey hletter' entry (List.mem_cons_of_mem _ he)

/-- The second retirement begins: there is room for none of the two and for both. -/
theorem exists_fenced {n : Nat} (hn : n = 907) : ∃ host : LedgerHost, ledgerSystem.Reachable host ∧
    host.memory.records.values = shrinkingFenced :: growingFenced :: fillers n ∧
    host.memory.retirements = .empty := by
  obtain ⟨host, hhost, hrecords, hretirements, hcleanups, hcompact, hapart⟩ := exists_fenced_shrinking hn
  obtain ⟨hfirst, hsecond, hentry, hentry'⟩ := fenced_bytes
  obtain ⟨-, hstate, hstate₁, hstate₂, hid, hid', hne, -, -⟩ := fenced_shape
  obtain ⟨-, hkey, -⟩ := keys_apart
  have hfillers := separatedBytes_fillers n
  have hvalues : (host.memory.withRecord growingFenced).records.values =
      shrinkingFenced :: growingFenced :: fillers n := by
    change InsertionMap.upsert LaunchRecord.id growingFenced host.memory.records.values = _
    rw [hrecords, InsertionMap.upsert, if_neg (by rwa [hid, hid']), InsertionMap.upsert,
      if_pos hid'.symm]
  obtain ⟨hnone, hall⟩ := Ledger.partialBytes_two hvalues hretirements hcleanups hcompact hstate₁
    (fillers_state n)
  rw [if_pos hstate₂] at hall
  have hlength : host.memory.records.values.length < 1000 := by
    rw [hrecords, fillers, List.length_cons, List.length_cons, List.length_map, List.length_range]
    omega
  obtain ⟨host', hreachable, hmemory⟩ := fence hhost
    (by rw [hrecords]; exact List.mem_cons_of_mem _ List.mem_cons_self) hstate hretirements
    hcleanups hlength hkey hapart validateLaunchRecord_fenced.2
    (hnone.trans_le (by
      simp only [contentBytes, Json.enclosedBytes_eq, List.map_cons, Json.separatedBytes_cons,
        hfirst, hsecond, hfillers, Option.elim_none, maxLedgerBytes]
      omega)) (hall.trans_le (by
      simp only [contentBytes, Json.enclosedBytes_eq, Json.separatedBytes_cons,
        Json.separatedBytes_nil, hentry, hentry', hfillers,
        Option.elim_none, Option.elim_some, maxLedgerBytes]
      omega))
  refine ⟨host', hreachable, ?_, ?_⟩
  · rw [hmemory]
    exact hvalues
  · rw [hmemory]
    exact hretirements

/-- The longer tombstone does not fit as long as the other launch has its record. -/
theorem completed_bytes {ledger : Ledger} (hvalid : ledger.Valid) {n : Nat} (hn : n = 907)
    (hrecords : ledger.records.values = shrinkingFenced :: growingFenced :: fillers n)
    (hretirements : ledger.retirements = .empty) :
    maxLedgerBytes <
      (ledgerContent (ledger.completed growingFenced (projectedEntry growingFenced))).bytes := by
  obtain ⟨hfirst, -, -, hentry⟩ := fenced_bytes
  have hfillers := separatedBytes_fillers n
  have hmem : growingFenced ∈ ledger.records.values := by
    rw [hrecords]
    exact List.mem_cons_of_mem _ List.mem_cons_self
  have hleft : Json.separatedBytes ((ledger.completed growingFenced
      (projectedEntry growingFenced)).records.values.map recordBytes) = 1165 + n * 1100 := by
    have hperm := InsertionMap.perm_cons_delete (InsertionMap.get?_of_mem hmem)
    have hbytes := Json.separatedBytes_perm (hperm.map recordBytes)
    rw [hrecords, List.map_cons, List.map_cons, List.map_cons, Json.separatedBytes_cons,
      Json.separatedBytes_cons, Json.separatedBytes_cons, hfirst, hfillers] at hbytes
    dsimp only [Ledger.completed]
    omega
  have htombstones : (ledger.completed growingFenced
      (projectedEntry growingFenced)).retirements.values = [projectedEntry growingFenced] := by
    have hid : (projectedEntry growingFenced).launchId = growingFenced.id := rfl
    rw [Ledger.completed_retirements hvalid hmem hid, hretirements]
    rfl
  generalize ledger.completed growingFenced (projectedEntry growingFenced) = next
    at hleft htombstones
  have hsize : 0 < next.retirements.size := by
    rw [InsertionMap.size, htombstones]
    exact Nat.one_pos
  rw [LedgerDocument.bytes_eq rfl]
  simp only [ledgerContent, hsize, true_or, if_true, htombstones, contentBytes, hleft,
    Option.map_some, Option.elim_some, List.map_cons, List.map_nil, Json.enclosedBytes_eq,
    Json.separatedBytes_cons, Json.separatedBytes_nil, hentry, maxLedgerBytes]
  omega

theorem completeRetirement_tooLarge {host : LedgerHost} (hvalid : host.memory.Valid) {n : Nat}
    (hn : n = 907)
    (hrecords : host.memory.records.values = shrinkingFenced :: growingFenced :: fillers n)
    (hretirements : host.memory.retirements = .empty) :
    (host.call (.completeRetirement growingFenced.id 0 (some "xxxxxxxxxxxxxxxx")) none).2 =
      .error .contentTooLarge := by
  have hmem : growingFenced ∈ host.memory.records.values := by
    rw [hrecords]
    exact List.mem_cons_of_mem _ List.mem_cons_self
  have hget : host.memory.records.get? growingFenced.id = some growingFenced :=
    InsertionMap.get?_of_mem hmem
  obtain ⟨-, -, -, hstate, -⟩ := fenced_shape
  have hupdated : growingFenced.updatedAt = 0 := rfl
  have hscope : (some "xxxxxxxxxxxxxxxx").all safeCleanupScope = true := by decide
  have hentry : validRetirement (projectedEntry growingFenced) = true :=
    Ledger.validRetirement_entry validateLaunchRecord_fenced.2 hstate _ hscope
  have hpersist : (host.memory.completed growingFenced (projectedEntry growingFenced)).persist =
      .error .contentTooLarge := by
    rw [Ledger.persist, if_pos (completed_bytes hvalid hn hrecords hretirements)]
  rw [projectedEntry, hupdated] at hentry hpersist
  simp only [call, LedgerOp.apply, Ledger.completeRetirement, hget, hstate, hentry, ne_eq,
    not_true_eq_false, if_false, Bool.not_true, Bool.false_eq_true, hpersist]

end LedgerHost

/-- A full ledger: there is room for none and for both of its pending retirements, but not for
    one of them alone, whose completion throws. -/
theorem retirement_capacity_lost : ∃ host : LedgerHost, ledgerSystem.Reachable host ∧
    ¬ host.ExitsOpen ∧ ∃ current ∈ host.memory.records.values, current.state = .retiring ∧
      (host.call (.completeRetirement current.id 0 (some "xxxxxxxxxxxxxxxx")) none).2 =
        .error .contentTooLarge := by
  obtain ⟨host, hreachable, hrecords, hretirements⟩ := LedgerHost.exists_fenced rfl
  have hvalid := (LedgerHost.sound_of_reachable hreachable).memory_valid
  have hmem : LedgerHost.growingFenced ∈ host.memory.records.values := by
    rw [hrecords]
    exact List.mem_cons_of_mem _ List.mem_cons_self
  have hstate : LedgerHost.growingFenced.state = .retiring := rfl
  have hcall := LedgerHost.completeRetirement_tooLarge hvalid rfl hrecords hretirements
  refine ⟨host, hreachable, fun hopen => ?_, LedgerHost.growingFenced, hmem, hstate, hcall⟩
  have hexit : (LedgerOp.completeRetirement LedgerHost.growingFenced.id 0
      (some "xxxxxxxxxxxxxxxx")).ExitOf LedgerHost.growingFenced :=
    ⟨rfl, by decide, by decide⟩
  exact (hopen _ hmem hstate _ hexit none _ hcall).1 rfl

end AgentHost
