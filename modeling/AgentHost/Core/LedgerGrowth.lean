import AgentHost.Core.LedgerCapacity

namespace AgentHost

/-!
# Ledgers with many decided launches

Launches that are reserved, created and decided one after the other, under numbered identities,
so that the size of a reachable ledger is that of its records.

* `numbered` — a record under the identities of a number: neither its validity nor its size
  depends on the number.
* `LedgerHost.Grown.add` — **Main**: one more launch is decided, as long as there is room.
-/

/-! ### Numbered identities -/

def numberedLaunch (n : Nat) : String := "launch:" ++ IsoTime.digits 36 n

def numberedAttempt (n : Nat) : String := "attempt:" ++ IsoTime.digits 36 n

def numberedHash (n : Nat) : String := IsoTime.digits 43 n

/-- A record under the identities of a number. -/
def numbered (record : LaunchRecord) (n : Nat) : LaunchRecord :=
  { record with
    id := numberedLaunch n
    attemptId := numberedAttempt n
    keyHash := numberedHash n }

theorem numberedHash_inj {n m : Nat} (hn : n < 1000) (hm : m < 1000)
    (h : numberedHash n = numberedHash m) : n = m := by
  refine IsoTime.digits_inj (n := n) ?_ ?_ h
  · exact hn.trans (by decide)
  · exact hm.trans (by decide)

theorem numberedLaunch_inj {n m : Nat} (hn : n < 1000) (hm : m < 1000)
    (h : numberedLaunch n = numberedLaunch m) : n = m := by
  refine IsoTime.digits_inj (n := n) ?_ ?_ (String.append_right_inj _ |>.mp h)
  · exact hn.trans (by decide)
  · exact hm.trans (by decide)

theorem numberedAttempt_inj {n m : Nat} (hn : n < 1000) (hm : m < 1000)
    (h : numberedAttempt n = numberedAttempt m) : n = m := by
  refine IsoTime.digits_inj (n := n) ?_ ?_ (String.append_right_inj _ |>.mp h)
  · exact hn.trans (by decide)
  · exact hm.trans (by decide)

/-- A tag and digits are a tagged UUID. -/
theorem taggedUuid_digits (tag : String) (n : Nat) :
    taggedUuid tag (tag ++ IsoTime.digits 36 n) = true := by
  have hlength := (IsoTime.toList_digits 36 n).1
  have hdigits := List.all_eq_true.mp (IsoTime.isDigit_digits 36 n)
  rw [taggedUuid, String.toList_append, ← String.length_toList, List.take_left, List.drop_left]
  simp only [beq_self_eq_true, hlength, Bool.true_and, List.all_eq_true]
  intro c hc
  rw [uuidChar, hdigits c hc]
  rfl

theorem safeHash_numberedHash (n : Nat) : safeHash (numberedHash n) = true := by
  have hlength := (IsoTime.toList_digits 43 n).1
  have hdigits := List.all_eq_true.mp (IsoTime.isDigit_digits 43 n)
  simp only [safeHash, matchesClass, numberedHash, ← String.length_toList, hlength, le_refl,
    decide_true, Bool.true_and, List.all_eq_true]
  intro c hc
  simp [hashChar, Char.isAlphanum, hdigits c hc]

/-- The identities of a numbered record are valid. -/
theorem validateLaunchRecord_numbered (record : LaunchRecord) (n : Nat) :
    validateLaunchRecord (numbered record n) =
      (safeHash record.signature && validResolvedRequest record.request &&
        !decide (record.updatedAt < record.requestedAt) && validOwnership record &&
        validRetirementKeyHash record && validError record) := by
  have hlaunch : safeLaunchId (numbered record n).id = true := taggedUuid_digits "launch:" n
  have hattempt : safeAttemptId (numbered record n).attemptId = true :=
    taggedUuid_digits "attempt:" n
  have hhash : safeHash (numbered record n).keyHash = true := safeHash_numberedHash n
  rw [validateLaunchRecord, hlaunch, hattempt, hhash]
  rfl

/-- The validity of a numbered record does not depend on the number. -/
theorem validateLaunchRecord_renumbered (record : LaunchRecord) (n m : Nat) :
    validateLaunchRecord (numbered record n) = validateLaunchRecord (numbered record m) := by
  rw [validateLaunchRecord_numbered, validateLaunchRecord_numbered]

theorem plain_append_digits {t : String} (ht : t.toList.all Json.plainChar = true)
    (width n : Nat) :
    Json.bytes (.str (t ++ IsoTime.digits width n)) = t.length + width + 2 := by
  obtain ⟨hlength, hdigits⟩ := IsoTime.toList_digits width n
  have hplain : (t ++ IsoTime.digits width n).toList.all Json.plainChar = true := by
    rw [String.toList_append, List.all_append, ht, Bool.true_and]
    exact List.all_eq_true.mpr fun c hc =>
      IsoTime.plainChar_of_isoChar (List.all_eq_true.mp hdigits c hc)
  rw [Json.bytes_str hplain, String.length_append, ← String.length_toList (s := IsoTime.digits _ _),
    hlength]

/-- Nor does its size. -/
theorem recordBytes_numbered (record : LaunchRecord) (n m : Nat) :
    recordBytes (numbered record n) = recordBytes (numbered record m) := by
  have hlaunch := fun k => plain_append_digits (t := "launch:") (by decide) 36 k
  have hattempt := fun k => plain_append_digits (t := "attempt:") (by decide) 36 k
  have hhash : ∀ k, Json.bytes (.str (numberedHash k)) = 45 := fun k => by
    have h := plain_append_digits (t := "") (by decide) 43 k
    rwa [String.empty_append] at h
  unfold recordBytes LaunchRecord.toJson
  rw [Json.bytes_obj, Json.bytes_obj]
  simp only [numbered, numberedLaunch, numberedAttempt, List.map_append, List.map_cons,
    List.map_nil, Json.memberBytes, hlaunch, hattempt, hhash]

/-! ### One launch after the other -/

/-- The records of a launch: requested, then creating, then as a patch decides. -/
def requestedStage (request : LaunchRequest) : LaunchRecord :=
  Ledger.requestedRecord "" "" "" (numberedHash 0) request 0

def creatingPatch : LaunchPatch := { state := some .creating, error := some none }

def creatingStage (request : LaunchRequest) : LaunchRecord :=
  creatingPatch.apply (requestedStage request) 0

def decidedStage (request : LaunchRequest) (patch : LaunchPatch) : LaunchRecord :=
  patch.apply (creatingStage request) 0

/-- A ledger with one more record, or one in the place of another. -/
def Ledger.withRecord (ledger : Ledger) (record : LaunchRecord) : Ledger :=
  { ledger with records := ledger.records.set record }

/-- Without tombstones and cleanups, a selection leaves records and the selection's tombstones;
    in the compact encoding no cleanups. -/
theorem Ledger.partialBytes_fresh {ledger : Ledger} (hretirements : ledger.retirements = .empty)
    (hcleanups : ledger.retirementCleanups = .empty) {selected : String → Bool}
    (hcompact : ledger.selection selected = [] ∨ ledger.compactCleanupEncoding = true)
    (hfew : (ledger.selection selected).length ≤ maxRetirements) :
    ledger.partialBytes selected = contentBytes ((ledger.unselected selected).map recordBytes)
      (if 0 < (ledger.selection selected).length then
        some (((ledger.selection selected).map projectedEntry).map retirementBytes) else none)
      none := by
  have hlists : ledger.listsRetirements selected ↔ 0 < (ledger.selection selected).length := by
    rw [listsRetirements, hretirements, hcleanups]
    simp [InsertionMap.size]
  have hwrites : ¬ (0 < (ledger.selection selected).length ∧
      ledger.writesCleanups ((ledger.selection selected).map projectedEntry).length) := by
    rw [writesCleanups, hretirements, hcleanups, List.length_map]
    rintro ⟨hsome, hexplicit | hmatch | hdropped⟩
    · rcases hcompact with hnone | hcompact
      · rw [hnone] at hsome
        cases hsome
      · rw [hcompact] at hexplicit
        cases hexplicit
    · exact absurd hmatch (by decide)
    · exact absurd ((Nat.zero_add _).trans_le hfew) (not_le.mpr hdropped)
  simp only [partialBytes, hlists, hwrites, if_false, hretirements, InsertionMap.values_empty,
    List.nil_append]

namespace LedgerHost

variable {host : LedgerHost}

/-- A reachable ledger in an encoding, with decided launches numbered in their order and nothing
    else. -/
structure Grown (host : LedgerHost) (compact : Bool) (records : List LaunchRecord) : Prop where
  reachable : ledgerSystem.Reachable host
  records_eq : host.memory.records.values = records
  retirements_eq : host.memory.retirements = .empty
  cleanups_eq : host.memory.retirementCleanups = .empty
  encoding : host.memory.compactCleanupEncoding = compact
  file : records ≠ [] → host.disk.file = some (ledgerContent host.memory)
  issued : ∀ identity ∈ host.issued, ∃ i < records.length,
    identity = (numberedLaunch i, numberedAttempt i)
  numbered : ∀ record ∈ records, ∃ i < records.length, record = numbered record i
  decided : ∀ record ∈ records, record.pending = false ∧ record.retirementKeyHash = none ∧
    record.state ≠ .retiring

/-- An operation whose ledger passes the size checks is a step of a run. -/
theorem accept {op : LedgerOp} {next rollback : Ledger} {reply : LedgerReply}
    (h : ledgerSystem.Reachable host) (hfresh : host.IsFresh op)
    (hop : op.apply host.memory = .persists next reply rollback)
    (hpersist : next.persist.isOk = true) :
    ∃ host', ledgerSystem.Reachable host' ∧ host'.memory = next ∧
      host'.issued = host.issued ++ op.identities ∧
      host'.disk.file = some (ledgerContent next) := by
  have hstep : ledgerSystem.step host (.call op none) = some ((host.call op none).1.issue op) :=
    if_pos hfresh
  refine ⟨_, h.next hstep, ?_⟩
  have hcalled := call_called host op none
  generalize (host.call op none).1 = after, (host.call op none).2 = result at hcalled
  cases hcalled with
  | threw hthrows => rw [hop] at hthrows; cases hthrows
  | returned hreturns => rw [hop] at hreturns; cases hreturns
  | refused hop' hrefused =>
    obtain ⟨rfl, rfl, rfl⟩ := LedgerOutcome.persists.inj (hop.symm.trans hop')
    rw [hrefused] at hpersist
    cases hpersist
  | wrote hop' hdocument _ hfile =>
    obtain ⟨rfl, rfl, rfl⟩ := LedgerOutcome.persists.inj (hop.symm.trans hop')
    obtain ⟨rfl, -, -⟩ := persist_ok hdocument
    exact ⟨rfl, rfl, hfile⟩
  | failed _ _ hfault => cases hfault

/-- An operation that asks to write a ledger of records, none of them retiring, for which there
    is room. -/
theorem accept_records {op : LedgerOp} {next rollback : Ledger} {reply : LedgerReply}
    (h : ledgerSystem.Reachable host) (hfresh : host.IsFresh op)
    (hop : op.apply host.memory = .persists next reply rollback)
    (hretirements : next.retirements = .empty) (hcleanups : next.retirementCleanups = .empty)
    (hretiring : next.retiring = [])
    (hroom : contentBytes (next.records.values.map recordBytes) none none ≤ maxLedgerBytes) :
    ∃ host', ledgerSystem.Reachable host' ∧ host'.memory = next ∧
      host'.issued = host.issued ++ op.identities ∧
      host'.disk.file = some (ledgerContent next) := by
  have hsound := sound_of_reachable h
  have hselected : ∀ selected, next.partialBytes selected ≤ maxLedgerBytes := by
    intro selected
    have hselection : next.selection selected = [] := by rw [Ledger.selection, hretiring]; rfl
    have hunselected : next.unselected selected = next.records.values := by
      refine List.filter_eq_self.mpr fun record hr => ?_
      have hstate : record.state ≠ .retiring := fun hs =>
        List.not_mem_nil (hretiring ▸ Ledger.mem_retiring.mpr ⟨hr, hs⟩)
      simp [hstate]
    rw [Ledger.partialBytes_fresh hretirements hcleanups (.inl hselection) (by rw [hselection]; decide),
      hselection, hunselected]
    exact hroom
  exact accept h hfresh hop
    (Ledger.persist_of_partialBytes (hsound.next hfresh hop).1 (hselected _) (hselected _))

section Growing

variable {compact : Bool} {records : List LaunchRecord} (h : host.Grown compact records)

include h

/-- A decided launch among others has an identity that is not the next one. -/
theorem Grown.apart (hsize : records.length < 1000) {record : LaunchRecord}
    (hr : record ∈ records) : record.id ≠ numberedLaunch records.length ∧
      record.keyHash ≠ numberedHash records.length := by
  obtain ⟨i, hi, hrecord⟩ := h.numbered record hr
  rw [hrecord]
  exact ⟨fun heq => hi.ne (numberedLaunch_inj (hi.trans hsize) hsize heq),
    fun heq => hi.ne (numberedHash_inj (hi.trans hsize) hsize heq)⟩

theorem Grown.pending : host.memory.records.values.countP LaunchRecord.pending = 0 := by
  rw [h.records_eq, List.countP_eq_zero]
  exact fun record hr => by simp [(h.decided record hr).1]

/-- The next launch is reserved. -/
theorem Grown.reserve (hsize : records.length < 1000) {request : LaunchRequest}
    (hvalid : validateLaunchRecord (AgentHost.numbered (requestedStage request) 0) = true) :
    ∃ reply rollback, host.memory.reserve (numberedLaunch records.length)
        (numberedAttempt records.length) (numberedHash records.length) (numberedHash 0) request 0 =
      .persists (host.memory.withRecord
        (AgentHost.numbered (requestedStage request) records.length)) reply rollback := by
  have hkey : host.memory.findByKeyHash (numberedHash records.length) = none := by
    rw [Ledger.findByKeyHash, h.records_eq, List.find?_eq_none]
    exact fun record hr => by simpa using (h.apart hsize hr).2
  have hretirementKey : host.memory.findByRetirementKeyHash (numberedHash records.length) =
      none := by
    rw [Ledger.findByRetirementKeyHash, h.records_eq, List.find?_eq_none]
    exact fun record hr => by simp [(h.decided record hr).2.1]
  have hlength : host.memory.records.size < maxRecords := by
    rw [InsertionMap.size, h.records_eq]
    exact hsize
  rw [validateLaunchRecord_renumbered _ 0 records.length] at hvalid
  have hstage : Ledger.requestedRecord (numberedLaunch records.length)
      (numberedAttempt records.length) (numberedHash records.length) (numberedHash 0) request 0 =
        AgentHost.numbered (requestedStage request) records.length := rfl
  have hcreated : host.memory.findRetirementByCreationKeyHash (numberedHash records.length) =
      none := by
    rw [Ledger.findRetirementByCreationKeyHash, h.retirements_eq]
    rfl
  have hretired : host.memory.findRetirementByKeyHash (numberedHash records.length) = none := by
    rw [Ledger.findRetirementByKeyHash, h.retirements_eq]
    rfl
  simp only [Ledger.reserve, hkey, hcreated, hretirementKey, hretired, h.pending, hstage, hvalid,
    not_le.mpr hlength]
  exact ⟨_, _, rfl⟩

/-- The next identities are fresh. -/
theorem Grown.fresh (hsize : records.length < 1000) (request : LaunchRequest) :
    host.IsFresh (.reserve (numberedLaunch records.length) (numberedAttempt records.length)
      (numberedHash records.length) (numberedHash 0) request 0) := by
  intro identity hidentity old hold
  obtain rfl := List.mem_singleton.mp hidentity
  obtain ⟨i, hi, rfl⟩ := h.issued old hold
  exact ⟨fun heq => hi.ne' (numberedLaunch_inj hsize (hi.trans hsize) heq),
    fun heq => hi.ne' (numberedAttempt_inj hsize (hi.trans hsize) heq)⟩

end Growing

/-- A record in place of the last one. -/
theorem transition_last (ledger : Ledger) {r : LaunchRecord} (patch : LaunchPatch)
    (hvalid : validateLaunchRecord (patch.apply r 0) = true) :
    ∃ reply rollback, (ledger.withRecord r).transition r.id [r.state] patch 0 =
      .persists (ledger.withRecord (patch.apply r 0)) reply rollback := by
  have hget : (ledger.withRecord r).records.get? r.id = some r := by
    rw [Ledger.withRecord, InsertionMap.get?_set, if_pos rfl]
  have hset : (ledger.withRecord r).records.set (patch.apply r 0) =
      ledger.records.set (patch.apply r 0) := InsertionMap.set_set rfl
  simp only [Ledger.transition, hget, List.mem_singleton, not_true_eq_false, if_false, hvalid,
    hset]
  exact ⟨_, _, rfl⟩

section Stages

variable {compact : Bool} {records : List LaunchRecord} (h : host.Grown compact records) (hsize : records.length < 1000)
  {stage : LaunchRecord}

include h hsize

/-- With the next launch in a stage the ledger has no retiring record, and room. -/
theorem Grown.atStage (hstate : stage.state ≠ .retiring)
    (hroom : contentBytes ((records ++ [AgentHost.numbered stage 0]).map recordBytes) none none ≤
      maxLedgerBytes) :
    (host.memory.withRecord (AgentHost.numbered stage records.length)).records.values =
        records ++ [AgentHost.numbered stage records.length] ∧
      (host.memory.withRecord (AgentHost.numbered stage records.length)).retiring = [] ∧
      contentBytes ((host.memory.withRecord
        (AgentHost.numbered stage records.length)).records.values.map recordBytes) none none ≤
          maxLedgerBytes := by
  have hnone : host.memory.records.get? (AgentHost.numbered stage records.length).id = none := by
    refine InsertionMap.get?_eq_none_iff.mpr fun record hr => ?_
    exact (h.apart hsize (h.records_eq ▸ hr)).1
  have hvalues : (host.memory.withRecord (AgentHost.numbered stage records.length)).records.values =
      records ++ [AgentHost.numbered stage records.length] := by
    rw [Ledger.withRecord, InsertionMap.values_set_of_get?_none hnone, h.records_eq]
  refine ⟨hvalues, ?_, ?_⟩
  · rw [Ledger.retiring, hvalues, List.filter_eq_nil_iff]
    intro record hr
    rcases List.mem_append.mp hr with hr | hr
    · simpa using (h.decided record hr).2.2
    · obtain rfl := List.mem_singleton.mp hr
      exact fun heq => hstate (of_decide_eq_true heq)
  · rw [hvalues]
    simpa only [List.map_append, List.map_cons, List.map_nil,
      recordBytes_numbered stage records.length 0] using hroom

/-- The next launch moves to its next stage. -/
theorem Grown.move {host₁ : LedgerHost} (hreachable : ledgerSystem.Reachable host₁)
    (hmemory : host₁.memory =
      host.memory.withRecord (AgentHost.numbered stage records.length)) (patch : LaunchPatch)
    (hvalid : validateLaunchRecord (AgentHost.numbered (patch.apply stage 0) 0) = true)
    (hstate : (patch.apply stage 0).state ≠ .retiring)
    (hroom : contentBytes ((records ++ [AgentHost.numbered (patch.apply stage 0) 0]).map
      recordBytes) none none ≤ maxLedgerBytes) :
    ∃ host₂, ledgerSystem.Reachable host₂ ∧ host₂.issued = host₁.issued ∧
      host₂.memory =
        host.memory.withRecord (AgentHost.numbered (patch.apply stage 0) records.length) ∧
      host₂.disk.file = some (ledgerContent host₂.memory) := by
  rw [validateLaunchRecord_renumbered _ 0 records.length] at hvalid
  obtain ⟨reply, rollback, hop⟩ := transition_last (r := AgentHost.numbered stage records.length)
    host.memory patch hvalid
  have happly : (LedgerOp.transition (numberedLaunch records.length) [stage.state] patch 0).apply
      host₁.memory = .persists (host.memory.withRecord
        (AgentHost.numbered (patch.apply stage 0) records.length)) reply rollback := by
    rw [hmemory]
    exact hop
  obtain ⟨-, hretiring, hbytes⟩ := h.atStage hsize hstate hroom
  obtain ⟨host₂, hreachable₂, hmemory₂, hissued₂, hfile₂⟩ := accept_records hreachable
    (fun _ hnone => absurd hnone List.not_mem_nil) happly h.retirements_eq h.cleanups_eq
    hretiring hbytes
  exact ⟨host₂, hreachable₂, by simpa [LedgerOp.identities] using hissued₂, hmemory₂,
    hmemory₂ ▸ hfile₂⟩

/-- **Main**: one more launch is reserved, created and decided, as long as there is room for each
    of its stages. -/
theorem Grown.add {request : LaunchRequest} {patch : LaunchPatch}
    (hstages : ∀ stage ∈ [requestedStage request, creatingStage request,
        decidedStage request patch],
      validateLaunchRecord (AgentHost.numbered stage 0) = true ∧ stage.state ≠ .retiring ∧
        contentBytes ((records ++ [AgentHost.numbered stage 0]).map recordBytes) none none ≤
          maxLedgerBytes)
    (hdecided : (decidedStage request patch).pending = false ∧
      (decidedStage request patch).retirementKeyHash = none) :
    ∃ host' : LedgerHost, host'.Grown compact
      (records ++ [AgentHost.numbered (decidedStage request patch) records.length]) := by
  simp only [List.forall_mem_cons, List.not_mem_nil, false_implies, implies_true, and_true]
    at hstages
  obtain ⟨⟨hvalid₁, hstate₁, hroom₁⟩, ⟨hvalid₂, hstate₂, hroom₂⟩, hvalid₃, hstate₃, hroom₃⟩ :=
    hstages
  -- reserved, creating, decided
  obtain ⟨reply, rollback, hop⟩ := h.reserve hsize hvalid₁
  obtain ⟨-, hretiring₁, hbytes₁⟩ := h.atStage hsize hstate₁ hroom₁
  obtain ⟨host₁, hreachable₁, hmemory₁, hissued₁, -⟩ := accept_records h.reachable
    (h.fresh hsize request) hop h.retirements_eq h.cleanups_eq hretiring₁ hbytes₁
  obtain ⟨host₂, hreachable₂, hissued₂, hmemory₂, -⟩ := h.move hsize hreachable₁ hmemory₁
    creatingPatch hvalid₂ hstate₂ hroom₂
  obtain ⟨host₃, hreachable₃, hissued₃, hmemory₃, hfile₃⟩ := h.move hsize hreachable₂ hmemory₂ patch
    hvalid₃ hstate₃ hroom₃
  obtain ⟨hvalues, -, -⟩ := h.atStage hsize hstate₃ hroom₃
  have hlength : (records ++ [AgentHost.numbered (decidedStage request patch)
      records.length]).length = records.length + 1 := List.length_append
  refine ⟨host₃, hreachable₃, hmemory₃ ▸ hvalues, hmemory₃ ▸ h.retirements_eq,
    hmemory₃ ▸ h.cleanups_eq, hmemory₃ ▸ h.encoding, fun _ => hfile₃, ?_, ?_, ?_⟩
  · intro identity hidentity
    rw [hissued₃, hissued₂, hissued₁, List.mem_append] at hidentity
    rw [hlength]
    rcases hidentity with hold | hnew
    · obtain ⟨i, hi, heq⟩ := h.issued identity hold
      exact ⟨i, hi.trans (Nat.lt_succ_self _), heq⟩
    · exact ⟨records.length, Nat.lt_succ_self _, List.mem_singleton.mp hnew⟩
  · intro record hr
    rw [hlength]
    rcases List.mem_append.mp hr with hr | hr
    · obtain ⟨i, hi, heq⟩ := h.numbered record hr
      exact ⟨i, hi.trans (Nat.lt_succ_self _), heq⟩
    · obtain rfl := List.mem_singleton.mp hr
      exact ⟨records.length, Nat.lt_succ_self _, rfl⟩
  · intro record hr
    rcases List.mem_append.mp hr with hr | hr
    · exact h.decided record hr
    · obtain rfl := List.mem_singleton.mp hr
      exact ⟨hdecided.1, hdecided.2, hstate₃⟩

end Stages

theorem grown_start : start.Grown false [] where
  reachable := .ofInit rfl
  records_eq := rfl
  retirements_eq := rfl
  cleanups_eq := rfl
  encoding := rfl
  file := fun hnil => absurd rfl hnil
  issued := fun _ hidentity => absurd hidentity List.not_mem_nil
  numbered := fun _ hr => absurd hr List.not_mem_nil
  decided := fun _ hr => absurd hr List.not_mem_nil

/-- Reopened, the ledger is in the compact encoding. -/
theorem Grown.reopen {compact : Bool} {records : List LaunchRecord}
    (h : host.Grown compact records) (hne : records ≠ [])
    (hbytes : (ledgerContent host.memory).bytes ≤ maxLedgerBytes) :
    ∃ host' : LedgerHost, host'.Grown true records := by
  obtain ⟨opened, hopen, hrecords, hretirements, hcleanups, -⟩ :=
    Ledger.openDocument_ledgerContent (sound_of_reachable h.reachable).memory_valid hbytes
  have hstep : ledgerSystem.step host .reopen = some { host with memory := opened } := by
    change host.reopen = _
    simp only [LedgerHost.reopen, h.file hne, hopen]
  have hempty : opened.retirementCleanups = .empty := by
    rw [h.cleanups_eq] at hcleanups
    exact InsertionMap.ext hcleanups.eq_nil
  have hcompact : opened.compactCleanupEncoding = true := by
    have hnot : ¬ (0 < host.memory.retirements.size ∨ 0 < host.memory.retirementCleanups.size) := by
      rw [h.retirements_eq, h.cleanups_eq]
      decide
    rw [openDocument_eq hopen]
    simp only [ledgerContent, hnot, false_and, if_false, Option.isNone_none, Bool.and_true,
      Bool.not_eq_true']
    rfl
  have hsame : ledgerContent opened = ledgerContent host.memory := by
    simp [ledgerContent, hrecords, hretirements, hempty, h.retirements_eq, h.cleanups_eq,
      InsertionMap.size]
  exact ⟨_, h.reachable.next hstep, hrecords ▸ h.records_eq, hretirements ▸ h.retirements_eq, hempty,
    hcompact, fun _ => (h.file hne).trans (congrArg some hsame.symm), h.issued, h.numbered,
    h.decided⟩

end LedgerHost

end AgentHost
