import Mathlib
import AgentHost.Core.LedgerRuns
import AgentHost.Core.LedgerSize

namespace AgentHost

/-!
# Room for the pending retirements

`#persist` reserves room for the document after all pending retirements complete.  On the way
there only some of them have completed, and their document may be larger: a tombstone can be
longer than its record, and shorter than another's.

* `Ledger.partialBytes` — a bound for the document after a selection of the pending
  retirements completes.
* `Ledger.ReservesEveryPart` — every selection fits, not only all of them.
* `Ledger.ReservesEveryPart.exit` — **Main**: then both exits of every retiring record pass the
  size checks, and every selection fits again.
-/

/-! ### Contents compared -/

/-- An optional list of entries that takes no more room than another. -/
def NoLarger (ws vs : Option (List Nat)) : Prop :=
  ∀ w ∈ ws, ∃ v ∈ vs, Json.separatedBytes w ≤ Json.separatedBytes v

theorem contentBytes_mono {records records' : List Nat}
    {retirements retirements' cleanups cleanups' : Option (List Nat)}
    (hrecords : Json.separatedBytes records ≤ Json.separatedBytes records')
    (hretirements : NoLarger retirements retirements') (hcleanups : NoLarger cleanups cleanups') :
    contentBytes records retirements cleanups ≤ contentBytes records' retirements' cleanups' := by
  have hoption : ∀ {ws vs : Option (List Nat)} (header : Nat), NoLarger ws vs →
      ws.elim 0 (fun w => header + Json.enclosedBytes w) ≤
        vs.elim 0 (fun v => header + Json.enclosedBytes v) := by
    intro ws vs header h
    cases ws with
    | none => exact Nat.zero_le _
    | some w =>
      obtain ⟨v, hv, hle⟩ := h w rfl
      rw [Option.mem_def.mp hv]
      exact Nat.add_le_add_left (Json.enclosedBytes_mono hle) header
  have h₁ := Json.enclosedBytes_mono hrecords
  have h₂ := hoption 15 hretirements
  have h₃ := hoption 22 hcleanups
  simp only [contentBytes]
  omega

theorem NoLarger.ite {p q : Prop} [Decidable p] [Decidable q] {ws vs : List Nat} (hpq : p → q)
    (hle : p → Json.separatedBytes ws ≤ Json.separatedBytes vs) :
    NoLarger (if p then some ws else none) (if q then some vs else none) := by
  intro w hw
  by_cases hp : p
  · rw [if_pos hp] at hw
    obtain rfl := Option.mem_some_iff.mp hw
    exact ⟨vs, by rw [if_pos (hpq hp)]; rfl, hle hp⟩
  · rw [if_neg hp] at hw
    cases hw

/-! ### The bytes of one entry -/

theorem bytes_safe {cls : Char → Bool} {low high : Nat} {s : String}
    (hcls : ∀ c, cls c = true → Json.plainChar c = true) (h : matchesClass cls low high s = true) :
    Json.bytes (.str s) = s.length + 2 := by
  simp only [matchesClass, Bool.and_eq_true, List.all_eq_true] at h
  exact Json.bytes_str (List.all_eq_true.mpr fun c hc => hcls c (h.2 c hc))

theorem plainChar_of_hashChar (c : Char) (h : hashChar c = true) : Json.plainChar c = true := by
  simp only [hashChar, Char.isAlphanum, Char.isAlpha, Char.isUpper, Char.isLower, Char.isDigit,
    Bool.or_eq_true, Bool.and_eq_true, decide_eq_true_eq, ge_iff_le, UInt32.le_iff_toNat_le,
    Char.reduceVal, UInt32.reduceToNat] at h
  simp only [Json.plainChar, Bool.and_eq_true, decide_eq_true_eq, Char.toNat, ne_eq] at h ⊢
  omega

/-- Every scope of a cleanup is as long as the one the projection writes. -/
theorem bytes_safeCleanupScope {scope : String} (h : safeCleanupScope scope = true) :
    Json.bytes (.str scope) = 18 := by
  have hlength : scope.length = 16 := by
    simp only [safeCleanupScope, matchesClass, Bool.and_eq_true, decide_eq_true_eq] at h
    omega
  rw [bytes_safe plainChar_of_hashChar h, hlength]

theorem safeCleanupScope_projected : safeCleanupScope "xxxxxxxxxxxxxxxx" = true := by decide

theorem optionalMember_scope_le {scope : Option String} (h : scope.all safeCleanupScope = true) :
    Json.separatedBytes ((optionalMember "cleanupScope" .str scope).map Json.memberBytes) ≤
      Json.separatedBytes ((optionalMember "cleanupScope" .str (some "xxxxxxxxxxxxxxxx")).map
        Json.memberBytes) := by
  cases scope with
  | none => exact Nat.zero_le _
  | some value =>
    have hvalue := bytes_safeCleanupScope (by simpa using h)
    have hprojected := bytes_safeCleanupScope safeCleanupScope_projected
    simp only [optionalMember, List.map_cons, List.map_nil, Json.memberBytes, hvalue, hprojected]
    exact le_rfl

/-- A reading of a four-digit year never makes a stamp longer. -/
theorem bytes_laterTimestamp (previous : Timestamp) {now : Timestamp} (hnow : FourDigitYear now) :
    Json.bytes (.str (IsoTime.toISOString (laterTimestamp previous now))) ≤
      Json.bytes (.str (IsoTime.toISOString previous)) := by
  unfold laterTimestamp
  split
  · exact le_rfl
  · rw [hnow.bytes, IsoTime.bytes_toISOString]
    split <;> omega

/-- The tombstone a retirement completes with is no longer than the projected one. -/
theorem retirementBytes_le (current : LaunchRecord) {now : Timestamp} {scope : Option String}
    (hnow : FourDigitYear now) (hscope : scope.all safeCleanupScope = true) :
    retirementBytes (retirementEntry current now scope) ≤
      retirementBytes (projectedEntry current) := by
  have htime := bytes_laterTimestamp current.updatedAt hnow
  have hmember := optionalMember_scope_le hscope
  unfold retirementBytes Retirement.toJson
  rw [Json.bytes_obj, Json.bytes_obj]
  refine Json.enclosedBytes_mono ?_
  simp only [List.map_append, Json.separatedBytes_append, List.map_cons, List.map_nil,
    Json.separatedBytes_cons, Json.separatedBytes_nil, Json.memberBytes, projectedEntry,
    retirementEntry, laterTimestamp_self] at hmember ⊢
  omega

/-- A cleanup is no longer than the projected one. -/
theorem cleanupBytes_le (current : LaunchRecord) (now : Timestamp) {scope : Option String}
    (hscope : scope.all safeCleanupScope = true) :
    cleanupBytes (retirementCleanup (retirementEntry current now scope)) ≤
      cleanupBytes (retirementCleanup (projectedEntry current)) := by
  have hmember := optionalMember_scope_le hscope
  unfold cleanupBytes RetirementCleanup.toJson
  rw [Json.bytes_obj, Json.bytes_obj]
  refine Json.enclosedBytes_mono ?_
  simp only [List.map_append, Json.separatedBytes_append, List.map_cons, List.map_nil,
    Json.separatedBytes_cons, Json.separatedBytes_nil, Json.memberBytes, projectedEntry,
    retirementEntry, retirementCleanup] at hmember ⊢
  omega

/-- A record whose retirement is cancelled is no longer than before. -/
theorem recordBytes_restored_le {current : LaunchRecord} (hstate : current.state = .retiring)
    {now : Timestamp} (hnow : FourDigitYear now) :
    recordBytes (Ledger.restoredRecord current now) ≤ recordBytes current := by
  have htime := bytes_laterTimestamp current.updatedAt hnow
  have hstates : Json.bytes (.str "owned") ≤ Json.bytes (.str "retiring") := by decide
  unfold recordBytes LaunchRecord.toJson
  rw [Json.bytes_obj, Json.bytes_obj]
  refine Json.enclosedBytes_mono ?_
  simp only [List.map_append, Json.separatedBytes_append, List.map_cons, List.map_nil,
    Json.separatedBytes_cons, Json.separatedBytes_nil, Json.memberBytes, Ledger.restoredRecord,
    hstate, LaunchState.text, optionalMember]
  omega

/-! ### Part of the pending retirements completes -/

namespace Ledger

/-- The retiring records of a selection. -/
def selection (ledger : Ledger) (selected : String → Bool) : List LaunchRecord :=
  ledger.retiring.filter (fun record => selected record.id)

/-- The records outside a selection. -/
def unselected (ledger : Ledger) (selected : String → Bool) : List LaunchRecord :=
  ledger.records.values.filter
    (fun record => !(decide (record.state = .retiring) && selected record.id))

/-- The cleanups are or may come to be written out: the encoding is explicit, the cleanups do
    not match the tombstones, or so many completions drop a tombstone. -/
def writesCleanups (ledger : Ledger) (completions : Nat) : Prop :=
  ledger.compactCleanupEncoding = false ∨
    cleanupsExactlyMatchScopedRetirements ledger.retirements ledger.retirementCleanups = false ∨
    maxRetirements < ledger.retirements.size + completions

instance (ledger : Ledger) (completions : Nat) : Decidable (ledger.writesCleanups completions) := by
  unfold writesCleanups
  infer_instance

/-- The document lists its tombstones. -/
def listsRetirements (ledger : Ledger) (selected : String → Bool) : Prop :=
  0 < ledger.retirements.size ∨ 0 < ledger.retirementCleanups.size ∨
    0 < (ledger.selection selected).length

instance (ledger : Ledger) (selected : String → Bool) :
    Decidable (ledger.listsRetirements selected) := by
  unfold listsRetirements
  infer_instance

/-- The bytes of the document after a selection of the pending retirements completes with the
    longest tombstones: the unselected records, every tombstone, and the cleanups where they may
    be written out. -/
def partialBytes (ledger : Ledger) (selected : String → Bool) : Nat :=
  let entries := (ledger.selection selected).map projectedEntry
  contentBytes ((ledger.unselected selected).map recordBytes)
    (if ledger.listsRetirements selected then
      some ((ledger.retirements.values ++ entries).map retirementBytes) else none)
    (if ledger.listsRetirements selected ∧ ledger.writesCleanups entries.length then
      some ((ledger.retirementCleanups.values ++ entries.map retirementCleanup).map cleanupBytes)
      else none)

/-- Every selection of the pending retirements has room, not only all of them. -/
def ReservesEveryPart (ledger : Ledger) : Prop :=
  ∀ selected, ledger.partialBytes selected ≤ maxLedgerBytes

variable {ledger : Ledger}

theorem mem_retiring {record : LaunchRecord} :
    record ∈ ledger.retiring ↔ record ∈ ledger.records.values ∧ record.state = .retiring := by
  simp [retiring]

/-- The cleanups match the scoped tombstones exactly where these imply them. -/
theorem cleanupsExactlyMatch_iff (retirements : InsertionMap Retirement.launchId)
    (cleanups : InsertionMap RetirementCleanup.launchId) :
    cleanupsExactlyMatchScopedRetirements retirements cleanups = true ↔
      ((scopedRetirements retirements.values).map retirementCleanup).Perm cleanups.values := by
  constructor
  · intro hmatch
    exact cleanups_perm_of_match ⟨.empty, retirements, cleanups, true⟩ hmatch
  · intro hperm
    have hlength := hperm.length_eq
    rw [List.length_map] at hlength
    simp only [cleanupsExactlyMatchScopedRetirements, Bool.and_eq_true, beq_iff_eq,
      List.all_eq_true]
    refine ⟨hlength, fun entry he => ?_⟩
    have hmem := hperm.mem_iff.mp (List.mem_map_of_mem he)
    have hget : cleanups.get? entry.launchId = some (retirementCleanup entry) :=
      InsertionMap.get?_of_mem hmem
    simp [hget, cleanupMatchesRetirement]

theorem writesCleanups_of_explicit (h : (!ledger.compactCleanupEncoding ||
    !cleanupsExactlyMatchScopedRetirements ledger.retirements ledger.retirementCleanups) = true)
    (completions : Nat) : ledger.writesCleanups completions := by
  rw [Bool.or_eq_true, Bool.not_eq_true', Bool.not_eq_true'] at h
  exact h.imp_right .inl

/-- The content of a ledger is bounded by the empty selection's. -/
theorem content_le_partialBytes (ledger : Ledger) :
    (ledgerContent ledger).bytes ≤ ledger.partialBytes fun _ => false := by
  have hnone : ledger.selection (fun _ => false) = [] := by simp [selection]
  have hall : ledger.unselected (fun _ => false) = ledger.records.values := by simp [unselected]
  rw [LedgerDocument.bytes_eq rfl, partialBytes, hall, hnone]
  simp only [ledgerContent, List.map_nil, List.append_nil, List.length_nil, Option.map_if]
  refine contentBytes_mono le_rfl (NoLarger.ite (fun hp => ?_) fun _ => le_rfl)
    (NoLarger.ite (fun hp => ⟨?_, ?_⟩) fun _ => le_rfl)
  · exact hp.imp id .inl
  · exact hp.1.imp id .inl
  · exact writesCleanups_of_explicit hp.2 0

/-- Only which retiring records are selected counts. -/
theorem partialBytes_congr {selected other : String → Bool}
    (h : ∀ record ∈ ledger.retiring, selected record.id = other record.id) :
    ledger.partialBytes selected = ledger.partialBytes other := by
  have hselection : ledger.selection selected = ledger.selection other :=
    List.filter_congr h
  have hunselected : ledger.unselected selected = ledger.unselected other := by
    refine List.filter_congr fun record hr => ?_
    by_cases hstate : record.state = .retiring
    · rw [h record (mem_retiring.mpr ⟨hr, hstate⟩)]
    · simp [hstate]
  have hlists : ledger.listsRetirements selected = ledger.listsRetirements other := by
    simp only [listsRetirements, hselection]
  simp only [partialBytes, hselection, hunselected, hlists]

/-- Finitely many selections decide. -/
theorem reservesEveryPart_iff : ledger.ReservesEveryPart ↔
    ∀ part ∈ (ledger.retiring.map LaunchRecord.id).sublists,
      ledger.partialBytes (fun id => part.contains id) ≤ maxLedgerBytes := by
  refine ⟨fun h part _ => h _, fun h selected => ?_⟩
  have hpart := h ((ledger.retiring.map LaunchRecord.id).filter selected)
    (List.mem_sublists.mpr List.filter_sublist)
  refine (partialBytes_congr fun record hr => ?_).trans_le hpart
  rw [Bool.eq_iff_iff, List.contains_iff_mem, List.mem_filter]
  exact ⟨fun hs => ⟨List.mem_map_of_mem hr, hs⟩, And.right⟩

instance (ledger : Ledger) : Decidable ledger.ReservesEveryPart :=
  decidable_of_iff _ reservesEveryPart_iff.symm

/-- The size of a selection does not depend on the order of the records and cleanups. -/
theorem partialBytes_of_restores {other : Ledger} (h : ledger.Restores other)
    (selected : String → Bool) : ledger.partialBytes selected ≤ other.partialBytes selected := by
  have hselection : (ledger.selection selected).Perm (other.selection selected) :=
    (h.records.filter _).filter _
  have hunselected : (ledger.unselected selected).Perm (other.unselected selected) :=
    h.records.filter _
  have hlists : ledger.listsRetirements selected → other.listsRetirements selected := by
    rw [listsRetirements, listsRetirements, hselection.length_eq, h.retirements,
      InsertionMap.size, InsertionMap.size, InsertionMap.size, h.cleanups.length_eq]
    exact id
  unfold partialBytes
  rw [h.retirements]
  refine contentBytes_mono (Json.separatedBytes_perm (hunselected.map _)).le
    (NoLarger.ite hlists fun _ => ?_) (NoLarger.ite (fun hp => ⟨hlists hp.1, ?_⟩) fun _ => ?_)
  · exact (Json.separatedBytes_perm (((hselection.map projectedEntry).append_left _).map _)).le
  · have hwrites := hp.2
    rw [List.length_map, hselection.length_eq, ← List.length_map (f := projectedEntry)] at hwrites
    rcases hwrites with hexplicit | hmatch | hdropped
    · exact (h.encoding hexplicit).imp_right .inl
    · refine .inr (.inl ?_)
      rw [← Bool.not_eq_true, cleanupsExactlyMatch_iff] at hmatch ⊢
      exact fun hperm => hmatch ((h.retirements ▸ hperm).trans h.cleanups.symm)
    · exact .inr (.inr (h.retirements ▸ hdropped))
  · exact (Json.separatedBytes_perm
      ((h.cleanups.append ((hselection.map projectedEntry).map retirementCleanup)).map _)).le

theorem ReservesEveryPart.of_restores {other : Ledger} (hother : other.ReservesEveryPart)
    (h : ledger.Restores other) : ledger.ReservesEveryPart :=
  fun selected => (partialBytes_of_restores h selected).trans (hother selected)

/-! ### The projection -/

theorem candidates_nodup (h : ledger.Valid) : (ledger.candidates.map Retirement.launchId).Nodup := by
  have hids : (ledger.retiring.map projectedEntry).map Retirement.launchId =
      ledger.retiring.map LaunchRecord.id := by
    rw [List.map_map]
    rfl
  rw [candidates, List.map_append, hids]
  refine List.nodup_append.mpr ⟨ledger.retirements.nodup,
    ledger.records.nodup.sublist (List.filter_sublist.map _), ?_⟩
  rintro a ha b hb rfl
  obtain ⟨record, hr, hrecord⟩ := List.mem_map.mp hb
  exact (List.nodup_append.mp h.launchIds_nodup).2.2 a
    (hrecord ▸ List.mem_map_of_mem (mem_retiring.mp hr).1) a ha rfl

/-- The tombstones of the projection are the first of the sorted candidates. -/
theorem projected_retirements (h : ledger.Valid) :
    (projectRetirementCompletions ledger).retirements.values =
      (ledger.candidates.insertionSort candidateBefore).take maxRetirements := by
  refine InsertionMap.values_ofValues ?_
  have hperm := List.perm_insertionSort candidateBefore ledger.candidates
  exact ((hperm.map Retirement.launchId).symm.nodup (candidates_nodup h)).sublist
    ((List.take_sublist _ _).map _)

/-- The cleanups of the projection: one more for every pending retirement. -/
theorem projected_cleanups (h : ledger.Valid) :
    (projectRetirementCompletions ledger).retirementCleanups.values =
      ledger.retirementCleanups.values ++
        (ledger.retiring.map projectedEntry).map retirementCleanup := by
  refine InsertionMap.values_setAll ?_
  have hids : ((ledger.retiring.map projectedEntry).map retirementCleanup).map
      RetirementCleanup.launchId = ledger.retiring.map LaunchRecord.id := by
    rw [List.map_map, List.map_map]
    rfl
  rw [List.map_append, hids]
  refine List.nodup_append.mpr ⟨ledger.retirementCleanups.nodup,
    ledger.records.nodup.sublist (List.filter_sublist.map _), ?_⟩
  rintro a ha b hb rfl
  obtain ⟨cleanup, hc, hcleanup⟩ := List.mem_map.mp ha
  obtain ⟨record, hr, hrecord⟩ := List.mem_map.mp hb
  exact (h.cleanup_apart cleanup hc record (mem_retiring.mp hr).1).1 (hcleanup.trans hrecord.symm)

/-- The records of the projection are those that are not retiring. -/
theorem projected_records (ledger : Ledger) :
    (projectRetirementCompletions ledger).records.values = ledger.unselected fun _ => true := by
  rw [projectRetirementCompletions, InsertionMap.values_deleteAll, unselected]
  refine List.filter_congr fun record hr => ?_
  have hmem : record.id ∈ ledger.retiring.map LaunchRecord.id ↔ record.state = .retiring := by
    constructor
    · intro hm
      obtain ⟨other, ho, hid⟩ := List.mem_map.mp hm
      obtain ⟨ho, hstate⟩ := mem_retiring.mp ho
      exact ledger.records.eq_of_key_eq ho hr hid ▸ hstate
    · exact fun hstate => List.mem_map_of_mem (mem_retiring.mpr ⟨hr, hstate⟩)
  simp only [hmem, Bool.and_true, decide_not]

theorem scoped_projectedEntries (records : List LaunchRecord) :
    scopedRetirements (records.map projectedEntry) = records.map projectedEntry := by
  refine List.filter_eq_self.mpr fun entry he => ?_
  obtain ⟨record, -, rfl⟩ := List.mem_map.mp he
  rfl

/-- Where no tombstone is dropped, the projection matches if the ledger does. -/
theorem projected_match (h : ledger.Valid)
    (hsize : ledger.retirements.size + ledger.retiring.length ≤ maxRetirements)
    (hmatch : cleanupsExactlyMatchScopedRetirements ledger.retirements ledger.retirementCleanups =
      true) :
    cleanupsExactlyMatchScopedRetirements (projectRetirementCompletions ledger).retirements
      (projectRetirementCompletions ledger).retirementCleanups = true := by
  rw [cleanupsExactlyMatch_iff] at hmatch ⊢
  have hperm := List.perm_insertionSort candidateBefore ledger.candidates
  have htake : (ledger.candidates.insertionSort candidateBefore).take maxRetirements =
      ledger.candidates.insertionSort candidateBefore := by
    refine List.take_of_length_le ?_
    rw [hperm.length_eq, candidates, List.length_append, List.length_map]
    exact hsize
  rw [projected_retirements h, projected_cleanups h, htake]
  refine ((hperm.filter _).map retirementCleanup).trans ?_
  rw [candidates, List.filter_append, List.map_append]
  have hentries := scoped_projectedEntries ledger.retiring
  rw [scopedRetirements] at hentries
  rw [hentries]
  exact hmatch.append_right _

/-- The projection of a ledger is bounded by the full selection's. -/
theorem projection_le_partialBytes (h : ledger.Valid) :
    (ledgerContent (projectRetirementCompletions ledger)).bytes ≤
      ledger.partialBytes fun _ => true := by
  have hall : ledger.selection (fun _ => true) = ledger.retiring := by simp [selection]
  have hperm := List.perm_insertionSort candidateBefore ledger.candidates
  have htake := (List.take_sublist maxRetirements
    (ledger.candidates.insertionSort candidateBefore))
  have hlists : 0 < (projectRetirementCompletions ledger).retirements.size ∨
      0 < (projectRetirementCompletions ledger).retirementCleanups.size →
        ledger.listsRetirements fun _ => true := by
    intro hp
    have hle := htake.length_le
    have hlength : ledger.candidates.length =
        ledger.retirements.values.length + ledger.retiring.length := by
      rw [candidates, List.length_append, List.length_map]
    rw [hperm.length_eq, hlength] at hle
    rw [listsRetirements, hall]
    simp only [InsertionMap.size, projected_retirements h, projected_cleanups h,
      List.length_append, List.length_map] at hp ⊢
    omega
  rw [LedgerDocument.bytes_eq rfl, partialBytes, hall]
  simp only [ledgerContent, projected_records, projected_retirements h, projected_cleanups h,
    Option.map_if]
  refine contentBytes_mono le_rfl (NoLarger.ite hlists fun _ => ?_)
    (NoLarger.ite (fun hp => ⟨hlists hp.1, ?_⟩) fun _ => le_rfl)
  · refine (Json.separatedBytes_sublist (htake.map _)).trans_eq ?_
    exact Json.separatedBytes_perm (hperm.map _)
  · have hexplicit := hp.2
    by_contra hnot
    simp only [writesCleanups, not_or, not_lt, Bool.not_eq_false, List.length_map] at hnot
    have hmatch := projected_match h hnot.2.2 hnot.2.1
    have hcompact : (projectRetirementCompletions ledger).compactCleanupEncoding = true := hnot.1
    rw [hmatch, hcompact] at hexplicit
    cases hexplicit

/-- `#persist` passes its size checks where the empty and the full selection have room. -/
theorem persist_of_partialBytes (hvalid : ledger.Valid)
    (hnone : ledger.partialBytes (fun _ => false) ≤ maxLedgerBytes)
    (hall : ledger.partialBytes (fun _ => true) ≤ maxLedgerBytes) :
    ledger.persist.isOk = true := by
  have hcontent := (content_le_partialBytes ledger).trans hnone
  have hprojection := (projection_le_partialBytes hvalid).trans hall
  rw [Ledger.persist, if_neg (not_lt.mpr hcontent), if_neg (not_lt.mpr hprojection)]
  rfl

/-- **Main**: where every selection has room, `#persist` passes its size checks. -/
theorem ReservesEveryPart.persist (h : ledger.ReservesEveryPart) (hvalid : ledger.Valid) :
    ledger.persist.isOk = true := persist_of_partialBytes hvalid (h _) (h _)

/-! ### The two exits -/

/-- A cancelled retirement leaves every selection room: its record counts as retiring. -/
theorem partialBytes_cancel {current : LaunchRecord} {now : Timestamp}
    (hget : ledger.records.get? current.id = some current) (hstate : current.state = .retiring)
    (hnow : FourDigitYear now) (selected : String → Bool) :
    { ledger with records := ledger.records.set (restoredRecord current now) }.partialBytes
        selected ≤
      ledger.partialBytes fun id => selected id && id != current.id := by
  set next := { ledger with records := ledger.records.set (restoredRecord current now) } with hnext
  have hset := ledger.records.set_perm (restoredRecord current now)
  have hold := InsertionMap.perm_cons_delete hget
  have hrest : ∀ record ∈ (ledger.records.delete current.id).values, record.id ≠ current.id :=
    fun record hr => (InsertionMap.mem_delete.mp hr).2
  have hrestored : (restoredRecord current now).state ≠ .retiring := by simp [restoredRecord]
  -- the restored record is in no selection, and the retiring one is left out of this one
  have hselection : (next.selection selected).Perm
      (ledger.selection fun id => selected id && id != current.id) := by
    have hleft := (hset.filter (fun record => record.state = .retiring)).filter
      (fun record => selected record.id)
    have hright := (hold.filter (fun record => record.state = .retiring)).filter
      (fun record => selected record.id && record.id != current.id)
    refine hleft.trans (List.Perm.trans (.of_eq ?_) hright.symm)
    rw [List.filter_cons_of_neg (by simpa using hrestored), List.filter_cons_of_pos (by simp [hstate]),
      List.filter_cons_of_neg (by simp)]
    refine List.filter_congr fun record hr => ?_
    rw [bne_iff_ne.mpr (hrest record (List.mem_of_mem_filter hr)), Bool.and_true]
  have hunselected : Json.separatedBytes ((next.unselected selected).map recordBytes) ≤
      Json.separatedBytes ((ledger.unselected fun id => selected id && id != current.id).map
        recordBytes) := by
    have hleft := (hset.filter
      (fun record => !(decide (record.state = .retiring) && selected record.id))).map recordBytes
    have hright := (hold.filter (fun record => !(decide (record.state = .retiring) &&
      (selected record.id && record.id != current.id)))).map recordBytes
    rw [unselected, unselected, Json.separatedBytes_perm hleft, Json.separatedBytes_perm hright,
      List.filter_cons_of_pos (by simp [hrestored]), List.filter_cons_of_pos (by simp)]
    have hle := recordBytes_restored_le hstate hnow
    have hcongr : (ledger.records.delete current.id).values.filter
        (fun record => !(decide (record.state = .retiring) && selected record.id)) =
      (ledger.records.delete current.id).values.filter (fun record =>
        !(decide (record.state = .retiring) && (selected record.id && record.id != current.id))) :=
      List.filter_congr fun record hr => by
        rw [bne_iff_ne.mpr (hrest record hr), Bool.and_true]
    have hid : (restoredRecord current now).id = current.id := rfl
    rw [hid, hcongr, List.map_cons, List.map_cons, Json.separatedBytes_cons,
      Json.separatedBytes_cons]
    omega
  have hlength := hselection.length_eq
  have hlists : next.listsRetirements selected ↔
      ledger.listsRetirements fun id => selected id && id != current.id := by
    rw [listsRetirements, listsRetirements, hlength]
  unfold partialBytes
  refine contentBytes_mono hunselected (NoLarger.ite hlists.mp fun _ => ?_)
    (NoLarger.ite (fun hp => ⟨hlists.mp hp.1, ?_⟩) fun _ => ?_)
  · exact (Json.separatedBytes_perm (((hselection.map projectedEntry).append_left _).map _)).le
  · have hwrites := hp.2
    rwa [List.length_map, hlength, ← List.length_map (f := projectedEntry)] at hwrites
  · exact (Json.separatedBytes_perm
      ((((hselection.map projectedEntry).map retirementCleanup).append_left _).map _)).le

/-- Where no tombstone is dropped, a completed retirement keeps the match. -/
theorem completed_match (h : ledger.Valid) {current : LaunchRecord} {entry : Retirement}
    (hcurrent : current ∈ ledger.records.values) (hid : entry.launchId = current.id)
    (hsize : ledger.retirements.size + 1 ≤ maxRetirements)
    (hmatch : cleanupsExactlyMatchScopedRetirements ledger.retirements ledger.retirementCleanups =
      true) :
    cleanupsExactlyMatchScopedRetirements (ledger.completed current entry).retirements
      (ledger.completed current entry).retirementCleanups = true := by
  rw [cleanupsExactlyMatch_iff] at hmatch ⊢
  rw [completed_retirements h hcurrent hid, completed_cleanups h hcurrent hid,
    Nat.sub_eq_zero_of_le hsize, List.drop_zero, scopedRetirements, List.filter_append,
    List.map_append]
  refine hmatch.append (.of_eq ?_)
  by_cases hscope : entry.cleanupScope.isSome = true
  · simp [hscope]
  · simp [hscope]

/-- A completed retirement leaves every selection the room it had together with this record. -/
theorem partialBytes_complete (h : ledger.Valid) {current : LaunchRecord} {now : Timestamp}
    {scope : Option String} (hget : ledger.records.get? current.id = some current)
    (hstate : current.state = .retiring) (hnow : FourDigitYear now)
    (hscope : scope.all safeCleanupScope = true) (selected : String → Bool) :
    (ledger.completed current (retirementEntry current now scope)).partialBytes selected ≤
      ledger.partialBytes fun id => selected id || id == current.id := by
  set next := ledger.completed current (retirementEntry current now scope) with hnext
  have hcurrent : current ∈ ledger.records.values := InsertionMap.mem_of_get? hget
  have hold := InsertionMap.perm_cons_delete hget
  have hrest : ∀ record ∈ (ledger.records.delete current.id).values, record.id ≠ current.id :=
    fun record hr => (InsertionMap.mem_delete.mp hr).2
  have hselection : (current :: next.selection selected).Perm
      (ledger.selection fun id => selected id || id == current.id) := by
    have hright := (hold.filter (fun record => record.state = .retiring)).filter
      (fun record => selected record.id || record.id == current.id)
    refine List.Perm.trans (.of_eq ?_) hright.symm
    rw [List.filter_cons_of_pos (by simp [hstate]), List.filter_cons_of_pos (by simp)]
    refine congrArg (current :: ·) (List.filter_congr fun record hr => ?_)
    rw [beq_eq_false_iff_ne.mpr (hrest record (List.mem_of_mem_filter hr)), Bool.or_false]
  have hunselected : (next.unselected selected).Perm
      (ledger.unselected fun id => selected id || id == current.id) := by
    have hright := hold.filter (fun record => !(decide (record.state = .retiring) &&
      (selected record.id || record.id == current.id)))
    refine List.Perm.trans (.of_eq ?_) hright.symm
    rw [List.filter_cons_of_neg (by simp [hstate])]
    refine List.filter_congr fun record hr => ?_
    rw [beq_eq_false_iff_ne.mpr (hrest record hr), Bool.or_false]
  have hlength := hselection.length_eq
  rw [List.length_cons] at hlength
  have hlists : ledger.listsRetirements fun id => selected id || id == current.id := by
    rw [listsRetirements, ← hlength]
    omega
  have hid : (retirementEntry current now scope).launchId = current.id := rfl
  have hretirements := completed_retirements h hcurrent hid
  have hcleanups := completed_cleanups h hcurrent hid
  unfold partialBytes
  refine contentBytes_mono ?_ (NoLarger.ite (fun _ => hlists) fun _ => ?_)
    (NoLarger.ite (fun hp => ⟨hlists, ?_⟩) fun _ => ?_)
  · exact (Json.separatedBytes_perm (hunselected.map _)).le
  · have hsel := Json.separatedBytes_perm ((hselection.map projectedEntry).map retirementBytes)
    have hdrop := Json.separatedBytes_sublist ((List.drop_sublist
      (ledger.retirements.size + 1 - maxRetirements) (ledger.retirements.values ++
        [retirementEntry current now scope])).map retirementBytes)
    have hentry := retirementBytes_le current hnow hscope
    rw [hretirements]
    simp only [List.map_append, List.map_cons, List.map_nil, Json.separatedBytes_append,
      Json.separatedBytes_cons, Json.separatedBytes_nil] at hsel hdrop ⊢
    omega
  · -- a cleanup that must be written out was written out before, or a tombstone is dropped
    have hsize : next.retirements.size ≤ ledger.retirements.size + 1 := by
      rw [InsertionMap.size, hretirements, List.length_drop, List.length_append,
        List.length_singleton]
      exact Nat.sub_le _ _
    rw [List.length_map, ← hlength]
    rcases hp.2 with hcompact | hmatch | hdropped
    · exact .inl hcompact
    · by_contra hnot
      simp only [writesCleanups, not_or, not_lt, Bool.not_eq_false] at hnot
      have hkeep := completed_match h hcurrent hid (by omega) hnot.2.1
      rw [hkeep] at hmatch
      cases hmatch
    · rw [List.length_map] at hdropped
      exact .inr (.inr (by omega))
  · have hsel := Json.separatedBytes_perm
      (((hselection.map projectedEntry).map retirementCleanup).map cleanupBytes)
    have hentry := cleanupBytes_le current now hscope
    rw [hcleanups]
    simp only [List.map_append, List.map_cons, Json.separatedBytes_append,
      Json.separatedBytes_cons] at hsel ⊢
    split
    · simp only [List.map_cons, List.map_nil, Json.separatedBytes_cons, Json.separatedBytes_nil]
      omega
    · simp only [List.map_nil, Json.separatedBytes_nil]
      omega

end Ledger

/-- An exit from the fence of a retiring record: completion with a valid scope or none, or
    cancellation with its key, at a reading of a four-digit year. -/
def LedgerOp.ExitOf (current : LaunchRecord) : LedgerOp → Prop
  | .completeRetirement id now scope =>
    id = current.id ∧ FourDigitYear now ∧ scope.all safeCleanupScope = true
  | .cancelRetirement id keyHash now =>
    id = current.id ∧ FourDigitYear now ∧ current.retirementKeyHash = some keyHash
  | _ => False

namespace Ledger

variable {ledger : Ledger}

theorem validateLaunchRecord_restored {current : LaunchRecord}
    (h : validateLaunchRecord current = true) (hstate : current.state = .retiring)
    (now : Timestamp) : validateLaunchRecord (restoredRecord current now) = true := by
  rw [validateLaunchRecord_iff] at h ⊢
  obtain ⟨hid, hattempt, hkey, hsignature, hrequest, htime, hownership, -, -⟩ := h
  refine ⟨hid, hattempt, hkey, hsignature, hrequest, ?_, ?_, ?_, ?_⟩
  · exact htime.trans (le_laterTimestamp _ _)
  · simpa [validOwnership, restoredRecord, hstate] using hownership
  · simp [validRetirementKeyHash, restoredRecord]
  · have herror : current.error = none := by
      simp only [validOwnership, hstate, Bool.and_eq_true] at hownership
      exact Option.isNone_iff_eq_none.mp hownership.2
    simp [validError, restoredRecord, herror]

theorem validRetirement_entry {current : LaunchRecord} (h : validateLaunchRecord current = true)
    (hstate : current.state = .retiring) (now : Timestamp) {scope : Option String}
    (hscope : scope.all safeCleanupScope = true) :
    validRetirement (retirementEntry current now scope) = true := by
  obtain ⟨keyHash, hkey, hsafe⟩ := retirementKeyHash_of_retiring h hstate
  obtain ⟨hid, hattempt, hkeyHash, hsignature, hrequest, -⟩ := validateLaunchRecord_iff.mp h
  have hprovider : safeId current.request.provider = true := by
    simp only [validResolvedRequest, Bool.and_eq_true] at hrequest
    exact hrequest.1.1.1.1
  simp [validRetirement, retirementEntry, hkey, hsafe, hid, hattempt, hkeyHash, hsignature,
    hrequest, hprovider, hscope]

/-- **Main**: where every selection has room, both exits of a retiring record get to the write,
    and every selection has room afterwards. -/
theorem ReservesEveryPart.exit (h : ledger.ReservesEveryPart) (hvalid : ledger.Valid)
    {current : LaunchRecord} (hmem : current ∈ ledger.records.values)
    (hstate : current.state = .retiring) {op : LedgerOp} (hexit : op.ExitOf current) :
    ∃ next reply rollback, op.apply ledger = .persists next reply rollback ∧
      next.persist.isOk = true ∧ next.ReservesEveryPart := by
  have hget : ledger.records.get? current.id = some current := InsertionMap.get?_of_mem hmem
  have hrecord := hvalid.records_valid current hmem
  cases op with
  | completeRetirement id now scope =>
    obtain ⟨rfl, hnow, hscope⟩ := hexit
    have hentry := validRetirement_entry hrecord hstate now hscope
    have happly : (LedgerOp.completeRetirement current.id now scope).apply ledger =
        .persists (ledger.completed current (retirementEntry current now scope))
          (.retirement (retirementEntry current now scope))
          { ledger with records := (ledger.records.delete current.id).set current } := by
      simp only [LedgerOp.apply, Ledger.completeRetirement, hget, hstate, hentry]
      rfl
    have hnext : (ledger.completed current (retirementEntry current now scope)).ReservesEveryPart :=
      fun selected => (partialBytes_complete hvalid hget hstate hnow hscope selected).trans (h _)
    exact ⟨_, _, _, happly, hnext.persist (hvalid.completed hget hstate hentry), hnext⟩
  | cancelRetirement id keyHash now =>
    obtain ⟨rfl, hnow, hkey⟩ := hexit
    have hrestored := validateLaunchRecord_restored hrecord hstate now
    have happly : (LedgerOp.cancelRetirement current.id keyHash now).apply ledger =
        .persists { ledger with records := ledger.records.set (restoredRecord current now) }
          (.record (restoredRecord current now))
          { ledger with
            records := (ledger.records.set (restoredRecord current now)).set current } := by
      simp [LedgerOp.apply, Ledger.cancelRetirement, hget, hstate, hkey, hrestored]
    have hnext : ReservesEveryPart
        { ledger with records := ledger.records.set (restoredRecord current now) } :=
      fun selected => (partialBytes_cancel hget hstate hnow selected).trans (h _)
    exact ⟨_, _, _, happly, hnext.persist (hvalid.cancelRetirement happly), hnext⟩
  | reserve => exact hexit.elim
  | transition => exact hexit.elim
  | beginRetirement => exact hexit.elim
  | completeRetirementCleanup => exact hexit.elim

end Ledger

end AgentHost