import AgentHost.Core.LedgerInvariant

namespace AgentHost

/-!
# The persisted round trip of the launch ledger

The document `ledgerContent` writes for a valid ledger is accepted by `openDocument`, and
what is read back is the same ledger.

* `Ledger.cleanupList_ledgerContent` — the cleanups of the document are those of the ledger,
  listed or implied by the scoped tombstones.
* `openDocument_ledgerContent` — **Main**: opening what was written yields the same records,
  the same tombstones and, up to order, the same cleanups.
-/

/-- What an accepted document is opened as. -/
theorem openDocument_eq {document : LedgerDocument} {ledger : Ledger}
    (h : openDocument document = .ok ledger) :
    ledger = {
      records := .ofValues LaunchRecord.id document.records
      retirements := .ofValues Retirement.launchId document.retirementList
      retirementCleanups := .ofValues RetirementCleanup.launchId document.cleanupList
      compactCleanupEncoding :=
        !(decide (document.schemaVersion = launchSchemaVersion) && document.retirements.isNone) &&
          document.retirementCleanups.isNone } := by
  unfold openDocument at h
  dsimp only at h
  repeat' split at h
  all_goals first
    | cases h
      done
    | exact (Except.ok.inj h).symm

namespace Ledger

variable {ledger : Ledger}

/-! ### The lists of the document -/

/-- Where the cleanups match the scoped tombstones exactly, these imply them. -/
theorem cleanups_perm_of_match (ledger : Ledger)
    (hmatch : cleanupsExactlyMatchScopedRetirements ledger.retirements
      ledger.retirementCleanups = true) :
    ((scopedRetirements ledger.retirements.values).map retirementCleanup).Perm
      ledger.retirementCleanups.values := by
  simp only [cleanupsExactlyMatchScopedRetirements, Bool.and_eq_true, beq_iff_eq,
    List.all_eq_true] at hmatch
  obtain ⟨hlength, hall⟩ := hmatch
  have hnodup : ((scopedRetirements ledger.retirements.values).map retirementCleanup).Nodup := by
    refine List.Nodup.of_map RetirementCleanup.launchId ?_
    rw [List.map_map]
    exact ledger.retirements.nodup.sublist (List.filter_sublist.map _)
  have hsub : (scopedRetirements ledger.retirements.values).map retirementCleanup ⊆
      ledger.retirementCleanups.values := by
    intro cleanup hc
    obtain ⟨entry, he, rfl⟩ := List.mem_map.mp hc
    have hany := hall entry he
    cases hget : ledger.retirementCleanups.get? entry.launchId with
    | none => simp [hget] at hany
    | some found =>
      have hfound : found = retirementCleanup entry := by
        simpa [hget, cleanupMatchesRetirement] using hany
      exact hfound ▸ InsertionMap.mem_of_get? hget
  refine (List.subperm_of_subset hnodup hsub).perm_of_length_le ?_
  rw [List.length_map, hlength]
  exact le_rfl

theorem retirementList_ledgerContent (ledger : Ledger) :
    (ledgerContent ledger).retirementList = ledger.retirements.values := by
  simp only [ledgerContent, LedgerDocument.retirementList]
  split
  · rfl
  · next hempty =>
    have hsize : ledger.retirements.values.length = 0 := by
      simp only [InsertionMap.size] at hempty
      omega
    rw [List.length_eq_zero_iff.mp hsize]
    rfl

theorem cleanupList_ledgerContent (ledger : Ledger) :
    (ledgerContent ledger).cleanupList.Perm ledger.retirementCleanups.values := by
  rw [LedgerDocument.cleanupList, retirementList_ledgerContent]
  simp only [ledgerContent]
  split
  · exact .refl _
  · next hkept =>
    rw [not_and_or] at hkept
    rcases hkept with hempty | hcompact
    · have hsizes : ledger.retirements.values.length = 0 ∧
          ledger.retirementCleanups.values.length = 0 := by
        simp only [InsertionMap.size] at hempty
        omega
      rw [List.length_eq_zero_iff.mp hsizes.1, List.length_eq_zero_iff.mp hsizes.2]
      exact .refl _
    · simp only [Bool.or_eq_true, Bool.not_eq_true', not_or, Bool.not_eq_false] at hcompact
      exact ledger.cleanups_perm_of_match hcompact.2

/-! ### The checks of `open` -/

/-- Consistent owners stay consistent when the cleanups are read one after the other. -/
theorem claimAttempts_eq_true {owners : List (String × String)} {cleanups : List RetirementCleanup}
    (howners : ∀ cleanup ∈ cleanups, ∀ owner ∈ owners, owner.1 = cleanup.attemptId →
      owner.2 = cleanup.launchId)
    (hnodup : (cleanups.map RetirementCleanup.attemptId).Nodup) :
    claimAttempts owners cleanups = true := by
  induction cleanups generalizing owners with
  | nil => rfl
  | cons cleanup rest ih =>
    rw [List.map_cons, List.nodup_cons] at hnodup
    rw [claimAttempts, Bool.and_eq_true]
    constructor
    · cases hlookup : owners.lookup cleanup.attemptId with
      | none => rfl
      | some owner =>
        obtain ⟨before, after, heq, -⟩ := List.lookup_eq_some_iff.mp hlookup
        have hmem : (cleanup.attemptId, owner) ∈ owners := by simp [heq]
        simpa using howners cleanup List.mem_cons_self _ hmem rfl
    · refine ih ?_ hnodup.2
      intro other ho owner hm hattempt
      rcases List.mem_cons.mp hm with rfl | hm
      · exact absurd (List.mem_map.mpr ⟨other, ho, hattempt.symm⟩) hnodup.1
      · exact howners other (List.mem_cons_of_mem _ ho) owner hm hattempt

/-- What `open` checks of the schema of a document that `#persist` has written. -/
theorem validDocument_ledgerContent (h : ledger.Valid) :
    validDocument (ledgerContent ledger) = true := by
  have hrecords : (ledgerContent ledger).records = ledger.records.values := rfl
  have hversion : (ledgerContent ledger).schemaVersion = ledgerSchemaVersion := rfl
  have hold : decide (ledgerSchemaVersion = launchSchemaVersion) = false := by decide
  have hcleanups : (ledgerContent ledger).retirementCleanups.all (fun cleanups =>
      decide (cleanups.length ≤ maxRetirementCleanups) && cleanups.all validRetirementCleanup) =
        true := by
    simp only [ledgerContent]
    split
    · have hle := h.cleanups_le
      simp only [InsertionMap.size] at hle
      simp only [Option.all_some, Bool.and_eq_true, decide_eq_true_eq, List.all_eq_true]
      exact ⟨by omega, h.cleanups_valid⟩
    · rfl
  have hretirements : ((ledgerContent ledger).retirements.isNone = true ∧
      (ledgerContent ledger).retirementCleanups.isNone = true) ∨
      (ledgerContent ledger).retirements.any (fun retirements =>
        decide (retirements.length ≤ maxRetirements) && retirements.all validRetirement) =
          true := by
    simp only [ledgerContent]
    by_cases hretained : 0 < ledger.retirements.size ∨ 0 < ledger.retirementCleanups.size
    · rw [if_pos hretained]
      simp only [Option.any_some, Bool.and_eq_true, decide_eq_true_eq, List.all_eq_true]
      exact .inr ⟨h.retirements_le, h.retirements_valid⟩
    · rw [if_neg hretained, if_neg (fun hand => hretained hand.1)]
      exact .inl ⟨rfl, rfl⟩
  simp only [validDocument, hversion, hold, Bool.false_and, Bool.false_or, decide_true,
    Bool.true_and, Bool.or_true, hrecords, hcleanups, Bool.and_true, Bool.and_eq_true,
    decide_eq_true_eq, List.all_eq_true, Bool.or_eq_true]
  exact ⟨⟨h.records_le, h.records_valid⟩, hretirements⟩

/-- The encoding of what is opened is explicit only where the cleanups were written out. -/
theorem explicit_of_openDocument {opened : Ledger}
    (h : openDocument (ledgerContent ledger) = .ok opened)
    (hexplicit : opened.compactCleanupEncoding = false) :
    ledger.compactCleanupEncoding = false ∨
      cleanupsExactlyMatchScopedRetirements ledger.retirements ledger.retirementCleanups =
        false := by
  rw [openDocument_eq h] at hexplicit
  have hversion : (ledgerContent ledger).schemaVersion ≠ launchSchemaVersion :=
    fun h : ledgerSchemaVersion = launchSchemaVersion => absurd h (by decide)
  simp only [hversion, decide_false, Bool.false_and, Bool.not_false, Bool.true_and] at hexplicit
  by_contra hmatch
  simp only [not_or, Bool.not_eq_false] at hmatch
  simp [ledgerContent, hmatch] at hexplicit

/-- **Main**: the round trip.  Whether the cleanups were listed or implied, what is opened has
    the same records, the same tombstones in the same order and the same cleanups. -/
theorem openDocument_ledgerContent (h : ledger.Valid)
    (hbytes : (ledgerContent ledger).bytes ≤ maxLedgerBytes) :
    ∃ opened, openDocument (ledgerContent ledger) = .ok opened ∧
      opened.records = ledger.records ∧ opened.retirements = ledger.retirements ∧
      opened.retirementCleanups.values.Perm ledger.retirementCleanups.values ∧
      opened.Valid := by
  have hperm := cleanupList_ledgerContent ledger
  have hlist := retirementList_ledgerContent ledger
  have hrecords : (ledgerContent ledger).records = ledger.records.values := rfl
  have hversion : (ledgerContent ledger).schemaVersion = ledgerSchemaVersion := rfl
  have hmem : ∀ cleanup, cleanup ∈ (ledgerContent ledger).cleanupList ↔
      cleanup ∈ ledger.retirementCleanups.values := fun _ => hperm.mem_iff
  have hkeys : ((ledgerContent ledger).cleanupList.map RetirementCleanup.launchId).Nodup :=
    (hperm.map _).symm.nodup ledger.retirementCleanups.nodup
  have hattempts : ((ledgerContent ledger).cleanupList.map RetirementCleanup.attemptId).Nodup :=
    (hperm.map _).symm.nodup h.cleanupAttempts_nodup
  have hapart : ¬ ∃ entry ∈ ledger.retirements.values,
      entry.launchId ∈ ledger.records.values.map LaunchRecord.id := by
    rintro ⟨entry, he, hm⟩
    exact (List.nodup_append.mp h.launchIds_nodup).2.2 _ hm _ (List.mem_map_of_mem he) rfl
  have hmatched : ¬ ∃ cleanup ∈ (ledgerContent ledger).cleanupList,
      ∃ entry ∈ ledger.retirements.values, entry.launchId = cleanup.launchId ∧
        cleanupMatchesRetirement cleanup entry = false := by
    rintro ⟨cleanup, hc, entry, he, hsame, hmatch⟩
    have := h.cleanup_tombstone cleanup ((hmem _).mp hc) entry he (.inl hsame.symm)
    simp [cleanupMatchesRetirement, this] at hmatch
  have hclaims : claimAttempts (ledger.records.values.map (fun record =>
      (record.attemptId, record.id)) ++ ledger.retirements.values.map (fun entry =>
        (entry.attemptId, entry.launchId))) (ledgerContent ledger).cleanupList = true := by
    refine claimAttempts_eq_true ?_ hattempts
    intro cleanup hc owner ho hattempt
    have hc := (hmem _).mp hc
    rcases List.mem_append.mp ho with ho | ho
    · obtain ⟨record, hr, rfl⟩ := List.mem_map.mp ho
      exact absurd hattempt.symm (h.cleanup_apart cleanup hc record hr).2
    · obtain ⟨entry, he, rfl⟩ := List.mem_map.mp ho
      rw [h.cleanup_tombstone cleanup hc entry he (.inr hattempt.symm)]
      rfl
  have hidentities : ¬ ((∃ cleanup ∈ (ledgerContent ledger).cleanupList,
      cleanup.launchId ∈ ledger.records.values.map LaunchRecord.id) ∨
      claimAttempts (ledger.records.values.map (fun record => (record.attemptId, record.id)) ++
        ledger.retirements.values.map (fun entry => (entry.attemptId, entry.launchId)))
        (ledgerContent ledger).cleanupList = false) := by
    rintro (⟨cleanup, hc, hm⟩ | hfalse)
    · obtain ⟨record, hr, heq⟩ := List.mem_map.mp hm
      exact (h.cleanup_apart cleanup ((hmem _).mp hc) record hr).1 heq.symm
    · rw [hclaims] at hfalse
      cases hfalse
  have hroom : ¬ maxRetirementCleanups < (ledgerContent ledger).cleanupList.length +
      ledger.records.values.countP (fun record => record.state = .retiring) := by
    rw [hperm.length_eq]
    exact not_lt.mpr h.cleanups_le
  have hopen : openDocument (ledgerContent ledger) = .ok
      { records := ledger.records
        retirements := ledger.retirements
        retirementCleanups := .ofValues RetirementCleanup.launchId (ledgerContent ledger).cleanupList
        compactCleanupEncoding := (ledgerContent ledger).retirementCleanups.isNone } := by
    have hlegacy : (decide (ledgerSchemaVersion = launchSchemaVersion)) = false := by decide
    simp only [openDocument, hlist, hrecords, hversion, hlegacy, Bool.false_and, Bool.not_false,
      Bool.true_and, validDocument_ledgerContent h, Bool.not_true, Bool.false_eq_true, if_false,
      InsertionMap.ofValues_values]
    rw [if_neg (not_lt.mpr hbytes), if_neg, if_neg, if_neg, if_neg, if_neg, if_neg hidentities,
      if_neg hroom]
    · have := h.attemptIds_nodup
      simpa [attemptIds, Function.comp_def] using this
    · exact fun hor => hor.elim (fun hn => hn hkeys) hmatched
    · exact not_not.mpr h.keyHashes_nodup
    · exact fun hor => hor.elim (fun hn => hn ledger.retirements.nodup) hapart
    · exact fun hor => hor.elim (fun hn => hn ledger.records.nodup)
        (fun hn => hn (List.nodup_append.mp h.keyHashes_nodup).1)
  have hvalues := InsertionMap.values_ofValues hkeys
  have hcleanups := (List.Perm.of_eq hvalues).trans hperm
  refine ⟨_, hopen, rfl, rfl, hcleanups, h.congr ⟨.refl _, rfl, hcleanups.symm⟩ ?_⟩
  intro hcompact entry he hscope
  -- a document without cleanups implies one for each scoped tombstone
  simp only at hcompact he
  rw [hvalues, LedgerDocument.cleanupList, Option.isNone_iff_eq_none.mp hcompact, hlist]
  refine List.mem_map_of_mem (List.mem_filter.mpr ⟨he, hscope⟩)

end Ledger

/-- The empty document of an absent file opens as the empty ledger. -/
theorem openDocument_initialDocument : openDocument initialDocument = .ok Ledger.initial := by
  decide

end AgentHost
