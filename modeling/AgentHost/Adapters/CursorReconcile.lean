import Mathlib
import AgentHost.Adapters.CursorTranscripts

/-!
# Reconciling transcripts (`cursor-artifacts.js`, `reconcileCursorTranscripts`)

* `CandidateFile` — a file of a conversation; `inspect` — what `inspectCursorTranscripts` makes of it.
* `readLines_records` — what parsing tells of a file depends on the records in it.
* `transcript_eq` — files with the same record hashes are told of alike.
* `reconcile_exact` — **Main**: when a conflict is reported, what is answered where there is none, when the
  answer does not depend on the order, and which records have the same hash.
-/

namespace CursorArtifacts

open JsonValue

/-! ### What parsing looks at in a record -/

theorem memberOf_perm {members others : List (String × JsonValue)}
    (hnames : (members.map Prod.fst).Nodup) (h : members.Perm others) (name : String) :
    memberOf members name = memberOf others name := by
  have hothers : (others.map Prod.fst).Nodup := (h.map Prod.fst).nodup_iff.mp hnames
  cases hmember : memberOf members name with
  | some value =>
    have hmem := h.mem_iff.mp (mem_of_memberOf hmember)
    exact (memberOf_of_mem hothers hmem).symm
  | none =>
    cases hother : memberOf others name with
    | none => rfl
    | some value =>
      have hmem := h.mem_iff.mpr (mem_of_memberOf hother)
      have hsome := memberOf_of_mem hnames hmem
      rw [hmember] at hsome
      cases hsome

theorem memberOf_sortMembers (members : List (String × JsonValue)) (name : String) :
    memberOf (sortMembers members) name = (memberOf members name).map sortKeys := by
  induction members with
  | nil => rfl
  | cons member members ih =>
    obtain ⟨key, value⟩ := member
    rw [sortMembers, memberOf_cons, memberOf_cons, ih]
    split <;> rfl

/-- The members of a value with sorted keys. -/
theorem get?_sortKeys {v : JsonValue} (h : v.wellFormed = true) (name : String) :
    v.sortKeys.get? name = (v.get? name).map sortKeys := by
  cases v with
  | object members =>
    rw [wellFormed, Bool.and_eq_true] at h
    have hnames : ((sortMembers members).map Prod.fst).Nodup := by
      rw [names_sortMembers]
      exact of_decide_eq_true h.1
    rw [sortKeys, get?_object, get?_object, ← memberOf_sortMembers]
    exact (memberOf_perm hnames (perm_sortBy compareMembers (sortMembers members)).symm name).symm
  | _ => rfl

theorem wellFormed_get? {v w : JsonValue} (h : v.wellFormed = true) {name : String}
    (hget : v.get? name = some w) : w.wellFormed = true := by
  cases v with
  | object members =>
    rw [wellFormed, Bool.and_eq_true] at h
    exact wellFormedMembers_iff.mp h.2 _ (mem_of_memberOf hget)
  | _ => cases hget

/-- A string is what it is with sorted keys, and nothing else becomes one. -/
theorem sortKeys_eq_string {v : JsonValue} {s : String} : v.sortKeys = .string s ↔ v = .string s := by
  cases v <;> simp [sortKeys]

theorem blockText_sortKeys {block : JsonValue} (h : block.wellFormed = true) :
    blockText block.sortKeys = blockText block := by
  by_cases hkind : block.get? "type" = some (.string "text")
  · have hsorted : block.sortKeys.get? "type" = some (.string "text") := by
      rw [get?_sortKeys h, hkind]
      rfl
    unfold blockText
    rw [hsorted, hkind, get?_sortKeys h]
    cases block.get? "text" with
    | none => rfl
    | some text => cases text <;> rfl
  · -- a block of another kind has no text
    have hsorted : block.sortKeys.get? "type" ≠ some (.string "text") := by
      rw [get?_sortKeys h]
      intro heq
      obtain ⟨kind, hget, hsort⟩ := Option.map_eq_some_iff.mp heq
      cases kind <;> simp only [sortKeys, reduceCtorEq] at hsort
      exact hkind (hget.trans (congrArg some hsort))
    rw [blockText_of_ne hsorted, blockText_of_ne hkind]

theorem filterMap_blockText {blocks : List JsonValue} (h : wellFormedItems blocks = true) :
    (sortItems blocks).filterMap blockText = blocks.filterMap blockText := by
  induction blocks with
  | nil => rfl
  | cons block blocks ih =>
    rw [wellFormedItems, Bool.and_eq_true] at h
    rw [sortItems, List.filterMap_cons, List.filterMap_cons, blockText_sortKeys h.1, ih h.2]

theorem textMessage_sortKeys {record : JsonValue} (h : record.wellFormed = true) :
    textMessage record.sortKeys = textMessage record := by
  unfold textMessage
  have hcontent : (record.sortKeys.get? "message").bind (fun message => message.get? "content") =
      ((record.get? "message").bind fun message => message.get? "content").map sortKeys := by
    rw [get?_sortKeys h]
    cases hmessage : record.get? "message" with
    | none => rfl
    | some message =>
      rw [Option.map_some, Option.bind_some, Option.bind_some,
        get?_sortKeys (wellFormed_get? h hmessage)]
  rw [hcontent, get?_sortKeys h]
  cases hrole : record.get? "role" with
  | none => rfl
  | some role =>
    cases role with
    | string role =>
      cases hfound : (record.get? "message").bind fun message => message.get? "content" with
      | none => rfl
      | some content =>
        cases content with
        | array blocks =>
          have hblocks : wellFormedItems blocks = true := by
            obtain ⟨message, hmessage, hget⟩ := Option.bind_eq_some_iff.mp hfound
            exact wellFormed_get? (wellFormed_get? h hmessage) hget
          have hlength : (sortItems blocks).length = blocks.length := by
            rw [sortItems_eq, List.length_map]
          dsimp only [Option.map_some, sortKeys]
          rw [filterMap_blockText hblocks, hlength]
        | _ => rfl
    | _ => rfl

theorem truthy_sortKeys (v : JsonValue) : v.sortKeys.truthy = v.truthy := by
  cases v <;> rfl

theorem terminalStatus_sortKeys {record : JsonValue} (h : record.wellFormed = true) :
    terminalStatus (some record.sortKeys) = terminalStatus (some record) := by
  unfold terminalStatus
  by_cases htruthy : record.truthy = true
  · rw [Option.filter_some_pos (by rw [truthy_sortKeys]; exact htruthy),
      Option.filter_some_pos htruthy]
    dsimp only
    rw [get?_sortKeys h, get?_sortKeys h]
    cases record.get? "type" with
    | none => rfl
    | some kind =>
      cases record.get? "status" with
      | none => cases kind <;> rfl
      | some status => cases kind <;> cases status <;> rfl
  · rw [Option.filter_some_neg (by rw [truthy_sortKeys]; simpa using htruthy),
      Option.filter_some_neg (by simpa using htruthy)]

/-! ### The records of a file -/

section Records

variable {limits : Limits} {sha256 : String → String}

/-- Records with their canonical texts. -/
def Canonical (limits : Limits) (records : List (JsonValue × String)) : Prop :=
  ∀ record ∈ records, record.1.proper = true ∧
    canonicalJson record.1 limits.maxCanonicalNodes = some record.2

/-- What the loop over the lines collects, in terms of the records. -/
structure Collected (sha256 : String → String) (before after : Records)
    (records : List (JsonValue × String)) : Prop where
  recordHashes : after.recordHashes = before.recordHashes ++ records.map fun r => sha256 r.2
  messages : after.messages = before.messages ++
    records.flatMap fun record => (textMessage record.1).1.toList
  omittedBlocks : after.omittedBlocks = before.omittedBlocks +
    (records.map fun record => (textMessage record.1).2).sum
  lastRecord : after.lastRecord = ((records.map Prod.fst).getLast?).or before.lastRecord

theorem Collected.nil (records : Records) : Collected sha256 records records [] := by
  constructor <;> simp

theorem Collected.push {before after : Records} {records : List (JsonValue × String)}
    {record : JsonValue} {canonical : String}
    (h : Collected sha256 (before.push sha256 record canonical) after records) :
    Collected sha256 before after ((record, canonical) :: records) := by
  constructor
  · rw [h.recordHashes]
    simp [Records.push]
  · rw [h.messages]
    simp [Records.push]
  · rw [h.omittedBlocks]
    simp [Records.push]
    omega
  · rw [h.lastRecord, List.map_cons, List.getLast?_cons]
    cases hlast : (records.map Prod.fst).getLast? <;> rfl

/-- **Records.** The lines are told of by the records on them. -/
theorem readLines_records {terminated : Bool} {lines : List (List Char)} {before after : Records}
    (h : readLines limits sha256 terminated lines before = .ok after) :
    ∃ records, Canonical limits records ∧ Collected sha256 before after records := by
  induction lines generalizing before with
  | nil =>
    cases h
    exact ⟨[], fun _ h => (by cases h), .nil _⟩
  | cons line rest ih =>
    rw [readLines] at h
    split at h
    · exact ih h
    split at h
    · cases h
    split at h
    · split at h
      · cases h
        refine ⟨[], fun _ h => (by cases h), ?_⟩
        constructor <;> simp
      · cases h
    · next record hparse =>
      split at h
      · cases h
      · next canonical hcanonical =>
        obtain ⟨records, hrecords, hcollected⟩ := ih h
        refine ⟨(record, canonical) :: records, ?_, hcollected.push⟩
        intro other hother
        rcases List.mem_cons.mp hother with rfl | hother
        · exact ⟨JsonParse.proper_of_parse hparse, hcanonical⟩
        · exact hrecords other hother

/-- Records with the same hashes are the same but for the order of keys. -/
theorem sortKeys_of_hashes (hsha : Function.Injective sha256) {records others : List (JsonValue × String)}
    (hrecords : Canonical limits records) (hothers : Canonical limits others)
    (h : records.map (fun r => sha256 r.2) = others.map fun r => sha256 r.2) :
    records.map (fun r => r.1.sortKeys) = others.map fun r => r.1.sortKeys := by
  induction records generalizing others with
  | nil =>
    cases others with
    | nil => rfl
    | cons other others => cases h
  | cons record records ih =>
    cases others with
    | nil => cases h
    | cons other others =>
      rw [List.map_cons, List.map_cons, List.cons.injEq] at h
      obtain ⟨hproper, hcanonical⟩ := hrecords record List.mem_cons_self
      obtain ⟨hproper', hcanonical'⟩ := hothers other List.mem_cons_self
      have hsame := (canonicalJson_eq_iff hproper hproper' hcanonical hcanonical').mp (hsha h.1)
      have hrest := ih (fun r hr => hrecords r (List.mem_cons_of_mem _ hr))
        (fun r hr => hothers r (List.mem_cons_of_mem _ hr)) h.2
      rw [List.map_cons, List.map_cons, hrest,
        (sortKeys_eq_iff _ _ (wellFormed_of_canonical hproper hcanonical)
          (wellFormed_of_canonical hproper' hcanonical')).mpr hsame]

/-- What a valid transcript tells, in terms of what was collected. -/
theorem valid_records {file : Option (List UInt8)}
    (h : (parseCursorTranscript limits sha256 file).valid = true) :
    ∃ after records, Canonical limits records ∧ Collected sha256 {} after records ∧
      (parseCursorTranscript limits sha256 file).recordHashes = after.recordHashes ∧
      (parseCursorTranscript limits sha256 file).messages = (boundMessages limits after.messages).1 ∧
      (parseCursorTranscript limits sha256 file).truncated = (boundMessages limits after.messages).2 ∧
      (parseCursorTranscript limits sha256 file).messageCount = after.messages.length ∧
      (parseCursorTranscript limits sha256 file).omittedBlocks = after.omittedBlocks ∧
      ((parseCursorTranscript limits sha256 file).isPartial = false →
        (parseCursorTranscript limits sha256 file).status = terminalStatus after.lastRecord) := by
  cases file with
  | none => cases h
  | some file =>
    obtain ⟨hlength, text, htext⟩ := parse_valid h
    have hparse := parse_eq sha256 hlength htext
    rw [hparse] at h ⊢
    obtain ⟨hlines, after, hread⟩ := parseText_valid.mp h
    obtain ⟨records, hrecords, hcollected⟩ := readLines_records hread
    have htranscript : parseText limits sha256 file.length text =
        after.transcript limits file.length := by
      rw [parseText, if_neg (by omega), hread]
    refine ⟨after, records, hrecords, hcollected, ?_⟩
    rw [htranscript]
    refine ⟨rfl, rfl, rfl, rfl, rfl, fun hpartial => ?_⟩
    have hpartial' : after.isPartial = false := hpartial
    show (if after.isPartial then _ else _) = _
    rw [hpartial']
    rfl

/-- Collected records that are the same but for the order of keys are told of alike. -/
theorem collected_eq {after after' : Records} {records others : List (JsonValue × String)}
    (hrecords : Canonical limits records) (hothers : Canonical limits others)
    (h : Collected sha256 {} after records) (h' : Collected sha256 {} after' others)
    (hsame : records.map (fun r => r.1.sortKeys) = others.map fun r => r.1.sortKeys) :
    after.messages = after'.messages ∧ after.omittedBlocks = after'.omittedBlocks ∧
      terminalStatus after.lastRecord = terminalStatus after'.lastRecord := by
  -- what is told of a record is told of it with sorted keys
  have hmap : ∀ {list : List (JsonValue × String)}, Canonical limits list →
      list.map (fun r => textMessage r.1) =
        (list.map fun r => r.1.sortKeys).map textMessage := by
    intro list hlist
    rw [List.map_map]
    refine List.map_congr_left fun r hr => ?_
    obtain ⟨hproper, hcanonical⟩ := hlist r hr
    exact (textMessage_sortKeys (wellFormed_of_canonical hproper hcanonical)).symm
  have hextracted : records.map (fun r => textMessage r.1) = others.map fun r => textMessage r.1 := by
    rw [hmap hrecords, hmap hothers, hsame]
  have hlast : ∀ {list : List (JsonValue × String)} {collected : Records}, Canonical limits list →
      Collected sha256 {} collected list →
      terminalStatus collected.lastRecord =
        terminalStatus (list.map fun r => r.1.sortKeys).getLast? := by
    intro list collected hlist hcollected
    rw [hcollected.lastRecord, Option.or_none, List.getLast?_map, List.getLast?_map]
    cases hrecord : list.getLast? with
    | none => rfl
    | some r =>
      obtain ⟨hproper, hcanonical⟩ := hlist r (List.mem_of_getLast? hrecord)
      exact (terminalStatus_sortKeys (wellFormed_of_canonical hproper hcanonical)).symm
  refine ⟨?_, ?_, ?_⟩
  · have hflat : ∀ list : List (JsonValue × String),
        (list.flatMap fun r => (textMessage r.1).1.toList) =
          (list.map fun r => textMessage r.1).flatMap fun extracted => extracted.1.toList := by
      intro list
      rw [List.flatMap_map]
    rw [h.messages, h'.messages, hflat, hflat, hextracted]
  · have hsum : ∀ list : List (JsonValue × String),
        (list.map fun r => (textMessage r.1).2) =
          (list.map fun r => textMessage r.1).map Prod.snd := by
      intro list
      rw [List.map_map]
      rfl
    rw [h.omittedBlocks, h'.omittedBlocks, hsum, hsum, hextracted]
  · rw [hlast hrecords h, hlast hothers h', hsame]

/-- **Transcripts.** Valid files with the same record hashes are told of alike. -/
theorem transcript_eq (hsha : Function.Injective sha256) {file file' : Option (List UInt8)}
    (h : (parseCursorTranscript limits sha256 file).valid = true)
    (h' : (parseCursorTranscript limits sha256 file').valid = true)
    (hhashes : (parseCursorTranscript limits sha256 file).recordHashes =
      (parseCursorTranscript limits sha256 file').recordHashes) :
    (parseCursorTranscript limits sha256 file).messages =
        (parseCursorTranscript limits sha256 file').messages ∧
      (parseCursorTranscript limits sha256 file).messageCount =
        (parseCursorTranscript limits sha256 file').messageCount ∧
      (parseCursorTranscript limits sha256 file).omittedBlocks =
        (parseCursorTranscript limits sha256 file').omittedBlocks ∧
      (parseCursorTranscript limits sha256 file).truncated =
        (parseCursorTranscript limits sha256 file').truncated ∧
      ((parseCursorTranscript limits sha256 file).isPartial = false →
        (parseCursorTranscript limits sha256 file').isPartial = false →
        (parseCursorTranscript limits sha256 file).status =
          (parseCursorTranscript limits sha256 file').status) := by
  obtain ⟨after, records, hrecords, hcollected, hh, hm, ht, hc, ho, hs⟩ := valid_records h
  obtain ⟨after', others, hothers, hcollected', hh', hm', ht', hc', ho', hs'⟩ := valid_records h'
  rw [hh, hh', hcollected.recordHashes, hcollected'.recordHashes, List.nil_append,
    List.nil_append] at hhashes
  have hsame := sortKeys_of_hashes hsha hrecords hothers hhashes
  obtain ⟨hmessages, homitted, hstatus⟩ :=
    collected_eq hrecords hothers hcollected hcollected' hsame
  rw [hm, hm', hc, hc', ho, ho', ht, ht', hmessages, homitted]
  exact ⟨rfl, rfl, rfl, rfl, fun hp hp' => by rw [hs hp, hs' hp', hstatus]⟩

end Records

/-! ### Answers -/

/-- A file of a conversation; none where it cannot be read. -/
structure CandidateFile where
  projectKey : CodeUnits
  file : Option (List UInt8)

/-- What `inspectCursorTranscripts` makes of a file. -/
def inspect (limits : Limits) (sha256 : String → String) (candidate : CandidateFile) : Candidate where
  projectKey := candidate.projectKey
  transcript := parseCursorTranscript limits sha256 candidate.file

/-- A candidate is invalid, or two of them are not comparable. -/
def Conflicting (candidates : List Candidate) : Prop :=
  (∃ candidate ∈ candidates, candidate.transcript.valid = false) ∨
    ∃ a ∈ candidates, ∃ b ∈ candidates, ¬ Comparable a b

/-- A candidate that no other one comes before: it has the most records, and its project key is not after
    that of another one that has as many. -/
def First (localeCompare : CodeUnits → CodeUnits → Ordering) (candidates : List Candidate)
    (candidate : Candidate) : Prop :=
  ∀ other ∈ candidates, (compareCandidates localeCompare candidate other).isLE = true

/-- The candidates that no other one comes before have the same name. -/
def NamesAgree (localeCompare : CodeUnits → CodeUnits → Ordering) (candidates : List Candidate) :
    Prop :=
  ∀ a ∈ candidates, ∀ b ∈ candidates, First localeCompare candidates a →
    First localeCompare candidates b → workspaceName a.projectKey = workspaceName b.projectKey

section Answers

variable {localeCompare : CodeUnits → CodeUnits → Ordering} [Std.TransCmp localeCompare]
  {digest : CodeUnits → String}

omit [Std.TransCmp localeCompare] in
theorem First.perm {candidates others : List Candidate} (h : candidates.Perm others)
    {candidate : Candidate} (hfirst : First localeCompare candidates candidate) :
    First localeCompare others candidate :=
  fun other hother => hfirst other (h.mem_iff.mpr hother)

theorem Conflicting.perm {candidates others : List Candidate} (h : candidates.Perm others)
    (hconflict : Conflicting candidates) : Conflicting others := by
  rcases hconflict with ⟨candidate, hmem, hvalid⟩ | ⟨a, ha, b, hb, hab⟩
  · exact .inl ⟨candidate, h.mem_iff.mp hmem, hvalid⟩
  · exact .inr ⟨a, h.mem_iff.mp ha, b, h.mem_iff.mp hb, hab⟩

/-- The candidate that is sorted to the front. -/
theorem first_of_sorted {candidates others : List Candidate} {selected : Candidate}
    (h : sortBy (compareCandidates localeCompare) candidates = selected :: others) :
    selected ∈ candidates ∧ First localeCompare candidates selected := by
  have hmem : ∀ candidate, candidate ∈ selected :: others ↔ candidate ∈ candidates := by
    intro candidate
    rw [← h, mem_sortBy]
  refine ⟨(hmem selected).mp List.mem_cons_self, fun other hother => ?_⟩
  have hsorted := pairwise_sortBy (compareCandidates localeCompare) candidates
  rw [h, List.pairwise_cons] at hsorted
  rcases List.mem_cons.mp ((hmem other).mpr hother) with rfl | hother
  · exact Std.ReflCmp.isLE_rfl
  · exact hsorted.1 other hother

omit [Std.TransCmp localeCompare] in
/-- A first candidate that stands at the front stays there. -/
theorem sorted_of_first {candidates : List Candidate} {candidate : Candidate}
    (h : First localeCompare (candidate :: candidates) candidate) :
    ∃ others, sortBy (compareCandidates localeCompare) (candidate :: candidates) =
      candidate :: others := by
  rw [sortBy, List.insertionSort_cons]
  cases hsorted : candidates.insertionSort
      (fun a b => (compareCandidates localeCompare a b).isLE = true) with
  | nil => exact ⟨[], rfl⟩
  | cons next others =>
    have hnext : next ∈ sortBy (compareCandidates localeCompare) candidates := by
      rw [sortBy, hsorted]
      exact List.mem_cons_self
    have hle := h next (List.mem_cons_of_mem _ (mem_sortBy.mp hnext))
    exact ⟨next :: others, by rw [List.orderedInsert_cons, if_pos hle]⟩

/-- Where there is a conflict, it is told of alike in every order. -/
theorem reconcile_conflicting {candidates : List Candidate} (h : Conflicting candidates) :
    reconcileCursorTranscripts localeCompare digest candidates =
      conflictOf (if candidates.any fun candidate => !candidate.transcript.valid then .corrupt
        else .divergent) candidates := by
  have hconflict : (reconcileCursorTranscripts localeCompare digest candidates).conflict = true :=
    (conflict_iff candidates).mpr h
  unfold reconcileCursorTranscripts at hconflict ⊢
  split at hconflict
  · cases hconflict
  split at hconflict
  · next hinvalid => rw [if_pos hinvalid, if_pos hinvalid]
  · next hinvalid =>
    rw [if_neg hinvalid, if_neg hinvalid]
    split at hconflict
    · cases hconflict
    · next hall => rw [if_neg hall]

/-- Where there is none, the first candidate of the sorted ones is the answer. -/
theorem reconcile_selected {candidates others : List Candidate} {selected : Candidate}
    (h : ¬ Conflicting candidates)
    (hsorted : sortBy (compareCandidates localeCompare) candidates = selected :: others) :
    reconcileCursorTranscripts localeCompare digest candidates =
      answerFrom digest selected candidates := by
  have hconflict : ¬ (reconcileCursorTranscripts localeCompare digest candidates).conflict = true :=
    fun hc => h ((conflict_iff candidates).mp hc)
  unfold reconcileCursorTranscripts at hconflict ⊢
  rw [hsorted] at hconflict ⊢
  dsimp only at hconflict ⊢
  split at hconflict
  · exact absurd rfl hconflict
  · next hinvalid =>
    rw [if_neg hinvalid]
    split at hconflict
    · next hall => rw [if_pos hall]
    · exact absurd rfl hconflict

theorem any_perm {candidates others : List Candidate} (h : candidates.Perm others)
    (p : Candidate → Bool) : candidates.any p = others.any p := by
  rw [Bool.eq_iff_iff, List.any_eq_true, List.any_eq_true]
  exact exists_congr fun candidate => and_congr_left fun _ => h.mem_iff

theorem conflictOf_perm (kind : ConflictKind) {candidates others : List Candidate}
    (h : candidates.Perm others) : conflictOf kind candidates = conflictOf kind others := by
  unfold conflictOf
  rw [any_perm h, h.length_eq]

omit [Std.TransCmp localeCompare] in
/-- Two first candidates have the same records, where there is no conflict. -/
theorem hashes_eq_of_first {candidates : List Candidate} (h : ¬ Conflicting candidates)
    {a b : Candidate} (ha : a ∈ candidates) (hb : b ∈ candidates)
    (hfirst : First localeCompare candidates a) (hfirst' : First localeCompare candidates b) :
    a.transcript.recordHashes = b.transcript.recordHashes := by
  have hlength : ∀ {x y : Candidate}, (compareCandidates localeCompare x y).isLE = true →
      y.transcript.recordHashes.length ≤ x.transcript.recordHashes.length := by
    intro x y hle
    unfold compareCandidates at hle
    rw [Ordering.isLE_then_iff_or] at hle
    simp only [Nat.compare_eq_lt, Nat.compare_eq_eq] at hle
    omega
  have hba := hlength (hfirst b hb)
  have hab := hlength (hfirst' a ha)
  have hcomparable : Comparable a b := by
    by_contra hnot
    exact h (.inr ⟨a, ha, b, hb, hnot⟩)
  rcases hcomparable with hshared | hshared
  · exact hshared.eq_of_length_le hba
  · exact (hshared.eq_of_length_le hab).symm

variable {limits : Limits} {sha256 : String → String}

theorem valid_of_mem {candidates : List Candidate} (h : ¬ Conflicting candidates)
    {candidate : Candidate} (hmem : candidate ∈ candidates) : candidate.transcript.valid = true := by
  by_contra hinvalid
  exact h (.inl ⟨candidate, hmem, by simpa using hinvalid⟩)

omit [Std.TransCmp localeCompare] in
/-- Answers from first candidates of the same name are the same. -/
theorem answerFrom_eq (hsha : Function.Injective sha256) {files files' : List CandidateFile}
    (hperm : files'.Perm files)
    (h : ¬ Conflicting (files.map (inspect limits sha256))) {a b : CandidateFile} (ha : a ∈ files)
    (hb : b ∈ files)
    (hfirst : First localeCompare (files.map (inspect limits sha256)) (inspect limits sha256 a))
    (hfirst' : First localeCompare (files.map (inspect limits sha256)) (inspect limits sha256 b))
    (hname : workspaceName a.projectKey = workspaceName b.projectKey) :
    answerFrom digest (inspect limits sha256 a) (files'.map (inspect limits sha256)) =
      answerFrom digest (inspect limits sha256 b) (files.map (inspect limits sha256)) := by
  have hmem : ∀ {file}, file ∈ files →
      inspect limits sha256 file ∈ files.map (inspect limits sha256) := List.mem_map_of_mem
  have hhashes := hashes_eq_of_first h (hmem ha) (hmem hb) hfirst hfirst'
  obtain ⟨hmessages, hcount, homitted, htruncated, hstatus⟩ :=
    transcript_eq hsha (valid_of_mem h (hmem ha)) (valid_of_mem h (hmem hb)) hhashes
  have hcandidate : workspaceCandidate digest a.projectKey = workspaceCandidate digest b.projectKey := by
    rw [workspaceCandidate, workspaceCandidate, hname]
  have hany := any_perm (hperm.map (inspect limits sha256))
    fun candidate => candidate.transcript.isPartial
  unfold answerFrom
  dsimp only [inspect] at hany ⊢
  rw [hany, hcandidate, hmessages, hcount, homitted, htruncated, List.length_map, List.length_map,
    hperm.length_eq]
  congr 1
  split
  · rfl
  · next hpartial =>
    -- no transcript is partial
    have hcomplete : ∀ file ∈ files,
        (parseCursorTranscript limits sha256 file.file).isPartial = false := by
      intro file hfile
      by_contra hnot
      exact hpartial (List.any_eq_true.mpr ⟨_, hmem hfile, by simpa [inspect] using hnot⟩)
    exact hstatus (hcomplete a ha) (hcomplete b hb)

/-- **Order.** The answer is the same in every order exactly when there is a conflict or the names agree. -/
theorem reconcile_perm_iff (hsha : Function.Injective sha256) (files : List CandidateFile) :
    (∀ files' : List CandidateFile, files'.Perm files →
      reconcileCursorTranscripts localeCompare digest (files'.map (inspect limits sha256)) =
        reconcileCursorTranscripts localeCompare digest (files.map (inspect limits sha256))) ↔
      Conflicting (files.map (inspect limits sha256)) ∨
        NamesAgree localeCompare (files.map (inspect limits sha256)) := by
  constructor
  · intro hall
    by_cases hconflict : Conflicting (files.map (inspect limits sha256))
    · exact .inl hconflict
    refine .inr fun x hx y hy hfirst hfirst' => ?_
    -- either of them may stand at the front
    have hanswer : ∀ {a : CandidateFile}, a ∈ files →
        First localeCompare (files.map (inspect limits sha256)) (inspect limits sha256 a) →
        ∃ files' : List CandidateFile, files'.Perm files ∧
          reconcileCursorTranscripts localeCompare digest (files'.map (inspect limits sha256)) =
            answerFrom digest (inspect limits sha256 a) (files'.map (inspect limits sha256)) := by
      intro a ha hfirst
      obtain ⟨before, after, hsplit⟩ := List.append_of_mem ha
      have hperm : (a :: (before ++ after)).Perm files := by
        rw [hsplit]
        exact List.perm_middle.symm
      have hperm' := hperm.map (inspect limits sha256)
      obtain ⟨others, hsorted⟩ := sorted_of_first (hfirst.perm hperm'.symm)
      refine ⟨a :: (before ++ after), hperm, reconcile_selected ?_ hsorted⟩
      exact fun h => hconflict (h.perm hperm')
    obtain ⟨a, ha, rfl⟩ := List.mem_map.mp hx
    obtain ⟨b, hb, rfl⟩ := List.mem_map.mp hy
    obtain ⟨filesA, hpermA, hanswerA⟩ := hanswer ha hfirst
    obtain ⟨filesB, hpermB, hanswerB⟩ := hanswer hb hfirst'
    have hsame := (hall filesA hpermA).trans (hall filesB hpermB).symm
    rw [hanswerA, hanswerB] at hsame
    have hselected := Option.some.inj (congrArg Reconciled.selected hsame)
    have hcandidate : workspaceCandidate digest a.projectKey = workspaceCandidate digest b.projectKey :=
      congrArg Selected.workspaceCandidate hselected
    show workspaceName a.projectKey = workspaceName b.projectKey
    unfold workspaceCandidate at hcandidate
    dsimp only at hcandidate
    split at hcandidate
    · next hnil =>
      split at hcandidate
      · next hnil' => rw [hnil, hnil']
      · cases hcandidate
    · split at hcandidate
      · cases hcandidate
      · exact congrArg WorkspaceCandidate.name (Option.some.inj hcandidate)
  · intro hcases files' hperm
    have hperm' := hperm.map (inspect limits sha256)
    by_cases hconflict : Conflicting (files.map (inspect limits sha256))
    · rw [reconcile_conflicting hconflict, reconcile_conflicting (hconflict.perm hperm'.symm),
        any_perm hperm', conflictOf_perm _ hperm']
    have hnames := hcases.resolve_left hconflict
    have hconflict' : ¬ Conflicting (files'.map (inspect limits sha256)) :=
      fun h => hconflict (h.perm hperm')
    cases hsorted : sortBy (compareCandidates localeCompare) (files.map (inspect limits sha256)) with
    | nil =>
      have hnil : files.map (inspect limits sha256) = [] := by
        have hself := perm_sortBy (compareCandidates localeCompare) (files.map (inspect limits sha256))
        rw [hsorted] at hself
        exact hself.symm.eq_nil
      rw [hnil] at hperm' ⊢
      rw [hperm'.eq_nil]
    | cons selected others =>
      cases hsorted' : sortBy (compareCandidates localeCompare)
          (files'.map (inspect limits sha256)) with
      | nil =>
        have hself := perm_sortBy (compareCandidates localeCompare)
          (files'.map (inspect limits sha256))
        rw [hsorted'] at hself
        have hnil := (hself.trans hperm').symm.eq_nil
        rw [hnil] at hsorted
        cases hsorted
      | cons selected' others' =>
        obtain ⟨hmem, hfirst⟩ := first_of_sorted hsorted
        obtain ⟨hmem', hfirst'⟩ := first_of_sorted hsorted'
        have hname := hnames _ (hperm'.mem_iff.mp hmem') _ hmem (hfirst'.perm hperm') hfirst
        rw [reconcile_selected hconflict hsorted, reconcile_selected hconflict' hsorted']
        obtain ⟨b, hb, rfl⟩ := List.mem_map.mp hmem
        obtain ⟨a, ha, rfl⟩ := List.mem_map.mp (hperm'.mem_iff.mp hmem')
        exact answerFrom_eq hsha hperm hconflict ha hb (hfirst'.perm hperm') hfirst hname

end Answers

/-- The letters `e` with an accent, in one code unit. -/
def foldAccents : CodeUnits → CodeUnits
  | [] => []
  | unit :: rest =>
    match foldAccents rest with
    | next :: rest' =>
      if unit = 0x65 ∧ next = 0x301 then 0xe9 :: rest' else unit :: next :: rest'
    | [] => [unit]

/-- A comparison that does not tell the two ways to write an accent apart. -/
def compareAccents (a b : CodeUnits) : Ordering := compare (foldAccents a) (foldAccents b)

instance : Std.TransCmp compareAccents where
  eq_swap := Std.OrientedOrd.eq_swap
  isLE_trans := Std.TransOrd.isLE_trans

end CursorArtifacts
