import Mathlib
import AgentHost.Adapters.CursorCanonical
import AgentHost.Lib.CodeUnits
import AgentHost.Lib.JsonPrefix
import AgentHost.Lib.Texts
import AgentHost.Lib.Utf8Prefix

/-!
# Cursor transcripts (`cursor-artifacts.js`)

A text that is cut by its length is a list of UTF-16 code units.

* `parseCursorTranscript` — what the bytes of a file stand for.
* `reconcileCursorTranscripts` — one answer from the transcripts of a conversation.
* `readLines_eq` — the lines in terms of the records on them.
* `prefix_reconciled` — **Main**: a prefix of a transcript of objects is valid, and no conflict with it,
  exactly where it does not end inside a character.
-/

namespace CursorArtifacts

/-! ### Parsing -/

/-- The limits that parsing looks at, with their defaults. -/
structure Limits where
  maxTranscriptBytes : Nat := 8 * 1024 * 1024
  maxLines : Nat := 20000
  maxLineBytes : Nat := 1024 * 1024
  maxCanonicalNodes : Nat := 20000
  maxMessages : Nat := 120
  maxMessageChars : Nat := 8192
  maxTextChars : Nat := 64 * 1024

inductive InvalidReason
  | unreadable | invalidUtf8 | tooManyLines | lineTooLarge | invalidRecord | recordTooComplex
  deriving DecidableEq

def InvalidReason.text : InvalidReason → String
  | unreadable => "unreadable"
  | invalidUtf8 => "invalid_utf8"
  | tooManyLines => "too_many_lines"
  | lineTooLarge => "line_too_large"
  | invalidRecord => "invalid_record"
  | recordTooComplex => "record_too_complex"

inductive TranscriptStatus
  | unknown | working | idle | error
  deriving DecidableEq

structure Message where
  role : String
  text : CodeUnits
  deriving DecidableEq

structure Transcript where
  valid : Bool
  reason : Option InvalidReason
  isPartial : Bool
  recordHashes : List String
  status : TranscriptStatus
  messages : List Message
  messageCount : Nat
  omittedBlocks : Nat
  truncated : Bool
  bytes : Nat
  deriving DecidableEq

def invalidTranscript (reason : InvalidReason) : Transcript where
  valid := false
  reason := some reason
  isPartial := false
  recordHashes := []
  status := .unknown
  messages := []
  messageCount := 0
  omittedBlocks := 0
  truncated := false
  bytes := 0

/-- The text of a block, where it has one. -/
def blockText (block : JsonValue) : Option String :=
  match block.get? "type", block.get? "text" with
  | some (.string "text"), some (.string text) => some text
  | _, _ => none

/-- A block of another kind has no text. -/
theorem blockText_of_ne {block : JsonValue} (h : block.get? "type" ≠ some (.string "text")) :
    blockText block = none := by
  unfold blockText
  split
  · next hkind _ => exact absurd hkind h
  · rfl

/-- `textMessage`: the message of a record, and how many of its blocks are omitted. -/
def textMessage (record : JsonValue) : Option Message × Nat :=
  match record.get? "role" with
  | some (.string role) =>
    if role = "user" ∨ role = "assistant" then
      match (record.get? "message").bind fun message => message.get? "content" with
      | some (.string text) => (some ⟨role, units text⟩, 0)
      | some (.array blocks) =>
        let texts := blocks.filterMap blockText
        let message := if texts = [] then none
          else some ⟨role, List.intercalate (units "\n") (texts.map units)⟩
        (message, blocks.length - texts.length)
      | _ => (none, 0)
    else (none, 0)
  | _ => (none, 0)

/-- The loop of `boundMessages`, over the messages from the last one on. -/
def boundFrom (limits : Limits) : List Message → Nat → List Message → Bool → List Message × Bool
  | [], _, selected, truncated => (selected, truncated)
  | message :: earlier, remaining, selected, truncated =>
    if selected.length < limits.maxMessages ∧ 0 < remaining then
      let text := (message.text.take limits.maxMessageChars).take remaining
      boundFrom limits earlier (remaining - text.length) (⟨message.role, text⟩ :: selected)
        (truncated || text.length < message.text.length)
    else (selected, truncated)

/-- `boundMessages`. -/
def boundMessages (limits : Limits) (messages : List Message) : List Message × Bool :=
  let bound := boundFrom limits messages.reverse limits.maxTextChars []
    (limits.maxMessages < messages.length)
  (bound.1, bound.2 || bound.1.length < messages.length)

/-- `terminalStatus`, of the last record. -/
def terminalStatus (record : Option JsonValue) : TranscriptStatus :=
  match record.filter JsonValue.truthy with
  | none => .unknown
  | some record =>
    match record.get? "type" with
    | some (.string "turn_ended") =>
      match record.get? "status" with
      | some (.string "success") => .idle
      | some (.string "error") => .error
      | _ => .unknown
    | _ => .working

/-- What the loop over the lines collects. -/
structure Records where
  recordHashes : List String := []
  messages : List Message := []
  omittedBlocks : Nat := 0
  isPartial : Bool := false
  lastRecord : Option JsonValue := none

section Parsing

variable (limits : Limits) (sha256 : String → String)

/-- One record more. -/
def Records.push (records : Records) (record : JsonValue) (canonical : String) : Records :=
  let extracted := textMessage record
  { records with
    recordHashes := records.recordHashes ++ [sha256 canonical]
    lastRecord := some record
    omittedBlocks := records.omittedBlocks + extracted.2
    messages := records.messages ++ extracted.1.toList }

/-- The loop over the lines. -/
def readLines (terminated : Bool) : List (List Char) → Records → Except InvalidReason Records
  | [], records => .ok records
  | line :: rest, records =>
    if Texts.trim line = [] then readLines terminated rest records
    else if limits.maxLineBytes < (Utf8.encode line).length then .error .lineTooLarge
    else
      match JsonParse.parse (String.ofList line) with
      | none =>
        if !terminated ∧ rest = [] then .ok { records with isPartial := true }
        else .error .invalidRecord
      | some record =>
        match canonicalJson record limits.maxCanonicalNodes with
        | none => .error .recordTooComplex
        | some canonical => readLines terminated rest (records.push sha256 record canonical)

/-- Whether a text ends with a line break. -/
def endsLine (text : List Char) : Bool := text.getLast? = some '\n'

/-- The lines of a text. -/
def linesOf (text : List Char) : List (List Char) :=
  if endsLine text then (Texts.split '\n' text).dropLast else Texts.split '\n' text

/-- What is told of a valid transcript. -/
def Records.transcript (bytes : Nat) (records : Records) : Transcript :=
  let bound := boundMessages limits records.messages
  { valid := true
    reason := none
    isPartial := records.isPartial
    recordHashes := records.recordHashes
    status := if records.isPartial then .unknown else terminalStatus records.lastRecord
    messages := bound.1
    messageCount := records.messages.length
    omittedBlocks := records.omittedBlocks
    truncated := bound.2
    bytes }

/-- What follows the decoding. -/
def parseText (bytes : Nat) (text : List Char) : Transcript :=
  if limits.maxLines < (linesOf text).length then invalidTranscript .tooManyLines
  else
    match readLines limits sha256 (endsLine text) (linesOf text) {} with
    | .error reason => invalidTranscript reason
    | .ok records => records.transcript limits bytes

/-- `parseCursorTranscript`, of what a file holds, where it can be read. -/
def parseCursorTranscript (file : Option (List UInt8)) : Transcript :=
  match file.filter fun buffer => buffer.length ≤ limits.maxTranscriptBytes with
  | none => invalidTranscript .unreadable
  | some buffer =>
    match Utf8.decodeFatal buffer with
    | none => invalidTranscript .invalidUtf8
    | some text => parseText limits sha256 buffer.length text

end Parsing

/-! ### Reconciling -/

structure Candidate where
  projectKey : CodeUnits
  transcript : Transcript

structure WorkspaceCandidate where
  id : String
  name : CodeUnits
  deriving DecidableEq

inductive ConflictKind
  | corrupt | divergent
  deriving DecidableEq

def ConflictKind.text : ConflictKind → String
  | corrupt => "corrupt"
  | divergent => "divergent"

/-- What is told of the transcript that was selected. -/
structure Selected where
  workspaceCandidate : Option WorkspaceCandidate
  messages : List Message
  messageCount : Nat
  omittedBlocks : Nat
  truncated : Bool
  deriving DecidableEq

/-- An answer; it is readable where a transcript was selected. -/
structure Reconciled where
  status : TranscriptStatus
  readable : Bool
  conflict : Bool
  conflictKind : Option ConflictKind
  isPartial : Bool
  transcriptCount : Nat
  selected : Option Selected
  deriving DecidableEq

/-- `isPrefix`. -/
def isPrefix (left right : List String) : Bool := left.isPrefixOf right

/-- The control characters that are dropped from a name. -/
def isControl (unit : UInt16) : Bool := unit.toNat ≤ 0x1f || unit.toNat = 0x7f

/-- The name of a workspace. -/
def workspaceName (projectKey : CodeUnits) : CodeUnits :=
  (projectKey.filter fun unit => !isControl unit).take 160

/-- `workspaceCandidate`; `digest` is the beginning of the SHA-256 of a name. -/
def workspaceCandidate (digest : CodeUnits → String) (projectKey : CodeUnits) :
    Option WorkspaceCandidate :=
  let name := workspaceName projectKey
  if name = [] then none else some ⟨"cursor-workspace:" ++ digest name, name⟩

section Reconciling

variable (localeCompare : CodeUnits → CodeUnits → Ordering) (digest : CodeUnits → String)

/-- Longer transcripts come first, and then it is the names that count. -/
def compareCandidates (left right : Candidate) : Ordering :=
  (compare right.transcript.recordHashes.length left.transcript.recordHashes.length).then
    (localeCompare left.projectKey right.projectKey)

/-- A conflict. -/
def conflictOf (kind : ConflictKind) (candidates : List Candidate) : Reconciled where
  status := .unknown
  readable := false
  conflict := true
  conflictKind := some kind
  isPartial := candidates.any fun candidate => candidate.transcript.isPartial
  transcriptCount := candidates.length
  selected := none

/-- The answer from the transcript that was selected. -/
def answerFrom (candidate : Candidate) (candidates : List Candidate) : Reconciled :=
  let isPartial := candidates.any fun candidate => candidate.transcript.isPartial
  let transcript := candidate.transcript
  { status := if isPartial then .unknown else transcript.status
    readable := true
    conflict := false
    conflictKind := none
    isPartial
    transcriptCount := candidates.length
    selected := some
      { workspaceCandidate := workspaceCandidate digest candidate.projectKey
        messages := transcript.messages
        messageCount := transcript.messageCount
        omittedBlocks := transcript.omittedBlocks
        truncated := transcript.truncated } }

/-- `reconcileCursorTranscripts`. -/
def reconcileCursorTranscripts (candidates : List Candidate) : Reconciled :=
  match sortBy (compareCandidates localeCompare) candidates with
  | [] => ⟨.unknown, false, false, none, false, 0, none⟩
  | selected :: others =>
    if candidates.any fun candidate => !candidate.transcript.valid then
      conflictOf .corrupt candidates
    else if (selected :: others).all fun candidate =>
        isPrefix candidate.transcript.recordHashes selected.transcript.recordHashes then
      answerFrom digest selected candidates
    else conflictOf .divergent candidates

end Reconciling

/-! ### Conflicts -/

section Conflicts

variable {localeCompare : CodeUnits → CodeUnits → Ordering} {digest : CodeUnits → String}

instance [Std.TransCmp localeCompare] : Std.TransCmp (compareCandidates localeCompare) where
  eq_swap := by
    intro a b
    unfold compareCandidates
    have hlocale : localeCompare a.projectKey b.projectKey =
        (localeCompare b.projectKey a.projectKey).swap := Std.OrientedCmp.eq_swap
    rw [Ordering.swap_then, ← hlocale, ← Std.OrientedOrd.eq_swap]
  isLE_trans := by
    intro a b c hab hbc
    unfold compareCandidates at hab hbc ⊢
    rw [Ordering.isLE_then_iff_or] at hab hbc ⊢
    simp only [Nat.compare_eq_lt, Nat.compare_eq_eq] at hab hbc ⊢
    rcases hab with hab | ⟨hab, hlocale⟩
    · rcases hbc with hbc | ⟨hbc, _⟩
      · exact .inl (by omega)
      · exact .inl (by omega)
    · rcases hbc with hbc | ⟨hbc, hlocale'⟩
      · exact .inl (by omega)
      · exact .inr ⟨by omega, Std.TransCmp.isLE_trans hlocale hlocale'⟩

/-- The records of two transcripts, one of which goes on where the other one ends. -/
def Comparable (a b : Candidate) : Prop :=
  a.transcript.recordHashes <+: b.transcript.recordHashes ∨
    b.transcript.recordHashes <+: a.transcript.recordHashes

theorem isPrefix_iff {left right : List String} : isPrefix left right = true ↔ left <+: right :=
  List.isPrefixOf_iff_prefix

/-- The candidate that comes first has the most records. -/
theorem length_le_first [Std.TransCmp localeCompare] {candidates others : List Candidate}
    {first : Candidate} (h : sortBy (compareCandidates localeCompare) candidates = first :: others)
    {candidate : Candidate} (hmem : candidate ∈ candidates) :
    candidate.transcript.recordHashes.length ≤ first.transcript.recordHashes.length := by
  have hsorted := pairwise_sortBy (compareCandidates localeCompare) candidates
  have hsortedMem : candidate ∈ sortBy (compareCandidates localeCompare) candidates :=
    mem_sortBy.mpr hmem
  rw [h] at hsortedMem
  rw [h, List.pairwise_cons] at hsorted
  rcases List.mem_cons.mp hsortedMem with rfl | hother
  · exact le_refl _
  · have hle := hsorted.1 candidate hother
    unfold compareCandidates at hle
    rw [Ordering.isLE_then_iff_or] at hle
    simp only [Nat.compare_eq_lt, Nat.compare_eq_eq] at hle
    omega

/-- **Conflicts.** A conflict is reported exactly when a candidate is invalid or two of them are not
    comparable. -/
theorem conflict_iff [Std.TransCmp localeCompare] (candidates : List Candidate) :
    (reconcileCursorTranscripts localeCompare digest candidates).conflict = true ↔
      (∃ candidate ∈ candidates, candidate.transcript.valid = false) ∨
        ∃ a ∈ candidates, ∃ b ∈ candidates, ¬ Comparable a b := by
  unfold reconcileCursorTranscripts
  cases hsorted : sortBy (compareCandidates localeCompare) candidates with
  | nil =>
    have hnil : candidates = [] := by
      have hperm := perm_sortBy (compareCandidates localeCompare) candidates
      rw [hsorted] at hperm
      exact hperm.symm.eq_nil
    rw [hnil]
    simp
  | cons first others =>
    have hmem : ∀ candidate, candidate ∈ first :: others ↔ candidate ∈ candidates := by
      intro candidate
      rw [← hsorted, mem_sortBy]
    dsimp only
    by_cases hinvalid : (candidates.any fun candidate => !candidate.transcript.valid) = true
    · rw [if_pos hinvalid]
      obtain ⟨candidate, hcandidate, hvalid⟩ := List.any_eq_true.mp hinvalid
      exact ⟨fun _ => .inl ⟨candidate, hcandidate, by simpa using hvalid⟩, fun _ => rfl⟩
    rw [if_neg hinvalid]
    have hvalid : ¬ ∃ candidate ∈ candidates, candidate.transcript.valid = false := by
      rintro ⟨candidate, hcandidate, hfalse⟩
      exact hinvalid (List.any_eq_true.mpr ⟨candidate, hcandidate, by rw [hfalse]; rfl⟩)
    split
    · -- all of them are prefixes of the same one
      next hall =>
      rw [List.all_eq_true] at hall
      refine ⟨fun h => absurd h Bool.noConfusion, ?_⟩
      rintro (h | ⟨a, ha, b, hb, hab⟩)
      · exact absurd h hvalid
      · have hleft := isPrefix_iff.mp (hall a ((hmem a).mpr ha))
        have hright := isPrefix_iff.mp (hall b ((hmem b).mpr hb))
        exact absurd (List.prefix_or_prefix_of_prefix hleft hright) hab
    · next hall =>
      refine ⟨fun _ => .inr ?_, fun _ => rfl⟩
      rw [List.all_eq_true] at hall
      push Not at hall
      obtain ⟨candidate, hcandidate, hprefix⟩ := hall
      refine ⟨candidate, (hmem candidate).mp hcandidate, first, (hmem first).mp List.mem_cons_self, ?_⟩
      rintro (h | h)
      · exact hprefix (isPrefix_iff.mpr h)
      · -- the first one is not shorter, so they are equal
        have hlength := length_le_first hsorted ((hmem candidate).mp hcandidate)
        rw [h.eq_of_length_le hlength] at hprefix
        exact hprefix (isPrefix_iff.mpr (List.prefix_refl _))

end Conflicts

/-! ### Blank lines -/

theorem trim_eq_nil {line : List Char} : Texts.trim line = [] ↔ ∀ c ∈ line, isSpace c = true := by
  constructor
  · intro h
    by_contra hne
    push Not at hne
    obtain ⟨c, hc, hspace⟩ := hne
    -- the first character that is no space is kept at both ends
    have hdrop : line.dropWhile isSpace ≠ [] := by
      rw [ne_eq, List.dropWhile_eq_nil_iff]
      exact fun hall => hspace (hall c hc)
    obtain ⟨d, rest, hrest⟩ := List.exists_cons_of_ne_nil hdrop
    have hd : isSpace d = false := by
      have hhead := List.head?_dropWhile_not isSpace line
      rw [hrest] at hhead
      exact hhead
    have htrim : (line.dropWhile isSpace).reverse.dropWhile isSpace = [] := by
      rw [Texts.trim, List.reverse_eq_nil_iff] at h
      exact h
    rw [List.dropWhile_eq_nil_iff] at htrim
    have hmem := htrim d (by rw [hrest]; simp)
    rw [hd] at hmem
    cases hmem
  · intro h
    have hdrop : line.dropWhile isSpace = [] := List.dropWhile_eq_nil_iff.mpr h
    rw [Texts.trim, hdrop]
    rfl

theorem trim_start {line more : List Char} (h : Texts.trim (line ++ more) = []) :
    Texts.trim line = [] := by
  rw [trim_eq_nil] at h ⊢
  exact fun c hc => h c (List.mem_append_left _ hc)

/-! ### Lines of a prefix -/

/-- The lines of a text before and after some point. -/
theorem split_append (start rest : List Char) : ∃ pre line, ∃ more lines,
    Texts.split '\n' start = pre ++ [line] ∧ Texts.split '\n' rest = more :: lines ∧
      Texts.split '\n' (start ++ rest) = pre ++ (line ++ more) :: lines := by
  induction start with
  | nil =>
    obtain ⟨more, lines, hrest⟩ := List.exists_cons_of_ne_nil (Texts.split_ne_nil '\n' rest)
    exact ⟨[], [], more, lines, rfl, hrest, hrest⟩
  | cons c start ih =>
    obtain ⟨pre, line, more, lines, hstart, hrest, hall⟩ := ih
    by_cases hc : c = '\n'
    · subst hc
      refine ⟨[] :: pre, line, more, lines, ?_, hrest, ?_⟩
      · rw [Texts.split_separator, hstart]
        rfl
      · rw [List.cons_append, Texts.split_separator, hall]
        rfl
    · have hsplit : ∀ text first others, Texts.split '\n' text = first :: others →
          Texts.split '\n' (c :: text) = (c :: first) :: others := by
        intro text first others h
        rw [Texts.split, if_neg hc, h]
      cases pre with
      | nil =>
        refine ⟨[], c :: line, more, lines, hsplit _ _ _ hstart, hrest, ?_⟩
        rw [List.cons_append]
        exact hsplit _ _ _ hall
      | cons first pre =>
        refine ⟨(c :: first) :: pre, line, more, lines, hsplit _ _ _ hstart, hrest, ?_⟩
        rw [List.cons_append]
        exact hsplit _ _ _ hall

theorem split_singleton {text line : List Char} (h : Texts.split '\n' text = [line]) :
    '\n' ∉ text := by
  have hmem : line ∈ Texts.split '\n' text := by
    rw [h]
    exact List.mem_singleton_self line
  have hjoin := Texts.join_split '\n' text
  rw [h] at hjoin
  rw [← hjoin]
  exact Texts.separator_notMem_of_mem_split hmem

theorem linesOf_eq_split {text : List Char} (h : endsLine text = false) :
    linesOf text = Texts.split '\n' text := by
  rw [linesOf, h]
  rfl

theorem linesOf_eq_dropLast {text : List Char} (h : endsLine text = true) :
    linesOf text = (Texts.split '\n' text).dropLast := by
  rw [linesOf, if_pos h]

/-- The lines of a text whose beginning is another one: those of the beginning but its last one, that one
    as it goes on, and others. -/
theorem linesOf_append (start : List Char) {rest : List Char} (hne : rest ≠ []) : ∃ pre line more lines tail,
    Texts.split '\n' (start ++ rest) = pre ++ (line ++ more) :: tail ∧
      linesOf (start ++ rest) = pre ++ (line ++ more) :: lines ∧
      linesOf start = pre ++ (if endsLine start then [] else [line]) := by
  obtain ⟨pre, line, more, lines, hstart, hrest, hall⟩ := split_append start rest
  have hown : linesOf start = pre ++ (if endsLine start then [] else [line]) := by
    rw [linesOf, hstart]
    split
    · rw [List.dropLast_concat, List.append_nil]
    · rfl
  cases hends : endsLine (start ++ rest) with
  | false =>
    exact ⟨pre, line, more, lines, lines, hall, by rw [linesOf_eq_split hends, hall], hown⟩
  | true =>
    -- the line break at the end stands in the rest
    have hlines : lines ≠ [] := by
      rintro rfl
      have hlast : rest.getLast? = some '\n' := by
        unfold endsLine at hends
        rw [decide_eq_true_eq, List.getLast?_append_of_ne_nil _ hne] at hends
        exact hends
      exact split_singleton hrest (List.mem_of_getLast? hlast)
    refine ⟨pre, line, more, lines.dropLast, lines, hall, ?_, hown⟩
    rw [linesOf_eq_dropLast hends, hall, List.dropLast_append_of_ne_nil (List.cons_ne_nil _ _),
      List.dropLast_cons_of_ne_nil hlines]

/-! ### Reading the lines of a prefix -/

section Reading

variable {limits : Limits} {sha256 : String → String}

/-- A line of a transcript of objects. -/
def GoodLine (line : List Char) : Prop :=
  Texts.trim line = [] ∨ ∃ list, JsonParse.parse (String.ofList line) = some (.object list)

/-- Only more hashes are appended. -/
theorem hashes_readLines {terminated : Bool} {lines : List (List Char)} {records result : Records}
    (h : readLines limits sha256 terminated lines records = .ok result) :
    records.recordHashes <+: result.recordHashes := by
  induction lines generalizing records with
  | nil =>
    cases h
    exact List.prefix_refl _
  | cons line rest ih =>
    rw [readLines] at h
    split at h
    · exact ih h
    split at h
    · cases h
    split at h
    · split at h
      · cases h
        exact List.prefix_refl _
      · cases h
    split at h
    · cases h
    · exact (List.prefix_append _ _).trans (ih h)

/-- What good lines add does not depend on what follows them. -/
theorem readLines_append {terminated : Bool} {pre post : List (List Char)} {records result : Records}
    (hgood : ∀ line ∈ pre, GoodLine line)
    (h : readLines limits sha256 terminated (pre ++ post) records = .ok result) :
    ∃ middle : Records, middle.isPartial = records.isPartial ∧
      readLines limits sha256 terminated post middle = .ok result ∧
      ∀ terminated' post', readLines limits sha256 terminated' (pre ++ post') records =
        readLines limits sha256 terminated' post' middle := by
  induction pre generalizing records with
  | nil => exact ⟨records, rfl, h, fun _ _ => rfl⟩
  | cons line pre ih =>
    have hpre : ∀ line ∈ pre, GoodLine line := fun line hline =>
      hgood line (List.mem_cons_of_mem _ hline)
    rw [List.cons_append, readLines] at h
    by_cases hblank : Texts.trim line = []
    · rw [if_pos hblank] at h
      obtain ⟨middle, hpartial, hrest, hothers⟩ := ih hpre h
      refine ⟨middle, hpartial, hrest, fun terminated' post' => ?_⟩
      rw [List.cons_append, readLines, if_pos hblank, hothers]
    rw [if_neg hblank] at h
    by_cases hbytes : limits.maxLineBytes < (Utf8.encode line).length
    · rw [if_pos hbytes] at h
      cases h
    rw [if_neg hbytes] at h
    obtain ⟨list, hparse⟩ := (hgood line List.mem_cons_self).resolve_left hblank
    rw [hparse] at h
    dsimp only at h
    cases hcanonical : canonicalJson (.object list) limits.maxCanonicalNodes with
    | none =>
      rw [hcanonical] at h
      cases h
    | some canonical =>
      rw [hcanonical] at h
      obtain ⟨middle, hpartial, hrest, hothers⟩ := ih hpre h
      refine ⟨middle, hpartial, hrest, fun terminated' post' => ?_⟩
      rw [List.cons_append, readLines, if_neg hblank, if_neg hbytes, hparse]
      dsimp only
      rw [hcanonical]
      exact hothers terminated' post'

theorem length_encode_le (line more : List Char) :
    (Utf8.encode line).length ≤ (Utf8.encode (line ++ more)).length := by
  rw [Utf8.encode, Utf8.encode, List.flatMap_append, List.length_append]
  omega

/-- The beginning of the next line is a record that is the same, or no record. -/
theorem readLines_partial {terminated : Bool} {line more : List Char} {lines : List (List Char)}
    {records result : Records} (hgood : ∃ rest, GoodLine (line ++ more ++ rest))
    (h : readLines limits sha256 terminated ((line ++ more) :: lines) records = .ok result) :
    ∃ own : Records, readLines limits sha256 false [line] records = .ok own ∧
      own.recordHashes <+: result.recordHashes := by
  have hkeep := hashes_readLines h
  rw [readLines] at h ⊢
  by_cases hblank : Texts.trim line = []
  · exact ⟨records, by rw [if_pos hblank]; rfl, hkeep⟩
  have hblank' : Texts.trim (line ++ more) ≠ [] := fun hall => hblank (trim_start hall)
  rw [if_neg hblank'] at h
  rw [if_neg hblank]
  by_cases hbytes : limits.maxLineBytes < (Utf8.encode (line ++ more)).length
  · rw [if_pos hbytes] at h
    cases h
  have hown : ¬ limits.maxLineBytes < (Utf8.encode line).length := by
    have hle := length_encode_le line more
    omega
  rw [if_neg hbytes] at h
  rw [if_neg hown]
  obtain ⟨rest, hgood⟩ := hgood
  obtain ⟨list, hfull⟩ := hgood.resolve_left fun hall => hblank' (trim_start hall)
  cases hparse : JsonParse.parse (String.ofList line) with
  | none =>
    refine ⟨{ records with isPartial := true }, ?_, hkeep⟩
    rfl
  | some v =>
    -- then only white space is missing
    have hassoc : line ++ more ++ rest = line ++ (more ++ rest) := List.append_assoc _ _ _
    rw [hassoc] at hfull
    obtain ⟨rfl, hwhite⟩ := JsonParse.parse_prefix hparse hfull
    have hmore : ∀ c ∈ more, JsonParse.isWhite c = true := fun c hc =>
      hwhite c (List.mem_append_left _ hc)
    rw [JsonParse.parse_append_white hparse hmore] at h
    dsimp only at h ⊢
    cases hcanonical : canonicalJson (.object list) limits.maxCanonicalNodes with
    | none =>
      rw [hcanonical] at h
      cases h
    | some canonical =>
      rw [hcanonical] at h
      exact ⟨_, rfl, hashes_readLines h⟩

/-- A transcript of objects.  Where its last line has no end, it may be the beginning of an object. -/
structure OfObjects (text : List Char) : Prop where
  complete : ∀ line ∈ (Texts.split '\n' text).dropLast, GoodLine line
  last : ∀ line ∈ (Texts.split '\n' text).getLast?, ∃ rest, GoodLine (line ++ rest)

theorem OfObjects.good {text : List Char} (h : OfObjects text) {pre tail : List (List Char)}
    {line : List Char} (hsplit : Texts.split '\n' text = pre ++ line :: tail) :
    (∀ line ∈ pre, GoodLine line) ∧ ∃ rest, GoodLine (line ++ rest) := by
  have hdrop : (pre ++ line :: tail).dropLast = pre ++ (line :: tail).dropLast :=
    List.dropLast_append_of_ne_nil (List.cons_ne_nil _ _)
  constructor
  · intro line' hline'
    refine h.complete line' ?_
    rw [hsplit, hdrop]
    exact List.mem_append_left _ hline'
  · cases tail with
    | nil =>
      refine h.last line ?_
      rw [hsplit, List.getLast?_concat]
      rfl
    | cons next tail =>
      refine ⟨[], ?_⟩
      rw [List.append_nil]
      refine h.complete line ?_
      rw [hsplit, hdrop, List.dropLast_cons_of_ne_nil (List.cons_ne_nil _ _)]
      exact List.mem_append_right _ List.mem_cons_self

theorem parseText_valid {bytes : Nat} {text : List Char} :
    (parseText limits sha256 bytes text).valid = true ↔
      (linesOf text).length ≤ limits.maxLines ∧
        ∃ records, readLines limits sha256 (endsLine text) (linesOf text) {} = .ok records := by
  unfold parseText
  split
  · next hlines =>
    refine ⟨fun h => (by cases h), fun h => ?_⟩
    omega
  · next hlines =>
    cases hread : readLines limits sha256 (endsLine text) (linesOf text) {} with
    | error reason =>
      refine ⟨fun h => (by cases h), ?_⟩
      rintro ⟨_, _, h⟩
      cases h
    | ok records => exact ⟨fun _ => ⟨not_lt.mp hlines, records, rfl⟩, fun _ => rfl⟩

theorem parseText_hashes {bytes : Nat} {text : List Char} {records : Records}
    (hlines : (linesOf text).length ≤ limits.maxLines)
    (hread : readLines limits sha256 (endsLine text) (linesOf text) {} = .ok records) :
    (parseText limits sha256 bytes text).recordHashes = records.recordHashes := by
  rw [parseText, if_neg (by omega), hread]
  rfl

/-- The text of a prefix is valid, and its records are those at the beginning. -/
theorem parseText_prefix {bytes : Nat} (bytes' : Nat) {start rest : List Char}
    (hobjects : OfObjects (start ++ rest))
    (h : (parseText limits sha256 bytes (start ++ rest)).valid = true) :
    (parseText limits sha256 bytes' start).valid = true ∧
      (parseText limits sha256 bytes' start).recordHashes <+:
        (parseText limits sha256 bytes (start ++ rest)).recordHashes := by
  by_cases hne : rest = []
  · rw [hne, List.append_nil] at h ⊢
    obtain ⟨hlines, records, hread⟩ := parseText_valid.mp h
    refine ⟨parseText_valid.mpr ⟨hlines, records, hread⟩, ?_⟩
    rw [parseText_hashes hlines hread, parseText_hashes hlines hread]
  obtain ⟨hlines, result, hread⟩ := parseText_valid.mp h
  obtain ⟨pre, line, more, lines, tail, hsplit, hall, hown⟩ := linesOf_append start hne
  obtain ⟨hpre, hline⟩ := hobjects.good hsplit
  have hcount : (linesOf start).length ≤ limits.maxLines := by
    rw [hall] at hlines
    rw [hown]
    split
    · simp at hlines ⊢
      omega
    · simp at hlines ⊢
      omega
  rw [hall] at hread
  obtain ⟨middle, _, hmiddle, hothers⟩ := readLines_append hpre hread
  obtain ⟨own, hstart, hprefix⟩ : ∃ own, readLines limits sha256 (endsLine start) (linesOf start) {} =
      .ok own ∧ own.recordHashes <+: result.recordHashes := by
    rw [hown]
    cases hends : endsLine start with
    | true =>
      refine ⟨middle, ?_, hashes_readLines hmiddle⟩
      rw [hothers]
      rfl
    | false =>
      obtain ⟨own, hread', hprefix⟩ := readLines_partial hline hmiddle
      refine ⟨own, ?_, hprefix⟩
      rw [hothers]
      exact hread'
  rw [← hall] at hread
  refine ⟨parseText_valid.mpr ⟨hcount, own, hstart⟩, ?_⟩
  rw [parseText_hashes hcount hstart, parseText_hashes hlines hread]
  exact hprefix

end Reading

/-! ### Prefixes of files -/

/-- A file that is within the limits and holds a transcript of objects. -/
structure ValidFile (limits : Limits) (sha256 : String → String) (file : List UInt8) : Prop where
  valid : (parseCursorTranscript limits sha256 (some file)).valid = true
  objects : ∀ text, Utf8.decodeFatal file = some text → OfObjects text

/-- What the code should do with a prefix of a file that is read beside the whole one. -/
def PrefixAccepted (limits : Limits) (sha256 : String → String)
    (localeCompare : CodeUnits → CodeUnits → Ordering) (digest : CodeUnits → String)
    (file : List UInt8) (n : Nat) : Prop :=
  let start := parseCursorTranscript limits sha256 (some (file.take n))
  let whole := parseCursorTranscript limits sha256 (some file)
  start.valid = true ∧ start.recordHashes <+: whole.recordHashes ∧
    ∀ key key', (reconcileCursorTranscripts localeCompare digest
      [⟨key, start⟩, ⟨key', whole⟩]).conflict = false

theorem parse_valid {limits : Limits} {sha256 : String → String} {file : List UInt8}
    (h : (parseCursorTranscript limits sha256 (some file)).valid = true) :
    file.length ≤ limits.maxTranscriptBytes ∧ ∃ text, Utf8.decodeFatal file = some text := by
  unfold parseCursorTranscript at h
  by_cases hlength : file.length ≤ limits.maxTranscriptBytes
  · rw [Option.filter_some_pos (by simpa using hlength)] at h
    dsimp only at h
    cases htext : Utf8.decodeFatal file with
    | none =>
      rw [htext] at h
      cases h
    | some text => exact ⟨hlength, text, rfl⟩
  · rw [Option.filter_some_neg (by simpa using hlength)] at h
    cases h

theorem parse_eq {limits : Limits} (sha256 : String → String) {file : List UInt8}
    (hlength : file.length ≤ limits.maxTranscriptBytes) {text : List Char}
    (htext : Utf8.decodeFatal file = some text) :
    parseCursorTranscript limits sha256 (some file) =
      parseText limits sha256 file.length text := by
  rw [parseCursorTranscript, Option.filter_some_pos (by simpa using hlength)]
  dsimp only
  rw [htext]

/-- **Main.** A prefix of a transcript of objects is valid, and no conflict with the whole one, exactly where
    it does not end inside a character. -/
theorem prefix_reconciled {limits : Limits} {sha256 : String → String}
    {localeCompare : CodeUnits → CodeUnits → Ordering} [Std.TransCmp localeCompare]
    {digest : CodeUnits → String} {file : List UInt8} (h : ValidFile limits sha256 file) (n : Nat) :
    PrefixAccepted limits sha256 localeCompare digest file n ↔
      ¬ ∃ b ∈ (file.drop n).head?, Utf8.isContinuation b = true := by
  obtain ⟨hlength, text, htext⟩ := parse_valid h.valid
  have hsplit : file.take n ++ file.drop n = file := List.take_append_drop n file
  have hstartLength : (file.take n).length ≤ limits.maxTranscriptBytes := by
    rw [List.length_take]
    omega
  have hboth : Utf8.decodeFatal (file.take n ++ file.drop n) = some text := by rw [hsplit, htext]
  have hprefix := Utf8.decodeFatal_prefix hboth
  by_cases hinside : ∃ b ∈ (file.drop n).head?, Utf8.isContinuation b = true
  · -- the decoder throws
    rw [if_pos hinside] at hprefix
    refine ⟨fun haccepted => ?_, fun hnot => absurd hinside hnot⟩
    obtain ⟨_, start, hstart⟩ := parse_valid haccepted.1
    rw [ hprefix] at hstart
    cases hstart
  · rw [if_neg hinside] at hprefix
    obtain ⟨start, hstart, rest, rfl⟩ := hprefix
    refine ⟨fun _ => hinside, fun _ => ?_⟩
    have hwhole := parse_eq sha256 hlength htext
    have hown := parse_eq sha256 hstartLength hstart
    have hvalid := h.valid
    rw [hwhole] at hvalid
    obtain ⟨hstartValid, hhashes⟩ := parseText_prefix (file.take n).length
      (h.objects _ htext) hvalid
    rw [← hown] at hstartValid hhashes
    rw [← hwhole] at hhashes
    refine ⟨hstartValid, hhashes, fun key key' => ?_⟩
    by_contra hconflict
    rw [Bool.not_eq_false, conflict_iff] at hconflict
    rcases hconflict with ⟨candidate, hmem, hinvalid⟩ | ⟨a, ha, b, hb, hab⟩
    · simp only [List.mem_cons, List.not_mem_nil, or_false] at hmem
      rcases hmem with rfl | rfl
      · rw [hstartValid] at hinvalid
        cases hinvalid
      · rw [h.valid] at hinvalid
        cases hinvalid
    · simp only [List.mem_cons, List.not_mem_nil, or_false] at ha hb
      rcases ha with rfl | rfl <;> rcases hb with rfl | rfl
      · exact hab (.inl (List.prefix_refl _))
      · exact hab (.inl hhashes)
      · exact hab (.inr hhashes)
      · exact hab (.inl (List.prefix_refl _))

/-- A file of one line that is an object. -/
theorem validFile_line {limits : Limits} {sha256 : String → String} {line : List Char}
    {list : List (String × JsonValue)} {canonical : String} (hbreak : '\n' ∉ line)
    (hmark : Utf8.dropMark (line ++ ['\n']) = line ++ ['\n'])
    (hparse : JsonParse.parse (String.ofList line) = some (.object list))
    (hcanonical : canonicalJson (.object list) limits.maxCanonicalNodes = some canonical)
    (hlines : 1 ≤ limits.maxLines) (hline : (Utf8.encode line).length ≤ limits.maxLineBytes)
    (hfile : (Utf8.encode (line ++ ['\n'])).length ≤ limits.maxTranscriptBytes) :
    ValidFile limits sha256 (Utf8.encode (line ++ ['\n'])) := by
  have htext : Utf8.decodeFatal (Utf8.encode (line ++ ['\n'])) = some (line ++ ['\n']) := by
    rw [Utf8.decodeFatal_encode, hmark]
  have hsplit : Texts.split '\n' (line ++ ['\n']) = [line, []] := by
    have hjoin : Texts.join '\n' [line, []] = line ++ ['\n'] := rfl
    rw [← hjoin]
    refine Texts.split_join (List.cons_ne_nil _ _) fun part hpart => ?_
    rcases List.mem_cons.mp hpart with rfl | hpart
    · exact hbreak
    · rw [List.mem_singleton.mp hpart]
      exact List.not_mem_nil
  have hends : endsLine (line ++ ['\n']) = true := by
    rw [endsLine, List.getLast?_concat]
    rfl
  have hown : linesOf (line ++ ['\n']) = [line] := by
    rw [linesOf_eq_dropLast hends, hsplit]
    rfl
  constructor
  · rw [parse_eq sha256 hfile htext, parseText_valid, hown]
    refine ⟨hlines, ?_⟩
    rw [readLines]
    by_cases hblank : Texts.trim line = []
    · exact ⟨_, by rw [if_pos hblank]; rfl⟩
    · rw [if_neg hblank, if_neg (by omega), hparse]
      dsimp only
      rw [hcanonical]
      exact ⟨_, rfl⟩
  · intro text h
    rw [htext] at h
    obtain rfl := Option.some.inj h
    refine ⟨?_, ?_⟩
    · intro part hpart
      rw [hsplit] at hpart
      obtain rfl := List.mem_singleton.mp hpart
      exact .inr ⟨list, hparse⟩
    · intro part hpart
      rw [hsplit] at hpart
      obtain rfl := Option.some.inj hpart
      exact ⟨[], .inl rfl⟩

/-- `{"a":"é"}`. -/
def accentLine : List Char := ['\x7b', '"', 'a', '"', ':', '"', 'é', '"', '\x7d']

theorem validFile_accent :
    ValidFile {} id (Utf8.encode (accentLine ++ ['\n'])) := by
  have hparse : JsonParse.parse (String.ofList accentLine) =
      some (.object [(String.ofList ['a'], .string (String.ofList ['é']))]) :=
    JsonParse.parse_eq_some.mpr ⟨[], rfl, rfl⟩
  obtain ⟨canonical, hcanonical⟩ : ∃ canonical,
      canonicalJson (.object [(String.ofList ['a'], .string (String.ofList ['é']))]) 20000 =
        some canonical := ⟨_, rfl⟩
  exact validFile_line (by decide) rfl hparse hcanonical (by decide) (by decide) (by decide)

/-- The prefix that ends before the accented letter is accepted. -/
theorem prefix_reconciled_accent :
    PrefixAccepted {} id compare (fun _ => "") (Utf8.encode (accentLine ++ ['\n'])) 6 :=
  (prefix_reconciled validFile_accent 6).mpr (by decide)

/-- The one that ends after its first byte is called corrupt. -/
theorem accent_broken :
    ValidFile {} id (Utf8.encode (accentLine ++ ['\n'])) ∧
      ¬ PrefixAccepted {} id compare (fun _ => "") (Utf8.encode (accentLine ++ ['\n'])) 7 := by
  refine ⟨validFile_accent, fun h => ?_⟩
  obtain ⟨_, text, htext⟩ := parse_valid h.1
  have hbroken : Utf8.decodeFatal ((Utf8.encode (accentLine ++ ['\n'])).take 7) = none := by decide
  rw [hbroken] at htext
  cases htext

end CursorArtifacts
