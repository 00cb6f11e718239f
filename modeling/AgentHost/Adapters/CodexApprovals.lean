import AgentHost.Core.ApprovalContracts

namespace AgentHost

/-!
# Approvals of file changes that Codex asks for

The adapter shows an approval with the paths of the changed files, below the working directory of the
thread, and the contract layer checks them again.

* `publicFilePath`, `fileChangeContext` — the paths as the adapter shows them.
* `publicFilePath_spec` — such a path is its clean segments; a relative path keeps its last slash.
* `OffersPlainPath` — a path that the contract layer leaves as it is.
* `approvals_agree` — **Main**: the contract layer accepts the approval of the adapter unchanged if and
  only if the first 20 paths are of this kind.
-/

namespace Codex

open PosixPath

/-! ### Paths -/

/-- `candidate`: the path below the working directory. -/
def candidatePath (raw : List Char) (cwd : Option String) : Option (List Char) :=
  if isAbsolute raw then
    match cwd with
    | some cwd =>
      if isAbsolute cwd.toList then some (relative (resolve cwd.toList) (resolve raw)) else none
    | none => none
  else some raw

local instance lawfulSegments : LawfulBEq (List Char) := inferInstance

/-- `publicFilePath`. -/
def publicFilePath (value : Option JsonValue) (cwd : Option String) : Option String :=
  match value with
  | some (.string raw) =>
    if raw = "" ∨ raw.toList.any forbiddenInPath then none
    else if driveLike raw.toList then none
    else if dots ∈ Texts.split '/' raw.toList then none
    else
      match candidatePath raw.toList cwd with
      | none => none
      | some candidate =>
        let normalized := normalize candidate
        if normalized = [] ∨ normalized = dot then none
        else if normalized = dots ∨ ['.', '.', '/'] <+: normalized ∨ isAbsolute normalized then none
        else if utf16Length (String.ofList normalized) ≤ maxPublicPath then
          some (String.ofList normalized)
        else none
  | _ => none

/-- A change with a path that can be shown and a kind. -/
def validatedChange (cwd : Option String) (change : JsonValue) : Option PublicFile := do
  let path ← publicFilePath (change.get? "path") cwd
  let kind ← FileChangeKind.texts.ofValue? (change.get? "kind")
  return ⟨path, kind⟩

/-- The changes of an item. -/
def changesOf (item : Option JsonValue) : List JsonValue :=
  arrayOrEmpty (JsonValue.optionGet? item "changes")

/-- `fileChangeContext`. -/
def fileChangeContext (item : Option JsonValue) (cwd : Option String) : Option FileChangeContext :=
  let changes := changesOf item
  if isText (JsonValue.optionGet? item "type") "fileChange" ∧ changes ≠ [] then
    let validated := changes.filterMap (validatedChange cwd)
    if validated.length ≠ changes.length then none
    else
      let files := validated.take maxApprovalFiles
      some ⟨changes.length, files, decide (files.length < changes.length)⟩
  else none

/-! ### Approvals -/

/-- A pending approval: its id, its method and parameters, and the context of a file change. -/
structure ApprovalEntry where
  approvalId : String
  method : String
  params : Option JsonValue
  context : Option FileChangeContext
  actionable : Bool

/-- The entry of an approval that is asked for. -/
def approvalEntry (approvalId method : String) (params : Option JsonValue)
    (context : Option FileChangeContext) : ApprovalEntry where
  approvalId := approvalId
  method := method
  params := params
  context := if method = fileChangeMethod then context else none
  actionable := decide (method ≠ fileChangeMethod) || context.isSome

/-- The parameters that `pendingApprovalView` shows. -/
def approvalParams : List String :=
  ["threadId", "turnId", "itemId", "reason", "command", "cwd", "availableDecisions"]

/-- `pendingApprovalView`. -/
def pendingApprovalView (entry : ApprovalEntry) : JsonValue :=
  .object <|
    [("approvalId", .string entry.approvalId), ("method", .string entry.method)] ++
    (approvalParams.filterMap fun name =>
      (JsonValue.optionGet? entry.params name).map fun value => (name, value)) ++
    (entry.context.map fun context => ("context", .ofJson context.toJson)).toList ++
    [("actionable", .bool entry.actionable)]

/-! ### The paths that are shown -/

/-- The segments of a path below the working directory. -/
def segmentsBelow (cwd : Option String) (raw : String) : List Segment :=
  if isAbsolute raw.toList then
    relativeSegments (normalizeSegments false (resolve (cwd.getD "").toList))
      (normalizeSegments false (resolve raw.toList))
  else cleanSegments raw.toList

/-- The last slash of a relative path is kept. -/
def keepsSlash (raw : String) : Bool := !isAbsolute raw.toList && endsWithSlash raw.toList

/-- A path as it is shown. -/
structure ShownPath (cwd : Option String) (raw shown : String) : Prop where
  clean : ∀ segment ∈ segmentsBelow cwd raw, Clean segment ∧ '/' ∉ segment
  permitted : ∀ segment ∈ segmentsBelow cwd raw, ∀ c ∈ segment, forbiddenInPath c = false
  nonempty : keepsSlash raw = false → segmentsBelow cwd raw ≠ []
  text : shown.toList = if segmentsBelow cwd raw = [] then ['.', '/']
    else Texts.join '/' (segmentsBelow cwd raw) ++ if keepsSlash raw then ['/'] else []
  length_le : utf16Length shown ≤ maxPublicPath

/-- The way from the working directory to a path that is shown does not lead up. -/
theorem relative_of_shown {start : List Segment} {raw : List Char}
    (hdots : dots ∉ Texts.split '/' raw)
    (hnot : ¬ (normalize (Texts.join '/' (relativeSegments start (cleanSegments raw))) = dots ∨
      ['.', '.', '/'] <+: normalize (Texts.join '/' (relativeSegments start (cleanSegments raw))))) :
    relativeSegments start (cleanSegments raw) <:+ cleanSegments raw := by
  obtain ⟨n, rest, heq, hsuffix⟩ := relativeSegments_eq start (cleanSegments raw)
  cases n with
  | zero =>
    rw [heq]
    exact hsuffix
  | succ n =>
    rw [heq] at hnot
    exact absurd (normalize_up n fun segment hmem =>
      clean_of_mem_cleanSegments hdots (hsuffix.subset hmem)) hnot

/-- **A path that is shown** is the segments of the path below the working directory. -/
theorem publicFilePath_spec {raw shown : String} {cwd : Option String}
    (h : publicFilePath (some (.string raw)) cwd = some shown) : ShownPath cwd raw shown := by
  rw [publicFilePath] at h
  split at h
  · cases h
  next hchars =>
  rw [not_or] at hchars
  obtain ⟨hne, hchars⟩ := hchars
  split at h
  · cases h
  split at h
  · cases h
  next hdots =>
  split at h
  · cases h
  next candidate hcandidate =>
  dsimp only at h
  split at h
  · cases h
  next hdot =>
  split at h
  · cases h
  next hup =>
  split at h
  · next hlength =>
    obtain rfl := Option.some.inj h
    have hpermitted : ∀ segment ∈ cleanSegments raw.toList, ∀ c ∈ segment,
        forbiddenInPath c = false := by
      intro segment hmem c hc
      have hsplit : segment ∈ Texts.split '/' raw.toList := (List.mem_filter.mp hmem).1
      rw [List.any_eq_true, not_exists] at hchars
      exact Bool.eq_false_iff.mpr fun hbad =>
        hchars c ⟨Texts.mem_of_mem_split hsplit hc, hbad⟩
    have hclean : ∀ segment ∈ cleanSegments raw.toList, Clean segment ∧ '/' ∉ segment :=
      fun segment hmem => clean_of_mem_cleanSegments hdots hmem
    unfold candidatePath at hcandidate
    by_cases habsolute : isAbsolute raw.toList = true
    · rw [if_pos habsolute] at hcandidate
      split at hcandidate
      · next cwd =>
        split at hcandidate
        · obtain rfl := Option.some.inj hcandidate
          have hbelow : segmentsBelow (some cwd) raw = relativeSegments
              (normalizeSegments false (resolve cwd.toList)) (cleanSegments raw.toList) := by
            rw [segmentsBelow, if_pos habsolute, normalizeSegments_resolve hdots]
            rfl
          have hkeeps : keepsSlash raw = false := by
            rw [keepsSlash, habsolute]
            rfl
          rw [relative, normalizeSegments_resolve hdots, ← hbelow] at hdot hup hlength ⊢
          have hsuffix : segmentsBelow (some cwd) raw <:+ cleanSegments raw.toList := by
            rw [hbelow] at hup ⊢
            exact relative_of_shown hdots fun h => hup (h.imp_right .inl)
          have hbelowClean : ∀ segment ∈ segmentsBelow (some cwd) raw, Clean segment ∧ '/' ∉ segment :=
            fun segment hmem => hclean segment (hsuffix.subset hmem)
          have hnonempty : segmentsBelow (some cwd) raw ≠ [] := by
            intro hnil
            rw [hnil] at hdot
            exact hdot (.inr rfl)
          refine ⟨hbelowClean, fun segment hmem => hpermitted segment (hsuffix.subset hmem),
            fun _ => hnonempty, ?_, hlength⟩
          rw [String.toList_ofList, normalize_join hnonempty hbelowClean, if_neg hnonempty, hkeeps,
            if_neg Bool.false_ne_true, List.append_nil]
        · cases hcandidate
      · cases hcandidate
    · rw [if_neg habsolute] at hcandidate
      obtain rfl := Option.some.inj hcandidate
      have hbelow : segmentsBelow cwd raw = cleanSegments raw.toList := by
        rw [segmentsBelow, if_neg habsolute]
      have hkeeps : keepsSlash raw = endsWithSlash raw.toList := by
        rw [keepsSlash, Bool.eq_false_iff.mpr habsolute]
        rfl
      have hnormal := normalize_relative (by simpa using hne) (Bool.eq_false_iff.mpr habsolute) hdots
      refine ⟨?_, ?_, ?_, ?_, hlength⟩
      · rw [hbelow]
        exact hclean
      · rw [hbelow]
        exact hpermitted
      · rw [hbelow, hkeeps]
        intro hend hnil
        rw [hnormal, if_pos hnil, hend] at hdot
        exact hdot (.inr rfl)
      · rw [String.toList_ofList, hnormal, hbelow, hkeeps]
        by_cases hnil : cleanSegments raw.toList = []
        · rw [if_pos hnil, if_pos hnil]
          rw [hnormal, if_pos hnil] at hdot
          by_cases hend : endsWithSlash raw.toList = true
          · rw [if_pos hend]
          · rw [if_neg hend] at hdot
            exact absurd (.inr rfl) hdot
        · rw [if_neg hnil, if_neg hnil]
  · cases h

/-! ### The contract layer on a path that is shown -/

/-- A path that the contract layer leaves as it is: a relative one does not end with a slash, and its
    first segment below the working directory does not look like a drive. -/
def OffersPlainPath (cwd : Option String) (raw : String) : Prop :=
  keepsSlash raw = false ∧ ∀ segment ∈ (segmentsBelow cwd raw).head?, driveLike segment = false

/-- What looks like a drive is seen in the first segment. -/
theorem driveLike_append {segment rest : List Char} (hne : segment ≠ [])
    (hrest : rest.head? ≠ some ':') : driveLike (segment ++ rest) = driveLike segment := by
  cases segment with
  | nil => exact absurd rfl hne
  | cons c segment =>
    cases segment with
    | nil =>
      cases rest with
      | nil => rfl
      | cons d rest =>
        have hd : d ≠ ':' := fun h => hrest (by rw [h]; rfl)
        show driveLike (c :: d :: rest) = false
        unfold driveLike
        split
        · next heq => exact absurd (List.cons.inj (List.cons.inj heq).2).1 hd
        · rfl
    | cons d segment =>
      by_cases hd : d = ':'
      · rw [hd]
        rfl
      · have hfalse : ∀ tail, driveLike (c :: d :: tail) = false := by
          intro tail
          unfold driveLike
          split
          · next heq => exact absurd (List.cons.inj (List.cons.inj heq).2).1 hd
          · rfl
        rw [hfalse]
        exact hfalse _

theorem driveLike_join {segment : Segment} {segments : List Segment} (hne : segment ≠ [])
    (slash : Bool) : driveLike (Texts.join '/' (segment :: segments) ++ if slash then ['/'] else []) =
      driveLike segment := by
  cases segments with
  | nil =>
    refine driveLike_append hne ?_
    cases slash <;> decide
  | cons next segments =>
    rw [Texts.join, List.append_assoc]
    refine driveLike_append hne ?_
    rw [List.cons_append, List.head?_cons]
    decide

theorem utf16Length_append_le (left right : List Char) :
    utf16Length (String.ofList left) ≤ utf16Length (String.ofList (left ++ right)) := by
  rw [utf16Length, utf16Length, String.toList_ofList, String.toList_ofList, List.map_append,
    List.sum_append]
  exact Nat.le_add_right _ _

/-- **A path that is shown** stays as it is if and only if it is plain. -/
theorem publicApprovalPath_shown {cwd : Option String} {raw shown : String}
    (h : ShownPath cwd raw shown) :
    publicApprovalPath (some (.string shown)) = some shown ↔ OffersPlainPath cwd raw := by
  cases hbelow : segmentsBelow cwd raw with
  | nil =>
    -- the working directory itself, with a slash
    have htext := h.text
    rw [hbelow, if_pos rfl] at htext
    have hclosed : publicApprovalPath (some (.string shown)) = none := by
      have hsegments : cleanSegments shown.toList = [] := by
        rw [htext]
        rfl
      rw [publicApprovalPath_spec hsegments nofun (by rw [htext]; rfl) (by rw [htext]; rfl)
        (by decide), if_pos (.inr rfl)]
    rw [hclosed]
    refine ⟨nofun, fun hplain => ?_⟩
    exact absurd hbelow (h.nonempty hplain.1)
  | cons segment segments =>
    have hclean := h.clean
    have hpermitted := h.permitted
    have htext := h.text
    rw [hbelow] at hclean hpermitted htext
    rw [if_neg (List.cons_ne_nil _ _)] at htext
    have hne : segment :: segments ≠ [] := List.cons_ne_nil _ _
    obtain ⟨hnonempty, habsolute, -⟩ := join_ends hne hclean
    have hsegments : cleanSegments shown.toList = segment :: segments := by
      rw [htext]
      cases keepsSlash raw
      · rw [if_neg Bool.false_ne_true, List.append_nil]
        exact (cleanSegments_join hne hclean).2
      · exact cleanSegments_join_slash hne hclean
    have hchars : shown.toList.any forbiddenInPath = false := by
      rw [List.any_eq_false]
      intro c hc
      rw [htext, List.mem_append] at hc
      rcases hc with hc | hc
      · rcases Texts.mem_join hc with rfl | ⟨part, hpart, hc⟩
        · decide
        · rw [hpermitted part hpart c hc]
          exact Bool.false_ne_true
      · split at hc
        · rw [List.mem_singleton.mp hc]
          decide
        · cases hc
    have hrelative : isAbsolute shown.toList = false := by
      obtain ⟨c, cs, hcs⟩ := List.exists_cons_of_ne_nil hnonempty
      rw [isAbsolute, hcs] at habsolute
      rw [htext, isAbsolute, hcs]
      exact habsolute
    have hlength : utf16Length (String.ofList (Texts.join '/' (segment :: segments))) ≤
        maxPublicPath := by
      have hshown := h.length_le
      rw [← String.ofList_toList (s := shown), htext] at hshown
      exact (utf16Length_append_le _ _).trans hshown
    have hsegmentNe : segment ≠ [] := (hclean segment List.mem_cons_self).1.1
    rw [publicApprovalPath_spec hsegments (fun s hs => (hclean s hs).1) hchars hrelative hlength,
      htext, driveLike_join hsegmentNe, OffersPlainPath, hbelow]
    have hself : String.ofList (Texts.join '/' (segment :: segments)) = shown ↔
        keepsSlash raw = false := by
      rw [← String.toList_inj, String.toList_ofList, htext]
      cases keepsSlash raw <;> simp
    by_cases hdrive : driveLike segment = true
    · rw [if_pos (.inl hdrive)]
      refine ⟨nofun, fun hplain => ?_⟩
      rw [hplain.2 segment rfl] at hdrive
      cases hdrive
    · have hnot : ¬ (driveLike segment = true ∨ segment :: segments = []) :=
        not_or.mpr ⟨hdrive, hne⟩
      rw [if_neg hnot, Option.some.injEq, hself]
      refine ⟨fun hkeeps => ⟨hkeeps, fun s hs => ?_⟩, fun hplain => hplain.1⟩
      obtain rfl := Option.some.inj hs
      exact Bool.eq_false_iff.mpr hdrive

/-! ### The main theorem -/

theorem filterMap_length_eq {α β : Type} {f : α → Option β} {l : List α}
    (h : (l.filterMap f).length = l.length) : l.map f = (l.filterMap f).map some := by
  induction l with
  | nil => rfl
  | cons a l ih =>
    rw [List.filterMap_cons] at h ⊢
    cases ha : f a with
    | none =>
      rw [ha, List.length_cons] at h
      have hle := List.length_filterMap_le f l
      dsimp only at h
      omega
    | some b =>
      rw [ha] at h
      rw [List.map_cons, List.map_cons, ha, ih (by simpa using h)]

theorem validatedFile_toJson (file : PublicFile) :
    validatedFile (.ofJson file.toJson) =
      (publicApprovalPath (some (.string file.path))).map fun path => ⟨path, file.kind⟩ := by
  have hkind : FileChangeKind.texts.ofValue? (some (.string (FileChangeKind.texts.text file.kind))) =
      some file.kind := FileChangeKind.texts.ofValue?_text file.kind
  rw [validatedFile]
  simp only [PublicFile.toJson, JsonValue.ofJson, JsonValue.ofMembers, JsonValue.get?_object,
    JsonValue.memberOf_cons, if_true]
  rw [if_neg (by decide), hkind]
  cases publicApprovalPath (some (.string file.path)) <;> rfl

/-- The contract layer on the files of a context: it accepts it unchanged where each path stays. -/
theorem approvalContextView_toJson {context : FileChangeContext} (hne : context.files ≠ [])
    (hlength : context.files.length ≤ maxApprovalFiles)
    (hcount : context.files.length ≤ context.fileCount)
    (htruncated : context.truncated = decide (context.files.length < context.fileCount)) :
    approvalContextView (some (.ofJson context.toJson)) = some context ↔
      ∀ file ∈ context.files, publicApprovalPath (some (.string file.path)) = some file.path := by
  have hview : approvalContextView (some (.ofJson context.toJson)) =
      let validated := context.files.filterMap fun file => validatedFile (.ofJson file.toJson)
      if validated.length ≠ context.files.length ∨ validated.length = 0 then none
      else
        let files := validated.take maxApprovalFiles
        some ⟨context.fileCount, files, context.truncated ||
          decide (files.length < context.files.length) ||
            decide (files.length < context.fileCount)⟩ := by
    have hmembers : ∀ value, value = some (JsonValue.ofJson context.toJson) →
        JsonValue.optionGet? value "kind" = some (.string "file-change") ∧
        JsonValue.optionGet? value "files" =
          some (.array (context.files.map fun file => .ofJson file.toJson)) ∧
        JsonValue.optionGet? value "fileCount" = some (.number (some context.fileCount)) ∧
        JsonValue.optionGet? value "truncated" = some (.bool context.truncated) := by
      rintro value rfl
      simp [JsonValue.optionGet?, FileChangeContext.toJson, JsonValue.ofItems_eq,
        Function.comp_def]
    obtain ⟨hkind, hfiles, hfileCount, htruncated⟩ := hmembers _ rfl
    have hsupplied : suppliedFileCount (some (.number (some (context.fileCount : ℚ))))
        context.files.length = context.fileCount := by
      rw [suppliedFileCount, if_pos]
      · exact Int.toNat_natCast _
      · exact ⟨Rat.den_natCast _, by rw [Rat.num_natCast]; exact_mod_cast hcount⟩
    rw [approvalContextView, hkind, if_pos (isText_iff.mpr rfl), hfiles, hfileCount, htruncated]
    simp only [arrayOrEmpty, List.length_map, hsupplied, List.filterMap_map, Function.comp_def,
      truthy]
  rw [hview]
  dsimp only
  constructor
  · intro h file hfile
    split at h
    · cases h
    · next hvalid =>
      rw [not_or, not_ne_iff] at hvalid
      have hmap := filterMap_length_eq hvalid.1
      have hfiles : (context.files.filterMap fun file => validatedFile (.ofJson file.toJson)) =
          context.files := by
        have htake := congrArg FileChangeContext.files (Option.some.inj h)
        dsimp only at htake
        rwa [List.take_of_length_le (hvalid.1.trans_le hlength)] at htake
      rw [hfiles, List.map_inj_left] at hmap
      have hpath := hmap file hfile
      rw [validatedFile_toJson] at hpath
      obtain ⟨path, hread, heq⟩ := Option.map_eq_some_iff.mp hpath
      rw [hread, ← congrArg PublicFile.path heq]
  · intro h
    have hfiles : (context.files.filterMap fun file => validatedFile (.ofJson file.toJson)) =
        context.files := by
      have hsome : ∀ file ∈ context.files, validatedFile (.ofJson file.toJson) = some file := by
        intro file hfile
        rw [validatedFile_toJson, h file hfile]
        rfl
      rw [List.filterMap_congr hsome, List.filterMap_some]
    have hpos : context.files.length ≠ 0 := fun hzero => hne (List.length_eq_zero_iff.mp hzero)
    rw [hfiles, if_neg (by simp [hpos]), List.take_of_length_le hlength]
    rw [Option.some.injEq]
    obtain ⟨fileCount, files, truncated⟩ := context
    dsimp only at htruncated
    simp [htruncated]

theorem memberOf_filterMap {names : List String} {f : String → Option JsonValue} (name : String)
    (h : name ∉ names) : JsonValue.memberOf
      (names.filterMap fun name => (f name).map fun value => (name, value)) name = none := by
  induction names with
  | nil => rfl
  | cons head names ih =>
    rw [List.mem_cons, not_or] at h
    rw [List.filterMap_cons]
    cases f head with
    | none => exact ih h.2
    | some value =>
      show JsonValue.memberOf ((head, value) :: _) name = none
      rw [JsonValue.memberOf_cons, if_neg (Ne.symm h.1)]
      exact ih h.2

theorem validatedChange_eq_some {cwd : Option String} {change : JsonValue} {file : PublicFile}
    (h : validatedChange cwd change = some file) :
    ∃ raw, change.get? "path" = some (.string raw) ∧ ShownPath cwd raw file.path := by
  unfold validatedChange at h
  obtain ⟨path, hpath, h⟩ := Option.bind_eq_some_iff.mp h
  obtain ⟨kind, -, h⟩ := Option.bind_eq_some_iff.mp h
  obtain rfl := Option.some.inj h
  cases hvalue : change.get? "path" with
  | none => rw [hvalue] at hpath; cases hpath
  | some value =>
    rw [hvalue] at hpath
    cases value with
    | string raw => exact ⟨raw, rfl, publicFilePath_spec hpath⟩
    | _ => cases hpath

/-- **The context of an item**: its files are the first changes, and all of them are valid. -/
theorem fileChangeContext_spec {item : Option JsonValue} {cwd : Option String}
    {context : FileChangeContext} (h : fileChangeContext item cwd = some context) :
    ((changesOf item).take maxApprovalFiles).map (validatedChange cwd) = context.files.map some ∧
      context.files ≠ [] ∧ context.files.length ≤ maxApprovalFiles ∧
      context.files.length ≤ context.fileCount ∧
      context.truncated = decide (context.files.length < context.fileCount) := by
  unfold fileChangeContext at h
  dsimp only at h
  split at h
  · next hitem =>
    split at h
    · cases h
    · next hvalid =>
      rw [not_ne_iff] at hvalid
      obtain rfl := Option.some.inj h
      have hmap := filterMap_length_eq hvalid
      refine ⟨?_, ?_, List.length_take_le _ _, ?_, rfl⟩
      · rw [List.map_take, hmap, List.map_take]
      · intro hnil
        have hlength := congrArg List.length hnil
        have hpos := List.length_pos_iff.mpr hitem.2
        rw [List.length_take, hvalid] at hlength
        simp only [maxApprovalFiles, List.length_nil] at hlength
        omega
      · rw [List.length_take, hvalid]
        exact Nat.min_le_right _ _
  · cases h

/-- What the contract layer reads of an approval that the adapter shows. -/
theorem pendingApprovalView_members (approvalId : String) (params : Option JsonValue)
    (context : FileChangeContext) :
    let view := some (pendingApprovalView
      (approvalEntry approvalId fileChangeMethod params (some context)))
    JsonValue.optionGet? view "method" = some (.string fileChangeMethod) ∧
      JsonValue.optionGet? view "actionable" = some (.bool true) ∧
      JsonValue.optionGet? view "context" = some (.ofJson context.toJson) := by
  have hentry : approvalEntry approvalId fileChangeMethod params (some context) =
      ⟨approvalId, fileChangeMethod, params, some context, true⟩ := by
    simp [approvalEntry]
  rw [hentry]
  simp only [JsonValue.optionGet?, pendingApprovalView, Option.bind_some, JsonValue.get?_object,
    JsonValue.memberOf_append, Option.map_some, Option.toList_some]
  rw [memberOf_filterMap "method" (by decide), memberOf_filterMap "actionable" (by decide),
    memberOf_filterMap "context" (by decide)]
  simp

/-- **Main.** The contract layer shows the context of an approval that the adapter offers unchanged, and
    the approval is actionable, if and only if the first 20 paths are plain. -/
theorem approvals_agree (item : Option JsonValue) (cwd : Option String) (context : FileChangeContext)
    (h : fileChangeContext item cwd = some context) (approvalId : String)
    (params : Option JsonValue) :
    ((approvalView (some (pendingApprovalView
          (approvalEntry approvalId fileChangeMethod params (some context))))).context =
        some context ∧
      isActionableApproval (some (pendingApprovalView
        (approvalEntry approvalId fileChangeMethod params (some context)))) = true) ↔
    ∀ change ∈ (changesOf item).take maxApprovalFiles, ∀ path,
      isText (change.get? "path") path = true → OffersPlainPath cwd path := by
  obtain ⟨hfiles, hne, hlength, hcount, htruncated⟩ := fileChangeContext_spec h
  obtain ⟨hmethod, hactionable, hcontext⟩ := pendingApprovalView_members approvalId params context
  have hview := approvalContextView_toJson hne hlength hcount htruncated
  have hshown : ((approvalView (some (pendingApprovalView
          (approvalEntry approvalId fileChangeMethod params (some context))))).context =
        some context ∧
      isActionableApproval (some (pendingApprovalView
        (approvalEntry approvalId fileChangeMethod params (some context)))) = true) ↔
      approvalContextView (some (.ofJson context.toJson)) = some context := by
    have htruthy : truthy (some (pendingApprovalView
        (approvalEntry approvalId fileChangeMethod params (some context)))) = true := rfl
    have hfilesNonempty : context.files.isEmpty = false := List.isEmpty_eq_false_iff.mpr hne
    unfold isActionableApproval approvalView
    rw [hmethod, hactionable, hcontext, htruthy, isText_iff.mpr rfl]
    constructor
    · rintro ⟨hsome, -⟩
      exact (Option.ite_none_left_eq_some.mp hsome).2
    · intro hsome
      rw [hsome]
      simp [hfilesNonempty, truthy, isFalse]
  rw [hshown, hview]
  constructor
  · intro hpaths change hchange path hpath
    have hmem : validatedChange cwd change ∈ context.files.map some :=
      hfiles ▸ List.mem_map_of_mem hchange
    obtain ⟨file, hfile, hvalid⟩ := List.mem_map.mp hmem
    obtain ⟨raw, hraw, hshownPath⟩ := validatedChange_eq_some hvalid.symm
    have hsame : raw = path := by simpa [hraw] using isText_iff.mp hpath
    rw [← hsame]
    exact (publicApprovalPath_shown hshownPath).mp (hpaths file hfile)
  · intro hplain file hfile
    have hmem : some file ∈ ((changesOf item).take maxApprovalFiles).map (validatedChange cwd) :=
      hfiles ▸ List.mem_map_of_mem hfile
    obtain ⟨change, hchange, hvalid⟩ := List.mem_map.mp hmem
    obtain ⟨raw, hraw, hshownPath⟩ := validatedChange_eq_some hvalid
    exact (publicApprovalPath_shown hshownPath).mpr
      (hplain change hchange raw (isText_iff.mpr hraw))

/-- An item with one change. -/
def fileChangeItem (path : String) : JsonValue :=
  .object [("type", .string "fileChange"), ("changes", .array
    [.object [("path", .string path), ("kind", .string "update")]])]

/-- The context of one change. -/
def oneFile (path : String) : FileChangeContext := ⟨1, [⟨path, .update⟩], false⟩

theorem approvals_agree_sample :
    ((approvalView (some (pendingApprovalView (approvalEntry "7" fileChangeMethod none
          (some (oneFile "src/a.js")))))).context = some (oneFile "src/a.js") ∧
      isActionableApproval (some (pendingApprovalView (approvalEntry "7" fileChangeMethod none
        (some (oneFile "src/a.js"))))) = true) ↔
    ∀ change ∈ (changesOf (some (fileChangeItem "/w/src/a.js"))).take maxApprovalFiles, ∀ path,
      isText (change.get? "path") path = true → OffersPlainPath (some "/w") path :=
  approvals_agree (some (fileChangeItem "/w/src/a.js")) (some "/w") (oneFile "src/a.js")
    (by decide +kernel) "7" none

/-- The adapter offers an approval for `./C:secret.txt`, and the contract layer refuses it. -/
theorem approvals_differ :
    ¬ ∀ (item : Option JsonValue) (cwd : Option String) (context : FileChangeContext),
      fileChangeContext item cwd = some context →
      (approvalView (some (pendingApprovalView
          (approvalEntry "7" fileChangeMethod none (some context))))).context = some context ∧
      isActionableApproval (some (pendingApprovalView
        (approvalEntry "7" fileChangeMethod none (some context)))) = true := by
  intro h
  have hoffered := (h (some (fileChangeItem "./C:secret.txt")) (some "/w") (oneFile "C:secret.txt")
    (by decide +kernel)).2
  revert hoffered
  decide +kernel

end Codex

end AgentHost
