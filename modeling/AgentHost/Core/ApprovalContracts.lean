import AgentHost.Lib.PosixPath

namespace AgentHost

/-!
# Approvals in the contract

What the contract layer shows of an approval that an adapter reports, and whether it can be acted on.
An approval is any value; paths are those of a POSIX host.

* `publicApprovalPath` — a path below the working directory, in its normal form.
* `approvalContextView` — the files of a file change, where all of them are valid.
* `approvalView`, `isActionableApproval` — the approval, and whether the contract offers it.
-/

/-! ### Values -/

/-- `Boolean(value)`. -/
def truthy : Option JsonValue → Bool
  | none | some .null => false
  | some (.bool b) => b
  | some (.number (some q)) => q ≠ 0
  | some (.string s) => s ≠ ""
  | some _ => true

/-- `value === text`. -/
def isText (value : Option JsonValue) (text : String) : Bool :=
  match value with
  | some (.string s) => s = text
  | _ => false

theorem isText_iff {value : Option JsonValue} {text : String} :
    isText value text = true ↔ value = some (.string text) := by
  unfold isText
  split
  · simp
  · next hother => exact ⟨fun h => (by cases h), fun h => absurd h (hother text)⟩

/-- `Array.isArray(value) ? value : []`. -/
def arrayOrEmpty : Option JsonValue → List JsonValue
  | some (.array items) => items
  | _ => []

/-! ### Data -/

/-- The kinds of a file change. -/
inductive FileChangeKind
  | add
  | delete
  | update
  deriving DecidableEq

/-- The texts of the kinds. -/
def FileChangeKind.texts : TextSet FileChangeKind where
  all := [.add, .delete, .update]
  text
    | .add => "add"
    | .delete => "delete"
    | .update => "update"
  find?_text := by intro kind; cases kind <;> rfl

structure PublicFile where
  path : String
  kind : FileChangeKind
  deriving DecidableEq

/-- The context of an approval for a file change. -/
structure FileChangeContext where
  fileCount : Nat
  files : List PublicFile
  truncated : Bool
  deriving DecidableEq

def PublicFile.toJson (file : PublicFile) : Json :=
  .obj [("path", .str file.path), ("kind", .str (FileChangeKind.texts.text file.kind))]

def FileChangeContext.toJson (context : FileChangeContext) : Json :=
  .obj [("kind", .str "file-change"), ("fileCount", .num context.fileCount),
    ("files", .arr (context.files.map PublicFile.toJson)), ("truncated", .bool context.truncated)]

/-! ### Paths -/

/-- A control character, or one that changes the direction of text. -/
def forbiddenInPath (c : Char) : Bool :=
  c.toNat ≤ 0x1F || c.toNat = 0x7F || c.toNat = 0x61C || c.toNat = 0x200E || c.toNat = 0x200F ||
    (0x2028 ≤ c.toNat && c.toNat ≤ 0x202E) || (0x2066 ≤ c.toNat && c.toNat ≤ 0x2069)

/-- `^[A-Za-z]:`. -/
def driveLike : List Char → Bool
  | c :: ':' :: _ => (65 ≤ c.toNat && c.toNat ≤ 90) || (97 ≤ c.toNat && c.toNat ≤ 122)
  | _ => false

/-- The longest path that is shown. -/
def maxPublicPath : Nat := 240

def publicApprovalPath (value : Option JsonValue) : Option String :=
  match value with
  | some (.string text) =>
    if text = "" ∨ text.toList.any forbiddenInPath then none
    else if PosixPath.isAbsolute text.toList ∨ driveLike text.toList then none
    else
      let segments := PosixPath.cleanSegments text.toList
      if segments = [] ∨ PosixPath.dots ∈ segments then none
      else
        let normalized := String.ofList (Texts.join '/' segments)
        if utf16Length normalized ≤ maxPublicPath then some normalized else none
  | _ => none

/-! ### Contexts -/

/-- The greatest number of files that is shown. -/
def maxApprovalFiles : Nat := 20

/-- A file with a valid path and kind. -/
def validatedFile (file : JsonValue) : Option PublicFile := do
  let path ← publicApprovalPath (file.get? "path")
  let kind ← FileChangeKind.texts.ofValue? (file.get? "kind")
  return ⟨path, kind⟩

/-- `context.fileCount`, where it is an integer of at least the number of files. -/
def suppliedFileCount (value : Option JsonValue) (supplied : Nat) : Nat :=
  match value with
  | some (.number (some q)) =>
    if q.den = 1 ∧ (supplied : Int) ≤ q.num then q.num.toNat else supplied
  | _ => supplied

def approvalContextView (context : Option JsonValue) : Option FileChangeContext :=
  if isText (JsonValue.optionGet? context "kind") "file-change" then
    let supplied := arrayOrEmpty (JsonValue.optionGet? context "files")
    let validated := supplied.filterMap validatedFile
    if validated.length ≠ supplied.length ∨ validated.length = 0 then none
    else
      let files := validated.take maxApprovalFiles
      let fileCount := suppliedFileCount (JsonValue.optionGet? context "fileCount") supplied.length
      some
        { fileCount
          files
          truncated := truthy (JsonValue.optionGet? context "truncated") ||
            decide (files.length < supplied.length) || decide (files.length < fileCount) }
  else none

/-! ### Approvals -/

/-- The method of an approval for a file change. -/
def fileChangeMethod : String := "item/fileChange/requestApproval"

/-- The members of an approval that are shown as they are. -/
def approvalMembers : List String :=
  ["approvalId", "method", "threadId", "turnId", "itemId", "reason", "command", "cwd",
    "availableDecisions"]

/-- An approval as it is shown. -/
structure ApprovalView where
  members : List (String × JsonValue)
  context : Option FileChangeContext
  actionable : Option JsonValue

/-- `value === false`. -/
def isFalse : Option JsonValue → Bool
  | some (.bool b) => !b
  | _ => false

def approvalView (approval : Option JsonValue) : ApprovalView :=
  let context := approvalContextView (JsonValue.optionGet? approval "context")
  let actionable :=
    if isText (JsonValue.optionGet? approval "method") fileChangeMethod then
      some (.bool (truthy (JsonValue.optionGet? approval "actionable") &&
        context.any fun context => !context.files.isEmpty))
    else JsonValue.optionGet? approval "actionable"
  { members := approvalMembers.filterMap fun name =>
      (JsonValue.optionGet? approval name).map fun value => (name, value)
    context := if isFalse actionable then none else context
    actionable }

def isActionableApproval (approval : Option JsonValue) : Bool :=
  if !truthy approval || isFalse (JsonValue.optionGet? approval "actionable") then false
  else
    !isText (JsonValue.optionGet? approval "method") fileChangeMethod ||
      match (approvalView approval).actionable with
      | some (.bool b) => b
      | _ => false

/-! ### Paths of clean segments -/

/-- The normal form of a path that begins with clean segments. -/
theorem publicApprovalPath_spec {text : String} {segments : List PosixPath.Segment}
    (hsegments : PosixPath.cleanSegments text.toList = segments)
    (hclean : ∀ segment ∈ segments, PosixPath.Clean segment)
    (hchars : text.toList.any forbiddenInPath = false)
    (hrelative : PosixPath.isAbsolute text.toList = false)
    (hlength : utf16Length (String.ofList (Texts.join '/' segments)) ≤ maxPublicPath) :
    publicApprovalPath (some (.string text)) =
      if driveLike text.toList ∨ segments = [] then none
      else some (String.ofList (Texts.join '/' segments)) := by
  have hdots : PosixPath.dots ∉ segments := fun hmem => (hclean _ hmem).2.2 rfl
  have hempty : text = "" → segments = [] := by
    rintro rfl
    exact hsegments.symm
  rw [publicApprovalPath]
  simp only [hsegments, hchars, hrelative, hdots, hlength, or_false, false_or, Bool.false_eq_true,
    if_true]
  by_cases htext : text = ""
  · rw [if_pos htext, if_pos (.inr (hempty htext))]
  · rw [if_neg htext]
    by_cases hdrive : driveLike text.toList = true
    · rw [if_pos hdrive, if_pos (.inl hdrive)]
    · rw [if_neg hdrive]
      simp only [hdrive, Bool.false_eq_true, false_or]

end AgentHost
