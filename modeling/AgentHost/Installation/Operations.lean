import AgentHost.Lib.PosixPath
import AgentHost.Lib.RoutineRuns
import Mathlib

/-!
# Installation (`installation.js`)

Install, rollback and recovery as routines over what they leave on the disk. Every file operation is
an action that may fail before it has its effect, or after.

* `Version` — a release version that passed `validVersion`.
* `Layout` — the pointer, the state file, the transaction file, the releases and the launcher.
* `Action.effect` — what the file operations do; `perform` — with their faults.
* `switchCurrent`, `writeLauncher`, `writeState`, `clearTransaction`, `recoverTransaction`,
  `restorePrevious`, `installRelease`, `rollbackRelease`, `uninstallRelease` — the source functions.
-/

namespace AgentHost.Installation

/-! ### Versions -/

/-- `^\d+\.\d+\.\d+(?:-[0-9A-Za-z.-]+)?$`. -/
def validVersion (text : List Char) : Bool :=
  let numberEnd (cs : List Char) : List Char := cs.dropWhile Char.isDigit
  let number (cs : List Char) : Bool := cs.head?.any Char.isDigit
  let minor := numberEnd text
  let patch := numberEnd minor.tail
  let rest := numberEnd patch.tail
  number text && minor.head? == some '.' && number minor.tail && patch.head? == some '.' &&
    number patch.tail && (rest.isEmpty || (rest.head? == some '-' && !rest.tail.isEmpty &&
      rest.tail.all fun c => c.isAlphanum || c == '.' || c == '-'))

/-- The version of a release. -/
structure Version where
  text : List Char
  valid : validVersion text = true
  deriving DecidableEq

/-! ### Paths and the launcher's text -/

/-- The paths that an installation is called with, after `resolve`. -/
structure Paths where
  prefixDirectory : List Char
  binDirectory : List Char
  nodePath : List Char

namespace Paths

/-- `join(prefix, "current")`. -/
def current (paths : Paths) : List Char :=
  PosixPath.joinPaths [paths.prefixDirectory, "current".toList]

/-- `join(prefix, "current", "src", "cli.js")`. -/
def cli (paths : Paths) : List Char :=
  PosixPath.joinPaths
    [paths.prefixDirectory, "current".toList, "src".toList, "cli.js".toList]

/-- `join(binDirectory, "agent-host")`. -/
def launcher (paths : Paths) : List Char :=
  PosixPath.joinPaths [paths.binDirectory, "agent-host".toList]

end Paths

def shellQuote (value : List Char) : List Char :=
  '\'' :: value.flatMap (fun c => if c = '\'' then "'\"'\"'".toList else [c]) ++ ['\'']

/-- The script of the launcher. -/
def launcherScript (paths : Paths) : List Char :=
  "#!/bin/sh\nAGENT_HOST_LAUNCHER_PATH=".toList ++ shellQuote paths.launcher ++ " exec ".toList ++
    shellQuote paths.nodePath ++ ' ' :: shellQuote paths.cli ++ " \"$@\"\n".toList

/-- `contents.includes(join(prefix, "current", "src", "cli.js"))`. -/
def manages (paths : Paths) (contents : List Char) : Bool :=
  contents.tails.any fun suffix => paths.cli.isPrefixOf suffix

/-! ### The disk -/

/-- The error codes that the source tells apart. -/
inductive IoError
  | enoent
  | enotdir
  | eisdir
  | other
  deriving DecidableEq

/-- `install-state.json`. -/
structure InstallState where
  current : Version
  previous : Option Version
  deriving DecidableEq

/-- `install-transaction.json`. -/
structure Transaction where
  source : Option Version
  target : Version
  deriving DecidableEq

/-- What stands at `current`: a link to a release, or something else. -/
inductive Pointer
  | link (version : Version)
  | file
  | directory
  deriving DecidableEq

/-- What stands at the launcher's path: a file, a link with what is read through it, or a directory. -/
inductive Launcher
  | file (contents : List Char)
  | link (contents : Option (List Char))
  | directory
  deriving DecidableEq

def Pointer.isSymbolicLink : Pointer → Bool
  | .link _ => true
  | _ => false

def Launcher.isFile : Launcher → Bool
  | .file _ => true
  | _ => false

/-- What is read at the launcher's path. -/
def Launcher.read : Launcher → Except IoError (List Char)
  | .file contents | .link (some contents) => .ok contents
  | .link none => .error .enoent
  | .directory => .error .eisdir

structure Layout where
  current : Option Pointer
  state : Option InstallState
  transaction : Option Transaction
  releases : List Version
  staging : List Version
  launcher : Option Launcher
  deriving DecidableEq

namespace Layout

/-- The version in the state file. -/
def version (layout : Layout) : Option Version := layout.state.map InstallState.current

/-- The pointer agrees with the version in the state file, or both are absent. -/
def Agrees (layout : Layout) : Prop := layout.current = layout.version.map Pointer.link

instance (layout : Layout) : Decidable layout.Agrees :=
  inferInstanceAs (Decidable (layout.current = _))

end Layout

/-! ### File operations -/

/-- The file operations, those that leave the layout as it is among them, and the hooks of the
    caller. -/
inductive Action
  | validateSource
  | assertPrivateDirectory
  | acquireInstallLock
  | unlinkOwnedLock
  | prepareBinDirectory
  | makeReleases
  | syncDirectory
  | writeTemporary
  | removeTemporary
  | hook
  | readTransaction
  | readState
  /-- `lstat(current)`: whether it is a symbolic link. -/
  | statCurrent
  /-- `lstat(launcher)`: whether it is a regular file. -/
  | statLauncher
  | readLauncher
  | statRelease (version : Version)
  | validateRelease (version : Version)
  | copyStaging (version : Version)
  | validateStaging (version : Version)
  | renameStaging (version : Version)
  | removeStaging (version : Version)
  /-- The new link, beside the pointer. -/
  | symlinkNext (version : Version)
  | renameCurrent (version : Version)
  | renameLauncher (script : List Char)
  | renameState (state : InstallState)
  | renameTransaction (transaction : Transaction)
  | unlinkState
  | unlinkCurrent
  | unlinkLauncher
  | unlinkTransaction
  | removeReleases
  deriving DecidableEq

/-- What an operation yields where it succeeds. -/
@[reducible] def Value : Action → Type
  | .readTransaction => Transaction
  | .readState => InstallState
  | .statCurrent | .statLauncher => Bool
  | .readLauncher => List Char
  | _ => Unit

/-- What an operation yields. -/
@[reducible] def Answer (action : Action) : Type := Except IoError (Value action)

/-- A value that is there, or `ENOENT`. -/
def present {α : Type} (layout : Layout) : Option α → Except IoError (Layout × α)
  | none => .error .enoent
  | some value => .ok (layout, value)

theorem eq_of_present {α : Type} {layout layout' : Layout} {file : Option α} {value : α}
    (h : present layout file = .ok (layout', value)) : layout' = layout ∧ file = some value := by
  cases file with
  | none => cases h
  | some value' =>
    obtain ⟨rfl, rfl⟩ := Prod.mk.inj (Except.ok.inj h)
    exact ⟨rfl, rfl⟩

/-- The next layout where something is there, or `ENOENT`. -/
def unlinked {α : Type} (file : Option α) (layout : Layout) : Except IoError (Layout × Unit) :=
  if file.isNone then .error .enoent else .ok (layout, ())

/-- What an operation does where nothing fails. -/
def Action.effect (layout : Layout) :
    (action : Action) → Except IoError (Layout × Value action)
  | .validateSource | .assertPrivateDirectory | .acquireInstallLock | .unlinkOwnedLock
  | .prepareBinDirectory | .makeReleases | .syncDirectory | .writeTemporary | .removeTemporary
  | .hook | .symlinkNext _ => .ok (layout, ())
  | .readTransaction => present layout layout.transaction
  | .readState => present layout layout.state
  | .statCurrent => present layout (layout.current.map Pointer.isSymbolicLink)
  | .statLauncher => present layout (layout.launcher.map Launcher.isFile)
  | .readLauncher =>
    (layout.launcher.elim (.error .enoent) Launcher.read).map fun contents => (layout, contents)
  | .statRelease version | .validateRelease version =>
    if version ∈ layout.releases then .ok (layout, ()) else .error .enoent
  | .copyStaging version => .ok ({ layout with staging := version :: layout.staging }, ())
  | .validateStaging version =>
    if version ∈ layout.staging then .ok (layout, ()) else .error .enoent
  | .renameStaging version =>
    if version ∈ layout.staging ∧ version ∉ layout.releases then
      .ok ({ layout with
        staging := layout.staging.erase version, releases := version :: layout.releases }, ())
    else .error .other
  | .removeStaging version => .ok ({ layout with staging := layout.staging.erase version }, ())
  | .renameCurrent version =>
    if layout.current = some .directory then .error .eisdir
    else .ok ({ layout with current := some (.link version) }, ())
  | .renameLauncher script =>
    if layout.launcher = some .directory then .error .eisdir
    else .ok ({ layout with launcher := some (.file script) }, ())
  | .renameState state => .ok ({ layout with state := some state }, ())
  | .renameTransaction transaction => .ok ({ layout with transaction := some transaction }, ())
  | .unlinkState => unlinked layout.state { layout with state := none }
  | .unlinkCurrent =>
    if layout.current = some .directory then .error .other
    else unlinked layout.current { layout with current := none }
  | .unlinkLauncher =>
    if layout.launcher = some .directory then .error .other
    else unlinked layout.launcher { layout with launcher := none }
  | .unlinkTransaction => unlinked layout.transaction { layout with transaction := none }
  | .removeReleases => .ok ({ layout with releases := [] }, ())

/-- How an operation fails: before its effect, or after. -/
inductive Fault
  | none
  | before (error : IoError)
  | after (error : IoError)
  deriving DecidableEq

/-- The failures that an operation may meet with besides what its effect says. The lock holder has
    checked the directories, so only the launcher's path may lead through something else. -/
def IoError.mayMeet (error : IoError) (action : Action) : Bool :=
  error = .other ||
    ((error = .enotdir || error = .eisdir) &&
      (action = .statLauncher || action = .readLauncher || action = .unlinkLauncher))

def perform (action : Action) (fault : Fault) (layout : Layout) :
    Option (Layout × Answer action) :=
  match fault, action.effect layout with
  | .none, .ok (layout, value) => some (layout, .ok value)
  | .none, .error error => some (layout, .error error)
  | .before error, _ => if error.mayMeet action then some (layout, .error error) else none
  | .after error, .ok (layout, _) =>
    if error.mayMeet action then some (layout, .error error) else none
  | .after _, .error error => some (layout, .error error)

/-! ### Routines -/

/-- What is thrown. -/
inductive Failure
  | io (error : IoError)
  | message (text : List Char)
  /-- `AggregateError`, of the error and the one that the restoration met with. -/
  | aggregate (error restoreError : Failure) (text : String)
  deriving DecidableEq

abbrev Procedure := Routine Action Answer Failure

/-- One operation; its failure is thrown. -/
def fileOp (action : Action) : Procedure (Value action) :=
  .act action fun answer =>
    match answer with
    | .ok value => .done value
    | .error error => .fail (.io error)

/-- `catch (error) { if (error?.code !== …) throw error; }`. -/
def tolerate (codes : List IoError) (procedure : Procedure Unit) : Procedure Unit :=
  procedure.tryCatch fun failure =>
    if codes.any fun code => failure = .io code then .done () else .fail failure

/-- `undefined` where there is no such file. -/
def optional {α : Type} (procedure : Procedure α) : Procedure (Option α) :=
  (procedure.bind fun value => .done (some value)).tryCatch fun failure =>
    if failure = .io .enoent then .done none else .fail failure

/-- `throw new Error(…)`. -/
def throwMessage {α : Type} (text : String) (path : List Char) : Procedure α :=
  .fail (.message (text.toList ++ path))

/-- `writeFileAtomic`, with the rename that puts the file in its place and whether there is a hook
    after it. -/
def writeFileAtomic (rename : Action) (afterRename : Bool) : Procedure Unit :=
  Routine.tryCatch
    ((fileOp .writeTemporary).bind fun _ => (fileOp .syncDirectory).bind fun _ =>
      (fileOp rename).bind fun _ => (if afterRename then fileOp .hook else .done ()).bind fun _ =>
        fileOp .syncDirectory)
    fun failure => (fileOp .removeTemporary).bind fun _ => .fail failure

def writeState (state : InstallState) (afterRename : Bool) : Procedure Unit :=
  writeFileAtomic (.renameState state) afterRename

def writeTransaction (transaction : Transaction) : Procedure Unit :=
  writeFileAtomic (.renameTransaction transaction) false

def readState : Procedure (Option InstallState) := optional (fileOp .readState)

section

variable (paths : Paths)

/-- What `switchCurrent` refuses to replace. -/
def checkPointer : Procedure Unit :=
  tolerate [.enoent] ((fileOp .statCurrent).bind fun isSymbolicLink =>
    if isSymbolicLink then .done ()
    else throwMessage "refusing to replace non-link install pointer: " paths.current)

def switchCurrent (version : Version) : Procedure Unit :=
  (checkPointer paths).bind fun _ =>
  (fileOp (.symlinkNext version)).bind fun _ =>
  (fileOp .syncDirectory).bind fun _ =>
  (fileOp (.renameCurrent version)).bind fun _ =>
  fileOp .syncDirectory

/-- What `writeLauncher` refuses to replace. -/
def checkLauncher : Procedure Unit :=
  tolerate [.enoent] ((fileOp .statLauncher).bind fun isFile =>
    if isFile then
      (fileOp .readLauncher).bind fun existing =>
        if manages paths existing then .done ()
        else throwMessage "refusing to replace unmanaged launcher: " paths.launcher
    else throwMessage "refusing to replace unsafe launcher: " paths.launcher)

def writeLauncher : Procedure Unit :=
  (fileOp .prepareBinDirectory).bind fun _ =>
  (checkLauncher paths).bind fun _ =>
  writeFileAtomic (.renameLauncher (launcherScript paths)) false

def clearTransaction : Procedure Unit :=
  tolerate [.enoent] ((fileOp .unlinkTransaction).bind fun _ => fileOp .syncDirectory)

/-- The launcher is removed where it is this installation's. -/
def removeLauncher (codes : List IoError) : Procedure Unit :=
  tolerate codes ((fileOp .readLauncher).bind fun contents =>
    if manages paths contents then fileOp .unlinkLauncher else .done ())

def removeCurrentAndLauncher : Procedure Unit :=
  (tolerate [.enoent, .enotdir] (fileOp .unlinkCurrent)).bind fun _ =>
  removeLauncher paths [.enoent, .enotdir, .eisdir]

def validateRecoveryTarget (version : Version) : Procedure Unit :=
  (fileOp (.validateRelease version)).tryCatch fun _ =>
    .fail (.message ("cannot recover install transaction because release ".toList ++ version.text ++
      " is unavailable or invalid".toList))

/-- The pointer and the launcher of a version that is there. -/
def recoverTo (version : Version) : Procedure Unit :=
  (validateRecoveryTarget version).bind fun _ =>
  (switchCurrent paths version).bind fun _ =>
  writeLauncher paths

def recoverTransaction : Procedure Unit :=
  (optional (fileOp .readTransaction)).bind fun found =>
    match found with
    | none => .done ()
    | some transaction =>
      readState.bind fun state =>
      (if state.map InstallState.current = some transaction.target then
          recoverTo paths transaction.target
        else transaction.source.elim (removeCurrentAndLauncher paths) (recoverTo paths)).bind fun _ =>
      clearTransaction

def restorePrevious (previousState : Option InstallState) : Procedure Unit :=
  match previousState with
  | some state =>
    (writeState state false).bind fun _ =>
    (switchCurrent paths state.current).bind fun _ =>
    writeLauncher paths
  | none =>
    (tolerate [.enoent] (fileOp .unlinkState)).bind fun _ =>
    removeCurrentAndLauncher paths

/-- `withInstallLock`. -/
def withInstallLock {α : Type} (callback : Procedure α) : Procedure α :=
  (fileOp .assertPrivateDirectory).bind fun _ =>
  (fileOp .acquireInstallLock).bind fun _ =>
  callback.attempt.bind fun result =>
  (fileOp .unlinkOwnedLock).bind fun _ =>
    match result with
    | .ok value => .done value
    | .error failure => .fail failure

/-- A version becomes the current one inside its transaction; what was there is restored where that
    fails. -/
def activate (previousState : Option InstallState) (state : InstallState) (text : String) :
    Procedure Unit :=
  (writeTransaction ⟨previousState.map InstallState.current, state.current⟩).bind fun _ =>
  (Routine.tryCatch
    ((switchCurrent paths state.current).bind fun _ =>
      (writeLauncher paths).bind fun _ => writeState state true)
    fun failure =>
      (Routine.tryCatch
        ((restorePrevious paths previousState).bind fun _ => clearTransaction)
        fun restoreFailure => .fail (.aggregate failure restoreFailure text)).bind fun _ =>
      .fail failure).bind fun _ =>
  (fileOp .hook).bind fun _ =>
  clearTransaction

/-- A release that is not there yet is copied beside its place, and then renamed. -/
def stageRelease (version : Version) : Procedure Unit :=
  (optional (fileOp (.statRelease version))).bind fun found =>
    match found with
    | some _ => .done ()
    | none =>
      Routine.tryCatch
        ((fileOp (.copyStaging version)).bind fun _ =>
          (fileOp (.validateStaging version)).bind fun _ =>
          (fileOp (.renameStaging version)).bind fun _ =>
          fileOp .syncDirectory)
        fun failure => (fileOp (.removeStaging version)).bind fun _ => .fail failure

/-- What the state file says after a version is installed. -/
def installed (version : Version) (previousState : Option InstallState) : InstallState :=
  ⟨version, previousState.bind fun state =>
    if state.current ≠ version then some state.current else state.previous⟩

/-- `installRelease`, of a source with a version. -/
def installRelease (version : Version) : Procedure InstallState :=
  (fileOp .validateSource).bind fun _ =>
  withInstallLock <|
    (recoverTransaction paths).bind fun _ =>
    (fileOp .prepareBinDirectory).bind fun _ =>
    readState.bind fun previousState =>
    (if previousState.isNone then
      tolerate [.enoent] ((fileOp .statCurrent).bind fun _ => throwMessage
        "install pointer exists without managed install state; refusing to replace it" [])
      else .done ()).bind fun _ =>
    (fileOp .makeReleases).bind fun _ =>
    (fileOp .assertPrivateDirectory).bind fun _ =>
    (stageRelease version).bind fun _ =>
    (fileOp (.validateRelease version)).bind fun _ =>
    (activate paths previousState (installed version previousState)
      "release activation and automatic restoration failed; rerun the install command to recover the pending transaction").bind
        fun _ =>
    .done (installed version previousState)

/-- `rollbackRelease`. -/
def rollbackRelease : Procedure InstallState :=
  withInstallLock <|
    (recoverTransaction paths).bind fun _ =>
    (fileOp .prepareBinDirectory).bind fun _ =>
    readState.bind fun state =>
    match state with
    | some ⟨current, some previousVersion⟩ =>
      (fileOp (.validateRelease previousVersion)).bind fun _ =>
      (activate paths state ⟨previousVersion, some current⟩
        "rollback activation and automatic restoration failed; rerun rollback to recover the pending transaction").bind
          fun _ =>
      .done ⟨previousVersion, some current⟩
    | _ => throwMessage "no previous agent-host release is available for rollback" []

/-- `uninstallRelease`; whether something was removed. -/
def uninstallRelease : Procedure Bool :=
  withInstallLock <|
    (recoverTransaction paths).bind fun _ =>
    readState.bind fun state =>
    if state.isNone then .done false
    else
      (removeLauncher paths [.enoent]).bind fun _ =>
      (fileOp .removeReleases).bind fun _ =>
      (tolerate [.enoent] (fileOp .unlinkCurrent)).bind fun _ =>
      (tolerate [.enoent] (fileOp .unlinkState)).bind fun _ =>
      (tolerate [.enoent] (fileOp .unlinkTransaction)).bind fun _ =>
      .done true

end

end AgentHost.Installation
