import Mathlib.Tactic.Common

namespace AgentHost

/-!
# Private state files

The atomic write of `secure-state.js`: a temporary file is written, synced and renamed over
the destination, and the directory is synced.  Any of the steps may fail; the temporary file
is then removed and the error thrown on.

* `writePrivateFileAtomic_thrown`, `writePrivateFileAtomic_file` — **Main**: what the write
  reports and what the destination holds afterwards, for every step that fails.
* `crashedWrite_file` — what it holds when the process dies in the middle.
-/

/-- The steps of `writePrivateFileAtomic`, by the name of the call that may fail. -/
inductive WriteStep
  | ensureOwnedDirectory
  | assertSafeDestination
  | open
  | writeFile
  | sync
  | close
  | rename
  | chmod
  | openDirectory
  | syncDirectory
  | closeDirectory
  deriving DecidableEq

/-- The steps in the order they run. -/
def writeSteps : List WriteStep :=
  [.ensureOwnedDirectory, .assertSafeDestination, .open, .writeFile, .sync, .close, .rename,
    .chmod, .openDirectory, .syncDirectory, .closeDirectory]

/-- The steps that run when the destination has been replaced already. -/
def WriteStep.afterRename : WriteStep → Bool
  | .chmod | .openDirectory | .syncDirectory | .closeDirectory => true
  | _ => false

/-- The destination of a private write, and the temporary file beside it. -/
structure PrivateFile (α : Type) where
  file : Option α
  temporary : Option (Option α) := none
  deriving DecidableEq

variable {α : Type}

/-- The effect of a step that succeeds. -/
def WriteStep.perform (content : α) : WriteStep → PrivateFile α → PrivateFile α
  | .open, state => { state with temporary := some none }
  | .writeFile, state => { state with temporary := some (some content) }
  | .rename, state =>
    match state.temporary with
    | some (some written) => ⟨some written, none⟩
    | _ => state
  | _, state => state

/-- Run the steps up to the failing one; whether all of them succeeded. -/
def performSteps (content : α) (fault : Option WriteStep) :
    List WriteStep → PrivateFile α → PrivateFile α × Bool
  | [], state => (state, true)
  | step :: rest, state =>
    if fault = some step then ({ state with temporary := none }, false)
    else performSteps content fault rest (step.perform content state)

/-- `writePrivateFileAtomic`, where `fault` is the step that fails. -/
def writePrivateFileAtomic (content : α) (fault : Option WriteStep) (state : PrivateFile α) :
    PrivateFile α × Bool :=
  performSteps content fault writeSteps state

/-- The write throws exactly when one of its steps fails. -/
theorem writePrivateFileAtomic_thrown (content : α) (fault : Option WriteStep)
    (state : PrivateFile α) : (writePrivateFileAtomic content fault state).2 = fault.isNone := by
  cases fault with
  | none => rfl
  | some step => cases step <;> rfl

/-- **Main**: the destination holds the new content unless a step up to the rename failed. -/
theorem writePrivateFileAtomic_file (content : α) (fault : Option WriteStep)
    (state : PrivateFile α) :
    (writePrivateFileAtomic content fault state).1.file =
      if fault.all WriteStep.afterRename then some content else state.file := by
  cases fault with
  | none => rfl
  | some step => cases step <;> rfl

/-- The destination when the process dies right before a step. -/
def crashedWrite (content : α) (before : WriteStep) (state : PrivateFile α) : PrivateFile α :=
  (writeSteps.takeWhile (· ≠ before)).foldl (fun s step => step.perform content s) state

/-- A crash leaves the old content or the new one. -/
theorem crashedWrite_file (content : α) (before : WriteStep) (state : PrivateFile α) :
    (crashedWrite content before state).file =
      if before.afterRename then some content else state.file := by
  cases before <;> rfl

end AgentHost
