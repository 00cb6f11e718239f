import AgentHost.Lib.InsertionMap
import AgentHost.Lib.TransitionSystem

namespace AgentHost

/-!
# The instance lock

Any number of processes that acquire and release lock files, with every file operation a step
of its own, and crashes that leave a lock file behind at any point.

* `LockHost.proceed` — the next file operation of an acquisition or release: `open` with
  exclusive creation, the write, `lstat`, `readFile`, the second `lstat`, `unlink`.
* `LockHost.system` — the runs; a lock file has an identity of its own next to its inode number,
  which the file system may hand out again.
* `LockHost.RemovesInspected` — the step is no removal of a lock file other than the one whose
  record was read as stale.
* `instance_lock_exclusion` — in the runs whose steps are all such, one acquisition at most holds
  a lock.  `instance_lock_shared` — a run with two live holders.
-/

/-- The JSON record of a lock file. -/
structure LockRecord where
  pid : Nat
  instanceId : String
  startedAt : Int
  deriving DecidableEq

/-- A lock file: its inode number, whether it is a regular file of this user, and its record,
    `none` while it holds no valid one. -/
structure LockFile where
  inode : Nat
  regular : Bool
  owned : Bool
  record : Option LockRecord
  deriving DecidableEq

/-- A directory entry of a lock file; `file` is a position in the list of all files. -/
structure LockEntry where
  path : String
  file : Nat
  deriving DecidableEq

/-- Where a call of `acquireInstanceLock`, or the `release` of what it returned, stands: before
    which file operation.  `attempt` counts the rounds of its loop, `stat` is the file its first
    `lstat` found, `inspected` the file whose record it read as stale, `file` its own one. -/
inductive LockPhase
  | creating (attempt : Nat)
  | writing (file : Nat)
  | syncing (file : Nat)
  | inspecting (attempt : Nat)
  | reading (attempt stat : Nat)
  | comparing (attempt stat inspected : Nat)
  | removing (attempt inspected : Nat)
  | holding (file : Nat)
  | releasing (file : Nat)
  | verifying (file : Nat)
  | unlinking (file : Nat)
  | released
  | failed
  deriving DecidableEq

/-- A call of `acquireInstanceLock` by a process. -/
structure LockTask where
  pid : Nat
  path : String
  record : LockRecord
  phase : LockPhase
  deriving DecidableEq

/-- The file of its own that an acquisition has created and not given up. -/
def LockPhase.own? : LockPhase → Option Nat
  | .writing file | .syncing file | .holding file | .releasing file | .verifying file
  | .unlinking file => some file
  | _ => none

/-- The file whose record an acquisition has read as stale and is about to remove. -/
def LockPhase.inspected? : LockPhase → Option Nat
  | .comparing _ _ inspected | .removing _ inspected => some inspected
  | _ => none

/-- The file whose record was read as stale, right before a removal. -/
def LockPhase.removes? : LockPhase → Option Nat
  | .removing _ inspected => some inspected
  | _ => none

/-- Whether the file of an acquisition holds its record. -/
def LockPhase.hasWritten : LockPhase → Bool
  | .syncing _ | .holding _ | .releasing _ | .verifying _ | .unlinking _ => true
  | _ => false

/-- Whether the caller of `acquireInstanceLock` has the lock. -/
def LockPhase.isHolding : LockPhase → Bool
  | .holding _ | .releasing _ | .verifying _ | .unlinking _ => true
  | _ => false

theorem LockPhase.own?_of_isHolding {phase : LockPhase} (h : phase.isHolding) :
    ∃ file, phase.own? = some file := by
  cases phase <;> first | exact ⟨_, rfl⟩ | cases h

/-- The live processes, the directory and the acquisitions. -/
structure LockHost where
  alive : List Nat
  files : List LockFile
  entries : InsertionMap LockEntry.path
  tasks : List LockTask

/-- What happens.  The number of a created file and the failing of an operation come from
    outside. -/
inductive LockEvent
  | acquire (pid : Nat) (path instanceId : String) (startedAt : Int)
  | release (task : Nat)
  | proceed (task inode : Nat)
  | fail (task : Nat)
  | crash (pid : Nat)
  | spawn (pid : Nat)

namespace LockHost

variable (host : LockHost)

/-- The file at a path. -/
def fileAt (path : String) : Option Nat := (host.entries.get? path).map LockEntry.file

/-- `sameFile`: the inode numbers agree. -/
def sameFile (left right : Nat) : Bool :=
  (host.files[left]?).map LockFile.inode == (host.files[right]?).map LockFile.inode

/-- `stat.isFile() && !stat.isSymbolicLink()` and, on inspection, the owner. -/
def isSafe (file : Nat) : Bool := (host.files[file]?).any fun f => f.regular && f.owned

/-- The record a file holds. -/
def recordOf (file : Nat) : Option LockRecord := (host.files[file]?).bind LockFile.record

/-- `processAlive`. -/
def processAlive (pid : Nat) : Bool := host.alive.contains pid

/-- Move an acquisition on. -/
def setPhase (n : Nat) (phase : LockPhase) : LockHost :=
  { host with tasks := host.tasks.modify n fun task => { task with phase := phase } }

/-- `open(path, "wx")` on a free path. -/
def create (n : Nat) (path : String) (inode : Nat) : LockHost :=
  ({ host with
      files := host.files ++ [⟨inode, true, true, none⟩]
      entries := host.entries.set ⟨path, host.files.length⟩ } : LockHost).setPhase n
    (.writing host.files.length)

/-- The write of a record through the handle of a file. -/
def writeRecord (n file : Nat) (record : LockRecord) : LockHost :=
  ({ host with
      files := host.files.modify file fun f => { f with record := some record } } :
    LockHost).setPhase n (.syncing file)

/-- `unlink(path)`. -/
def unlink (path : String) : LockHost := { host with entries := host.entries.delete path }

/-- The next operation of an acquisition, up to the one after it. -/
def proceed (n : Nat) (task : LockTask) (inode : Nat) : Option LockHost :=
  match task.phase with
  | .creating attempt =>
    -- `for (attempt < 2)`; `EEXIST` where the path is taken
    if 2 ≤ attempt then some (host.setPhase n .failed)
    else match host.fileAt task.path with
      | none => some (host.create n task.path inode)
      | some _ => some (host.setPhase n (.inspecting attempt))
  | .writing file => some (host.writeRecord n file task.record)
  | .syncing file => some (host.setPhase n (.holding file))
  | .inspecting attempt =>
    -- a path that is free by now is `stopped`, which is not `stale`
    match host.fileAt task.path with
    | none => some (host.setPhase n .failed)
    | some file =>
      if host.isSafe file then some (host.setPhase n (.reading attempt file))
      else some (host.setPhase n .failed)
  | .reading attempt stat =>
    -- the file that is read need not be the one that was found
    match host.fileAt task.path with
    | none => some (host.setPhase n .failed)
    | some file =>
      match host.recordOf file with
      | none => some (host.setPhase n .failed)
      | some record =>
        if host.processAlive record.pid then some (host.setPhase n .failed)
        else some (host.setPhase n (.comparing attempt stat file))
  | .comparing attempt stat inspected =>
    match host.fileAt task.path with
    | none => some (host.setPhase n .failed)
    | some file =>
      if host.sameFile file stat then some (host.setPhase n (.removing attempt inspected))
      else some (host.setPhase n .failed)
  | .removing attempt _ =>
    match host.fileAt task.path with
    | none => some (host.setPhase n .failed)
    | some _ => some ((host.unlink task.path).setPhase n (.creating (attempt + 1)))
  | .holding _ => none
  | .releasing file =>
    match host.fileAt task.path with
    | none => some (host.setPhase n .released)
    | some current =>
      if host.sameFile current file && (host.files[current]?).any LockFile.regular then
        some (host.setPhase n (.verifying file))
      else some (host.setPhase n .released)
  | .verifying file =>
    match (host.fileAt task.path).bind host.recordOf with
    | none => some (host.setPhase n .released)
    | some current =>
      if current.instanceId = task.record.instanceId ∧ current.pid = task.record.pid then
        some (host.setPhase n (.unlinking file))
      else some (host.setPhase n .released)
  | .unlinking _ => some ((host.unlink task.path).setPhase n .released)
  | .released => none
  | .failed => none

/-- A call of `acquireInstanceLock`. -/
def acquire (pid : Nat) (path instanceId : String) (startedAt : Int) : LockHost :=
  { host with
    tasks := host.tasks ++ [⟨pid, path, ⟨pid, instanceId, startedAt⟩, .creating 0⟩] }

/-- The end of a process, in the middle of whatever its acquisitions do. -/
def crash (pid : Nat) : LockHost :=
  { host with
    alive := host.alive.filter (· ≠ pid)
    tasks := host.tasks.map fun task =>
      if task.pid = pid then { task with phase := .failed } else task }

/-- One event, where it is enabled. -/
def step : LockEvent → Option LockHost
  | .acquire pid path instanceId startedAt =>
    if pid ∈ host.alive then some (host.acquire pid path instanceId startedAt) else none
  | .release n =>
    match host.tasks[n]? with
    | some ⟨_, _, _, .holding file⟩ => some (host.setPhase n (.releasing file))
    | _ => none
  | .proceed n inode =>
    match host.tasks[n]? with
    | some task => host.proceed n task inode
    | none => none
  | .fail n =>
    -- an operation of an acquisition fails: the call throws, what is on disk stays
    match host.tasks[n]? with
    | some task =>
      match task.phase with
      | .holding _ | .released | .failed => none
      | _ => some (host.setPhase n .failed)
    | none => none
  | .crash pid => if pid ∈ host.alive then some (host.crash pid) else none
  | .spawn pid => if pid ∈ host.alive then none else some { host with alive := pid :: host.alive }

/-- The runs: any directory, with whatever earlier processes left in it, and any processes to
    begin with. -/
def system : TransitionSystem LockHost LockEvent where
  init := fun host => host.tasks = [] ∧
    ∀ path file, host.fileAt path = some file → file < host.files.length
  step := LockHost.step

/-- An acquisition has the lock of a path. -/
def Holds (n : Nat) (path : String) : Prop :=
  ∃ task, host.tasks[n]? = some task ∧ task.path = path ∧ task.phase.isHolding

instance (n : Nat) (path : String) : Decidable (host.Holds n path) :=
  decidable_of_iff ((host.tasks[n]?).any fun task => task.path == path && task.phase.isHolding)
    (by simp [Holds, Option.any_eq_true])

/-- The step is no removal of a lock file other than the one that was inspected. -/
def RemovesInspected : LockEvent → Prop
  | .proceed n _ => ∀ task ∈ host.tasks[n]?, ∀ inspected ∈ task.phase.removes?,
      ∀ file ∈ host.fileAt task.path, file = inspected
  | _ => True

instance (e : LockEvent) : Decidable (host.RemovesInspected e) := by
  cases e <;> unfold RemovesInspected <;> infer_instance

/-! ### The invariant -/

/-- One acquisition: its process is alive; its own file is at its path and holds its record once
    that is written; the file it inspected exists. -/
structure TaskOk (task : LockTask) : Prop where
  alive : task.phase ≠ .failed → task.pid ∈ host.alive
  pid : task.record.pid = task.pid
  own : ∀ file, task.phase.own? = some file → host.fileAt task.path = some file ∧
    host.recordOf file = if task.phase.hasWritten then some task.record else none
  inspected : ∀ file, task.phase.inspected? = some file → file < host.files.length

/-- The files of the acquisitions that have one: no two share one, and what was read as stale is
    none of them. -/
structure Exclusive : Prop where
  task : ∀ (n : Nat) (task : LockTask), host.tasks[n]? = some task → host.TaskOk task
  unshared : ∀ (n n' : Nat) (task task' : LockTask) (file : Nat), host.tasks[n]? = some task →
    host.tasks[n']? = some task' → task.phase.own? = some file → task'.phase.own? = some file →
    n = n'
  stale : ∀ (n n' : Nat) (task task' : LockTask) (file : Nat), host.tasks[n]? = some task →
    host.tasks[n']? = some task' → task.phase.inspected? = some file →
    task'.phase.own? ≠ some file
  entries : ∀ (path : String) (file : Nat), host.fileAt path = some file →
    file < host.files.length

section Operations

variable {host} {n m : Nat} {task task' : LockTask} {phase : LockPhase} {path : String}
  {file : Nat}

/-- A task after a change of phase: the one that moved, or one that was there before. -/
theorem of_tasks_setPhase (h : (host.setPhase n phase).tasks[m]? = some task') :
    ∃ before, host.tasks[m]? = some before ∧
      ((m = n ∧ task' = { before with phase := phase }) ∨ (m ≠ n ∧ task' = before)) := by
  simp only [setPhase, List.getElem?_modify, Option.map_eq_map, Option.map_eq_some_iff] at h
  obtain ⟨before, hbefore, rfl⟩ := h
  refine ⟨before, hbefore, ?_⟩
  by_cases hm : n = m
  · subst hm
    simp
  · simp [hm, Ne.symm hm]

/-- The change of one acquisition's phase, where it owns no more than before and has inspected
    nothing that is owned. -/
theorem Exclusive.setPhase (h : host.Exclusive) (hn : host.tasks[n]? = some task)
    (halive : phase ≠ .failed → task.phase ≠ .failed)
    (hown : ∀ f, phase.own? = some f →
      task.phase.own? = some f ∧ phase.hasWritten = task.phase.hasWritten)
    (hinspected : ∀ f, phase.inspected? = some f → f < host.files.length ∧
      ∀ (m : Nat) (other : LockTask), host.tasks[m]? = some other → other.phase.own? ≠ some f) :
    (host.setPhase n phase).Exclusive := by
  -- what a task owns after the change it owned before
  have howned : ∀ (m : Nat) (after : LockTask) (f : Nat),
      (host.setPhase n phase).tasks[m]? = some after → after.phase.own? = some f →
      ∃ before, host.tasks[m]? = some before ∧ before.phase.own? = some f := by
    intro m after f hafter hf
    obtain ⟨before, hbefore, ⟨rfl, rfl⟩ | ⟨-, rfl⟩⟩ := of_tasks_setPhase hafter
    · obtain rfl := Option.some.inj (hn.symm.trans hbefore)
      exact ⟨task, hn, (hown f hf).1⟩
    · exact ⟨after, hbefore, hf⟩
  refine ⟨fun m after hafter => ?_, fun m m' after after' f hm hm' hf hf' => ?_,
    fun m m' after after' f hm hm' hf hf' => ?_, h.entries⟩
  · obtain ⟨before, hbefore, ⟨rfl, rfl⟩ | ⟨-, rfl⟩⟩ := of_tasks_setPhase hafter
    · obtain rfl := Option.some.inj (hn.symm.trans hbefore)
      have hok := h.task m task hn
      refine ⟨fun hp => hok.alive (halive hp), hok.pid, fun f hf => ?_, fun f hf => ?_⟩
      · obtain ⟨hbefore, hwritten⟩ := hown f hf
        rw [hwritten]
        exact hok.own f hbefore
      · exact (hinspected f hf).1
    · have hok := h.task m after hbefore
      exact ⟨hok.alive, hok.pid, hok.own, hok.inspected⟩
  · obtain ⟨before, hb, hbf⟩ := howned m after f hm hf
    obtain ⟨before', hb', hbf'⟩ := howned m' after' f hm' hf'
    exact h.unshared m m' before before' f hb hb' hbf hbf'
  · obtain ⟨before', hb', hbf'⟩ := howned m' after' f hm' hf'
    obtain ⟨before, hb, ⟨rfl, rfl⟩ | ⟨-, rfl⟩⟩ := of_tasks_setPhase hm
    · exact (hinspected f hf).2 m' before' hb' hbf'
    · exact h.stale m m' after before' f hb hb' hf hbf'

/-- An acquisition that gives up its file, or never had one. -/
theorem Exclusive.drop (h : host.Exclusive) (hn : host.tasks[n]? = some task)
    (halive : phase ≠ .failed → task.phase ≠ .failed) (hown : phase.own? = none)
    (hinspected : phase.inspected? = none) : (host.setPhase n phase).Exclusive :=
  h.setPhase hn halive (by simp [hown]) (by simp [hinspected])

/-- `open(path, "wx")`: the new file is nobody else's. -/
theorem Exclusive.create {inode : Nat} (h : host.Exclusive) (hn : host.tasks[n]? = some task)
    (halive : task.phase ≠ .failed) (hfree : host.fileAt task.path = none) :
    (host.create n task.path inode).Exclusive := by
  set next := host.create n task.path inode with hnext
  have hfileAt : ∀ path, next.fileAt path
      = if path = task.path then some host.files.length else host.fileAt path := by
    intro path
    change ((host.entries.set _).get? path).map _ = _
    rw [InsertionMap.get?_set]
    split <;> rfl
  have hrecordOf : ∀ f, f < host.files.length → next.recordOf f = host.recordOf f := by
    intro f hf
    change ((host.files ++ [_])[f]?).bind _ = _
    rw [List.getElem?_append_left hf]
    rfl
  have hlength : next.files.length = host.files.length + 1 := List.length_append
  have hold : ∀ (m : Nat) (before : LockTask) (f : Nat), host.tasks[m]? = some before →
      before.phase.own? = some f → f < host.files.length ∧ before.path ≠ task.path := by
    intro m before f hm hf
    have hat := ((h.task m before hm).own f hf).1
    exact ⟨h.entries _ _ hat, fun hp => by rw [hp, hfree] at hat; cases hat⟩
  have hcases : ∀ (m : Nat) (after : LockTask), next.tasks[m]? = some after →
      (m = n ∧ after = { task with phase := .writing host.files.length }) ∨
        (m ≠ n ∧ host.tasks[m]? = some after) := by
    intro m after hafter
    obtain ⟨before, hbefore, ⟨rfl, rfl⟩ | ⟨hne, rfl⟩⟩ := of_tasks_setPhase hafter
    · rw [Option.some.inj (hn.symm.trans hbefore)]
      exact .inl ⟨rfl, rfl⟩
    · exact .inr ⟨hne, hbefore⟩
  refine ⟨fun m after hafter => ?_, fun m m' after after' f hm hm' hf hf' => ?_,
    fun m m' after after' f hm hm' hf hf' => ?_, fun path f hf => ?_⟩
  · rcases hcases m after hafter with ⟨rfl, rfl⟩ | ⟨-, hbefore⟩
    · have hok := h.task m task hn
      refine ⟨fun _ => hok.alive halive, hok.pid, fun f hf => ?_, fun f hf => by cases hf⟩
      obtain rfl := Option.some.inj hf
      refine ⟨by rw [hfileAt, if_pos rfl], ?_⟩
      change ((host.files ++ [_])[host.files.length]?).bind _ = _
      rw [List.getElem?_concat_length]
      rfl
    · have hok := h.task m after hbefore
      refine ⟨hok.alive, hok.pid, fun f hf => ?_, fun f hf => ?_⟩
      · obtain ⟨hlt, hne⟩ := hold m after f hbefore hf
        rw [hfileAt, if_neg hne, hrecordOf f hlt]
        exact hok.own f hf
      · have hlt := hok.inspected f hf
        omega
  · rcases hcases m after hm with ⟨rfl, rfl⟩ | ⟨-, hb⟩ <;>
      rcases hcases m' after' hm' with ⟨rfl, rfl⟩ | ⟨-, hb'⟩
    · rfl
    · obtain rfl := Option.some.inj hf
      exact absurd (hold m' after' _ hb' hf').1 (Nat.lt_irrefl _)
    · obtain rfl := Option.some.inj hf'
      exact absurd (hold m after _ hb hf).1 (Nat.lt_irrefl _)
    · exact h.unshared m m' after after' f hb hb' hf hf'
  · rcases hcases m after hm with ⟨rfl, rfl⟩ | ⟨-, hb⟩
    · cases hf
    · rcases hcases m' after' hm' with ⟨rfl, rfl⟩ | ⟨-, hb'⟩
      · obtain rfl := Option.some.inj hf'
        exact absurd ((h.task m after hb).inspected _ hf) (Nat.lt_irrefl _)
      · exact h.stale m m' after after' f hb hb' hf hf'
  · rw [hfileAt] at hf
    rw [hlength]
    split at hf
    · obtain rfl := Option.some.inj hf
      omega
    · have hlt := h.entries path f hf
      omega

/-- The write of the record of an acquisition into its own file. -/
theorem Exclusive.writeRecord (h : host.Exclusive) (hn : host.tasks[n]? = some task)
    (hphase : task.phase = .writing file) :
    (host.writeRecord n file task.record).Exclusive := by
  set next := host.writeRecord n file task.record with hnext
  have hmine : task.phase.own? = some file := by rw [hphase]; rfl
  obtain ⟨hat, -⟩ := (h.task n task hn).own file hmine
  have hlt := h.entries _ _ hat
  have hlength : next.files.length = host.files.length := List.length_modify _ _ _
  have hrecordOf : ∀ f, next.recordOf f
      = if f = file then some task.record else host.recordOf f := by
    intro f
    change ((host.files.modify file _)[f]?).bind _ = _
    rw [List.getElem?_modify]
    by_cases hf : f = file
    · subst hf
      simp [List.getElem?_eq_getElem hlt]
    · simp [hf, Ne.symm hf, recordOf]
  have hcases : ∀ (m : Nat) (after : LockTask), next.tasks[m]? = some after →
      (m = n ∧ after = { task with phase := .syncing file }) ∨
        (m ≠ n ∧ host.tasks[m]? = some after) := by
    intro m after hafter
    obtain ⟨before, hbefore, ⟨rfl, rfl⟩ | ⟨hne, rfl⟩⟩ := of_tasks_setPhase hafter
    · rw [Option.some.inj (hn.symm.trans hbefore)]
      exact .inl ⟨rfl, rfl⟩
    · exact .inr ⟨hne, hbefore⟩
  have hother : ∀ (m : Nat) (after : LockTask), host.tasks[m]? = some after → m ≠ n →
      after.phase.own? ≠ some file :=
    fun m after hm hne hf => hne (h.unshared m n after task file hm hn hf hmine)
  refine ⟨fun m after hafter => ?_, fun m m' after after' f hm hm' hf hf' => ?_,
    fun m m' after after' f hm hm' hf hf' => ?_, fun path f hf => ?_⟩
  · rcases hcases m after hafter with ⟨rfl, rfl⟩ | ⟨hne, hbefore⟩
    · have hok := h.task m task hn
      refine ⟨fun _ => hok.alive (by simp [hphase]), hok.pid, fun f hf => ?_, fun f hf => by cases hf⟩
      obtain rfl := Option.some.inj hf
      exact ⟨hat, by rw [hrecordOf, if_pos rfl]; rfl⟩
    · have hok := h.task m after hbefore
      refine ⟨hok.alive, hok.pid, fun f hf => ?_, fun f hf => ?_⟩
      · rw [hrecordOf, if_neg (by rintro rfl; exact hother m after hbefore hne hf)]
        exact hok.own f hf
      · rw [hlength]
        exact hok.inspected f hf
  · rcases hcases m after hm with ⟨rfl, rfl⟩ | ⟨hne, hb⟩ <;>
      rcases hcases m' after' hm' with ⟨rfl, rfl⟩ | ⟨hne', hb'⟩
    · rfl
    · obtain rfl := Option.some.inj hf
      exact absurd hf' (hother m' after' hb' hne')
    · obtain rfl := Option.some.inj hf'
      exact absurd hf (hother m after hb hne)
    · exact h.unshared m m' after after' f hb hb' hf hf'
  · rcases hcases m after hm with ⟨rfl, rfl⟩ | ⟨-, hb⟩
    · cases hf
    · rcases hcases m' after' hm' with ⟨rfl, rfl⟩ | ⟨-, hb'⟩
      · obtain rfl := Option.some.inj hf'
        exact absurd hmine (h.stale m m' after task _ hb hn hf)
      · exact h.stale m m' after after' f hb hb' hf hf'
  · rw [hlength]
    exact h.entries path f hf

/-- The removal of a lock file that is no acquisition's own. -/
theorem Exclusive.unlink (h : host.Exclusive)
    (hfree : ∀ (m : Nat) (other : LockTask) (f : Nat), host.tasks[m]? = some other →
      other.phase.own? = some f → other.path ≠ path) : (host.unlink path).Exclusive := by
  have hfileAt : ∀ p, (host.unlink path).fileAt p = if p = path then none else host.fileAt p := by
    intro p
    change ((host.entries.delete path).get? p).map _ = _
    rw [InsertionMap.get?_delete]
    split <;> rfl
  refine ⟨fun m other hm => ?_, h.unshared, h.stale, fun p f hf => ?_⟩
  · have hok := h.task m other hm
    refine ⟨hok.alive, hok.pid, fun f hf => ?_, hok.inspected⟩
    rw [hfileAt, if_neg (hfree m other f hm hf)]
    exact hok.own f hf
  · rw [hfileAt] at hf
    split at hf
    · cases hf
    · exact h.entries p f hf

end Operations

/-! ### The steps -/

section Steps

variable {host} {host' : LockHost} {n : Nat} {task : LockTask}

/-- **Step lemma** of one acquisition, for a step that removes nothing but what was inspected. -/
theorem Exclusive.proceed {inode : Nat} (h : host.Exclusive) (hn : host.tasks[n]? = some task)
    (hok : host.RemovesInspected (.proceed n inode))
    (hstep : host.proceed n task inode = some host') : host'.Exclusive := by
  unfold LockHost.proceed at hstep
  split at hstep
  · next attempt hphase =>
    have halive : task.phase ≠ .failed := by simp [hphase]
    split at hstep
    · cases hstep
      exact h.drop hn (fun _ => halive) rfl rfl
    · split at hstep
      · next hfree => cases hstep; exact h.create hn halive hfree
      · cases hstep; exact h.drop hn (fun _ => halive) rfl rfl
  · next file hphase => cases hstep; exact h.writeRecord hn hphase
  · next file hphase =>
    cases hstep
    refine h.setPhase hn (fun _ => by simp [hphase]) (fun f hf => ?_) (fun f hf => by cases hf)
    rw [hphase]
    exact ⟨hf, rfl⟩
  · next attempt hphase =>
    have halive : task.phase ≠ .failed := by simp [hphase]
    repeat' split at hstep
    all_goals cases hstep
    all_goals exact h.drop hn (fun _ => halive) rfl rfl
  · next attempt stat hphase =>
    have halive : task.phase ≠ .failed := by simp [hphase]
    split at hstep
    · cases hstep; exact h.drop hn (fun _ => halive) rfl rfl
    · next file hat =>
      split at hstep
      · cases hstep; exact h.drop hn (fun _ => halive) rfl rfl
      · next record hrecord =>
        split at hstep
        · cases hstep; exact h.drop hn (fun _ => halive) rfl rfl
        · next hdead =>
          cases hstep
          refine h.setPhase hn (fun _ => halive) (fun f hf => by cases hf) fun f hf => ?_
          obtain rfl := Option.some.inj hf
          refine ⟨h.entries _ _ hat, fun m other hm hown => hdead ?_⟩
          -- a file of a live acquisition holds no record yet, or one with a live process
          have hother := h.task m other hm
          have hrec := (hother.own file hown).2
          rw [hrecord] at hrec
          split at hrec
          · obtain rfl := Option.some.inj hrec
            have hfailed : other.phase ≠ .failed := fun hp => by rw [hp] at hown; cases hown
            rw [processAlive, hother.pid]
            exact List.contains_iff_mem.mpr (hother.alive hfailed)
          · cases hrec
  · next attempt stat inspected hphase =>
    have halive : task.phase ≠ .failed := by simp [hphase]
    split at hstep
    · cases hstep; exact h.drop hn (fun _ => halive) rfl rfl
    · split at hstep
      · cases hstep
        refine h.setPhase hn (fun _ => halive) (fun f hf => by cases hf) fun f hf => ?_
        have hinspected : task.phase.inspected? = some f := by rw [hphase]; exact hf
        exact ⟨(h.task n task hn).inspected f hinspected,
          fun m other hm => h.stale n m task other f hn hm hinspected⟩
      · cases hstep; exact h.drop hn (fun _ => halive) rfl rfl
  · next attempt inspected hphase =>
    have halive : task.phase ≠ .failed := by simp [hphase]
    split at hstep
    · cases hstep; exact h.drop hn (fun _ => halive) rfl rfl
    · next file hat =>
      cases hstep
      -- the file that goes is the one that was inspected, and nobody owns that one
      have hgone := hok task hn inspected (by rw [hphase]; rfl) file hat
      have hinspected : task.phase.inspected? = some file := by rw [hphase, hgone]; rfl
      have hdropped : (host.setPhase n (.creating (attempt + 1))).Exclusive :=
        h.drop hn (fun _ => halive) rfl rfl
      refine hdropped.unlink fun m other f hm hown hpath => ?_
      obtain ⟨before, hbefore, ⟨-, rfl⟩ | ⟨-, rfl⟩⟩ := of_tasks_setPhase hm
      · cases hown
      · have hat' := ((h.task m other hbefore).own f hown).1
        rw [hpath, hat] at hat'
        obtain rfl := Option.some.inj hat'
        exact h.stale n m task other file hn hbefore hinspected hown
  · cases hstep
  · next file hphase =>
    have halive : task.phase ≠ .failed := by simp [hphase]
    split at hstep
    · cases hstep; exact h.drop hn (fun _ => halive) rfl rfl
    · split at hstep
      · cases hstep
        refine h.setPhase hn (fun _ => halive) (fun f hf => ?_) (fun f hf => by cases hf)
        rw [hphase]
        exact ⟨hf, rfl⟩
      · cases hstep; exact h.drop hn (fun _ => halive) rfl rfl
  · next file hphase =>
    have halive : task.phase ≠ .failed := by simp [hphase]
    split at hstep
    · cases hstep; exact h.drop hn (fun _ => halive) rfl rfl
    · split at hstep
      · cases hstep
        refine h.setPhase hn (fun _ => halive) (fun f hf => ?_) (fun f hf => by cases hf)
        rw [hphase]
        exact ⟨hf, rfl⟩
      · cases hstep; exact h.drop hn (fun _ => halive) rfl rfl
  · next file hphase =>
    have halive : task.phase ≠ .failed := by simp [hphase]
    cases hstep
    have hmine : task.phase.own? = some file := by rw [hphase]; rfl
    have hat := ((h.task n task hn).own file hmine).1
    have hdropped : (host.setPhase n .released).Exclusive := h.drop hn (fun _ => halive) rfl rfl
    refine hdropped.unlink fun m other f hm hown hpath => ?_
    obtain ⟨before, hbefore, ⟨-, rfl⟩ | ⟨hne, rfl⟩⟩ := of_tasks_setPhase hm
    · cases hown
    · have hat' := ((h.task m other hbefore).own f hown).1
      rw [hpath, hat] at hat'
      obtain rfl := Option.some.inj hat'
      exact hne (h.unshared m n other task file hbefore hn hown hmine)
  · cases hstep
  · cases hstep

/-- A new acquisition owns and has inspected nothing. -/
theorem Exclusive.acquire {pid : Nat} {path instanceId : String} {startedAt : Int}
    (h : host.Exclusive) (hpid : pid ∈ host.alive) :
    (host.acquire pid path instanceId startedAt).Exclusive := by
  have hcases : ∀ (m : Nat) (after : LockTask),
      (host.acquire pid path instanceId startedAt).tasks[m]? = some after →
      after = ⟨pid, path, ⟨pid, instanceId, startedAt⟩, .creating 0⟩ ∨
        host.tasks[m]? = some after := by
    intro m after hm
    change (host.tasks ++ [_])[m]? = _ at hm
    rw [List.getElem?_append] at hm
    split at hm
    · exact .inr hm
    · rw [List.getElem?_singleton] at hm
      split at hm
      · exact .inl (Option.some.inj hm).symm
      · cases hm
  refine ⟨fun m after hm => ?_, fun m m' after after' f hm hm' hf hf' => ?_,
    fun m m' after after' f hm hm' hf hf' => ?_, h.entries⟩
  · rcases hcases m after hm with rfl | hm
    · exact ⟨fun _ => hpid, rfl, fun f hf => (by cases hf), fun f hf => by cases hf⟩
    · have hok := h.task m after hm
      exact ⟨hok.alive, hok.pid, hok.own, hok.inspected⟩
  · rcases hcases m after hm with rfl | hm
    · cases hf
    · rcases hcases m' after' hm' with rfl | hm'
      · cases hf'
      · exact h.unshared m m' after after' f hm hm' hf hf'
  · rcases hcases m after hm with rfl | hm
    · cases hf
    · rcases hcases m' after' hm' with rfl | hm'
      · cases hf'
      · exact h.stale m m' after after' f hm hm' hf hf'

/-- A crash leaves the files where they are; the acquisitions of the process are gone. -/
theorem Exclusive.crash {pid : Nat} (h : host.Exclusive) : (host.crash pid).Exclusive := by
  have hcases : ∀ (m : Nat) (after : LockTask), (host.crash pid).tasks[m]? = some after →
      ∃ before, host.tasks[m]? = some before ∧
        (after = { before with phase := .failed } ∨ (after = before ∧ before.pid ≠ pid)) := by
    intro m after hm
    simp only [LockHost.crash, List.getElem?_map, Option.map_eq_some_iff] at hm
    obtain ⟨before, hbefore, rfl⟩ := hm
    refine ⟨before, hbefore, ?_⟩
    split
    · exact .inl rfl
    · next hne => exact .inr ⟨rfl, hne⟩
  refine ⟨fun m after hm => ?_, fun m m' after after' f hm hm' hf hf' => ?_,
    fun m m' after after' f hm hm' hf hf' => ?_, h.entries⟩
  · obtain ⟨before, hbefore, rfl | ⟨rfl, hne⟩⟩ := hcases m after hm
    · exact ⟨fun hp => absurd rfl hp, (h.task m before hbefore).pid, fun f hf => (by cases hf),
        fun f hf => by cases hf⟩
    · have hok := h.task m after hbefore
      refine ⟨fun hp => List.mem_filter.mpr ⟨hok.alive hp, decide_eq_true hne⟩, hok.pid, hok.own,
        hok.inspected⟩
  · obtain ⟨before, hb, rfl | ⟨rfl, -⟩⟩ := hcases m after hm
    · cases hf
    · obtain ⟨before', hb', rfl | ⟨rfl, -⟩⟩ := hcases m' after' hm'
      · cases hf'
      · exact h.unshared m m' after after' f hb hb' hf hf'
  · obtain ⟨before, hb, rfl | ⟨rfl, -⟩⟩ := hcases m after hm
    · cases hf
    · obtain ⟨before', hb', rfl | ⟨rfl, -⟩⟩ := hcases m' after' hm'
      · cases hf'
      · exact h.stale m m' after after' f hb hb' hf hf'

/-- **Step lemma.** -/
theorem Exclusive.step {e : LockEvent} (h : host.Exclusive) (hok : host.RemovesInspected e)
    (hstep : host.step e = some host') : host'.Exclusive := by
  cases e with
  | acquire pid path instanceId startedAt =>
    simp only [LockHost.step] at hstep
    split at hstep
    · next hpid => cases hstep; exact h.acquire hpid
    · cases hstep
  | release n =>
    simp only [LockHost.step] at hstep
    split at hstep
    · next pid path record file hn =>
      cases hstep
      exact h.setPhase hn (fun _ => by simp) (fun f hf => ⟨hf, rfl⟩) (fun f hf => by cases hf)
    · cases hstep
  | proceed n inode =>
    simp only [LockHost.step] at hstep
    split at hstep
    · next task hn => exact h.proceed hn hok hstep
    · cases hstep
  | fail n =>
    simp only [LockHost.step] at hstep
    split at hstep
    · next task hn =>
      split at hstep
      any_goals cases hstep
      exact h.drop hn (fun hp => absurd rfl hp) rfl rfl
    · cases hstep
  | crash pid =>
    simp only [LockHost.step] at hstep
    split at hstep
    · cases hstep; exact h.crash
    · cases hstep
  | spawn pid =>
    simp only [LockHost.step] at hstep
    split at hstep
    · cases hstep
    · cases hstep
      refine ⟨fun m task hm => ?_, h.unshared, h.stale, h.entries⟩
      have hok := h.task m task hm
      exact ⟨fun hp => List.mem_cons_of_mem _ (hok.alive hp), hok.pid, hok.own, hok.inspected⟩

/-- **Main.** In a run that removes nothing but what was inspected the acquisitions' files are
    exclusive in every state. -/
theorem exclusive_of_reachable (hs : system.ReachableWhile RemovesInspected host) :
    host.Exclusive := by
  refine TransitionSystem.ReachableWhile.invariant (fun host hinit => ?_)
    (fun _ _ _ h hok hstep => h.step hok hstep) hs
  obtain ⟨htasks, hentries⟩ := hinit
  refine ⟨?_, ?_, ?_, hentries⟩ <;> simp [htasks]

/-- Two acquisitions that hold one lock are one. -/
theorem Exclusive.holds_unique {n' : Nat} {path : String} (h : host.Exclusive)
    (hn : host.Holds n path) (hn' : host.Holds n' path) : n = n' := by
  have howns : ∀ {m : Nat}, host.Holds m path → ∃ (task : LockTask) (file : Nat),
      host.tasks[m]? = some task ∧ task.phase.own? = some file ∧
        host.fileAt path = some file := by
    rintro m ⟨task, hm, rfl, hholding⟩
    obtain ⟨file, hown⟩ := LockPhase.own?_of_isHolding hholding
    exact ⟨task, file, hm, hown, ((h.task m task hm).own file hown).1⟩
  obtain ⟨task, file, hm, hown, hat⟩ := howns hn
  obtain ⟨task', file', hm', hown', hat'⟩ := howns hn'
  obtain rfl := Option.some.inj (hat.symm.trans hat')
  exact h.unshared n n' task task' file hm hm' hown hown'

end Steps

/-- The lock file of a launch ledger. -/
def writerLock (ledgerFile : String) : String := ledgerFile ++ ".writer.lock"

/-- A process that is alive has the lock of a path. -/
def LiveHolder (host : LockHost) (pid : Nat) (path : String) : Prop :=
  pid ∈ host.alive ∧ ∃ n task, host.tasks[n]? = some task ∧ task.pid = pid ∧ host.Holds n path

end LockHost

open LockHost in
/-- **Main.** In every run in which stale recovery removes nothing but the lock file whose record
    it read as stale, at most one acquisition and so at most one live process has the lock of a
    path at a time, in particular the writer lock of a launch ledger. -/
theorem instance_lock_exclusion {host : LockHost}
    (hs : system.ReachableWhile RemovesInspected host) :
    (∀ path n n', host.Holds n path → host.Holds n' path → n = n') ∧
    (∀ path pid pid', host.LiveHolder pid path → host.LiveHolder pid' path → pid = pid') ∧
    (∀ ledgerFile pid pid', host.LiveHolder pid (writerLock ledgerFile) →
      host.LiveHolder pid' (writerLock ledgerFile) → pid = pid') := by
  have hexclusive := exclusive_of_reachable hs
  have hpids : ∀ path pid pid', host.LiveHolder pid path → host.LiveHolder pid' path →
      pid = pid' := by
    rintro path pid pid' ⟨-, n, task, hn, rfl, hholds⟩ ⟨-, n', task', hn', rfl, hholds'⟩
    obtain rfl := hexclusive.holds_unique hholds hholds'
    rw [Option.some.inj (hn.symm.trans hn')]
  exact ⟨fun path n n' => hexclusive.holds_unique, hpids, fun ledgerFile => hpids _⟩

namespace LockHost

/-- A crashed process 7 left its lock file; processes 101 and 202 are alive. -/
def sampleStale : LockHost where
  alive := [101, 202]
  files := [⟨5000, true, true, some ⟨7, "first", 0⟩⟩]
  entries := .ofValues LockEntry.path [⟨"host.lock", 0⟩]
  tasks := []

theorem sampleStale_init : system.init sampleStale := by
  refine ⟨rfl, fun path file h => ?_⟩
  simp only [fileAt, Option.map_eq_some_iff] at h
  obtain ⟨entry, h, rfl⟩ := h
  have hmem := InsertionMap.mem_of_get? h
  simp only [sampleStale, InsertionMap.ofValues, InsertionMap.setAll, List.foldl_cons,
    List.foldl_nil, InsertionMap.mem_set] at hmem
  rcases hmem with rfl | hmem
  · decide
  · simp at hmem

/-- Process 101 recovers the stale lock while process 202 stands before the same `unlink`. -/
def sampleRecovery : List LockEvent :=
  [.acquire 101 "host.lock" "second" 1000, .acquire 202 "host.lock" "third" 1000,
    .proceed 0 0, .proceed 0 0, .proceed 0 0, .proceed 0 0,
    .proceed 1 0, .proceed 1 0, .proceed 1 0, .proceed 1 0,
    .proceed 0 0, .proceed 0 5001, .proceed 0 0, .proceed 0 0]

/-- Process 202 goes on: it removes the lock of process 101 and creates its own. -/
def sampleTakeover : List LockEvent := [.proceed 1 0, .proceed 1 5002, .proceed 1 0, .proceed 1 0]

/-- The state after the recovery by process 101. -/
def sampleRecovered : LockHost := (system.run sampleStale sampleRecovery).getD sampleStale

theorem sampleRecovered_reachable : system.ReachableWhile RemovesInspected sampleRecovered := by
  have hrun : (system.restrict RemovesInspected).run sampleStale sampleRecovery
      = some sampleRecovered := by rfl
  exact .ofRun (.init sampleStale_init) hrun

end LockHost

open LockHost in
/-- The sample: process 101 has recovered the stale lock, and no one else holds it. -/
theorem instance_lock_recovered : sampleRecovered.Holds 0 "host.lock" ∧
    ∀ n, sampleRecovered.Holds n "host.lock" → n = 0 := by
  have hholds : sampleRecovered.Holds 0 "host.lock" := by decide +kernel
  exact ⟨hholds, fun n hn =>
    (instance_lock_exclusion sampleRecovered_reachable).1 "host.lock" n 0 hn hholds⟩

open LockHost in
/-- Two live processes hold one lock: the slow contender removed a lock that another had just
    created. -/
theorem instance_lock_shared : ∃ host, system.Reachable host ∧
    host.LiveHolder 101 "host.lock" ∧ host.LiveHolder 202 "host.lock" := by
  have hrun : system.run sampleStale (sampleRecovery ++ sampleTakeover) = some
      ((system.run sampleStale (sampleRecovery ++ sampleTakeover)).getD sampleStale) := rfl
  refine ⟨_, .ofRun (.ofInit sampleStale_init) hrun,
    ⟨by decide +kernel, 0, _, rfl, rfl, by decide +kernel⟩,
    ⟨by decide +kernel, 1, _, rfl, rfl, by decide +kernel⟩⟩

end AgentHost
