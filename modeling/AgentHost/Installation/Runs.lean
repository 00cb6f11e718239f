import AgentHost.Installation.Atomicity

/-!
# Runs of the installer

Any sequence of installs and rollbacks, each with failures at any of its file operations or stopped at
any of them. The lock lets them run one after the other.

* `Operation.next` — what an operation is for, as a function of the state file.
* `Settled` — a layout without a transaction whose parts agree.
* `operation_atomic` — one operation makes its step or none.
* `installations_atomic` — **Main**: after any sequence, the state file is what some of the operations
  make of the first one, in their order, and the next recovery that completes makes all agree.
-/

namespace AgentHost.Installation

section

variable {old s s' : Layout} {next : Option InstallState} {version : Version}

/-! ### The operations inside the lock -/

/-- The callback is run between the lock's operations. -/
theorem keeps_withInstallLock {α : Type} {callback : Procedure α} {returns : α → Layout → Prop}
    (h : Between old next s)
    (hcallback : Keeps (Between old next) callback returns (fun _ _ => True) s) :
    Keeps (Between old next) (withInstallLock callback) returns (fun _ _ => True) s := by
  refine (keeps_same (v := ()) rfl h).andThen (fun _ s₁ hs₁ => ?_) fun _ _ _ => trivial
  obtain rfl := hs₁
  refine (keeps_same (v := ()) rfl h).andThen (fun _ s₁ hs₁ => ?_) fun _ _ _ => trivial
  obtain rfl := hs₁
  have hattempt : Keeps (Between old next) callback.attempt
      (fun result s' => Between old next s' ∧ ∀ value, result = .ok value → returns value s')
      (fun _ _ => True) s₁ := by
    refine Contract.ensures_attempt.mpr ((hcallback.withInvariant h).mono (fun value s' hs' => ?_)
      fun failure s' hs' => ?_)
    · refine ⟨hs'.1, fun value' heq => ?_⟩
      obtain rfl := Except.ok.inj heq
      exact hs'.2
    · refine ⟨hs'.1, fun value' heq => ?_⟩
      cases heq
  refine hattempt.andThen (fun result s₂ hs₂ => ?_) fun _ _ _ => trivial
  obtain ⟨h', hreturns⟩ := hs₂
  refine (keeps_same (v := ()) rfl h').andThen (fun _ s₃ hs₃ => ?_) fun _ _ _ => trivial
  obtain rfl := hs₃
  cases result with
  | ok value => exact hreturns value rfl
  | error failure => exact trivial

theorem eq_of_effect_validateStaging {v : Unit}
    (h : Action.effect s (.validateStaging version) = .ok (s', v)) : s' = s := by
  have heffect : Action.effect s (.validateStaging version) =
      if version ∈ s.staging then .ok (s, ()) else .error .enoent := rfl
  rw [heffect] at h
  split at h
  · exact (Prod.mk.inj (Except.ok.inj h)).1.symm
  · cases h

/-- The staged release takes its place. -/
theorem keeps_renameStaging (h : Between old next s) :
    Keeps (Between old next) (fileOp (.renameStaging version))
      (fun _ s' => Between old next s' ∧ s'.state = s.state ∧ s'.transaction = s.transaction)
      (fun _ _ => True) s := by
  have heffect : Action.effect s (.renameStaging version) =
      if version ∈ s.staging ∧ version ∉ s.releases then
        .ok ({ s with
          staging := s.staging.erase version, releases := version :: s.releases }, ())
      else .error .other := rfl
  refine keeps_fileOp (fun s' v hok => ?_) fun _ _ => trivial
  rw [heffect] at hok
  split at hok
  · obtain ⟨rfl, -⟩ := Prod.mk.inj (Except.ok.inj hok)
    have hadded := h.addRelease (s.staging.erase version) version
    exact ⟨hadded, ⟨hadded, rfl, rfl⟩, fun _ _ => trivial⟩
  · cases hok

/-- A release that is not there is staged, and the layout is otherwise as it was. -/
theorem keeps_stageRelease (h : Between old next s) :
    Keeps (Between old next) (stageRelease version)
      (fun _ s' => s'.state = s.state ∧ s'.transaction = s.transaction) (fun _ _ => True) s := by
  have hstat : Keeps (Between old next) (optional (fileOp (.statRelease version)))
      (fun _ s' => s' = s) (fun _ _ => True) s := by
    refine keeps_optional ((keeps_still (fun s' v heffect => ?_) h).mono (fun _ _ => id)
      fun _ _ => id) (fun _ => id) |>.mono (fun _ _ => id) fun _ _ _ => trivial
    have hite : Action.effect s (.statRelease version) =
        if version ∈ s.releases then .ok (s, ()) else .error .enoent := rfl
    rw [hite] at heffect
    split at heffect
    · exact (Prod.mk.inj (Except.ok.inj heffect)).1.symm
    · cases heffect
  refine hstat.andThen (fun found s₁ hs₁ => ?_) fun _ _ _ => trivial
  obtain rfl := hs₁
  cases found with
  | some _ => exact ⟨rfl, rfl⟩
  | none =>
    have hbody : Keeps (Between old next)
        ((fileOp (.copyStaging version)).bind fun _ =>
          (fileOp (.validateStaging version)).bind fun _ =>
          (fileOp (.renameStaging version)).bind fun _ => fileOp .syncDirectory)
        (fun _ s' => s'.state = s₁.state ∧ s'.transaction = s₁.transaction) (fun _ _ => True) s₁ := by
      have hcopied : Between old next { s₁ with staging := version :: s₁.staging } :=
        h.of_same ⟨rfl, rfl, rfl⟩ rfl
      refine (keeps_effect (v := ()) rfl hcopied).andThen (fun _ s₂ hs₂ => ?_) fun _ _ _ => trivial
      obtain ⟨_, rfl⟩ := hs₂
      refine (keeps_still (fun s' v heffect => ?_) hcopied).andThen (fun _ s₃ hs₃ => ?_)
        fun _ _ _ => trivial
      · exact eq_of_effect_validateStaging heffect
      obtain rfl := hs₃
      refine (keeps_renameStaging hcopied).andThen (fun _ s₄ hs₄ => ?_) fun _ _ _ => trivial
      obtain ⟨h₄, hstate, htransaction⟩ := hs₄
      refine (keeps_same (v := ()) rfl h₄).mono (fun _ s₅ hs₅ => ?_) fun _ _ _ => trivial
      obtain rfl := hs₅
      exact ⟨hstate, htransaction⟩
    refine Contract.Ensures.orElse (hbody.withInvariant h) (fun _ _ hs => hs.2) fun failure s' hs' => ?_
    have hremoved : Between old next { s' with staging := s'.staging.erase version } :=
      hs'.1.of_same ⟨rfl, rfl, rfl⟩ rfl
    refine Contract.Ensures.andThen (keeps_effect (v := ()) rfl hremoved) (fun _ _ _ => ?_)
      fun _ _ _ => trivial
    exact trivial

end

/-! ### Operations -/

/-- The operations of the installer. -/
inductive Operation
  | install (version : Version)
  | rollback
  deriving DecidableEq

namespace Operation

def procedure (paths : Paths) : Operation → Procedure InstallState
  | .install version => installRelease paths version
  | .rollback => rollbackRelease paths

/-- What an operation is for: the state file after it, from the one before. -/
def next : Operation → Option InstallState → Option InstallState
  | .install version, state => some (installed version state)
  | .rollback, some ⟨current, some previous⟩ => some ⟨previous, some current⟩
  | .rollback, state => state

end Operation

variable {paths : Paths} {s : Layout} {version : Version} {operation : Operation}

/-- An install ends as it is for, or leaves what its invariant says. -/
theorem keeps_installRelease (h : Between s (some (installed version s.state)) s) :
    Keeps (Between s (some (installed version s.state))) (installRelease paths version)
      (fun result s' => result = installed version s.state ∧ s'.state = some result ∧
        s'.current = some (.link result.current) ∧
        s'.launcher = some (.file (launcherScript paths)) ∧ s'.transaction = none)
      (fun _ _ => True) s := by
  refine (keeps_same (v := ()) rfl h).andThen (fun _ s₁ hs₁ => ?_) fun _ _ _ => trivial
  rw [hs₁]
  refine keeps_withInstallLock h ?_
  refine ((keeps_recoverTransaction h).withInvariant h).andThen (fun _ s₂ hs₂ => ?_)
    fun _ _ _ => trivial
  obtain ⟨h₂, hstate₂, -, hnone₂⟩ := hs₂
  refine (keeps_same (v := ()) rfl h₂).andThen (fun _ s₃ hs₃ => ?_) fun _ _ _ => trivial
  rw [hs₃]
  refine (keeps_readState h₂).andThen (fun previousState s₄ hs₄ => ?_) fun _ _ _ => trivial
  obtain ⟨rfl, rfl⟩ := hs₄
  rw [hstate₂]
  have hpointer : Keeps (Between s (some (installed version s.state)))
      (if s.state.isNone then
        tolerate [.enoent] ((fileOp .statCurrent).bind fun _ => throwMessage
          "install pointer exists without managed install state; refusing to replace it" [])
        else .done ()) (fun _ s' => s' = s₄) (fun _ _ => True) s₄ := by
    split
    · refine (keeps_tolerate (T := fun _ s' => s' = s₄) ?_ fun _ _ _ => id).mono
        (fun _ _ => id) fun _ _ _ => trivial
      refine (keeps_still (fun _ _ heffect => ?_) h₂).andThen (fun _ _ hs => hs) fun _ _ => id
      exact (eq_of_present ((effect_statCurrent s₄).symm.trans heffect)).1
    · exact rfl
  refine hpointer.andThen (fun _ s₅ hs₅ => ?_) fun _ _ _ => trivial
  rw [hs₅]
  refine (keeps_same (v := ()) rfl h₂).andThen (fun _ s₆ hs₆ => ?_) fun _ _ _ => trivial
  rw [hs₆]
  refine (keeps_same (v := ()) rfl h₂).andThen (fun _ s₇ hs₇ => ?_) fun _ _ _ => trivial
  rw [hs₇]
  refine ((keeps_stageRelease h₂).withInvariant h₂).andThen (fun _ s₈ hs₈ => ?_)
    fun _ _ _ => trivial
  obtain ⟨h₈, hstate₈, -⟩ := hs₈
  refine (keeps_validateRelease h₈ version).andThen (fun _ s₉ hs₉ => ?_) fun _ _ _ => trivial
  obtain ⟨rfl, hrelease⟩ := hs₉
  refine (keeps_activate h₈ (hstate₈.trans hstate₂) hrelease).andThen (fun _ s' hs' => ?_)
    fun _ _ _ => trivial
  exact ⟨rfl, hs'⟩

theorem keeps_rollbackRelease (h : Between s (Operation.rollback.next s.state) s) :
    Keeps (Between s (Operation.rollback.next s.state)) (rollbackRelease paths)
      (fun result s' => Operation.rollback.next s.state = some result ∧ s'.state = some result ∧
        s'.current = some (.link result.current) ∧
        s'.launcher = some (.file (launcherScript paths)) ∧ s'.transaction = none)
      (fun _ _ => True) s := by
  refine keeps_withInstallLock h ?_
  refine ((keeps_recoverTransaction h).withInvariant h).andThen (fun _ s₂ hs₂ => ?_)
    fun _ _ _ => trivial
  obtain ⟨h₂, hstate₂, -, hnone₂⟩ := hs₂
  refine (keeps_same (v := ()) rfl h₂).andThen (fun _ s₃ hs₃ => ?_) fun _ _ _ => trivial
  rw [hs₃]
  refine (keeps_readState h₂).andThen (fun state s₄ hs₄ => ?_) fun _ _ _ => trivial
  obtain ⟨rfl, rfl⟩ := hs₄
  rw [hstate₂]
  cases hstate : s.state with
  | none => exact trivial
  | some state =>
    obtain ⟨current, previous⟩ := state
    cases previous with
    | none => exact trivial
    | some previous =>
      have hnext : Operation.rollback.next (some ⟨current, some previous⟩) =
        some ⟨previous, some current⟩ := rfl
      rw [hstate, hnext] at h₂
      rw [hnext]
      refine (keeps_validateRelease h₂ previous).andThen (fun _ s₅ hs₅ => ?_) fun _ _ _ => trivial
      obtain ⟨rfl, hrelease⟩ := hs₅
      rw [← hstate]
      refine (keeps_activate h₂ hstate₂ hrelease).andThen (fun _ s' hs' => ?_) fun _ _ _ => trivial
      exact ⟨rfl, hs'⟩

/-- An operation ends as it is for, or leaves what its invariant says. -/
theorem keeps_operation (paths : Paths) (h : Between s (operation.next s.state) s) :
    Keeps (Between s (operation.next s.state)) (operation.procedure paths)
      (fun result s' => operation.next s.state = some result ∧ s'.state = some result ∧
        s'.current = some (.link result.current) ∧
        s'.launcher = some (.file (launcherScript paths)) ∧ s'.transaction = none)
      (fun _ _ => True) s := by
  cases operation with
  | install version =>
    refine (keeps_installRelease h).mono (fun result s' hs' => ?_) fun _ _ => id
    obtain ⟨rfl, hrest⟩ := hs'
    exact ⟨rfl, hrest⟩
  | rollback => exact keeps_rollbackRelease h

/-! ### Runs -/

/-- A layout without a transaction: the pointer and the state file agree, and lead to a release. -/
structure Settled (layout : Layout) : Prop where
  transaction : layout.transaction = none
  agrees : layout.Agrees
  installed : ∀ version, layout.version = some version → version ∈ layout.releases

theorem Settled.consistent (h : Settled s) : Consistent s.releases s where
  kept := fun _ => id
  resolves := fun pointer hpointer => by
    have hagrees := h.agrees
    rw [Layout.Agrees, hpointer] at hagrees
    obtain ⟨version, hversion, rfl⟩ := Option.map_eq_some_iff.mp hagrees.symm
    exact ⟨version, h.installed version hversion, rfl⟩
  installed := h.installed
  settled := fun _ => h.agrees
  pending := fun transaction hsome => by
    rw [h.transaction] at hsome
    cases hsome

/-- Where recovery ends, the layout is settled. -/
theorem Consistent.settled_of_none {kept : List Version} (h : Consistent kept s)
    (hnone : s.transaction = none) : Settled s :=
  ⟨hnone, h.settled hnone, h.installed⟩

theorem Consistent.refl {kept : List Version} (h : Consistent kept s) : Consistent s.releases s :=
  { h with kept := fun _ => id }

theorem Consistent.trans {kept : List Version} (h : Consistent kept s) {s' : Layout}
    (h' : Consistent s.releases s') : Consistent kept s' :=
  { h' with kept := fun version hmem => h'.kept version (h.kept version hmem) }

/-- **One operation.** From a consistent layout, wherever the operation is stopped and whatever fails:
    the layout is consistent, and the state file is as before or as the operation is for. Where it
    returns, it is the latter, and the pointer and the launcher are those of the new version. -/
theorem operation_atomic {kept : List Version} (h : Consistent kept s) (paths : Paths)
    (operation : Operation) (faults : List Fault) :
    Consistent s.releases ((operation.procedure paths).run perform faults s).1 ∧
      (((operation.procedure paths).run perform faults s).1.state = s.state ∨
        ((operation.procedure paths).run perform faults s).1.state = operation.next s.state) ∧
      ∀ result, ((operation.procedure paths).run perform faults s).2 = .returned result →
        operation.next s.state = some result ∧
          Settled ((operation.procedure paths).run perform faults s).1 ∧
          ((operation.procedure paths).run perform faults s).1.state = some result ∧
          ((operation.procedure paths).run perform faults s).1.launcher =
            some (.file (launcherScript paths)) := by
  have hbetween : Between s (operation.next s.state) s := ⟨h.refl, .inl rfl⟩
  obtain ⟨hafter, hmeets⟩ := (keeps_operation paths hbetween).run hbetween faults
  refine ⟨hafter.consistent, hafter.state, fun result hresult => ?_⟩
  rw [hresult] at hmeets
  obtain ⟨hnext, hstate, -, hlauncher, hnone⟩ := hmeets
  exact ⟨hnext, hafter.consistent.settled_of_none hnone, hstate, hlauncher⟩

/-- **Recovery.** From a consistent layout, the state file stays as it is; where recovery returns, the
    layout is settled. -/
theorem recovery_settles {kept : List Version} (h : Consistent kept s) (paths : Paths)
    (faults : List Fault) :
    Consistent s.releases ((recoverTransaction paths).run perform faults s).1 ∧
      ((recoverTransaction paths).run perform faults s).1.state = s.state ∧
      (((recoverTransaction paths).run perform faults s).2 = .returned () →
        Settled ((recoverTransaction paths).run perform faults s).1) := by
  have hbetween : Between s s.state s := ⟨h.refl, .inl rfl⟩
  have hkeeps : Keeps _ (recoverTransaction paths) _ _ s := keeps_recoverTransaction hbetween
  obtain ⟨hafter, hmeets⟩ := hkeeps.run hbetween faults
  refine ⟨hafter.consistent, hafter.state.elim id id, fun hreturned => ?_⟩
  rw [hreturned] at hmeets
  exact hafter.consistent.settled_of_none hmeets.2.2

/-- The layout after operations, each with what it meets with until it ends or is stopped. -/
def runOperations (paths : Paths) : List (Operation × List Fault) → Layout → Layout
  | [], s => s
  | (operation, faults) :: operations, s =>
    runOperations paths operations ((operation.procedure paths).run perform faults s).1

/-- The operations among them that returned. -/
def returnedOperations (paths : Paths) : List (Operation × List Fault) → Layout → List Operation
  | [], _ => []
  | (operation, faults) :: operations, s =>
    let after := (operation.procedure paths).run perform faults s
    if after.2.hasReturned then operation :: returnedOperations paths operations after.1
    else returnedOperations paths operations after.1

/-- After any operations, the state file is what some of them make of the first one, in their order;
    those that returned are among these. -/
theorem runOperations_state {kept : List Version} (h : Consistent kept s) (paths : Paths)
    (operations : List (Operation × List Fault)) :
    Consistent kept (runOperations paths operations s) ∧
      ∃ made : List Operation, made.Sublist (operations.map Prod.fst) ∧
        (returnedOperations paths operations s).Sublist made ∧
        (runOperations paths operations s).state =
          made.foldl (fun state operation => operation.next state) s.state := by
  induction operations generalizing s kept with
  | nil => exact ⟨h, [], List.Sublist.refl _, List.Sublist.refl _, rfl⟩
  | cons head operations ih =>
    obtain ⟨operation, faults⟩ := head
    obtain ⟨hconsistent, hstate, hreturned⟩ := operation_atomic h paths operation faults
    obtain ⟨hafter, made, hsublist, hamong, hmade⟩ := ih (h.trans hconsistent)
    refine ⟨hafter, ?_⟩
    -- an operation that made its step comes before those that the rest made
    have hstep (hnext : ((operation.procedure paths).run perform faults s).1.state =
        operation.next s.state) (hcons : (returnedOperations paths ((operation, faults) :: operations)
          s).Sublist (operation :: made)) :
        ∃ made : List Operation, made.Sublist (((operation, faults) :: operations).map Prod.fst) ∧
          (returnedOperations paths ((operation, faults) :: operations) s).Sublist made ∧
          (runOperations paths ((operation, faults) :: operations) s).state =
            made.foldl (fun state operation => operation.next state) s.state := by
      refine ⟨operation :: made, hsublist.cons_cons _, hcons, ?_⟩
      rw [List.foldl_cons, ← hnext]
      exact hmade
    cases houtcome : ((operation.procedure paths).run perform faults s).2 with
    | returned result =>
      obtain ⟨hnext, -, hresult, -⟩ := hreturned result houtcome
      refine hstep (hresult.trans hnext.symm) ?_
      simp only [returnedOperations, houtcome, Outcome.hasReturned, if_true]
      exact hamong.cons_cons _
    | stopped | threw error =>
      have hsame : returnedOperations paths ((operation, faults) :: operations) s =
          returnedOperations paths operations ((operation.procedure paths).run perform faults s).1 := by
        simp [returnedOperations, houtcome, Outcome.hasReturned]
      obtain hsame' | hnext := hstate
      · refine ⟨made, hsublist.cons _, hsame ▸ hamong, ?_⟩
        rw [← hsame']
        exact hmade
      · exact hstep hnext (hsame ▸ hamong.cons _)

/-- **Main.** From a settled layout, after any sequence of installs and rollbacks, each with failures
    at any of its file operations and stopped at any of them, and after any attempts to recover: every
    release is still there, the pointer leads to a release, and the state file is what some of the
    operations make of the first one, in their order, all that returned among them. Once a recovery returns, the pointer and the
    state file agree and no transaction is left. -/
theorem installations_atomic (h : Settled s) (paths : Paths)
    (operations : List (Operation × List Fault)) (faults : List Fault) :
    let after := ((recoverTransaction paths).run perform faults (runOperations paths operations s))
    (∀ version ∈ s.releases, version ∈ after.1.releases) ∧
      (∀ pointer, after.1.current = some pointer →
        ∃ version ∈ after.1.releases, pointer = .link version) ∧
      (∃ made : List Operation, made.Sublist (operations.map Prod.fst) ∧
        (returnedOperations paths operations s).Sublist made ∧
        after.1.state = made.foldl (fun state operation => operation.next state) s.state) ∧
      (after.2 = .returned () → Settled after.1) := by
  obtain ⟨hruns, made, hsublist, hamong, hmade⟩ := runOperations_state h.consistent paths operations
  obtain ⟨hrecovered, hstate, hsettles⟩ := recovery_settles hruns paths faults
  refine ⟨(hruns.trans hrecovered).kept, hrecovered.resolves, ⟨made, hsublist, hamong, ?_⟩, hsettles⟩
  rw [hstate, hmade]

/-! ### An interrupted update -/

theorem validVersion_first : validVersion "1.0.0".toList = true := by decide

theorem validVersion_second : validVersion "1.1.0-rc.1".toList = true := by decide

def firstVersion : Version := ⟨"1.0.0".toList, validVersion_first⟩

def secondVersion : Version := ⟨"1.1.0-rc.1".toList, validVersion_second⟩

def samplePaths : Paths :=
  ⟨"/home/me/.local/agent-host".toList, "/home/me/.local/bin".toList, "/usr/bin/node".toList⟩

/-- Nothing is installed, and nothing is left behind. -/
def emptyLayout : Layout := ⟨none, none, none, [], [], none⟩

theorem settled_emptyLayout : Settled emptyLayout where
  transaction := rfl
  agrees := rfl
  installed := fun _ h => by cases h

/-- An install that ends, and an update that is stopped where the pointer is already the new one. -/
def interruptedUpdate : List (Operation × List Fault) :=
  [(.install firstVersion, List.replicate 60 .none), (.install secondVersion, List.replicate 30 .none)]

/-- The recovery after an interrupted update ends in a settled layout. -/
theorem installations_atomic_interrupted :
    Settled ((recoverTransaction samplePaths).run perform (List.replicate 30 .none)
      (runOperations samplePaths interruptedUpdate emptyLayout)).1 :=
  (installations_atomic settled_emptyLayout samplePaths interruptedUpdate
    (List.replicate 30 .none)).2.2.2 (by decide +kernel)

end AgentHost.Installation
