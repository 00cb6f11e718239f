import AgentHost.Installation.LauncherScript
import AgentHost.Installation.Runs

/-!
# Installations complete

No interruption leaves the installer stuck: from whatever earlier operations left, an install that
meets with no failure completes, and so does a recovery.

* `calm` — what an operation does where nothing fails.
* `Ready` — the launcher is missing, or this installation's.
* `eval_recoverTransaction`, `eval_installRelease` — what the source functions do there.
* `install_completes` — **Main**.
-/

namespace AgentHost.Installation

/-- What an operation does where nothing fails. -/
def calm (action : Action) (s : Layout) : Layout × Answer action :=
  match action.effect s with
  | .ok (s', value) => (s', .ok value)
  | .error error => (s, .error error)

theorem perform_none (action : Action) (s : Layout) :
    perform action .none s = some (calm action s) := by
  unfold perform calm
  cases action.effect s with
  | ok after => rfl
  | error error => rfl

/-- The launcher is missing, or a file of this installation. -/
def Ready (paths : Paths) (s : Layout) : Prop :=
  ∀ launcher, s.launcher = some launcher →
    ∃ contents, launcher = .file contents ∧ manages paths contents = true

variable {paths : Paths} {s s₁ : Layout} {action : Action} {version : Version}

theorem Ready.cases (h : Ready paths s) : s.launcher = none ∨
    ∃ contents, s.launcher = some (.file contents) ∧ manages paths contents = true := by
  cases hlauncher : s.launcher with
  | none => exact .inl rfl
  | some launcher =>
    obtain ⟨contents, rfl, hmanages⟩ := h launcher hlauncher
    exact .inr ⟨contents, rfl, hmanages⟩

/-! ### Single operations -/

theorem eval_fileOp {v : Value action} (h : action.effect s = .ok (s₁, v)) :
    (fileOp action).eval calm s = (s₁, .ok v) := by
  have hcalm : calm action s = (s₁, .ok v) := by rw [calm, h]
  rw [fileOp, Routine.eval, hcalm]
  rfl

theorem eval_fileOp_error {error : IoError} (h : action.effect s = .error error) :
    (fileOp action).eval calm s = (s, .error (.io error)) := by
  have hcalm : calm action s = (s, .error error) := by rw [calm, h]
  rw [fileOp, Routine.eval, hcalm]
  rfl

/-- One operation, and then what follows. -/
theorem eval_fileOp_bind {α : Type} {v : Value action} (h : action.effect s = .ok (s₁, v))
    (f : Value action → Procedure α) :
    ((fileOp action).bind f).eval calm s = (f v).eval calm s₁ :=
  Routine.eval_bind (eval_fileOp h) f

theorem eval_tolerate {procedure : Procedure Unit} {codes : List IoError}
    (h : procedure.eval calm s = (s₁, .ok ())) :
    (tolerate codes procedure).eval calm s = (s₁, .ok ()) :=
  Routine.eval_tryCatch h _

/-- What is tolerated. -/
theorem eval_tolerate_error {procedure : Procedure Unit} {codes : List IoError} {code : IoError}
    (hmem : code ∈ codes) (h : procedure.eval calm s = (s₁, .error (.io code))) :
    (tolerate codes procedure).eval calm s = (s₁, .ok ()) := by
  rw [tolerate, Routine.eval_tryCatch_error h, if_pos]
  · rfl
  · exact List.any_eq_true.mpr ⟨code, hmem, decide_eq_true rfl⟩

/-- A file is removed, or was not there. -/
theorem eval_unlink {procedure : Procedure Unit} {codes : List IoError}
    (hmem : IoError.enoent ∈ codes)
    (hok : ∀ v, action.effect s = .ok (s₁, v) → procedure.eval calm s = (s₁, .ok ()))
    (herror : action.effect s = .error .enoent → procedure.eval calm s = (s, .error (.io .enoent)))
    (heffect : (∃ v, action.effect s = .ok (s₁, v)) ∨
      action.effect s = .error .enoent ∧ s₁ = s) :
    (tolerate codes procedure).eval calm s = (s₁, .ok ()) := by
  obtain ⟨v, heffect⟩ | ⟨heffect, rfl⟩ := heffect
  · exact eval_tolerate (hok v heffect)
  · exact eval_tolerate_error hmem (herror heffect)

theorem eval_syncDirectory (s : Layout) : (fileOp .syncDirectory).eval calm s = (s, .ok ()) := rfl

/-- What is read of a file, or nothing. -/
theorem eval_read {file : Option (Value action)} (h : action.effect s = present s file) :
    (optional (fileOp action)).eval calm s = (s, .ok file) := by
  cases file with
  | none =>
    rw [optional, Routine.eval_tryCatch_error (Routine.eval_bind_error (eval_fileOp_error h) _)]
    rfl
  | some value => exact Routine.eval_tryCatch (Routine.eval_bind (eval_fileOp h) _) _

/-- A file is replaced. -/
theorem eval_writeFileAtomic {v : Value action} {afterRename : Bool}
    (h : action.effect s = .ok (s₁, v)) :
    (writeFileAtomic action afterRename).eval calm s = (s₁, .ok ()) := by
  refine Routine.eval_tryCatch ?_ _
  rw [eval_fileOp_bind (v := ()) rfl, eval_fileOp_bind (v := ()) rfl, eval_fileOp_bind h]
  have hhook : ((if afterRename then fileOp .hook else .done ()) : Procedure Unit).eval calm s₁ =
      (s₁, .ok ()) := by
    split
    · rfl
    · rfl
  rw [Routine.eval_bind hhook]
  exact eval_syncDirectory s₁

/-! ### The source functions -/

theorem eval_switchCurrent (h : ∀ pointer, s.current = some pointer → ∃ v, pointer = .link v) :
    (switchCurrent paths version).eval calm s =
      ({ s with current := some (.link version) }, .ok ()) := by
  have hcheck : (checkPointer paths).eval calm s = (s, .ok ()) := by
    cases hcurrent : s.current with
    | none =>
      have heffect : Action.effect s .statCurrent = .error .enoent := by
        rw [effect_statCurrent, hcurrent]; rfl
      refine eval_tolerate_error (List.mem_singleton_self IoError.enoent) ?_
      exact Routine.eval_bind_error (eval_fileOp_error heffect) _
    | some pointer =>
      obtain ⟨v, rfl⟩ := h pointer hcurrent
      have heffect : Action.effect s .statCurrent = .ok (s, true) := by
        rw [effect_statCurrent, hcurrent]; rfl
      refine eval_tolerate ?_
      rw [eval_fileOp_bind heffect]
      rfl
  have hdirectory : s.current ≠ some .directory := by
    intro hdirectory
    obtain ⟨_, hlink⟩ := h _ hdirectory
    cases hlink
  rw [switchCurrent, Routine.eval_bind hcheck, eval_fileOp_bind (v := ()) rfl,
    eval_fileOp_bind (v := ()) rfl, eval_fileOp_bind (effect_renameCurrent hdirectory)]
  exact eval_syncDirectory _

theorem eval_writeLauncher (h : Ready paths s) :
    (writeLauncher paths).eval calm s =
      ({ s with launcher := some (.file (launcherScript paths)) }, .ok ()) := by
  have hcheck : (checkLauncher paths).eval calm s = (s, .ok ()) := by
    obtain hlauncher | ⟨contents, hlauncher, hmanages⟩ := h.cases
    · have heffect : Action.effect s .statLauncher = .error .enoent := by
        rw [effect_statLauncher, hlauncher]; rfl
      refine eval_tolerate_error (List.mem_singleton_self IoError.enoent) ?_
      exact Routine.eval_bind_error (eval_fileOp_error heffect) _
    · have hstat : Action.effect s .statLauncher = .ok (s, true) := by
        rw [effect_statLauncher, hlauncher]; rfl
      refine eval_tolerate ?_
      rw [eval_fileOp_bind hstat, if_pos rfl, eval_fileOp_bind (effect_readLauncher_file hlauncher),
        if_pos hmanages]
      rfl
  have hdirectory : s.launcher ≠ some .directory := by
    intro hdirectory
    obtain ⟨_, hfile, _⟩ := h _ hdirectory
    cases hfile
  have hprepared : (fileOp .prepareBinDirectory).eval calm s = (s, .ok ()) := rfl
  rw [writeLauncher, Routine.eval_bind hprepared, Routine.eval_bind hcheck]
  exact eval_writeFileAtomic (effect_renameLauncher hdirectory)

theorem eval_clearTransaction (s : Layout) :
    clearTransaction.eval calm s = ({ s with transaction := none }, .ok ()) := by
  refine eval_unlink (List.mem_singleton_self _) (fun v h => ?_) (fun h => ?_)
    (effect_unlinkTransaction s)
  · rw [eval_fileOp_bind h]
    exact eval_syncDirectory _
  · exact Routine.eval_bind_error (eval_fileOp_error h) _

theorem eval_removeLauncher {codes : List IoError} (hmem : IoError.enoent ∈ codes)
    (h : Ready paths s) :
    (removeLauncher paths codes).eval calm s = ({ s with launcher := none }, .ok ()) := by
  obtain hlauncher | ⟨contents, hlauncher, hmanages⟩ := h.cases
  · rw [← hlauncher]
    exact eval_tolerate_error hmem
      (Routine.eval_bind_error (eval_fileOp_error (effect_readLauncher_none hlauncher)) _)
  · refine eval_tolerate ?_
    rw [eval_fileOp_bind (effect_readLauncher_file hlauncher), if_pos hmanages]
    exact eval_fileOp (effect_unlinkLauncher_file hlauncher)

theorem eval_removeCurrentAndLauncher (hcurrent : s.current ≠ some .directory)
    (h : Ready paths s) :
    (removeCurrentAndLauncher paths).eval calm s =
      ({ s with current := none, launcher := none }, .ok ()) := by
  have hunlink : (tolerate [.enoent, .enotdir] (fileOp .unlinkCurrent)).eval calm s =
      ({ s with current := none }, .ok ()) :=
    eval_unlink List.mem_cons_self (fun v h => eval_fileOp h) (fun h => eval_fileOp_error h)
      (effect_unlinkCurrent hcurrent)
  have hready : Ready paths { s with current := none } := h
  rw [removeCurrentAndLauncher, Routine.eval_bind hunlink]
  exact eval_removeLauncher List.mem_cons_self hready

theorem eval_recoverTo (hmem : version ∈ s.releases)
    (hcurrent : ∀ pointer, s.current = some pointer → ∃ v, pointer = .link v) (h : Ready paths s) :
    (recoverTo paths version).eval calm s =
      ({ s with current := some (.link version), launcher := some (.file (launcherScript paths)) },
        .ok ()) := by
  have heffect : Action.effect s (.validateRelease version) = .ok (s, ()) := if_pos hmem
  have hvalid : (validateRecoveryTarget version).eval calm s = (s, .ok ()) :=
    Routine.eval_tryCatch (eval_fileOp heffect) _
  have hready : Ready paths { s with current := some (.link version) } := h
  rw [recoverTo, Routine.eval_bind hvalid, Routine.eval_bind (eval_switchCurrent hcurrent)]
  exact eval_writeLauncher hready

theorem ready_script (h : '\'' ∉ paths.cli) (hlauncher :
    s.launcher = some (.file (launcherScript paths))) : Ready paths s := by
  intro launcher hsome
  rw [hlauncher] at hsome
  exact ⟨_, (Option.some.inj hsome).symm, manages_launcherScript h⟩

/-- Recovery that meets with no failure completes. -/
theorem eval_recoverTransaction {kept : List Version} (hcli : '\'' ∉ paths.cli)
    (h : Consistent kept s) (hready : Ready paths s) :
    ∃ s', (recoverTransaction paths).eval calm s = (s', .ok ()) ∧ s'.state = s.state ∧
      Ready paths s' := by
  have hread : (optional (fileOp .readTransaction)).eval calm s = (s, .ok s.transaction) :=
    eval_read rfl
  have hstate : readState.eval calm s = (s, .ok s.state) := eval_read rfl
  have hcurrent : ∀ pointer, s.current = some pointer → ∃ v, pointer = .link v := by
    intro pointer hpointer
    obtain ⟨v, _, hlink⟩ := h.resolves pointer hpointer
    exact ⟨v, hlink⟩
  rw [recoverTransaction, Routine.eval_bind hread]
  cases htransaction : s.transaction with
  | none => exact ⟨s, rfl, rfl, hready⟩
  | some transaction =>
    obtain ⟨htarget, hsource, -⟩ := h.pending transaction htransaction
    have hpointer : ∃ current launcher,
        Ready paths { s with current := current, launcher := launcher } ∧
        (if s.state.map InstallState.current = some transaction.target then
            recoverTo paths transaction.target
          else transaction.source.elim (removeCurrentAndLauncher paths)
            (recoverTo paths)).eval calm s =
          ({ s with current := current, launcher := launcher }, .ok ()) := by
      split
      · exact ⟨_, _, ready_script hcli rfl, eval_recoverTo htarget hcurrent hready⟩
      · cases hversion : transaction.source with
        | none =>
          refine ⟨_, _, ?_, eval_removeCurrentAndLauncher (fun hdirectory => ?_) hready⟩
          · intro launcher hsome
            cases hsome
          · obtain ⟨v, hlink⟩ := hcurrent _ hdirectory
            cases hlink
        | some version =>
          exact ⟨_, _, ready_script hcli rfl,
            eval_recoverTo (hsource version hversion) hcurrent hready⟩
    obtain ⟨current, launcher, hready', hpointer⟩ := hpointer
    refine ⟨{ s with current := current, launcher := launcher, transaction := none }, ?_, rfl, hready'⟩
    simp only
    rw [Routine.eval_bind hstate, Routine.eval_bind hpointer]
    exact eval_clearTransaction _

theorem eval_stageRelease (version : Version) (s : Layout) :
    (stageRelease version).eval calm s =
      ({ s with
        releases := if version ∈ s.releases then s.releases else version :: s.releases }, .ok ()) := by
  split
  · next hmem =>
    have heffect : Action.effect s (.statRelease version) = .ok (s, ()) := if_pos hmem
    have hstat : (optional (fileOp (.statRelease version))).eval calm s = (s, .ok (some ())) :=
      Routine.eval_tryCatch (Routine.eval_bind (eval_fileOp heffect) _) _
    rw [stageRelease, Routine.eval_bind hstat]
    rfl
  · next hmem =>
    have heffect : Action.effect s (.statRelease version) = .error .enoent := if_neg hmem
    have hstat : (optional (fileOp (.statRelease version))).eval calm s = (s, .ok none) := by
      rw [optional, Routine.eval_tryCatch_error
        (Routine.eval_bind_error (eval_fileOp_error heffect) _)]
      rfl
    have hcopy : Action.effect s (.copyStaging version) =
        .ok ({ s with staging := version :: s.staging }, ()) := rfl
    have hvalid : Action.effect { s with staging := version :: s.staging }
        (.validateStaging version) = .ok ({ s with staging := version :: s.staging }, ()) :=
      if_pos List.mem_cons_self
    have hrename : Action.effect { s with staging := version :: s.staging }
        (.renameStaging version) = .ok ({ s with
          staging := (version :: s.staging).erase version, releases := version :: s.releases }, ()) :=
      if_pos ⟨List.mem_cons_self, hmem⟩
    rw [List.erase_cons_head] at hrename
    rw [stageRelease, Routine.eval_bind hstat]
    refine Routine.eval_tryCatch ?_ _
    rw [eval_fileOp_bind hcopy, eval_fileOp_bind hvalid, eval_fileOp_bind hrename]
    exact eval_syncDirectory _

theorem eval_activate {state : InstallState} {previousState : Option InstallState} {text : String}
    (hcurrent : ∀ pointer, s.current = some pointer → ∃ v, pointer = .link v) (h : Ready paths s) :
    (activate paths previousState state text).eval calm s =
      ({ s with
        current := some (.link state.current), launcher := some (.file (launcherScript paths)),
        state := some state, transaction := none }, .ok ()) := by
  have hbegun : (writeTransaction ⟨previousState.map InstallState.current, state.current⟩).eval calm s =
      ({ s with
        transaction := some ⟨previousState.map InstallState.current, state.current⟩ }, .ok ()) :=
    eval_writeFileAtomic (v := ()) rfl
  rw [activate, Routine.eval_bind hbegun]
  generalize htransaction : { s with
    transaction := some ⟨previousState.map InstallState.current, state.current⟩ } = s₁
  have hcurrent₁ : ∀ pointer, s₁.current = some pointer → ∃ v, pointer = .link v := by
    rw [← htransaction]
    exact hcurrent
  have hready₁ : Ready paths { s₁ with current := some (.link state.current) } := by
    rw [← htransaction]
    exact h
  have hbody : ((switchCurrent paths state.current).bind fun _ =>
      (writeLauncher paths).bind fun _ => writeState state true).eval calm s₁ =
      ({ s₁ with
        current := some (.link state.current), launcher := some (.file (launcherScript paths)),
        state := some state }, .ok ()) := by
    rw [Routine.eval_bind (eval_switchCurrent hcurrent₁),
      Routine.eval_bind (eval_writeLauncher hready₁)]
    exact eval_writeFileAtomic (v := ()) rfl
  have hhook : ∀ s, (fileOp .hook).eval calm s = (s, .ok ()) := fun _ => rfl
  rw [Routine.eval_bind (Routine.eval_tryCatch hbody _), Routine.eval_bind (hhook _),
    eval_clearTransaction, ← htransaction]

theorem eval_withInstallLock {α : Type} {callback : Procedure α} {value : α}
    (h : callback.eval calm s = (s₁, .ok value)) :
    (withInstallLock callback).eval calm s = (s₁, .ok value) := by
  have hprivate : (fileOp .assertPrivateDirectory).eval calm s = (s, .ok ()) := rfl
  have hlock : (fileOp .acquireInstallLock).eval calm s = (s, .ok ()) := rfl
  have hunlock : (fileOp .unlinkOwnedLock).eval calm s₁ = (s₁, .ok ()) := rfl
  rw [withInstallLock, Routine.eval_bind hprivate, Routine.eval_bind hlock,
    Routine.eval_bind (Routine.eval_attempt h), Routine.eval_bind hunlock]
  rfl

/-- An install that meets with no failure completes. -/
theorem eval_installRelease {kept : List Version} (hcli : '\'' ∉ paths.cli)
    (h : Consistent kept s) (hready : Ready paths s) (version : Version) :
    ∃ s', (installRelease paths version).eval calm s = (s', .ok (installed version s.state)) := by
  obtain ⟨s₁, hrecovered, hstate₁, hready₁⟩ := eval_recoverTransaction hcli h hready
  -- after the recovery the layout is settled
  have hsettled : Settled s₁ := by
    obtain ⟨n, hn⟩ := Routine.exists_run_eq_eval perform_none (recoverTransaction paths) s
    have hrun := hn n (Nat.le_refl n)
    rw [hrecovered] at hrun
    have hsettles := (recovery_settles h paths (List.replicate n .none)).2.2
    rw [hrun] at hsettles
    exact hsettles rfl
  have hstate : readState.eval calm s₁ = (s₁, .ok s.state) := by
    rw [← hstate₁]
    exact eval_read rfl
  have hpointer : (if s.state.isNone then
      tolerate [.enoent] ((fileOp .statCurrent).bind fun _ => throwMessage
        "install pointer exists without managed install state; refusing to replace it" [])
      else .done () : Procedure Unit).eval calm s₁ = (s₁, .ok ()) := by
    split
    · next hnone =>
      have hcurrent : s₁.current = none := by
        have hagrees := hsettled.agrees
        rwa [Layout.Agrees, Layout.version, hstate₁, Option.isNone_iff_eq_none.mp hnone] at hagrees
      have heffect : Action.effect s₁ .statCurrent = .error .enoent := by
        rw [effect_statCurrent, hcurrent]; rfl
      exact eval_tolerate_error (List.mem_singleton_self IoError.enoent)
        (Routine.eval_bind_error (eval_fileOp_error heffect) _)
    · rfl
  -- the layout once the release is staged
  obtain ⟨s₂, hs₂⟩ : ∃ s₂ : Layout, s₂ = { s₁ with
      releases := if version ∈ s₁.releases then s₁.releases else version :: s₁.releases } := ⟨_, rfl⟩
  have hstaged : (stageRelease version).eval calm s₁ = (s₂, .ok ()) := by
    rw [hs₂]
    exact eval_stageRelease version s₁
  have hvalid : Action.effect s₂ (.validateRelease version) = .ok (s₂, ()) := by
    refine if_pos ?_
    rw [hs₂]
    simp only
    split
    · assumption
    · exact List.mem_cons_self
  have hcurrent : ∀ pointer, s₂.current = some pointer → ∃ v, pointer = .link v := by
    intro pointer hpointer
    rw [hs₂] at hpointer
    obtain ⟨v, _, hlink⟩ := hsettled.consistent.resolves pointer hpointer
    exact ⟨v, hlink⟩
  have hready₂ : Ready paths s₂ := by
    rw [hs₂]
    exact hready₁
  have hprepare : ∀ s, (fileOp .prepareBinDirectory).eval calm s = (s, .ok ()) := fun _ => rfl
  have hreleases : ∀ s, (fileOp .makeReleases).eval calm s = (s, .ok ()) := fun _ => rfl
  have hprivate : ∀ s, (fileOp .assertPrivateDirectory).eval calm s = (s, .ok ()) := fun _ => rfl
  have hsource : (fileOp .validateSource).eval calm s = (s, .ok ()) := rfl
  rw [installRelease, Routine.eval_bind hsource]
  refine Exists.imp (fun s' hcallback => eval_withInstallLock hcallback) ?_
  rw [Routine.eval_bind hrecovered, Routine.eval_bind (hprepare _), Routine.eval_bind hstate,
    Routine.eval_bind hpointer, Routine.eval_bind (hreleases _), Routine.eval_bind (hprivate _),
    Routine.eval_bind hstaged, eval_fileOp_bind hvalid,
    Routine.eval_bind (eval_activate hcurrent hready₂)]
  exact ⟨_, rfl⟩

/-! ### The launcher stays this installation's -/

/-- What an operation may write at the launcher's path. -/
def WritesLauncher (paths : Paths) (action : Action) : Prop :=
  ∀ script, action = .renameLauncher script → script = launcherScript paths

theorem launcher_of_effect {v : Value action} (h : action.effect s = .ok (s₁, v)) :
    s₁.launcher = s.launcher ∨ s₁.launcher = none ∨
      ∃ script, action = .renameLauncher script ∧ s₁.launcher = some (.file script) := by
  cases action
  case renameLauncher script =>
    have heffect : Action.effect s (.renameLauncher script) =
        if s.launcher = some .directory then .error .eisdir
        else .ok ({ s with launcher := some (.file script) }, ()) := rfl
    rw [heffect] at h
    split at h
    · cases h
    · obtain ⟨rfl, -⟩ := Prod.mk.inj (Except.ok.inj h)
      exact .inr (.inr ⟨script, rfl, rfl⟩)
  case unlinkLauncher =>
    rw [eq_of_effect_unlinkLauncher h]
    exact .inr (.inl rfl)
  case readTransaction | readState | statCurrent | statLauncher =>
    exact .inl (congrArg Layout.launcher (eq_of_present h).1)
  case readLauncher => exact .inl (congrArg Layout.launcher (eq_of_effect_readLauncher h).1)
  -- what else there is does not touch the launcher
  all_goals
    left
    simp only [Action.effect, unlinked] at h
    repeat' split at h
    all_goals cases h <;> rfl

theorem Ready.perform {fault : Fault} {answer : Answer action} (hcli : '\'' ∉ paths.cli)
    (haction : WritesLauncher paths action) (h : Ready paths s)
    (hperform : perform action fault s = some (s₁, answer)) : Ready paths s₁ := by
  have hof : ∀ v, action.effect s = .ok (s₁, v) → Ready paths s₁ := by
    intro v heffect
    obtain hsame | hnone | ⟨script, heq, hscript⟩ := launcher_of_effect heffect
    · intro launcher hsome
      exact h launcher (hsame ▸ hsome)
    · intro launcher hsome
      rw [hnone] at hsome
      cases hsome
    · exact ready_script hcli (haction script heq ▸ hscript)
  obtain ⟨v, heffect, -⟩ | ⟨v, error, heffect, -, -⟩ | ⟨error, rfl, -, -⟩ := perform_cases hperform
  · exact hof v heffect
  · exact hof v heffect
  · exact h

section

variable {P : Action → Prop} {α : Type} {procedure : Procedure α}

theorem performs_fileOp (h : P action) : (fileOp action).Performs P := by
  refine ⟨h, fun answer => ?_⟩
  cases answer with
  | ok value => trivial
  | error error => trivial

theorem performs_tolerate {procedure : Procedure Unit} {codes : List IoError}
    (h : procedure.Performs P) : (tolerate codes procedure).Performs P := by
  refine h.tryCatch fun failure => ?_
  split
  · trivial
  · trivial

theorem performs_optional (h : procedure.Performs P) : (optional procedure).Performs P := by
  refine (h.bind fun _ => Routine.performs_done _).tryCatch fun failure => ?_
  split
  · trivial
  · trivial

theorem performs_writeFileAtomic {afterRename : Bool} (htemporary : P .writeTemporary)
    (hsync : P .syncDirectory) (hrename : P action) (hhook : P .hook) (hremove : P .removeTemporary) :
    (writeFileAtomic action afterRename).Performs P := by
  refine Routine.Performs.tryCatch ?_ fun _ => (performs_fileOp hremove).bind fun _ => trivial
  refine (performs_fileOp htemporary).bind fun _ => (performs_fileOp hsync).bind fun _ =>
    (performs_fileOp hrename).bind fun _ =>
    Routine.Performs.bind ?_ fun _ => performs_fileOp hsync
  split
  · exact performs_fileOp hhook
  · trivial

end

theorem writesLauncher_of_ne (h : ∀ script, action ≠ .renameLauncher script) :
    WritesLauncher paths action :=
  fun script heq => absurd heq (h script)

theorem performs_other (h : ∀ script, action ≠ .renameLauncher script) :
    (fileOp action).Performs (WritesLauncher paths) :=
  performs_fileOp (writesLauncher_of_ne h)

theorem performs_switchCurrent : (switchCurrent paths version).Performs (WritesLauncher paths) := by
  refine (performs_tolerate ((performs_other (fun _ h => by cases h)).bind fun value => ?_)).bind
    fun _ => (performs_other (fun _ h => by cases h)).bind fun _ =>
      (performs_other (fun _ h => by cases h)).bind fun _ =>
      (performs_other (fun _ h => by cases h)).bind fun _ => performs_other (fun _ h => by cases h)
  split
  · trivial
  · trivial

theorem performs_writeFile {afterRename : Bool} (h : WritesLauncher paths action) :
    (writeFileAtomic action afterRename).Performs (WritesLauncher paths) :=
  performs_writeFileAtomic (writesLauncher_of_ne fun _ h => by cases h)
    (writesLauncher_of_ne fun _ h => by cases h) h (writesLauncher_of_ne fun _ h => by cases h)
    (writesLauncher_of_ne fun _ h => by cases h)

theorem performs_writeLauncher : (writeLauncher paths).Performs (WritesLauncher paths) := by
  refine (performs_other (fun _ h => by cases h)).bind fun _ => Routine.Performs.bind ?_ fun _ =>
    performs_writeFile fun script heq => (Action.renameLauncher.inj heq).symm
  refine performs_tolerate ((performs_other (fun _ h => by cases h)).bind fun isFile => ?_)
  split
  · refine (performs_other (fun _ h => by cases h)).bind fun existing => ?_
    split
    · trivial
    · trivial
  · trivial

theorem performs_clearTransaction : clearTransaction.Performs (WritesLauncher paths) :=
  performs_tolerate ((performs_other (fun _ h => by cases h)).bind fun _ =>
    performs_other (fun _ h => by cases h))

theorem performs_removeCurrentAndLauncher :
    (removeCurrentAndLauncher paths).Performs (WritesLauncher paths) := by
  refine (performs_tolerate (performs_other (fun _ h => by cases h))).bind fun _ =>
    performs_tolerate ((performs_other (fun _ h => by cases h)).bind fun contents => ?_)
  split
  · exact performs_other (fun _ h => by cases h)
  · trivial

theorem performs_recoverTo : (recoverTo paths version).Performs (WritesLauncher paths) :=
  ((performs_other (fun _ h => by cases h)).tryCatch fun _ => Routine.performs_fail _).bind fun _ =>
    performs_switchCurrent.bind fun _ => performs_writeLauncher

theorem performs_readState : readState.Performs (WritesLauncher paths) :=
  performs_optional (performs_other (fun _ h => by cases h))

theorem performs_recoverTransaction :
    (recoverTransaction paths).Performs (WritesLauncher paths) := by
  refine (performs_optional (performs_other (fun _ h => by cases h))).bind fun found => ?_
  cases found with
  | none => trivial
  | some transaction =>
    refine performs_readState.bind fun state => Routine.Performs.bind ?_
      fun _ => performs_clearTransaction
    split
    · exact performs_recoverTo
    · cases transaction.source with
      | none => exact performs_removeCurrentAndLauncher
      | some version => exact performs_recoverTo

theorem performs_restorePrevious (previousState : Option InstallState) :
    (restorePrevious paths previousState).Performs (WritesLauncher paths) := by
  cases previousState with
  | none =>
    exact (performs_tolerate (performs_other (fun _ h => by cases h))).bind
      fun _ => performs_removeCurrentAndLauncher
  | some state =>
    exact (performs_writeFile (writesLauncher_of_ne fun _ h => by cases h)).bind
      fun _ => performs_switchCurrent.bind fun _ => performs_writeLauncher

theorem performs_activate {previousState : Option InstallState} {state : InstallState}
    {text : String} :
    (activate paths previousState state text).Performs (WritesLauncher paths) := by
  refine (performs_writeFile (writesLauncher_of_ne fun _ h => by cases h)).bind fun _ =>
    Routine.Performs.bind ?_ fun _ => (performs_other (fun _ h => by cases h)).bind
      fun _ => performs_clearTransaction
  refine Routine.Performs.tryCatch (performs_switchCurrent.bind fun _ =>
    performs_writeLauncher.bind fun _ =>
      performs_writeFile (writesLauncher_of_ne fun _ h => by cases h)) fun failure => ?_
  refine Routine.Performs.bind ?_ fun _ => trivial
  exact ((performs_restorePrevious previousState).bind fun _ =>
    performs_clearTransaction).tryCatch fun _ => trivial

theorem performs_withInstallLock {α : Type} {callback : Procedure α}
    (h : callback.Performs (WritesLauncher paths)) :
    (withInstallLock callback).Performs (WritesLauncher paths) := by
  refine (performs_other (fun _ h => by cases h)).bind fun _ =>
    (performs_other (fun _ h => by cases h)).bind fun _ => h.attempt.bind fun result =>
    (performs_other (fun _ h => by cases h)).bind fun _ => ?_
  cases result with
  | ok value => trivial
  | error failure => trivial

theorem performs_stageRelease : (stageRelease version).Performs (WritesLauncher paths) := by
  refine (performs_optional (performs_other (fun _ h => by cases h))).bind fun found => ?_
  cases found with
  | some _ => trivial
  | none =>
    exact ((performs_other (fun _ h => by cases h)).bind fun _ =>
      (performs_other (fun _ h => by cases h)).bind fun _ =>
      (performs_other (fun _ h => by cases h)).bind fun _ =>
      performs_other (fun _ h => by cases h)).tryCatch fun _ =>
        (performs_other (fun _ h => by cases h)).bind fun _ => trivial

/-- No operation writes anything but this installation's script at the launcher's path. -/
theorem performs_operation (operation : Operation) :
    (operation.procedure paths).Performs (WritesLauncher paths) := by
  cases operation with
  | install version =>
    refine (performs_other (fun _ h => by cases h)).bind fun _ => performs_withInstallLock ?_
    refine performs_recoverTransaction.bind fun _ =>
      (performs_other (fun _ h => by cases h)).bind fun _ =>
      performs_readState.bind fun previousState => Routine.Performs.bind ?_ fun _ =>
      (performs_other (fun _ h => by cases h)).bind fun _ =>
      (performs_other (fun _ h => by cases h)).bind fun _ =>
      performs_stageRelease.bind fun _ => (performs_other (fun _ h => by cases h)).bind fun _ =>
      performs_activate.bind fun _ => trivial
    split
    · exact performs_tolerate ((performs_other (fun _ h => by cases h)).bind fun _ => trivial)
    · trivial
  | rollback =>
    refine performs_withInstallLock (performs_recoverTransaction.bind fun _ =>
      (performs_other (fun _ h => by cases h)).bind fun _ =>
      performs_readState.bind fun state => ?_)
    cases state with
    | none => trivial
    | some state =>
      obtain ⟨current, previous⟩ := state
      cases previous with
      | none => trivial
      | some previous =>
        exact (performs_other (fun _ h => by cases h)).bind fun _ =>
          performs_activate.bind fun _ => trivial

theorem ready_runOperations (hcli : '\'' ∉ paths.cli) (h : Ready paths s)
    (operations : List (Operation × List Fault)) :
    Ready paths (runOperations paths operations s) := by
  induction operations generalizing s with
  | nil => exact h
  | cons head operations ih =>
    exact ih ((performs_operation head.1).run
      (fun _ _ _ _ _ haction hready hperform => hready.perform hcli haction hperform) head.2 h)

theorem ready_emptyLayout : Ready samplePaths emptyLayout := fun _ h => by cases h

theorem apostrophe_notMem_cli : '\'' ∉ samplePaths.cli := by decide +kernel

end AgentHost.Installation
