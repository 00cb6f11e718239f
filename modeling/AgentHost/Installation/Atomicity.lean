import AgentHost.Installation.FileOperations

/-!
# Installations are atomic

Whatever fails, and wherever an install or a rollback is stopped, the state file is the one from
before or the one that the operation is for, the pointer leads to a release that is there, and what
the transaction file says is enough to make them agree again.

* `Consistent` — the invariant of the layout; `Between` — the invariant of one operation.
* `Moved` — only the pointer and the launcher changed.
* `keeps_switchCurrent`, `keeps_writeLauncher`, `keeps_writeState`, `keeps_clearTransaction`,
  `keeps_recoverTransaction`, `keeps_restorePrevious`, `keeps_activate` — the rules of the source
  functions.
-/

namespace AgentHost.Installation

/-- What holds of the layout at any time: the releases that are kept are there, the pointer leads to a
    release, and so does the state file; they agree, or there is a transaction file with the versions
    between which the state file stands. -/
structure Consistent (kept : List Version) (layout : Layout) : Prop where
  kept : ∀ version ∈ kept, version ∈ layout.releases
  resolves : ∀ pointer, layout.current = some pointer →
    ∃ version ∈ layout.releases, pointer = .link version
  installed : ∀ version, layout.version = some version → version ∈ layout.releases
  settled : layout.transaction = none → layout.Agrees
  pending : ∀ transaction, layout.transaction = some transaction →
    transaction.target ∈ layout.releases ∧
      (∀ version, transaction.source = some version → version ∈ layout.releases) ∧
      (layout.version = transaction.source ∨ layout.version = some transaction.target)

/-- What holds during an operation that begins in one layout and is for a state file. -/
structure Between (old : Layout) (next : Option InstallState) (layout : Layout) : Prop where
  consistent : Consistent old.releases layout
  state : layout.state = old.state ∨ layout.state = next

/-- Only the pointer and the launcher changed. -/
structure Moved (s s' : Layout) : Prop where
  state : s'.state = s.state
  transaction : s'.transaction = s.transaction
  releases : s'.releases = s.releases

theorem Moved.refl (s : Layout) : Moved s s := ⟨rfl, rfl, rfl⟩

theorem Moved.trans {s s' s'' : Layout} (h : Moved s s') (h' : Moved s' s'') : Moved s s'' :=
  ⟨h'.state.trans h.state, h'.transaction.trans h.transaction, h'.releases.trans h.releases⟩

theorem Moved.version {s s' : Layout} (h : Moved s s') : s'.version = s.version :=
  congrArg (Option.map InstallState.current) h.state

variable {paths : Paths} {old s s' : Layout} {next : Option InstallState}
  {transaction : Transaction} {version : Version}

/-! ### What keeps the invariant -/

/-- A change of nothing but the launcher and the staging directories. -/
theorem Between.of_same (h : Between old next s) (hmoved : Moved s s')
    (hcurrent : s'.current = s.current) : Between old next s' := by
  obtain ⟨hstate, htransaction, hreleases⟩ := hmoved
  have hversion : s'.version = s.version := congrArg (Option.map InstallState.current) hstate
  refine ⟨⟨?_, ?_, ?_, ?_, ?_⟩, hstate ▸ h.state⟩
  · exact hreleases ▸ h.consistent.kept
  · exact hcurrent ▸ hreleases ▸ h.consistent.resolves
  · exact hversion ▸ hreleases ▸ h.consistent.installed
  · intro hnone
    have hagrees := h.consistent.settled (htransaction ▸ hnone)
    rwa [Layout.Agrees, hcurrent, hversion]
  · intro transaction hsome
    rw [hreleases, hversion]
    exact h.consistent.pending transaction (htransaction ▸ hsome)

/-- Inside a transaction the pointer may be removed or lead to any release, and the state file may say
    either of its versions. -/
theorem Between.inTransaction (h : Between old next s) (htransaction : s.transaction = some transaction)
    (hsame : s'.transaction = s.transaction) (hreleases : s'.releases = s.releases)
    (hcurrent : ∀ pointer, s'.current = some pointer →
      s.current = some pointer ∨ ∃ version ∈ s.releases, pointer = .link version)
    (hstate : s'.state = s.state ∨ (s'.state = old.state ∨ s'.state = next) ∧
      (s'.version = transaction.source ∨ s'.version = some transaction.target)) :
    Between old next s' := by
  obtain ⟨htarget, hsource, hbetween⟩ := h.consistent.pending transaction htransaction
  have hversion : s'.version = transaction.source ∨ s'.version = some transaction.target := by
    obtain heq | ⟨_, heither⟩ := hstate
    · rwa [Layout.version, heq]
    · exact heither
  refine ⟨⟨?_, ?_, ?_, ?_, ?_⟩, ?_⟩
  · exact hreleases ▸ h.consistent.kept
  · intro pointer hpointer
    rw [hreleases]
    exact (hcurrent pointer hpointer).elim (h.consistent.resolves pointer) id
  · intro version hsome
    rw [hreleases]
    obtain heq | heq := hversion
    · exact hsource version (heq ▸ hsome)
    · obtain rfl := Option.some.inj (heq.symm.trans hsome)
      exact htarget
  · intro hnone
    rw [hsame, htransaction] at hnone
    cases hnone
  · intro other hother
    rw [hsame, htransaction] at hother
    obtain rfl := Option.some.inj hother
    rw [hreleases]
    exact ⟨htarget, hsource, hversion⟩
  · obtain heq | ⟨heither, _⟩ := hstate
    · exact heq ▸ h.state
    · exact heither

/-- The transaction ends where the pointer and the state file agree. -/
theorem Between.clear (h : Between old next s) (hagrees : s.Agrees) :
    Between old next { s with transaction := none } where
  consistent :=
    { kept := h.consistent.kept
      resolves := h.consistent.resolves
      installed := h.consistent.installed
      settled := fun _ => hagrees
      pending := fun _ hsome => by cases hsome }
  state := h.state

/-- The transaction begins: from the version in the state file, to a release. -/
theorem Between.begin (h : Between old next s) (hrelease : version ∈ s.releases) :
    Between old next { s with transaction := some ⟨s.version, version⟩ } where
  consistent :=
    { kept := h.consistent.kept
      resolves := h.consistent.resolves
      installed := h.consistent.installed
      settled := fun hnone => by cases hnone
      pending := fun transaction hsome => by
        obtain rfl := Option.some.inj hsome
        exact ⟨hrelease, h.consistent.installed, .inl rfl⟩ }
  state := h.state

/-- One more release. -/
theorem Between.addRelease (h : Between old next s) (staging : List Version) (version : Version) :
    Between old next { s with staging := staging, releases := version :: s.releases } where
  consistent :=
    { kept := fun v hv => List.mem_cons_of_mem _ (h.consistent.kept v hv)
      resolves := fun pointer hpointer => by
        obtain ⟨v, hv, hlink⟩ := h.consistent.resolves pointer hpointer
        exact ⟨v, List.mem_cons_of_mem _ hv, hlink⟩
      installed := fun v hv => List.mem_cons_of_mem _ (h.consistent.installed v hv)
      settled := h.consistent.settled
      pending := fun transaction hsome => by
        obtain ⟨htarget, hsource, hbetween⟩ := h.consistent.pending transaction hsome
        exact ⟨List.mem_cons_of_mem _ htarget,
          fun v hv => List.mem_cons_of_mem _ (hsource v hv), hbetween⟩ }
  state := h.state

/-! ### The pointer and the launcher -/

theorem keeps_checkPointer (h : Between old next s) :
    Keeps (Between old next) (checkPointer paths) (fun _ s' => s' = s) (fun _ s' => s' = s) s := by
  have hstat : ∀ s' value, Action.effect s .statCurrent = .ok (s', value) → s' = s :=
    fun _ _ heffect => (eq_of_present ((effect_statCurrent s).symm.trans heffect)).1
  refine keeps_tolerate ?_ fun _ _ _ => id
  refine (keeps_still hstat h).andThen (fun value s' hs' => ?_) fun _ _ => id
  split
  · exact hs'
  · exact hs'

theorem keeps_switchCurrent (h : Between old next s) (htransaction : s.transaction = some transaction)
    (hrelease : version ∈ s.releases) :
    Keeps (Between old next) (switchCurrent paths version)
      (fun _ s' => Moved s s' ∧ s'.current = some (.link version)) (fun _ s' => Moved s s') s := by
  have hlink : Between old next { s with current := some (.link version) } := by
    refine h.inTransaction htransaction rfl rfl (fun pointer hpointer => ?_) (.inl rfl)
    exact .inr ⟨version, hrelease, (Option.some.inj hpointer).symm⟩
  have hdirectory : s.current ≠ some .directory := by
    intro hdirectory
    obtain ⟨_, _, hlink⟩ := h.consistent.resolves _ hdirectory
    cases hlink
  have hsame : ∀ (failure : Failure) (s' : Layout), s' = s → Moved s s' := by
    rintro _ _ rfl
    exact Moved.refl _
  refine (keeps_checkPointer h).andThen (fun _ s' hs' => ?_) hsame
  obtain rfl := hs'
  refine (keeps_same (v := ()) rfl h).andThen (fun _ s' hs' => ?_) hsame
  obtain rfl := hs'
  refine (keeps_same (v := ()) rfl h).andThen (fun _ s' hs' => ?_) hsame
  obtain rfl := hs'
  refine (keeps_effect (effect_renameCurrent hdirectory) hlink).andThen (fun _ s' hs' => ?_)
    fun _ s' hs' => ?_
  · obtain ⟨_, rfl⟩ := hs'
    refine (keeps_same (v := ()) rfl hlink).mono (fun _ s' hs' => ?_) fun _ s' hs' => ?_
    · obtain rfl := hs'
      exact ⟨⟨rfl, rfl, rfl⟩, rfl⟩
    · obtain rfl := hs'
      exact ⟨rfl, rfl, rfl⟩
  · obtain ⟨_, rfl | rfl⟩ := hs'
    · exact Moved.refl _
    · exact ⟨rfl, rfl, rfl⟩

/-- Whether there is a file at the launcher's path; a directory is not missing. -/
theorem keeps_statLauncher (h : Between old next s) :
    Keeps (Between old next) (fileOp .statLauncher)
      (fun isFile s' => s' = s ∧ (isFile = true → s.launcher ≠ some .directory))
      (fun failure s' => s' = s ∧ (failure = .io .enoent → s.launcher ≠ some .directory)) s := by
  refine keeps_fileOp (fun s' isFile heffect => ?_) fun error hcause => ⟨rfl, fun heq hdirectory => ?_⟩
  · obtain ⟨rfl, hfile⟩ := eq_of_present ((effect_statLauncher s).symm.trans heffect)
    refine ⟨h, ⟨rfl, fun htrue hdirectory => ?_⟩, fun error hmeets => ⟨rfl, fun heq => ?_⟩⟩
    · rw [hdirectory, htrue] at hfile
      cases hfile
    · rw [Failure.io.inj heq, not_mayMeet_enoent] at hmeets
      cases hmeets
  · rw [Failure.io.inj heq, not_mayMeet_enoent, effect_statLauncher, hdirectory] at hcause
    obtain hcause | hcause := hcause
    · cases hcause
    · cases hcause

/-- What is not a directory may be replaced. -/
theorem keeps_checkLauncher (h : Between old next s) :
    Keeps (Between old next) (checkLauncher paths)
      (fun _ s' => s' = s ∧ s.launcher ≠ some .directory) (fun _ s' => s' = s) s := by
  refine (keeps_tolerate (Contract.Ensures.andThen (keeps_statLauncher h)
    (fun isFile s' hs' => ?_) fun _ _ => id) fun code hcode s' hs' => ?_).mono (fun _ _ => id)
      fun _ _ hs' => hs'.1
  · obtain ⟨rfl, hfile⟩ := hs'
    split
    · next htrue =>
      refine (keeps_still (fun _ _ heffect => (eq_of_effect_readLauncher heffect).1) h).andThen
        (fun existing s'' hs'' => ?_) fun failure s'' hs'' => ⟨hs'', fun _ => hfile htrue⟩
      obtain rfl := hs''
      split
      · exact ⟨rfl, hfile htrue⟩
      · exact ⟨rfl, fun heq => by cases heq⟩
    · exact ⟨rfl, fun heq => by cases heq⟩
  · obtain rfl := List.mem_singleton.mp hcode
    exact ⟨hs'.1, hs'.2 rfl⟩

theorem keeps_writeLauncher (h : Between old next s) :
    Keeps (Between old next) (writeLauncher paths)
      (fun _ s' => Moved s s' ∧ s'.current = s.current ∧
        s'.launcher = some (.file (launcherScript paths)))
      (fun _ s' => Moved s s') s := by
  have hsame : ∀ (failure : Failure) (s' : Layout), s' = s → Moved s s' := by
    rintro _ _ rfl
    exact Moved.refl _
  refine (keeps_same (v := ()) rfl h).andThen (fun _ s' hs' => ?_) hsame
  obtain rfl := hs'
  refine (keeps_checkLauncher h).andThen (fun _ s' hs' => ?_) hsame
  obtain ⟨rfl, hdirectory⟩ := hs'
  have hscript : Between old next { s' with launcher := some (.file (launcherScript paths)) } :=
    h.of_same ⟨rfl, rfl, rfl⟩ rfl
  refine (keeps_writeFileAtomic (effect_renameLauncher hdirectory) h hscript).mono
    (fun _ s'' hs'' => ?_) fun _ s'' hs'' => ?_
  · obtain rfl := hs''
    exact ⟨⟨rfl, rfl, rfl⟩, rfl, rfl⟩
  · obtain rfl | rfl := hs''
    · exact Moved.refl _
    · exact ⟨rfl, rfl, rfl⟩

/-- The launcher's path is read, and what is there may be removed. -/
theorem keeps_removeLauncher (h : Between old next s) (codes : List IoError) :
    Keeps (Between old next) (removeLauncher paths codes)
      (fun _ s' => Moved s s' ∧ s'.current = s.current)
      (fun _ s' => Moved s s' ∧ s'.current = s.current) s := by
  have hsame : ∀ (failure : Failure) (s' : Layout), s' = s → Moved s s' ∧ s'.current = s.current := by
    rintro _ _ rfl
    exact ⟨Moved.refl _, rfl⟩
  have hremoved : Between old next { s with launcher := none } := h.of_same ⟨rfl, rfl, rfl⟩ rfl
  refine keeps_tolerate (T := fun _ s' => Moved s s' ∧ s'.current = s.current) ?_
    fun _ _ _ => id
  refine (keeps_still (fun _ _ heffect => (eq_of_effect_readLauncher heffect).1) h).andThen
    (fun contents s' hs' => ?_) hsame
  obtain rfl := hs'
  split
  · refine keeps_fileOp (fun s'' _ heffect => ?_) fun _ _ => ⟨Moved.refl _, rfl⟩
    obtain rfl := eq_of_effect_unlinkLauncher heffect
    exact ⟨hremoved, ⟨⟨rfl, rfl, rfl⟩, rfl⟩, fun _ _ => ⟨⟨rfl, rfl, rfl⟩, rfl⟩⟩
  · exact ⟨Moved.refl _, rfl⟩

/-- The pointer is removed; the launcher may be. -/
theorem keeps_removeCurrentAndLauncher (h : Between old next s)
    (htransaction : s.transaction = some transaction) :
    Keeps (Between old next) (removeCurrentAndLauncher paths)
      (fun _ s' => Moved s s' ∧ s'.current = none) (fun _ s' => Moved s s') s := by
  have hremoved : Between old next { s with current := none } := by
    refine h.inTransaction htransaction rfl rfl (fun pointer hpointer => ?_) (.inl rfl)
    cases hpointer
  have hdirectory : s.current ≠ some .directory := by
    intro hdirectory
    obtain ⟨_, _, hlink⟩ := h.consistent.resolves _ hdirectory
    cases hlink
  have hunlink : Keeps (Between old next) (tolerate [.enoent, .enotdir] (fileOp .unlinkCurrent))
      (fun _ s' => s' = { s with current := none })
      (fun _ s' => s' = s ∨ s' = { s with current := none }) s :=
    (keeps_tolerate (keeps_unlink (effect_unlinkCurrent hdirectory) (by decide) hremoved)
      fun code hmem _ hs' => hs'.2 code hmem rfl).mono (fun _ _ => id) fun _ _ hs' => hs'.1
  refine hunlink.andThen (fun _ s' hs' => ?_) fun _ s' hs' => ?_
  · obtain rfl := hs'
    have hmoved : Moved s { s with current := none } := ⟨rfl, rfl, rfl⟩
    exact (keeps_removeLauncher hremoved _).mono
      (fun _ s'' hs'' => ⟨hmoved.trans hs''.1, hs''.2⟩) fun _ s'' hs'' => hmoved.trans hs''.1
  · obtain rfl | rfl := hs'
    · exact Moved.refl _
    · exact ⟨rfl, rfl, rfl⟩

/-! ### The state file and the transaction file -/

/-- The state file is replaced by one of the two that the operation knows. -/
theorem keeps_writeState (h : Between old next s) (htransaction : s.transaction = some transaction)
    {state : InstallState} {afterRename : Bool} (hstate : some state = old.state ∨ some state = next)
    (hversion : some state.current = transaction.source ∨ state.current = transaction.target) :
    Keeps (Between old next) (writeState state afterRename)
      (fun _ s' => s' = { s with state := some state })
      (fun _ s' => s' = s ∨ s' = { s with state := some state }) s := by
  have hwritten : Between old next { s with state := some state } := by
    refine h.inTransaction htransaction rfl rfl (fun _ => .inl) (.inr ⟨hstate, ?_⟩)
    exact hversion.imp id (congrArg some)
  exact keeps_writeFileAtomic (v := ()) rfl h hwritten

theorem keeps_clearTransaction (h : Between old next s) (hagrees : s.Agrees) :
    Keeps (Between old next) clearTransaction (fun _ s' => s' = { s with transaction := none })
      (fun _ s' => s' = s ∨ s' = { s with transaction := none }) s := by
  have hcleared := h.clear hagrees
  have hbody : Keeps (Between old next)
      ((fileOp .unlinkTransaction).bind fun _ => fileOp .syncDirectory)
      (fun _ s' => s' = { s with transaction := none })
      (fun failure s' => (s' = s ∨ s' = { s with transaction := none }) ∧
        ∀ code ∈ [IoError.enoent], failure = .io code → s' = { s with transaction := none }) s := by
    refine (keeps_unlink (effect_unlinkTransaction s) (by decide) hcleared).andThen
      (fun _ s' hs' => ?_) fun _ _ => id
    rw [hs']
    exact (keeps_same (v := ()) rfl hcleared).mono (fun _ _ => id)
      fun _ _ hs'' => ⟨.inr hs'', fun _ _ _ => hs''⟩
  exact (keeps_tolerate hbody fun code hmem _ hs' => hs'.2 code hmem rfl).mono (fun _ _ => id)
    fun _ _ hs' => hs'.1

/-! ### Recovery and restoration -/

/-- What is read of the state file. -/
theorem keeps_readState (h : Between old next s) :
    Keeps (Between old next) readState (fun state s' => state = s.state ∧ s' = s)
      (fun _ s' => s' = s) s :=
  keeps_read rfl h

theorem keeps_validateRelease (h : Between old next s) (version : Version) :
    Keeps (Between old next) (fileOp (.validateRelease version))
      (fun _ s' => s' = s ∧ version ∈ s.releases) (fun _ s' => s' = s) s := by
  have heffect : Action.effect s (.validateRelease version) =
      if version ∈ s.releases then .ok (s, ()) else .error .enoent := rfl
  refine keeps_fileOp (fun s' value hok => ?_) fun _ _ => rfl
  rw [heffect] at hok
  split at hok
  · next hmem =>
    obtain ⟨rfl, -⟩ := Prod.mk.inj (Except.ok.inj hok)
    exact ⟨h, ⟨rfl, hmem⟩, fun _ _ => rfl⟩
  · cases hok

/-- The pointer and the launcher of a version that is there. -/
theorem keeps_recoverTo (h : Between old next s) (htransaction : s.transaction = some transaction) :
    Keeps (Between old next) (recoverTo paths version)
      (fun _ s' => Moved s s' ∧ s'.current = some (.link version)) (fun _ s' => Moved s s') s := by
  have hsame : ∀ (failure : Failure) (s' : Layout), s' = s → Moved s s' := by
    rintro _ _ rfl
    exact Moved.refl _
  have hvalid : Keeps (Between old next) (validateRecoveryTarget version)
      (fun _ s' => s' = s ∧ version ∈ s.releases) (fun _ s' => s' = s) s :=
    Contract.Ensures.orElse (keeps_validateRelease h version) (fun _ _ => id) fun _ _ hs' => hs'
  refine hvalid.andThen (fun _ s' hs' => ?_) hsame
  obtain ⟨rfl, hrelease⟩ := hs'
  refine ((keeps_switchCurrent h htransaction hrelease).withInvariant h).andThen
    (fun _ s'' hs'' => ?_) fun _ _ hs'' => hs''.2
  obtain ⟨h', hmoved, hcurrent⟩ := hs''
  exact (keeps_writeLauncher h').mono
    (fun _ _ hs => ⟨hmoved.trans hs.1, hs.2.1.trans hcurrent⟩) fun _ _ hs => hmoved.trans hs

/-- Recovery leaves the state file as it is and no transaction behind. -/
theorem keeps_recoverTransaction (h : Between old next s) :
    Keeps (Between old next) (recoverTransaction paths)
      (fun _ s' => s'.state = s.state ∧ s'.releases = s.releases ∧ s'.transaction = none)
      (fun _ s' => s'.state = s.state ∧ s'.releases = s.releases) s := by
  have hsame : ∀ (failure : Failure) (s' : Layout), s' = s →
      s'.state = s.state ∧ s'.releases = s.releases := by
    rintro _ _ rfl
    exact ⟨rfl, rfl⟩
  refine (keeps_read rfl h).andThen (fun found s' hs' => ?_) hsame
  obtain ⟨rfl, rfl⟩ := hs'
  cases htransaction : s'.transaction with
  | none => exact ⟨rfl, rfl, htransaction⟩
  | some transaction =>
    refine (keeps_readState h).andThen (fun state s'' hs'' => ?_) hsame
    obtain ⟨rfl, rfl⟩ := hs''
    have hversions := (h.consistent.pending transaction htransaction).2.2
    -- the pointer follows the state file, whichever of the two versions it says
    have hpointer : Keeps (Between old next)
        (if s''.state.map InstallState.current = some transaction.target then
            recoverTo paths transaction.target
          else transaction.source.elim (removeCurrentAndLauncher paths) (recoverTo paths))
        (fun _ s' => Moved s'' s' ∧ s'.Agrees) (fun _ s' => Moved s'' s') s'' := by
      split
      · next htarget =>
        refine (keeps_recoverTo h htransaction).mono (fun _ s' hs' => ⟨hs'.1, ?_⟩) fun _ _ => id
        have hversion : s''.version = some transaction.target := htarget
        rw [Layout.Agrees, hs'.2, hs'.1.version, hversion, Option.map_some]
      · next htarget =>
        have hversion : s''.version = transaction.source := hversions.resolve_right htarget
        cases hsource : transaction.source with
        | none =>
          refine (keeps_removeCurrentAndLauncher h htransaction).mono
            (fun _ s' hs' => ⟨hs'.1, ?_⟩) fun _ _ => id
          rw [Layout.Agrees, hs'.2, hs'.1.version, hversion, hsource, Option.map_none]
        | some version =>
          refine (keeps_recoverTo h htransaction).mono (fun _ s' hs' => ⟨hs'.1, ?_⟩) fun _ _ => id
          rw [Layout.Agrees, hs'.2, hs'.1.version, hversion, hsource, Option.map_some]
    refine (hpointer.withInvariant h).andThen (fun _ s' hs' => ?_)
      fun _ _ hs' => ⟨hs'.2.state, hs'.2.releases⟩
    obtain ⟨h', hmoved, hagrees⟩ := hs'
    refine (keeps_clearTransaction h' hagrees).mono (fun _ s hs => ?_) fun _ s hs => ?_
    · obtain rfl := hs
      exact ⟨hmoved.state, hmoved.releases, rfl⟩
    · obtain rfl | rfl := hs
      · exact ⟨hmoved.state, hmoved.releases⟩
      · exact ⟨hmoved.state, hmoved.releases⟩

/-- What was there before is restored: the state file, and the pointer with it. -/
theorem keeps_restorePrevious (h : Between old next s)
    (htransaction : s.transaction = some transaction) (hsource : transaction.source = old.version) :
    Keeps (Between old next) (restorePrevious paths old.state)
      (fun _ s' => s'.state = old.state ∧ s'.Agrees) (fun _ _ => True) s := by
  cases hold : old.state with
  | none =>
    have hversion : transaction.source = none := by rw [hsource, Layout.version, hold]; rfl
    have hremoved : Between old next { s with state := none } := by
      refine h.inTransaction htransaction rfl rfl (fun _ => .inl) (.inr ⟨.inl hold.symm, .inl ?_⟩)
      exact hversion.symm
    have hunlink : Keeps (Between old next) (tolerate [.enoent] (fileOp .unlinkState))
        (fun _ s' => s' = { s with state := none }) (fun _ _ => True) s :=
      (keeps_tolerate (keeps_unlink (effect_unlinkState s) (by decide) hremoved)
        fun code hmem _ hs' => hs'.2 code hmem rfl).mono (fun _ _ => id) fun _ _ _ => trivial
    refine hunlink.andThen (fun _ s' hs' => ?_) fun _ _ _ => trivial
    obtain rfl := hs'
    refine (keeps_removeCurrentAndLauncher hremoved htransaction).mono (fun _ s' hs' => ?_)
      fun _ _ _ => trivial
    obtain ⟨hmoved, hcurrent⟩ := hs'
    exact ⟨hmoved.state, by rw [Layout.Agrees, hcurrent, hmoved.version]; rfl⟩
  | some state =>
    have hversion : some state.current = transaction.source := by
      rw [hsource, Layout.version, hold]; rfl
    refine ((keeps_writeState h htransaction (.inl hold.symm) (.inl hversion)).withInvariant
      h).andThen (fun _ s' hs' => ?_) fun _ _ _ => trivial
    obtain ⟨h', rfl⟩ := hs'
    have hrelease : state.current ∈ s.releases :=
      (h.consistent.pending transaction htransaction).2.1 _ hversion.symm
    refine ((keeps_switchCurrent h' htransaction hrelease).withInvariant h').andThen
      (fun _ s₁ hs₁ => ?_) fun _ _ _ => trivial
    obtain ⟨h₁, hmoved, hcurrent⟩ := hs₁
    refine (keeps_writeLauncher h₁).mono (fun _ s₂ hs₂ => ?_) fun _ _ _ => trivial
    obtain ⟨hmoved', hcurrent', _⟩ := hs₂
    have hall := hmoved.trans hmoved'
    refine ⟨hall.state, ?_⟩
    rw [Layout.Agrees, hcurrent', hcurrent, hall.version]
    rfl

/-- The three steps of an activation. -/
theorem keeps_activation (paths : Paths) {state : InstallState}
    (h : Between old (some state) s)
    (htransaction : s.transaction = some transaction) (htarget : transaction.target = state.current)
    (hrelease : state.current ∈ s.releases) :
    Keeps (Between old (some state))
      ((switchCurrent paths state.current).bind fun _ =>
        (writeLauncher paths).bind fun _ => writeState state true)
      (fun _ s' => s'.state = some state ∧ s'.current = some (.link state.current) ∧
        s'.launcher = some (.file (launcherScript paths)))
      (fun _ s' => s'.transaction = some transaction) s := by
  refine ((keeps_switchCurrent h htransaction hrelease).withInvariant h).andThen
    (fun _ s₁ hs₁ => ?_) fun _ _ hs₁ => hs₁.2.transaction.trans htransaction
  obtain ⟨h₁, hmoved, hcurrent⟩ := hs₁
  refine ((keeps_writeLauncher h₁).withInvariant h₁).andThen (fun _ s₂ hs₂ => ?_)
    fun _ _ hs₂ => (hmoved.trans hs₂.2).transaction.trans htransaction
  obtain ⟨h₂, hmoved', hcurrent', hlauncher⟩ := hs₂
  have hsame : s₂.transaction = some transaction :=
    (hmoved.trans hmoved').transaction.trans htransaction
  refine (keeps_writeState h₂ hsame (.inr rfl) (.inr htarget.symm)).mono (fun _ s₃ hs₃ => ?_)
    fun _ s₃ hs₃ => ?_
  · obtain rfl := hs₃
    exact ⟨rfl, hcurrent'.trans hcurrent, hlauncher⟩
  · obtain rfl | rfl := hs₃
    · exact hsame
    · exact hsame

/-- A version becomes the current one, or what was there before stays or is restored. -/
theorem keeps_activate {state : InstallState} {text : String} (h : Between old (some state) s)
    (hstate : s.state = old.state) (hrelease : state.current ∈ s.releases) :
    Keeps (Between old (some state)) (activate paths old.state state text)
      (fun _ s' => s'.state = some state ∧ s'.current = some (.link state.current) ∧
        s'.launcher = some (.file (launcherScript paths)) ∧ s'.transaction = none)
      (fun _ _ => True) s := by
  have hversion : old.state.map InstallState.current = s.version :=
    congrArg (Option.map InstallState.current) hstate.symm
  unfold activate
  rw [hversion]
  have hbegun := h.begin hrelease
  refine (keeps_writeFileAtomic (v := ()) rfl h hbegun).andThen (fun _ s₁ hs₁ => ?_)
    fun _ _ _ => trivial
  obtain rfl := hs₁
  have hbody := (keeps_activation paths hbegun rfl rfl hrelease).withInvariant hbegun
  refine Contract.Ensures.andThen (Contract.Ensures.orElse hbody (fun _ _ hs => hs)
    fun failure s' hs' => ?_) (fun _ s' hs' => ?_) fun _ _ hs => hs
  · -- what was there before is restored, and then the failure is thrown
    obtain ⟨h', htransaction⟩ := hs'
    have hrestore : Keeps (Between old (some state))
        ((restorePrevious paths old.state).bind fun _ => clearTransaction) (fun _ _ => True)
        (fun _ _ => True) s' := by
      refine ((keeps_restorePrevious h' htransaction hversion.symm).withInvariant h').andThen
        (fun _ s₂ hs₂ => ?_) fun _ _ _ => trivial
      exact (keeps_clearTransaction hs₂.1 hs₂.2.2).mono (fun _ _ _ => trivial)
        fun _ _ _ => trivial
    refine Contract.Ensures.andThen (Contract.Ensures.orElse hrestore (fun _ _ hs => hs)
      fun _ _ _ => ?_) (fun _ _ _ => ?_) fun _ _ hs => hs
    · exact trivial
    · exact trivial
  · obtain ⟨h', hnew, hcurrent, hlauncher⟩ := hs'
    refine (keeps_same (v := ()) rfl h').andThen (fun _ s₂ hs₂ => ?_) fun _ _ _ => trivial
    obtain rfl := hs₂
    have hagrees : s₂.Agrees := by rw [Layout.Agrees, hcurrent, Layout.version, hnew]; rfl
    refine (keeps_clearTransaction h' hagrees).mono (fun _ s₃ hs₃ => ?_) fun _ _ _ => trivial
    obtain rfl := hs₃
    exact ⟨hnew, hcurrent, hlauncher, rfl⟩

end AgentHost.Installation
