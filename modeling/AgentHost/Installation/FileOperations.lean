import AgentHost.Installation.Operations

/-!
# What the file operations of an installation ensure

One rule for each way in which the source functions use a file operation: the operations that leave
the layout as it is, those with one effect, those whose missing file is tolerated, and the files that
are replaced as a whole.

* `perform_cases` — everything that an operation can do.
* `Keeps` — a procedure keeps an invariant at each of its operations, and ends as its postconditions
  say.
* `keeps_fileOp`, `keeps_tolerate`, `keeps_optional`, `keeps_unlink`, `keeps_writeFileAtomic` — the
  rules.
-/

namespace AgentHost.Installation

variable {action : Action} {fault : Fault} {s s' s₁ : Layout}

theorem not_mayMeet_enoent (action : Action) : IoError.enoent.mayMeet action = false := rfl

/-- Everything that an operation can do: its effect; its effect and then a failure; or a failure, and
    the layout is as it was. -/
theorem perform_cases {answer : Answer action}
    (h : perform action fault s = some (s', answer)) :
    (∃ value, action.effect s = .ok (s', value) ∧ answer = .ok value) ∨
      (∃ value error, action.effect s = .ok (s', value) ∧ error.mayMeet action = true ∧
        answer = .error error) ∨
      ∃ error, s' = s ∧ (action.effect s = .error error ∨ error.mayMeet action = true) ∧
        answer = .error error := by
  unfold perform at h
  split at h
  · next heffect =>
    obtain ⟨rfl, rfl⟩ := Prod.mk.inj (Option.some.inj h)
    exact .inl ⟨_, heffect, rfl⟩
  · next heffect =>
    obtain ⟨rfl, rfl⟩ := Prod.mk.inj (Option.some.inj h)
    exact .inr (.inr ⟨_, rfl, .inl heffect, rfl⟩)
  · split at h
    case isFalse => cases h
    next hmeets =>
    obtain ⟨rfl, rfl⟩ := Prod.mk.inj (Option.some.inj h)
    exact .inr (.inr ⟨_, rfl, .inr hmeets, rfl⟩)
  · next heffect =>
    split at h
    case isFalse => cases h
    next hmeets =>
    obtain ⟨rfl, rfl⟩ := Prod.mk.inj (Option.some.inj h)
    exact .inr (.inl ⟨_, _, heffect, hmeets, rfl⟩)
  · next heffect =>
    obtain ⟨rfl, rfl⟩ := Prod.mk.inj (Option.some.inj h)
    exact .inr (.inr ⟨_, rfl, .inl heffect, rfl⟩)

/-! ### Effects -/

theorem effect_statCurrent (s : Layout) :
    Action.effect s .statCurrent = present s (s.current.map Pointer.isSymbolicLink) := rfl

theorem effect_statLauncher (s : Layout) :
    Action.effect s .statLauncher = present s (s.launcher.map Launcher.isFile) := rfl

/-- The pointer is replaced where it is no directory. -/
theorem effect_renameCurrent {version : Version} (h : s.current ≠ some .directory) :
    Action.effect s (.renameCurrent version) =
      .ok ({ s with current := some (.link version) }, ()) := if_neg h

theorem effect_renameLauncher {script : List Char} (h : s.launcher ≠ some .directory) :
    Action.effect s (.renameLauncher script) =
      .ok ({ s with launcher := some (.file script) }, ()) := if_neg h

theorem effect_readLauncher (s : Layout) : Action.effect s .readLauncher =
    (s.launcher.elim (.error .enoent) Launcher.read).map fun contents => (s, contents) := rfl

theorem effect_readLauncher_file {contents : List Char} (h : s.launcher = some (.file contents)) :
    Action.effect s .readLauncher = .ok (s, contents) := by
  rw [effect_readLauncher, h]
  rfl

theorem effect_readLauncher_none (h : s.launcher = none) :
    Action.effect s .readLauncher = .error .enoent := by
  rw [effect_readLauncher, h]
  rfl

theorem effect_unlinkLauncher_file {contents : List Char} (h : s.launcher = some (.file contents)) :
    Action.effect s .unlinkLauncher = .ok ({ s with launcher := none }, ()) := by
  have heffect : Action.effect s .unlinkLauncher =
      if s.launcher = some .directory then .error .other
      else unlinked s.launcher { s with launcher := none } := rfl
  rw [heffect, if_neg (by rw [h]; exact fun heq => by cases heq), h]
  rfl

/-- What is read at the launcher's path leaves the layout as it is. -/
theorem eq_of_effect_readLauncher {contents : List Char}
    (h : Action.effect s .readLauncher = .ok (s', contents)) :
    s' = s ∧ s.launcher.elim (.error .enoent) Launcher.read = .ok contents := by
  rw [effect_readLauncher] at h
  cases hread : s.launcher.elim (.error IoError.enoent) Launcher.read with
  | error error =>
    rw [hread] at h
    cases h
  | ok contents' =>
    rw [hread] at h
    obtain ⟨rfl, rfl⟩ := Prod.mk.inj (Except.ok.inj h)
    exact ⟨rfl, rfl⟩

/-- What `unlink` does: the next layout, or `ENOENT` where there is no file. -/
theorem unlinked_cases {α : Type} {file : Option α} (h : file = none → s₁ = s) :
    (∃ v, unlinked file s₁ = .ok (s₁, v)) ∨ unlinked file s₁ = .error .enoent ∧ s₁ = s := by
  cases file with
  | none => exact .inr ⟨rfl, h rfl⟩
  | some value => exact .inl ⟨(), rfl⟩

theorem effect_unlinkState (s : Layout) :
    (∃ v, Action.effect s .unlinkState = .ok ({ s with state := none }, v)) ∨
      Action.effect s .unlinkState = .error .enoent ∧ { s with state := none } = s :=
  unlinked_cases fun h => h ▸ rfl

theorem effect_unlinkTransaction (s : Layout) :
    (∃ v, Action.effect s .unlinkTransaction = .ok ({ s with transaction := none }, v)) ∨
      Action.effect s .unlinkTransaction = .error .enoent ∧ { s with transaction := none } = s :=
  unlinked_cases fun h => h ▸ rfl

theorem effect_unlinkCurrent (h : s.current ≠ some .directory) :
    (∃ v, Action.effect s .unlinkCurrent = .ok ({ s with current := none }, v)) ∨
      Action.effect s .unlinkCurrent = .error .enoent ∧ { s with current := none } = s := by
  have heffect : Action.effect s .unlinkCurrent = unlinked s.current { s with current := none } :=
    if_neg h
  rw [heffect]
  exact unlinked_cases fun hnone => hnone ▸ rfl

theorem eq_of_effect_unlinkLauncher {v : Unit} (h : Action.effect s .unlinkLauncher = .ok (s', v)) :
    s' = { s with launcher := none } := by
  have heffect : Action.effect s .unlinkLauncher =
      if s.launcher = some .directory then .error .other
      else unlinked s.launcher { s with launcher := none } := rfl
  rw [heffect] at h
  split at h
  · cases h
  · unfold unlinked at h
    split at h
    · cases h
    · exact (Prod.mk.inj (Except.ok.inj h)).1.symm

/-! ### Rules -/

/-- A procedure keeps an invariant at each of its operations, and ends as its postconditions say. -/
abbrev Keeps {α : Type} (invariant : Layout → Prop) (procedure : Procedure α)
    (returns : α → Layout → Prop) (throws : Failure → Layout → Prop) (s : Layout) : Prop :=
  (Contract.alone perform invariant).Ensures procedure returns throws s

variable {invariant : Layout → Prop} {α : Type} {procedure : Procedure α}
  {throws : Failure → Layout → Prop}

/-- One operation: what its effect establishes, and what holds where it fails. -/
theorem keeps_fileOp {returns : Value action → Layout → Prop}
    (hok : ∀ s' value, action.effect s = .ok (s', value) → invariant s' ∧ returns value s' ∧
      ∀ error, error.mayMeet action = true → throws (.io error) s')
    (herror : ∀ error, action.effect s = .error error ∨ error.mayMeet action = true →
      throws (.io error) s) :
    Keeps invariant (fileOp action) returns throws s := by
  rintro _ hinvariant rfl fault s' answer hperform
  obtain ⟨value, heffect, rfl⟩ | ⟨value, error, heffect, hmeets, rfl⟩ | ⟨error, rfl, hcause, rfl⟩ :=
    perform_cases hperform
  · exact ⟨(hok s' value heffect).1, trivial, (hok s' value heffect).2.1⟩
  · exact ⟨(hok s' value heffect).1, trivial, (hok s' value heffect).2.2 error hmeets⟩
  · exact ⟨hinvariant, trivial, herror error hcause⟩

/-- An operation with a known effect. -/
theorem keeps_effect {v : Value action} (heffect : action.effect s = .ok (s₁, v))
    (hinvariant : invariant s₁) :
    Keeps invariant (fileOp action) (fun value s' => value = v ∧ s' = s₁)
      (fun failure s' => (∃ error : IoError, failure = .io error ∧ error.mayMeet action = true) ∧
        (s' = s ∨ s' = s₁)) s := by
  refine keeps_fileOp (fun s' value' heffect' => ?_) fun error hcause => ?_
  · obtain ⟨rfl, rfl⟩ := Prod.mk.inj (Except.ok.inj (heffect.symm.trans heffect'))
    exact ⟨hinvariant, ⟨rfl, rfl⟩, fun error hmeets => ⟨⟨error, rfl, hmeets⟩, .inr rfl⟩⟩
  · rw [heffect] at hcause
    obtain hcause | hmeets := hcause
    · cases hcause
    · exact ⟨⟨error, rfl, hmeets⟩, .inl rfl⟩

/-- An operation that leaves the layout as it is. -/
theorem keeps_same {v : Value action} (heffect : action.effect s = .ok (s, v))
    (hinvariant : invariant s) :
    Keeps invariant (fileOp action) (fun _ s' => s' = s) (fun _ s' => s' = s) s :=
  (keeps_effect heffect hinvariant).mono (fun _ _ h => h.2) fun _ _ h => h.2.elim id id

/-- An operation that looks at the layout. -/
theorem keeps_still (heffect : ∀ s' value, action.effect s = .ok (s', value) → s' = s)
    (hinvariant : invariant s) :
    Keeps invariant (fileOp action) (fun _ s' => s' = s) (fun _ s' => s' = s) s := by
  refine keeps_fileOp (fun s' value h => ?_) fun _ _ => rfl
  obtain rfl := heffect s' value h
  exact ⟨hinvariant, rfl, fun _ _ => rfl⟩

/-- Failures with a code that is tolerated are where the procedure returns. -/
theorem keeps_tolerate {procedure : Procedure Unit} {returns : Unit → Layout → Prop}
    {T : Failure → Layout → Prop} {codes : List IoError}
    (h : Keeps invariant procedure returns T s)
    (htolerated : ∀ code ∈ codes, ∀ s', T (.io code) s' → returns () s') :
    Keeps invariant (tolerate codes procedure) returns T s := by
  refine h.orElse (fun _ _ => id) fun failure s' hthrows => ?_
  split
  · next hany =>
    obtain ⟨code, hmem, hcode⟩ := List.any_eq_true.mp hany
    obtain rfl := of_decide_eq_true hcode
    exact htolerated code hmem s' hthrows
  · exact hthrows

/-- A missing file is no value. -/
theorem keeps_optional {returns : Option α → Layout → Prop}
    (h : Keeps invariant procedure (fun value => returns (some value)) throws s)
    (hmissing : ∀ s', throws (.io .enoent) s' → returns none s') :
    Keeps invariant (optional procedure) returns throws s := by
  refine Contract.Ensures.orElse (h.andThen (fun _ _ => id) fun _ _ => id) (fun _ _ => id)
    fun failure s' hthrows => ?_
  split
  · next heq => exact hmissing s' (heq ▸ hthrows)
  · exact hthrows

/-- What is read of a file. -/
theorem keeps_read {file : Option (Value action)} (heffect : action.effect s = present s file)
    (hinvariant : invariant s) :
    Keeps invariant (optional (fileOp action)) (fun value s' => value = file ∧ s' = s)
      (fun _ s' => s' = s) s := by
  have h : Keeps invariant (fileOp action) (fun value s' => some value = file ∧ s' = s)
      (fun failure s' => (failure = .io .enoent → file = none) ∧ s' = s) s := by
    cases file with
    | none =>
      refine keeps_fileOp (fun s' value heffect' => ?_) fun _ _ => ⟨fun _ => rfl, rfl⟩
      rw [heffect] at heffect'
      cases heffect'
    | some value =>
      refine (keeps_effect (heffect.trans rfl) hinvariant).mono (fun value' s' h => ?_)
        fun failure s' h => ?_
      · exact ⟨congrArg some h.1, h.2⟩
      · obtain ⟨⟨error, rfl, hmeets⟩, hsame⟩ := h
        refine ⟨fun heq => ?_, hsame.elim id id⟩
        rw [Failure.io.inj heq, not_mayMeet_enoent] at hmeets
        cases hmeets
  exact (keeps_optional (h.mono (fun _ _ => id) fun _ _ => id)
    fun s' h => ⟨(h.1 rfl).symm, h.2⟩).mono (fun _ _ => id) fun _ _ h => h.2

/-- A file is removed, or was not there; what is tolerated is only that. -/
theorem keeps_unlink {codes : List IoError}
    (heffect : (∃ v, action.effect s = .ok (s₁, v)) ∨ action.effect s = .error .enoent ∧ s₁ = s)
    (hmeets : ∀ code ∈ codes, code.mayMeet action = false) (hinvariant : invariant s₁) :
    Keeps invariant (fileOp action) (fun _ s' => s' = s₁)
      (fun failure s' => (s' = s ∨ s' = s₁) ∧ ∀ code ∈ codes, failure = .io code → s' = s₁) s := by
  have hcode : ∀ error : IoError, error.mayMeet action = true → ∀ code ∈ codes,
      Failure.io error ≠ .io code := by
    intro error hmeets' code hmem heq
    rw [Failure.io.inj heq, hmeets code hmem] at hmeets'
    cases hmeets'
  obtain ⟨v, heffect⟩ | ⟨heffect, rfl⟩ := heffect
  · refine (keeps_effect heffect hinvariant).mono (fun _ _ h => h.2) fun failure s' h => ?_
    obtain ⟨⟨error, rfl, hmeets'⟩, hs'⟩ := h
    exact ⟨hs', fun code hmem heq => absurd heq (hcode error hmeets' code hmem)⟩
  · refine keeps_fileOp (fun s' value heffect' => ?_) fun error hcause => ⟨.inl rfl, fun _ _ _ => rfl⟩
    rw [heffect] at heffect'
    cases heffect'

/-- A file is replaced as a whole, or not at all. -/
theorem keeps_writeFileAtomic {v : Value action} {afterRename : Bool}
    (heffect : action.effect s = .ok (s₁, v)) (hs : invariant s) (hs₁ : invariant s₁) :
    Keeps invariant (writeFileAtomic action afterRename) (fun _ s' => s' = s₁)
      (fun _ s' => s' = s ∨ s' = s₁) s := by
  -- what is written before the rename is the temporary file only
  have hbody : Keeps invariant
      ((fileOp .writeTemporary).bind fun _ => (fileOp .syncDirectory).bind fun _ =>
        (fileOp action).bind fun _ => (if afterRename then fileOp .hook else .done ()).bind fun _ =>
          fileOp .syncDirectory)
      (fun _ s' => s' = s₁) (fun _ s' => s' = s ∨ s' = s₁) s := by
    refine (keeps_same (v := ()) rfl hs).andThen (fun _ _ h => ?_) fun _ _ => .inl
    obtain rfl := h
    refine (keeps_same (v := ()) rfl hs).andThen (fun _ _ h => ?_) fun _ _ => .inl
    obtain rfl := h
    refine (keeps_effect heffect hs₁).andThen (fun _ _ h => ?_) fun _ _ h => h.2
    rw [h.2]
    have hhook : Keeps invariant
        ((if afterRename then fileOp .hook else .done ()) : Procedure Unit)
        (fun _ s'' => s'' = s₁) (fun _ s'' => s'' = s₁) s₁ := by
      split
      · exact keeps_same (v := ()) rfl hs₁
      · exact rfl
    refine hhook.andThen (fun _ _ h => ?_) fun _ _ => .inr
    rw [h]
    exact (keeps_same (v := ()) rfl hs₁).mono (fun _ _ => id) fun _ _ => .inr
  refine Contract.Ensures.orElse hbody (fun _ _ => id) fun failure s' hs' => ?_
  have hinvariant : invariant s' := by
    obtain rfl | rfl := hs'
    exacts [hs, hs₁]
  refine (keeps_same (v := ()) rfl hinvariant).andThen (fun _ _ h => ?_) fun _ _ h => ?_
  · obtain rfl := h
    exact hs'
  · obtain rfl := h
    exact hs'

end AgentHost.Installation
