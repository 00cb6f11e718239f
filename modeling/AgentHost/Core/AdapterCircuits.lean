import AgentHost.Core.AgentStore

namespace AgentHost

/-!
# The circuit of an adapter

* `Circuit.admit`, `record`, `discardProbe` — the functions of the registry that change a circuit.
* `failureTimes` — the times of the counted failures since the last success, from what the attempts
  of an adapter ended with.
* `Circuit.Ok` — the invariant, with one lemma for each of the functions.
-/

inductive CircuitPhase
  | closed
  | opened
  | halfOpen
  deriving DecidableEq

/-- The circuit of an adapter; `lastForcedProbeAt` is missing for `-Infinity`. -/
structure Circuit where
  phase : CircuitPhase
  consecutiveFailures : Nat
  nextAttemptAt : Int
  probeInFlight : Bool
  lastForcedProbeAt : Option Int
  deriving DecidableEq

/-- What is recorded of an attempt: the adapter answered, failed, or still had a flight that had
    timed out. -/
inductive CircuitOutcome
  | success
  | failure
  | reused
  deriving DecidableEq

/-- How an attempt ended for the circuit: recorded, at what time, or superseded. -/
inductive CircuitReport
  | recorded (outcome : CircuitOutcome) (time : Int)
  | superseded
  deriving DecidableEq

/-- The times of the failures since the last success; neither a reused flight nor a superseded one
    counts. -/
def failureTimes (reports : List CircuitReport) : List Int :=
  reports.foldl
    (fun times report =>
      match report with
      | .recorded .success _ => []
      | .recorded .failure time => times ++ [time]
      | .recorded .reused _ | .superseded => times)
    []

variable {δ κ : Type} (cfg : RegistryConfig δ κ)

/-- The wait after the `n`-th consecutive failure. -/
def circuitDelay (n : Nat) : Nat := min cfg.circuitMaxMs (cfg.circuitBaseMs * 2 ^ (n - 1))

namespace Circuit

/-- The circuit an adapter starts with. -/
def initial : Circuit where
  phase := .closed
  consecutiveFailures := 0
  nextAttemptAt := 0
  probeInFlight := false
  lastForcedProbeAt := none

variable (c : Circuit)

/-- The phase of a circuit without a probe. -/
def restingPhase (failures : Nat) : CircuitPhase :=
  if cfg.circuitThreshold ≤ failures then .opened else .closed

/-- The last forced probe is too recent for another one. -/
def probedRecently (now : Int) : Bool :=
  c.lastForcedProbeAt.any fun last => now - last < cfg.forcedProbeMinMs

/-- A circuit with a probe in flight. -/
def startProbe : Circuit := { c with phase := .halfOpen, probeInFlight := true }

/-- `#admitAdapter`: whether an attempt is allowed, and as a probe. -/
def admitAdapter (force : Bool) (now : Int) : Circuit × Option Bool :=
  if c.probeInFlight then (c, none)
  else if force then
    if c.consecutiveFailures > 0 && c.probedRecently cfg now then (c, none)
    else if c.phase != .closed || c.consecutiveFailures > 0 then
      ({ c.startProbe with lastForcedProbeAt := some now }, some true)
    else (c, some false)
  else if now < c.nextAttemptAt then (c, none)
  else if c.phase = .opened then (c.startProbe, some true)
  else (c, some false)

/-- `#recordCircuitOutcome`. -/
def recordCircuitOutcome (outcome : CircuitOutcome) (now : Int) : Circuit :=
  match outcome with
  | .success =>
    { c with phase := .closed, consecutiveFailures := 0, nextAttemptAt := 0, probeInFlight := false }
  | .reused =>
    { c with
      phase := restingPhase cfg c.consecutiveFailures
      probeInFlight := false
      lastForcedProbeAt := none }
  | .failure =>
    { c with
      phase := restingPhase cfg (c.consecutiveFailures + 1)
      consecutiveFailures := c.consecutiveFailures + 1
      nextAttemptAt := now + circuitDelay cfg (c.consecutiveFailures + 1)
      probeInFlight := false }

/-- `#discardCircuitProbe`. -/
def discardCircuitProbe (probe : Bool) : Circuit :=
  if probe then
    { c with
      phase := restingPhase cfg c.consecutiveFailures
      probeInFlight := false
      lastForcedProbeAt := none }
  else c

/-- The end of an attempt. -/
def report (probe : Bool) : CircuitReport → Circuit
  | .recorded outcome now => c.recordCircuitOutcome cfg outcome now
  | .superseded => c.discardCircuitProbe cfg probe

/-! ### The invariant -/

/-- A circuit after the attempts `reports` have ended. -/
structure Ok (reports : List CircuitReport) : Prop where
  halfOpen : c.phase = .halfOpen ↔ c.probeInFlight = true
  resting : c.probeInFlight = false → c.phase = restingPhase cfg c.consecutiveFailures
  failures : c.consecutiveFailures = (failureTimes reports).length
  nextAttemptAt : c.nextAttemptAt = (failureTimes reports).getLast?.elim 0 fun time =>
    time + circuitDelay cfg c.consecutiveFailures

variable {cfg c} {reports : List CircuitReport}

theorem restingPhase_ne_halfOpen (failures : Nat) : restingPhase cfg failures ≠ .halfOpen := by
  unfold restingPhase
  split <;> nofun

theorem ok_initial : Ok cfg initial [] where
  halfOpen := by simp [initial]
  resting := fun _ => (if_neg (Nat.not_le.mpr cfg.circuitThreshold_pos)).symm
  failures := rfl
  nextAttemptAt := rfl

theorem failureTimes_append (reports : List CircuitReport) (report : CircuitReport) : failureTimes (reports ++ [report]) =
    match report with
    | .recorded .success _ => []
    | .recorded .failure time => failureTimes reports ++ [time]
    | .recorded .reused _ | .superseded => failureTimes reports := by
  rw [failureTimes, List.foldl_append]
  rfl

/-- Whatever is only counted as before, without a probe. -/
theorem Ok.rest (h : Ok cfg c reports) {reports' : List CircuitReport} {last : Option Int}
    (hreports : failureTimes reports' = failureTimes reports) :
    Ok cfg
      { c with
        phase := restingPhase cfg c.consecutiveFailures
        probeInFlight := false
        lastForcedProbeAt := last }
      reports' where
  halfOpen := iff_of_false (restingPhase_ne_halfOpen _) nofun
  resting := fun _ => rfl
  failures := hreports ▸ h.failures
  nextAttemptAt := hreports ▸ h.nextAttemptAt

theorem Ok.probe (h : Ok cfg c reports) {last : Option Int} :
    Ok cfg { c.startProbe with lastForcedProbeAt := last } reports where
  halfOpen := iff_of_true rfl rfl
  resting := nofun
  failures := h.failures
  nextAttemptAt := h.nextAttemptAt

theorem Ok.admitAdapter (h : Ok cfg c reports) (force : Bool) (now : Int) :
    Ok cfg (c.admitAdapter cfg force now).1 reports := by
  unfold Circuit.admitAdapter
  split
  · exact h
  · split
    · split
      · exact h
      · split
        · exact h.probe
        · exact h
    · split
      · exact h
      · split
        · exact h.probe
        · exact h

/-- The end of an attempt counts what `failureTimes` counts. -/
theorem Ok.report (h : Ok cfg c reports) (probe : Bool) (report : CircuitReport) :
    Ok cfg (c.report cfg probe report) (reports ++ [report]) := by
  have htimes := failureTimes_append reports report
  cases report with
  | superseded =>
    simp only [Circuit.report, discardCircuitProbe]
    split
    · exact h.rest htimes
    · exact ⟨h.halfOpen, h.resting, htimes ▸ h.failures, htimes ▸ h.nextAttemptAt⟩
  | recorded outcome now =>
    cases outcome with
    | success =>
      refine ⟨iff_of_false nofun nofun, fun _ => ?_, htimes ▸ rfl, htimes ▸ rfl⟩
      exact (if_neg (Nat.not_le.mpr cfg.circuitThreshold_pos)).symm
    | reused => exact h.rest htimes
    | failure =>
      refine ⟨iff_of_false (restingPhase_ne_halfOpen _) nofun, fun _ => rfl, ?_, ?_⟩
      · rw [htimes, List.length_append, ← h.failures]
        rfl
      · rw [htimes, List.getLast?_concat]
        rfl

/-- An attempt is admitted while no probe is in flight; what is in flight then is that attempt, if
    it is a probe. -/
theorem admitAdapter_probeInFlight (cfg : RegistryConfig δ κ) (c : Circuit) (force : Bool) (now : Int) :
    (c.admitAdapter cfg force now).1.probeInFlight = true ↔
      c.probeInFlight = true ∨ (c.admitAdapter cfg force now).2 = some true := by
  unfold admitAdapter startProbe
  grind

theorem admitAdapter_of_probeInFlight {force : Bool} {now : Int} (h : c.probeInFlight = true) :
    c.admitAdapter cfg force now = (c, none) := by
  simp [admitAdapter, h]

/-- No unforced attempt is admitted before its time. -/
theorem nextAttemptAt_le_of_admitted {now : Int}
    (h : (c.admitAdapter cfg false now).2 ≠ none) : c.nextAttemptAt ≤ now := by
  unfold admitAdapter at h
  grind

/-- The end of an attempt of its own clears the probe. -/
theorem probeInFlight_report {probe : Bool} {report : CircuitReport}
    (h : report = .superseded → c.probeInFlight = true → probe = true) :
    (c.report cfg probe report).probeInFlight = false := by
  cases report with
  | recorded outcome now => cases outcome <;> rfl
  | superseded =>
    simp only [Circuit.report, discardCircuitProbe]
    split
    · rfl
    · next hprobe => simpa [hprobe] using h rfl

end Circuit

end AgentHost
