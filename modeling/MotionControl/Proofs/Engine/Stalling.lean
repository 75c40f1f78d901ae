import MotionControl.Proofs.Engine.Actuation
import MotionControl.Proofs.Engine.Phases

/-!
# Stalls

An engine is blocked by the stalled cycle that makes the count full, and by no other: not a
cycle earlier, not a cycle later.  The count is carried across cycles, new targets and new
thresholds, and it starts again with every cycle that is not stalled, with every change of the
mode and when the detector is switched off.

- `Engine.Stalled`: the cycle counts.
- `Mark`, `Engine.history`: what a run does to the count, read off the run itself.
- `stalledInARow`: the number of stalled cycles that the history ends with.
- `Engine.Counts`: the detector holds this number, up to the capacity of its counter.
- `Engine.Counts.performAll`: it does so after every run.
- `Engine.stall_trips_exactly`: when a cycle ends in Blocked, and how.
-/

namespace MotionControl

open Outcome Scalar

/-! ## Histories -/

/-- What can happen to the count of stalled cycles in a row. -/
inductive Mark where
  | stalled
  | cleared
  deriving DecidableEq

/-- The number of stalled cycles since the count was cleared last. -/
def stalledInARow (history : List Mark) : Nat :=
  (history.reverse.takeWhile (· = .stalled)).length

/-- One more stalled cycle in a row. -/
theorem stalledInARow_stalled (history : List Mark) :
    stalledInARow (history ++ [.stalled]) = stalledInARow history + 1 := by
  simp [stalledInARow]

/-- A clearance begins a new row. -/
theorem stalledInARow_cleared (history : List Mark) :
    stalledInARow (history ++ [.cleared]) = 0 := by
  simp [stalledInARow]

/-- The counter stays at its end once it is full. -/
theorem toNat_countUp (n : UInt32) : (countUp n).toNat = min (n.toNat + 1) 0xffffffff := by
  have hbound := n.toNat_lt
  unfold countUp
  by_cases hfull : n = 0xffffffff
  · rw [if_pos hfull, hfull]
    rfl
  · have hroom : n.toNat ≠ 0xffffffff := fun h => hfull (UInt32.toNat_inj.mp h)
    rw [if_neg hfull, UInt32.toNat_add]
    show (n.toNat + 1) % 0x100000000 = _
    omega

namespace Engine

variable {α σ : Type} [Scalar α] {e e' : Engine α σ}

/-- The cycle is a stalled one: the engine regulates and watches for stalls, and it is measured
as standing although the order asks for something else. -/
def Stalled (c : Engine α σ) : Prop :=
  c.mode.isRegulating ∧ c.stall.settings.enabled ∧
    abs c.state.speed.distance < c.stall.settings.speedThreshold ∧
    c.stall.settings.errorThreshold < abs (c.state.filtered.distance - c.state.speed.distance)

instance (c : Engine α σ) : Decidable c.Stalled := inferInstanceAs (Decidable (_ ∧ _))

/-- A change of the mode clears the count. -/
def changeMarks (e e' : Engine α σ) : List Mark := if e'.mode = e.mode then [] else [.cleared]

/-- What the cycle itself does to the count. -/
def mark (c : Engine α σ) : Mark := if c.Stalled then .stalled else .cleared

/-- A cycle until it is looked at for a stall.  A waypoint may have changed the mode first. -/
def cycleMarks (e c : Engine α σ) : List Mark := changeMarks e c ++ [c.mark]

/-- A whole cycle: a stall or a timeout may have changed the mode once more. -/
def stepMarks (e : Engine α σ) : List Mark :=
  match e.controlled with
  | .ok c => cycleMarks e c ++ changeMarks c c.supervised
  | .error _ => []

/-- A request: an accepted one may change the mode, or switch the detector off. -/
def requestMarks (e : Engine α σ) (what : Request α) : List Mark :=
  match what with
  | .setStallSettings settings =>
    if settings.enabled = false ∧ (e.setStallSettings settings).isOk then [.cleared] else []
  | _ => changeMarks e (e.request what)

/-- Everything that happens to the count in the course of operations. -/
def history (e : Engine α σ) : List (Operation α) → List Mark
  | [] => []
  | .request what :: rest => e.requestMarks what ++ (e.request what).history rest
  | .step :: rest =>
    e.stepMarks ++ match e.step with
      | .ok e => e.history rest
      | .error _ => []

/-! ## The detector -/

/-- The detector holds the number of stalled cycles in a row, as far as its counter goes.  It
has nothing to count in a mode that does not regulate. -/
structure Counts (history : List Mark) (e : Engine α σ) : Prop where
  cycles : e.stall.cycles.toNat = min (stalledInARow history) 0xffffffff
  idle : e.mode.isRegulating = false → e.stall.cycles = 0

variable {history : List Mark}

omit [Scalar α] in
theorem Counts.of_cleared (h : e.stall.cycles = 0) : Counts (history ++ [.cleared]) e where
  cycles := by
    rw [h, stalledInARow_cleared]
    rfl
  idle _ := h

omit [Scalar α] in
/-- Where no cycle is looked at, the count is kept unless the mode changes. -/
theorem Counts.carried (h : Counts history e)
    (hstall : e'.stall = if e'.mode = e.mode then e.stall else e.stall.reset) :
    Counts (history ++ changeMarks e e') e' := by
  by_cases hmode : e'.mode = e.mode
  · rw [changeMarks, if_pos hmode, List.append_nil]
    rw [if_pos hmode] at hstall
    refine ⟨?_, fun hidle => ?_⟩
    · rw [hstall]
      exact h.cycles
    · rw [hstall]
      exact h.idle (hmode ▸ hidle)
  · rw [changeMarks, if_neg hmode]
    rw [if_neg hmode] at hstall
    exact .of_cleared (by rw [hstall]; rfl)

/-- The detector sees a stalled cycle when it is one. -/
theorem stalled_iff (c : Engine α σ) :
    c.Stalled ↔ c.mode.isRegulating ∧ (c.stall.settings.enabled &&
      c.stall.isStalled c.state.filtered.distance c.state.speed.distance) = true := by
  simp [Stalled, StallDetector.isStalled]

/-- The count after one more stalled cycle. -/
def counted (c : Engine α σ) : UInt32 := countUp c.stall.cycles

/-- The cycle is stalled, and the count is full with it. -/
def Trips (c : Engine α σ) : Prop := c.Stalled ∧ c.stall.settings.cyclesMax ≤ c.counted

/-- A cycle that is not stalled clears the count, if it is looked at. -/
theorem stallChecked_of_not_stalled {c : Engine α σ} (h : ¬ c.Stalled) :
    c.stallChecked.mode = c.mode ∧
      (c.stallChecked.stall.cycles = 0 ∧ c.stallChecked.state.stalledCycles = 0 ∨
        c.mode.isRegulating = false ∧ c.stallChecked.stall = c.stall) := by
  unfold stallChecked
  by_cases hregulating : c.mode.isRegulating = true
  · have hcalm : ¬ (c.stall.settings.enabled &&
        c.stall.isStalled c.state.filtered.distance c.state.speed.distance) = true :=
      fun hsees => h ((stalled_iff c).mpr ⟨hregulating, hsees⟩)
    rw [if_pos hregulating, checkStall, StallDetector.update, if_neg hcalm]
    exact ⟨rfl, .inl ⟨rfl, rfl⟩⟩
  · rw [if_neg hregulating]
    exact ⟨rfl, .inr ⟨Bool.not_eq_true _ ▸ hregulating, rfl⟩⟩

/-- A stalled cycle below the limit is counted. -/
theorem stallChecked_of_below {c : Engine α σ} (h : c.Stalled)
    (hbelow : ¬ c.stall.settings.cyclesMax ≤ c.counted) :
    c.stallChecked.mode = c.mode ∧ c.stallChecked.stall.cycles = c.counted ∧
      c.stallChecked.state.stalledCycles = c.counted := by
  obtain ⟨hregulating, hsees⟩ := (stalled_iff c).mp h
  have hwaits : ¬ decide (c.stall.settings.cyclesMax ≤ countUp c.stall.cycles) = true := by
    rw [decide_eq_true_iff]
    exact hbelow
  rw [stallChecked, if_pos hregulating, checkStall, StallDetector.update, if_pos hsees]
  dsimp only
  rw [if_neg hwaits]
  exact ⟨rfl, rfl, rfl⟩

/-- How a stall ends: in Blocked, with the count on display and a zero command sent. -/
structure Blocked (c e : Engine α σ) : Prop where
  mode : e.mode = .blocked
  status : e.state.status = .blocked
  command : e.state.command = .zero
  shown : e.state.stalledCycles = c.counted
  restarted : e.stall.cycles = 0
  world : e.world = c.actuators.apply c.plant.stillness c.world

/-- Every regulating mode can be blocked. -/
theorem next?_blocked {m : ModeMachine} (h : m.mode.isRegulating) :
    m.next? .blocked = some .blocked := by
  unfold ModeMachine.next?
  revert h
  cases m.mode with
  | running | runningSpeed => exact fun _ => rfl
  | stop | idle | blocked | passthrough =>
    rintro ⟨⟩

/-- A regulating mode is left for Blocked by entering it. -/
theorem accept_blocked (h : e.mode.isRegulating) :
    e.accept .blocked
      = .ok (({ e with machine := e.machine.move .blocked .blocked } : Engine α σ).enter
          .blocked) := by
  refine accept_eq_ok_iff.mpr ⟨.blocked, next?_blocked h, ?_⟩
  have hchanged : (Transition.mk e.machine.mode .blocked).changed := by
    unfold mode at h
    revert h
    cases e.machine.mode <;> simp [Transition.changed, Mode.isRegulating]
  unfold arrive
  extract_lets moved entered
  rw [if_neg (by decide)]
  exact (if_pos hchanged).symm

/-- A stalled cycle at the limit blocks the engine. -/
theorem stallChecked_of_trips {c : Engine α σ} (h : c.Trips) : Blocked c c.stallChecked := by
  obtain ⟨hregulating, hsees⟩ := (stalled_iff c).mp h.1
  have hfull : decide (c.stall.settings.cyclesMax ≤ countUp c.stall.cycles) = true :=
    decide_eq_true h.2
  have haccept := accept_blocked (e := { c with
    stall := { c.stall with cycles := countUp c.stall.cycles }
    state := { c.state with stalledCycles := countUp c.stall.cycles } }) hregulating
  rw [stallChecked, if_pos hregulating, checkStall, StallDetector.update, if_pos hsees]
  dsimp only
  rw [if_pos hfull, haccept]
  exact ⟨rfl, rfl, rfl, rfl, rfl, rfl⟩

/-- A blocked engine is not looked at any further. -/
theorem supervised_eq_of_trips {c : Engine α σ} (h : c.Trips) :
    ∃ telemetry, c.supervised = { c.stallChecked with telemetry } := by
  refine supervised_of_ne_running ?_
  rw [(stallChecked_of_trips h).mode]
  decide

theorem supervised_of_trips {c : Engine α σ} (h : c.Trips) : Blocked c c.supervised := by
  have hblocked := stallChecked_of_trips h
  obtain ⟨telemetry, hsupervised⟩ := supervised_eq_of_trips h
  rw [hsupervised]
  exact ⟨hblocked.mode, hblocked.status, hblocked.command, hblocked.shown, hblocked.restarted,
    hblocked.world⟩

/-- Otherwise the mode stays. -/
theorem stallChecked_mode {c : Engine α σ} (h : ¬ c.Trips) : c.stallChecked.mode = c.mode := by
  by_cases hstalled : c.Stalled
  · exact (stallChecked_of_below hstalled fun hfull => h ⟨hstalled, hfull⟩).1
  · exact (stallChecked_of_not_stalled hstalled).1

/-- The detector counts the cycle, or clears the count. -/
theorem Counts.stallChecked {c : Engine α σ} (h : Counts history c) (htrips : ¬ c.Trips) :
    Counts (history ++ [c.mark]) c.stallChecked := by
  by_cases hstalled : c.Stalled
  · obtain ⟨hmode, hcycles, -⟩ :=
      stallChecked_of_below hstalled fun hfull => htrips ⟨hstalled, hfull⟩
    rw [mark, if_pos hstalled]
    refine ⟨?_, fun hidle => ?_⟩
    · rw [hcycles, counted, toNat_countUp, h.cycles, stalledInARow_stalled]
      omega
    · have hregulating : c.mode.isRegulating = true := hstalled.1
      rw [hmode, hregulating] at hidle
      cases hidle
  · rw [mark, if_neg hstalled]
    refine .of_cleared ?_
    obtain ⟨hcleared, -⟩ | ⟨hidle, hkept⟩ := (stallChecked_of_not_stalled hstalled).2
    · exact hcleared
    · rw [hkept]
      exact h.idle hidle

theorem supervised_carried (c : Engine α σ) : Carried c.stallChecked c.supervised := by
  obtain halike | ⟨hcarried, -⟩ := supervised_spec c
  · exact .of_alike halike
  · exact hcarried

/-- The count goes through the second half of a cycle. -/
theorem Counts.supervised {c : Engine α σ} (h : Counts history c) :
    Counts (history ++ [c.mark] ++ changeMarks c c.supervised) c.supervised := by
  by_cases htrips : c.Trips
  · have hblocked := supervised_of_trips htrips
    have hchanged : c.supervised.mode ≠ c.mode := by
      have hregulating : c.mode.isRegulating = true := htrips.1.1
      intro hsame
      rw [← hsame, hblocked.mode] at hregulating
      cases hregulating
    rw [changeMarks, if_neg hchanged]
    exact .of_cleared hblocked.restarted
  · have hmode := stallChecked_mode htrips
    have hcarried := (h.stallChecked htrips).carried (supervised_carried c).stall
    rwa [changeMarks, hmode] at hcarried

/-! ## Runs -/

/-- A cycle counts what its marks say. -/
theorem Counts.step (h : Counts history e) (hstep : e.step = .ok e') :
    Counts (history ++ e.stepMarks) e' := by
  obtain ⟨c, hc, rfl⟩ := step_eq_ok_iff.mp hstep
  have hcontrolled : Counts (history ++ changeMarks e c) c := h.carried (controlled_stall hc)
  have hsupervised := hcontrolled.supervised
  rw [stepMarks, hc]
  simpa [cycleMarks] using hsupervised

/-- So does a request. -/
theorem Counts.request (h : Counts history e) (what : Request α) :
    Counts (history ++ e.requestMarks what) (e.request what) := by
  cases what with
  | setStallSettings settings =>
    rw [Engine.request, requestMarks, granted]
    cases hset : e.setStallSettings settings with
    | error reason =>
      rw [if_neg (by rintro ⟨-, ⟨⟩⟩), List.append_nil]
      exact h
    | ok e' =>
      show Counts _ e'
      rw [setStallSettings_eq_ok hset]
      by_cases henabled : settings.enabled
      · rw [if_pos henabled, if_neg (fun hoff => absurd hoff.1 (by simp [henabled])),
          List.append_nil]
        exact ⟨h.cycles, h.idle⟩
      · rw [if_neg henabled, if_pos ⟨by simpa using henabled, rfl⟩]
        exact .of_cleared rfl
  | _ => exact h.carried (request_carried e (by rintro _ ⟨⟩)).stall

/-- After any operations, the detector holds the number of stalled cycles in a row. -/
theorem Counts.performAll {operations : List (Operation α)} (h : Counts history e)
    (hrun : e.performAll operations = .ok e') :
    Counts (history ++ e.history operations) e' := by
  -- The history so far is general: each operation adds its own marks to it.
  induction operations generalizing e history with
  | nil =>
    cases hrun
    rwa [Engine.history, List.append_nil]
  | cons operation rest ih =>
    obtain ⟨e₁, hfirst, hrest⟩ := bind_eq_ok_iff.mp hrun
    cases operation with
    | step =>
      have hstep : e.step = .ok e₁ := hfirst
      rw [Engine.history, hstep, ← List.append_assoc]
      exact ih (h.step hstep) hrest
    | request what =>
      cases hfirst
      rw [Engine.history, ← List.append_assoc]
      exact ih (h.request what) hrest

/-- An engine begins with nothing counted. -/
theorem Built.counts (h : Built e) : Counts [] e where
  cycles := by
    rw [h.uncounted.2.1]
    rfl
  idle _ := h.uncounted.2.1

/-- A cycle in which the engine was not blocked before ends in Blocked when it trips, and only
then. -/
theorem blocked_iff_trips {c : Engine α σ} (hc : e.controlled = .ok c) :
    e.mode ≠ .blocked ∧ c.supervised.mode = .blocked ↔ c.Trips := by
  constructor
  · rintro ⟨hmode, hblocked⟩
    refine Classical.byContradiction fun htrips => ?_
    obtain halike | ⟨-, hidle⟩ := supervised_spec c
    · rw [halike.mode, stallChecked_mode htrips] at hblocked
      obtain hkept | ⟨-, hrunning⟩ := controlled_mode hc
      · exact hmode (hkept.symm.trans hblocked)
      · rw [hrunning] at hblocked
        cases hblocked
    · rw [hidle] at hblocked
      cases hblocked
  · intro htrips
    refine ⟨fun hmode => ?_, (supervised_of_trips htrips).mode⟩
    -- No waypoint is loaded in Blocked, so that the cycle would have run in it.
    have hregulating : c.mode.isRegulating = true := htrips.1.1
    obtain hkept | ⟨hloads, -⟩ := controlled_mode hc
    · rw [hkept, hmode] at hregulating
      cases hregulating
    · rw [hmode] at hloads
      cases hloads

/-- The count is full when there were enough stalled cycles in a row. -/
theorem Counts.trips_iff {c : Engine α σ} (h : Counts history c) :
    c.Trips ↔ c.Stalled ∧
      c.stall.settings.cyclesMax.toNat ≤ stalledInARow (history ++ [c.mark]) := by
  refine and_congr_right fun hstalled => ?_
  have hmax := c.stall.settings.cyclesMax.toNat_lt
  rw [UInt32.le_iff_toNat_le, counted, toNat_countUp, h.cycles, mark, if_pos hstalled,
    stalledInARow_stalled]
  omega

/-- After any operations on a fresh engine, take one more cycle.  It blocks the engine exactly
when it is stalled and the stalled cycles in a row, itself included, are as many as the
detector's limit asks for by then.  It leaves the status Blocked, a zero command, which the
actuators were sent, and the number of these cycles on display, as far as the counter goes. -/
theorem stall_trips_exactly {operations : List (Operation α)} {e₁ e₂ : Engine α σ}
    (hbuilt : Built e) (hrun : e.performAll operations = .ok e₁) (hstep : e₁.step = .ok e₂) :
    ∃ c, e₁.controlled = .ok c ∧
      (e₁.mode ≠ .blocked ∧ e₂.mode = .blocked ↔
        c.Stalled ∧ c.stall.settings.cyclesMax.toNat
          ≤ stalledInARow (e.history operations ++ e₁.cycleMarks c)) ∧
      (e₁.mode ≠ .blocked → e₂.mode = .blocked →
        e₂.state.status = .blocked ∧ e₂.state.command = .zero ∧
          e₂.world = c.actuators.apply c.plant.stillness c.world ∧
          e₂.state.stalledCycles.toNat
            = min (stalledInARow (e.history operations ++ e₁.cycleMarks c)) 0xffffffff) := by
  obtain ⟨c, hc, rfl⟩ := step_eq_ok_iff.mp hstep
  have hcounts : Counts (e.history operations ++ changeMarks e₁ c) c :=
    (hbuilt.counts.performAll hrun).carried (controlled_stall hc)
  refine ⟨c, hc, ?_⟩
  rw [cycleMarks, ← List.append_assoc, ← hcounts.trips_iff]
  refine ⟨blocked_iff_trips hc, fun hmode hblocked => ?_⟩
  have htrips := (blocked_iff_trips hc).mp ⟨hmode, hblocked⟩
  have hends := supervised_of_trips htrips
  refine ⟨hends.status, hends.command, hends.world, ?_⟩
  rw [hends.shown, counted, toNat_countUp, hcounts.cycles, mark, if_pos htrips.1,
    stalledInARow_stalled]
  omega

/-- The axis that never turns, with nobody writing down its calls. -/
def stuckLift : Except (EngineError Float) (Engine Float Unit) :=
  ofMotor (.named "lift") 1 stuckEncoder slackActuators .none ()

/-- A speed target and one of the two cycles that it takes to stall. -/
def almostStalled : List (Operation Float) :=
  [.request .enable, .request (.setStallSettings ⟨true, 1, 1, 2⟩),
    .request (.setSpeedTarget (.speed 100 0)), .step]

/-- The second cycle blocks the axis, and is the second one on display. -/
theorem stuckLift_trips :
    ∃ e e₁ e₂ c, stuckLift = .ok e ∧ e.performAll almostStalled = .ok e₁ ∧ e₁.step = .ok e₂ ∧
      e₁.controlled = .ok c ∧ e₁.mode = .runningSpeed ∧ e₂.mode = .blocked ∧
      (c.Stalled ∧ c.stall.settings.cyclesMax.toNat
        ≤ stalledInARow (e.history almostStalled ++ e₁.cycleMarks c)) ∧
      e₂.state.status = .blocked ∧ e₂.state.command = .zero ∧
      e₂.state.stalledCycles.toNat
        = min (stalledInARow (e.history almostStalled ++ e₁.cycleMarks c)) 0xffffffff := by
  have hstalls : (stuckLift.toOption.bind fun e => (e.performAll almostStalled).toOption.bind
      fun e₁ => e₁.step.toOption.map fun e₂ => (e₁.mode, e₂.mode))
        = some (.runningSpeed, .blocked) := by decide +kernel
  obtain ⟨e, hbuilt, hran⟩ := Option.bind_eq_some_iff.mp hstalls
  obtain ⟨e₁, hrun, hran⟩ := Option.bind_eq_some_iff.mp hran
  obtain ⟨e₂, hstep, hmodes⟩ := Option.map_eq_some_iff.mp hran
  rw [toOption_eq_some_iff] at hbuilt hrun hstep
  rw [Prod.mk.injEq] at hmodes
  have hbefore : e₁.mode ≠ .blocked := by
    rw [hmodes.1]
    decide
  obtain ⟨c, hc, htrips, hends⟩ := stall_trips_exactly (.motor hbuilt) hrun hstep
  obtain ⟨hstatus, hcommand, -, hshown⟩ := hends hbefore hmodes.2
  exact ⟨e, e₁, e₂, c, hbuilt, hrun, hstep, hc, hmodes.1, hmodes.2,
    htrips.mp ⟨hbefore, hmodes.2⟩, hstatus, hcommand, hshown⟩

end Engine

end MotionControl
