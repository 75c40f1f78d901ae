import MotionControl.Proofs.Engine.Arrival
import MotionControl.Proofs.Engine.FaultFree
import MotionControl.Proofs.Engine.Stalling

/-!
# How a cycle in Running ends

Three things are looked for at the end of a cycle, in this order: a stall, arrival, and a
timeout.  The first that is found decides how the cycle ends, and the others are not looked
for.

- `Hooks.Discreet`: hooks that leave the state alone.
- `Engine.Commanded`, `Engine.controlled_commanded`: with them, the first half of a cycle
  works out a command and changes nothing else.
- `Engine.Overlooked`, `Engine.supervised_overlooked`: what the second half leaves alone.
- `Engine.Arrives`: the cycle finds its target reached.
- `Engine.supervised_of_reached`, `Engine.supervised_of_arrives`,
  `Engine.supervised_of_expired`, `Engine.supervised_of_pending`: the four ends of a cycle that
  does not trip the stall detector.
- `Engine.supervised_reached_iff`: what makes a target reached.
- `Engine.midway`: the engine within the cycle that follows a number of others.
-/

namespace MotionControl

open Outcome

/-- Hooks that leave the state alone.  They may give a cycle up. -/
structure Hooks.Discreet {α σ : Type} (h : Hooks α σ) : Prop where
  before : ∀ {state world state' world'},
    h.beforeControl state world = (.ok state', world') → state' = state
  after : ∀ state world, (h.afterControl state world).1 = state

/-- Hooks that do nothing are discreet. -/
theorem Hooks.idle_discreet {α σ : Type} : (Hooks.idle : Hooks α σ).Discreet where
  before := by
    rintro state world _ _ ⟨⟩
    rfl
  after _ _ := rfl

namespace Engine

variable {α σ : Type} [Scalar α] {e e' c : Engine α σ} {n : Nat}

/-! ## The first half -/

/-- A command was worked out and shown, and the mode with it.  Nothing else is different, apart
from the tree and the world. -/
structure Commanded (e e' : Engine α σ) : Prop where
  parameters : e'.parameters = e.parameters
  machine : e'.machine = e.machine
  stall : e'.stall = e.stall
  arrival : e'.arrival = e.arrival
  plant : e'.plant = e.plant
  actuators : e'.actuators = e.actuators
  hooks : e'.hooks = e.hooks
  pathLoaded : e'.pathLoaded = e.pathLoaded
  state : ∃ command filtered mode, e'.state = { e.state with command, filtered, mode }

omit [Scalar α] in
theorem Commanded.trans {e'' : Engine α σ} (h : Commanded e e') (h' : Commanded e' e'') :
    Commanded e e'' where
  parameters := h'.parameters.trans h.parameters
  machine := h'.machine.trans h.machine
  stall := h'.stall.trans h.stall
  arrival := h'.arrival.trans h.arrival
  plant := h'.plant.trans h.plant
  actuators := h'.actuators.trans h.actuators
  hooks := h'.hooks.trans h.hooks
  pathLoaded := h'.pathLoaded.trans h.pathLoaded
  state := by
    obtain ⟨_, _, _, hstate⟩ := h.state
    obtain ⟨command, filtered, mode, hstate'⟩ := h'.state
    refine ⟨command, filtered, mode, ?_⟩
    rw [hstate', hstate]

omit [Scalar α] in
theorem beforeControl_commanded (h : e.hooks.Discreet) (hok : e.beforeControl = .ok e') :
    Commanded e e' := by
  have hreadied := beforeControl_spec e
  rw [hok] at hreadied
  cases hreadied with
  | ready ran =>
    cases h.before ran
    exact ⟨rfl, rfl, rfl, rfl, rfl, rfl, rfl, rfl, _, _, _, rfl⟩

omit [Scalar α] in
theorem afterControl_commanded (h : e.hooks.Discreet) : Commanded e e.afterControl :=
  ⟨rfl, rfl, rfl, rfl, rfl, rfl, rfl, rfl, _, _, _, h.after e.state e.world⟩

theorem control_commanded (h : e.control = .ok e') : Commanded e e' := by
  cases steered_of_control h with
  | shown | sent => exact ⟨rfl, rfl, rfl, rfl, rfl, rfl, rfl, rfl, _, _, _, rfl⟩

/-- Once the waypoint is loaded and the measurement taken, the first half of a cycle works out
a command and changes nothing else. -/
theorem controlled_commanded (h : e.hooks.Discreet) (hc : e.controlled = .ok c) :
    Commanded e.tick.followPath.sense c := by
  obtain ⟨ready, hready, hc⟩ := bind_eq_ok_iff.mp hc
  obtain ⟨driven, hdriven, hc⟩ := bind_eq_ok_iff.mp hc
  cases hc
  rw [← (sensed_maintained e).hooks] at h
  have hbefore := (beforeControl_commanded h hready).trans (control_commanded hdriven)
  exact hbefore.trans (afterControl_commanded (hbefore.hooks ▸ h))

/-- Without a source of targets no path is followed. -/
theorem followPath_of_no_targets (h : e.plant.targets? = none) : e.followPath = e := by
  unfold followPath nextWaypoint
  rw [h]
  exact ite_self e

/-- Nor is it when following is switched off. -/
theorem followPath_of_off (h : e.state.pathFollow = false) : e.followPath = e := by
  unfold followPath
  rw [h]
  rfl

/-! ## The second half -/

/-- What was measured and what was told is the same, and nobody dropped a waypoint. -/
structure Overlooked (e e' : Engine α σ) : Prop where
  parameters : e'.parameters = e.parameters
  plant : e'.plant = e.plant
  actuators : e'.actuators = e.actuators
  hooks : e'.hooks = e.hooks
  pathLoaded : e'.pathLoaded = e.pathLoaded
  tolerances : e'.arrival.settings = e.arrival.settings
  pose : e'.state.pose = e.state.pose
  target : e'.state.target = e.state.target
  cycle : e'.state.cycle = e.state.cycle
  commandCycle : e'.state.commandCycle = e.state.commandCycle
  pathFollow : e'.state.pathFollow = e.state.pathFollow

namespace Overlooked

omit [Scalar α] in
theorem refl (e : Engine α σ) : Overlooked e e :=
  ⟨rfl, rfl, rfl, rfl, rfl, rfl, rfl, rfl, rfl, rfl, rfl⟩

omit [Scalar α] in
theorem trans {e'' : Engine α σ} (h : Overlooked e e') (h' : Overlooked e' e'') :
    Overlooked e e'' where
  parameters := h'.parameters.trans h.parameters
  plant := h'.plant.trans h.plant
  actuators := h'.actuators.trans h.actuators
  hooks := h'.hooks.trans h.hooks
  pathLoaded := h'.pathLoaded.trans h.pathLoaded
  tolerances := h'.tolerances.trans h.tolerances
  pose := h'.pose.trans h.pose
  target := h'.target.trans h.target
  cycle := h'.cycle.trans h.cycle
  commandCycle := h'.commandCycle.trans h.commandCycle
  pathFollow := h'.pathFollow.trans h.pathFollow

end Overlooked

/-- Entering a mode leaves target and progress alone. -/
theorem enter_overlooked (e : Engine α σ) (target : Mode) :
    Overlooked e (e.enter target) ∧ (e.enter target).state.reached = e.state.reached := by
  cases target with
  | stop | idle | blocked | running | runningSpeed | passthrough =>
    exact ⟨⟨rfl, rfl, rfl, rfl, rfl, rfl, rfl, rfl, rfl, rfl, rfl⟩, rfl⟩

/-- No event but a recovery begins a command. -/
theorem accept_overlooked {event : ModeEvent} (hevent : event ≠ .recover)
    (h : e.accept event = .ok e') : Overlooked e e' ∧ e'.state.reached = e.state.reached := by
  obtain ⟨target, -, rfl⟩ := accept_eq_ok_iff.mp h
  have hmoved : Overlooked e { e with machine := e.machine.move event target } :=
    ⟨rfl, rfl, rfl, rfl, rfl, rfl, rfl, rfl, rfl, rfl, rfl⟩
  refine arrive_cases (I := fun e' => Overlooked e e' ∧ e'.state.reached = e.state.reached)
    (fun _ => ⟨hmoved, rfl⟩) (fun _ => ?_) fun hrecover => absurd hrecover hevent
  obtain ⟨hsame, hreached⟩ :=
    enter_overlooked ({ e with machine := e.machine.move event target } : Engine α σ) target
  exact ⟨hmoved.trans hsame, hreached⟩

/-- The engine with another count, in the detector and on display. -/
def recounted (c : Engine α σ) (stall : StallDetector α) (stalledCycles : UInt32) : Engine α σ :=
  { c with stall, state := { c.state with stalledCycles } }

/-- A cycle that does not trip leaves its mark on the count, and goes on. -/
theorem stallChecked_of_not_trips (h : ¬ c.Trips) :
    ∃ stall stalledCycles, c.stallChecked = c.recounted stall stalledCycles := by
  by_cases hregulating : c.mode.isRegulating = true
  · rw [stallChecked, if_pos hregulating, checkStall, StallDetector.update]
    by_cases hsees : (c.stall.settings.enabled &&
        c.stall.isStalled c.state.filtered.distance c.state.speed.distance) = true
    · have hwaits : ¬ decide (c.stall.settings.cyclesMax ≤ countUp c.stall.cycles) = true := by
        intro hfull
        exact h ⟨(stalled_iff c).mpr ⟨hregulating, hsees⟩, of_decide_eq_true hfull⟩
      rw [if_pos hsees]
      dsimp only
      rw [if_neg hwaits]
      exact ⟨_, _, rfl⟩
    · rw [if_neg hsees]
      exact ⟨_, _, rfl⟩
  · rw [stallChecked, if_neg hregulating]
    exact ⟨c.stall, c.state.stalledCycles, rfl⟩

/-- Nor is a stall an arrival. -/
theorem StallLook.overlooked (h : StallLook e e') :
    Overlooked e e' ∧ e'.state.reached = e.state.reached := by
  cases h with
  | counted stall => exact ⟨⟨rfl, rfl, rfl, rfl, rfl, rfl, rfl, rfl, rfl, rfl, rfl⟩, rfl⟩
  | tripped accepted =>
    obtain ⟨hsame, hreached⟩ := accept_overlooked (by decide) accepted
    exact ⟨⟨hsame.parameters, hsame.plant, hsame.actuators, hsame.hooks, hsame.pathLoaded,
      hsame.tolerances, hsame.pose, hsame.target, hsame.cycle, hsame.commandCycle,
      hsame.pathFollow⟩, hreached⟩

theorem supervised_reached_of_trips (h : c.Trips) :
    c.supervised.state.reached = c.state.reached := by
  obtain ⟨telemetry, hsupervised⟩ := supervised_eq_of_trips h
  rw [hsupervised, stallChecked, if_pos ((stalled_iff c).mp h.1).1]
  exact (checkStall_spec c).overlooked.2

/-- The cycle finds its target reached. -/
def Arrives (c : Engine α σ) : Prop :=
  (c.arrival.judge c.state.pose c.state.target).1.isReached = true

instance (c : Engine α σ) : Decidable c.Arrives := inferInstanceAs (Decidable (_ = true))

instance (c : Engine α σ) : Decidable c.Trips := inferInstanceAs (Decidable (_ ∧ _))

theorem checkArrival_of_reached (h : e.state.reached = true) : e.checkArrival = e := if_pos h

/-- A target that is arrived at becomes reached, with the status of the judge. -/
theorem checkArrival_of_arrives (h : e.state.reached = false) (harrives : e.Arrives) :
    e.checkArrival.state.reached = true ∧
      e.checkArrival.state.status = (e.arrival.judge e.state.pose e.state.target).1 := by
  unfold checkArrival
  rw [if_neg (Bool.eq_false_iff.mp h)]
  dsimp only
  rw [if_pos (show _ = true from harrives)]
  exact ⟨rfl, rfl⟩

/-- Otherwise only the judge may have latched the place. -/
theorem checkArrival_of_not_arrives (h : e.state.reached = false) (harrives : ¬ e.Arrives) :
    e.checkArrival
      = { e with arrival := (e.arrival.judge e.state.pose e.state.target).2 } := by
  unfold checkArrival
  rw [if_neg (Bool.eq_false_iff.mp h)]
  dsimp only
  rw [if_neg (show ¬ _ = true from harrives)]

theorem ArrivalLook.overlooked (h : ArrivalLook e e') : Overlooked e e' := by
  have hsettings := e.arrival.judge_settings e.state.pose e.state.target
  cases h with
  | before reached => exact .refl e
  | away unreached judged moving =>
    rw [judged] at hsettings
    exact ⟨rfl, rfl, rfl, rfl, rfl, hsettings, rfl, rfl, rfl, rfl, rfl⟩
  | arrived unreached judged there shown =>
    rw [judged] at hsettings
    rw [shown]
    exact ⟨rfl, rfl, rfl, rfl, rfl, hsettings, rfl, rfl, rfl, rfl, rfl⟩

theorem checkTimeout_of_reached (h : e.state.reached = true) : e.checkTimeout = e := by
  refine if_neg ?_
  rw [h]
  exact Bool.false_ne_true

theorem checkTimeout_of_pending (h : e.parameters.timedOut e.state = false) :
    e.checkTimeout = e := by
  refine if_neg ?_
  rw [h, Bool.and_false]
  exact Bool.false_ne_true

/-- How a timeout ends: in Idle, with the target given up and a zero command sent. -/
structure GivenUp (c e : Engine α σ) : Prop where
  mode : e.mode = .idle
  status : e.state.status = .timeout
  command : e.state.command = .zero
  reached : e.state.reached = false
  world : e.world = c.actuators.apply c.plant.stillness c.world

/-- A command that is not reached in time is given up. -/
theorem checkTimeout_of_expired (hmode : e.mode = .running) (hreached : e.state.reached = false)
    (h : e.parameters.timedOut e.state = true) : GivenUp e e.checkTimeout := by
  have hforced : e.machine.forceIdle = { e.machine with mode := .idle } := by
    refine if_neg ?_
    rw [show e.machine.mode = .running from hmode]
    decide
  have hexpired : (!e.state.reached && e.parameters.timedOut e.state) = true := by
    rw [hreached, h]
    rfl
  unfold checkTimeout
  rw [if_pos hexpired, hforced]
  exact ⟨rfl, rfl, rfl, hreached, rfl⟩

theorem TimeoutLook.overlooked (h : TimeoutLook e e') : Overlooked e e' := by
  cases h with
  | pending => exact .refl e
  | expired unreached expired entered =>
    rw [entered]
    have hidle :=
      (enter_overlooked { e with machine := e.machine.forceIdle } e.machine.forceIdle.mode).1
    exact ⟨hidle.parameters, hidle.plant, hidle.actuators, hidle.hooks, hidle.pathLoaded,
      hidle.tolerances, hidle.pose, hidle.target, hidle.cycle, hidle.commandCycle,
      hidle.pathFollow⟩

/-- Whatever a cycle is found to have come to, that leaves alone what was measured and told. -/
theorem supervised_overlooked (c : Engine α σ) : Overlooked c c.supervised :=
  supervised_invariant (fun hlook h => h.trans hlook.overlooked.1)
    (fun hlook h => h.trans hlook.overlooked) (fun hlook h => h.trans hlook.overlooked)
    (fun h => h.trans ⟨rfl, rfl, rfl, rfl, rfl, rfl, rfl, rfl, rfl, rfl, rfl⟩) (.refl c)

/-! ## Ends of a cycle -/

/-- A cycle in Running that does not trip is looked at for arrival and for a timeout. -/
theorem supervised_of_running (hmode : c.mode = .running) (h : ¬ c.Trips) :
    ∃ stall stalledCycles telemetry, c.supervised
      = { (c.recounted stall stalledCycles).checkArrival.checkTimeout with telemetry } := by
  obtain ⟨stall, stalledCycles, hlooked⟩ := stallChecked_of_not_trips h
  have hrunning : (c.recounted stall stalledCycles).mode = .running := hmode
  obtain ⟨telemetry, hpublished⟩ :=
    publish_eq (c.recounted stall stalledCycles).checkArrival.checkTimeout
  refine ⟨stall, stalledCycles, telemetry, ?_⟩
  rw [supervised, hlooked, checkTarget, if_pos hrunning, hpublished]

/-- The engine goes on in Running, with this progress. -/
structure GoesOn (reached : Bool) (status : MoveStatus) (e : Engine α σ) : Prop where
  mode : e.mode = .running
  reached : e.state.reached = reached
  status : e.state.status = status

/-- A target that was reached stays so, and no timeout is looked for any more. -/
theorem supervised_of_reached (hmode : c.mode = .running) (h : ¬ c.Trips)
    (hreached : c.state.reached = true) : GoesOn true c.state.status c.supervised := by
  obtain ⟨stall, stalledCycles, telemetry, hends⟩ := supervised_of_running hmode h
  have hsame : (c.recounted stall stalledCycles).state.reached = true := hreached
  rw [hends, checkArrival_of_reached hsame, checkTimeout_of_reached hsame]
  exact ⟨hmode, hreached, rfl⟩

/-- A target is reached in the cycle that finds it so, however late this is. -/
theorem supervised_of_arrives (hmode : c.mode = .running) (h : ¬ c.Trips)
    (hreached : c.state.reached = false) (harrives : c.Arrives) :
    GoesOn true (c.arrival.judge c.state.pose c.state.target).1 c.supervised := by
  obtain ⟨stall, stalledCycles, telemetry, hends⟩ := supervised_of_running hmode h
  have hrunning := (checkArrival_spec (c.recounted stall stalledCycles)).alike.mode.trans hmode
  obtain ⟨hnow, hstatus⟩ :=
    checkArrival_of_arrives (e := c.recounted stall stalledCycles) hreached harrives
  rw [hends, checkTimeout_of_reached hnow]
  exact ⟨hrunning, hnow, hstatus⟩

/-- A cycle that finds its target not reached, apart from the count. -/
theorem supervised_of_not_arrives (hmode : c.mode = .running) (h : ¬ c.Trips)
    (hreached : c.state.reached = false) (harrives : ¬ c.Arrives) :
    ∃ stall stalledCycles arrival telemetry, c.supervised
      = { ({ c.recounted stall stalledCycles with arrival } : Engine α σ).checkTimeout with
          telemetry } := by
  obtain ⟨stall, stalledCycles, telemetry, hends⟩ := supervised_of_running hmode h
  refine ⟨stall, stalledCycles, (c.arrival.judge c.state.pose c.state.target).2, telemetry, ?_⟩
  rw [hends, checkArrival_of_not_arrives (e := c.recounted stall stalledCycles) hreached harrives]
  rfl

/-- A target that is not reached in time is given up. -/
theorem supervised_of_expired (hmode : c.mode = .running) (h : ¬ c.Trips)
    (hreached : c.state.reached = false) (harrives : ¬ c.Arrives)
    (hexpired : c.parameters.timedOut c.state = true) : GivenUp c c.supervised := by
  obtain ⟨stall, stalledCycles, arrival, telemetry, hends⟩ :=
    supervised_of_not_arrives hmode h hreached harrives
  obtain ⟨hidle, hstatus, hcommand, hmissed, hworld⟩ := checkTimeout_of_expired
    (e := { c.recounted stall stalledCycles with arrival }) hmode hreached hexpired
  rw [hends]
  exact ⟨hidle, hstatus, hcommand, hmissed, hworld⟩

/-- Until then the engine goes on. -/
theorem supervised_of_pending (hmode : c.mode = .running) (h : ¬ c.Trips)
    (hreached : c.state.reached = false) (harrives : ¬ c.Arrives)
    (hpending : c.parameters.timedOut c.state = false) :
    GoesOn false c.state.status c.supervised := by
  obtain ⟨stall, stalledCycles, arrival, telemetry, hends⟩ :=
    supervised_of_not_arrives hmode h hreached harrives
  rw [hends, checkTimeout_of_pending
    (e := { c.recounted stall stalledCycles with arrival }) hpending]
  exact ⟨hmode, hreached, rfl⟩

/-- Only arrival makes a target reached, and nothing in this half of a cycle makes it unreached. -/
theorem supervised_reached_iff (c : Engine α σ) :
    c.supervised.state.reached = true ↔
      c.state.reached = true ∨ c.mode = .running ∧ ¬ c.Trips ∧ c.Arrives := by
  -- The cases are the ends of a cycle in their order: a stall, arrival, a timeout, nothing.
  by_cases htrips : c.Trips
  · rw [supervised_reached_of_trips htrips]
    exact ⟨.inl, fun h => h.elim id fun hnot => absurd htrips hnot.2.1⟩
  by_cases hmode : c.mode = .running
  · cases hreached : c.state.reached with
    | true => simp [(supervised_of_reached hmode htrips hreached).reached]
    | false =>
      by_cases harrives : c.Arrives
      · simp [(supervised_of_arrives hmode htrips hreached harrives).reached, hmode, htrips,
          harrives]
      · have hmissed : c.supervised.state.reached = false := by
          cases hlate : c.parameters.timedOut c.state with
          | true => exact (supervised_of_expired hmode htrips hreached harrives hlate).reached
          | false => exact (supervised_of_pending hmode htrips hreached harrives hlate).reached
        simp [hmissed, harrives]
  · obtain ⟨stall, stalledCycles, hlooked⟩ := stallChecked_of_not_trips htrips
    have hrunning : c.stallChecked.mode ≠ .running := by
      rw [hlooked]
      exact hmode
    have hsame : c.supervised.state.reached = c.state.reached := by
      obtain ⟨telemetry, hsupervised⟩ := supervised_of_ne_running hrunning
      rw [hsupervised, hlooked]
      rfl
    rw [hsame]
    exact ⟨.inl, fun h => h.elim id fun hnot => absurd hnot.1 hmode⟩

/-! ## One cycle after another -/

/-- The engine within the cycle that follows `n` others, before it is looked at. -/
def midway (e : Engine α σ) (n : Nat) : Except (Interrupted α σ) (Engine α σ) :=
  e.steps n >>= controlled

theorem steps_succ (e : Engine α σ) (n : Nat) : e.steps (n + 1) = e.steps n >>= step := by
  induction n generalizing e with
  | zero =>
    show e.step >>= (fun e => .ok e) = e.step
    cases e.step with
    | ok e' => rfl
    | error interrupted => rfl
  | succ n ih =>
    rw [steps]
    cases hstep : e.step with
    | ok e' =>
      rw [ok_bind, ih, steps, hstep, ok_bind]
    | error interrupted =>
      rw [steps, hstep]
      rfl

/-- The last of several cycles is supervised last. -/
theorem steps_succ_eq_ok_iff :
    e.steps (n + 1) = .ok e' ↔ ∃ c, e.midway n = .ok c ∧ c.supervised = e' := by
  rw [steps_succ, midway]
  cases hsteps : e.steps n with
  | ok before =>
    rw [ok_bind, ok_bind]
    exact step_eq_ok_iff
  | error interrupted =>
    constructor
    · intro h
      cases h
    · rintro ⟨_, h, _⟩
      cases h

end Engine

end MotionControl
