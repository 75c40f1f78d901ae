import MotionControl.Proofs.Engine.Supervision
import MotionControl.Proofs.Scalar.Length

/-!
# Arrival on a single axis

A single axis lies along the abscissa and never turns.  Its targets are poses in the plane all
the same, and the judge looks at them as a whole: at their ordinate as part of the distance, and
at their orientation against half a turn.  A target on the axis is reached by position alone,
unless it faces exactly backwards.

- `Engine.OnAxis`: what an axis engine keeps while it heads for a target.
- `Engine.OnAxis.arrives_iff`: what the judge asks of a target of an axis.
- `Engine.ReadsPosition`: a cycle that may reach the target, and what its encoder reads.
- `Engine.axis_arrives_exactly`: the first such cycle with a reading close enough reaches it.
- `Engine.target_in_place_is_missed`: position alone is not enough for every target.
-/

namespace MotionControl

open Outcome Scalar

/-- On an axis, the distance between two poses is made up of the way on the axis and the ordinate
of the target. -/
theorem Pose.distanceTo_axis (p x y o : Float) :
    (Pose.of p 0 0).distanceTo (.of x y o) = hypotenuse (x - p) y := by
  show hypotenuse (x - p) (y - 0) = _
  rw [Binary64.sub_zero]

/-- An axis faces along the abscissa, so that it only misses the orientation half a turn away. -/
theorem Pose.headingErrorTo_axis {o : Float} (h : o.isFinite = true) (p x y : Float) :
    abs ((Pose.of p 0 0).headingErrorTo (.of x y o)) < 180 ↔ wrapDegrees o ≠ 180 := by
  have hzero : wrapDegrees (0 : Float) = 0 := by decide +kernel
  have herror : (Pose.of p 0 0).headingErrorTo (.of x y o) = wrapDegrees o := by
    show wrapDegrees (wrapDegrees o - wrapDegrees 0) = _
    rw [hzero, Binary64.sub_zero, wrapDegrees_wrapDegrees]
  rw [herror]
  exact (wrapDegrees_wrapped h).abs_lt_iff

namespace Engine

variable {σ : Type} {e e' c start : Engine Float σ} {encoder : Encoder Float σ}
  {settings : MotorSettings Float} {target : PathPose Float} {x y orientation : Float} {n : Nat}

/-! ## The judge of an axis -/

/-- An engine for a single axis that heads for a target, with hooks that leave its state alone
and the tolerances that it was built with. -/
structure OnAxis (encoder : Encoder Float σ) (settings : MotorSettings Float)
    (target : PathPose Float) (e : Engine Float σ) : Prop where
  plant : e.plant = .motor encoder
  hooks : e.hooks.Discreet
  tolerances : e.arrival.settings = axisArrival settings
  target : e.state.target = target

namespace OnAxis

/-- The judge asks for the position and, of a last pose, for any orientation but half a turn. -/
theorem arrives_iff {p : Float} (h : OnAxis encoder settings target c)
    (hpose : c.state.pose = .of p 0 0) (htarget : target.pose = .of x y orientation)
    (hfinite : orientation.isFinite = true) :
    c.Arrives ↔ hypotenuse (x - p) y < settings.positionThreshold ∧
      (target.intermediate = true ∨ wrapDegrees orientation ≠ 180) := by
  have hposition : c.arrival.positionHolds c.state.pose c.state.target = true ↔
      hypotenuse (x - p) y < settings.positionThreshold := by
    rw [ArrivalJudge.positionHolds, decide_eq_true_iff, h.tolerances, h.target, hpose, htarget,
      Pose.distanceTo_axis]
    rfl
  have hheading : c.arrival.headingHolds c.state.pose c.state.target = true ↔
      wrapDegrees orientation ≠ 180 := by
    rw [ArrivalJudge.headingHolds, decide_eq_true_iff, h.tolerances, h.target, hpose, htarget]
    exact Pose.headingErrorTo_axis hfinite p x y
  have hpolicy : c.arrival.settings.policy = .simultaneous := by
    rw [h.tolerances]
    rfl
  unfold Arrives ArrivalJudge.judge
  rw [← hposition, ← hheading, hpolicy, h.target]
  cases c.arrival.positionHolds c.state.pose target <;>
    cases c.arrival.headingHolds c.state.pose target <;>
      cases target.intermediate <;> simp [MoveStatus.isReached]

/-- The first half of a cycle measures, and changes nothing that arrival depends on besides. -/
theorem controlled (h : OnAxis encoder settings target e) (hc : e.controlled = .ok c) :
    OnAxis encoder settings target c ∧ c.mode = e.mode ∧ c.state.reached = e.state.reached ∧
      c.state.pose = .of (encoder.sample e.world).1.position 0 0 := by
  have hnone : e.tick.plant.targets? = none := by
    show e.plant.targets? = none
    rw [h.plant]
    rfl
  have hcommanded := controlled_commanded h.hooks hc
  rw [followPath_of_no_targets hnone] at hcommanded
  obtain ⟨_, _, _, hstate⟩ := hcommanded.state
  refine ⟨⟨hcommanded.plant.trans h.plant, hcommanded.hooks ▸ h.hooks, ?_, ?_⟩,
    congrArg ModeMachine.mode hcommanded.machine, ?_, ?_⟩
  · rw [hcommanded.arrival]
    exact h.tolerances
  · rw [hstate]
    exact h.target
  · rw [hstate]
    rfl
  · rw [hstate]
    show (e.plant.sample e.world).1.pose = _
    rw [h.plant]
    rfl

/-- The looks at the end of a cycle leave the axis and its target alone. -/
theorem supervised (h : OnAxis encoder settings target c) :
    OnAxis encoder settings target c.supervised := by
  have hoverlooked := supervised_overlooked c
  exact ⟨hoverlooked.plant.trans h.plant, hoverlooked.hooks ▸ h.hooks,
    hoverlooked.tolerances.trans h.tolerances, hoverlooked.target.trans h.target⟩

/-- So do whole cycles. -/
theorem steps (h : OnAxis encoder settings target start) (hsteps : start.steps n = .ok e) :
    OnAxis encoder settings target e := by
  induction n generalizing e with
  | zero =>
    cases hsteps
    exact h
  | succ n ih =>
    obtain ⟨c, hc, rfl⟩ := steps_succ_eq_ok_iff.mp hsteps
    obtain ⟨before, hbefore, hc⟩ := bind_eq_ok_iff.mp hc
    exact ((ih hbefore).controlled hc).1.supervised

end OnAxis

/-! ## Runs -/

/-- The cycle that follows `n` others begins in Running and does not trip the stall detector, and
the position that the encoder reads in it satisfies a condition. -/
def ReadsPosition (start : Engine Float σ) (encoder : Encoder Float σ) (n : Nat)
    (holds : Float → Prop) : Prop :=
  ∃ before c, start.steps n = .ok before ∧ before.controlled = .ok c ∧
    before.mode = .running ∧ ¬ c.Trips ∧ holds (encoder.sample before.world).1.position

/-- Along a run, the target is reached by the first cycle that finds it so. -/
theorem OnAxis.reached_iff (h : OnAxis encoder settings target start)
    (hfresh : start.state.reached = false) (htarget : target.pose = .of x y orientation)
    (hfinite : orientation.isFinite = true) (hsteps : start.steps n = .ok e) :
    e.state.reached = true ↔ ∃ k < n, start.ReadsPosition encoder k fun p =>
      hypotenuse (x - p) y < settings.positionThreshold ∧
        (target.intermediate = true ∨ wrapDegrees orientation ≠ 180) := by
  induction n generalizing e with
  | zero =>
    cases hsteps
    rw [hfresh]
    constructor
    · intro h
      cases h
    · rintro ⟨k, hk, -⟩
      omega
  | succ n ih =>
    obtain ⟨c, hc, rfl⟩ := steps_succ_eq_ok_iff.mp hsteps
    obtain ⟨before, hbefore, hc⟩ := bind_eq_ok_iff.mp hc
    obtain ⟨haxis, hmode, hreached, hpose⟩ := (h.steps hbefore).controlled hc
    rw [supervised_reached_iff, hreached, ih hbefore, hmode,
      haxis.arrives_iff hpose htarget hfinite]
    constructor
    · rintro (⟨k, hk, hreads⟩ | ⟨hrunning, htrips, harrives⟩)
      · exact ⟨k, by omega, hreads⟩
      · exact ⟨n, by omega, before, c, hbefore, hc, hrunning, htrips, harrives⟩
    · rintro ⟨k, hk, hreads⟩
      -- The reading is the one of the last cycle, or of an earlier one that the others know of.
      by_cases hlast : k = n
      · obtain ⟨before', c', hbefore', hc', hnow⟩ := hreads
        rw [hlast] at hbefore'
        cases hbefore.symm.trans hbefore'
        cases hc.symm.trans hc'
        exact .inr hnow
      · exact .inl ⟨k, by omega, hreads⟩

/-- After any operations, let an engine for a single axis accept a target, with the tolerances
that it was built with and hooks that leave the state alone.  Every cycle comes to its end unless
a hook gives it up, and the target is reached in the first cycle in Running that does not trip
the stall detector and whose encoder reads a position close enough to the target in the plane,
unless the target is a last pose that faces exactly backwards, which is never reached.  For a
target on the axis that does not, the distance on the axis decides. -/
theorem axis_arrives_exactly {period : Float} {actuators : Actuators Float σ}
    {attachments : Attachments Float σ} {world : σ} {built : Engine Float σ}
    {operations : List (Operation Float)}
    (hbuilt : ofMotor settings period encoder actuators attachments world = .ok built)
    (hhooks : attachments.hooks.Discreet)
    (haccepted : (built.attemptAll operations).setPoseTarget target = .ok start)
    (htolerances : start.arrival.settings = axisArrival settings)
    (htarget : target.pose = .of x y orientation) (hfinite : orientation.isFinite = true) :
    (attachments.hooks.Willing → ∀ n, ∃ e, start.steps n = .ok e) ∧
    ∀ n e, start.steps n = .ok e →
      (e.state.reached = true ↔ ∃ k < n, start.ReadsPosition encoder k fun p =>
        hypotenuse (x - p) y < settings.positionThreshold ∧
          (target.intermediate = true ∨ wrapDegrees orientation ≠ 180)) ∧
      (y = 0 → target.intermediate = true ∨ wrapDegrees orientation ≠ 180 →
        (e.state.reached = true ↔ ∃ k < n, start.ReadsPosition encoder k fun p =>
          abs (x - p) < settings.positionThreshold)) := by
  have hoperable := (Built.motor hbuilt).operable
  have hkept := (hoperable.attemptAll_maintained operations).trans
    (setPoseTarget_maintained haccepted)
  obtain ⟨_, _, -, rfl⟩ := ofMotor_eq_ok hbuilt
  have haim : start.state.target = target ∧ start.state.reached = false := by
    obtain ⟨arrived, -, hset⟩ := bind_eq_ok_iff.mp haccepted
    cases hset
    exact ⟨rfl, rfl⟩
  have haxis : OnAxis encoder settings target start :=
    ⟨hkept.plant, hkept.hooks ▸ hhooks, htolerances, haim.1⟩
  refine ⟨fun hwilling => ?_, fun n e hsteps => ?_⟩
  · exact (hoperable.of_maintained hkept).steps_finish (hkept.hooks ▸ hwilling)
      (hkept.plant ▸ trivial)
  · have hreached := haxis.reached_iff haim.2 htarget hfinite hsteps
    refine ⟨hreached, fun hy hfaces => ?_⟩
    rw [hreached]
    have hsame : ∀ p : Float, (hypotenuse (x - p) y < settings.positionThreshold ∧
        (target.intermediate = true ∨ wrapDegrees orientation ≠ 180)) ↔
          abs (x - p) < settings.positionThreshold := by
      intro p
      have hlength : (hypotenuse (x - p) y : Float) = abs (x - p) := by
        rw [hy]
        exact Binary64.hypotenuse_zero (x - p)
      rw [hlength, and_iff_left hfaces]
    simp only [hsame]

/-! ## Two targets at the place of the axis -/

/-- The axis that never turns, enabled and told to go to a target. -/
def targetedLift (target : Pose Float) : Option (Engine Float Unit) :=
  stuckLift.toOption.bind fun e =>
    ((e.attemptAll [.request .enable]).setPoseTarget (.final target)).toOption

/-- What a cycle of such an axis finds, and what becomes of its target. -/
def liftFinds (target : Pose Float) : Option (Mode × Bool × ArrivalSettings Float × Bool) :=
  (targetedLift target).bind fun e => e.controlled.toOption.map fun c =>
    (e.mode, decide c.Trips, e.arrival.settings, c.supervised.state.reached)

theorem liftFinds_eq {target : Pose Float} {mode : Mode} {reached : Bool}
    {tolerances : ArrivalSettings Float}
    (h : liftFinds target = some (mode, false, tolerances, reached)) :
    ∃ built e c, stuckLift = .ok built ∧
      (built.attemptAll [.request .enable]).setPoseTarget (.final target) = .ok e ∧
      e.controlled = .ok c ∧ e.mode = mode ∧ ¬ c.Trips ∧ e.arrival.settings = tolerances ∧
      c.supervised.state.reached = reached := by
  obtain ⟨e, htargeted, h⟩ := Option.bind_eq_some_iff.mp h
  obtain ⟨built, hbuilt, haccepted⟩ := Option.bind_eq_some_iff.mp htargeted
  obtain ⟨c, hc, h⟩ := Option.map_eq_some_iff.mp h
  rw [Prod.mk.injEq, Prod.mk.injEq, Prod.mk.injEq] at h
  obtain ⟨hmode, htrips, htolerances, hreached⟩ := h
  exact ⟨built, e, c, toOption_eq_some_iff.mp hbuilt, toOption_eq_some_iff.mp haccepted,
    toOption_eq_some_iff.mp hc, hmode, of_decide_eq_false htrips, htolerances, hreached⟩

/-- A target where the axis stands is reached at once, though it faces aside. -/
theorem sideways_target_is_reached :
    ∃ built e e', stuckLift = .ok built ∧
      (built.attemptAll [.request .enable]).setPoseTarget (.final (.of 0 0 90)) = .ok e ∧
      e.steps 1 = .ok e' ∧ e'.state.reached = true ∧
      e.ReadsPosition stuckEncoder 0 fun p =>
        abs (0 - p) < (MotorSettings.named "lift" : MotorSettings Float).positionThreshold := by
  have hfinds : liftFinds (.of 0 0 90)
      = some (.running, false, axisArrival (.named "lift"), true) := by decide +kernel
  obtain ⟨built, e, c, hbuilt, haccepted, hc, -, -, htolerances, hreached⟩ := liftFinds_eq hfinds
  have hsteps : e.steps 1 = .ok c.supervised := steps_succ_eq_ok_iff.mpr ⟨c, hc, rfl⟩
  obtain ⟨-, hruns⟩ := axis_arrives_exactly hbuilt Hooks.idle_discreet haccepted htolerances rfl
    (by decide +kernel)
  obtain ⟨k, hk, hreads⟩ :=
    ((hruns 1 c.supervised hsteps).2 rfl (.inr (by decide +kernel))).mp hreached
  cases Nat.lt_one_iff.mp hk
  exact ⟨built, e, c.supervised, hbuilt, haccepted, hsteps, hreached, hreads⟩

/-- The axis stands at the position of its target, and a cycle does not find it reached. -/
def MissedInPlace (target : Pose Float) : Prop :=
  ∃ built e e', stuckLift = .ok built ∧
    (built.attemptAll [.request .enable]).setPoseTarget (.final target) = .ok e ∧
    e.steps 1 = .ok e' ∧ e'.state.reached = false ∧
    e.ReadsPosition stuckEncoder 0 fun p => abs (p - target.x)
      < (MotorSettings.named "lift" : MotorSettings Float).positionThreshold

/-- A lift that runs on although it is close enough misses its target. -/
theorem missedInPlace_of_liftFinds {target : Pose Float} {tolerances : ArrivalSettings Float}
    (h : liftFinds target = some (.running, false, tolerances, false))
    (hclose : abs (0 - target.x)
      < (MotorSettings.named "lift" : MotorSettings Float).positionThreshold) :
    MissedInPlace target := by
  obtain ⟨built, e, c, hbuilt, haccepted, hc, hmode, htrips, -, hreached⟩ := liftFinds_eq h
  exact ⟨built, e, c.supervised, hbuilt, haccepted, steps_succ_eq_ok_iff.mpr ⟨c, hc, rfl⟩, hreached,
    e, c, rfl, hc, hmode, htrips, hclose⟩

/-- A target is missed in place if it faces exactly backwards, or lies beside the axis. -/
theorem target_in_place_is_missed :
    MissedInPlace (.of 0 0 180) ∧ MissedInPlace (.of 0 50 0) := by
  have hbackward : liftFinds (.of 0 0 180)
      = some (.running, false, axisArrival (.named "lift"), false) := by decide +kernel
  have hbeside : liftFinds (.of 0 50 0)
      = some (.running, false, axisArrival (.named "lift"), false) := by decide +kernel
  exact ⟨missedInPlace_of_liftFinds hbackward (by decide +kernel),
    missedInPlace_of_liftFinds hbeside (by decide +kernel)⟩

end Engine

end MotionControl
