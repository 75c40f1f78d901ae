import MotionControl.Proofs.Ramp.Shape
import MotionControl.Proofs.Tree.SpeedMode

/-!
# Both directions alike

Seen in a mirror, a single axis does the same: with positions, targets, speeds and orders of the
other sign it gives commands and ramped orders of the other sign, cycle after cycle.  The mirror
image of an axis has integrals and errors of the other sign, so an axis at rest is its own.

- `Pid.mirror`, `AxisCascade.mirror`, `AxisSignals.mirror`: the images.
- `Pid.commandOn_mirror`: a channel is odd, as a ramp is.
- `AxisCascade.answers_mirror`: so are whole runs of an axis.
- `StandardTree.motor_is_symmetric`: and of its tree.
-/

namespace MotionControl

open Scalar Rational

/-! ## Images -/

/-- The channel after the opposite errors. -/
def Pid.mirror (p : Pid ℚ) : Pid ℚ :=
  { p with state := ⟨-p.state.integral, -p.state.previousError⟩ }

/-- What is measured and asked for in the other direction.  The limit is a magnitude, and the mode
has no direction. -/
def AxisSignals.mirror (i : AxisSignals ℚ) : AxisSignals ℚ :=
  { i with
    position := -i.position
    target := -i.target
    speed := -i.speed
    order := -i.order }

/-- The cascade of an axis that moves the other way. -/
def AxisCascade.mirror (a : AxisCascade ℚ) : AxisCascade ℚ :=
  { a with
    position := a.position.mirror
    speed := a.speed.mirror }

section Fields

variable (p : Pid ℚ) (i : AxisSignals ℚ)

@[simp] theorem Pid.mirror_gains : p.mirror.gains = p.gains := rfl

@[simp] theorem Pid.mirror_period : p.mirror.period = p.period := rfl

@[simp] theorem Pid.mirror_integral : p.mirror.state.integral = -p.state.integral := rfl

@[simp] theorem Pid.mirror_previousError :
    p.mirror.state.previousError = -p.state.previousError := rfl

/-- The position error is the opposite. -/
theorem AxisSignals.mirror_error :
    i.mirror.target - i.mirror.position = -(i.target - i.position) := by
  show -i.target - -i.position = _
  ring

end Fields

variable [PlaneFunctions]

/-! ## Loops -/

namespace Pid

variable {p : Pid ℚ}

theorem integralOn_mirror (h : p.gains.check = .ok ()) (error : ℚ) :
    p.mirror.integralOn (-error) = -p.integralOn error := by
  have hlimit : 0 ≤ p.gains.integralLimit := not_lt.mp (PidGains.integralLimit_isBound h).2
  rw [integralOn, integralOn, mirror_gains, mirror_integral, mirror_period,
    ← saturate_neg hlimit]
  congr 1
  ring

theorem commandOn_mirror (h : p.gains.check = .ok ()) (error : ℚ) :
    p.mirror.commandOn (-error) = -p.commandOn error := by
  unfold commandOn
  rw [integralOn_mirror h, mirror_gains, mirror_period, mirror_previousError]
  by_cases hperiod : p.period ≤ 0
  · rw [if_pos hperiod, if_pos hperiod, neg_zero]
  · rw [if_neg hperiod, if_neg hperiod]
    ring

theorem after_mirror (h : p.gains.check = .ok ()) (error : ℚ) :
    p.mirror.after (-error) = (p.after error).mirror := by
  unfold after
  rw [integralOn_mirror h, mirror_period]
  by_cases hperiod : p.period ≤ 0
  · rw [if_pos hperiod, if_pos hperiod]
  · rw [if_neg hperiod, if_neg hperiod]
    rfl

end Pid

/-! ## Axes -/

namespace AxisCascade

variable {a : AxisCascade ℚ}

theorem orderOn_mirror (h : a.Checked) (i : AxisSignals ℚ) :
    a.mirror.orderOn i.mirror = -a.orderOn i := by
  have hheld : a.mirror.position.commandOn (i.mirror.target - i.mirror.position)
      = -a.position.commandOn (i.target - i.position) := by
    rw [i.mirror_error]
    exact Pid.commandOn_mirror h.position _
  unfold orderOn
  rw [hheld]
  show (if i.mode < 1 / 2 then _ else -i.order) = _
  by_cases hmode : i.mode < 1 / 2
  · rw [if_pos hmode, if_pos hmode]
  · rw [if_neg hmode, if_neg hmode]

theorem rampedOn_mirror (h : a.Checked) (i : AxisSignals ℚ) :
    a.mirror.rampedOn i.mirror = -a.rampedOn i := by
  rw [rampedOn, orderOn_mirror h]
  exact SpeedRamp.limited_neg h.ramp ..

/-- The speed error is the opposite. -/
theorem speedError_mirror (h : a.Checked) (i : AxisSignals ℚ) :
    a.mirror.rampedOn i.mirror - i.mirror.speed = -(a.rampedOn i - i.speed) := by
  rw [rampedOn_mirror h]
  show -a.rampedOn i - -i.speed = _
  ring

theorem commandOn_mirror (h : a.Checked) (i : AxisSignals ℚ) :
    a.mirror.commandOn i.mirror = -a.commandOn i := by
  rw [commandOn, speedError_mirror h]
  exact Pid.commandOn_mirror h.speed _

theorem after_mirror (h : a.Checked) (i : AxisSignals ℚ) :
    a.mirror.after i.mirror = (a.after i).mirror := by
  have hposition : a.mirror.position.after (i.mirror.target - i.mirror.position)
      = (a.position.after (i.target - i.position)).mirror := by
    rw [i.mirror_error]
    exact Pid.after_mirror h.position _
  have hspeed : a.mirror.speed.after (a.mirror.rampedOn i.mirror - i.mirror.speed)
      = (a.speed.after (a.rampedOn i - i.speed)).mirror := by
    rw [speedError_mirror h]
    exact Pid.after_mirror h.speed _
  rw [after, hposition, hspeed]
  rfl

/-- An axis at rest is its own image. -/
theorem mirror_fresh (positionGains speedGains : PidGains ℚ) (ramp : RampSettings ℚ)
    (period : ℚ) :
    (fresh positionGains speedGains ramp period).mirror
      = fresh positionGains speedGains ramp period := rfl

/-- The commands and the ramped orders of a run. -/
def answers (a : AxisCascade ℚ) : List (AxisSignals ℚ) → List (ℚ × ℚ)
  | [] => []
  | i :: rest => (a.commandOn i, a.rampedOn i) :: (a.after i).answers rest

omit [PlaneFunctions] in
theorem length_answers (a : AxisCascade ℚ) (run : List (AxisSignals ℚ)) :
    (a.answers run).length = run.length := by
  induction run generalizing a with
  | nil => rfl
  | cons i rest ih => rw [answers, List.length_cons, List.length_cons, ih]

/-- They are the outputs of the axis. -/
theorem play_answers (h : a.Checked) (run : List (AxisSignals ℚ)) :
    ((machine ℚ).play a (run.map fun i => .cycle i.toSignals)).map (·.1)
      = some ((a.answers run).map fun r => [r.1, r.2]) := by
  induction run generalizing a with
  | nil => rfl
  | cons i rest ih =>
    obtain ⟨⟨outputs, last⟩, hrest, houtputs⟩ := Option.map_eq_some_iff.mp (ih (h.after i))
    change outputs = _ at houtputs
    rw [List.map_cons, Cyclic.play, respond_exact h, Option.bind_some, hrest, houtputs]
    rfl

/-- The image of a run. -/
theorem answers_mirror (h : a.Checked) (run : List (AxisSignals ℚ)) :
    a.mirror.answers (run.map AxisSignals.mirror)
      = (a.answers run).map fun r => (-r.1, -r.2) := by
  induction run generalizing a with
  | nil => rfl
  | cons i rest ih =>
    rw [List.map_cons, answers, answers, List.map_cons, commandOn_mirror h, rampedOn_mirror h,
      after_mirror h, ih (h.after i)]

end AxisCascade

/-! ## The tree of a motor -/

namespace StandardTree

/-- The outputs of a tree that stands for an axis. -/
theorem outputsOn_answers {name : String} {a : AxisCascade ℚ} {tree : Node ℚ}
    (htree : tree.Stands 6 (AxisCascade.motorCircuit name) a) (h : a.Checked)
    (run : List (AxisSignals ℚ)) :
    outputsOn tree (run.map AxisSignals.toSignals)
      = some ((a.answers run).map fun r => [r.1, r.2]) := by
  have hfits : ∀ r ∈ run.map (fun i => (.cycle i.toSignals : Round ℚ Empty)), r.Fits 6 := by
    intro r hr
    obtain ⟨i, -, rfl⟩ := List.mem_map.mp hr
    rfl
  obtain ⟨outputs, htrees, hloops⟩ := htree.play (AxisCascade.wires name) hfits
  rw [AxisCascade.play_answers h, Option.some_inj] at hloops
  rw [outputsOn, List.map_map, hloops]
  exact htrees

/-- A motor of checked settings, fresh from its constructors, answers every run.  If positions,
targets, speeds and orders have the other sign in every cycle, so have both of its outputs in every
cycle. -/
theorem motor_is_symmetric {s : MotorSettings ℚ} (h : s.check = .ok ()) (period : ℚ) :
    ∃ tree, motor s period = .ok tree ∧ ∀ run : List (AxisSignals ℚ),
      ∃ answers : List (ℚ × ℚ), answers.length = run.length ∧
        outputsOn tree (run.map AxisSignals.toSignals)
          = some (answers.map fun r => [r.1, r.2]) ∧
        outputsOn tree (run.map fun i => i.mirror.toSignals)
          = some (answers.map fun r => [-r.1, -r.2]) := by
  have hsettings := MotorSettings.checked h
  obtain ⟨tree, htree, -⟩ := motor_built hsettings period
  have hstands := motor_stands hsettings htree
  have hchecked : (AxisCascade.fresh s.position s.speed s.ramp period).Checked :=
    ⟨hsettings.position, hsettings.ramp, hsettings.speed⟩
  refine ⟨tree, htree, fun run => ⟨_, AxisCascade.length_answers _ run,
    outputsOn_answers hstands hchecked run, ?_⟩⟩
  have himage := AxisCascade.answers_mirror hchecked run
  rw [AxisCascade.mirror_fresh] at himage
  have hanswers := outputsOn_answers hstands hchecked (run.map AxisSignals.mirror)
  rw [himage, List.map_map, List.map_map] at hanswers
  exact hanswers

/-- A lift is held below its target for a cycle, and then driven up. -/
def ascent : List (AxisSignals ℚ) := [⟨0, 10, 1, 5, 0, 0⟩, ⟨1, 10, 2, 5, 1, 3⟩]

omit [PlaneFunctions] in
/-- It is driven down just so. -/
theorem ascent_is_symmetric :
    ∃ (_ : PlaneFunctions) (tree : Node ℚ) (first second : ℚ × ℚ),
      motor (.named "lift" : MotorSettings ℚ) (1 / 50) = .ok tree ∧
      outputsOn tree (ascent.map AxisSignals.toSignals)
        = some [[first.1, first.2], [second.1, second.2]] ∧
      outputsOn tree [[-0, -10, -1, 5, 0, -0], [-1, -10, -2, 5, 1, -3]]
        = some [[-first.1, -first.2], [-second.1, -second.2]] := by
  let plane := PlaneFunctions.onAbscissa
  have hchecked : (MotorSettings.named "lift" : MotorSettings ℚ).check = .ok () :=
    Outcome.toOption_eq_some_iff.mp (by decide +kernel)
  obtain ⟨tree, htree, hruns⟩ := motor_is_symmetric hchecked (1 / 50)
  obtain ⟨answers, hlength, hup, hdown⟩ := hruns ascent
  obtain ⟨first, second, rfl⟩ := List.length_eq_two.mp hlength
  exact ⟨plane, tree, first, second, htree, hup, hdown⟩

end StandardTree

end MotionControl
