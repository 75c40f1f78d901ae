import MotionControl.Control.Node.Assembly
import MotionControl.Settings.Engines

/-!
# The standard controller trees

Both engines close a position loop and then a speed loop on every axis.  In speed
mode the order takes the place of the position loop's output.

- `StandardTree.speedStages`: what every axis ends in: choose the order, ramp it,
  close the speed loop.
- `StandardTree.axis`: one axis of the vehicle, on a position error.
- `StandardTree.platform`: the straight-line move and both axes.
- `StandardTree.motor`: a single axis, on a target and a position.
-/

namespace MotionControl

namespace StandardTree

open Node

variable {α : Type} [Scalar α]

/-- From mode, position loop output, order, speed and limit (5 signals) to command
and ramped order (2 signals). -/
def speedStages (label : String) (speedGains : PidGains α) (ramp : RampSettings α) (period : α) :
    Except (WiringError α) (List (Node α)) := do
  let choice ← ofBranches (label ++ "select") 5 3 [
    ⟨[0, 1, 2], [0], ← select (label ++ "mode_switch") 1⟩,
    ⟨[3, 4], [1, 2], ← forward (label ++ "select_bypass") 2⟩]
  let limited ← speedRamp (label ++ "speed_ramp") ramp period
  let loop ← ofBranches (label ++ "speed") 2 2 [
    ⟨[0, 1], [0], ← pid (label ++ "speed_pid") 1 .setpointMeasurement speedGains period⟩,
    ⟨[0], [1], ← forward (label ++ "speed_bypass") 1⟩]
  .ok [choice, limited, loop]

/-- A label without the underscores at its end. -/
def bareLabel (label : String) : String :=
  String.ofList (label.toList.reverse.dropWhile (· == '_')).reverse

/-- One axis of the vehicle, from error, speed, limit, mode and order to command and
ramped order.  The label opens the name of every node in it. -/
def axis (label : String) (positionGains speedGains : PidGains α) (ramp : RampSettings α)
    (period : α) : Except (WiringError α) (Node α) := do
  let position ← ofBranches (label ++ "position") 5 5 [
    ⟨[0], [1], ← pid (label ++ "position_pid") 1 .error positionGains period⟩,
    ⟨[3, 4, 1, 2], [0, 2, 3, 4], ← forward (label ++ "position_bypass") 4⟩]
  ofStages (bareLabel label) (position :: (← speedStages label speedGains ramp period))

/-- The vehicle: a straight-line move, then both axes.  The inputs are those of the
move; the outputs are both commands, then both ramped orders. -/
def platform (s : PlatformSettings α) (period : α) : Except (WiringError α) (Node α) := do
  let move ← straightMove "pose_straight" s.straightMove
  let axes ← ofBranches "axes" 9 4 [
    ⟨[0, 1, 2, 8, 3], [0, 2],
      ← axis "linear_" s.linearPosition s.linearSpeed s.linearRamp period⟩,
    ⟨[4, 5, 6, 8, 7], [1, 3],
      ← axis "angular_" s.angularPosition s.angularSpeed s.angularRamp period⟩]
  validated (← ofStages "platform" [move, axes])

/-- A single axis, from position, target, speed, limit, mode and order to command
and ramped order. -/
def motor (s : MotorSettings α) (period : α) : Except (WiringError α) (Node α) := do
  let position ← ofBranches "position" 6 5 [
    ⟨[1, 0], [1], ← pid "position_pid" 1 .setpointMeasurement s.position period⟩,
    ⟨[4, 5, 2, 3], [0, 2, 3, 4], ← forward "position_bypass" 4⟩]
  validated (← ofStages s.name (position :: (← speedStages "" s.speed s.ramp period)))

end StandardTree

end MotionControl
