import MotionControl.Control.Fault
import MotionControl.Engine.ControlState

/-!
# What surrounds an engine

An engine measures, acts, follows waypoints and calls hooks.  Each of these is a
record of functions on a world of type `σ`, which the engine carries along and
never looks into.

- `Odometer`, `Encoder`: measurements of a vehicle and of a single axis.
- `Actuators`: where commands go.
- `TargetSource`: where waypoints come from.
- `Hooks`: what else happens in a cycle.
-/

namespace MotionControl

/-- A measurement of a vehicle. -/
structure Odometry (α : Type) where
  pose : Pose α
  /-- Millimetres and degrees per second. -/
  speed : Polar α
  deriving Repr, BEq

/-- A measurement of a single axis. -/
structure AxisReading (α : Type) where
  position : α
  speed : α
  deriving Repr, BEq

/-- Measures a vehicle. -/
structure Odometer (α σ : Type) where
  sample : σ → Odometry α × σ
  /-- From now on the vehicle is known to be at this pose. -/
  reseat : Pose α → σ → σ

/-- Measures a single axis. -/
structure Encoder (α σ : Type) where
  sample : σ → AxisReading α × σ
  /-- From now on the axis is known to be at this position. -/
  reseat : α → σ → σ

/-- Takes commands, one signed number for each actuator. -/
structure Actuators (α σ : Type) where
  apply : List α → σ → σ
  /-- Lets the actuators go, without holding torque. -/
  release : σ → σ

/-- Supplies waypoints. -/
structure TargetSource (α σ : Type) where
  /-- The waypoint to head for, if there is one. -/
  current : σ → Option (PathPose α)
  /-- Whether the current waypoint may be left behind now. -/
  mayAdvance : σ → Bool
  /-- Drops the current waypoint. -/
  advance : σ → σ

/-- Takes part in every cycle. -/
structure Hooks (α σ : Type) where
  /-- Runs on the fresh measurements.  A cycle can be given up here, before anything
  is commanded. -/
  beforeControl : ControlState α → σ → Except Fault (ControlState α) × σ
  /-- Runs after the actuators were commanded. -/
  afterControl : ControlState α → σ → ControlState α × σ
  /-- Runs once for each target, in the cycle that reaches it. -/
  targetReached : ControlState α → σ → σ

/-- Hooks that do nothing. -/
def Hooks.idle {α σ : Type} : Hooks α σ where
  beforeControl s world := (.ok s, world)
  afterControl s world := (s, world)
  targetReached _ world := world

end MotionControl
