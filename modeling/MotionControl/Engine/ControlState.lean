import MotionControl.Geometry.PathPose
import MotionControl.Mode
import MotionControl.Settings.Supervision

/-!
# What an engine knows about its motion

- `ControlState`: measurements, the active command, what is sent to the actuators
  and how far the target has come.
- `EngineParameters`: the period, the speeds that a target may use, the timeout.
-/

namespace MotionControl

open Scalar

/-- The state of an engine between two cycles. -/
structure ControlState (α : Type) where
  /-- The measured pose. -/
  pose : Pose α
  target : PathPose α
  /-- The measured speed. -/
  speed : Polar α
  /-- The speed that is ordered, or that a pose target may use at most. -/
  order : Polar α
  /-- The order after the ramps. -/
  filtered : Polar α
  /-- What is sent to the actuators. -/
  command : Polar α
  /-- The active target was reached. -/
  reached : Bool
  /-- The target that was reached is not the last one of its path. -/
  intermediate : Bool
  status : MoveStatus
  /-- Stalled cycles in a row. -/
  stalledCycles : UInt32
  mode : Mode
  /-- The number of the cycle, which wraps. -/
  cycle : UInt64
  /-- The cycle in which the active command was accepted. -/
  commandCycle : UInt64
  /-- Waypoints are loaded from the target source. -/
  pathFollow : Bool
  deriving Repr, BEq

namespace ControlState

variable {α : Type}

/-- At the origin, at rest, in Stop. -/
def initial [Scalar α] : ControlState α where
  pose := .origin
  target := .final .origin
  speed := .zero
  order := .zero
  filtered := .zero
  command := .zero
  reached := false
  intermediate := false
  status := .moving
  stalledCycles := 0
  mode := .stop
  cycle := 0
  commandCycle := 0
  pathFollow := false

/-- Cycles since the active command was accepted; zero if the counter has wrapped
since then. -/
def elapsed (s : ControlState α) : UInt64 :=
  if s.commandCycle ≤ s.cycle then s.cycle - s.commandCycle else 0

/-- A command was accepted in this cycle: nothing is reached and nothing stalled. -/
def beginCommand (s : ControlState α) : ControlState α :=
  { s with
    reached := false
    intermediate := false
    status := .moving
    stalledCycles := 0
    commandCycle := s.cycle }

/-- No command, and no order behind it. -/
def zeroCommand [Scalar α] (s : ControlState α) : ControlState α :=
  { s with command := .zero, filtered := .zero }

end ControlState

/-- What an engine is built with and may be told anew while it runs. -/
structure EngineParameters (α : Type) where
  /-- The cycle period in seconds. -/
  period : α
  maxLinearSpeed : α
  maxAngularSpeed : α
  timeout : TimeoutSettings
  /-- A snapshot is queued every so many cycles; zero means never. -/
  telemetryInterval : UInt32
  deriving Repr, BEq

namespace EngineParameters

variable {α : Type}

/-- The speeds that a target may use: its part of the maximum speeds. -/
def speedFor [Scalar α] (p : EngineParameters α) (target : PathPose α) : Polar α :=
  let (linear, angular) := target.clampedRatios
  .speed (p.maxLinearSpeed * linear) (p.maxAngularSpeed * angular)

/-- The active command takes longer than it may. -/
def timedOut (p : EngineParameters α) (s : ControlState α) : Bool :=
  p.timeout.enabled && decide (p.timeout.cycles.toUInt64 < s.elapsed)

end EngineParameters

end MotionControl
