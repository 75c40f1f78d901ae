import MotionControl.Settings.Controllers
import MotionControl.Settings.Drive
import MotionControl.Settings.Supervision

/-!
# Settings of one engine

- `PlatformSettings`: a whole vehicle on a differential drive.
- `MotorSettings`: a single axis with a position loop and a speed loop.

`check` reports the first problem in field order, under the path of its table.
-/

namespace MotionControl

open Scalar

/-- Settings of the vehicle engine. -/
structure PlatformSettings (α : Type) where
  maxLinearSpeed : α
  maxAngularSpeed : α
  /-- Load the next waypoint once the current one is reached. -/
  pathFollow : Bool
  linearPosition : PidGains α
  angularPosition : PidGains α
  linearSpeed : PidGains α
  angularSpeed : PidGains α
  straightMove : StraightMoveSettings α
  linearRamp : RampSettings α
  angularRamp : RampSettings α
  stall : StallSettings α
  arrival : ArrivalSettings α
  timeout : TimeoutSettings
  drive : DriveSettings α
  deriving Repr, BEq

namespace PlatformSettings

variable {α : Type} [Scalar α]

/-- The vehicle when nothing is given. -/
def default : PlatformSettings α where
  maxLinearSpeed := 500
  maxAngularSpeed := 180
  pathFollow := true
  linearPosition := .ofProportional 2
  angularPosition := .ofProportional 3
  linearSpeed := .ofIntegral 25
  angularSpeed := .ofIntegral 25
  straightMove := .default
  linearRamp := .default
  angularRamp := .default
  stall := .default
  arrival := .default
  timeout := .default
  drive := .default

/-- The checks of the vehicle itself and of all its blocks, in the order of the document.  The first
one that fails is reported with the path of its block. -/
def check (s : PlatformSettings α) : Except (SettingsError α) Unit := do
  inSection ["platform"] do
    require (0 < s.maxLinearSpeed && isFinite s.maxLinearSpeed)
      (.notPositive "max_linear_speed" s.maxLinearSpeed)
    require (0 < s.maxAngularSpeed && isFinite s.maxAngularSpeed)
      (.notPositive "max_angular_speed" s.maxAngularSpeed)
  inSection ["platform", "linear_position_pid"] s.linearPosition.check
  inSection ["platform", "angular_position_pid"] s.angularPosition.check
  inSection ["platform", "linear_speed_pid"] s.linearSpeed.check
  inSection ["platform", "angular_speed_pid"] s.angularSpeed.check
  inSection ["platform", "pose_straight"] s.straightMove.check
  inSection ["platform", "linear_speed_filter"] s.linearRamp.check
  inSection ["platform", "angular_speed_filter"] s.angularRamp.check
  inSection ["platform", "blocking"] s.stall.check
  inSection ["platform", "pose_reached"] s.arrival.check
  inSection ["platform", "timeout"] s.timeout.check
  inSection ["platform", "drive"] s.drive.check

end PlatformSettings

/-- Settings of a single-axis engine. -/
structure MotorSettings (α : Type) where
  name : String
  maxSpeed : α
  /-- Closer to the target than this counts as reached. -/
  positionThreshold : α
  position : PidGains α
  speed : PidGains α
  ramp : RampSettings α
  stall : StallSettings α
  timeout : TimeoutSettings
  deriving Repr, BEq

namespace MotorSettings

variable {α : Type} [Scalar α]

/-- The defaults of the motor called `name`. -/
def named (name : String) : MotorSettings α where
  name
  maxSpeed := 100
  positionThreshold := 1
  position := .ofProportional 5
  speed := .ofIntegral 25
  ramp := .default
  stall := .default
  timeout := .default

/-- The checks of the axis itself and of all its blocks, reported under its name. -/
def check (s : MotorSettings α) : Except (SettingsError α) Unit := do
  inSection ["motors"] (require (s.name != "") (.emptyText "name"))
  inSection ["motors", s.name, "max_speed"]
    (require (0 < s.maxSpeed && isFinite s.maxSpeed) (.valueNotPositive s.maxSpeed))
  inSection ["motors", s.name, "position_threshold"]
    (require (0 < s.positionThreshold && isFinite s.positionThreshold)
      (.valueNotPositive s.positionThreshold))
  inSection ["motors", s.name, "position_pid"] s.position.check
  inSection ["motors", s.name, "speed_pid"] s.speed.check
  inSection ["motors", s.name, "speed_filter"] s.ramp.check
  inSection ["motors", s.name, "blocking"] s.stall.check
  inSection ["motors", s.name, "timeout"] s.timeout.check

end MotorSettings

end MotionControl
