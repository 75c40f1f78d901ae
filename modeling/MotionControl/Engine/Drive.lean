import MotionControl.Control.Fault
import MotionControl.Geometry.Pose
import MotionControl.Settings.Drive

/-!
# Kinematics of a differential drive

Turning counter-clockwise is positive, so that a positive angular speed runs the
right wheel faster than the left.

- `DriveSettings.wheelSpeeds`: surface speeds of the wheels for a polar speed.
- `DriveSettings.duties`: the duties that are sent to the motors.
- `DriveSettings.speedOf`: the polar speed that duties produce.
-/

namespace MotionControl

open Scalar

/-- One value for each wheel. -/
structure Wheels (α : Type) where
  left : α
  right : α
  deriving Repr, BEq

namespace Wheels

/-- The wheels in the order in which actuators take them. -/
def toList {α : Type} (w : Wheels α) : List α := [w.left, w.right]

/-- The first two of a list of values; a wheel without a value gets zero. -/
def ofList {α : Type} [Scalar α] (values : List α) : Wheels α :=
  ⟨values[0]?.getD 0, values[1]?.getD 0⟩

/-- Wheels that stand. -/
def zero {α : Type} [Scalar α] : Wheels α := ⟨0, 0⟩

end Wheels

namespace DriveSettings

variable {α : Type} [Scalar α]

/-- Surface speeds in millimetres per second. -/
def wheelSpeeds (s : DriveSettings α) (speed : Polar α) : Wheels α :=
  let halfTurn := toRadians speed.angle * s.trackWidth / 2
  ⟨speed.distance - halfTurn, speed.distance + halfTurn⟩

/-- A duty within the band of the motor, its sign kept.  A duty that is zero or not
finite is zero. -/
def shapeDuty (s : DriveSettings α) (duty : α) : Except Fault α :=
  if duty == 0 || !isFinite duty then .ok 0
  else do
    let magnitude ← orFault .clampBounds (clamp? s.minDuty s.maxDuty (abs duty))
    .ok (copySign magnitude duty)

/-- Duties in percent, before the band is applied. -/
def rawDuties (s : DriveSettings α) (speed : Polar α) : Wheels α :=
  let v := s.wheelSpeeds speed
  ⟨v.left / (pi * s.leftDiameter) * s.leftConstant,
    v.right / (pi * s.rightDiameter) * s.rightConstant⟩

/-- Duties in percent. -/
def duties (s : DriveSettings α) (speed : Polar α) : Except Fault (Wheels α) := do
  let raw := s.rawDuties speed
  .ok ⟨← s.shapeDuty raw.left, ← s.shapeDuty raw.right⟩

/-- The polar speed that duties produce on an ideal drive. -/
def speedOf (s : DriveSettings α) (duties : Wheels α) : Polar α :=
  let left := duties.left / s.leftConstant * pi * s.leftDiameter
  let right := duties.right / s.rightConstant * pi * s.rightDiameter
  .speed ((left + right) / 2) (toDegrees ((right - left) / s.trackWidth))

end DriveSettings

end MotionControl
