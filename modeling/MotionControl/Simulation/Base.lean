import MotionControl.Engine.Drive
import MotionControl.Engine.Surroundings

/-!
# A simulated vehicle

A differential drive on a flat floor, with ideal motors: the speed commanded in one
cycle is the speed measured in the next.

- `SimulatedBase.advance`: one measurement, which moves the vehicle by one period.
- `SimulatedBase.apply`, `SimulatedBase.release`: the motors.
-/

namespace MotionControl

open Scalar

/-- The vehicle and what it was told last. -/
structure SimulatedBase (α : Type) where
  drive : DriveSettings α
  /-- The cycle period in seconds. -/
  period : α
  pose : Pose α
  /-- The speed measured last. -/
  speed : Polar α
  commanded : Polar α
  duties : Wheels α
  /-- The wheels hold torque. -/
  enabled : Bool
  /-- An obstacle keeps the vehicle where it is. -/
  blocked : Bool

namespace SimulatedBase

variable {α : Type} [Scalar α]

/-- At rest at the origin, motors off. -/
def fresh (drive : DriveSettings α) (period : α) : SimulatedBase α where
  drive
  period
  pose := .origin
  speed := .zero
  commanded := .zero
  duties := .zero
  enabled := false
  blocked := false

/-- Moves by one period along the current heading, then turns, and measures. -/
def advance (b : SimulatedBase α) : Odometry α × SimulatedBase α :=
  let speed := if b.blocked || !b.enabled then .zero else b.commanded
  let heading := toRadians b.pose.orientation
  let pose := Pose.of
    (b.pose.x + speed.distance * cosine heading * b.period)
    (b.pose.y + speed.distance * sine heading * b.period)
    (b.pose.orientation + speed.angle * b.period)
  (⟨pose, speed⟩, { b with pose, speed })

/-- Puts the vehicle at a pose, and leaves its speed as it is. -/
def reseat (b : SimulatedBase α) (pose : Pose α) : SimulatedBase α := { b with pose }

/-- Duties for the motors, which switch on. -/
def apply (b : SimulatedBase α) (commands : List α) : SimulatedBase α :=
  let duties := Wheels.ofList commands
  { b with duties, commanded := b.drive.speedOf duties, enabled := true }

/-- Motors off. -/
def release (b : SimulatedBase α) : SimulatedBase α :=
  { b with duties := .zero, commanded := .zero, enabled := false }

/-- Puts an obstacle in the way of the vehicle, or takes it away. -/
def setBlocked (b : SimulatedBase α) (blocked : Bool) : SimulatedBase α := { b with blocked }

end SimulatedBase

end MotionControl
