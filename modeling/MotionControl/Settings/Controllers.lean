import MotionControl.Settings.Problem

/-!
# Settings of the controller laws

- `PidGains`: proportional, integral and derivative gains with an integral clamp.
- `StraightMoveSettings`: thresholds of the rotate, drive, rotate move.
- `RampSettings`: limits of a speed order.

Every block has defaults and a `check` that reports its first problem.
-/

namespace MotionControl

open Scalar

/-- Gains of a PID channel.  A gain of zero switches its term off. -/
structure PidGains (α : Type) where
  proportional : α
  integral : α
  derivative : α
  /-- The integral is kept within this distance of zero. -/
  integralLimit : α
  deriving Repr, BEq

namespace PidGains

variable {α : Type} [Scalar α]

/-- Proportional gain only, with an unlimited integral. -/
def ofProportional (gain : α) : PidGains α := ⟨gain, 0, 0, greatest⟩

/-- Integral gain only: the command settles on the order without a lasting error. -/
def ofIntegral (gain : α) : PidGains α := ⟨0, gain, 0, greatest⟩

/-- Gains that command nothing. -/
def default : PidGains α := ofProportional 0

/-- All gains are finite, and the bound of the integral is not negative. -/
def check (g : PidGains α) : Except (Problem α) Unit := do
  require (isFinite g.proportional) (.notFinite "kp" g.proportional)
  require (isFinite g.integral) (.notFinite "ki" g.integral)
  require (isFinite g.derivative) (.notFinite "kd" g.derivative)
  require (!isNaN g.integralLimit && !decide (g.integralLimit < 0))
    (.negative "integral_limit" g.integralLimit)

end PidGains

/-- Thresholds of the straight-line move. -/
structure StraightMoveSettings (α : Type) where
  /-- Turn on the spot while the bearing is off by more than this. -/
  angularThreshold : α
  /-- Within this distance the position counts as reached. -/
  linearThreshold : α
  /-- Leave out the last turn to the target orientation. -/
  bypassFinalOrientation : Bool
  deriving Repr, BEq

namespace StraightMoveSettings

variable {α : Type} [Scalar α]

/-- The thresholds when none are given; the last rotation is not skipped. -/
def default : StraightMoveSettings α := ⟨2, 5, false⟩

/-- The angular threshold is an angle, and the linear one a distance. -/
def check (s : StraightMoveSettings α) : Except (Problem α) Unit := do
  require (0 ≤ s.angularThreshold && s.angularThreshold ≤ 180)
    (.outsideBounds "angular_threshold" s.angularThreshold ⟨0, false, 180⟩)
  require (0 ≤ s.linearThreshold && isFinite s.linearThreshold)
    (.notFiniteOrNegative "linear_threshold" s.linearThreshold)

end StraightMoveSettings

/-- Limits of a speed order before it reaches the speed loop. -/
structure RampSettings (α : Type) where
  /-- Orders other than zero are raised to this magnitude. -/
  minSpeed : α
  maxSpeed : α
  /-- How fast the order may move away from the measured speed. -/
  maxAcceleration : α
  deriving Repr, BEq

namespace RampSettings

variable {α : Type} [Scalar α]

/-- No speed is raised, and none is limited but by the greatest number. -/
def default : RampSettings α := ⟨0, greatest, greatest⟩

/-- Both speeds and the acceleration are numbers, and the least speed is not above the greatest one.
-/
def check (s : RampSettings α) : Except (Problem α) Unit := do
  require (!isNaN s.minSpeed && !decide (s.minSpeed < 0)) (.negative "min_speed" s.minSpeed)
  require (!isNaN s.maxSpeed && !decide (s.maxSpeed ≤ 0)) (.notPositive "max_speed" s.maxSpeed)
  require (!decide (s.maxSpeed < s.minSpeed)) (.minimumExceedsMaximum s.minSpeed s.maxSpeed)
  require (!isNaN s.maxAcceleration && !decide (s.maxAcceleration ≤ 0))
    (.notPositive "max_acceleration" s.maxAcceleration)

end RampSettings

end MotionControl
