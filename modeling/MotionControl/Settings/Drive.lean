import MotionControl.Settings.Problem

/-!
# Settings of a differential drive

- `DriveSettings`: wheel geometry, motor scaling and the band of duties.
-/

namespace MotionControl

open Scalar

/-- Geometry in millimetres, motor constants in duty percent per wheel revolution
per second, duties in percent. -/
structure DriveSettings (α : Type) where
  trackWidth : α
  leftDiameter : α
  rightDiameter : α
  leftConstant : α
  rightConstant : α
  /-- Duties other than zero are raised to this magnitude. -/
  minDuty : α
  maxDuty : α
  deriving Repr, BEq

namespace DriveSettings

variable {α : Type} [Scalar α]

/-- The measures of the demonstration vehicle. -/
def default : DriveSettings α := ⟨250, 60, 60, 30, 30, 0, 100⟩

/-- A length or a constant has to be positive and finite. -/
def requirePositive (what : String) (v : α) : Except (Problem α) Unit :=
  require (0 < v && isFinite v) (.notPositive what v)

/-- All measures are positive, and both duties are percentages, the least not above the greatest. -/
def check (s : DriveSettings α) : Except (Problem α) Unit := do
  requirePositive "track_width_mm" s.trackWidth
  requirePositive "left_wheel_diameter_mm" s.leftDiameter
  requirePositive "right_wheel_diameter_mm" s.rightDiameter
  requirePositive "left_motor_constant" s.leftConstant
  requirePositive "right_motor_constant" s.rightConstant
  require (0 ≤ s.maxDuty && s.maxDuty ≤ 100 && !(s.maxDuty == 0))
    (.outsideBounds "max_duty_percent" s.maxDuty ⟨0, true, 100⟩)
  require (!decide (s.minDuty < 0) && !decide (s.maxDuty < s.minDuty))
    (.outsideBounds "min_duty_percent" s.minDuty ⟨0, false, s.maxDuty⟩)

end DriveSettings

end MotionControl
