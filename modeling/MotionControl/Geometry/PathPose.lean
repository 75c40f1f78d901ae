import MotionControl.Geometry.Pose

/-!
# Poses with constraints on the move that reaches them

- `PathPose`: a pose, whether it may be reached backwards, which part of the
  configured maximum speeds may be used, and whether more poses follow it.
- `PathPose.clampedRatios`: the speed ratios brought into `[0, 1]`.
-/

namespace MotionControl

open Scalar

/-- A ratio brought into `[0, 1]`; not a number counts as zero. -/
def clampRatio {α : Type} [Scalar α] (ratio : α) : α :=
  if isNaN ratio then 0
  else if ratio < 0 then 0
  else if 1 < ratio then 1
  else ratio

/-- A target pose with its motion constraints. -/
structure PathPose (α : Type) where
  pose : Pose α
  /-- The pose may be reached driving backwards. -/
  allowReverse : Bool
  /-- The part of the maximum linear speed that may be used. -/
  linearRatio : α
  /-- The part of the maximum angular speed that may be used. -/
  angularRatio : α
  /-- A pose on the way, not the last one of its path. -/
  intermediate : Bool
  deriving Repr, BEq

namespace PathPose

variable {α : Type} [Scalar α]

/-- A last pose, reached forwards at full speed. -/
def final (pose : Pose α) : PathPose α where
  pose
  allowReverse := false
  linearRatio := 1
  angularRatio := 1
  intermediate := false

/-- The same waypoint, approached backward or not. -/
def withReverse (p : PathPose α) (allow : Bool) : PathPose α :=
  { p with allowReverse := allow }

/-- The same waypoint as one on the way, or as the last one. -/
def withIntermediate (p : PathPose α) (intermediate : Bool) : PathPose α :=
  { p with intermediate }

/-- The ratios are clamped as they are set. -/
def withSpeedRatios (p : PathPose α) (linear angular : α) : PathPose α :=
  { p with linearRatio := clampRatio linear, angularRatio := clampRatio angular }

/-- Ratios that were written unchecked are clamped where they are used. -/
def clampedRatios (p : PathPose α) : α × α := (clampRatio p.linearRatio, clampRatio p.angularRatio)

end PathPose

end MotionControl
