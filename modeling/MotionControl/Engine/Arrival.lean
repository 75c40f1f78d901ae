import MotionControl.Geometry.PathPose
import MotionControl.Mode
import MotionControl.Settings.Supervision

/-!
# Arrival at a target

- `ArrivalJudge.judge`: the status of a target, seen from the current pose.

A pose on the way only needs its position.  The last pose of a path needs position
and heading, in one cycle or one after the other, as the policy says.
-/

namespace MotionControl

open Scalar

/-- Tolerances, and whether the position was within its own since the last reset. -/
structure ArrivalJudge (α : Type) where
  settings : ArrivalSettings α
  /-- Only the sequential policy remembers. -/
  positionLatched : Bool
  deriving Repr, BEq

namespace ArrivalJudge

variable {α : Type}

/-- A judge of a command that has just begun. -/
def fresh (settings : ArrivalSettings α) : ArrivalJudge α := ⟨settings, false⟩

/-- A new target begins without a latched position. -/
def reset (j : ArrivalJudge α) : ArrivalJudge α := { j with positionLatched := false }

/-- Other tolerances; the latch is kept. -/
def withSettings (j : ArrivalJudge α) (settings : ArrivalSettings α) : ArrivalJudge α :=
  { j with settings }

variable [Scalar α]

/-- The place of the target is within the tolerance. -/
def positionHolds (j : ArrivalJudge α) (current : Pose α) (target : PathPose α) : Bool :=
  decide (current.distanceTo target.pose < j.settings.linearThreshold)

/-- The heading of the target is within the tolerance. -/
def headingHolds (j : ArrivalJudge α) (current : Pose α) (target : PathPose α) : Bool :=
  decide (abs (current.headingErrorTo target.pose) < j.settings.angularThreshold)

/-- The status of a target and the judge after it. -/
def judge (j : ArrivalJudge α) (current : Pose α) (target : PathPose α) :
    MoveStatus × ArrivalJudge α :=
  let position := j.positionHolds current target
  let heading := j.headingHolds current target
  if target.intermediate then
    (if position then .intermediateReached else .moving, j)
  else
    match j.settings.policy with
    | .simultaneous => (if position && heading then .reached else .moving, j)
    | .sequential =>
      let latched := j.positionLatched || position
      (if latched && heading then .reached else .moving, { j with positionLatched := latched })

end ArrivalJudge

end MotionControl
