import MotionControl.Scalar

/-!
# Poses and polar vectors in the plane

Distances are in millimetres and angles in degrees.

- `wrapDegrees`: the representative of an angle in `(-180, 180]`.
- `Pose`: a position with an orientation.  `Pose.of` and the `with…` operations
  wrap the orientation on every write, so that poses with the same heading are
  equal.
- `Polar`: a displacement, or a speed, as a length and an angle.  Displacements
  are wrapped (`Polar.displacement`); speeds are not (`Polar.speed`).
- `Pose.polarErrorTo`: where a target lies, seen from a pose.
-/

namespace MotionControl

open Scalar

/-- The angle in `(-180, 180]` that differs from `angle` by whole turns.  An
angle that is not finite has no representative and is returned as it is. -/
def wrapDegrees {α : Type} [Scalar α] (angle : α) : α :=
  if isFinite angle then
    let a := remainder angle 360
    if 180 < a then a - 360
    else if a ≤ -180 then a + 360
    else a
  else angle

/-- A displacement or a speed in polar form: millimetres and degrees, or
millimetres and degrees per second. -/
structure Polar (α : Type) where
  distance : α
  angle : α
  deriving Repr, BEq

namespace Polar

variable {α : Type} [Scalar α]

/-- A displacement, its bearing wrapped. -/
def displacement (distance angle : α) : Polar α := ⟨distance, wrapDegrees angle⟩

/-- A linear and an angular speed; turning rates are not angles and are not wrapped. -/
def speed (linear angular : α) : Polar α := ⟨linear, angular⟩

/-- No displacement, or rest. -/
def zero : Polar α := ⟨0, 0⟩

/-- The same displacement driven backwards: the distance negated and the bearing
turned by half a turn. -/
def reverse (v : Polar α) : Polar α where
  distance := -v.distance
  angle := if v.angle < 0 then v.angle + 180 else v.angle - 180

/-- Whether both components are finite. -/
def isFinite (v : Polar α) : Bool := Scalar.isFinite v.distance && Scalar.isFinite v.angle

end Polar

/-- A position in the plane and the direction faced there. -/
structure Pose (α : Type) where
  x : α
  y : α
  /-- Degrees in `(-180, 180]`. -/
  orientation : α
  deriving Repr, BEq

namespace Pose

variable {α : Type} [Scalar α]

/-- The pose at `(x, y)` that faces `orientation`, which is wrapped. -/
def of (x y orientation : α) : Pose α := ⟨x, y, wrapDegrees orientation⟩

/-- The pose at the origin that faces along the abscissa. -/
def origin : Pose α := ⟨0, 0, 0⟩

/-- The same pose at another abscissa. -/
def withX (p : Pose α) (x : α) : Pose α := { p with x }

/-- The same pose at another ordinate. -/
def withY (p : Pose α) (y : α) : Pose α := { p with y }

/-- The same position with another orientation, which is wrapped. -/
def withOrientation (p : Pose α) (orientation : α) : Pose α :=
  { p with orientation := wrapDegrees orientation }

/-- The distance between two positions. -/
def distanceTo (p q : Pose α) : α := hypotenuse (q.x - p.x) (q.y - p.y)

/-- The shortest turn from one heading to the other. -/
def headingErrorTo (p q : Pose α) : α := wrapDegrees (q.orientation - p.orientation)

/-- The distance to a target and its bearing relative to the heading. -/
def polarErrorTo (p target : Pose α) : Polar α :=
  let dx := target.x - p.x
  let dy := target.y - p.y
  .displacement (hypotenuse dx dy) (toDegrees (arctangent dy dx) - p.orientation)

end Pose

end MotionControl
