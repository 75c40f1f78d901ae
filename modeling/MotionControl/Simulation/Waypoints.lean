import MotionControl.Engine.Surroundings

/-!
# A queue of waypoints

First in, first out.  More waypoints may be added at any time, and a hold keeps an
engine at the one it has reached.

- `WaypointQueue.push`, `WaypointQueue.extend`: adding.
- `WaypointQueue.source`: the queue as the target source of an engine.
-/

namespace MotionControl

/-- The poses of a path that are still ahead, the current one first. -/
structure WaypointQueue (α : Type) where
  poses : List (PathPose α)
  /-- The current waypoint must not be left. -/
  hold : Bool
  deriving Repr, BEq

namespace WaypointQueue

variable {α : Type}

/-- A path without poses, and no hold. -/
def empty : WaypointQueue α := ⟨[], false⟩

/-- How many waypoints are ahead. -/
def length (q : WaypointQueue α) : Nat := q.poses.length

/-- The path is complete. -/
def isEmpty (q : WaypointQueue α) : Bool := q.poses.isEmpty

/-- One more waypoint at the end of the path. -/
def push (q : WaypointQueue α) (target : PathPose α) : WaypointQueue α :=
  { q with poses := q.poses ++ [target] }

/-- Holds the vehicle at the current waypoint, or lets it go on. -/
def setHold (q : WaypointQueue α) (hold : Bool) : WaypointQueue α := { q with hold }

/-- The waypoint to be headed for. -/
def current? (q : WaypointQueue α) : Option (PathPose α) := q.poses.head?

/-- The current waypoint may be left once it is reached. -/
def mayAdvance (q : WaypointQueue α) : Bool := !q.hold

/-- Drops the current waypoint. -/
def advance (q : WaypointQueue α) : WaypointQueue α := { q with poses := q.poses.tail }

variable [Scalar α]

/-- A path: every pose but the last is one on the way. -/
def path : List (Pose α) → List (PathPose α)
  | [] => []
  | [last] => [.final last]
  | pose :: rest => (PathPose.final pose).withIntermediate true :: path rest

/-- Adds a path. -/
def extend (q : WaypointQueue α) (poses : List (Pose α)) : WaypointQueue α :=
  { q with poses := q.poses ++ path poses }

/-- A queue that holds one path. -/
def ofPath (poses : List (Pose α)) : WaypointQueue α := empty.extend poses

/-- The queue at some place in a world, as a source of targets. -/
def source {σ : Type} (get : σ → WaypointQueue α) (set : WaypointQueue α → σ → σ) :
    TargetSource α σ where
  current world := (get world).current?
  mayAdvance world := (get world).mayAdvance
  advance world := set (get world).advance world

end WaypointQueue

end MotionControl
