import MotionControl.Decimal.Layout
import MotionControl.Engine.ControlState

/-!
# Telemetry snapshots

- `Snapshot.capture`: what is recorded of a state at the end of a cycle.
- `Snapshot.record`: the snapshot as one line of text, an object whose fields come
  in a fixed order, without its line end.
-/

namespace MotionControl

/-- The end of one cycle, modes and flags as codes. -/
structure Snapshot (α : Type) where
  cycle : UInt64
  mode : UInt8
  status : UInt8
  reached : UInt8
  intermediate : UInt8
  stalledCycles : UInt32
  pose : Pose α
  target : Pose α
  speed : Polar α
  command : Polar α
  deriving Repr, BEq

namespace Snapshot

/-- The code of a truth value. -/
def flagCode (b : Bool) : UInt8 := if b then 1 else 0

/-- The snapshot of a state. -/
def capture {α : Type} (s : ControlState α) : Snapshot α where
  cycle := s.cycle
  mode := s.mode.code
  status := s.status.code
  reached := flagCode s.reached
  intermediate := flagCode s.intermediate
  stalledCycles := s.stalledCycles
  pose := s.pose
  target := s.target.pose
  speed := s.speed
  command := s.command

/-- The whole numbers of a record, by name. -/
def counters {α : Type} (s : Snapshot α) : List (String × Nat) := [
  ("cycle", s.cycle.toNat),
  ("mode", s.mode.toNat),
  ("pose_status", s.status.toNat),
  ("pose_reached", s.reached.toNat),
  ("pose_intermediate", s.intermediate.toNat),
  ("blocking_cycles", s.stalledCycles.toNat)]

/-- The measurements and commands of a record, by name. -/
def quantities {α : Type} (s : Snapshot α) : List (String × α) := [
  ("pose_x", s.pose.x),
  ("pose_y", s.pose.y),
  ("pose_orientation", s.pose.orientation),
  ("target_x", s.target.x),
  ("target_y", s.target.y),
  ("target_orientation", s.target.orientation),
  ("speed_linear", s.speed.distance),
  ("speed_angular", s.speed.angle),
  ("command_linear", s.command.distance),
  ("command_angular", s.command.angle)]

/-- One field of a record. -/
def fieldText (name shown : String) : String := "\"" ++ name ++ "\":" ++ shown

/-- The line of a snapshot: counters first, then quantities. -/
def record (s : Snapshot Float) : String :=
  let fields := s.counters.map (fun (name, n) => fieldText name (toString n))
    ++ s.quantities.map (fun (name, x) => fieldText name (Layout.record.render x))
  "\x7b" ++ ",".intercalate fields ++ "\x7d"

end Snapshot

end MotionControl
