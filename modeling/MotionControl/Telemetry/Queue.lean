import MotionControl.Telemetry.Snapshot

/-!
# The telemetry queue

The bounded hand-off from the cycle to whoever publishes.  A full queue drops the
new snapshot and counts the loss, so that a cycle never waits.

- `TelemetryQueue.push`, `TelemetryQueue.pop`: the two ends.
-/

namespace MotionControl

/-- Snapshots in the order in which they were taken, and how many were lost. -/
structure TelemetryQueue (α : Type) where
  snapshots : List (Snapshot α)
  dropped : UInt64
  deriving Repr, BEq

namespace TelemetryQueue

variable {α : Type}

/-- The most snapshots that wait at a time. -/
def depth : Nat := 64

/-- Nothing waits, and nothing was lost. -/
def empty : TelemetryQueue α := ⟨[], 0⟩

/-- How many snapshots wait. -/
def length (q : TelemetryQueue α) : Nat := q.snapshots.length

/-- No snapshot waits. -/
def isEmpty (q : TelemetryQueue α) : Bool := q.snapshots.isEmpty

/-- Queues a snapshot, and says whether there was room for it. -/
def push (q : TelemetryQueue α) (s : Snapshot α) : Bool × TelemetryQueue α :=
  if q.length < depth then (true, { q with snapshots := q.snapshots ++ [s] })
  else (false, { q with dropped := q.dropped + 1 })

/-- Takes the oldest snapshot. -/
def pop (q : TelemetryQueue α) : Option (Snapshot α × TelemetryQueue α) :=
  match q.snapshots with
  | [] => none
  | s :: rest => some (s, { q with snapshots := rest })

/-- The queue in a diagnostic message. -/
def describe (q : TelemetryQueue α) : String :=
  "TelemetryQueue \x7b len: " ++ toString q.length ++ ", dropped: " ++ toString q.dropped ++ " \x7d"

/-! ## What waits and what is lost -/

/-- With room in the queue a snapshot is taken. -/
theorem push_of_lt {q : TelemetryQueue α} (s : Snapshot α) (h : q.length < depth) :
    q.push s = (true, { q with snapshots := q.snapshots ++ [s] }) := if_pos h

/-- Without room it is lost, and what waits stays as it is. -/
theorem push_of_le {q : TelemetryQueue α} (s : Snapshot α) (h : depth ≤ q.length) :
    q.push s = (false, { q with dropped := q.dropped + 1 }) := if_neg (Nat.not_lt.mpr h)

theorem pop_nil {q : TelemetryQueue α} (h : q.snapshots = []) : q.pop = none := by
  unfold pop
  rw [h]

theorem pop_cons {q : TelemetryQueue α} {s : Snapshot α} {rest : List (Snapshot α)}
    (h : q.snapshots = s :: rest) : q.pop = some (s, { q with snapshots := rest }) := by
  unfold pop
  rw [h]

end TelemetryQueue

end MotionControl
