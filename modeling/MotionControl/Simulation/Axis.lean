import MotionControl.Engine.Surroundings

/-!
# A simulated axis

A linear axis that is commanded a speed and moves with it at once.

- `SimulatedAxis.advance`: one measurement, which moves the axis by one period.
- `SimulatedAxis.apply`, `SimulatedAxis.release`: the motor.
-/

namespace MotionControl

/-- The axis and what it was told last. -/
structure SimulatedAxis (α : Type) where
  /-- The cycle period in seconds. -/
  period : α
  position : α
  /-- The speed measured last. -/
  speed : α
  commanded : α
  /-- The motor holds torque. -/
  enabled : Bool
  /-- An obstacle keeps the axis where it is. -/
  blocked : Bool

namespace SimulatedAxis

variable {α : Type} [Scalar α]

/-- At rest at zero, motor off. -/
def fresh (period : α) : SimulatedAxis α where
  period
  position := 0
  speed := 0
  commanded := 0
  enabled := false
  blocked := false

/-- Moves by one period and measures. -/
def advance (a : SimulatedAxis α) : AxisReading α × SimulatedAxis α :=
  let speed := if a.blocked || !a.enabled then 0 else a.commanded
  let position := a.position + speed * a.period
  (⟨position, speed⟩, { a with position, speed })

omit [Scalar α] in
/-- Puts the axis at a position, and leaves its speed as it is. -/
def reseat (a : SimulatedAxis α) (position : α) : SimulatedAxis α := { a with position }

/-- A speed for the motor, which switches on. -/
def apply (a : SimulatedAxis α) (commands : List α) : SimulatedAxis α :=
  { a with commanded := commands.head?.getD 0, enabled := true }

/-- Motor off. -/
def release (a : SimulatedAxis α) : SimulatedAxis α :=
  { a with commanded := 0, enabled := false }

omit [Scalar α] in
/-- Puts an obstacle in the way of the axis, or takes it away. -/
def setBlocked (a : SimulatedAxis α) (blocked : Bool) : SimulatedAxis α := { a with blocked }

end SimulatedAxis

end MotionControl
