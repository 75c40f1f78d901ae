import MotionControl.Control.Fault
import MotionControl.Settings.Controllers

/-!
# PID channels

Proportional, integral and derivative terms with rectangular integration.  The
integral is clamped, so that it does not wind up while the output saturates.

- `PidState.advance`: one cycle on an error.
- `Pid`: a channel with its gains, its state and the cycle period.
-/

namespace MotionControl

open Scalar

/-- What a channel remembers from cycle to cycle. -/
structure PidState (α : Type) where
  /-- The clamped integral of the error. -/
  integral : α
  previousError : α
  deriving Repr, BEq

namespace PidState

variable {α : Type} [Scalar α]

/-- Nothing is remembered. -/
def zero : PidState α := ⟨0, 0⟩

/-- One cycle: the command and the state after it.  A period that is not positive
gives no command and leaves the state alone. -/
def advance (s : PidState α) (gains : PidGains α) (error period : α) :
    Except Fault (α × PidState α) :=
  if period ≤ 0 then .ok (0, s)
  else do
    let limit := gains.integralLimit
    let integral ← orFault .clampBounds (clamp? (-limit) limit (s.integral + error * period))
    let derivative := gains.derivative * (error - s.previousError) / period
    .ok (gains.proportional * error + gains.integral * integral + derivative,
      ⟨integral, error⟩)

end PidState

/-- A channel: gains, state and the cycle period in seconds. -/
structure Pid (α : Type) where
  gains : PidGains α
  state : PidState α
  period : α
  deriving Repr, BEq

namespace Pid

variable {α : Type} [Scalar α]

/-- A channel at rest. -/
def fresh (gains : PidGains α) (period : α) : Pid α := ⟨gains, .zero, period⟩

/-- One cycle on the difference between a target and a measurement. -/
def compute (p : Pid α) (target measured : α) : Except Fault (α × Pid α) := do
  let (command, state) ← p.state.advance p.gains (target - measured) p.period
  .ok (command, { p with state })

/-- Forgets the integral and the last error. -/
def reset (p : Pid α) : Pid α := { p with state := .zero }

/-- Other gains; what was accumulated is kept. -/
def withGains (p : Pid α) (gains : PidGains α) : Pid α := { p with gains }

end Pid

end MotionControl
