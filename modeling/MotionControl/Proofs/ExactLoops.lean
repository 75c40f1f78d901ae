import MotionControl.Proofs.Law
import MotionControl.Proofs.Scalar.Rational
import MotionControl.Proofs.Tree.Cascade

/-!
# Control loops in exact numbers

Loops whose settings passed their checks never fault, so in exact numbers each of them is a
function: what it commands, and what it is afterwards.

- `Pid.commandOn`, `Pid.after`: a cycle of a channel on an error.
- `SpeedRamp.limited`: a ramp on an order, a measured speed and a bound.
- `AxisCascade.orderOn`, `AxisCascade.rampedOn`, `AxisCascade.after`: a cycle of an axis.
- `Pid.compute_exact`, `SpeedRamp.limit_exact`, `AxisCascade.step_exact`: the loops are these
  functions.
-/

namespace MotionControl

open Scalar Outcome Rational

variable [PlaneFunctions]

/-- A bound that is not negative can be saturated to. -/
theorem orFault_clamp_exact (fault : Fault) {bound : ℚ} (h : 0 ≤ bound) (v : ℚ) :
    orFault fault (clamp? (-bound) bound v) = .ok (saturate bound v) := by
  rw [clamp?_eq h]
  rfl

/-! ## Channels -/

namespace Pid

/-- The integral after a cycle on an error. -/
def integralOn (p : Pid ℚ) (error : ℚ) : ℚ :=
  saturate p.gains.integralLimit (p.state.integral + error * p.period)

/-- The command on an error.  Without a positive period there is none. -/
def commandOn (p : Pid ℚ) (error : ℚ) : ℚ :=
  if p.period ≤ 0 then 0
  else p.gains.proportional * error + p.gains.integral * p.integralOn error
    + p.gains.derivative * (error - p.state.previousError) / p.period

/-- The channel after a cycle on an error. -/
def after (p : Pid ℚ) (error : ℚ) : Pid ℚ :=
  if p.period ≤ 0 then p else { p with state := ⟨p.integralOn error, error⟩ }

/-- A checked channel answers, with no rounding in between. -/
theorem compute_exact {p : Pid ℚ} (h : p.gains.check = .ok ()) (target measured : ℚ) :
    p.compute target measured
      = .ok (p.commandOn (target - measured), p.after (target - measured)) := by
  have hlimit : 0 ≤ p.gains.integralLimit := not_lt.mp (PidGains.integralLimit_isBound h).2
  unfold commandOn after
  by_cases hperiod : p.period ≤ 0
  · have hadvance : p.state.advance p.gains (target - measured) p.period = .ok (0, p.state) :=
      if_pos hperiod
    rw [if_pos hperiod, if_pos hperiod, compute, hadvance]
    rfl
  · have hadvance : p.state.advance p.gains (target - measured) p.period
        = (orFault .clampBounds (clamp? (-p.gains.integralLimit) p.gains.integralLimit
            (p.state.integral + (target - measured) * p.period))).bind fun integral =>
          .ok (p.gains.proportional * (target - measured) + p.gains.integral * integral
            + p.gains.derivative * ((target - measured) - p.state.previousError) / p.period,
            ⟨integral, target - measured⟩) := if_neg hperiod
    rw [if_neg hperiod, if_neg hperiod, compute, hadvance,
      orFault_clamp_exact _ hlimit]
    rfl

end Pid

/-! ## Ramps -/

/-- What the limits of a ramp are checked for. -/
theorem RampSettings.exact_of_check {s : RampSettings ℚ} (h : s.check = .ok ()) :
    0 ≤ s.minSpeed ∧ 0 < s.maxSpeed ∧ s.minSpeed ≤ s.maxSpeed ∧ 0 < s.maxAcceleration := by
  obtain ⟨_, hmin, h⟩ := bind_eq_ok_iff.mp h
  obtain ⟨_, hmax, h⟩ := bind_eq_ok_iff.mp h
  obtain ⟨_, hrange, haccel⟩ := bind_eq_ok_iff.mp h
  refine ⟨?_, ?_, ?_, ?_⟩
  · simpa using require_eq_ok_iff.mp hmin
  · simpa using require_eq_ok_iff.mp hmax
  · simpa using require_eq_ok_iff.mp hrange
  · simpa using require_eq_ok_iff.mp haccel

namespace SpeedRamp

/-- The greatest magnitude that the ramp lets through. -/
def cap (f : SpeedRamp ℚ) (bound : ℚ) : ℚ := min f.settings.maxSpeed |bound|

/-- The order, as far as it is within the cap and can be reached from the measured speed. -/
def reached (f : SpeedRamp ℚ) (order current bound : ℚ) : ℚ :=
  if 0 < f.period then
    current + saturate (f.settings.maxAcceleration * f.period)
      (saturate (f.cap bound) order - current)
  else saturate (f.cap bound) order

/-- The order that the speed loop tracks. -/
def limited (f : SpeedRamp ℚ) (order current bound : ℚ) : ℚ :=
  saturate (f.cap bound) (raise f.settings.minSpeed (f.reached order current bound))

/-- A checked ramp allows some speed in both directions. -/
theorem cap_nonneg {f : SpeedRamp ℚ} (h : f.settings.check = .ok ()) (bound : ℚ) :
    0 ≤ f.cap bound :=
  le_min (RampSettings.exact_of_check h).2.1.le (abs_nonneg bound)

/-- A checked ramp answers, with no rounding in between. -/
theorem limit_exact {f : SpeedRamp ℚ} (h : f.settings.check = .ok ()) (order current bound : ℚ) :
    f.limit order current bound = .ok (f.limited order current bound) := by
  obtain ⟨hmin, -, -, haccel⟩ := RampSettings.exact_of_check h
  have hcap : 0 ≤ f.cap bound := cap_nonneg h bound
  have hlesser : lesser f.settings.maxSpeed (Scalar.abs bound) = f.cap bound := lesser_eq ..
  unfold limit limited reached
  simp only [zero_eq]
  rw [hlesser, orFault_clamp_exact _ hcap, ok_bind]
  by_cases hperiod : 0 < f.period
  · have hreach : 0 ≤ f.settings.maxAcceleration * f.period := (mul_pos haccel hperiod).le
    rw [if_pos hperiod, if_pos hperiod,
      orFault_clamp_exact _ hreach]
    simp only [ok_bind, pure_bind, lift_eq hmin]
    rw [orFault_clamp_exact _ hcap]
  · rw [if_neg hperiod, if_neg hperiod]
    simp only [pure_bind, lift_eq hmin]
    rw [orFault_clamp_exact _ hcap]

omit [PlaneFunctions] in
/-- An order that is long enough, within the cap and within reach passes the ramp as it is. -/
theorem limited_of_near {f : SpeedRamp ℚ} {order current bound : ℚ}
    (hleast : f.settings.minSpeed ≤ |order|) (hcap : |order| ≤ f.cap bound)
    (hreach : |order - current| ≤ f.settings.maxAcceleration * f.period) :
    f.limited order current bound = order := by
  have hwithin : saturate (f.cap bound) order = order := saturate_of_abs_le hcap
  have hreached : f.reached order current bound = order := by
    rw [reached, hwithin, saturate_of_abs_le hreach, add_sub_cancel, ite_self]
  rw [limited, hreached, raise_of_le_abs hleast, hwithin]

end SpeedRamp

/-! ## Axes -/

/-- The signals that a single axis reads in a cycle. -/
structure AxisSignals (α : Type) where
  position : α
  target : α
  speed : α
  limit : α
  mode : α
  order : α

/-- In the order in which they are read. -/
def AxisSignals.toSignals {α : Type} (i : AxisSignals α) : List α :=
  [i.position, i.target, i.speed, i.limit, i.mode, i.order]

namespace AxisCascade

/-- The settings of all loops of an axis passed their checks. -/
structure Checked (a : AxisCascade ℚ) : Prop where
  position : a.position.gains.check = .ok ()
  ramp : a.ramp.settings.check = .ok ()
  speed : a.speed.gains.check = .ok ()

/-- The order that the mode picks. -/
def orderOn (a : AxisCascade ℚ) (i : AxisSignals ℚ) : ℚ :=
  if i.mode < 1 / 2 then a.position.commandOn (i.target - i.position) else i.order

/-- The order after the ramp. -/
def rampedOn (a : AxisCascade ℚ) (i : AxisSignals ℚ) : ℚ :=
  a.ramp.limited (a.orderOn i) i.speed i.limit

/-- The command of the axis. -/
def commandOn (a : AxisCascade ℚ) (i : AxisSignals ℚ) : ℚ :=
  a.speed.commandOn (a.rampedOn i - i.speed)

/-- The axis after a cycle. -/
def after (a : AxisCascade ℚ) (i : AxisSignals ℚ) : AxisCascade ℚ :=
  { a with
    position := a.position.after (i.target - i.position)
    speed := a.speed.after (a.rampedOn i - i.speed) }

/-- A checked axis answers, with no rounding in between. -/
theorem step_exact {a : AxisCascade ℚ} (h : a.Checked) (i : AxisSignals ℚ) :
    a.step i.target i.position i.speed i.limit i.mode i.order
      = .ok (a.commandOn i, a.rampedOn i, a.after i) := by
  have hhalf : (if i.mode < half then a.position.commandOn (i.target - i.position) else i.order)
      = a.orderOn i := by
    rw [orderOn, ← half_eq]
  rw [step, Pid.compute_exact h.position, ok_bind]
  dsimp only
  rw [hhalf, drive, SpeedRamp.limit_exact h.ramp, ok_bind, Pid.compute_exact h.speed]
  rfl

/-- The same as a machine that reads a list of signals. -/
theorem respond_exact {a : AxisCascade ℚ} (h : a.Checked) (i : AxisSignals ℚ) :
    (machine ℚ).respond a i.toSignals = some ([a.commandOn i, a.rampedOn i], a.after i) := by
  show (a.step i.target i.position i.speed i.limit i.mode i.order).toOption.map _ = _
  rw [step_exact h]
  rfl

/-- A cycle leaves the settings alone. -/
theorem Checked.after {a : AxisCascade ℚ} (h : a.Checked) (i : AxisSignals ℚ) :
    (a.after i).Checked := by
  have hgains : ∀ (p : Pid ℚ) (error : ℚ), (p.after error).gains = p.gains := by
    intro p error
    unfold Pid.after
    split <;> rfl
  refine ⟨?_, h.ramp, ?_⟩
  · exact (congrArg _ (hgains ..)).trans h.position
  · exact (congrArg _ (hgains ..)).trans h.speed

end AxisCascade

end MotionControl
