import MotionControl.Geometry.Pose
import MotionControl.Proofs.Scalar.Rational

/-!
# Exact poses

Over exact numbers every angle has a representative in `(-180, 180]`, also one that is many turns
away from it, and poses compare equal when they are.

- `Rational.abs_remainder_lt`: what a division truncated toward zero leaves.
- `Rational.wrapDegrees_mem`: every angle is brought into `(-180, 180]`.
- `Polar.abs_reverse_angle_lt`: a displacement that lies behind lies ahead when driven backwards.
- `Pose.beq_iff`: the comparison of poses.
-/

namespace MotionControl

namespace Rational

open Scalar

/-- Truncation goes less than one step. -/
theorem abs_sub_truncate_lt (a : ℚ) : |a - truncate a| < 1 := by
  unfold truncate
  rw [abs_lt]
  by_cases h : 0 ≤ a
  · rw [if_pos h]
    have hfloor := Int.floor_le a
    have hnext := Int.lt_floor_add_one a
    constructor <;> linarith
  · rw [if_neg h]
    have hceil := Int.le_ceil a
    have hnext := Int.ceil_lt_add_one a
    constructor <;> linarith

variable [PlaneFunctions]

theorem remainder_eq (a b : ℚ) : remainder a b = a - b * truncate (a / b) := rfl

/-- What is left of a division is shorter than the divisor. -/
theorem abs_remainder_lt (a : ℚ) {b : ℚ} (h : 0 < b) : |remainder a b| < b := by
  have hscaled : remainder a b = b * (a / b - truncate (a / b)) := by
    rw [remainder_eq, mul_sub, mul_div_cancel₀ a h.ne']
  rw [hscaled, abs_mul, abs_of_pos h]
  exact mul_lt_of_lt_one_right h (abs_sub_truncate_lt _)

/-- How an exact angle is wrapped. -/
theorem wrapDegrees_eq (a : ℚ) :
    wrapDegrees a = if 180 < remainder a 360 then remainder a 360 - 360
      else if remainder a 360 ≤ -180 then remainder a 360 + 360 else remainder a 360 := rfl

/-- What it is wrapped into. -/
theorem wrapDegrees_mem (a : ℚ) : wrapDegrees a ∈ Set.Ioc (-180) 180 := by
  obtain ⟨hlow, hhigh⟩ := abs_lt.mp (abs_remainder_lt a (b := 360) (by norm_num))
  rw [wrapDegrees_eq, Set.mem_Ioc]
  by_cases hgreater : 180 < remainder a 360
  · rw [if_pos hgreater]
    constructor <;> linarith
  · rw [if_neg hgreater]
    by_cases hless : remainder a 360 ≤ -180
    · rw [if_pos hless]
      constructor <;> linarith
    · rw [if_neg hless]
      exact ⟨not_le.mp hless, not_lt.mp hgreater⟩

end Rational

namespace Polar

variable [PlaneFunctions] {v : Polar ℚ}

/-- Going backward turns the bearing by half a turn, toward zero. -/
theorem reverse_angle (v : Polar ℚ) :
    v.reverse.angle = if v.angle < 0 then v.angle + 180 else v.angle - 180 := rfl

/-- What lies behind lies ahead, driven backwards. -/
theorem abs_reverse_angle_lt (h : v.angle ∈ Set.Ioc (-180) 180) (hbehind : 90 < |v.angle|) :
    |v.reverse.angle| < 90 := by
  obtain ⟨hlow, hhigh⟩ := Set.mem_Ioc.mp h
  rw [reverse_angle, abs_lt]
  by_cases hside : v.angle < 0
  · rw [if_pos hside]
    rw [abs_of_neg hside] at hbehind
    constructor <;> linarith
  · rw [if_neg hside]
    rw [abs_of_nonneg (not_lt.mp hside)] at hbehind
    constructor <;> linarith

end Polar

/-- Exact poses that compare as equal are equal. -/
theorem Pose.beq_iff [PlaneFunctions] (p q : Pose ℚ) : (p == q) = true ↔ p = q := by
  obtain ⟨x, y, orientation⟩ := p
  obtain ⟨x', y', orientation'⟩ := q
  show (decide (x = x') && (decide (y = y') && decide (orientation = orientation'))) = true ↔ _
  simp

end MotionControl
