import Mathlib
import MotionControl.Proofs.Scalar.Lawful

/-!
# Exact scalars

Rational numbers as scalars: sums, products and quotients are exact, every value is a finite number,
and there is one zero.  Lengths, directions and angles have no rational values in general, so the
functions behind them are parameters.  A law that asks for none of them is exact.

- `PlaneFunctions`: the functions of planar motion, whatever they are;
  `PlaneFunctions.onAbscissa`: some of them.
- `Scalar ℚ`, `LawfulScalar ℚ`: the instance and its laws.
- `Rational.saturate`, `Rational.raise`: what a saturation and a least magnitude make of a number.
- `Rational.clamp?_of_le`, `Rational.clamp?_eq`, `Rational.lesser_eq`, `Rational.lift_eq`: the
  operations in these terms.
-/

namespace MotionControl

/-- The functions of planar motion that have no rational values. -/
class PlaneFunctions where
  hypotenuse : ℚ → ℚ → ℚ
  arctangent : ℚ → ℚ → ℚ
  sine : ℚ → ℚ
  cosine : ℚ → ℚ
  /-- The ratio of a circle's circumference to its diameter. -/
  pi : ℚ

/-- Functions that are right about what lies on the abscissa, up to the ratio itself. -/
abbrev PlaneFunctions.onAbscissa : PlaneFunctions where
  hypotenuse x y := max |x| |y|
  arctangent _ x := if 0 ≤ x then 0 else 355 / 113
  sine _ := 0
  cosine angle := if |angle| < 1 then 1 else -1
  pi := 355 / 113

namespace Rational

/-- The integer part of a number, toward zero. -/
def truncate (a : ℚ) : ℤ := if 0 ≤ a then ⌊a⌋ else ⌈a⌉

end Rational

instance [PlaneFunctions] : Scalar ℚ where
  ofNat n := n
  decLt := inferInstance
  decLe := inferInstance
  isNaN _ := false
  isFinite _ := true
  abs a := |a|
  copySign a b := if b < 0 then -|a| else |a|
  remainder a b := a - b * Rational.truncate (a / b)
  hypotenuse := PlaneFunctions.hypotenuse
  arctangent := PlaneFunctions.arctangent
  sine := PlaneFunctions.sine
  cosine := PlaneFunctions.cosine
  pi := PlaneFunctions.pi
  radiansPerDegree := PlaneFunctions.pi / 180
  degreesPerRadian := 180 / PlaneFunctions.pi
  millionth := 1 / 1000000
  greatest := (2 ^ 53 - 1) * 2 ^ 971

instance [PlaneFunctions] : LawfulScalar ℚ where
  isNaN_of_lt _ := rfl
  le_of_lt := le_of_lt
  neg_le_self _ h := neg_le_self (not_lt.mp h)
  not_abs_lt_zero a := not_lt.mpr (abs_nonneg a)
  mul_pos _ ha hb := ⟨rfl, not_lt.mpr (mul_pos (not_le.mp ha) hb).le⟩

namespace Rational

open Scalar

/-! ## Saturation -/

/-- The number nearest to another one within a bound. -/
def saturate (bound v : ℚ) : ℚ := max (-bound) (min bound v)

/-- Saturation is odd. -/
theorem saturate_neg {bound : ℚ} (h : 0 ≤ bound) (v : ℚ) :
    saturate bound (-v) = -saturate bound v := by
  have hbound : max (-bound) bound = bound := max_eq_right (neg_le_self h)
  calc saturate bound (-v)
      = min (max (-bound) bound) (max (-bound) (-v)) := max_min_distrib_left ..
    _ = min bound (-min bound v) := by rw [hbound, max_neg_neg]
    _ = min (- -bound) (-min bound v) := by rw [neg_neg]
    _ = -saturate bound v := min_neg_neg ..

/-- What is within the bound is left alone. -/
theorem saturate_of_abs_le {bound v : ℚ} (h : |v| ≤ bound) : saturate bound v = v := by
  obtain ⟨hlow, hhigh⟩ := abs_le.mp h
  rw [saturate, min_eq_right hhigh, max_eq_right hlow]

theorem saturate_zero {bound : ℚ} (h : 0 ≤ bound) : saturate bound 0 = 0 :=
  saturate_of_abs_le (abs_zero.trans_le h)

/-- Above zero only the upper bound matters. -/
theorem saturate_of_nonneg {bound v : ℚ} (h : 0 ≤ bound) (hv : 0 ≤ v) :
    saturate bound v = min bound v :=
  max_eq_right ((neg_nonpos.mpr h).trans (le_min h hv))

/-- It keeps within the bound. -/
theorem abs_saturate_le {bound : ℚ} (h : 0 ≤ bound) (v : ℚ) : |saturate bound v| ≤ bound :=
  abs_le.mpr ⟨le_max_left .., max_le (neg_le_self h) (min_le_left ..)⟩

/-- It is monotone. -/
theorem saturate_mono (bound : ℚ) : Monotone (saturate bound) :=
  fun _ _ h => max_le_max le_rfl (min_le_min le_rfl h)

/-! ## Least magnitudes -/

/-- A number other than zero, with a least magnitude. -/
def raise (least v : ℚ) : ℚ :=
  if v = 0 ∨ least ≤ |v| then v else if v < 0 then -least else least

/-- Raising is odd. -/
theorem raise_neg (least v : ℚ) : raise least (-v) = -raise least v := by
  unfold raise
  simp only [neg_eq_zero, abs_neg]
  by_cases h : v = 0 ∨ least ≤ |v|
  · rw [if_pos h, if_pos h]
  · rw [if_neg h, if_neg h]
    rw [not_or] at h
    rcases lt_or_gt_of_ne h.1 with hneg | hpos
    · rw [if_neg (by linarith), if_pos hneg, neg_neg]
    · rw [if_pos (by linarith), if_neg (by linarith)]

/-- What is long enough is left alone. -/
theorem raise_of_le_abs {least v : ℚ} (h : least ≤ |v|) : raise least v = v := if_pos (.inr h)

theorem raise_zero (least : ℚ) : raise least 0 = 0 := if_pos (.inl rfl)

/-- Above zero it is a least value. -/
theorem raise_of_pos {least v : ℚ} (hv : 0 < v) : raise least v = max least v := by
  by_cases h : least ≤ v
  · rw [raise_of_le_abs (h.trans (le_abs_self v)), max_eq_right h]
  · have hshort : ¬ (v = 0 ∨ least ≤ |v|) := by
      rw [abs_of_pos hv]
      exact not_or.mpr ⟨hv.ne', h⟩
    rw [raise, if_neg hshort, if_neg (not_lt.mpr hv.le), max_eq_left (not_le.mp h).le]

/-- Below zero it is the same on the other side. -/
theorem raise_of_neg {least v : ℚ} (hv : v < 0) : raise least v = -max least (-v) := by
  rw [← raise_of_pos (neg_pos.mpr hv), raise_neg, neg_neg]

/-- The jump at zero goes the way of the sign. -/
theorem raise_mono {least : ℚ} (h : 0 ≤ least) : Monotone (raise least) := by
  have hpos {v : ℚ} (hv : 0 < v) : 0 ≤ raise least v := by
    rw [raise_of_pos hv]
    exact h.trans (le_max_left ..)
  have hneg {v : ℚ} (hv : v < 0) : raise least v ≤ 0 := by
    rw [raise_of_neg hv]
    exact neg_nonpos.mpr (h.trans (le_max_left ..))
  intro v w hle
  rcases lt_trichotomy v 0 with hv | rfl | hv
  · rcases lt_trichotomy w 0 with hw | rfl | hw
    · rw [raise_of_neg hv, raise_of_neg hw]
      exact neg_le_neg (max_le_max le_rfl (neg_le_neg hle))
    · rw [raise_zero]
      exact hneg hv
    · exact (hneg hv).trans (hpos hw)
  · rcases hle.eq_or_lt with rfl | hw
    · exact le_rfl
    · rw [raise_zero]
      exact hpos hw
  · rw [raise_of_pos hv, raise_of_pos (hv.trans_le hle)]
    exact max_le_max le_rfl hle

/-! ## Operations -/

variable [PlaneFunctions]

@[simp] theorem isNaN_eq (a : ℚ) : isNaN a = false := rfl

@[simp] theorem isFinite_eq (a : ℚ) : isFinite a = true := rfl

/-- The zero of the scalars is the number zero. -/
theorem zero_eq : @OfNat.ofNat ℚ 0 (instOfNatOfScalar 0) = 0 := rfl

/-- Clamping to an interval is never refused. -/
theorem clamp?_of_le {lo hi : ℚ} (h : lo ≤ hi) (v : ℚ) :
    clamp? lo hi v = some (max lo (min hi v)) := by
  unfold clamp?
  rw [if_pos h]
  by_cases hlow : v < lo
  · rw [if_pos hlow, min_eq_right (hlow.le.trans h), max_eq_left hlow.le]
  · rw [if_neg hlow]
    by_cases hhigh : hi < v
    · rw [if_pos hhigh, min_eq_left hhigh.le, max_eq_right h]
    · rw [if_neg hhigh, min_eq_right (not_lt.mp hhigh), max_eq_right (not_lt.mp hlow)]

/-- Clamping between opposite bounds is saturation. -/
theorem clamp?_eq {bound : ℚ} (h : 0 ≤ bound) (v : ℚ) :
    clamp? (-bound) bound v = some (saturate bound v) := clamp?_of_le (neg_le_self h) v

theorem lesser_eq (a b : ℚ) : lesser a b = min a b := by
  rw [lesser, isNaN_eq, if_neg Bool.false_ne_true]
  by_cases h : b < a
  · rw [if_pos h, min_eq_right h.le]
  · rw [if_neg h, min_eq_left (not_lt.mp h)]

theorem half_eq : (half : ℚ) = 1 / 2 := rfl

theorem isZero_iff (v : ℚ) : (v == 0) = true ↔ v = 0 := by
  rw [show (v == 0) = decide (v = 0) from rfl, decide_eq_true_iff]

/-- A number that is not zero is lifted to a least magnitude, in its own direction. -/
theorem lift_eq {least : ℚ} (h : 0 ≤ least) (v : ℚ) :
    (if !(v == 0) && decide (Scalar.abs v < least) then copySign least v else v)
      = raise least v := by
  have hcondition : (!(v == 0) && decide (Scalar.abs v < least)) = true
      ↔ ¬ (v = 0 ∨ least ≤ |v|) := by
    rw [Bool.and_eq_true_iff, Bool.not_eq_true', ← Bool.not_eq_true, isZero_iff, decide_eq_true_iff,
      not_or, not_le]
    rfl
  unfold raise
  by_cases hraised : v = 0 ∨ least ≤ |v|
  · rw [if_pos hraised, if_neg (mt hcondition.mp (not_not.mpr hraised))]
  · rw [if_neg hraised, if_pos (hcondition.mpr hraised)]
    show (if v < 0 then -|least| else |least|) = _
    rw [abs_of_nonneg h]

end Rational

end MotionControl
