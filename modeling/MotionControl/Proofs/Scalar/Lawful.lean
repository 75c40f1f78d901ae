import MotionControl.Control.Fault
import MotionControl.Scalar

/-!
# Laws of scalars

The control laws saturate between a bound and its negation.  Such a saturation has
an answer as soon as the bound is a number that is not negative; the laws below say
how a bound of that kind comes about.

- `LawfulScalar`: order and signs, as far as saturations rely on them.
- `Scalar.clamp?_neg_self`: the saturation between a bound and its negation.
- `Scalar.lesser_abs`, `Scalar.mul_bound`: the bounds that the speed ramp uses.
-/

namespace MotionControl

open Scalar

/-- Order and signs of scalars.  Not a number is below nothing. -/
class LawfulScalar (α : Type) [Scalar α] : Prop where
  isNaN_of_lt {a b : α} : a < b → isNaN a = false
  le_of_lt {a b : α} : a < b → a ≤ b
  neg_le_self {a : α} : isNaN a = false → ¬ a < 0 → -a ≤ a
  not_abs_lt_zero (a : α) : ¬ abs a < 0
  /-- A product of positive numbers may vanish or grow beyond all bounds, but it is
  a number and not negative. -/
  mul_pos {a b : α} : isNaN a = false → ¬ a ≤ 0 → 0 < b → isNaN (a * b) = false ∧ ¬ a * b < 0

namespace Scalar

variable {α : Type} [Scalar α] [LawfulScalar α]

/-- A number that is not negative, so that it may serve as a bound on magnitudes. -/
def IsBound (a : α) : Prop := isNaN a = false ∧ ¬ a < 0

/-- A value is saturated between a bound and its negation, whatever the value is. -/
theorem clamp?_neg_self {a : α} (h : IsBound a) (v : α) : ∃ w, clamp? (-a) a v = some w := by
  refine ⟨if v < -a then -a else if a < v then a else v, ?_⟩
  rw [clamp?, if_pos (LawfulScalar.neg_le_self h.1 h.2)]

/-- A positive number bounds an interval around zero. -/
theorem isBound_of_pos {a : α} (hn : isNaN a = false) (h : ¬ a ≤ 0) : IsBound a :=
  ⟨hn, fun hlt => h (LawfulScalar.le_of_lt hlt)⟩

/-- A magnitude never spoils a bound: not a number does not win, and any other
magnitude is a bound itself. -/
theorem lesser_abs {a : α} (h : IsBound a) (b : α) : IsBound (lesser a (abs b)) := by
  have ha : lesser a (abs b) = if abs b < a then abs b else a := by
    rw [lesser, if_neg (by rw [h.1]; exact Bool.false_ne_true)]
  rw [ha]
  split
  · rename_i hlt
    exact ⟨LawfulScalar.isNaN_of_lt hlt, LawfulScalar.not_abs_lt_zero b⟩
  · exact h

/-- So does the product of two of them. -/
theorem mul_bound {a b : α} (hn : isNaN a = false) (ha : ¬ a ≤ 0) (hb : 0 < b) :
    IsBound (a * b) :=
  LawfulScalar.mul_pos hn ha hb

end Scalar

end MotionControl
