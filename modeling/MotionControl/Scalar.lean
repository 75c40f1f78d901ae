import MotionControl.Binary64.Arithmetic

/-!
# The numbers that the control laws run on

Every law of this library is written over a `Scalar`: arithmetic, order and the
few functions that planar motion needs.  The program runs on doubles; exact
arithmetic is another instance, so that a law can be studied apart from rounding.

- `Scalar`: the operations.  Comparisons are propositions with a decision, and a
  value may be not a number, in which case every comparison with it is false.
- `clamp?`: saturation between two bounds, refused when the bounds do not form
  an interval.
- `lesser`: the smaller of two values, where not a number never wins.
-/

namespace MotionControl

/-- Numbers with the operations of planar motion control. -/
class Scalar (α : Type) extends Add α, Sub α, Mul α, Div α, Neg α, LT α, LE α, BEq α where
  ofNat : Nat → α
  decLt : ∀ a b : α, Decidable (a < b)
  decLe : ∀ a b : α, Decidable (a ≤ b)
  isNaN : α → Bool
  isFinite : α → Bool
  abs : α → α
  /-- The magnitude of the first value with the sign of the second. -/
  copySign : α → α → α
  /-- What is left of a division truncated toward zero. -/
  remainder : α → α → α
  /-- The length of a vector with two components. -/
  hypotenuse : α → α → α
  /-- The direction, in radians, of the vector with this ordinate and abscissa. -/
  arctangent : α → α → α
  sine : α → α
  cosine : α → α
  /-- The ratio of a circle's circumference to its diameter. -/
  pi : α
  radiansPerDegree : α
  degreesPerRadian : α
  /-- One millionth, the size of a microsecond in seconds. -/
  millionth : α
  /-- The greatest finite value, which stands for "no limit". -/
  greatest : α

attribute [reducible, instance] Scalar.decLt Scalar.decLe

instance (priority := low) {α : Type} [Scalar α] (n : Nat) : OfNat α n where
  ofNat := Scalar.ofNat n

namespace Scalar

variable {α : Type} [Scalar α]

/-- One half. -/
def half : α := 1 / 2

/-- A truth value as a number: one or zero. -/
def flag (b : Bool) : α := if b then 1 else 0

/-- Whether a number stands for true: at least one half. -/
def isSet (v : α) : Bool := half ≤ v

/-- Degrees as radians. -/
def toRadians (degrees : α) : α := degrees * radiansPerDegree

/-- Radians as degrees. -/
def toDegrees (radians : α) : α := radians * degreesPerRadian

/-- The smaller value; not a number never wins, and of two equal values the
first is taken. -/
def lesser (a b : α) : α :=
  if isNaN a then b else if b < a then b else a

/-- `v` moved to the nearest end of `[lo, hi]` if it lies outside.  There is no
answer when `lo ≤ hi` fails, so not when an end is not a number; a value that is
not a number is left alone. -/
def clamp? (lo hi v : α) : Option α :=
  if lo ≤ hi then some (if v < lo then lo else if hi < v then hi else v) else none

end Scalar

/-- The numbers that the program runs on.  Sums, products and quotients round once; the
remainder is exact and the hypotenuse is correctly rounded. -/
instance : Scalar Float where
  ofNat := Float.ofNat
  decLt a b := inferInstanceAs (Decidable (a < b))
  decLe a b := inferInstanceAs (Decidable (a ≤ b))
  isNaN := Float.isNaN
  isFinite := Float.isFinite
  abs := Float.abs
  copySign := Binary64.copySign
  remainder := Binary64.remainder
  hypotenuse := Binary64.hypotenuse
  arctangent := Float.atan2
  sine := Float.sin
  cosine := Float.cos
  pi := 3.141592653589793
  radiansPerDegree := 3.141592653589793 / 180.0
  degreesPerRadian := 180.0 / 3.141592653589793
  millionth := 1e-6
  greatest := Float.ofBits 0x7fefffffffffffff

end MotionControl
