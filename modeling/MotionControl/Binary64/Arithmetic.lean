import MotionControl.Binary64

/-!
# Operations settled exactly and rounded once

- `Binary64.remainder`: what is left of a division that truncates toward zero;
  it keeps the sign of the dividend and is always exact.
- `Binary64.hypotenuse`: the double nearest to `√(x² + y²)`.
- `Binary64.copySign`: one double's magnitude with another's sign.
-/

namespace MotionControl

namespace Binary64

/-- A quiet not-a-number. -/
def nan : Float := Float.ofBits 0x7ff8000000000000

/-- Positive infinity. -/
def infinity : Float := Float.ofBits 0x7ff0000000000000

/-- The magnitude of `x` with the sign of `y`, for every kind of value. -/
def copySign (x y : Float) : Float :=
  Float.ofBits ((x.toBits &&& 0x7fffffffffffffff) ||| (y.toBits &&& 0x8000000000000000))

/-- The remainder of `x / y` after truncation toward zero.

Both operands are brought to the smaller of the two exponents, where the integer
remainder is the answer: it is below the divisor, so it needs no rounding. -/
def remainder (x y : Float) : Float :=
  match decode x, decode y with
  | .finite negative m₁ e₁, .finite _ m₂ e₂ =>
    if m₂ = 0 then nan
    else
      let e := min e₁ e₂
      nearest negative (m₁ <<< (e₁ - e).toNat % m₂ <<< (e₂ - e).toNat) e
  | .finite _ _ _, .infinite _ => x
  | _, _ => nan

/-- The nearest double to the root of `square * 4 ^ exponent`.

The root is taken with at least 55 bits; one more bit tells whether anything
was left over, so that a value just off a tie is not taken for the tie. -/
def nearestRoot (square : Nat) (exponent : Int) : Float :=
  let extra := 56 - square.log2 / 2
  let scaled := square <<< (2 * extra)
  let root := scaled.sqrt
  let leftover := if root * root = scaled then 0 else 1
  nearest false (2 * root + leftover) (exponent - extra - 1)

/-- The length of the vector `(x, y)`.  An infinite component wins over a NaN. -/
def hypotenuse (x y : Float) : Float :=
  match decode x, decode y with
  | .infinite _, _ => infinity
  | _, .infinite _ => infinity
  | .finite _ m₁ e₁, .finite _ m₂ e₂ =>
    let e := min e₁ e₂
    let a := m₁ <<< (e₁ - e).toNat
    let b := m₂ <<< (e₂ - e).toNat
    nearestRoot (a * a + b * b) e
  | _, _ => nan

end Binary64

end MotionControl
