import MotionControl.Binary64

/-!
# Decimals

Every real in a small interval around a double rounds to that double.  The text
of a double is the decimal of that interval with the fewest digits, and among
those the one nearest to the double.

- `Decimal`: a coefficient times a power of ten.
- `Interval.of`: the reals that round to `mantissa * 2 ^ exponent`, both ends
  included exactly when the mantissa is even.
- `Decimal.shortest`: the search, from the coarsest decimal grid to finer ones.
  If a grid meets the interval at all, one of the double's two neighbours on the
  grid lies in it, so only those are tried.
- `Decimal.nearest`: the double closest to a decimal.
- `digitsValue`: the number that a run of digits denotes in a base.
-/

namespace MotionControl

/-- The value `coefficient * 10 ^ exponent`. -/
structure Decimal where
  coefficient : Nat
  exponent : Int
  deriving Repr, DecidableEq

namespace Decimal

/-- Which of two equally near decimals is taken. -/
inductive Tie where
  | upward
  | toEven
  deriving Repr, DecidableEq

/-- A value and its rounding interval on a common integer scale, on which one
decimal step `10 ^ place` measures `step`. -/
structure Interval where
  place : Int
  step : Nat
  low : Nat
  value : Nat
  high : Nat
  closed : Bool

/-- An exponent small enough that one step of `10 ^ place` is far below the last
binary place of `mantissa * 2 ^ exponent`. -/
def finePlace (mantissa : Nat) (exponent : Int) : Int :=
  ((exponent + mantissa.log2) * 30103).fdiv 100000 - 18

/-- The interval of `mantissa * 2 ^ exponent`.  Below a power of two the next
double is only half as far away as above it. -/
def Interval.of (mantissa : Nat) (exponent : Int) : Interval :=
  let place := finePlace mantissa exponent
  let quarter := Nat.pow 10 (-place).toNat <<< (exponent - 2).toNat
  let below := if mantissa = Binary64.hiddenBit ∧ Binary64.minExponent < exponent then 1 else 2
  { place
    step := Nat.pow 10 place.toNat <<< (2 - exponent).toNat
    low := (4 * mantissa - below) * quarter
    value := 4 * mantissa * quarter
    high := (4 * mantissa + 2) * quarter
    closed := mantissa % 2 = 0 }

/-- Whether a point of the common scale rounds to the value. -/
def Interval.contains (i : Interval) (point : Nat) : Bool :=
  if i.closed then i.low ≤ point && point ≤ i.high else i.low < point && point < i.high

/-- The neighbour of the value on the grid `10 ^ (place + level)` that rounds to
it, the nearer one if both do. -/
def Interval.hit? (i : Interval) (tie : Tie) (level : Nat) : Option Nat :=
  let grid := Nat.pow 10 level * i.step
  let lower := i.value / grid
  let fromLower := i.value - lower * grid
  let toUpper := (lower + 1) * grid - i.value
  match i.contains (lower * grid), i.contains ((lower + 1) * grid) with
  | false, false => none
  | true, false => some lower
  | false, true => some (lower + 1)
  | true, true =>
    if fromLower < toUpper then some lower
    else if toUpper < fromLower then some (lower + 1)
    else match tie with
      | .upward => some (lower + 1)
      | .toEven => some (if lower % 2 = 0 then lower else lower + 1)

/-- The first hit from `level` downwards. -/
def Interval.coarsest (i : Interval) (tie : Tie) : Nat → Decimal
  | 0 => ⟨(i.hit? tie 0).getD (i.value / i.step), i.place⟩
  | level + 1 =>
    match i.hit? tie (level + 1) with
    | some coefficient => ⟨coefficient, i.place + (level + 1)⟩
    | none => i.coarsest tie level

/-- The fewest digits that read back as `mantissa * 2 ^ exponent`. -/
def shortest (tie : Tie) (mantissa : Nat) (exponent : Int) : Decimal :=
  if mantissa = 0 then ⟨0, 0⟩ else (Interval.of mantissa exponent).coarsest tie 20

/-- The digits of the coefficient. -/
def digits (d : Decimal) : List Char := Nat.toDigits 10 d.coefficient

/-- The power of ten of the leading digit. -/
def leadingExponent (d : Decimal) : Int := d.exponent + d.digits.length - 1

/-! ## Reading -/

/-- The double closest to a non-negative decimal.  Decimals of magnitude 400 and
more are infinite and those below the least double are zero, whatever their
digits, so the powers of ten that are formed stay small. -/
def nearest (d : Decimal) : Float :=
  let magnitude := d.leadingExponent
  if d.coefficient = 0 ∨ magnitude < -400 then 0
  else if 400 < magnitude then Float.ofBits 0x7ff0000000000000
  else if 0 ≤ d.exponent then Float.ofScientific d.coefficient false d.exponent.toNat
  else Float.ofScientific d.coefficient true (-d.exponent).toNat

end Decimal

/-- The value of an ASCII digit, hexadecimal letters included. -/
def digitValue (c : Char) : Nat :=
  if c.isDigit then c.toNat - '0'.toNat
  else if 'a' ≤ c ∧ c ≤ 'f' then c.toNat - 'a'.toNat + 10
  else c.toNat - 'A'.toNat + 10

/-- The number that digits denote, most significant first. -/
def digitsValue (base : Nat) (digits : List Char) : Nat :=
  digits.foldl (fun n c => n * base + digitValue c) 0

end MotionControl
