/-!
# Binary floating point as exact integers

A finite double is a signed integer times a power of two.  Text, remainders and
square roots are settled on that pair in exact arithmetic, and rounded once.

- `Binary64.decode`: the exact value of a double, or which special value it is.
- `Binary64.nearest`: the double closest to `mantissa * 2 ^ exponent`, a tie
  going to the even mantissa.
-/

namespace MotionControl

namespace Binary64

/-- What a double stands for. -/
inductive Decoded where
  | nan
  | infinite (negative : Bool)
  /-- The value `± mantissa * 2 ^ exponent`; zero keeps its sign. -/
  | finite (negative : Bool) (mantissa : Nat) (exponent : Int)
  deriving Repr, DecidableEq

/-- The exponent of the last place of the smallest doubles. -/
def minExponent : Int := -1074

/-- The hidden leading bit of a normal mantissa. -/
def hiddenBit : Nat := 1 <<< 52

/-- The bit that tells the sign. -/
def signBit : Nat := 1 <<< 63

/-- Splits the bit pattern into sign, exponent field and fraction. -/
def decode (x : Float) : Decoded :=
  let bits := x.toBits.toNat
  let negative := bits / signBit == 1
  let field := bits / hiddenBit % 2048
  let fraction := bits % hiddenBit
  if field = 2047 then
    if fraction = 0 then .infinite negative else .nan
  else if field = 0 then
    .finite negative fraction minExponent
  else
    .finite negative (fraction + hiddenBit) (field + minExponent - 1)

/-- The quotient rounded to the nearest integer, a tie going to the even one. -/
def divNearestEven (n d : Nat) : Nat :=
  let q := n / d
  let r := n % d
  if 2 * r < d then q
  else if d < 2 * r then q + 1
  else if q % 2 = 0 then q else q + 1

/-- The bit pattern of positive infinity. -/
def infinityBits : Nat := 2047 * hiddenBit

/-- The bits of the double nearest to `mantissa * 2 ^ exponent`.

The last place is chosen so that 53 bits remain, but never below `minExponent`.
A mantissa that rounds up to `2 ^ 53` carries into the exponent field by itself. -/
def nearestBits (mantissa : Nat) (exponent : Int) : Nat :=
  if mantissa = 0 then 0
  else
    let place := max (exponent + mantissa.log2 - 52) minExponent
    let rounded :=
      if place ≤ exponent then mantissa <<< (exponent - place).toNat
      else divNearestEven mantissa (1 <<< (place - exponent).toNat)
    min ((place - minExponent).toNat * hiddenBit + rounded) infinityBits

/-- The double nearest to `± mantissa * 2 ^ exponent`. -/
def nearest (negative : Bool) (mantissa : Nat) (exponent : Int) : Float :=
  let bits := nearestBits mantissa exponent
  Float.ofBits (UInt64.ofNat (if negative then bits + signBit else bits))

end Binary64

end MotionControl
