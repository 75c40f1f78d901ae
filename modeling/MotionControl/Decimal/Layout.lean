import MotionControl.Decimal

/-!
# Layout of number text

How a number is laid out once its digits are known.  Each output of this library
that shows numbers names one `Layout`.

- `Layout.render`: a double in a layout.
- `Layout.prose`: the layout of numbers inside messages, always positional.
- `Layout.record`: the layout of telemetry lines, which has no word for a value
  that is not finite.
- `fixedPlaces`: a given number of places, rounded half to even on the exact
  value.
-/

namespace MotionControl

/-- The decisions that a written form of numbers makes. -/
structure Layout where
  /-- Which of two equally short and near decimals is written. -/
  tie : Decimal.Tie
  /-- Leading exponents from here on are positional; `none` puts no limit. -/
  positionalFrom : Option Int
  /-- Leading exponents below this are positional; `none` puts no limit. -/
  positionalBelow : Option Int
  /-- What follows a positional number without places. -/
  wholeMark : String
  /-- What follows the exponent mark before a non-negative exponent. -/
  exponentPlus : String
  nan : String
  infinity : String
  negativeInfinity : String
  deriving Repr

namespace Layout

/-- Messages never use an exponent. -/
def prose : Layout where
  tie := .upward
  positionalFrom := none
  positionalBelow := none
  wholeMark := ""
  exponentPlus := ""
  nan := "NaN"
  infinity := "inf"
  negativeInfinity := "-inf"

/-- Telemetry numbers always show that they are reals, sign every exponent, and
leave out what is not finite. -/
def record : Layout where
  tie := .toEven
  positionalFrom := some (-5)
  positionalBelow := some 16
  wholeMark := ".0"
  exponentPlus := "+"
  nan := "null"
  infinity := "null"
  negativeInfinity := "null"

/-- Whether a number with this leading exponent is written without an exponent. -/
def isPositional (l : Layout) (leading : Int) : Bool :=
  l.positionalFrom.all (· ≤ leading) && l.positionalBelow.all (leading < ·)

end Layout

/-- The digits with a point after the first `whole` of them.  A point before the
first digit is filled up with zeros, and one after the last likewise. -/
def placePoint (digits : List Char) (whole : Int) (wholeMark : String) : String :=
  if whole ≤ 0 then
    "0." ++ String.ofList (List.replicate (-whole).toNat '0' ++ digits)
  else if digits.length ≤ whole.toNat then
    String.ofList (digits ++ List.replicate (whole.toNat - digits.length) '0') ++ wholeMark
  else
    String.ofList (digits.take whole.toNat) ++ "." ++ String.ofList (digits.drop whole.toNat)

/-- One digit, a point and the other digits; no point after a lone digit. -/
def pointAfterFirst (digits : List Char) : String :=
  match digits with
  | [] => ""
  | [d] => String.ofList [d]
  | d :: rest => String.ofList [d] ++ "." ++ String.ofList rest

/-- The text of an integer exponent. -/
def exponentText (plus : String) (e : Int) : String :=
  if e < 0 then "e-" ++ toString e.natAbs else "e" ++ plus ++ toString e.natAbs

namespace Layout

/-- The text of a non-negative decimal. -/
def ofDecimal (l : Layout) (d : Decimal) : String :=
  if d.coefficient = 0 then "0" ++ l.wholeMark
  else if l.isPositional d.leadingExponent then
    placePoint d.digits (d.leadingExponent + 1) l.wholeMark
  else
    pointAfterFirst d.digits ++ exponentText l.exponentPlus d.leadingExponent

/-- The text of a double.  The sign of zero is written. -/
def render (l : Layout) (x : Float) : String :=
  match Binary64.decode x with
  | .nan => l.nan
  | .infinite negative => if negative then l.negativeInfinity else l.infinity
  | .finite negative mantissa exponent =>
    (if negative then "-" else "") ++ l.ofDecimal (Decimal.shortest l.tie mantissa exponent)

end Layout

/-! ## A given number of places -/

/-- The exact value `mantissa * 2 ^ exponent * 10 ^ places`, rounded to an
integer with a half going to the even neighbour. -/
def roundAtPlace (mantissa : Nat) (exponent places : Int) : Nat :=
  Binary64.divNearestEven
    (mantissa * Nat.pow 10 places.toNat <<< exponent.toNat)
    (Nat.pow 10 (-places).toNat <<< (-exponent).toNat)

/-- The digits of `n`, at least `width` of them. -/
def paddedDigits (n width : Nat) : List Char :=
  let digits := Nat.toDigits 10 n
  List.replicate (width - digits.length) '0' ++ digits

/-- A double with one digit before the point, `places` after it, and an exponent. -/
def scientificPlaces (places : Nat) (x : Float) : String :=
  match Binary64.decode x with
  | .nan => Layout.prose.nan
  | .infinite negative =>
    if negative then Layout.prose.negativeInfinity else Layout.prose.infinity
  | .finite negative mantissa exponent =>
    let guess := (Decimal.shortest .upward mantissa exponent).leadingExponent
    let digits := paddedDigits (roundAtPlace mantissa exponent (places - guess)) (places + 1)
    let leading := guess + (digits.length - (places + 1) : Nat)
    (if negative then "-" else "")
      ++ pointAfterFirst (digits.take (places + 1)) ++ exponentText "" leading

/-- A double with exactly `places` places (at least one) after the point. -/
def fixedPlaces (places : Nat) (x : Float) : String :=
  match Binary64.decode x with
  | .nan => Layout.prose.nan
  | .infinite negative =>
    if negative then Layout.prose.negativeInfinity else Layout.prose.infinity
  | .finite negative mantissa exponent =>
    let digits := paddedDigits (roundAtPlace mantissa exponent places) (places + 1)
    (if negative then "-" else "")
      ++ placePoint digits (digits.length - places : Int) ""

end MotionControl
