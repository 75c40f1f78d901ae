import MotionControl.Decimal
import MotionControl.Document.Toml.Text
import MotionControl.Document.Value

/-!
# Values of TOML without brackets or quotes

A bare value is a run of words and of the blanks between them, up to a line end, a
comment, a quote at the start of a word or one of the signs that structure a document.

- `number?`: integers in four bases and reals.
- `isInstant`: whether a run is a date, a time or both.
- `bareValue`: the value of the run in front.
-/

namespace MotionControl

namespace Document.Toml

/-! ## Numbers -/

/-- Leaves out single underscores between digits; no other underscore is allowed. -/
def ungrouped (isDigit : Char → Bool) : List Char → Option (List Char)
  | [] => some []
  | '_' :: _ => none
  | c :: '_' :: rest =>
    if isDigit c && rest.head?.any isDigit then (ungrouped isDigit rest).map (c :: ·) else none
  | c :: rest => (ungrouped isDigit rest).map (c :: ·)

/-- Nothing but digits, as those digits alone. -/
def digitsOnly (isDigit : Char → Bool) (cs : List Char) : Option (List Char) :=
  (ungrouped isDigit cs).filter (·.all isDigit)

/-- A decimal number, at least one digit. -/
def decimalDigits (cs : List Char) : Option (List Char) :=
  (digitsOnly Char.isDigit cs).filter (!·.isEmpty)

/-- Whether a zero stands in front of another digit. -/
def isPadded : List Char → Bool
  | '0' :: _ :: _ => true
  | _ => false

/-- Splits off an optional sign; the first answer tells whether it is a minus. -/
def signed : List Char → Bool × List Char
  | '-' :: rest => (true, rest)
  | '+' :: rest => (false, rest)
  | cs => (false, cs)

/-- An integer, if it fits into 128 bits, with or without a sign bit. -/
def integer (written : List Char) (n : Int) : Value :=
  if -(1 <<< 127 : Nat) ≤ n ∧ n < (1 <<< 128 : Nat) then .integer n
  else .idleNumeral (String.ofList written)

/-- An integer after its base mark.  Without any digit it stands for no number. -/
def based (written : List Char) (base : Nat) (isDigit : Char → Bool) (cs : List Char) :
    Option Value :=
  (digitsOnly isDigit cs).map fun digits =>
    if digits.isEmpty then .idleNumeral (String.ofList written)
    else integer written (digitsValue base digits)

/-- The exponent of a real, after its mark. -/
def exponent? (cs : List Char) : Option Int :=
  let (negative, digits) := signed cs
  (decimalDigits digits).map fun digits =>
    if negative then -(digitsValue 10 digits : Int) else digitsValue 10 digits

/-- A real from the digits before and after the point and the exponent, unless it
overflows. -/
def real (written : List Char) (negative : Bool) (whole places : List Char) (exponent : Int) :
    Value :=
  let x := Decimal.nearest ⟨digitsValue 10 (whole ++ places), exponent - places.length⟩
  if x.isInf then .idleNumeral (String.ofList written) else .real (if negative then -x else x)

/-- A whole part with a fraction, an exponent or both. -/
def real? (written : List Char) (negative : Bool) (cs : List Char) : Option Value := do
  let base := cs.takeWhile fun c => c ≠ 'e' && c ≠ 'E'
  let mark := cs.drop base.length
  let whole := base.takeWhile (· ≠ '.')
  let point := base.drop whole.length
  let wholeDigits ← decimalDigits whole
  let places ← if point.isEmpty then some [] else decimalDigits point.tail
  let exponent ← if mark.isEmpty then some 0 else exponent? mark.tail
  if isPadded whole then none
  else some (real written negative wholeDigits places exponent)

/-- A decimal integer without its sign.  Its first group holds digits alone.  The groups
after it need digits at their joints only; with any other sign they stand for no
number.  A space is left to dates. -/
def grouped? (written : List Char) (negative : Bool) (cs : List Char) : Option Value :=
  if isPadded cs || cs.contains ' ' then none
  else
    (ungrouped isHexDigit cs).map fun digits =>
      if digits.all Char.isDigit then
        let n : Int := digitsValue 10 digits
        integer written (if negative then -n else n)
      else .idleNumeral (String.ofList written)

/-- A decimal numeral without its sign.  It begins with digits, which end it, lead to a
second group, or belong to a real. -/
def unsigned? (written : List Char) (negative : Bool) (cs : List Char) : Option Value :=
  let rest := cs.dropWhile Char.isDigit
  if !cs.head?.any Char.isDigit then none
  else if rest.any fun c => c = '.' || c = 'e' || c = 'E' then real? written negative cs
  else if rest.head?.all (· = '_') then grouped? written negative cs
  else none

/-- A numeral.  Base marks take no sign; `inf` and `nan` may have one. -/
def number? (cs : List Char) : Option Value :=
  match cs with
  | '0' :: 'x' :: rest => based cs 16 isHexDigit rest
  | '0' :: 'o' :: rest => based cs 8 (fun c => '0' ≤ c && c ≤ '7') rest
  | '0' :: 'b' :: rest => based cs 2 (fun c => c = '0' || c = '1') rest
  | _ =>
    let (negative, body) := signed cs
    if body = ['i', 'n', 'f'] then
      let infinity := Float.ofBits 0x7ff0000000000000
      some (.real (if negative then -infinity else infinity))
    else if body = ['n', 'a', 'n'] then some (.real (Float.ofBits 0x7ff8000000000000))
    else unsigned? cs negative body

/-! ## Dates and times -/

/-- Exactly `width` digits in front. -/
def fixedDigits (width : Nat) (cs : List Char) : Option (Nat × List Char) :=
  let digits := cs.take width
  if digits.length = width ∧ digits.all Char.isDigit then
    some (digitsValue 10 digits, cs.drop width)
  else none

/-- The year has a 29th of February. -/
def isLeapYear (year : Nat) : Bool := year % 4 = 0 && (year % 100 ≠ 0 || year % 400 = 0)

/-- How long a month is. -/
def daysInMonth (year month : Nat) : Nat :=
  if month = 2 then (if isLeapYear year then 29 else 28)
  else if month = 4 ∨ month = 6 ∨ month = 9 ∨ month = 11 then 30
  else 31

/-- A calendar date in front; what follows it. -/
def date? (cs : List Char) : Option (List Char) := do
  let (year, cs) ← fixedDigits 4 cs
  let '-' :: cs := cs | none
  let (month, cs) ← fixedDigits 2 cs
  let '-' :: cs := cs | none
  let (day, cs) ← fixedDigits 2 cs
  if 1 ≤ month ∧ month ≤ 12 ∧ 1 ≤ day ∧ day ≤ daysInMonth year month then some cs else none

/-- A fraction of a second in front, if a point comes next. -/
def fraction? : List Char → Option (List Char)
  | '.' :: cs =>
    if (cs.takeWhile Char.isDigit).isEmpty then none else some (cs.dropWhile Char.isDigit)
  | cs => some cs

/-- A time of day in front; seconds may be left out. -/
def time? (cs : List Char) : Option (List Char) := do
  let (hour, cs) ← fixedDigits 2 cs
  let ':' :: cs := cs | none
  let (minute, cs) ← fixedDigits 2 cs
  if 23 < hour ∨ 59 < minute then none
  else
    match cs with
    | ':' :: cs =>
      let (second, cs) ← fixedDigits 2 cs
      if 60 < second then none else fraction? cs
    | cs => some cs

/-- An offset from universal time that ends a run, or nothing. -/
def isOffset : List Char → Bool
  | [] => true
  | ['Z'] => true
  | ['z'] => true
  | c :: cs => (c = '+' || c = '-') && (do
      let (hour, cs) ← fixedDigits 2 cs
      let ':' :: cs := cs | none
      let (minute, cs) ← fixedDigits 2 cs
      pure (cs.isEmpty && hour ≤ 23 && minute ≤ 59)).getD false

/-- A date, a date with a time, or a time. -/
def isInstant (cs : List Char) : Bool :=
  match date? cs with
  | some [] => true
  | some (c :: rest) =>
    (c = 'T' || c = 't' || c = ' ') && ((time? rest).map isOffset).getD false
  | none => ((time? cs).map List.isEmpty).getD false

/-- The value of a bare run. -/
def bare? (cs : List Char) : Option Value :=
  if cs = ['t', 'r', 'u', 'e'] then some (.boolean true)
  else if cs = ['f', 'a', 'l', 's', 'e'] then some (.boolean false)
  else if isInstant cs then some (.instant (String.ofList cs))
  else number? cs

/-- The signs that end a word, apart from blanks and line ends. -/
def structureSigns : List Char := ['=', ',', '[', ']', '{', '}', '#']

/-- Whether a character belongs to a word. -/
def isBare (c : Char) : Bool :=
  !(isBlank c || c = '\n' || c = '\x0d' || structureSigns.contains c)

/-- Whether a character begins a word. -/
def beginsWord (c : Char) : Bool := isBare c && c ≠ '"' && c ≠ quote

/-- The words in front and the blanks between them. -/
def bareRun : List Char → List Char
  | [] => []
  | c :: cs =>
    if isBare c || (isBlank c && (skipBlank cs).head?.any beginsWord) then c :: bareRun cs
    else []

/-- The bare value in front. -/
def bareValue (cs : List Char) : Option (Value × List Char) :=
  let run := bareRun cs
  (bare? run).map (·, cs.drop run.length)

end Document.Toml

end MotionControl
