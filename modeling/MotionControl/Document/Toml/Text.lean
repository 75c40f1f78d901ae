import MotionControl.Decimal

/-!
# Characters, blanks and quoted text of TOML

A reader takes the characters that are left and answers with what it read and
what remains, or with nothing when the text is not well formed.

- `skipBlank`, `skipTrivia`: blanks; and blanks, line ends and comments.
- `lineEnd`: the end of an expression's line.
- `basicText`, `literalText`: text between quotes, with and without escapes.
- `quotedText`: any of the four quoted forms of a value.
-/

namespace MotionControl

namespace Document.Toml

/-- What was read and what remains. -/
abbrev Reader (β : Type) := List Char → Option (β × List Char)

/-- A space or a tab. -/
def isBlank (c : Char) : Bool := c = ' ' || c = '\t'

/-- Characters that comments and one-line text may hold: no control character but
the tab. -/
def isPlain (c : Char) : Bool := c = '\t' || (' ' ≤ c && c ≠ '\x7f')

/-- What follows the blanks. -/
def skipBlank (cs : List Char) : List Char := cs.dropWhile isBlank

/-- What follows a line end, if one comes next.  A carriage return alone is none. -/
def newline? : List Char → Option (List Char)
  | '\n' :: rest => some rest
  | '\x0d' :: '\n' :: rest => some rest
  | _ => none

/-- Leaves out a comment, if one comes next. -/
def skipComment : List Char → List Char
  | '#' :: rest => rest.dropWhile isPlain
  | cs => cs

/-- The end of a line: blanks, perhaps a comment, then a line end or the end of
the document. -/
def lineEnd (cs : List Char) : Option (List Char) :=
  match skipComment (skipBlank cs) with
  | [] => some []
  | rest => newline? rest

/-- Leaves out blanks, comments and line ends, at most `fuel` lines of them. -/
def skipLines : Nat → List Char → List Char
  | 0, cs => cs
  | fuel + 1, cs =>
    match newline? (skipComment (skipBlank cs)) with
    | some rest => skipLines fuel rest
    | none => skipBlank cs

/-- Leaves out everything that may stand between the items of a bracket. -/
def skipTrivia (cs : List Char) : List Char := skipLines cs.length cs

/-! ## Escapes -/

/-- A digit to the base 16, in either case. -/
def isHexDigit (c : Char) : Bool :=
  c.isDigit || ('a' ≤ c && c ≤ 'f') || ('A' ≤ c && c ≤ 'F')

/-- A character given by exactly `width` hexadecimal digits. -/
def codePoint (width : Nat) (cs : List Char) : Option (Char × List Char) :=
  let digits := cs.take width
  let n := digitsValue 16 digits
  if digits.length = width ∧ digits.all isHexDigit ∧ n.isValidChar then
    some (Char.ofNat n, cs.drop width)
  else none

/-- The character that an escape stands for, after its backslash. -/
def escape : Reader Char
  | 'b' :: rest => some ('\x08', rest)
  | 't' :: rest => some ('\t', rest)
  | 'n' :: rest => some ('\n', rest)
  | 'f' :: rest => some ('\x0c', rest)
  | 'r' :: rest => some ('\x0d', rest)
  | 'e' :: rest => some ('\x1b', rest)
  | '"' :: rest => some ('"', rest)
  | '\\' :: rest => some ('\\', rest)
  | 'x' :: rest => codePoint 2 rest
  | 'u' :: rest => codePoint 4 rest
  | 'U' :: rest => codePoint 8 rest
  | _ => none

/-! ## Quoted text on one line -/

/-- Text after an opening double quote; `done` holds what was read, in reverse. -/
def basicBody : Nat → List Char → Reader String
  | 0, _, _ => none
  | _ + 1, done, '"' :: rest => some (String.ofList done.reverse, rest)
  | fuel + 1, done, '\\' :: rest => do
    let (c, rest) ← escape rest
    basicBody fuel (c :: done) rest
  | fuel + 1, done, c :: rest => if isPlain c then basicBody fuel (c :: done) rest else none
  | _ + 1, _, [] => none

/-- A text with escapes, up to its quotation mark, and what follows. -/
def basicText (cs : List Char) : Option (String × List Char) := basicBody (cs.length + 1) [] cs

/-- The single quote. -/
def quote : Char := '\x27'

/-- Text after an opening single quote, taken as it stands. -/
def literalText (cs : List Char) : Option (String × List Char) :=
  let body := cs.takeWhile fun c => isPlain c && c ≠ quote
  match cs.drop body.length with
  | c :: rest => if c = quote then some (String.ofList body, rest) else none
  | [] => none

/-! ## Quoted text on several lines -/

/-- A line end right after the opening quotes is not part of the text. -/
def skipFirstNewline (cs : List Char) : List Char := (newline? cs).getD cs

/-- How a run of quotes reads inside text on several lines: up to two belong to
the text; three close it, after up to two more that belong to it. -/
def closing (run : Nat) : Option Nat :=
  if run < 3 then none else some (min run 5 - 3)

/-- Leaves out blanks and line ends. -/
def skipGap : List Char → List Char
  | [] => []
  | '\x0d' :: '\n' :: rest => skipGap rest
  | c :: rest => if isBlank c || c = '\n' then skipGap rest else c :: rest

/-- After a backslash at the end of a line: what follows the gap. -/
def continuation? (cs : List Char) : Option (List Char) :=
  (newline? (skipBlank cs)).map skipGap

/-- Text after three opening quotes.  `mark` is the quote and `escapes` says
whether a backslash is special. -/
def multilineBody (mark : Char) (escapes : Bool) : Nat → List Char → Reader String
  | 0, _, _ => none
  | _ + 1, _, [] => none
  | fuel + 1, done, c :: rest =>
    if c = mark then
      let run := ((c :: rest).takeWhile (· = mark)).length
      match closing run with
      | some kept =>
        some (String.ofList (List.replicate kept mark ++ done).reverse,
          (c :: rest).drop (kept + 3))
      | none =>
        multilineBody mark escapes fuel (List.replicate run mark ++ done) ((c :: rest).drop run)
    else if c = '\\' ∧ escapes then
      match continuation? rest with
      | some rest => multilineBody mark escapes fuel done rest
      | none => do
        let (e, rest) ← escape rest
        multilineBody mark escapes fuel (e :: done) rest
    else if c = '\x0d' then
      match rest with
      | '\n' :: rest => multilineBody mark escapes fuel ('\n' :: '\x0d' :: done) rest
      | _ => none
    else if c = '\n' ∨ isPlain c then
      multilineBody mark escapes fuel (c :: done) rest
    else none

/-- A text over several lines, up to its three marks, and what follows. -/
def multilineText (mark : Char) (escapes : Bool) (cs : List Char) :
    Option (String × List Char) :=
  multilineBody mark escapes (cs.length + 1) [] (skipFirstNewline cs)

/-- A value between quotes of any kind; `none` when no quote comes next. -/
def quotedText? : List Char → Option (Option (String × List Char))
  | '"' :: '"' :: '"' :: rest => some (multilineText '"' true rest)
  | '"' :: rest => some (basicText rest)
  | '\x27' :: '\x27' :: '\x27' :: rest => some (multilineText quote false rest)
  | '\x27' :: rest => some (literalText rest)
  | _ => none

end Document.Toml

end MotionControl
