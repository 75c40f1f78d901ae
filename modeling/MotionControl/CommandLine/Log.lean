import MotionControl.Settings.System

/-!
# The log of a run

- `Text.quote`: a text between quotation marks.
- `LogLine`: a message with its severity.
- `LogLine.render`: a message as a line or as an object.
- `LogLine.tame`: what a line shows instead of signs that a terminal would obey.
-/

namespace MotionControl

namespace Text

/-- A code point as an escape with four hexadecimal digits. -/
def hexEscape (c : Char) : String :=
  let digits := Nat.toDigits 16 c.toNat
  "\\u" ++ String.ofList (List.replicate (4 - digits.length) '0' ++ digits)

/-- One character between quotation marks. -/
def quoteChar (c : Char) : String :=
  if c = '"' then "\\\""
  else if c = '\\' then "\\\\"
  else if c = '\n' then "\\n"
  else if c = '\r' then "\\r"
  else if c = '\t' then "\\t"
  else if c = '\x08' then "\\b"
  else if c = '\x0c' then "\\f"
  else if c.toNat < 0x20 then hexEscape c
  else String.ofList [c]

/-- A text between quotation marks, with everything that must not stand there as it is
written as an escape. -/
def quote (s : String) : String := "\"" ++ String.join (s.toList.map quoteChar) ++ "\""

end Text

/-- A message and how severe it is. -/
structure LogLine where
  level : LogLevel
  message : String
  deriving Repr, DecidableEq

namespace LogLine

/-- The name of a level in front of its messages. -/
def levelText : LogLevel → String
  | .trace => "TRACE"
  | .debug => "DEBUG"
  | .info => "INFO"
  | .warn => "WARN"
  | .error => "ERROR"

/-- Whether a terminal may take a character for the begin of a command, or move or ring
on it: escape, bell, backspace, form feed, delete, and the second block of control
characters. -/
def commandsTerminal (c : Char) : Bool :=
  c = '\x1b' || c = '\x07' || c = '\x08' || c = '\x0c' || c = '\x7f'
    || (0x80 ≤ c.toNat && c.toNat ≤ 0x9f)

/-- A character of a line.  One that a terminal would obey is spelled out, with two
hexadecimal digits in ASCII and as a code point beyond. -/
def tameChar (c : Char) : String :=
  if !commandsTerminal c then String.ofList [c]
  else
    let digits := String.ofList (Nat.toDigits 16 c.toNat)
    if 0x80 ≤ c.toNat then "\\u\x7b" ++ digits ++ "\x7d"
    else if c.toNat < 0x10 then "\\x0" ++ digits
    else "\\x" ++ digits

/-- A message that a terminal shows as it is. -/
def tame (message : String) : String := String.join (message.toList.map tameChar)

/-- A line of text, or an object with the level and the message. -/
def render (json : Bool) (line : LogLine) : String :=
  if json then
    "\x7b\"level\":" ++ Text.quote (levelText line.level) ++ ",\"message\":"
      ++ Text.quote line.message ++ "\x7d"
  else levelText line.level ++ " " ++ tame line.message

end LogLine

end MotionControl
