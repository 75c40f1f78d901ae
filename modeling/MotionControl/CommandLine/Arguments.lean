import MotionControl.Decimal
import MotionControl.Task

/-!
# Command line arguments

- `Options`: what a run was asked for.
- `Invocation.ofArguments`: reads a command line from left to right.  The first
  argument that is wrong, or that asks for help or the version, decides.
-/

namespace MotionControl

/-- What a run was asked for. -/
structure Options where
  /-- The settings file; built-in settings when there is none. -/
  config : Option String
  /-- The run ends after so many cycles. -/
  cycles : Option UInt64
  core : Option Nat
  priority : Int
  /-- Telemetry goes to this file instead of the log. -/
  telemetry : Option String
  verbose : Bool
  /-- The log consists of objects instead of lines. -/
  json : Bool
  deriving Repr, DecidableEq

/-- What a command line asks for. -/
inductive Invocation where
  | run (options : Options)
  | help
  | version
  | misuse
  deriving Repr, DecidableEq

/-! ## Numbers -/

/-- Digits, at least one of them and no greater than `greatest`. -/
def boundedNumber? (greatest : Nat) (digits : List Char) : Option Nat :=
  if digits.isEmpty || !digits.all Char.isDigit then none
  else
    let n := digitsValue 10 digits
    if n ≤ greatest then some n else none

/-- A count: digits that may follow a plus sign. -/
def count? (text : String) : Option Nat :=
  match text.toList with
  | '+' :: digits => boundedNumber? 0xffffffffffffffff digits
  | digits => boundedNumber? 0xffffffffffffffff digits

/-- A priority: a signed number of 32 bits. -/
def priority? (text : String) : Option Int :=
  match text.toList with
  | '-' :: digits => (boundedNumber? 0x80000000 digits).map fun n => -(n : Int)
  | '+' :: digits => (boundedNumber? 0x7fffffff digits).map Int.ofNat
  | digits => (boundedNumber? 0x7fffffff digits).map Int.ofNat

/-- A path is a text that is not empty. -/
def path? (text : String) : Option String := if text.isEmpty then none else some text

/-! ## Arguments -/

/-- The arguments seen so far; each may be given once. -/
structure Given where
  config : Option String
  cycles : Option UInt64
  core : Option Nat
  priority : Option Int
  telemetry : Option String
  verbose : Bool
  json : Bool

namespace Given

/-- No argument was given. -/
def nothing : Given := ⟨none, none, none, none, none, false, false⟩

/-- The options of a complete command line. -/
def toOptions (g : Given) : Options where
  config := g.config
  cycles := g.cycles
  core := g.core
  priority := g.priority.getD TaskSettings.defaultPriority
  telemetry := g.telemetry
  verbose := g.verbose
  json := g.json

/-- A value for a place that is still free. -/
def once {β : Type} (place : Option β) (value : Option β) : Option β :=
  if place.isSome then none else value

/-- The settings file, which is given once at most. -/
def withConfig (g : Given) (text : String) : Option Given :=
  (once g.config (path? text)).map fun config => { g with config := some config }

/-- The flag for a talkative log, which is given once at most. -/
def withVerbose (g : Given) : Option Given :=
  if g.verbose then none else some { g with verbose := true }

/-- The flag for a log of objects, which is given once at most. -/
def withJson (g : Given) : Option Given :=
  if g.json then none else some { g with json := true }

/-- The value of a named option; nothing if there is no such option, if it was given
before, or if the value is none of its kind. -/
def withOption (g : Given) (name value : String) : Option Given :=
  match name with
  | "cycles" =>
    (once g.cycles ((count? value).map .ofNat)).map fun n => { g with cycles := some n }
  | "cpu-core" => (once g.core (count? value)).map fun n => { g with core := some n }
  | "rt-priority" => (once g.priority (priority? value)).map fun n => { g with priority := some n }
  | "telemetry" => (once g.telemetry (path? value)).map fun p => { g with telemetry := some p }
  | _ => none

end Given

/-- How an argument is read. -/
inductive Argument where
  | positional (text : String)
  /-- From here on everything is positional. -/
  | escape
  /-- A long name, with the value that is attached to it. -/
  | long (name : String) (value : Option String)
  /-- Letters behind one dash. -/
  | short (letters : List Char)

namespace Argument

/-- The part before the first equals sign, and the part behind it if there is one. -/
def splitValue (text : List Char) : String × Option String :=
  let name := String.ofList (text.takeWhile (· != '='))
  match text.dropWhile (· != '=') with
  | [] => (name, none)
  | _ :: value => (name, some (String.ofList value))

/-- What kind of argument a text is. -/
def ofText (text : String) : Argument :=
  match text.toList with
  | ['-', '-'] => escape
  | '-' :: '-' :: rest =>
    let (name, value) := splitValue rest
    long name value
  | '-' :: letter :: letters => short (letter :: letters)
  | _ => positional text

end Argument

namespace Invocation

/-- The letters behind one dash, one after another: either they end the reading or
they are all switches. -/
def readLetters (g : Given) : List Char → Invocation ⊕ Given
  | [] => .inr g
  | 'v' :: rest =>
    match g.withVerbose with
    | some g => readLetters g rest
    | none => .inl misuse
  | 'h' :: _ => .inl help
  | 'V' :: _ => .inl version
  | _ => .inl misuse

/-- Goes on with what was given, unless that failed. -/
def proceed (given : Option Given) (next : Given → Invocation) : Invocation :=
  match given with
  | some g => next g
  | none => misuse

/-- Reads arguments that are all positional. -/
def readPositional (g : Given) : List String → Invocation
  | [] => run g.toOptions
  | text :: rest => proceed (g.withConfig text) fun g => readPositional g rest

/-- Reads arguments.  An option takes the next argument as its value, unless that
begins with a dash. -/
def read (g : Given) : List String → Invocation
  | [] => run g.toOptions
  | text :: rest =>
    match Argument.ofText text with
    | .positional text => proceed (g.withConfig text) fun g => read g rest
    | .escape => readPositional g rest
    | .short letters =>
      match readLetters g letters with
      | .inl ending => ending
      | .inr g => read g rest
    | .long "help" none => help
    | .long "version" none => version
    | .long "verbose" none => proceed g.withVerbose fun g => read g rest
    | .long "json" none => proceed g.withJson fun g => read g rest
    | .long name (some value) => proceed (g.withOption name value) fun g => read g rest
    | .long name none =>
      match rest with
      | [] => misuse
      | value :: rest =>
        match Argument.ofText value with
        | .positional value => proceed (g.withOption name value) fun g => read g rest
        | _ => misuse

/-- What a list of arguments asks for. -/
def ofArguments (arguments : List String) : Invocation := read .nothing arguments

end Invocation

end MotionControl
