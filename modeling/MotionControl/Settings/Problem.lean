import MotionControl.Decimal.Layout
import MotionControl.Scalar

/-!
# What can be wrong with settings

- `Problem`: why a value is refused, as data.
- `Problem.text`: its wording.
- `SettingsError`: a problem with the dotted path of the table it was found in.
- `require`: one check of a validation.
-/

namespace MotionControl

/-- A range of values whose upper end belongs to it. -/
structure Bounds (α : Type) where
  low : α
  /-- The lower end does not belong to the range. -/
  openLow : Bool
  high : α
  deriving Repr

/-- Why a value is refused. -/
inductive Problem (α : Type) where
  | notFinite (what : String) (value : α)
  | negative (what : String) (value : α)
  | notFiniteOrNegative (what : String) (value : α)
  | notPositive (what : String) (value : α)
  /-- The path already names the value. -/
  | valueNotPositive (value : α)
  | outsideBounds (what : String) (value : α) (bounds : Bounds α)
  | minimumExceedsMaximum (minimum maximum : α)
  | noStallCycles
  | noTimeoutCycles
  | emptyText (what : String)
  | cycleTimeOutside (microseconds low high : UInt32)
  | periodNotPositive (seconds : α)
  | tooManyMotors (count limit : Nat)
  | duplicateMotor (name : String)
  | unknownMotor (name : String)
  deriving Repr

namespace Problem

/-- A number inside a message. -/
def number (x : Float) : String := Layout.prose.render x

/-- The bounds between brackets that show which ends belong to the range. -/
def boundsText (b : Bounds Float) : String :=
  (if b.openLow then "(" else "[") ++ number b.low ++ ", " ++ number b.high ++ "]"

/-- What is said about it: the field, what it must be, and what it is. -/
def text : Problem Float → String
  | notFinite what v => what ++ " must be finite, got " ++ number v
  | negative what v => what ++ " must be >= 0, got " ++ number v
  | notFiniteOrNegative what v => what ++ " must be finite and >= 0, got " ++ number v
  | notPositive what v => what ++ " must be > 0, got " ++ number v
  | valueNotPositive v => "must be > 0, got " ++ number v
  | outsideBounds what v b => what ++ " " ++ number v ++ " out of range " ++ boundsText b
  | minimumExceedsMaximum lo hi =>
    "min_speed " ++ number lo ++ " exceeds max_speed " ++ number hi
  | noStallCycles => "blocking cycles_max must be >= 1"
  | noTimeoutCycles => "timeout_cycle_number must be >= 1 when enabled"
  | emptyText what => what ++ " cannot be empty"
  | cycleTimeOutside us lo hi =>
    toString us ++ " out of range [" ++ toString lo ++ ", " ++ toString hi ++ "]"
  | periodNotPositive s => "period must be > 0 s, got " ++ number s
  | tooManyMotors count limit =>
    toString count ++ " motors configured, at most " ++ toString limit
  | duplicateMotor name => "duplicate motor name '" ++ name ++ "'"
  | unknownMotor name => "no motor named '" ++ name ++ "'"

end Problem

/-- A problem and the dotted path of the table that has it. -/
structure SettingsError (α : Type) where
  path : List String
  problem : Problem α
  deriving Repr

namespace SettingsError

/-- The name of a refusal of settings in a report. -/
def title : String := "ValidationError"

/-- What is said about it, with the sections that lead to the block. -/
def message (e : SettingsError Float) : String :=
  "Configuration validation failed: " ++ ".".intercalate e.path ++ ": " ++ e.problem.text

end SettingsError

/-- One check: nothing if it holds, the problem if not. -/
def require {α : Type} (holds : Bool) (problem : Problem α) : Except (Problem α) Unit :=
  if holds then .ok () else .error problem

/-- The outcome of a block's checks, reported under a path. -/
def inSection {α : Type} (path : List String) (outcome : Except (Problem α) Unit) :
    Except (SettingsError α) Unit :=
  outcome.mapError (⟨path, ·⟩)

end MotionControl
