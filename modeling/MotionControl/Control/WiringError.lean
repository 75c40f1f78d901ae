import MotionControl.Settings.Problem

/-!
# What can be wrong with a controller tree

- `WiringError`: faults found while a tree is assembled or validated.
- `ParameterError`: why a parameter block is not installed.
-/

namespace MotionControl

/-- The two sides of a branch of a parallel controller. -/
inductive Side where
  | input
  | output
  deriving Repr, DecidableEq

/-- How a side is called in messages. -/
def Side.name : Side → String
  | input => "input"
  | output => "output"

/-- A fault in the assembly of a controller tree. -/
inductive WiringError (α : Type) where
  | capacity (requested capacity : Nat)
  | invalidArity (name : String) (inputs outputs : Nat)
  | stageMismatch (feeder child : String) (expected found : Nat)
  | mappingLength (child : String) (side : Side) (expected found : Nat)
  | indexOutOfRange (parent child : String) (side : Side) (index length : Nat)
  | outputClaimed (parent owner : String) (index : Nat)
  | outputUnclaimed (parent : String) (index : Nat)
  | invalidParameters (name : String) (reason : Problem α)
  | empty (name : String)
  deriving Repr

namespace WiringError

/-- The name of a fault in a report. -/
def title {α : Type} : WiringError α → String
  | capacity .. => "Capacity"
  | invalidArity .. => "InvalidArity"
  | stageMismatch .. => "StageMismatch"
  | mappingLength .. => "MappingLength"
  | indexOutOfRange .. => "IndexOutOfRange"
  | outputClaimed .. => "OutputClaimed"
  | outputUnclaimed .. => "OutputUnclaimed"
  | invalidParameters .. => "InvalidParameters"
  | empty .. => "Empty"

/-- What is said about it. -/
def message : WiringError Float → String
  | capacity requested limit =>
    "io vector of " ++ toString requested ++ " exceeds capacity " ++ toString limit
  | invalidArity name inputs outputs =>
    "controller '" ++ name ++ "' has invalid arity " ++ toString inputs ++ " -> "
      ++ toString outputs
  | stageMismatch feeder child expected found =>
    "'" ++ child ++ "' takes " ++ toString found ++ " inputs but '" ++ feeder
      ++ "' feeds it " ++ toString expected
  | mappingLength child side expected found =>
    "'" ++ child ++ "' " ++ side.name ++ " map has " ++ toString found
      ++ " entries, expected " ++ toString expected
  | indexOutOfRange parent child side index length =>
    "'" ++ child ++ "' " ++ side.name ++ " index " ++ toString index
      ++ " out of range for '" ++ parent ++ "' (len " ++ toString length ++ ")"
  | outputClaimed parent owner index =>
    "output " ++ toString index ++ " of '" ++ parent ++ "' already claimed by '" ++ owner ++ "'"
  | outputUnclaimed parent index =>
    "output " ++ toString index ++ " of '" ++ parent ++ "' is not driven by any child"
  | invalidParameters name reason =>
    "controller '" ++ name ++ "' built with invalid parameters: " ++ reason.text
  | empty name => "composite controller '" ++ name ++ "' has no children"

end WiringError

/-- Why a parameter block is refused. -/
inductive ParameterError (α : Type) where
  | unknownController (name : String)
  | wrongKind (name expected found : String)
  | notParameterized (name : String)
  | invalid (name : String) (reason : Problem α)
  deriving Repr

namespace ParameterError

/-- The name of a refusal in a report. -/
def title {α : Type} : ParameterError α → String
  | unknownController .. => "UnknownController"
  | wrongKind .. => "WrongKind"
  | notParameterized .. => "NotParameterized"
  | invalid .. => "Invalid"

/-- What is said about it. -/
def message : ParameterError Float → String
  | unknownController name => "no controller named '" ++ name ++ "'"
  | wrongKind name expected found =>
    "controller '" ++ name ++ "' takes " ++ expected ++ " parameters, got " ++ found
  | notParameterized name => "controller '" ++ name ++ "' has no parameters"
  | invalid name reason => "invalid parameters for '" ++ name ++ "': " ++ reason.text

end ParameterError

end MotionControl
