/-!
# Faults of a computation

A fault is a use that the caller was never allowed to make.  It ends the
computation, and nothing that was computed so far is handed out.

- `Fault`: what happened.
- `Fault.message?`: the wording, for the faults that have one.
-/

namespace MotionControl

/-- Why a computation came to an end. -/
inductive Fault where
  /-- A signal vector was read or written past its end. -/
  | signalIndex (index length : Nat)
  /-- A signal vector was overwritten by one of another length. -/
  | signalLength (given expected : Nat)
  /-- A cascade without stages has neither inputs nor outputs. -/
  | emptyCascade (name : String)
  /-- A value was to be clamped between bounds that form no interval. -/
  | clampBounds
  /-- A law was given too few signals, or too many. -/
  | signalCount
  /-- A quotient does not fit into 64 bits. -/
  | quotient
  /-- A hook gave up. -/
  | hook
  /-- A task was to bear a name with a NUL in it. -/
  | taskName
  deriving Repr, DecidableEq

namespace Fault

/-- The wording of a fault, if it has one. -/
def message? : Fault → Option String
  | signalIndex index length =>
    some ("io index " ++ toString index ++ " out of range (len " ++ toString length ++ ")")
  | signalLength given expected =>
    some ("io length mismatch: got " ++ toString given ++ ", expected " ++ toString expected)
  | emptyCascade name => some ("sequential controller '" ++ name ++ "' has no children")
  | clampBounds | signalCount | quotient | hook | taskName => none

end Fault

/-- `Scalar.clamp?`, where bounds that form no interval are a fault. -/
def orFault {β : Type} (fault : Fault) : Option β → Except Fault β
  | some b => .ok b
  | none => .error fault

end MotionControl
