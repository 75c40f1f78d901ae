import MotionControl.Control.Pid
import MotionControl.Control.SpeedRamp
import MotionControl.Control.StraightMove

/-!
# Laws of leaf controllers

- `PidBank`: PID channels side by side.
- `Routing`: the laws that only pass signals on.
- `Law`: the closed set of computations that a leaf can carry out.
- `LawSettings`: the parameter block of a law that has one.
-/

namespace MotionControl

/-- How a bank reads its inputs. -/
inductive PidLayout where
  /-- A target and a measurement for each channel. -/
  | setpointMeasurement
  /-- An error for each channel. -/
  | error
  deriving Repr, DecidableEq

/-- What one channel reads: a target and a measurement, or an error, which is measured
against zero. -/
def PidLayout.read {α : Type} [Scalar α] (layout : PidLayout) (inputs : List α) (k : Nat) :
    Except Fault (α × α) :=
  match layout with
  | .setpointMeasurement => do .ok (← Slice.get inputs (2 * k), ← Slice.get inputs (2 * k + 1))
  | .error => do .ok (← Slice.get inputs k, 0)

/-- Independent channels, one output each. -/
structure PidBank (α : Type) where
  layout : PidLayout
  channels : List (Pid α)
  deriving Repr, BEq

namespace PidBank

variable {α : Type} [Scalar α]

/-- Equal channels at rest. -/
def fresh (channels : Nat) (layout : PidLayout) (gains : PidGains α) (period : α) : PidBank α :=
  ⟨layout, List.replicate channels (.fresh gains period)⟩

/-- The numbers of inputs and outputs. -/
def arity (b : PidBank α) : Nat × Nat :=
  match b.layout with
  | .setpointMeasurement => (2 * b.channels.length, b.channels.length)
  | .error => (b.channels.length, b.channels.length)

/-- The channels from one on, each with its own inputs and an output of its own, for as
long as there are both. -/
def computeChannels (layout : PidLayout) (inputs : List α) :
    Nat → List (Pid α) → List α → Except Fault (List α × List (Pid α))
  | k, channel :: channels, _ :: outputs => do
    let (target, measured) ← layout.read inputs k
    let (command, channel) ← channel.compute target measured
    let (commands, channels) ← computeChannels layout inputs (k + 1) channels outputs
    .ok (command :: commands, channel :: channels)
  | _, channels, outputs => .ok (outputs, channels)

/-- One cycle: the outputs, written in place, and the bank after it. -/
def compute (b : PidBank α) (inputs outputs : List α) : Except Fault (List α × PidBank α) := do
  let (outputs, channels) ← computeChannels b.layout inputs 0 b.channels outputs
  .ok (outputs, { b with channels })

/-- Every channel forgets what it remembers. -/
def reset (b : PidBank α) : PidBank α := { b with channels := b.channels.map Pid.reset }

/-- The same gains for every channel. -/
def withGains (b : PidBank α) (gains : PidGains α) : PidBank α :=
  { b with channels := b.channels.map (·.withGains gains) }

end PidBank

namespace Routing

variable {α : Type} [Scalar α]

/-- One of two blocks of signals, each as wide as the outputs.  The selector stands before
them: below one half it picks the first; with any other, not a number included, the second. -/
def select (inputs outputs : List α) : Except Fault (List α) := do
  let width := outputs.length
  let start := if (← Slice.get inputs 0) < Scalar.half then 1 else 1 + width
  Slice.copy outputs (← Slice.range inputs start width)

omit [Scalar α] in
/-- The signals as they are. -/
def forward (inputs outputs : List α) : Except Fault (List α) := Slice.copy outputs inputs

end Routing

/-- What a leaf computes. -/
inductive Law (α : Type) where
  | pid (bank : PidBank α)
  | straightMove (law : StraightMove α)
  | speedRamp (law : SpeedRamp α)
  | select (width : Nat)
  | forward (width : Nat)
  deriving Repr, BEq

/-- A parameter block for a leaf. -/
inductive LawSettings (α : Type) where
  | pid (gains : PidGains α)
  | straightMove (settings : StraightMoveSettings α)
  | speedRamp (settings : RampSettings α)
  deriving Repr, BEq

namespace LawSettings

variable {α : Type} [Scalar α]

/-- The name of the laws that take this block. -/
def kind : LawSettings α → String
  | pid _ => "pid"
  | straightMove _ => "pose_straight"
  | speedRamp _ => "speed_ramp"

/-- The check that a leaf makes before it takes the block. -/
def check : LawSettings α → Except (Problem α) Unit
  | pid gains => gains.check
  | straightMove settings => settings.check
  | speedRamp settings => settings.check

end LawSettings

namespace Law

variable {α : Type} [Scalar α]

/-- The name of a law in outlines and messages. -/
def kind : Law α → String
  | pid _ => "pid"
  | straightMove _ => "pose_straight"
  | speedRamp _ => "speed_ramp"
  | select _ => "switch"
  | forward _ => "passthrough"

/-- The numbers of inputs and outputs. -/
def arity : Law α → Nat × Nat
  | pid bank => bank.arity
  | straightMove _ => StraightMove.arity
  | speedRamp _ => SpeedRamp.arity
  | select width => (1 + 2 * width, width)
  | forward width => (width, width)

/-- One cycle: the outputs, written in place, and the law after it. -/
def compute (law : Law α) (inputs outputs : List α) : Except Fault (List α × Law α) :=
  match law with
  | pid bank => do
    let (outputs, bank) ← bank.compute inputs outputs
    .ok (outputs, pid bank)
  | straightMove f => do
    let (outputs, f) ← f.compute inputs outputs
    .ok (outputs, straightMove f)
  | speedRamp f => do .ok (← f.compute inputs outputs, law)
  | select _ => do .ok (← Routing.select inputs outputs, law)
  | forward _ => do .ok (← Routing.forward inputs outputs, law)

/-- Forgets what earlier cycles left behind. -/
def reset : Law α → Law α
  | pid bank => pid bank.reset
  | straightMove f => straightMove f.reset
  | law => law

/-- The parameter block in force. -/
def settings? : Law α → Option (LawSettings α)
  | pid bank => bank.channels.head?.map (.pid ·.gains)
  | straightMove f => some (.straightMove f.settings)
  | speedRamp f => some (.speedRamp f.settings)
  | select _ | forward _ => none

/-- Another parameter block, if the law takes blocks of its kind.  What earlier
cycles left behind is kept. -/
def install (law : Law α) (settings : LawSettings α) : Option (Law α) :=
  match law, settings with
  | pid bank, .pid gains => some (pid (bank.withGains gains))
  | straightMove f, .straightMove settings => some (straightMove { f with settings })
  | speedRamp f, .speedRamp settings => some (speedRamp { f with settings })
  | _, _ => none

/-- The law takes parameter blocks of some kind. -/
def isParameterized : Law α → Bool
  | select _ | forward _ => false
  | _ => true

end Law

end MotionControl
