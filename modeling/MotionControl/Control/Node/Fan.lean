import MotionControl.Control.Node.Assembly
import MotionControl.InPlace

/-!
# Parallel nodes under construction

A parallel node is put together one child after another.  It keeps a table of the child that drives
each output, and looks up there whether the outputs that a new child claims are free.

- `Fan`: the node with its children, their connections and the table.
- `Fan.attach`: one more child, added in place.  A map or claim that does not fit is refused, and
  an index past the end of a table is a stop of its own.
- `Fan.checkComplete`: whether every output has a driver.
- `Fan.toNode`: the node of the tree.
-/

namespace MotionControl

/-- The connections of a child. -/
structure Mapping where
  /-- For each input of the child, the input of the parent that it takes. -/
  inputMap : List Nat
  /-- For each output of the child, the output of the parent that it drives. -/
  outputMap : List Nat
  deriving Repr, DecidableEq

/-- A parallel node under construction. -/
structure Fan (α : Type) where
  name : String
  inputs : Signals α
  outputs : Signals α
  children : List (Node α)
  /-- One entry for each child. -/
  mappings : List Mapping
  /-- For each output, the place of the child that drives it. -/
  owners : List (Option Nat)

namespace Fan

variable {α : Type}

/-- Why a child is not added. -/
inductive Stop (α : Type) where
  | refused (reason : WiringError α)
  /-- A table was read or written past its end. -/
  | outOfRange (index length : Nat)

/-- A node without children; nobody drives its outputs. -/
def opened [Scalar α] (name : String) (inputs outputs : Nat) :
    Except (WiringError α) (Fan α) := do
  let (ins, outs) ← Node.parallelSignals name inputs outputs
  .ok ⟨name, ins, outs, [], [], List.replicate outputs none⟩

/-! ## Adding a child -/

/-- The entry of a table. -/
def entry {β : Type} (table : List β) (index : Nat) : Except (Stop α) β :=
  match table[index]? with
  | some b => .ok b
  | none => .error (.outOfRange index table.length)

/-- Who claimed an output before: a child of the node, or the new child itself, whose claims so
far are `earlier`. -/
def claimant? (fan : Fan α) (child : String) (earlier : List Nat) (index : Nat) :
    Except (Stop α) (Option String) := do
  match ← entry fan.owners index with
  | some k =>
    let owner ← entry fan.children k
    .ok (some owner.name)
  | none => .ok (if earlier.contains index then some child else none)

/-- The outputs that a new child claims are free, and it claims none twice. -/
def checkClaims (fan : Fan α) (child : String) (earlier : List Nat) :
    List Nat → Except (Stop α) Unit
  | [] => .ok ()
  | index :: rest => do
    match ← fan.claimant? child earlier index with
    | some owner => .error (.refused (.outputClaimed fan.name owner index))
    | none => fan.checkClaims child (index :: earlier) rest

/-- An output is handed to the child in this place. -/
def own (k index : Nat) : InPlace (Stop α) (Fan α) Unit := do
  let fan ← get
  if index < fan.owners.length then
    set { fan with owners := fan.owners.set index (some k) }
  else throw (.outOfRange index fan.owners.length)

/-- All outputs in a map are handed to the child in this place. -/
def ownAll (k : Nat) : List Nat → InPlace (Stop α) (Fan α) Unit
  | [] => pure ()
  | index :: rest => do
    own k index
    ownAll k rest

/-- One more child with its connections. -/
def attach (b : Wired (Node α)) : InPlace (Stop α) (Fan α) Unit := do
  let fan ← get
  let child := b.node
  ((Node.checkMap fan.name child.name .input b.inputMap child.inputCount fan.inputs.length).mapError
    .refused : Except (Stop α) Unit)
  ((Node.checkMap fan.name child.name .output b.outputMap child.outputCount
    fan.outputs.length).mapError .refused : Except (Stop α) Unit)
  fan.checkClaims child.name [] b.outputMap
  ownAll fan.children.length b.outputMap
  modify fun fan => { fan with children := fan.children ++ [child] }
  modify fun fan => { fan with mappings := fan.mappings ++ [⟨b.inputMap, b.outputMap⟩] }

/-- Every output has a driver. -/
def checkComplete (fan : Fan α) : Except (WiringError α) Unit :=
  match fan.owners.findIdx? Option.isNone with
  | some index => .error (.outputUnclaimed fan.name index)
  | none => .ok ()

/-! ## The finished node -/

/-- The children with their connections. -/
def branches (fan : Fan α) : List (Wired (Node α)) :=
  List.zipWith (fun child m => ⟨m.inputMap, m.outputMap, child⟩) fan.children fan.mappings

/-- The node of the tree. -/
def toNode (fan : Fan α) : Node α := .parallel fan.name fan.inputs fan.outputs fan.branches

end Fan

end MotionControl
