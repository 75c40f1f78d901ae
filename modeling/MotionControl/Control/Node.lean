import MotionControl.Control.Law
import MotionControl.Control.Signals

/-!
# Controller trees

A tree of controllers: leaves carry out one law each, a sequential node feeds
every stage with the outputs of the stage before, and a parallel node spreads its
inputs over branches and gathers their outputs.

- `Node`: the tree, with the signal vectors of every leaf and parallel node.  A
  sequential node has none of its own: its inputs are those of its first stage,
  its outputs those of its last.
- `Node.inputs`, `Node.outputs`: the vectors at a node's two ends.  A sequential
  node without stages has neither, and asking for them is a fault.
-/

namespace MotionControl

/-- A node with its connections to a parallel parent. -/
structure Wired (β : Type) where
  /-- For each input of the node, the input of the parent that it takes. -/
  inputMap : List Nat
  /-- For each output of the node, the output of the parent that it drives. -/
  outputMap : List Nat
  node : β

/-- A tree of controllers. -/
inductive Node (α : Type) where
  | leaf (name : String) (law : Law α) (inputs outputs : Signals α)
  | sequential (name : String) (stages : List (Node α))
  | parallel (name : String) (inputs outputs : Signals α) (branches : List (Wired (Node α)))

namespace Node

variable {α : Type}

/-- The name of the node itself. -/
def name : Node α → String
  | leaf name .. | sequential name _ | parallel name .. => name

/-- What a node is called in outlines. -/
def kind [Scalar α] : Node α → String
  | leaf _ law .. => law.kind
  | sequential .. => "sequential"
  | parallel .. => "parallel"

/-- The nodes directly below. -/
def children : Node α → List (Node α)
  | leaf .. => []
  | sequential _ stages => stages
  | parallel _ _ _ branches => branches.map (·.node)

/-! ## The two ends of a node -/

mutual

/-- The vector that a cycle reads. -/
def inputs : Node α → Except Fault (Signals α)
  | leaf _ _ inputs _ | parallel _ inputs _ _ => .ok inputs
  | sequential name stages => firstInputs name stages

/-- The inputs of a cascade are those of its first stage. -/
def firstInputs (name : String) : List (Node α) → Except Fault (Signals α)
  | [] => .error (.emptyCascade name)
  | first :: _ => first.inputs

end

mutual

/-- The vector that a cycle writes. -/
def outputs : Node α → Except Fault (Signals α)
  | leaf _ _ _ outputs | parallel _ _ outputs _ => .ok outputs
  | sequential name stages => lastOutputs name stages

/-- The outputs of a cascade are those of its last stage. -/
def lastOutputs (name : String) : List (Node α) → Except Fault (Signals α)
  | [] => .error (.emptyCascade name)
  | [last] => last.outputs
  | _ :: second :: rest => lastOutputs name (second :: rest)

end

/-- The number of inputs, zero where there is no vector. -/
def inputCount (n : Node α) : Nat :=
  match n.inputs with
  | .ok signals => signals.length
  | .error _ => 0

/-- The number of outputs, zero where there is no vector. -/
def outputCount (n : Node α) : Nat :=
  match n.outputs with
  | .ok signals => signals.length
  | .error _ => 0

/-! ## Equality

Two trees are equal when all names, laws, vectors and connections are. -/

mutual

/-- Trees are equal if their laws and all their vectors are. -/
def beq [BEq α] : Node α → Node α → Bool
  | leaf name law inputs outputs, leaf name' law' inputs' outputs' =>
    name == name' && law == law' && inputs == inputs' && outputs == outputs'
  | sequential name stages, sequential name' stages' => name == name' && beqStages stages stages'
  | parallel name inputs outputs branches, parallel name' inputs' outputs' branches' =>
    name == name' && inputs == inputs' && outputs == outputs' && beqBranches branches branches'
  | _, _ => false

/-- The same for stages. -/
def beqStages [BEq α] : List (Node α) → List (Node α) → Bool
  | [], [] => true
  | stage :: stages, stage' :: stages' => beq stage stage' && beqStages stages stages'
  | _, _ => false

/-- The same for branches, with their connections. -/
def beqBranches [BEq α] : List (Wired (Node α)) → List (Wired (Node α)) → Bool
  | [], [] => true
  | ⟨inputMap, outputMap, node⟩ :: branches, ⟨inputMap', outputMap', node'⟩ :: branches' =>
    inputMap == inputMap' && outputMap == outputMap' && beq node node'
      && beqBranches branches branches'
  | _, _ => false

end

instance [BEq α] : BEq (Node α) := ⟨beq⟩

end Node

end MotionControl
