import MotionControl.Control.Node

/-!
# Cycles of a controller tree

- `Node.run`: one cycle, with new inputs written first where some are given.
- `Node.compute`: one cycle on the inputs that are there.
- `Node.reset`: forgets what earlier cycles left behind, in laws and vectors.

A cycle and the writing of inputs are one recursion, because a stage or a branch
is written and then run: `run (some write)` is `overInputs write` and then `run none`.
-/

namespace MotionControl

namespace Node

variable {α : Type}

/-! ## Inputs -/

/-- Changes the vector that the next cycle reads. -/
def overInputs (write : Signals α → Except Fault (Signals α)) : Node α → Except Fault (Node α)
  | leaf name law inputs outputs => do .ok (leaf name law (← write inputs) outputs)
  | sequential name [] => .error (.emptyCascade name)
  | sequential name (first :: rest) => do
    .ok (sequential name ((← overInputs write first) :: rest))
  | parallel name inputs outputs branches => do
    .ok (parallel name (← write inputs) outputs branches)

/-- Writes one input. -/
def setInput (n : Node α) (index : Nat) (v : α) : Except Fault (Node α) :=
  n.overInputs (·.set index v)

/-- Overwrites every input. -/
def setInputs (n : Node α) (values : List α) : Except Fault (Node α) :=
  n.overInputs (·.copy values)

/-! ## One cycle -/

/-- The vector that a leaf or parallel node reads, after the writing. -/
def written (write : Option (Signals α → Except Fault (Signals α))) (inputs : Signals α) :
    Except Fault (Signals α) :=
  match write with
  | none => .ok inputs
  | some write => write inputs

/-- An input of a branch takes the parent's input in an entry of its map. -/
def takeInput (source target : Signals α) (entry : Nat × Nat) : Except Fault (Signals α) := do
  target.set entry.2 (← source.get entry.1)

/-- What a branch takes from its parent's inputs, one input after another. -/
def distribute (source : Signals α) (inputMap : List Nat) (target : Signals α) :
    Except Fault (Signals α) :=
  inputMap.zipIdx.foldlM (takeInput source) target

/-- An output of a branch drives the parent's output in an entry of its map. -/
def driveOutput (outputs : Except Fault (Signals α)) (target : Signals α) (entry : Nat × Nat) :
    Except Fault (Signals α) := do
  target.set entry.1 (← (← outputs).get entry.2)

/-- The parent's outputs with those that a branch drives, one output after another. -/
def deliver (target : Signals α) (branch : Wired (Node α)) : Except Fault (Signals α) :=
  branch.outputMap.zipIdx.foldlM (driveOutput branch.node.outputs) target

/-- The parent's outputs after all branches. -/
def gather (target : Signals α) (branches : List (Wired (Node α))) : Except Fault (Signals α) :=
  branches.foldlM deliver target

variable [Scalar α]

mutual

/-- One cycle of a node and of everything below it, after the given writing of its
inputs. -/
def run (write : Option (Signals α → Except Fault (Signals α))) :
    Node α → Except Fault (Node α)
  | leaf name law inputs outputs => do
    let inputs ← written write inputs
    let (values, law) ← law.compute inputs.values outputs.values
    .ok (leaf name law inputs ⟨values⟩)
  | sequential name [] =>
    if write.isSome then .error (.emptyCascade name) else .ok (sequential name [])
  | sequential name (first :: rest) => do
    let first ← run write first
    .ok (sequential name (first :: (← runFollowers first rest)))
  | parallel name inputs outputs branches => do
    let inputs ← written write inputs
    let branches ← runBranches inputs branches
    .ok (parallel name inputs (← gather outputs branches) branches)

/-- The stages after `previous`, each on the outputs of the one before. -/
def runFollowers (previous : Node α) : List (Node α) → Except Fault (List (Node α))
  | [] => .ok []
  | stage :: rest => do
    let fed ← previous.outputs
    let stage ← run (some (·.copy fed.values)) stage
    .ok (stage :: (← runFollowers stage rest))

/-- The branches, each on its share of the parent's inputs. -/
def runBranches (inputs : Signals α) :
    List (Wired (Node α)) → Except Fault (List (Wired (Node α)))
  | [] => .ok []
  | ⟨inputMap, outputMap, node⟩ :: rest => do
    let node ← run (if inputMap.isEmpty then none else some (distribute inputs inputMap)) node
    .ok (⟨inputMap, outputMap, node⟩ :: (← runBranches inputs rest))

end

/-- One cycle on the inputs that are there. -/
def compute (n : Node α) : Except Fault (Node α) := n.run none

/-- Overwrites the inputs, runs one cycle and reads the outputs. -/
def respond (n : Node α) (values : List α) : Except Fault (Signals α × Node α) := do
  let n ← (← n.setInputs values).compute
  .ok (← n.outputs, n)

/-! ## Reset -/

mutual

/-- Laws and vectors as they were before the first cycle; parameters are kept. -/
def reset : Node α → Node α
  | leaf name law inputs outputs => leaf name law.reset inputs.clear outputs.clear
  | sequential name stages => sequential name (resetStages stages)
  | parallel name inputs outputs branches =>
    parallel name inputs.clear outputs.clear (resetBranches branches)

/-- The same for stages. -/
def resetStages : List (Node α) → List (Node α)
  | [] => []
  | stage :: rest => reset stage :: resetStages rest

/-- The same for branches. -/
def resetBranches : List (Wired (Node α)) → List (Wired (Node α))
  | [] => []
  | ⟨inputMap, outputMap, node⟩ :: rest => ⟨inputMap, outputMap, reset node⟩ :: resetBranches rest

end

/-- Stages are reset one by one. -/
theorem resetStages_eq_map (stages : List (Node α)) : resetStages stages = stages.map reset := by
  induction stages with
  | nil => rfl
  | cons stage rest ih => simp [resetStages, ih]

/-- Branches are reset one by one and keep their connections. -/
theorem resetBranches_eq_map (branches : List (Wired (Node α))) :
    resetBranches branches = branches.map fun b => { b with node := reset b.node } := by
  induction branches with
  | nil => rfl
  | cons branch rest ih => simp [resetBranches, ih]

end Node

end MotionControl
