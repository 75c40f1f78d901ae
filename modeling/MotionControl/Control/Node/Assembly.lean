import MotionControl.Control.Node

/-!
# Building controller trees

- Leaves: `Node.pid`, `Node.straightMove`, `Node.speedRamp`, `Node.select`,
  `Node.forward`.  Settings are checked before anything else.
- `Node.appendStage`: a stage must take as many signals as the stage before it gives.
- `Node.appendBranch`: connections must fit, and an output has at most one driver.
- `Node.validate`: no node without children, and every output of a parallel node
  is driven.
-/

namespace MotionControl

namespace Node

variable {α : Type}

/-! ## Sequential nodes -/

/-- The stages with one more at the end. -/
def appendStage (stages : List (Node α)) (child : Node α) :
    Except (WiringError α) (List (Node α)) :=
  match stages.getLast? with
  | some last =>
    if last.outputCount = child.inputCount then .ok (stages ++ [child])
    else .error (.stageMismatch last.name child.name last.outputCount child.inputCount)
  | none => .ok [child]

/-- A sequential node with these stages. -/
def ofStages (name : String) (stages : List (Node α)) : Except (WiringError α) (Node α) := do
  .ok (sequential name (← stages.foldlM appendStage []))

/-! ## Parallel nodes -/

/-- A map has one entry for each signal of the child, and every entry is an index
into the parent's vector. -/
def checkMap (parent child : String) (side : Side) (map : List Nat) (expected length : Nat) :
    Except (WiringError α) Unit :=
  if map.length ≠ expected then .error (.mappingLength child side expected map.length)
  else
    match map.find? (length ≤ ·) with
    | some index => .error (.indexOutOfRange parent child side index length)
    | none => .ok ()

/-- The branch that drives an output. -/
def driver? (branches : List (Wired (Node α))) (index : Nat) : Option (Wired (Node α)) :=
  branches.find? (·.outputMap.contains index)

/-- The outputs that a new child claims are free, and it claims none twice.
`earlier` holds the child's claims so far. -/
def checkClaims (parent child : String) (branches : List (Wired (Node α))) (earlier : List Nat) :
    List Nat → Except (WiringError α) Unit
  | [] => .ok ()
  | index :: rest =>
    match driver? branches index with
    | some branch => .error (.outputClaimed parent branch.node.name index)
    | none =>
      if earlier.contains index then .error (.outputClaimed parent child index)
      else checkClaims parent child branches (index :: earlier) rest

/-- The branches with one more at the end. -/
def appendBranch (name : String) (inputs outputs : Signals α) (branches : List (Wired (Node α)))
    (branch : Wired (Node α)) : Except (WiringError α) (List (Wired (Node α))) := do
  let child := branch.node
  checkMap name child.name .input branch.inputMap child.inputCount inputs.length
  checkMap name child.name .output branch.outputMap child.outputCount outputs.length
  checkClaims name child.name branches [] branch.outputMap
  .ok (branches ++ [branch])

/-! ## Validation -/

/-- The least output without a driver. -/
def undriven? (outputs : Signals α) (branches : List (Wired (Node α))) : Option Nat :=
  (List.range outputs.length).find? fun index => (driver? branches index).isNone

/-- Every output has a driver. -/
def checkComplete (name : String) (outputs : Signals α) (branches : List (Wired (Node α))) :
    Except (WiringError α) Unit :=
  match undriven? outputs branches with
  | some index => .error (.outputUnclaimed name index)
  | none => .ok ()

mutual

/-- The whole tree can run: no node without children, every output driven. -/
def validate : Node α → Except (WiringError α) Unit
  | leaf .. => .ok ()
  | sequential name stages => do
    if stages.isEmpty then .error (.empty name)
    validateStages stages
  | parallel name _ outputs branches => do
    if branches.isEmpty then .error (.empty name)
    checkComplete name outputs branches
    validateBranches branches

/-- Every stage can run. -/
def validateStages : List (Node α) → Except (WiringError α) Unit
  | [] => .ok ()
  | stage :: rest => do
    validate stage
    validateStages rest

/-- Every branch can run. -/
def validateBranches : List (Wired (Node α)) → Except (WiringError α) Unit
  | [] => .ok ()
  | ⟨_, _, node⟩ :: rest => do
    validate node
    validateBranches rest

end

/-- A tree that passed `validate`. -/
def validated (n : Node α) : Except (WiringError α) (Node α) := do
  validate n
  .ok n

variable [Scalar α]

/-! ## Making nodes -/

/-- A leaf with vectors of the size that its law needs. -/
def ofLaw (name : String) (law : Law α) : Except (WiringError α) (Node α) :=
  let (inputs, outputs) := law.arity
  if inputs = 0 ∨ outputs = 0 then .error (.invalidArity name inputs outputs)
  else do .ok (leaf name law (← Signals.zeroed inputs) (← Signals.zeroed outputs))

/-- A leaf whose settings must pass their check. -/
def ofSettings (name : String) (settings : LawSettings α) (law : Law α) :
    Except (WiringError α) (Node α) :=
  match settings.check with
  | .error reason => .error (.invalidParameters name reason)
  | .ok () => ofLaw name law

/-- A leaf of PID channels with the same gains. -/
def pid (name : String) (channels : Nat) (layout : PidLayout) (gains : PidGains α) (period : α) :
    Except (WiringError α) (Node α) :=
  ofSettings name (.pid gains) (.pid (.fresh channels layout gains period))

/-- A leaf that leads a vehicle to a pose. -/
def straightMove (name : String) (settings : StraightMoveSettings α) :
    Except (WiringError α) (Node α) :=
  ofSettings name (.straightMove settings) (.straightMove (.fresh settings))

/-- A leaf that limits a speed order. -/
def speedRamp (name : String) (settings : RampSettings α) (period : α) :
    Except (WiringError α) (Node α) :=
  ofSettings name (.speedRamp settings) (.speedRamp ⟨settings, period⟩)

/-- A leaf that picks one of two blocks of `width` signals. -/
def select (name : String) (width : Nat) : Except (WiringError α) (Node α) :=
  ofLaw name (.select width)

/-- A leaf that hands on `width` signals. -/
def forward (name : String) (width : Nat) : Except (WiringError α) (Node α) :=
  ofLaw name (.forward width)

/-- The two vectors of a parallel node. -/
def parallelSignals (name : String) (inputs outputs : Nat) :
    Except (WiringError α) (Signals α × Signals α) :=
  if inputs = 0 ∨ outputs = 0 then .error (.invalidArity name inputs outputs)
  else do .ok (← Signals.zeroed inputs, ← Signals.zeroed outputs)

/-- A parallel node with these branches. -/
def ofBranches (name : String) (inputs outputs : Nat) (branches : List (Wired (Node α))) :
    Except (WiringError α) (Node α) := do
  let (inputs, outputs) ← parallelSignals name inputs outputs
  .ok (parallel name inputs outputs (← branches.foldlM (appendBranch name inputs outputs) []))

end Node

end MotionControl
