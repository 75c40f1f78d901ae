import MotionControl.Control.Node

/-!
# Reaching into a controller tree

Nodes are addressed by name.  Names may repeat; the first node in depth-first
order, parents before children, is meant.

- `Node.find?`: the node of a name.
- `Node.parameters?`, `Node.setParameters`: the parameter block of a leaf.
- `Node.outline`: a printed tree.
-/

namespace MotionControl

namespace Node

variable {α : Type}

/-! ## Look-up -/

mutual

/-- The first node of this name. -/
def find? (name : String) : Node α → Option (Node α)
  | leaf own law inputs outputs =>
    if own = name then some (leaf own law inputs outputs) else none
  | sequential own stages =>
    if own = name then some (sequential own stages) else findStage? name stages
  | parallel own inputs outputs branches =>
    if own = name then some (parallel own inputs outputs branches)
    else findBranch? name branches

/-- The same among stages. -/
def findStage? (name : String) : List (Node α) → Option (Node α)
  | [] => none
  | stage :: rest =>
    match find? name stage with
    | some found => some found
    | none => findStage? name rest

/-- The same among branches. -/
def findBranch? (name : String) : List (Wired (Node α)) → Option (Node α)
  | [] => none
  | ⟨_, _, node⟩ :: rest =>
    match find? name node with
    | some found => some found
    | none => findBranch? name rest

end

/-! ## Change -/

section Change

variable {ε : Type}

mutual

/-- The tree with the first node of this name changed; nothing if there is none. -/
def edit? (name : String) (change : Node α → Except ε (Node α)) :
    Node α → Option (Except ε (Node α))
  | leaf own law inputs outputs =>
    if own = name then some (change (leaf own law inputs outputs)) else none
  | sequential own stages =>
    if own = name then some (change (sequential own stages))
    else (editStage? name change stages).map (·.map (sequential own))
  | parallel own inputs outputs branches =>
    if own = name then some (change (parallel own inputs outputs branches))
    else (editBranch? name change branches).map (·.map (parallel own inputs outputs))

/-- The same among stages. -/
def editStage? (name : String) (change : Node α → Except ε (Node α)) :
    List (Node α) → Option (Except ε (List (Node α)))
  | [] => none
  | stage :: rest =>
    match edit? name change stage with
    | some changed => some (changed.map (· :: rest))
    | none => (editStage? name change rest).map (·.map (stage :: ·))

/-- The same among branches. -/
def editBranch? (name : String) (change : Node α → Except ε (Node α)) :
    List (Wired (Node α)) → Option (Except ε (List (Wired (Node α))))
  | [] => none
  | ⟨inputMap, outputMap, node⟩ :: rest =>
    match edit? name change node with
    | some changed => some (changed.map (⟨inputMap, outputMap, ·⟩ :: rest))
    | none =>
      (editBranch? name change rest).map (·.map (⟨inputMap, outputMap, node⟩ :: ·))

end

end Change

/-! ## Parameter blocks -/

variable [Scalar α]

/-- A leaf with another parameter block.  The block is checked before the law is
asked whether it takes blocks of this kind. -/
def install (settings : LawSettings α) : Node α → Except (ParameterError α) (Node α)
  | leaf name law inputs outputs =>
    match settings.check with
    | .error reason => .error (.invalid name reason)
    | .ok () =>
      match law.install settings with
      | some law => .ok (leaf name law inputs outputs)
      | none =>
        if law.isParameterized then .error (.wrongKind name law.kind settings.kind)
        else .error (.notParameterized name)
  | n => .error (.notParameterized n.name)

/-- Replaces the parameter block of the leaf of this name.  What earlier cycles
left behind is kept. -/
def setParameters (n : Node α) (name : String) (settings : LawSettings α) :
    Except (ParameterError α) (Node α) :=
  (n.edit? name (install settings)).getD (.error (.unknownController name))

/-- The parameter block of the leaf of this name. -/
def parameters? (n : Node α) (name : String) : Option (LawSettings α) :=
  match n.find? name with
  | some (leaf _ law _ _) => law.settings?
  | _ => none

/-! ## Outline -/

/-- One line for a node: name, kind and the numbers of inputs and outputs. -/
def outlineLine (depth : Nat) (n : Node α) : String :=
  "".pushn ' ' (2 * depth) ++ n.name ++ " [" ++ n.kind ++ "] " ++ toString n.inputCount
    ++ " -> " ++ toString n.outputCount ++ "\n"

mutual

/-- The node and, two columns further in, everything below it. -/
def outlineAt (depth : Nat) : Node α → String
  | leaf name law inputs outputs => outlineLine depth (leaf name law inputs outputs)
  | sequential name stages =>
    outlineLine depth (sequential name stages) ++ outlineStages (depth + 1) stages
  | parallel name inputs outputs branches =>
    outlineLine depth (parallel name inputs outputs branches)
      ++ outlineBranches (depth + 1) branches

/-- The outlines of stages, one below the other. -/
def outlineStages (depth : Nat) : List (Node α) → String
  | [] => ""
  | stage :: rest => outlineAt depth stage ++ outlineStages depth rest

/-- The outlines of branches, one below the other. -/
def outlineBranches (depth : Nat) : List (Wired (Node α)) → String
  | [] => ""
  | ⟨_, _, node⟩ :: rest => outlineAt depth node ++ outlineBranches depth rest

end

/-- The tree in print, a line for each node. -/
def outline (n : Node α) : String := n.outlineAt 0

end Node

end MotionControl
