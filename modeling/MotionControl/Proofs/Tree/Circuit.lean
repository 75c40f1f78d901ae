import MotionControl.Proofs.Law.Answer
import MotionControl.Proofs.Outcome
import MotionControl.Proofs.Tree.Cyclic
import MotionControl.Proofs.Tree.Shape

/-!
# Circuits

What a controller tree computes, apart from the vectors that it passes signals through.
A leaf is its law, a cascade is the composition of its stages, and a parallel node picks
the inputs of its branches and places their outputs.

- `Circuit`: a tree without vectors, and `Circuit.eval`: one cycle of it.
- `Circuit.machine`: a circuit as a machine, reset and changed like a tree.
- `Node.circuit`: the circuit of a tree, and `Node.blank`: a tree with cleared vectors.
- `Node.circuit_reset`, `Node.circuit_setParameters`: a tree and its circuit are reset
  and changed alike.
-/

namespace MotionControl

/-- A controller tree without vectors.  A parallel node knows the number of its outputs. -/
inductive Circuit (α : Type) where
  | leaf (name : String) (law : Law α)
  | sequential (name : String) (stages : List (Circuit α))
  | parallel (name : String) (outputs : Nat) (branches : List (Wired (Circuit α)))

/-- The law with a parameter block that passes its check; nothing if it does not or if the
law takes no blocks of its kind. -/
def Law.accept? {α : Type} [Scalar α] (law : Law α) (settings : LawSettings α) :
    Option (Law α) :=
  match settings.check with
  | .ok () => law.install settings
  | .error _ => none

namespace Circuit

variable {α : Type} [Scalar α]

/-! ## One cycle -/

mutual

/-- The outputs on the given inputs and the circuit after the cycle; nothing if a law
faults. -/
def eval : Circuit α → List α → Option (List α × Circuit α)
  | leaf name law, inputs => (law.answer inputs).toOption.map fun r => (r.1, leaf name r.2)
  | sequential name stages, inputs =>
    (evalStages stages inputs).map fun r => (r.1, sequential name r.2)
  | parallel name outputs branches, inputs =>
    (evalBranches branches inputs).bind fun r =>
      ((List.range outputs).mapM (r.1.lookup ·)).map fun values =>
        (values, parallel name outputs r.2)

/-- Every stage on the outputs of the one before. -/
def evalStages : List (Circuit α) → List α → Option (List α × List (Circuit α))
  | [], inputs => some (inputs, [])
  | stage :: rest, inputs =>
    (eval stage inputs).bind fun r => (evalStages rest r.1).map fun q => (q.1, r.2 :: q.2)

/-- Every branch on its share of the inputs; its outputs with the places where they go. -/
def evalBranches :
    List (Wired (Circuit α)) → List α → Option (List (Nat × α) × List (Wired (Circuit α)))
  | [], _ => some ([], [])
  | ⟨inputMap, outputMap, node⟩ :: rest, inputs =>
    (inputMap.mapM (inputs[·]?)).bind fun picked =>
      (eval node picked).bind fun r =>
        (evalBranches rest inputs).map fun q =>
          (outputMap.zip r.1 ++ q.1, ⟨inputMap, outputMap, r.2⟩ :: q.2)

end

/-- A cascade of two parts is the one after the other. -/
theorem evalStages_append (front back : List (Circuit α)) (inputs : List α) :
    evalStages (front ++ back) inputs
      = (evalStages front inputs).bind fun r =>
          (evalStages back r.1).map fun q => (q.1, r.2 ++ q.2) := by
  induction front generalizing inputs with
  | nil => simp [evalStages]
  | cons first rest ih =>
    simp only [List.cons_append, evalStages, ih]
    cases eval first inputs with
    | none => rfl
    | some r =>
      simp only [Option.bind_some]
      cases evalStages rest r.1 with
      | none => rfl
      | some q => simp [Function.comp_def]

theorem evalStages_append_eq_some {front back stages' : List (Circuit α)}
    {inputs outputs : List α} :
    evalStages (front ++ back) inputs = some (outputs, stages') ↔
      ∃ between front' back', evalStages front inputs = some (between, front') ∧
        evalStages back between = some (outputs, back') ∧ stages' = front' ++ back' := by
  rw [evalStages_append]
  constructor
  · intro h
    obtain ⟨⟨between, front'⟩, hfront, h⟩ := Option.bind_eq_some_iff.mp h
    obtain ⟨⟨outputs', back'⟩, hback, h⟩ := Option.map_eq_some_iff.mp h
    cases h
    exact ⟨between, front', back', hfront, hback, rfl⟩
  · rintro ⟨between, front', back', hfront, hback, rfl⟩
    rw [hfront, Option.bind_some, hback, Option.map_some]

theorem evalStages_cons_eq_some {stage : Circuit α} {rest stages' : List (Circuit α)}
    {inputs outputs : List α} :
    evalStages (stage :: rest) inputs = some (outputs, stages') ↔
      ∃ between stage' rest', eval stage inputs = some (between, stage') ∧
        evalStages rest between = some (outputs, rest') ∧ stages' = stage' :: rest' := by
  rw [evalStages]
  constructor
  · intro h
    obtain ⟨⟨between, stage'⟩, hstage, h⟩ := Option.bind_eq_some_iff.mp h
    obtain ⟨⟨outputs', rest'⟩, hrest, h⟩ := Option.map_eq_some_iff.mp h
    cases h
    exact ⟨between, stage', rest', hstage, hrest, rfl⟩
  · rintro ⟨between, stage', rest', hstage, hrest, rfl⟩
    rw [hstage, Option.bind_some, hrest, Option.map_some]

theorem eval_sequential_eq_some {name : String} {stages : List (Circuit α)} {c' : Circuit α}
    {inputs outputs : List α} :
    eval (.sequential name stages) inputs = some (outputs, c') ↔
      ∃ stages', evalStages stages inputs = some (outputs, stages') ∧
        c' = .sequential name stages' := by
  rw [eval]
  constructor
  · intro h
    obtain ⟨⟨outputs', stages'⟩, hstages, h⟩ := Option.map_eq_some_iff.mp h
    cases h
    exact ⟨stages', hstages, rfl⟩
  · rintro ⟨stages', hstages, rfl⟩
    rw [hstages, Option.map_some]

/-- Two branches side by side. -/
theorem eval_pair {name : String} {outputs : Nat} {c d : Circuit α}
    {inputMap outputMap inputMap' outputMap' : List Nat} {inputs : List α}
    (picked picked' : List α) (hp : inputMap.mapM (inputs[·]?) = some picked)
    (hp' : inputMap'.mapM (inputs[·]?) = some picked') :
    eval (.parallel name outputs [⟨inputMap, outputMap, c⟩, ⟨inputMap', outputMap', d⟩]) inputs
      = (c.eval picked).bind fun r => (d.eval picked').bind fun q =>
          ((List.range outputs).mapM ((outputMap.zip r.1 ++ outputMap'.zip q.1).lookup ·)).map
            fun values => (values, .parallel name outputs
              [⟨inputMap, outputMap, r.2⟩, ⟨inputMap', outputMap', q.2⟩]) := by
  rw [eval, evalBranches, evalBranches, evalBranches, hp, hp', Option.bind_some, Option.bind_some]
  cases c.eval picked with
  | none => rfl
  | some r =>
    cases d.eval picked' with
    | none => rfl
    | some q => simp only [Option.bind_some, Option.map_some, List.append_nil]

/-! ## Leaves -/

/-- A channel on a target and a measurement. -/
theorem eval_setpoint (name : String) (p : Pid α) (target measured : α) :
    (leaf name (.pid ⟨.setpointMeasurement, [p]⟩)).eval [target, measured]
      = (p.compute target measured).toOption.map fun r =>
          ([r.1], leaf name (.pid ⟨.setpointMeasurement, [r.2]⟩)) := by
  show ((Law.pid _).compute [target, measured] [0]).toOption.map _ = _
  rw [Law.compute, PidBank.compute_single p rfl]
  cases p.compute target measured with
  | ok r => rfl
  | error fault => rfl

/-- A channel on an error. -/
theorem eval_error (name : String) (p : Pid α) (error : α) :
    (leaf name (.pid ⟨.error, [p]⟩)).eval [error]
      = (p.compute error 0).toOption.map fun r => ([r.1], leaf name (.pid ⟨.error, [r.2]⟩)) := by
  show ((Law.pid _).compute [error] [0]).toOption.map _ = _
  rw [Law.compute, PidBank.compute_single p rfl]
  cases p.compute error 0 with
  | ok r => rfl
  | error fault => rfl

theorem eval_select (name : String) (mode first second : α) :
    (leaf name (.select 1)).eval [mode, first, second]
      = some ([if mode < Scalar.half then first else second], leaf name (.select 1)) := by
  show ((Law.select 1).compute [mode, first, second] [0]).toOption.map _ = _
  rw [Law.compute, Routing.select_single]
  rfl

theorem eval_speedRamp (name : String) (f : SpeedRamp α) (order speed limit : α) :
    (leaf name (.speedRamp f)).eval [order, speed, limit]
      = (f.limit order speed limit).toOption.map fun limited =>
          ([limited, speed], leaf name (.speedRamp f)) := by
  show ((Law.speedRamp f).compute [order, speed, limit] [0, 0]).toOption.map _ = _
  rw [Law.compute, f.compute_eq order speed limit rfl]
  cases f.limit order speed limit with
  | ok limited => rfl
  | error fault => rfl

theorem eval_straightMove {name : String} {f : StraightMove α} {inputs : List α}
    {request : MoveRequest α} (h : MoveRequest.ofSignals? inputs = some request) :
    (leaf name (.straightMove f)).eval inputs
      = some ((f.decide request).1.toSignals, leaf name (.straightMove (f.decide request).2)) := by
  show ((Law.straightMove f).compute inputs (List.replicate 9 0)).toOption.map _ = _
  rw [Law.compute, f.compute_eq_ok h List.length_replicate]
  rfl

/-! ## Reset -/

mutual

/-- Every law forgets what it remembers. -/
def reset : Circuit α → Circuit α
  | leaf name law => leaf name law.reset
  | sequential name stages => sequential name (resetStages stages)
  | parallel name outputs branches => parallel name outputs (resetBranches branches)

/-- The same for stages. -/
def resetStages : List (Circuit α) → List (Circuit α)
  | [] => []
  | stage :: rest => reset stage :: resetStages rest

/-- The same for branches. -/
def resetBranches : List (Wired (Circuit α)) → List (Wired (Circuit α))
  | [] => []
  | ⟨inputMap, outputMap, node⟩ :: rest => ⟨inputMap, outputMap, reset node⟩ :: resetBranches rest

end

theorem resetStages_eq_map (stages : List (Circuit α)) : resetStages stages = stages.map reset := by
  induction stages with
  | nil => rfl
  | cons stage rest ih => rw [resetStages, ih, List.map_cons]

theorem resetBranches_eq_map (branches : List (Wired (Circuit α))) :
    resetBranches branches = branches.map (Wired.map reset) := by
  induction branches with
  | nil => rfl
  | cons branch rest ih => rw [resetBranches, ih, List.map_cons, Wired.map]

/-! ## Parameter blocks -/

mutual

/-- The circuit with another block at the first node of this name.  The outer option is
empty if there is no such node, the inner one if that node refuses the block. -/
def install? (name : String) (settings : LawSettings α) : Circuit α → Option (Option (Circuit α))
  | leaf own law => if own = name then some ((law.accept? settings).map (leaf own)) else none
  | sequential own stages =>
    if own = name then some none
    else (installStage? name settings stages).map (·.map (sequential own))
  | parallel own outputs branches =>
    if own = name then some none
    else (installBranch? name settings branches).map (·.map (parallel own outputs))

/-- The same for the first stage that has it. -/
def installStage? (name : String) (settings : LawSettings α) :
    List (Circuit α) → Option (Option (List (Circuit α)))
  | [] => none
  | stage :: rest =>
    ((install? name settings stage).map (·.map (· :: rest))).or
      ((installStage? name settings rest).map (·.map (stage :: ·)))

/-- The same for the first branch that has it. -/
def installBranch? (name : String) (settings : LawSettings α) :
    List (Wired (Circuit α)) → Option (Option (List (Wired (Circuit α))))
  | [] => none
  | ⟨inputMap, outputMap, node⟩ :: rest =>
    ((install? name settings node).map (·.map (⟨inputMap, outputMap, ·⟩ :: rest))).or
      ((installBranch? name settings rest).map (·.map (⟨inputMap, outputMap, node⟩ :: ·)))

end

/-- The first node of a name in two parts is in the first part, or else in the second. -/
theorem installStage?_append (name : String) (settings : LawSettings α)
    (front back : List (Circuit α)) :
    installStage? name settings (front ++ back)
      = ((installStage? name settings front).map (·.map (· ++ back))).or
          ((installStage? name settings back).map (·.map (front ++ ·))) := by
  induction front with
  | nil => simp [installStage?]
  | cons first rest ih =>
    rw [List.cons_append, installStage?, installStage?, ih]
    cases install? name settings first with
    | some r => simp [Function.comp_def]
    | none =>
      cases installStage? name settings rest with
      | some r => simp [Function.comp_def]
      | none => simp [Function.comp_def]

/-- A circuit as a machine.  A change installs a parameter block at a name. -/
def machine (α : Type) [Scalar α] : Cyclic α (String × LawSettings α) (Circuit α) where
  respond := eval
  reset := reset
  change c block := (c.install? block.1 block.2).join

end Circuit

namespace Node

variable {α : Type}

/-! ## The circuit of a tree -/

mutual

/-- The tree without its vectors. -/
def circuit : Node α → Circuit α
  | leaf name law _ _ => .leaf name law
  | sequential name stages => .sequential name (circuitStages stages)
  | parallel name _ outputs branches => .parallel name outputs.length (circuitBranches branches)

/-- The circuits of stages. -/
def circuitStages : List (Node α) → List (Circuit α)
  | [] => []
  | stage :: rest => circuit stage :: circuitStages rest

/-- The circuits of branches, with their connections. -/
def circuitBranches : List (Wired (Node α)) → List (Wired (Circuit α))
  | [] => []
  | ⟨inputMap, outputMap, node⟩ :: rest =>
    ⟨inputMap, outputMap, circuit node⟩ :: circuitBranches rest

end

theorem circuitStages_eq_map (stages : List (Node α)) :
    circuitStages stages = stages.map circuit := by
  induction stages with
  | nil => rfl
  | cons stage rest ih => rw [circuitStages, ih, List.map_cons]

theorem circuitBranches_eq_map (branches : List (Wired (Node α))) :
    circuitBranches branches = branches.map (Wired.map circuit) := by
  induction branches with
  | nil => rfl
  | cons branch rest ih => rw [circuitBranches, ih, List.map_cons, Wired.map]

variable [Scalar α]

mutual

/-- The tree with every vector cleared. -/
def blank : Node α → Node α
  | leaf name law inputs outputs => leaf name law inputs.clear outputs.clear
  | sequential name stages => sequential name (blankStages stages)
  | parallel name inputs outputs branches =>
    parallel name inputs.clear outputs.clear (blankBranches branches)

/-- The same for stages. -/
def blankStages : List (Node α) → List (Node α)
  | [] => []
  | stage :: rest => blank stage :: blankStages rest

/-- The same for branches. -/
def blankBranches : List (Wired (Node α)) → List (Wired (Node α))
  | [] => []
  | ⟨inputMap, outputMap, node⟩ :: rest => ⟨inputMap, outputMap, blank node⟩ :: blankBranches rest

end

theorem blankStages_eq_map (stages : List (Node α)) : blankStages stages = stages.map blank := by
  induction stages with
  | nil => rfl
  | cons stage rest ih => rw [blankStages, ih, List.map_cons]

theorem blankBranches_eq_map (branches : List (Wired (Node α))) :
    blankBranches branches = branches.map (Wired.map blank) := by
  induction branches with
  | nil => rfl
  | cons branch rest ih => rw [blankBranches, ih, List.map_cons, Wired.map]

/-- Vectors are no part of the circuit. -/
@[simp] theorem circuit_blank (n : Node α) : n.blank.circuit = n.circuit := by
  induction n using induct with
  | leaf name law inputs outputs => rfl
  | sequential name stages ih =>
    rw [blank, circuit, circuit, blankStages_eq_map, circuitStages_eq_map, circuitStages_eq_map,
      List.map_map]
    exact congrArg _ (List.map_congr_left ih)
  | parallel name inputs outputs branches ih =>
    rw [blank, circuit, circuit, blankBranches_eq_map, circuitBranches_eq_map,
      circuitBranches_eq_map, Wired.map_map, Signals.length_clear]
    exact congrArg _ (Wired.map_congr (f := circuit ∘ blank) ih)

/-! ## A tree and its circuit change alike -/

@[simp] theorem circuit_reset (n : Node α) : n.reset.circuit = n.circuit.reset := by
  induction n using induct with
  | leaf name law inputs outputs => rfl
  | sequential name stages ih =>
    rw [reset, circuit, circuit, Circuit.reset, resetStages_eq_map, circuitStages_eq_map,
      circuitStages_eq_map, Circuit.resetStages_eq_map, List.map_map, List.map_map]
    exact congrArg _ (List.map_congr_left ih)
  | parallel name inputs outputs branches ih =>
    rw [reset, circuit, circuit, Circuit.reset, resetBranches_eq_map, circuitBranches_eq_map,
      circuitBranches_eq_map, Circuit.resetBranches_eq_map, Wired.map_map, Signals.length_clear]
    exact congrArg _ ((Wired.map_map ..).trans
      (Wired.map_congr (f := circuit ∘ reset) (g := Circuit.reset ∘ circuit) ih))

/-- What a leaf makes of a block is what its law makes of it. -/
theorem install_leaf (settings : LawSettings α) (name : String) (law : Law α)
    (inputs outputs : Signals α) :
    ((leaf name law inputs outputs).install settings).toOption.map circuit
      = (law.accept? settings).map (.leaf name) := by
  unfold install Law.accept?
  dsimp only
  cases settings.check with
  | error reason => rfl
  | ok _ =>
    dsimp only
    cases law.install settings with
    | some law' => rfl
    | none =>
      dsimp only
      cases law.isParameterized with
      | true => rfl
      | false => rfl

section Edit

variable {name : String} {settings : LawSettings α}

theorem circuit_editStage? {stages : List (Node α)}
    (h : ∀ s ∈ stages, (s.edit? name (install settings)).map (·.toOption.map circuit)
      = s.circuit.install? name settings) :
    (editStage? name (install settings) stages).map (·.toOption.map circuitStages)
      = Circuit.installStage? name settings (circuitStages stages) := by
  induction stages with
  | nil => rfl
  | cons first rest ih =>
    rw [List.forall_mem_cons] at h
    rw [editStage?, circuitStages, Circuit.installStage?, ← h.1, ← ih h.2]
    cases first.edit? name (install settings) with
    | some changed =>
      cases changed with
      | ok _ => rfl
      | error _ => rfl
    | none =>
      cases editStage? name (install settings) rest with
      | some changed =>
        cases changed with
        | ok _ => rfl
        | error _ => rfl
      | none => rfl

theorem circuit_editBranch? {branches : List (Wired (Node α))}
    (h : ∀ b ∈ branches, (b.node.edit? name (install settings)).map (·.toOption.map circuit)
      = b.node.circuit.install? name settings) :
    (editBranch? name (install settings) branches).map (·.toOption.map circuitBranches)
      = Circuit.installBranch? name settings (circuitBranches branches) := by
  induction branches with
  | nil => rfl
  | cons first rest ih =>
    rw [List.forall_mem_cons] at h
    rw [editBranch?, circuitBranches, Circuit.installBranch?, ← h.1, ← ih h.2]
    cases first.node.edit? name (install settings) with
    | some changed =>
      cases changed with
      | ok _ => rfl
      | error _ => rfl
    | none =>
      cases editBranch? name (install settings) rest with
      | some changed =>
        cases changed with
        | ok _ => rfl
        | error _ => rfl
      | none => rfl

/-- The first node of a name is the same in a tree and in its circuit, and takes the
same blocks. -/
theorem circuit_edit? (n : Node α) :
    (n.edit? name (install settings)).map (·.toOption.map circuit)
      = n.circuit.install? name settings := by
  induction n using induct with
  | leaf own law inputs outputs =>
    rw [edit?, circuit, Circuit.install?]
    by_cases h : own = name
    · rw [if_pos h, if_pos h, Option.map_some, install_leaf]
    · rw [if_neg h, if_neg h, Option.map_none]
  | sequential own stages ih =>
    rw [edit?, circuit, Circuit.install?]
    by_cases h : own = name
    · rw [if_pos h, if_pos h]
      rfl
    · rw [if_neg h, if_neg h, ← circuit_editStage? ih, Option.map_map, Option.map_map]
      refine congrArg (Option.map · _) (funext fun changed => ?_)
      cases changed with
      | ok _ => rfl
      | error _ => rfl
  | parallel own inputs outputs branches ih =>
    rw [edit?, circuit, Circuit.install?]
    by_cases h : own = name
    · rw [if_pos h, if_pos h]
      rfl
    · rw [if_neg h, if_neg h, ← circuit_editBranch? ih, Option.map_map, Option.map_map]
      refine congrArg (Option.map · _) (funext fun changed => ?_)
      cases changed with
      | ok _ => rfl
      | error _ => rfl

/-- A tree accepts a parameter block exactly when its circuit does, and with the same
effect. -/
theorem circuit_setParameters (n : Node α) :
    (n.setParameters name settings).toOption.map circuit
      = (n.circuit.install? name settings).join := by
  rw [← circuit_edit?, setParameters]
  cases n.edit? name (install settings) with
  | some changed => rfl
  | none => rfl

end Edit

end Node

end MotionControl
