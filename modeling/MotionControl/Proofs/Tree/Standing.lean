import MotionControl.Proofs.Tree.Cascade

/-!
# Trees that stand for loops

A standard tree is wired like its loops when it is built.  It stays so: a cycle and a reset do to
the tree what they do to the loops, and a parameter block goes to one of the loops or is refused.

- `Circuit.installed_pair`, `Circuit.installed_stage`: where a block can have gone.
- `Cyclic.Wires`: loops that account for everything that can happen to a circuit.
- `PlatformCascade.wires`, `AxisCascade.wires`: the loops of the standard trees do.
- `Node.Stands`: a sound tree that is wired like loops.
- `Node.Stands.calls`: it still is, whatever is done with it.
- `Node.Stands.play`: its outputs are those of the loops.
-/

namespace MotionControl

open Scalar Outcome

variable {α : Type} [Scalar α]

omit [Scalar α] in
/-- A vector is overwritten by as many values as it has. -/
theorem Signals.length_of_copy {s t : Signals α} {values : List α} (h : s.copy values = .ok t) :
    values.length = s.length := by
  unfold copy at h
  by_cases hlength : values.length = s.length
  · exact hlength
  · rw [if_neg hlength] at h
    cases h

/-! ## Where a parameter block can have gone -/

/-- The law took the block, and nothing but its parameters is different. -/
theorem Law.accept?_eq_some {law law' : Law α} {settings : LawSettings α}
    (h : law.accept? settings = some law') : law.install settings = some law' := by
  unfold accept? at h
  cases hcheck : settings.check with
  | ok _ =>
    rw [hcheck] at h
    exact h
  | error reason =>
    rw [hcheck] at h
    cases h

namespace Circuit

variable {name own : String} {settings : LawSettings α}

theorem installed_leaf {law : Law α} {c : Circuit α}
    (h : install? name settings (.leaf own law) = some (some c)) :
    ∃ law', law.install settings = some law' ∧ c = .leaf own law' := by
  rw [install?] at h
  by_cases hname : own = name
  · rw [if_pos hname] at h
    obtain ⟨law', haccept, rfl⟩ := Option.map_eq_some_iff.mp (Option.some.inj h)
    exact ⟨law', Law.accept?_eq_some haccept, rfl⟩
  · rw [if_neg hname] at h
    cases h

/-- A bank of one channel stays one. -/
theorem installed_pid {layout : PidLayout} {loop : Pid α} {c : Circuit α}
    (h : install? name settings (.leaf own (.pid ⟨layout, [loop]⟩)) = some (some c)) :
    ∃ loop', c = .leaf own (.pid ⟨layout, [loop']⟩) := by
  obtain ⟨law', hlaw, rfl⟩ := installed_leaf h
  cases settings with
  | pid gains =>
    cases hlaw
    exact ⟨_, rfl⟩
  | straightMove settings => cases hlaw
  | speedRamp settings => cases hlaw

theorem installed_speedRamp {ramp : SpeedRamp α} {c : Circuit α}
    (h : install? name settings (.leaf own (.speedRamp ramp)) = some (some c)) :
    ∃ ramp', c = .leaf own (.speedRamp ramp') := by
  obtain ⟨law', hlaw, rfl⟩ := installed_leaf h
  cases settings with
  | pid gains => cases hlaw
  | straightMove settings => cases hlaw
  | speedRamp settings =>
    cases hlaw
    exact ⟨_, rfl⟩

theorem installed_straightMove {move : StraightMove α} {c : Circuit α}
    (h : install? name settings (.leaf own (.straightMove move)) = some (some c)) :
    ∃ move', c = .leaf own (.straightMove move') := by
  obtain ⟨law', hlaw, rfl⟩ := installed_leaf h
  cases settings with
  | pid gains => cases hlaw
  | straightMove settings =>
    cases hlaw
    exact ⟨_, rfl⟩
  | speedRamp settings => cases hlaw

/-- Routing has no parameters. -/
theorem not_installed_select {width : Nat} {c : Circuit α} :
    install? name settings (.leaf own (.select width)) ≠ some (some c) := by
  intro h
  obtain ⟨law', hlaw, rfl⟩ := installed_leaf h
  cases settings <;> cases hlaw

theorem not_installed_forward {width : Nat} {c : Circuit α} :
    install? name settings (.leaf own (.forward width)) ≠ some (some c) := by
  intro h
  obtain ⟨law', hlaw, rfl⟩ := installed_leaf h
  cases settings <;> cases hlaw

theorem installed_sequential {stages : List (Circuit α)} {c : Circuit α}
    (h : install? name settings (.sequential own stages) = some (some c)) :
    ∃ stages', installStage? name settings stages = some (some stages') ∧
      c = .sequential own stages' := by
  rw [install?] at h
  by_cases hname : own = name
  · rw [if_pos hname] at h
    cases h
  · rw [if_neg hname] at h
    obtain ⟨installed, hstages, hc⟩ := Option.map_eq_some_iff.mp h
    obtain ⟨stages', rfl, rfl⟩ := Option.map_eq_some_iff.mp hc
    exact ⟨stages', hstages, rfl⟩

/-- The block went to the first stage, or to one after it. -/
theorem installed_stage {stage : Circuit α} {rest stages : List (Circuit α)}
    (h : installStage? name settings (stage :: rest) = some (some stages)) :
    (∃ stage', install? name settings stage = some (some stage') ∧ stages = stage' :: rest) ∨
      ∃ rest', installStage? name settings rest = some (some rest') ∧ stages = stage :: rest' := by
  rw [installStage?] at h
  rcases Option.or_eq_some_iff.mp h with hfound | ⟨-, hfound⟩
  · obtain ⟨installed, hstage, hstages⟩ := Option.map_eq_some_iff.mp hfound
    obtain ⟨stage', rfl, rfl⟩ := Option.map_eq_some_iff.mp hstages
    exact .inl ⟨stage', hstage, rfl⟩
  · obtain ⟨installed, hrest, hstages⟩ := Option.map_eq_some_iff.mp hfound
    obtain ⟨rest', rfl, rfl⟩ := Option.map_eq_some_iff.mp hstages
    exact .inr ⟨rest', hrest, rfl⟩

theorem installed_branch {inputMap outputMap : List Nat} {node : Circuit α}
    {rest branches : List (Wired (Circuit α))}
    (h : installBranch? name settings (⟨inputMap, outputMap, node⟩ :: rest)
      = some (some branches)) :
    (∃ node', install? name settings node = some (some node') ∧
        branches = ⟨inputMap, outputMap, node'⟩ :: rest) ∨
      ∃ rest', installBranch? name settings rest = some (some rest') ∧
        branches = ⟨inputMap, outputMap, node⟩ :: rest' := by
  rw [installBranch?] at h
  rcases Option.or_eq_some_iff.mp h with hfound | ⟨-, hfound⟩
  · obtain ⟨installed, hnode, hbranches⟩ := Option.map_eq_some_iff.mp hfound
    obtain ⟨node', rfl, rfl⟩ := Option.map_eq_some_iff.mp hbranches
    exact .inl ⟨node', hnode, rfl⟩
  · obtain ⟨installed, hrest, hbranches⟩ := Option.map_eq_some_iff.mp hfound
    obtain ⟨rest', rfl, rfl⟩ := Option.map_eq_some_iff.mp hbranches
    exact .inr ⟨rest', hrest, rfl⟩

/-- The block went to one of two branches. -/
theorem installed_pair {outputs : Nat} {inputMap outputMap inputMap' outputMap' : List Nat}
    {first second c : Circuit α}
    (h : install? name settings (.parallel own outputs
      [⟨inputMap, outputMap, first⟩, ⟨inputMap', outputMap', second⟩]) = some (some c)) :
    (∃ first', install? name settings first = some (some first') ∧
        c = .parallel own outputs
          [⟨inputMap, outputMap, first'⟩, ⟨inputMap', outputMap', second⟩]) ∨
      ∃ second', install? name settings second = some (some second') ∧
        c = .parallel own outputs
          [⟨inputMap, outputMap, first⟩, ⟨inputMap', outputMap', second'⟩] := by
  rw [install?] at h
  by_cases hname : own = name
  · rw [if_pos hname] at h
    cases h
  · rw [if_neg hname] at h
    obtain ⟨installed, hbranches, hc⟩ := Option.map_eq_some_iff.mp h
    obtain ⟨branches, rfl, rfl⟩ := Option.map_eq_some_iff.mp hc
    rcases installed_branch hbranches with ⟨first', hfirst, rfl⟩ | ⟨rest, hrest, rfl⟩
    · exact .inl ⟨first', hfirst, rfl⟩
    · rcases installed_branch hrest with ⟨second', hsecond, rfl⟩ | ⟨_, hnone, -⟩
      · exact .inr ⟨second', hsecond, rfl⟩
      · cases hnone

end Circuit

/-! ## Loops and their wiring -/

/-- Whatever happens to a circuit of this wiring happens to its loops. -/
structure Cyclic.Wires {S : Type} (loops : Cyclic α Empty S) (width : Nat)
    (wiring : S → Circuit α) : Prop where
  eval : ∀ s inputs, inputs.length = width →
    (wiring s).eval inputs = (loops.respond s inputs).map fun r => (r.1, wiring r.2)
  reset : ∀ s, (wiring s).reset = wiring (loops.reset s)
  /-- A block that is accepted leaves the circuit of some loops. -/
  installed : ∀ {s name settings c}, (wiring s).install? name settings = some (some c) →
    ∃ s', c = wiring s'

namespace AxisCascade

open Circuit

variable {name label : String} {settings : LawSettings α} {a : AxisCascade α}

/-- After the position loop, a block goes to the ramp or to the speed loop. -/
theorem installed_speedCircuits {stages : List (Circuit α)}
    (h : installStage? name settings (a.speedCircuits label) = some (some stages)) :
    ∃ ramp speed, stages = speedCircuits label { a with ramp, speed } := by
  -- the choice between the position loop and the order has nothing to set
  rcases installed_stage h with ⟨choice, hchoice, -⟩ | ⟨after, hafter, rfl⟩
  · rcases installed_pair hchoice with ⟨_, hswitch, -⟩ | ⟨_, hbypass, -⟩
    · exact absurd hswitch not_installed_select
    · exact absurd hbypass not_installed_forward
  rcases installed_stage hafter with ⟨limited, hramp, rfl⟩ | ⟨last, hlast, rfl⟩
  · obtain ⟨ramp, rfl⟩ := installed_speedRamp hramp
    exact ⟨ramp, a.speed, rfl⟩
  rcases installed_stage hlast with ⟨closed, hloop, rfl⟩ | ⟨_, hnone, -⟩
  · rcases installed_pair hloop with ⟨_, hpid, rfl⟩ | ⟨_, hbypass, -⟩
    · obtain ⟨speed, rfl⟩ := installed_pid hpid
      exact ⟨a.ramp, speed, rfl⟩
    · exact absurd hbypass not_installed_forward
  · cases hnone

/-- A block goes to the position loop or to a stage after it. -/
theorem installed_loops {own : String} (stage : Pid α → Circuit α)
    (hstage : ∀ {loop c}, (stage loop).install? name settings = some (some c) →
      ∃ loop', c = stage loop')
    {c : Circuit α}
    (h : install? name settings (.sequential own (stage a.position :: a.speedCircuits label))
      = some (some c)) :
    ∃ a' : AxisCascade α, c = .sequential own (stage a'.position :: a'.speedCircuits label) := by
  obtain ⟨stages, hstages, rfl⟩ := installed_sequential h
  rcases installed_stage hstages with ⟨first, hfirst, rfl⟩ | ⟨rest, hrest, rfl⟩
  · obtain ⟨position, rfl⟩ := hstage hfirst
    exact ⟨{ a with position }, rfl⟩
  · obtain ⟨ramp, speed, rfl⟩ := installed_speedCircuits hrest
    exact ⟨{ a with ramp, speed }, rfl⟩

theorem installed_circuit {c : Circuit α}
    (h : (a.circuit label).install? name settings = some (some c)) :
    ∃ a' : AxisCascade α, c = a'.circuit label := by
  refine installed_loops (fun loop => .parallel (label ++ "position") 5 [
    ⟨[0], [1], .leaf (label ++ "position_pid") (.pid ⟨.error, [loop]⟩)⟩,
    ⟨[3, 4, 1, 2], [0, 2, 3, 4], .leaf (label ++ "position_bypass") (.forward 4)⟩]) ?_ h
  intro loop c hc
  rcases installed_pair hc with ⟨_, hpid, rfl⟩ | ⟨_, hbypass, -⟩
  · obtain ⟨loop', rfl⟩ := installed_pid hpid
    exact ⟨loop', rfl⟩
  · exact absurd hbypass not_installed_forward

theorem installed_motorCircuit {own : String} {c : Circuit α}
    (h : (a.motorCircuit own).install? name settings = some (some c)) :
    ∃ a' : AxisCascade α, c = a'.motorCircuit own := by
  refine installed_loops (fun loop => .parallel "position" 5 [
    ⟨[1, 0], [1], .leaf "position_pid" (.pid ⟨.setpointMeasurement, [loop]⟩)⟩,
    ⟨[4, 5, 2, 3], [0, 2, 3, 4], .leaf "position_bypass" (.forward 4)⟩]) ?_ h
  intro loop c hc
  rcases installed_pair hc with ⟨_, hpid, rfl⟩ | ⟨_, hbypass, -⟩
  · obtain ⟨loop', rfl⟩ := installed_pid hpid
    exact ⟨loop', rfl⟩
  · exact absurd hbypass not_installed_forward

/-- What an axis answers, it answers to six signals. -/
theorem respond_eq_some {a' : AxisCascade α} {inputs outputs : List α}
    (h : (machine α).respond a inputs = some (outputs, a')) :
    ∃ position target speed limit mode order r,
      inputs = [position, target, speed, limit, mode, order] ∧
      a.step target position speed limit mode order = .ok r ∧
      outputs = [r.1, r.2.1] ∧ a' = r.2.2 := by
  unfold machine at h
  dsimp only at h
  split at h
  · next position target speed limit mode order =>
    obtain ⟨r, hstep, heq⟩ := toOption_map_eq_some_iff.mp h
    cases heq
    exact ⟨position, target, speed, limit, mode, order, r, rfl, hstep, rfl, rfl⟩
  · cases h

theorem wires (own : String) :
    (machine α).Wires 6 (motorCircuit own) where
  eval a _ hinputs := a.eval_motor own hinputs
  reset _ := rfl
  installed := installed_motorCircuit

end AxisCascade

namespace PlatformCascade

open Circuit

/-- A block goes to the straight-line move or to a loop of one of the axes. -/
theorem installed_circuit {name : String} {settings : LawSettings α} {p : PlatformCascade α}
    {c : Circuit α} (h : p.circuit.install? name settings = some (some c)) :
    ∃ p' : PlatformCascade α, c = p'.circuit := by
  obtain ⟨stages, hstages, rfl⟩ := installed_sequential h
  rcases installed_stage hstages with ⟨first, hmove, rfl⟩ | ⟨rest, hrest, rfl⟩
  · obtain ⟨move, rfl⟩ := installed_straightMove hmove
    exact ⟨{ p with move }, rfl⟩
  rcases installed_stage hrest with ⟨axes, haxes, rfl⟩ | ⟨_, hnone, -⟩
  · rcases installed_pair haxes with ⟨_, hlinear, rfl⟩ | ⟨_, hangular, rfl⟩
    · obtain ⟨linear, rfl⟩ := AxisCascade.installed_circuit hlinear
      exact ⟨{ p with linear }, rfl⟩
    · obtain ⟨angular, rfl⟩ := AxisCascade.installed_circuit hangular
      exact ⟨{ p with angular }, rfl⟩
  · cases hnone

/-- A cycle of the vehicle is a cycle of each axis on what the move asks of it. -/
theorem step_eq_ok {p : PlatformCascade α} {request : MoveRequest α}
    {r : List α × PlatformCascade α} (h : p.step request = .ok r) :
    ∃ linear angular,
      p.linear.step (p.move.decide request).1.linear.error 0
        (p.move.decide request).1.linear.speed (p.move.decide request).1.linear.limit
        (p.move.decide request).1.mode (p.move.decide request).1.linear.order = .ok linear ∧
      p.angular.step (p.move.decide request).1.angular.error 0
        (p.move.decide request).1.angular.speed (p.move.decide request).1.angular.limit
        (p.move.decide request).1.mode (p.move.decide request).1.angular.order = .ok angular ∧
      r = ([linear.1, angular.1, linear.2.1, angular.2.1],
        ⟨(p.move.decide request).2, linear.2.2, angular.2.2⟩) := by
  unfold step at h
  obtain ⟨linear, hlinear, h⟩ := bind_eq_ok_iff.mp h
  obtain ⟨angular, hangular, h⟩ := bind_eq_ok_iff.mp h
  cases h
  exact ⟨linear, angular, hlinear, hangular, rfl⟩

theorem respond_eq_some {p : PlatformCascade α} {inputs : List α}
    {r : List α × PlatformCascade α} (h : (machine α).respond p inputs = some r) :
    ∃ request, MoveRequest.ofSignals? inputs = some request ∧ p.step request = .ok r := by
  obtain ⟨request, hrequest, hstep⟩ := Option.bind_eq_some_iff.mp h
  exact ⟨request, hrequest, toOption_eq_some_iff.mp hstep⟩

theorem wires : (machine α).Wires 13 circuit where
  eval p _ hinputs := p.eval_circuit hinputs
  reset _ := rfl
  installed := installed_circuit

end PlatformCascade

/-! ## Trees -/

namespace Node

omit [Scalar α] in
/-- What is written to the inputs is no part of the circuit. -/
theorem circuit_overInputs {write : Signals α → Except Fault (Signals α)} {n n' : Node α}
    (h : n.overInputs write = .ok n') : n'.circuit = n.circuit := by
  induction n using induct generalizing n' with
  | leaf name law inputs outputs =>
    obtain ⟨written, -, h⟩ := bind_eq_ok_iff.mp h
    cases h
    rfl
  | sequential name stages ih =>
    cases stages with
    | nil => cases h
    | cons first rest =>
      obtain ⟨first', hfirst, h⟩ := bind_eq_ok_iff.mp h
      cases h
      rw [circuit, circuit, circuitStages, circuitStages, ih first List.mem_cons_self hfirst]
  | parallel name inputs outputs branches _ =>
    obtain ⟨written, -, h⟩ := bind_eq_ok_iff.mp h
    cases h
    rfl

omit [Scalar α] in
/-- Inputs that could be written were as many as the node takes. -/
theorem length_of_setInputs {n n' : Node α} {values : List α}
    (h : n.setInputs values = .ok n') : values.length = n.inputCount := by
  unfold Node.setInputs at h
  induction n using induct generalizing n' with
  | leaf name law inputs outputs =>
    obtain ⟨written, hcopy, -⟩ := bind_eq_ok_iff.mp h
    exact Signals.length_of_copy hcopy
  | sequential name stages ih =>
    cases stages with
    | nil => cases h
    | cons first rest =>
      obtain ⟨first', hfirst, -⟩ := bind_eq_ok_iff.mp h
      exact ih first List.mem_cons_self hfirst
  | parallel name inputs outputs branches _ =>
    obtain ⟨written, hcopy, -⟩ := bind_eq_ok_iff.mp h
    exact Signals.length_of_copy hcopy

variable {S : Type} {loops : Cyclic α Empty S} {width : Nat} {wiring : S → Circuit α}

/-- A sound tree, with settings that passed their checks, that is wired like loops. -/
structure Stands (width : Nat) (wiring : S → Circuit α) (n : Node α) (s : S) : Prop where
  sound : n.Sound Law.Checked
  width : n.inputCount = width
  circuit : n.circuit = wiring s

namespace Stands

variable {n n' : Node α} {s : S}

theorem kept (h : n.Stands width wiring s) (hkept : Kept Law.Checked n n') {s' : S}
    (hcircuit : n'.circuit = wiring s') : n'.Stands width wiring s' :=
  ⟨hkept.sound, hkept.ends.inputCount.trans h.width, hcircuit⟩

/-- A cycle of the tree is a cycle of the loops. -/
theorem respond (h : n.Stands width wiring s) (hwires : loops.Wires width wiring)
    {values : List α} (hvalues : values.length = width) {outputs : Signals α}
    (hrespond : n.respond values = .ok (outputs, n')) :
    ∃ s', loops.respond s values = some (outputs.values, s') ∧ n'.Stands width wiring s' := by
  have halike := h.sound.respond Law.Checked.invariant (hvalues.trans h.width.symm)
  rw [hrespond] at halike
  obtain ⟨⟨given, c⟩, heval, houtputs, hkept, hcircuit⟩ := halike.of_ok
  rw [h.circuit, hwires.eval s values hvalues] at heval
  obtain ⟨⟨answer, s'⟩, hloops, heq⟩ := Option.map_eq_some_iff.mp heval
  cases heq
  exact ⟨s', hloops.trans (congrArg some (Prod.ext houtputs.symm rfl)),
    h.kept hkept hcircuit.symm⟩

/-- Where the loops answer, the tree does. -/
theorem answers (h : n.Stands width wiring s) (hwires : loops.Wires width wiring)
    {values answer : List α} {s' : S} (hvalues : values.length = width)
    (hloops : loops.respond s values = some (answer, s')) :
    ∃ n', n.respond values = .ok (⟨answer⟩, n') ∧ n'.Stands width wiring s' := by
  have halike := h.sound.respond Law.Checked.invariant (hvalues.trans h.width.symm)
  rw [h.circuit, hwires.eval s values hvalues, hloops] at halike
  obtain ⟨⟨⟨_⟩, n'⟩, hrespond, rfl, hkept, hcircuit⟩ := halike.of_some
  exact ⟨n', hrespond, h.kept hkept hcircuit.symm⟩

theorem reset (h : n.Stands width wiring s) (hwires : loops.Wires width wiring) :
    n.reset.Stands width wiring (loops.reset s) := by
  refine h.kept (h.sound.reset Law.Checked.invariant) ?_
  rw [circuit_reset, h.circuit, hwires.reset]

theorem setParameters (h : n.Stands width wiring s) (hwires : loops.Wires width wiring)
    {name : String} {settings : LawSettings α} (hset : n.setParameters name settings = .ok n') :
    ∃ s', n'.Stands width wiring s' := by
  -- the tree accepts what its circuit accepts
  have hinstalled : (n.circuit.install? name settings).join = some n'.circuit := by
    rw [← circuit_setParameters, hset]
    rfl
  rw [Option.join_eq_some_iff, h.circuit] at hinstalled
  obtain ⟨s', hcircuit⟩ := hwires.installed hinstalled
  exact ⟨s', h.kept (h.sound.setParameters Law.Checked.invariant hset) hcircuit⟩

/-- Inputs are no part of the wiring. -/
theorem setInputs (h : n.Stands width wiring s) {values : List α}
    (hset : n.setInputs values = .ok n') : n'.Stands width wiring s := by
  obtain ⟨n'', hok, hkept⟩ := h.sound.setInputs (length_of_setInputs hset)
  rw [hset] at hok
  cases hok
  exact h.kept hkept ((circuit_overInputs hset).trans h.circuit)

theorem compute (h : n.Stands width wiring s) (hwires : loops.Wires width wiring)
    (hcompute : n.compute = .ok n') : ∃ s', n'.Stands width wiring s' := by
  -- a cycle on the inputs that are there is a cycle in which they are written once more
  obtain ⟨v, hv, hlength, -⟩ := h.sound.inputs
  have halike := h.sound.cycle Law.Checked.invariant v.values hlength
  rw [← run_none hv, show n.run none = .ok n' from hcompute] at halike
  obtain ⟨⟨given, c⟩, heval, hcycled⟩ := halike.of_ok
  rw [h.circuit, hwires.eval s v.values (hlength.trans h.width)] at heval
  obtain ⟨⟨answer, s'⟩, -, heq⟩ := Option.map_eq_some_iff.mp heval
  cases heq
  exact ⟨s', h.kept hcycled.toKept hcycled.circuit.symm⟩

theorem call (h : n.Stands width wiring s) (hwires : loops.Wires width wiring) {c : TreeCall α}
    (hcall : n.call c = .ok n') : ∃ s', n'.Stands width wiring s' := by
  cases c with
  | setInputs values => exact ⟨s, h.setInputs hcall⟩
  | compute => exact h.compute hwires hcall
  | reset =>
    cases hcall
    exact ⟨loops.reset s, h.reset hwires⟩
  | setParameters name settings =>
    cases hcall
    cases hset : n.setParameters name settings with
    | ok accepted => exact h.setParameters hwires hset
    | error reason => exact ⟨s, h⟩

/-- Whatever is done with the tree, it is wired like loops still. -/
theorem calls (h : n.Stands width wiring s) (hwires : loops.Wires width wiring)
    {cs : List (TreeCall α)} (hcalls : n.calls cs = .ok n') : ∃ s', n'.Stands width wiring s' := by
  induction cs generalizing n s with
  | nil =>
    cases hcalls
    exact ⟨s, h⟩
  | cons c rest ih =>
    obtain ⟨called, hcall, hrest⟩ := bind_eq_ok_iff.mp hcalls
    obtain ⟨s₁, hcalled⟩ := h.call hwires hcall
    exact ih hcalled hrest

/-- The outputs of a run are those of the loops, and no cycle faults. -/
theorem play [LawfulScalar α] (h : n.Stands width wiring s) (hwires : loops.Wires width wiring)
    {rounds : List (Round α Empty)} (hrounds : ∀ r ∈ rounds, r.Fits width) :
    ∃ outputs, ((machine α).fixed.play n rounds).map (·.1) = some outputs ∧
      (loops.play s rounds).map (·.1) = some outputs := by
  refine StandardTree.play_eq_loops_of_sound h.sound h.circuit ?_ hwires.reset ?_
  · rw [h.width]
    exact hwires.eval
  · rw [h.width]
    exact hrounds

end Stands

end Node

/-! ## The standard trees -/

namespace StandardTree

theorem platform_stands {s : PlatformSettings α} (h : s.Checked) {period : α} {tree : Node α}
    (htree : platform s period = .ok tree) :
    tree.Stands 13 PlatformCascade.circuit (.fresh s period) := by
  obtain ⟨hassembled, hvalid⟩ := platform_assembled htree
  obtain ⟨built, hbuilt, hcircuit, hwidth⟩ := platform_built h period
  rw [htree] at hbuilt
  cases hbuilt
  exact ⟨hassembled.sound_checked hvalid, hwidth, hcircuit⟩

theorem motor_stands {s : MotorSettings α} (h : s.Checked) {period : α} {tree : Node α}
    (htree : motor s period = .ok tree) :
    tree.Stands 6 (AxisCascade.motorCircuit s.name)
      (.fresh s.position s.speed s.ramp period) := by
  obtain ⟨hassembled, hvalid⟩ := motor_assembled htree
  obtain ⟨built, hbuilt, hcircuit, hwidth⟩ := motor_built h period
  rw [htree] at hbuilt
  cases hbuilt
  exact ⟨hassembled.sound_checked hvalid, hwidth, hcircuit⟩

end StandardTree

end MotionControl
