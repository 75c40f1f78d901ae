import MotionControl.Control.StandardTree
import MotionControl.Proofs.Tree.FaultFree
import MotionControl.Proofs.Tree.Vectors

/-!
# The standard trees are cascades of loops

An axis is a position loop, a ramp and a speed loop, one feeding the next.  The standard
trees wire such axes from leaves and connections by number; their outputs are those of the
loops, cycle after cycle.

- `AxisCascade`, `PlatformCascade`: the loops, without a tree around them.
- `AxisCascade.eval_circuit`, `PlatformCascade.eval_circuit`: what the wiring comes to.
- `StandardTree.platform_built`, `StandardTree.motor_built`: checked settings make a tree
  with that wiring.
- `StandardTree.standard_trees_are_cascades`: runs of the trees against runs of the loops.
-/

namespace MotionControl

open Scalar Outcome

variable {α : Type} [Scalar α]

/-! ## One axis -/

/-- A position loop, a ramp and a speed loop. -/
structure AxisCascade (α : Type) where
  position : Pid α
  ramp : SpeedRamp α
  speed : Pid α

namespace AxisCascade

/-- Both loops at rest. -/
def fresh (positionGains speedGains : PidGains α) (ramp : RampSettings α) (period : α) :
    AxisCascade α :=
  ⟨.fresh positionGains period, ⟨ramp, period⟩, .fresh speedGains period⟩

/-- The ramp and the speed loop on an order: the command, the ramped order and the axis after
the cycle. -/
def drive (a : AxisCascade α) (order speed limit : α) :
    Except Fault (α × α × AxisCascade α) := do
  let ramped ← a.ramp.limit order speed limit
  let (command, speedLoop) ← a.speed.compute ramped speed
  .ok (command, ramped, { a with speed := speedLoop })

/-- One cycle.  Below one half, the mode picks the output of the position loop, otherwise the
order. -/
def step (a : AxisCascade α) (target position speed limit mode order : α) :
    Except Fault (α × α × AxisCascade α) := do
  let (held, positionLoop) ← a.position.compute target position
  drive { a with position := positionLoop } (if mode < half then held else order) speed limit

/-- Both loops forget what they remember. -/
def reset (a : AxisCascade α) : AxisCascade α :=
  { a with position := a.position.reset, speed := a.speed.reset }

/-- The axis on position, target, speed, limit, mode and order, with command and ramped order
as outputs. -/
def machine (α : Type) [Scalar α] : Cyclic α Empty (AxisCascade α) where
  respond a
    | [position, target, speed, limit, mode, order] =>
      (a.step target position speed limit mode order).toOption.map fun r => ([r.1, r.2.1], r.2.2)
    | _ => none
  reset := reset
  change _ what := nomatch what

/-! ### Wiring -/

/-- The stages after the position loop, on mode, its output, order, speed and limit. -/
def speedCircuits (label : String) (a : AxisCascade α) : List (Circuit α) := [
  .parallel (label ++ "select") 3 [
    ⟨[0, 1, 2], [0], .leaf (label ++ "mode_switch") (.select 1)⟩,
    ⟨[3, 4], [1, 2], .leaf (label ++ "select_bypass") (.forward 2)⟩],
  .leaf (label ++ "speed_ramp") (.speedRamp a.ramp),
  .parallel (label ++ "speed") 2 [
    ⟨[0, 1], [0], .leaf (label ++ "speed_pid") (.pid ⟨.setpointMeasurement, [a.speed]⟩)⟩,
    ⟨[0], [1], .leaf (label ++ "speed_bypass") (.forward 1)⟩]]

/-- An axis of the vehicle, on error, speed, limit, mode and order. -/
def circuit (label : String) (a : AxisCascade α) : Circuit α :=
  .sequential (StandardTree.bareLabel label)
    (.parallel (label ++ "position") 5 [
      ⟨[0], [1], .leaf (label ++ "position_pid") (.pid ⟨.error, [a.position]⟩)⟩,
      ⟨[3, 4, 1, 2], [0, 2, 3, 4], .leaf (label ++ "position_bypass") (.forward 4)⟩]
      :: a.speedCircuits label)

/-- A single axis, on position, target, speed, limit, mode and order. -/
def motorCircuit (name : String) (a : AxisCascade α) : Circuit α :=
  .sequential name
    (.parallel "position" 5 [
      ⟨[1, 0], [1], .leaf "position_pid" (.pid ⟨.setpointMeasurement, [a.position]⟩)⟩,
      ⟨[4, 5, 2, 3], [0, 2, 3, 4], .leaf "position_bypass" (.forward 4)⟩]
      :: a.speedCircuits "")

theorem eval_speedCircuits (label : String) (a : AxisCascade α) (mode held order speed limit : α) :
    Circuit.evalStages (a.speedCircuits label) [mode, held, order, speed, limit]
      = (a.drive (if mode < half then held else order) speed limit).toOption.map fun r =>
          ([r.1, r.2.1], r.2.2.speedCircuits label) := by
  unfold drive speedCircuits
  generalize hchosen : (if mode < half then held else order) = chosen
  rw [Circuit.evalStages, Circuit.eval_pair [mode, held, order] [speed, limit] rfl rfl,
    Circuit.eval_select, hchosen]
  show (Circuit.evalStages _ [chosen, speed, limit]).map _ = _
  rw [Circuit.evalStages, Circuit.eval_speedRamp]
  cases a.ramp.limit chosen speed limit with
  | error fault => rfl
  | ok ramped =>
    show ((Circuit.evalStages _ [ramped, speed]).map _).map _ = _
    rw [Circuit.evalStages, Circuit.eval_pair [ramped, speed] [ramped] rfl rfl,
      Circuit.eval_setpoint, ok_bind]
    cases a.speed.compute ramped speed with
    | error fault => rfl
    | ok r => rfl

theorem drive_position {a : AxisCascade α} {order speed limit : α} {r : α × α × AxisCascade α}
    (h : a.drive order speed limit = .ok r) : r.2.2.position = a.position := by
  obtain ⟨ramped, _, h⟩ := bind_eq_ok_iff.mp h
  obtain ⟨⟨command, speedLoop⟩, _, h⟩ := bind_eq_ok_iff.mp h
  cases h
  rfl

/-- A position loop that hands on mode, its output, order, speed and limit, followed by the
stages after it, comes to one cycle of the loops. -/
theorem eval_loops {name label : String} (stage : Pid α → Circuit α) {a : AxisCascade α}
    {inputs : List α} {target measured speed limit mode order : α}
    (hstage : (stage a.position).eval inputs
      = (a.position.compute target measured).toOption.map fun r =>
          ([mode, r.1, order, speed, limit], stage r.2)) :
    (Circuit.sequential name (stage a.position :: a.speedCircuits label)).eval inputs
      = (a.step target measured speed limit mode order).toOption.map fun r =>
          ([r.1, r.2.1],
            .sequential name (stage r.2.2.position :: r.2.2.speedCircuits label)) := by
  unfold step
  rw [Circuit.eval, Circuit.evalStages, hstage]
  cases a.position.compute target measured with
  | error fault => rfl
  | ok r =>
    obtain ⟨held, positionLoop⟩ := r
    -- The stages after the position loop do not read it.
    show ((Circuit.evalStages (speedCircuits label { a with position := positionLoop })
      [mode, held, order, speed, limit]).map _).map _ = _
    rw [eval_speedCircuits, ok_bind]
    dsimp only
    cases hd : drive { a with position := positionLoop } (if mode < half then held else order)
        speed limit with
    | error fault => rfl
    | ok q =>
      rw [show positionLoop = q.2.2.position from (drive_position hd).symm]
      rfl

/-- The wiring of an axis of the vehicle comes to the cycle of its loops, with the position
error against zero. -/
theorem eval_circuit (label : String) (a : AxisCascade α) (error speed limit mode order : α) :
    (a.circuit label).eval [error, speed, limit, mode, order]
      = (a.step error 0 speed limit mode order).toOption.map fun r =>
          ([r.1, r.2.1], r.2.2.circuit label) := by
  refine eval_loops (fun loop => .parallel (label ++ "position") 5 [
    ⟨[0], [1], .leaf (label ++ "position_pid") (.pid ⟨.error, [loop]⟩)⟩,
    ⟨[3, 4, 1, 2], [0, 2, 3, 4], .leaf (label ++ "position_bypass") (.forward 4)⟩]) ?_
  rw [Circuit.eval_pair [error] [mode, order, speed, limit] rfl rfl, Circuit.eval_error]
  cases a.position.compute error 0 with
  | error fault => rfl
  | ok r => rfl

/-- The wiring of a motor comes to the cycle of its loops. -/
theorem eval_motorCircuit (name : String) (a : AxisCascade α)
    (position target speed limit mode order : α) :
    (a.motorCircuit name).eval [position, target, speed, limit, mode, order]
      = (a.step target position speed limit mode order).toOption.map fun r =>
          ([r.1, r.2.1], r.2.2.motorCircuit name) := by
  refine eval_loops (fun loop => .parallel "position" 5 [
    ⟨[1, 0], [1], .leaf "position_pid" (.pid ⟨.setpointMeasurement, [loop]⟩)⟩,
    ⟨[4, 5, 2, 3], [0, 2, 3, 4], .leaf "position_bypass" (.forward 4)⟩]) ?_
  rw [Circuit.eval_pair [target, position] [mode, order, speed, limit] rfl rfl,
    Circuit.eval_setpoint]
  cases a.position.compute target position with
  | error fault => rfl
  | ok r => rfl

/-- The wiring of a motor, on any six signals. -/
theorem eval_motor (name : String) (a : AxisCascade α) {inputs : List α}
    (hinputs : inputs.length = 6) :
    (a.motorCircuit name).eval inputs
      = ((machine α).respond a inputs).map fun r => (r.1, r.2.motorCircuit name) := by
  rcases inputs with _ | ⟨position, _ | ⟨target, _ | ⟨speed, _ | ⟨limit, _ | ⟨mode, _ | ⟨order,
    _ | ⟨_, _⟩⟩⟩⟩⟩⟩⟩
  case cons.cons.cons.cons.cons.cons.nil =>
    rw [eval_motorCircuit]
    show _ = ((a.step target position speed limit mode order).toOption.map _).map _
    rw [Option.map_map]
    rfl
  all_goals simp at hinputs

end AxisCascade

/-! ## The vehicle -/

/-- A straight-line move and both axes. -/
structure PlatformCascade (α : Type) where
  move : StraightMove α
  linear : AxisCascade α
  angular : AxisCascade α

namespace PlatformCascade

/-- The cascade of a vehicle before its first cycle. -/
def fresh (s : PlatformSettings α) (period : α) : PlatformCascade α where
  move := .fresh s.straightMove
  linear := .fresh s.linearPosition s.linearSpeed s.linearRamp period
  angular := .fresh s.angularPosition s.angularSpeed s.angularRamp period

/-- One cycle: the move decides what is asked of each axis, and the axes do it.  The outputs
are both commands, then both ramped orders. -/
def step (p : PlatformCascade α) (request : MoveRequest α) :
    Except Fault (List α × PlatformCascade α) := do
  let (d, move) := p.move.decide request
  let (linearCommand, linearRamped, linear) ←
    p.linear.step d.linear.error 0 d.linear.speed d.linear.limit d.mode d.linear.order
  let (angularCommand, angularRamped, angular) ←
    p.angular.step d.angular.error 0 d.angular.speed d.angular.limit d.mode d.angular.order
  .ok ([linearCommand, angularCommand, linearRamped, angularRamped], ⟨move, linear, angular⟩)

/-- The law of moves and both axes forget what they remember. -/
def reset (p : PlatformCascade α) : PlatformCascade α :=
  ⟨p.move.reset, p.linear.reset, p.angular.reset⟩

/-- The vehicle on the thirteen signals of a request. -/
def machine (α : Type) [Scalar α] : Cyclic α Empty (PlatformCascade α) where
  respond p inputs := (MoveRequest.ofSignals? inputs).bind fun request => (p.step request).toOption
  reset := reset
  change _ what := nomatch what

/-- The cascade of a vehicle as a circuit. -/
def circuit (p : PlatformCascade α) : Circuit α :=
  .sequential "platform" [.leaf "pose_straight" (.straightMove p.move),
    .parallel "axes" 4 [
      ⟨[0, 1, 2, 8, 3], [0, 2], p.linear.circuit "linear_"⟩,
      ⟨[4, 5, 6, 8, 7], [1, 3], p.angular.circuit "angular_"⟩]]

/-- The wiring of the vehicle comes to the cycle of its loops. -/
theorem eval_circuit (p : PlatformCascade α) {inputs : List α} (hinputs : inputs.length = 13) :
    p.circuit.eval inputs
      = ((machine α).respond p inputs).map fun r => (r.1, r.2.circuit) := by
  obtain ⟨request, hrequest⟩ := MoveRequest.exists_ofSignals? hinputs
  show _ = ((MoveRequest.ofSignals? inputs).bind _).map _
  unfold circuit step
  rw [hrequest, Circuit.eval, Circuit.evalStages, Circuit.eval_straightMove hrequest,
    Option.bind_some, Option.bind_some]
  generalize p.move.decide request = decided
  obtain ⟨d, move⟩ := decided
  dsimp only
  rw [Circuit.evalStages, Circuit.eval_pair
      [d.linear.error, d.linear.speed, d.linear.limit, d.mode, d.linear.order]
      [d.angular.error, d.angular.speed, d.angular.limit, d.mode, d.angular.order] rfl rfl,
    AxisCascade.eval_circuit, AxisCascade.eval_circuit]
  cases p.linear.step d.linear.error 0 d.linear.speed d.linear.limit d.mode d.linear.order with
  | error fault => rfl
  | ok linear =>
    rw [ok_bind]
    cases p.angular.step d.angular.error 0 d.angular.speed d.angular.limit d.mode
        d.angular.order with
    | error fault => rfl
    | ok angular => rfl

end PlatformCascade

/-! ## The standard trees -/

namespace StandardTree

open Node

theorem pid_eq_ofLaw {name : String} {channels : Nat} {layout : PidLayout} {gains : PidGains α}
    (h : gains.check = .ok ()) (period : α) :
    Node.pid name channels layout gains period
      = ofLaw name (.pid (.fresh channels layout gains period)) := by
  unfold Node.pid ofSettings
  rw [show (LawSettings.pid gains).check = .ok () from h]

theorem speedRamp_eq_ofLaw {name : String} {settings : RampSettings α}
    (h : settings.check = .ok ()) (period : α) :
    Node.speedRamp name settings period = ofLaw name (.speedRamp ⟨settings, period⟩) := by
  unfold Node.speedRamp ofSettings
  rw [show (LawSettings.speedRamp settings).check = .ok () from h]

theorem straightMove_eq_ofLaw {name : String} {settings : StraightMoveSettings α}
    (h : settings.check = .ok ()) :
    Node.straightMove name settings = ofLaw name (.straightMove (.fresh settings)) := by
  unfold Node.straightMove ofSettings
  rw [show (LawSettings.straightMove settings).check = .ok () from h]

/-- Checked settings of a vehicle make a tree, and it is wired like the loops at rest. -/
theorem platform_built {s : PlatformSettings α} (h : s.Checked) (period : α) :
    ∃ tree, platform s period = .ok tree ∧
      tree.circuit = (PlatformCascade.fresh s period).circuit ∧ tree.inputCount = 13 := by
  unfold platform axis speedStages
  rw [straightMove_eq_ofLaw h.straightMove, pid_eq_ofLaw h.linearPosition,
    pid_eq_ofLaw h.linearSpeed, pid_eq_ofLaw h.angularPosition, pid_eq_ofLaw h.angularSpeed,
    speedRamp_eq_ofLaw h.linearRamp, speedRamp_eq_ofLaw h.angularRamp]
  exact ⟨_, rfl, rfl, rfl⟩

theorem motor_built {s : MotorSettings α} (h : s.Checked) (period : α) :
    ∃ tree, motor s period = .ok tree ∧
      tree.circuit = (AxisCascade.fresh s.position s.speed s.ramp period).motorCircuit s.name ∧
      tree.inputCount = 6 := by
  unfold motor speedStages
  rw [pid_eq_ofLaw h.position, pid_eq_ofLaw h.speed, speedRamp_eq_ofLaw h.ramp]
  exact ⟨_, rfl, rfl, rfl⟩

/-! ### Assembly -/

theorem speedStages_assembled {label : String} {gains : PidGains α} {ramp : RampSettings α}
    {period : α} {stages : List (Node α)} (h : speedStages label gains ramp period = .ok stages) :
    ∀ s ∈ stages, Assembled TypedLeaf s := by
  obtain ⟨modeSwitch, hswitch, h⟩ := bind_eq_ok_iff.mp h
  obtain ⟨selectBypass, hselect, h⟩ := bind_eq_ok_iff.mp h
  obtain ⟨choice, hchoice, h⟩ := bind_eq_ok_iff.mp h
  obtain ⟨limited, hlimited, h⟩ := bind_eq_ok_iff.mp h
  obtain ⟨speedPid, hpid, h⟩ := bind_eq_ok_iff.mp h
  obtain ⟨speedBypass, hspeed, h⟩ := bind_eq_ok_iff.mp h
  obtain ⟨loop, hloop, h⟩ := bind_eq_ok_iff.mp h
  cases h
  have hchoices : Assembled TypedLeaf choice :=
    .ofPair (.leaf (.select hswitch)) (.leaf (.forward hselect)) hchoice
  have hloops : Assembled TypedLeaf loop :=
    .ofPair (.leaf (.pid hpid)) (.leaf (.forward hspeed)) hloop
  refine List.forall_mem_cons.mpr ⟨hchoices, List.forall_mem_cons.mpr ⟨?_, ?_⟩⟩
  · exact .leaf (.speedRamp hlimited)
  · exact List.forall_mem_singleton.mpr hloops

theorem axis_assembled {label : String} {positionGains speedGains : PidGains α}
    {ramp : RampSettings α} {period : α} {n : Node α}
    (h : axis label positionGains speedGains ramp period = .ok n) : Assembled TypedLeaf n := by
  obtain ⟨positionPid, hpid, h⟩ := bind_eq_ok_iff.mp h
  obtain ⟨bypass, hbypass, h⟩ := bind_eq_ok_iff.mp h
  obtain ⟨position, hposition, h⟩ := bind_eq_ok_iff.mp h
  obtain ⟨stages, hstages, h⟩ := bind_eq_ok_iff.mp h
  have hpositions : Assembled TypedLeaf position :=
    .ofPair (.leaf (.pid hpid)) (.leaf (.forward hbypass)) hposition
  exact .ofStages (List.forall_mem_cons.mpr ⟨hpositions, speedStages_assembled hstages⟩) h

omit [Scalar α] in
/-- A tree that passed `validate` is the tree that was built. -/
theorem validated_eq_ok {n n' : Node α} (h : validated n = .ok n') :
    n' = n ∧ n.validate = .ok () := by
  obtain ⟨_, hv, h⟩ := bind_eq_ok_iff.mp h
  cases h
  exact ⟨rfl, hv⟩

theorem platform_assembled {s : PlatformSettings α} {period : α} {tree : Node α}
    (h : platform s period = .ok tree) : Assembled TypedLeaf tree ∧ tree.validate = .ok () := by
  obtain ⟨move, hmove, h⟩ := bind_eq_ok_iff.mp h
  obtain ⟨linear, hlinear, h⟩ := bind_eq_ok_iff.mp h
  obtain ⟨angular, hangular, h⟩ := bind_eq_ok_iff.mp h
  obtain ⟨axes, haxes, h⟩ := bind_eq_ok_iff.mp h
  obtain ⟨n, hn, h⟩ := bind_eq_ok_iff.mp h
  obtain ⟨rfl, hv⟩ := validated_eq_ok h
  have hboth : Assembled TypedLeaf axes :=
    .ofPair (axis_assembled hlinear) (axis_assembled hangular) haxes
  refine ⟨.ofStages (List.forall_mem_cons.mpr ⟨?_, List.forall_mem_singleton.mpr hboth⟩) hn, hv⟩
  exact .leaf (.straightMove hmove)

theorem motor_assembled {s : MotorSettings α} {period : α} {tree : Node α}
    (h : motor s period = .ok tree) : Assembled TypedLeaf tree ∧ tree.validate = .ok () := by
  obtain ⟨positionPid, hpid, h⟩ := bind_eq_ok_iff.mp h
  obtain ⟨bypass, hbypass, h⟩ := bind_eq_ok_iff.mp h
  obtain ⟨position, hposition, h⟩ := bind_eq_ok_iff.mp h
  obtain ⟨stages, hstages, h⟩ := bind_eq_ok_iff.mp h
  obtain ⟨n, hn, h⟩ := bind_eq_ok_iff.mp h
  obtain ⟨rfl, hv⟩ := validated_eq_ok h
  have hpositions : Assembled TypedLeaf position :=
    .ofPair (.leaf (.pid hpid)) (.leaf (.forward hbypass)) hposition
  exact ⟨.ofStages (List.forall_mem_cons.mpr ⟨hpositions, speedStages_assembled hstages⟩) hn, hv⟩

/-! ### Runs -/

/-- Loops whose cycle and reset are those of a circuit do what it does. -/
theorem loops_follow {S : Type} {loops : Cyclic α Empty S} {wiring : S → Circuit α} {width : Nat}
    (heval : ∀ s inputs, inputs.length = width →
      (wiring s).eval inputs = (loops.respond s inputs).map fun r => (r.1, wiring r.2))
    (hreset : ∀ s, (wiring s).reset = wiring (loops.reset s)) :
    Cyclic.Follows (Circuit.machine α).fixed loops width fun c s => c = wiring s where
  respond {c s inputs outputs c'} h hinputs hrespond := by
    have hloops : (loops.respond s inputs).map (fun r => (r.1, wiring r.2))
        = some (outputs, c') := by
      rw [← heval s inputs hinputs, ← h]
      exact hrespond
    obtain ⟨⟨outputs', s'⟩, hs', heq⟩ := Option.map_eq_some_iff.mp hloops
    cases heq
    exact ⟨s', hs', rfl⟩
  reset {c s} h := by
    show c.reset = _
    rw [h]
    exact hreset s
  change {_ _ what} := nomatch what

/-- A sound tree that is wired like loops gives their outputs, and it gives some: no cycle
faults. -/
theorem play_eq_loops_of_sound [LawfulScalar α] {S : Type} {loops : Cyclic α Empty S}
    {wiring : S → Circuit α} {n : Node α} {s : S}
    (hsound : n.Sound Law.Checked) (hwiring : n.circuit = wiring s)
    (heval : ∀ s inputs, inputs.length = n.inputCount →
      (wiring s).eval inputs = (loops.respond s inputs).map fun r => (r.1, wiring r.2))
    (hreset : ∀ s, (wiring s).reset = wiring (loops.reset s))
    {rounds : List (Round α Empty)} (hrounds : ∀ r ∈ rounds, r.Fits n.inputCount) :
    ∃ outputs, ((machine α).fixed.play n rounds).map (·.1) = some outputs ∧
      (loops.play s rounds).map (·.1) = some outputs := by
  obtain ⟨⟨outputs, n'⟩, hplay⟩ := Cyclic.play_total (m := (machine α).fixed)
    (I := Kept Law.Checked n) (s := n)
    (fun k inputs hk hinputs => by
      obtain ⟨r, hr, hkept⟩ := hk.sound.machine_respond Law.Checked.invariant
        Law.Checked.answering (hinputs.trans hk.ends.inputCount.symm)
      exact ⟨r, hr, hkept.sound, hk.ends.trans hkept.ends⟩)
    (fun k hk =>
      have hkept := hk.sound.reset Law.Checked.invariant
      ⟨hkept.sound, hk.ends.trans hkept.ends⟩)
    (.refl hsound) hrounds
  -- From the tree to its circuit, and from the circuit to the loops.
  obtain ⟨c', hcircuit, _⟩ := Cyclic.play_of_follows
    (circuit_follows Law.Checked.invariant n.inputCount).fixed (realizes_circuit hsound)
    hrounds hplay
  obtain ⟨s', hloops, _⟩ := Cyclic.play_of_follows (loops_follow heval hreset) hwiring
    hrounds hcircuit
  exact ⟨outputs, by rw [hplay, Option.map_some], by rw [hloops, Option.map_some]⟩

/-- A validated tree of typed leaves that is wired like loops gives their outputs. -/
theorem play_eq_loops [LawfulScalar α] {S : Type} {loops : Cyclic α Empty S}
    {wiring : S → Circuit α} {n : Node α} {s : S}
    (hn : Assembled TypedLeaf n) (hv : n.validate = .ok ()) (hwiring : n.circuit = wiring s)
    (heval : ∀ s inputs, inputs.length = n.inputCount →
      (wiring s).eval inputs = (loops.respond s inputs).map fun r => (r.1, wiring r.2))
    (hreset : ∀ s, (wiring s).reset = wiring (loops.reset s))
    {rounds : List (Round α Empty)} (hrounds : ∀ r ∈ rounds, r.Fits n.inputCount) :
    ∃ outputs, ((machine α).fixed.play n rounds).map (·.1) = some outputs ∧
      (loops.play s rounds).map (·.1) = some outputs :=
  play_eq_loops_of_sound (hn.sound_checked hv) hwiring heval hreset hrounds

/-- Settings that pass their check make a standard tree, and over every run of cycles and
resets this tree gives the outputs of the loops: for the vehicle, both axes on what one
straight-line move asks of them; for a motor, its axis on target and position.  Both answer
every cycle. -/
theorem standard_trees_are_cascades (period : Float) :
    (∀ s : PlatformSettings Float, s.check = .ok () →
      ∃ tree, platform s period = .ok tree ∧
        ∀ rounds : List (Round Float Empty), (∀ r ∈ rounds, r.Fits 13) →
          ∃ outputs, ((Node.machine Float).fixed.play tree rounds).map (·.1) = some outputs ∧
            ((PlatformCascade.machine Float).play (.fresh s period) rounds).map (·.1)
              = some outputs) ∧
    (∀ s : MotorSettings Float, s.check = .ok () →
      ∃ tree, motor s period = .ok tree ∧
        ∀ rounds : List (Round Float Empty), (∀ r ∈ rounds, r.Fits 6) →
          ∃ outputs, ((Node.machine Float).fixed.play tree rounds).map (·.1) = some outputs ∧
            ((AxisCascade.machine Float).play (.fresh s.position s.speed s.ramp period)
              rounds).map (·.1) = some outputs) := by
  constructor
  · intro s hs
    obtain ⟨tree, htree, hwiring, hcount⟩ := platform_built (PlatformSettings.checked hs) period
    obtain ⟨hassembled, hv⟩ := platform_assembled htree
    refine ⟨tree, htree, fun rounds hrounds => ?_⟩
    rw [← hcount] at hrounds
    refine play_eq_loops hassembled hv hwiring ?_ (fun _ => rfl) hrounds
    rw [hcount]
    exact fun p inputs => p.eval_circuit
  · intro s hs
    obtain ⟨tree, htree, hwiring, hcount⟩ := motor_built (MotorSettings.checked hs) period
    obtain ⟨hassembled, hv⟩ := motor_assembled htree
    refine ⟨tree, htree, fun rounds hrounds => ?_⟩
    rw [← hcount] at hrounds
    refine play_eq_loops hassembled hv hwiring ?_ (fun _ => rfl) hrounds
    rw [hcount]
    exact fun a inputs => a.eval_motor s.name

/-- The default settings, through two cycles and a reset between them. -/
theorem default_trees_are_cascades :
    (∃ tree outputs, platform (.default : PlatformSettings Float) 1 = .ok tree ∧
      ((Node.machine Float).fixed.play tree [.cycle (List.replicate 13 1), .reset,
        .cycle (List.replicate 13 0)]).map (·.1) = some outputs) ∧
    ∃ tree outputs, motor (.named "lift" : MotorSettings Float) 1 = .ok tree ∧
      ((Node.machine Float).fixed.play tree [.cycle [0, 10, 1, 5, 0, 0], .reset,
        .cycle [0, 10, 1, 5, 1, 3]]).map (·.1) = some outputs := by
  obtain ⟨vehicle, single⟩ := standard_trees_are_cascades 1
  obtain ⟨tree, htree, hruns⟩ := vehicle .default rfl
  obtain ⟨outputs, houtputs, _⟩ := hruns [.cycle (List.replicate 13 1), .reset,
    .cycle (List.replicate 13 0)] (by simp [Round.Fits])
  obtain ⟨tree', htree', hruns'⟩ := single (.named "lift") rfl
  obtain ⟨outputs', houtputs', _⟩ := hruns' [.cycle [0, 10, 1, 5, 0, 0], .reset,
    .cycle [0, 10, 1, 5, 1, 3]] (by simp [Round.Fits])
  exact ⟨⟨tree, outputs, htree, houtputs⟩, tree', outputs', htree', houtputs'⟩

end StandardTree

end MotionControl
