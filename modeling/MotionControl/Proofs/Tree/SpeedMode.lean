import MotionControl.Proofs.Scalar.Ordered
import MotionControl.Proofs.Tree.Standing

/-!
# Speed regulation does not look at the pose

In speed mode the order takes the place of what the position loop asks for.  A vehicle gives its
position loops no error then; a motor lets its position loop run on and throws its output away, so
that the loop itself is different afterwards.  Nothing of this reaches the outputs.

- `SpeedInputs`: inputs in speed mode that agree in some places.
- `Cyclic.play_alike`: runs that stay alike give the same outputs.
- `AxisCascade.SameDrive`: axes that differ in their position loops only.
- `AxisCascade.step_alike`, `PlatformCascade.step_alike`: one cycle.
- `StandardTree.speed_regulation_ignores_pose`: whole runs of the standard trees.
-/

namespace MotionControl

open Scalar Outcome

/-- Two vectors of inputs of one width that agree in the shared places, both with a mode of one
half or more in its place. -/
structure SpeedInputs {α : Type} [Scalar α] (width : Nat) (shared : List Nat) (place : Nat)
    (inputs inputs' : List α) : Prop where
  length : inputs.length = width
  length' : inputs'.length = width
  agree : ∀ i ∈ shared, inputs[i]? = inputs'[i]?
  mode : ∃ m, inputs[place]? = some m ∧ half ≤ m
  mode' : ∃ m, inputs'[place]? = some m ∧ half ≤ m

/-! ## Runs side by side -/

namespace Cyclic

variable {α S : Type}

/-- If cycles on related inputs lead from related states to equal outputs and related states, then
runs of such cycles give equal outputs. -/
theorem play_alike {m : Cyclic α Empty S} {R : S → S → Prop} {A : List α → List α → Prop}
    (hcycle : ∀ {s t inputs inputs' outputs outputs' s' t'}, R s t → A inputs inputs' →
      m.respond s inputs = some (outputs, s') → m.respond t inputs' = some (outputs', t') →
      outputs = outputs' ∧ R s' t')
    {inputs inputs' outputs outputs' : List (List α)} {s t s' t' : S} (hR : R s t)
    (hinputs : List.Forall₂ A inputs inputs')
    (hs : m.play s (inputs.map .cycle) = some (outputs, s'))
    (ht : m.play t (inputs'.map .cycle) = some (outputs', t')) : outputs = outputs' := by
  induction hinputs generalizing s t outputs outputs' with
  | nil =>
    cases hs
    cases ht
    rfl
  | cons hfirst hrest ih =>
    obtain ⟨⟨given, s₁⟩, hrespond, hs⟩ := Option.bind_eq_some_iff.mp hs
    obtain ⟨⟨others, _⟩, hothers, hs⟩ := Option.map_eq_some_iff.mp hs
    obtain ⟨⟨given', t₁⟩, hrespond', ht⟩ := Option.bind_eq_some_iff.mp ht
    obtain ⟨⟨others', _⟩, hothers', ht⟩ := Option.map_eq_some_iff.mp ht
    cases hs
    cases ht
    obtain ⟨hgiven, hR₁⟩ := hcycle hR hfirst hrespond hrespond'
    rw [hgiven, ih hR₁ hothers hothers']

end Cyclic

variable {α : Type} [Scalar α]

/-! ## One axis -/

namespace AxisCascade

variable {a a' : AxisCascade α} {r r' : α × α × AxisCascade α}

/-- The axes differ in their position loops at most. -/
structure SameDrive (a a' : AxisCascade α) : Prop where
  ramp : a.ramp = a'.ramp
  speed : a.speed = a'.speed

/-- From the order on, the position loop plays no part. -/
theorem drive_alike (h : SameDrive a a') {order speed limit : α}
    (hr : a.drive order speed limit = .ok r) (hr' : a'.drive order speed limit = .ok r') :
    r.1 = r'.1 ∧ r.2.1 = r'.2.1 ∧ SameDrive r.2.2 r'.2.2 := by
  unfold drive at hr hr'
  rw [← h.ramp, ← h.speed] at hr'
  obtain ⟨ramped, hramped, hr⟩ := bind_eq_ok_iff.mp hr
  obtain ⟨⟨command, loop⟩, hcommand, hr⟩ := bind_eq_ok_iff.mp hr
  rw [hramped, ok_bind, hcommand, ok_bind] at hr'
  cases hr
  cases hr'
  exact ⟨rfl, rfl, rfl, rfl⟩

/-- In speed mode, a cycle is a cycle of the position loop, and the order drives the axis. -/
theorem step_eq_ok_of_speed {target position speed limit mode order : α} (hmode : ¬ mode < half)
    (h : a.step target position speed limit mode order = .ok r) :
    ∃ loop, drive { a with position := loop } order speed limit = .ok r := by
  obtain ⟨⟨held, loop⟩, -, h⟩ := bind_eq_ok_iff.mp h
  dsimp only at h
  rw [if_neg hmode] at h
  exact ⟨loop, h⟩

/-- In speed mode, axes that differ in their position loops do the same, whatever their targets and
positions are. -/
theorem step_alike (h : SameDrive a a')
    {target position target' position' speed limit mode mode' order : α}
    (hmode : ¬ mode < half) (hmode' : ¬ mode' < half)
    (hr : a.step target position speed limit mode order = .ok r)
    (hr' : a'.step target' position' speed limit mode' order = .ok r') :
    r.1 = r'.1 ∧ r.2.1 = r'.2.1 ∧ SameDrive r.2.2 r'.2.2 := by
  obtain ⟨loop, hdrive⟩ := step_eq_ok_of_speed hmode hr
  obtain ⟨loop', hdrive'⟩ := step_eq_ok_of_speed hmode' hr'
  have hloops : SameDrive { a with position := loop } { a' with position := loop' } :=
    ⟨h.ramp, h.speed⟩
  exact drive_alike hloops hdrive hdrive'

/-- In speed mode, it does not matter by how much the mode is above one half. -/
theorem step_mode {target position speed limit mode mode' order : α} (hmode : ¬ mode < half)
    (hmode' : ¬ mode' < half) :
    a.step target position speed limit mode order
      = a.step target position speed limit mode' order := by
  have hchosen : ∀ held : α, (if mode < half then held else order)
      = if mode' < half then held else order := by
    intro held
    rw [if_neg hmode, if_neg hmode']
  unfold step
  simp only [hchosen]

theorem respond_alike [OrderedScalar α] {b b' : AxisCascade α}
    {inputs inputs' outputs outputs' : List α} (h : SameDrive a b)
    (hinputs : SpeedInputs 6 [2, 3, 5] 4 inputs inputs')
    (ha : (machine α).respond a inputs = some (outputs, a'))
    (hb : (machine α).respond b inputs' = some (outputs', b')) :
    outputs = outputs' ∧ SameDrive a' b' := by
  obtain ⟨position, target, speed, limit, mode, order, r, rfl, hr, rfl, rfl⟩ := respond_eq_some ha
  obtain ⟨position', target', speed', limit', mode', order', r', rfl, hr', rfl, rfl⟩ :=
    respond_eq_some hb
  -- there are six signals on either side, and they agree where the axis looks in speed mode
  obtain ⟨_, ⟨⟩, hmode⟩ := hinputs.mode
  obtain ⟨_, ⟨⟩, hmode'⟩ := hinputs.mode'
  obtain ⟨⟩ := hinputs.agree 2 (by decide)
  obtain ⟨⟩ := hinputs.agree 3 (by decide)
  obtain ⟨⟩ := hinputs.agree 5 (by decide)
  obtain ⟨hcommand, hramped, hsame⟩ := step_alike h (OrderedScalar.not_lt_of_le hmode)
    (OrderedScalar.not_lt_of_le hmode') hr hr'
  rw [hcommand, hramped]
  exact ⟨rfl, hsame⟩

end AxisCascade

/-! ## The vehicle -/

/-- Where the speeds, the orders and the mode are among the signals of a request. -/
theorem MoveRequest.signals_of_ofSignals? {inputs : List α} {request : MoveRequest α}
    (h : MoveRequest.ofSignals? inputs = some request) :
    inputs[6]? = some request.speed.distance ∧ inputs[7]? = some request.speed.angle ∧
      inputs[8]? = some request.order.distance ∧ inputs[9]? = some request.order.angle ∧
      inputs[12]? = some request.mode := by
  unfold MoveRequest.ofSignals? at h
  split at h
  · cases h
    exact ⟨rfl, rfl, rfl, rfl, rfl⟩
  · cases h

/-- In speed mode a move asks for no way to go, whatever the poses are. -/
theorem StraightMove.decide_of_speed {f : StraightMove α} {request : MoveRequest α}
    (h : half ≤ request.mode) :
    (f.decide request).1 = demand request 0 (abs request.order.distance) 0
      (abs request.order.angle) := by
  have hset : isSet request.mode = true := decide_eq_true h
  have hd := f.decided request
  generalize f.decide request = outcome at hd ⊢
  cases hd with
  | speed => rfl
  | align mode | straight mode | orient mode => cases hset.symm.trans mode

namespace PlatformCascade

variable {p p' q q' : PlatformCascade α} {inputs inputs' outputs outputs' : List α}

/-- The vehicles differ in their straight-line moves at most. -/
structure SameAxes (p p' : PlatformCascade α) : Prop where
  linear : p.linear = p'.linear
  angular : p.angular = p'.angular

/-- In speed mode, vehicles that differ in their straight-line moves do the same when they are
given the same speeds and orders. -/
theorem step_alike [OrderedScalar α] (h : SameAxes p p') {request request' : MoveRequest α}
    (hspeed : request.speed = request'.speed) (horder : request.order = request'.order)
    (hmode : half ≤ request.mode) (hmode' : half ≤ request'.mode) {r r' : List α × PlatformCascade α}
    (hr : p.step request = .ok r) (hr' : p'.step request' = .ok r') :
    r.1 = r'.1 ∧ SameAxes r.2 r'.2 := by
  obtain ⟨linear, angular, hlinear, hangular, rfl⟩ := step_eq_ok hr
  obtain ⟨linear', angular', hlinear', hangular', rfl⟩ := step_eq_ok hr'
  have hset := OrderedScalar.not_lt_of_le hmode
  have hset' := OrderedScalar.not_lt_of_le hmode'
  rw [StraightMove.decide_of_speed hmode] at hlinear hangular
  rw [StraightMove.decide_of_speed hmode'] at hlinear' hangular'
  dsimp only [StraightMove.demand] at hlinear hangular hlinear' hangular'
  rw [← hspeed, ← horder] at hlinear' hangular'
  -- both moves ask the same of either axis, the mode apart
  have hsame : linear = linear' := by
    refine Except.ok.inj (hlinear.symm.trans (Eq.trans ?_ hlinear'))
    rw [← h.linear]
    exact AxisCascade.step_mode hset hset'
  have hsame' : angular = angular' := by
    refine Except.ok.inj (hangular.symm.trans (Eq.trans ?_ hangular'))
    rw [← h.angular]
    exact AxisCascade.step_mode hset hset'
  rw [hsame, hsame']
  exact ⟨rfl, rfl, rfl⟩

theorem respond_alike [OrderedScalar α] (h : SameAxes p p')
    (hinputs : SpeedInputs 13 [6, 7, 8, 9] 12 inputs inputs')
    (hp : (machine α).respond p inputs = some (outputs, q))
    (hp' : (machine α).respond p' inputs' = some (outputs', q')) :
    outputs = outputs' ∧ SameAxes q q' := by
  obtain ⟨request, hrequest, hstep⟩ := respond_eq_some hp
  obtain ⟨request', hrequest', hstep'⟩ := respond_eq_some hp'
  obtain ⟨h6, h7, h8, h9, h12⟩ := MoveRequest.signals_of_ofSignals? hrequest
  obtain ⟨h6', h7', h8', h9', h12'⟩ := MoveRequest.signals_of_ofSignals? hrequest'
  obtain ⟨mode, hmode, hset⟩ := hinputs.mode
  obtain ⟨mode', hmode', hset'⟩ := hinputs.mode'
  rw [h12] at hmode
  rw [h12'] at hmode'
  cases hmode
  cases hmode'
  have same {i : Nat} {v v' : α} (hi : i ∈ [6, 7, 8, 9]) (hv : inputs[i]? = some v)
      (hv' : inputs'[i]? = some v') : v = v' := by
    have hagree := hinputs.agree i hi
    rw [hv, hv'] at hagree
    exact Option.some.inj hagree
  have hspeed : request.speed = request'.speed :=
    congrArg₂ Polar.mk (same (by decide) h6 h6') (same (by decide) h7 h7')
  have horder : request.order = request'.order :=
    congrArg₂ Polar.mk (same (by decide) h8 h8') (same (by decide) h9 h9')
  exact step_alike h hspeed horder hset hset' hstep hstep'

end PlatformCascade

/-! ## The standard trees -/

namespace StandardTree

variable [OrderedScalar α]

/-- The outputs of a tree, cycle after cycle. -/
def outputsOn (tree : Node α) (inputs : List (List α)) : Option (List (List α)) :=
  ((Node.machine α).fixed.play tree (inputs.map .cycle)).map (·.1)

/-- Trees that stand for loops give equal outputs on inputs on which the loops stay alike. -/
theorem outputsOn_alike {S : Type} {loops : Cyclic α Empty S} {width : Nat}
    {wiring : S → Circuit α} (hwires : loops.Wires width wiring) {tree : Node α} {s : S}
    (htree : tree.Stands width wiring s) {R : S → S → Prop} {A : List α → List α → Prop}
    (hcycle : ∀ {s t inputs inputs' outputs outputs' s' t'}, R s t → A inputs inputs' →
      loops.respond s inputs = some (outputs, s') → loops.respond t inputs' = some (outputs', t') →
      outputs = outputs' ∧ R s' t')
    (hR : R s s) (hwidth : ∀ {inputs inputs'}, A inputs inputs' →
      inputs.length = width ∧ inputs'.length = width)
    {inputs inputs' : List (List α)} (hinputs : List.Forall₂ A inputs inputs') :
    ∃ outputs, outputsOn tree inputs = some outputs ∧ outputsOn tree inputs' = some outputs := by
  have hfits : (∀ r ∈ (inputs.map .cycle : List (Round α Empty)), r.Fits width) ∧
      ∀ r ∈ (inputs'.map .cycle : List (Round α Empty)), r.Fits width := by
    induction hinputs with
    | nil => exact ⟨List.forall_mem_nil _, List.forall_mem_nil _⟩
    | cons hfirst _ ih =>
      obtain ⟨hlength, hlength'⟩ := hwidth hfirst
      exact ⟨List.forall_mem_cons.mpr ⟨hlength, ih.1⟩, List.forall_mem_cons.mpr ⟨hlength', ih.2⟩⟩
  -- the trees have answers, and the loops say which
  obtain ⟨outputs, htrees, hloops⟩ := htree.play hwires hfits.1
  obtain ⟨outputs', htrees', hloops'⟩ := htree.play hwires hfits.2
  obtain ⟨⟨_, after⟩, hplay, rfl⟩ := Option.map_eq_some_iff.mp hloops
  obtain ⟨⟨_, after'⟩, hplay', rfl⟩ := Option.map_eq_some_iff.mp hloops'
  have hsame := Cyclic.play_alike hcycle hR hinputs hplay hplay'
  refine ⟨_, htrees, ?_⟩
  rw [hsame]
  exact htrees'

/-- A standard tree of checked settings, after whatever was done with it, is run twice in speed
mode.  In every cycle of the two runs the measured speeds and the speed orders are the same, and for
a motor the limit too.  Then the outputs are the same in every cycle, whatever the poses, the
targets and the flags are, and there is an answer in every cycle. -/
theorem speed_regulation_ignores_pose (period : α) :
    (∀ s : PlatformSettings α, s.check = .ok () →
      ∃ built, platform s period = .ok built ∧
        ∀ calls tree, built.calls calls = .ok tree → ∀ inputs inputs' : List (List α),
          List.Forall₂ (SpeedInputs 13 [6, 7, 8, 9] 12) inputs inputs' →
            ∃ outputs, outputsOn tree inputs = some outputs ∧
              outputsOn tree inputs' = some outputs) ∧
    ∀ s : MotorSettings α, s.check = .ok () →
      ∃ built, motor s period = .ok built ∧
        ∀ calls tree, built.calls calls = .ok tree → ∀ inputs inputs' : List (List α),
          List.Forall₂ (SpeedInputs 6 [2, 3, 5] 4) inputs inputs' →
            ∃ outputs, outputsOn tree inputs = some outputs ∧
              outputsOn tree inputs' = some outputs := by
  constructor
  · intro s hs
    obtain ⟨built, hbuilt, -⟩ := platform_built (PlatformSettings.checked hs) period
    refine ⟨built, hbuilt, fun calls tree hcalls inputs inputs' hinputs => ?_⟩
    have hstands := platform_stands (PlatformSettings.checked hs) hbuilt
    obtain ⟨p, htree⟩ := hstands.calls PlatformCascade.wires hcalls
    exact outputsOn_alike PlatformCascade.wires htree PlatformCascade.respond_alike ⟨rfl, rfl⟩
      (fun h => ⟨h.length, h.length'⟩) hinputs
  · intro s hs
    obtain ⟨built, hbuilt, -⟩ := motor_built (MotorSettings.checked hs) period
    refine ⟨built, hbuilt, fun calls tree hcalls inputs inputs' hinputs => ?_⟩
    have hstands := motor_stands (MotorSettings.checked hs) hbuilt
    obtain ⟨a, htree⟩ := hstands.calls (AxisCascade.wires s.name) hcalls
    exact outputsOn_alike (AxisCascade.wires s.name) htree AxisCascade.respond_alike ⟨rfl, rfl⟩
      (fun h => ⟨h.length, h.length'⟩) hinputs

/-- The vehicle at the origin, on its way to (100, 0), with orders of 50 and 10. -/
def leaving (mode : Float) : List Float := [0, 0, 0, 100, 0, 0, 20, 5, 50, 10, 0, 0, mode]

/-- The same speeds and orders, with poses that are not numbers and both flags set. -/
def lost (mode : Float) : List Float :=
  [0 / 0, 0 / 0, 0 / 0, 1 / 0, 0 / 0, 0 / 0, 20, 5, 50, 10, 1, 1, mode]

/-- The vehicle has run a cycle towards its target and has another ramp when it is lost.  The
motor is lost from the beginning. -/
theorem lost_plants_regulate :
    (∃ built tree outputs, platform (.default : PlatformSettings Float) 1 = .ok built ∧
      built.calls [.setInputs (leaving 0), .compute,
        .setParameters "linear_speed_ramp" (.speedRamp ⟨2, 10, 30⟩)] = .ok tree ∧
      outputsOn tree [leaving 1, leaving 1] = some outputs ∧
      outputsOn tree [lost 1, lost 2] = some outputs) ∧
    ∃ built outputs, motor (.named "lift" : MotorSettings Float) 1 = .ok built ∧
      outputsOn built [[0, 10, 1, 5, 1, 3], [1, 10, 2, 5, 1, 3]] = some outputs ∧
      outputsOn built [[0 / 0, 7, 1, 5, 1, 3], [1, 1 / 0, 2, 5, 1, 3]] = some outputs := by
  obtain ⟨vehicle, single⟩ := speed_regulation_ignores_pose (1 : Float)
  have hone : (half : Float) ≤ 1 := by decide +kernel
  have htwo : (half : Float) ≤ 2 := by decide +kernel
  constructor
  · obtain ⟨built, hbuilt, hruns⟩ := vehicle .default rfl
    have hstands := platform_stands (PlatformSettings.checked rfl) hbuilt
    have hfits : ∀ c ∈ [TreeCall.setInputs (leaving 0), .compute,
        .setParameters "linear_speed_ramp" (.speedRamp ⟨2, 10, 30⟩)],
        c.Fits built.inputCount := by
      rw [hstands.width]
      simp [TreeCall.Fits, leaving]
    obtain ⟨tree, hcalls, -⟩ :=
      hstands.sound.calls Law.Checked.invariant Law.Checked.answering hfits
    have hagree {mode mode' : Float} (h : half ≤ mode) (h' : half ≤ mode') :
        SpeedInputs 13 [6, 7, 8, 9] 12 (leaving mode) (lost mode') :=
      ⟨rfl, rfl, by simp [leaving, lost], ⟨mode, rfl, h⟩, mode', rfl, h'⟩
    obtain ⟨outputs, hleaving, hlost⟩ := hruns _ tree hcalls [leaving 1, leaving 1]
      [lost 1, lost 2] (.cons (hagree hone hone) (.cons (hagree hone htwo) .nil))
    exact ⟨built, tree, outputs, hbuilt, hcalls, hleaving, hlost⟩
  · obtain ⟨built, hbuilt, hruns⟩ := single (.named "lift") rfl
    have hagree {position target position' target' speed : Float} :
        SpeedInputs 6 [2, 3, 5] 4 [position, target, speed, 5, 1, 3]
          [position', target', speed, 5, 1, 3] :=
      ⟨rfl, rfl, by simp, ⟨1, rfl, hone⟩, 1, rfl, hone⟩
    obtain ⟨outputs, hknown, hlost⟩ := hruns [] built rfl _ _
      (.cons hagree (.cons hagree .nil))
    exact ⟨built, outputs, hbuilt, hknown, hlost⟩

end StandardTree

end MotionControl
