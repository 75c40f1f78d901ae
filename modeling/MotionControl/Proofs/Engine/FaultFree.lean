import MotionControl.Proofs.Engine.Phases
import MotionControl.Proofs.Tree.Cascade

/-!
# Cycles that are not given up

A cycle is given up by the first hook, by the tree, or by a band of duties that is no band.
The tree of a built engine never gives one up: nothing that is done with an engine, and no
cycle that was given up before, leaves it with a tree that does not fit its plant.

- `Engine.attemptAll`: runs that go on after a cycle that was given up.
- `Engine.Maintained`: the surroundings are the same, and the tree still fits.
- `Engine.request_maintained`, `Engine.Operable.step_maintained`: this is so after every
  request and every cycle.
- `Engine.Operable`: the tree is sound and fits the plant.
- `Engine.Operable.step_finishes`: a cycle of such an engine comes to its end.
-/

namespace MotionControl

open Outcome Scalar

/-! ## Plants -/

namespace Plant

variable {α σ : Type} [Scalar α]

/-- How many signals the tree reads. -/
def inputWidth : Plant α σ → Nat
  | platform .. => 13
  | motor _ => 6

/-- How many signals the tree gives. -/
def outputWidth : Plant α σ → Nat
  | platform .. => 4
  | motor _ => 2

/-- The duties of the motors form a band.  Checked settings have one, unless the lower end is
not a number. -/
def Banded : Plant α σ → Prop
  | platform _ drive _ => drive.minDuty ≤ drive.maxDuty
  | motor _ => True

/-- A plant fills as many inputs as its tree has. -/
theorem length_treeInputs (p : Plant α σ) (s : ControlState α) (speedMode : Bool) :
    (p.treeInputs s speedMode).length = p.inputWidth := by
  cases p with
  | platform odometer drive targets => rfl
  | motor encoder => rfl

/-- It finds its outputs in as many as the tree has. -/
theorem demand_answers (p : Plant α σ) {outputs : Signals α}
    (h : outputs.length = p.outputWidth) : ∃ demand, p.demand outputs = .ok demand := by
  have hget : ∀ i < p.outputWidth, ∃ v, outputs.get i = .ok v := by
    intro i hi
    rw [← h] at hi
    refine ⟨outputs.values[i], ?_⟩
    rw [Signals.get, List.getElem?_eq_getElem hi]
  cases p with
  | platform odometer drive targets =>
    obtain ⟨linear, h₀⟩ := hget 0 (by simp [outputWidth])
    obtain ⟨angular, h₁⟩ := hget 1 (by simp [outputWidth])
    obtain ⟨linear', h₂⟩ := hget 2 (by simp [outputWidth])
    obtain ⟨angular', h₃⟩ := hget 3 (by simp [outputWidth])
    refine ⟨⟨.speed linear angular, .speed linear' angular'⟩, ?_⟩
    simp only [demand, h₀, h₁, h₂, h₃, ok_bind]
  | motor encoder =>
    obtain ⟨linear, h₀⟩ := hget 0 (by simp [outputWidth])
    obtain ⟨linear', h₁⟩ := hget 1 (by simp [outputWidth])
    refine ⟨⟨.speed linear 0, .speed linear' 0⟩, ?_⟩
    simp only [demand, h₀, h₁, ok_bind]

end Plant

/-- A duty is brought into a band, whatever it is. -/
theorem DriveSettings.shapeDuty_answers {α : Type} [Scalar α] {s : DriveSettings α}
    (h : s.minDuty ≤ s.maxDuty) (duty : α) : ∃ shaped, s.shapeDuty duty = .ok shaped := by
  unfold shapeDuty
  by_cases hzero : duty == 0 || !isFinite duty
  · exact ⟨0, if_pos hzero⟩
  · rw [if_neg hzero, clamp?, if_pos h]
    exact ⟨_, rfl⟩

/-- With a band for the duties, every command can be given. -/
theorem Plant.actuation_answers {α σ : Type} [Scalar α] {p : Plant α σ} (h : p.Banded)
    (command : Polar α) : ∃ commands, p.actuation command = .ok commands := by
  cases p with
  | motor encoder => exact ⟨_, rfl⟩
  | platform odometer drive targets =>
    obtain ⟨left, hleft⟩ := DriveSettings.shapeDuty_answers h (drive.rawDuties command).left
    obtain ⟨right, hright⟩ := DriveSettings.shapeDuty_answers h (drive.rawDuties command).right
    refine ⟨(⟨left, right⟩ : Wheels α).toList, ?_⟩
    simp only [Plant.actuation, DriveSettings.duties, hleft, hright, ok_bind]

/-- Hooks that never give a cycle up. -/
def Hooks.Willing {α σ : Type} (h : Hooks α σ) : Prop :=
  ∀ state world, ∃ state' world', h.beforeControl state world = (.ok state', world')

theorem Hooks.idle_willing {α σ : Type} : (Hooks.idle : Hooks α σ).Willing :=
  fun state world => ⟨state, world, rfl⟩

/-! ## Trees -/

namespace StandardTree

variable {α : Type} [Scalar α]

/-- The tree of a vehicle has thirteen inputs and four outputs. -/
theorem platform_ends {s : PlatformSettings α} (h : s.Checked) {period : α} {tree : Node α}
    (htree : platform s period = .ok tree) : tree.inputCount = 13 ∧ tree.outputCount = 4 := by
  unfold platform axis speedStages at htree
  rw [straightMove_eq_ofLaw h.straightMove, pid_eq_ofLaw h.linearPosition,
    pid_eq_ofLaw h.linearSpeed, pid_eq_ofLaw h.angularPosition, pid_eq_ofLaw h.angularSpeed,
    speedRamp_eq_ofLaw h.linearRamp, speedRamp_eq_ofLaw h.angularRamp] at htree
  cases htree
  exact ⟨rfl, rfl⟩

/-- The tree of an axis has six inputs and two outputs. -/
theorem motor_ends {s : MotorSettings α} (h : s.Checked) {period : α} {tree : Node α}
    (htree : motor s period = .ok tree) : tree.inputCount = 6 ∧ tree.outputCount = 2 := by
  unfold motor speedStages at htree
  rw [pid_eq_ofLaw h.position, pid_eq_ofLaw h.speed, speedRamp_eq_ofLaw h.ramp] at htree
  cases htree
  exact ⟨rfl, rfl⟩

end StandardTree

namespace Engine

variable {α σ : Type} [Scalar α] {e e' e'' : Engine α σ}

/-! ## Runs that go on -/

/-- The engine after operations, those cycles among them that were given up. -/
def attemptAll (e : Engine α σ) (operations : List (Operation α)) : Engine α σ :=
  operations.foldl (fun e operation => left (e.perform operation)) e

/-- What requests and cycles keep, any operations keep. -/
theorem attemptAll_invariant {I : Engine α σ → Prop}
    (hrequest : ∀ e what, I e → I (e.request what)) (hstep : ∀ e, I e → I (left e.step))
    {operations : List (Operation α)} (h : I e) : I (e.attemptAll operations) := by
  induction operations generalizing e with
  | nil => exact h
  | cons operation rest ih =>
    cases operation with
    | step => exact ih (hstep e h)
    | request what => exact ih (hrequest e what h)

omit [Scalar α] in
/-- What the first step leaves, and what the second makes of it. -/
theorem left_bind {I : Engine α σ → Prop} {x : Except (Interrupted α σ) (Engine α σ)}
    {f : Engine α σ → Except (Interrupted α σ) (Engine α σ)} (hx : I (left x))
    (hf : ∀ e, x = .ok e → I (left (f e))) : I (left (x >>= f)) := by
  cases x with
  | ok e => exact hf e rfl
  | error interrupted => exact hx

/-- What is there once the measurement is taken, and neither the hooks nor the command take away,
is there after the first half of a cycle, finished or given up. -/
theorem left_controlled {I : Engine α σ → Prop} (hsensed : I e.tick.followPath.sense)
    (hready : ∀ {e outcome}, Readied e outcome → I e → I (left outcome))
    (hsteered : ∀ {e e'}, Steered e e' → I e → I e')
    (hafter : ∀ e, I e → I e.afterControl) : I (left e.controlled) := by
  have hbefore := hready (beforeControl_spec _) hsensed
  refine left_bind hbefore fun ready hok => ?_
  rw [hok] at hbefore
  have hdriven := hsteered ready.control_spec hbefore
  refine left_bind hdriven fun driven hok => ?_
  rw [hok] at hdriven
  exact hafter driven hdriven

/-- What the first half of a cycle comes to is looked at only if it is finished. -/
theorem left_step {I : Engine α σ → Prop} (h : I (left e.controlled))
    (hsupervised : ∀ c, I c → I c.supervised) : I (left e.step) := by
  rw [step_eq]
  cases hc : e.controlled with
  | ok c =>
    rw [hc] at h
    exact hsupervised c h
  | error interrupted =>
    rw [hc] at h
    exact h

/-! ## What is never lost -/

/-- The surroundings are the same, and a tree that is sound is so still, with the same ends. -/
structure Maintained (e e' : Engine α σ) : Prop where
  plant : e'.plant = e.plant
  actuators : e'.actuators = e.actuators
  hooks : e'.hooks = e.hooks
  tree : Node.Sound Law.Checked e.tree → Node.Kept Law.Checked e.tree e'.tree

namespace Maintained

theorem refl (e : Engine α σ) : Maintained e e := ⟨rfl, rfl, rfl, .refl⟩

theorem trans (h : Maintained e e') (h' : Maintained e' e'') : Maintained e e'' where
  plant := h'.plant.trans h.plant
  actuators := h'.actuators.trans h.actuators
  hooks := h'.hooks.trans h.hooks
  tree hsound :=
    have hkept := h.tree hsound
    have hkept' := h'.tree hkept.sound
    ⟨hkept'.sound, hkept.ends.trans hkept'.ends⟩

end Maintained

theorem enter_maintained (e : Engine α σ) (target : Mode) : Maintained e (e.enter target) := by
  cases target with
  | stop | idle | blocked | running | runningSpeed | passthrough =>
    exact ⟨rfl, rfl, rfl, fun h => h.reset Law.Checked.invariant⟩

theorem arrive_maintained (e : Engine α σ) (event : ModeEvent) (target : Mode) :
    Maintained e (e.arrive event target) := by
  have hmoved : Maintained e { e with machine := e.machine.move event target } :=
    ⟨rfl, rfl, rfl, .refl⟩
  refine arrive_cases (fun _ => hmoved) (fun _ => ?_) fun _ _ hentered => ?_
  · exact hmoved.trans (enter_maintained _ target)
  · exact hentered.trans ⟨rfl, rfl, rfl, .refl⟩

theorem accept_maintained {event : ModeEvent} (h : e.accept event = .ok e') :
    Maintained e e' := by
  obtain ⟨target, -, rfl⟩ := accept_eq_ok_iff.mp h
  exact arrive_maintained e event target

/-- A command is an accepted event, and nothing that follows it touches the tree. -/
theorem command_maintained {event : ModeEvent} {after : Engine α σ → Engine α σ}
    (h : (do
      let e ← e.accept event
      .ok (after e)) = .ok e')
    (hafter : ∀ e, Maintained e (after e)) : Maintained e e' := by
  obtain ⟨arrived, haccept, hset⟩ := bind_eq_ok_iff.mp h
  cases hset
  exact (accept_maintained haccept).trans (hafter arrived)

theorem requestMode_maintained {mode : Mode} (h : e.requestMode mode = .ok e') :
    Maintained e e' := by
  obtain ⟨event, haccept⟩ | ⟨event, arrived, haccept, rfl⟩ := requestMode_cases h
  · exact accept_maintained haccept
  · exact (accept_maintained haccept).trans ⟨rfl, rfl, rfl, .refl⟩

theorem disable_maintained (e : Engine α σ) : Maintained e e.disable := by
  obtain hrefused | haccept := disable_cases e
  · rw [hrefused]
    exact .refl e
  · exact accept_maintained haccept

theorem setPoseTarget_maintained {target : PathPose α} (h : e.setPoseTarget target = .ok e') :
    Maintained e e' :=
  command_maintained h fun _ => ⟨rfl, rfl, rfl, .refl⟩

/-- No request takes anything away from the engine. -/
theorem request_maintained (e : Engine α σ) (what : Request α) :
    Maintained e (e.request what) := by
  cases what with
  | handle event => exact granted_cases (.refl e) fun _ => accept_maintained
  | requestMode mode => exact granted_cases (.refl e) fun _ => requestMode_maintained
  | enable => exact granted_cases (.refl e) fun _ => accept_maintained
  | disable => exact disable_maintained e
  | dropCommand => exact granted_cases (.refl e) fun _ => accept_maintained
  | recover => exact granted_cases (.refl e) fun _ => accept_maintained
  | setPoseTarget target => exact granted_cases (.refl e) fun _ => setPoseTarget_maintained
  | setSpeedTarget order =>
    exact granted_cases (.refl e) fun _ h => command_maintained h fun _ => ⟨rfl, rfl, rfl, .refl⟩
  | setPassthrough order =>
    exact granted_cases (.refl e) fun _ h => command_maintained h fun _ => ⟨rfl, rfl, rfl, .refl⟩
  | setSpeedOrder order => exact ⟨rfl, rfl, rfl, .refl⟩
  | setPose pose => exact ⟨rfl, rfl, rfl, .refl⟩
  | setPathFollow enabled => exact ⟨rfl, rfl, rfl, .refl⟩
  | setParameters leaf settings =>
    refine granted_cases (.refl e) fun e' h => ?_
    obtain ⟨tree, htree, hset⟩ := bind_eq_ok_iff.mp h
    cases hset
    exact ⟨rfl, rfl, rfl, fun hsound =>
      hsound.setParameters Law.Checked.invariant (mapError_eq_ok_iff.mp htree)⟩
  | setStallSettings settings =>
    refine granted_cases (.refl e) fun e' h => ?_
    rw [setStallSettings_eq_ok h]
    by_cases henabled : settings.enabled
    · rw [if_pos henabled]
      exact ⟨rfl, rfl, rfl, .refl⟩
    · rw [if_neg henabled]
      exact ⟨rfl, rfl, rfl, .refl⟩
  | setArrivalSettings settings =>
    refine granted_cases (.refl e) fun e' h => ?_
    obtain ⟨_, -, hset⟩ := bind_eq_ok_iff.mp h
    cases hset
    exact ⟨rfl, rfl, rfl, .refl⟩
  | setTimeoutSettings settings =>
    refine granted_cases (.refl e) fun e' h => ?_
    obtain ⟨_, -, hset⟩ := bind_eq_ok_iff.mp h
    cases hset
    exact ⟨rfl, rfl, rfl, .refl⟩

/-! ## The phases of a cycle -/

theorem Looked.maintained {next : Option (PathPose α) × Engine α σ} (h : Looked e next) :
    Maintained e next.2 := by
  cases h with
  | nothing => exact .refl e
  | first targets unloaded current => exact ⟨rfl, rfl, rfl, .refl⟩
  | dropped targets loaded reached free => exact ⟨rfl, rfl, rfl, .refl⟩

theorem followPath_maintained (e : Engine α σ) : Maintained e e.followPath := by
  cases followPath_spec e with
  | looked look => exact look.maintained
  | loaded loads look accepted => exact look.maintained.trans (setPoseTarget_maintained accepted)

/-- The engine before the tree is asked. -/
theorem sensed_maintained (e : Engine α σ) : Maintained e e.tick.followPath.sense := by
  have hticked : Maintained e e.tick := ⟨rfl, rfl, rfl, .refl⟩
  have hsensed : Maintained e.tick.followPath e.tick.followPath.sense := ⟨rfl, rfl, rfl, .refl⟩
  exact (hticked.trans (followPath_maintained e.tick)).trans hsensed

theorem Readied.maintained {outcome : Except (Interrupted α σ) (Engine α σ)}
    (h : Readied e outcome) : Maintained e (left outcome) := by
  cases h with
  | failed ran => exact ⟨rfl, rfl, rfl, .refl⟩
  | ready ran => exact ⟨rfl, rfl, rfl, .refl⟩

omit [Scalar α] in
/-- Willing hooks do not give up. -/
theorem beforeControl_finishes (h : e.hooks.Willing) : ∃ e', e.beforeControl = .ok e' := by
  obtain ⟨state, world, hran⟩ := h e.state e.world
  unfold beforeControl
  rw [hran]
  exact ⟨_, rfl⟩

theorem drive_maintained (e : Engine α σ) : Maintained e (left e.drive) := by
  unfold drive
  cases e.plant.actuation e.state.command with
  | ok commands => exact ⟨rfl, rfl, rfl, .refl⟩
  | error fault => exact .refl e

/-- With a band, a command is not given up. -/
theorem drive_finishes (h : e.plant.Banded) : ∃ e', e.drive = .ok e' := by
  obtain ⟨commands, hcommands⟩ := Plant.actuation_answers h e.state.command
  unfold drive
  rw [hcommands]
  exact ⟨_, rfl⟩

theorem StallLook.maintained (h : StallLook e e') : Maintained e e' := by
  cases h with
  | counted stall => exact ⟨rfl, rfl, rfl, .refl⟩
  | tripped accepted =>
    have hblocked := accept_maintained accepted
    exact ⟨hblocked.plant, hblocked.actuators, hblocked.hooks, hblocked.tree⟩

theorem ArrivalLook.maintained (h : ArrivalLook e e') : Maintained e e' := by
  cases h with
  | before reached => exact .refl e
  | away unreached judged moving => exact ⟨rfl, rfl, rfl, .refl⟩
  | arrived unreached judged there shown => exact ⟨rfl, rfl, rfl, .refl⟩

theorem TimeoutLook.maintained (h : TimeoutLook e e') : Maintained e e' := by
  cases h with
  | pending => exact .refl e
  | expired unreached expired entered =>
    rw [entered]
    have hforced : Maintained e ({ e with machine := e.machine.forceIdle } : Engine α σ) :=
      ⟨rfl, rfl, rfl, .refl⟩
    have hidle := hforced.trans (enter_maintained _ e.machine.forceIdle.mode)
    exact hidle.trans ⟨rfl, rfl, rfl, .refl⟩

theorem supervised_maintained (e : Engine α σ) : Maintained e e.supervised :=
  supervised_invariant (fun hlook h => h.trans hlook.maintained)
    (fun hlook h => h.trans hlook.maintained) (fun hlook h => h.trans hlook.maintained)
    (fun h => h.trans ⟨rfl, rfl, rfl, .refl⟩) (.refl e)

/-! ## Engines whose tree fits -/

/-- The tree is sound, and takes and gives as many signals as the plant has for it. -/
structure Operable (e : Engine α σ) : Prop where
  tree : Node.Sound Law.Checked e.tree
  inputs : e.tree.inputCount = e.plant.inputWidth
  outputs : e.tree.outputCount = e.plant.outputWidth

namespace Operable

/-- An engine stays operable as long as it is maintained. -/
theorem of_maintained (h : Operable e) (hkept : Maintained e e') : Operable e' where
  tree := (hkept.tree h.tree).sound
  inputs := by
    rw [(hkept.tree h.tree).ends.inputCount, hkept.plant]
    exact h.inputs
  outputs := by
    rw [(hkept.tree h.tree).ends.outputCount, hkept.plant]
    exact h.outputs

variable [LawfulScalar α]

/-- The tree answers whatever was measured, and gives the plant what it needs. -/
theorem consultTree (h : Operable e) (speedMode : Bool) :
    ∃ e', e.consultTree speedMode = .ok e' ∧ Maintained e e' := by
  have hinputs : (e.plant.treeInputs e.state speedMode).length = e.tree.inputCount := by
    rw [h.inputs]
    exact e.plant.length_treeInputs e.state speedMode
  -- A sound tree answers any signals of its width, and stays sound with the same ends.
  obtain ⟨⟨outputs, tree⟩, _, hrespond, -, -, hkept, -⟩ :=
    (h.tree.respond Law.Checked.invariant hinputs).answers Law.Checked.answering
  have houtputs : tree.outputs = .ok outputs := by
    rw [Node.respond_eq] at hrespond
    obtain ⟨_, -, hread⟩ := bind_eq_ok_iff.mp hrespond
    obtain ⟨_, hread, hpair⟩ := bind_eq_ok_iff.mp hread
    cases hpair
    exact hread
  have hwidth : outputs.length = e.plant.outputWidth := by
    rw [← h.outputs, ← hkept.ends.outputCount, Node.outputCount, houtputs]
  obtain ⟨demand, hdemand⟩ := e.plant.demand_answers hwidth
  refine ⟨{ e with
    tree
    state := { e.state with command := demand.command, filtered := demand.filtered } }, ?_,
    rfl, rfl, rfl, fun _ => hkept⟩
  unfold Engine.consultTree
  rw [hrespond, ok_bind]
  dsimp only
  rw [hdemand, ok_bind]

/-- Regulation maintains an engine, and with a band it finishes. -/
theorem regulate (h : Operable e) (speedMode : Bool) :
    Maintained e (left (e.regulate speedMode)) ∧
      (e.plant.Banded → ∃ e', e.regulate speedMode = .ok e') := by
  obtain ⟨consulted, hconsult, hkept⟩ := h.consultTree speedMode
  have hregulate : e.regulate speedMode = consulted.drive := by
    unfold Engine.regulate
    rw [hconsult]
    rfl
  rw [hregulate]
  refine ⟨hkept.trans (drive_maintained consulted), fun hband => drive_finishes ?_⟩
  rw [hkept.plant]
  exact hband

/-- So does the main part of a cycle. -/
theorem control (h : Operable e) :
    Maintained e (left e.control) ∧ (e.plant.Banded → ∃ e', e.control = .ok e') := by
  unfold Engine.control
  cases e.mode with
  | running => exact h.regulate false
  | runningSpeed => exact h.regulate true
  | stop | idle | blocked => exact ⟨⟨rfl, rfl, rfl, .refl⟩, fun _ => ⟨_, rfl⟩⟩
  | passthrough =>
    show Maintained e (left e.forward) ∧ (e.plant.Banded → ∃ e', e.forward = .ok e')
    have hordered : Maintained e { e with
        state := { e.state with command := e.state.order, filtered := e.state.order } } :=
      ⟨rfl, rfl, rfl, .refl⟩
    exact ⟨hordered.trans (drive_maintained _), fun hband => drive_finishes hband⟩

theorem controlled_maintained (h : Operable e) : Maintained e (left e.controlled) := by
  have hready := (sensed_maintained e).trans (beforeControl_spec _).maintained
  refine left_bind hready fun ready hok => ?_
  rw [hok] at hready
  change Maintained e ready at hready
  have hcontrolled := hready.trans (h.of_maintained hready).control.1
  refine left_bind hcontrolled fun driven hok => ?_
  rw [hok] at hcontrolled
  exact hcontrolled.trans ⟨rfl, rfl, rfl, .refl⟩

/-- No cycle takes anything away from the engine, not even one that is given up. -/
theorem step_maintained (h : Operable e) : Maintained e (left e.step) :=
  left_step h.controlled_maintained fun c hkept => hkept.trans (supervised_maintained c)

/-- Nothing that is done with an engine takes anything away from it. -/
theorem attemptAll_maintained (h : Operable e) (operations : List (Operation α)) :
    Maintained e (e.attemptAll operations) :=
  attemptAll_invariant (fun _ what hkept => hkept.trans (request_maintained _ what))
    (fun _ hkept => hkept.trans (h.of_maintained hkept).step_maintained) (.refl e)

/-- An operable engine with willing hooks comes to the end of its control. -/
theorem controlled_finishes (h : Operable e) (hhooks : e.hooks.Willing)
    (hband : e.plant.Banded) : ∃ e', e.controlled = .ok e' := by
  have hsensed := sensed_maintained e
  have hready := hsensed.trans (beforeControl_spec e.tick.followPath.sense).maintained
  obtain ⟨ready, hok⟩ := beforeControl_finishes (hsensed.hooks ▸ hhooks)
  rw [hok] at hready
  change Maintained e ready at hready
  obtain ⟨driven, hdriven⟩ := (h.of_maintained hready).control.2 (hready.plant ▸ hband)
  unfold Engine.controlled
  rw [hok, ok_bind, hdriven]
  exact ⟨_, rfl⟩

/-- A cycle comes to its end, whatever was measured. -/
theorem step_finishes (h : Operable e) (hhooks : e.hooks.Willing) (hband : e.plant.Banded) :
    ∃ e', e.step = .ok e' := by
  obtain ⟨c, hc⟩ := h.controlled_finishes hhooks hband
  exact ⟨c.supervised, step_eq_ok_iff.mpr ⟨c, hc, rfl⟩⟩

/-- So it comes through any number of cycles. -/
theorem steps_finish (h : Operable e) (hhooks : e.hooks.Willing) (hband : e.plant.Banded)
    (n : Nat) : ∃ e', e.steps n = .ok e' := by
  induction n generalizing e with
  | zero => exact ⟨e, rfl⟩
  | succ n ih =>
    obtain ⟨e₁, hstep⟩ := h.step_finishes hhooks hband
    have hkept := h.step_maintained
    rw [hstep] at hkept
    change Maintained e e₁ at hkept
    obtain ⟨e', hsteps⟩ := ih (h.of_maintained hkept) (hkept.hooks ▸ hhooks) (hkept.plant ▸ hband)
    refine ⟨e', ?_⟩
    rw [steps, hstep, ok_bind]
    exact hsteps

end Operable

/-! ## Built engines -/

/-- The settings of a vehicle engine passed their check. -/
theorem ofPlatform_checked {settings : PlatformSettings α} {period : α} {odometer : Odometer α σ}
    {actuators : Actuators α σ} {targets : Option (TargetSource α σ)}
    {attachments : Attachments α σ} {world : σ}
    (h : ofPlatform settings period odometer actuators targets attachments world = .ok e) :
    settings.check = .ok () := by
  obtain ⟨_, hchecked, -⟩ := bind_eq_ok_iff.mp h
  exact mapError_eq_ok_iff.mp hchecked

/-- The settings of a single-axis engine passed their check. -/
theorem ofMotor_checked {settings : MotorSettings α} {period : α} {encoder : Encoder α σ}
    {actuators : Actuators α σ} {attachments : Attachments α σ} {world : σ}
    (h : ofMotor settings period encoder actuators attachments world = .ok e) :
    settings.check = .ok () := by
  obtain ⟨_, hchecked, -⟩ := bind_eq_ok_iff.mp h
  exact mapError_eq_ok_iff.mp hchecked

/-- An engine is operable from the beginning. -/
theorem Built.operable (h : Built e) : Operable e := by
  cases h with
  | platform built =>
    have hchecked := PlatformSettings.checked (ofPlatform_checked built)
    obtain ⟨_, _, htree, rfl⟩ := ofPlatform_eq_ok built
    obtain ⟨hassembled, hvalid⟩ := StandardTree.platform_assembled htree
    obtain ⟨hinputs, houtputs⟩ := StandardTree.platform_ends hchecked htree
    exact ⟨hassembled.sound_checked hvalid, hinputs, houtputs⟩
  | motor built =>
    have hchecked := MotorSettings.checked (ofMotor_checked built)
    obtain ⟨_, _, htree, rfl⟩ := ofMotor_eq_ok built
    obtain ⟨hassembled, hvalid⟩ := StandardTree.motor_assembled htree
    obtain ⟨hinputs, houtputs⟩ := StandardTree.motor_ends hchecked htree
    exact ⟨hassembled.sound_checked hvalid, hinputs, houtputs⟩

end Engine

end MotionControl
