import MotionControl.Proofs.Engine.FaultFree
import MotionControl.Proofs.Engine.Stalling
import MotionControl.Proofs.Tree.Plan

/-!
# What a change of mode erases

The tree of an engine is used by calls only, and whatever changes the mode resets it.  After a
change of mode, nothing in the tree tells what happened before.

- `Engine.Called`: calls to the tree lead from one engine to another, and
  `Engine.attemptAll_called`: those of any run.
- `Engine.Treated`: the tree after something that can change the mode once, and
  `Engine.request_treated`, `Engine.followPath_treated`, `Engine.stallChecked_treated`,
  `Engine.checkTarget_treated`: the four places where it can.
- `Engine.Transited`: the mode has just changed, in one of these places.
- `Configuration.planned`: engines of one configuration have trees of one plan.
- `Engine.mode_change_erases_history`: the tree after a change of mode.
-/

namespace MotionControl

open Outcome

/-- What an engine is built from, its surroundings apart. -/
inductive Configuration (α : Type) where
  | platform (settings : PlatformSettings α) (period : α)
  | motor (settings : MotorSettings α) (period : α)

namespace Engine

variable {α σ : Type} [Scalar α] {e e' e'' : Engine α σ}

/-! ## Calls to the tree -/

/-- Some calls to the tree of the first engine make it the tree of the second. -/
def Called (e e' : Engine α σ) : Prop := ∃ cs, e.tree.calls cs = .ok e'.tree

namespace Called

theorem of_eq (h : e'.tree = e.tree) : Called e e' := ⟨[], by rw [h]; rfl⟩

theorem refl (e : Engine α σ) : Called e e := .of_eq rfl

theorem trans (h : Called e e') (h' : Called e' e'') : Called e e'' := by
  obtain ⟨cs, hcs⟩ := h
  obtain ⟨cs', hcs'⟩ := h'
  refine ⟨cs ++ cs', ?_⟩
  rw [Node.calls, List.foldlM_append, ← Node.calls, hcs, ok_bind]
  exact hcs'

theorem of_call {c : TreeCall α} (h : e.tree.call c = .ok e'.tree) : Called e e' :=
  ⟨[c], by rw [Node.calls, List.foldlM_cons, h]; rfl⟩

end Called

/-- A cycle of the tree is a call. -/
theorem consultTree_called {speedMode : Bool} (h : e.consultTree speedMode = .ok e') :
    Called e e' := by
  obtain ⟨⟨outputs, tree⟩, hrespond, h⟩ := bind_eq_ok_iff.mp h
  obtain ⟨demand, -, h⟩ := bind_eq_ok_iff.mp h
  cases h
  obtain ⟨written, hwritten, hrespond⟩ := bind_eq_ok_iff.mp hrespond
  obtain ⟨computed, hcomputed, hrespond⟩ := bind_eq_ok_iff.mp hrespond
  obtain ⟨_, -, hrespond⟩ := bind_eq_ok_iff.mp hrespond
  cases hrespond
  -- one answer of the tree is two calls to it
  refine ⟨[.setInputs (e.plant.treeInputs e.state speedMode), .compute], ?_⟩
  rw [Node.calls, List.foldlM_cons, Node.call, hwritten, ok_bind, List.foldlM_cons, Node.call,
    hcomputed]
  rfl

/-- Sending a command shows nothing new. -/
theorem drive_shown (e : Engine α σ) :
    (left e.drive).state = e.state ∧ (left e.drive).tree = e.tree := by
  unfold drive
  cases e.plant.actuation e.state.command with
  | ok commands => exact ⟨rfl, rfl⟩
  | error fault => exact ⟨rfl, rfl⟩

/-- Regulation calls the tree once, or not at all. -/
theorem regulate_called (e : Engine α σ) (speedMode : Bool) :
    Called e (left (e.regulate speedMode)) := by
  unfold regulate
  cases hconsult : e.consultTree speedMode with
  | error fault => exact .refl e
  | ok consulted => exact (consultTree_called hconsult).trans (.of_eq consulted.drive_shown.2)

theorem control_called (e : Engine α σ) : Called e (left e.control) := by
  unfold control
  cases e.mode with
  | running => exact e.regulate_called false
  | runningSpeed => exact e.regulate_called true
  | passthrough => exact .of_eq (drive_shown _).2
  | idle | blocked | stop => exact .of_eq rfl

/-! ## The places where the mode can change -/

/-- What becomes of the tree where the mode can change once: calls in any case, and a reset if
it does change. -/
structure Treated (e e' : Engine α σ) : Prop where
  called : Called e e'
  erased : e'.mode ≠ e.mode → e'.tree = e.tree.reset

namespace Treated

theorem of_eq (htree : e'.tree = e.tree) (hmode : e'.mode = e.mode) : Treated e e' :=
  ⟨.of_eq htree, fun hchanged => absurd hmode hchanged⟩

theorem refl (e : Engine α σ) : Treated e e := .of_eq rfl rfl

theorem of_reset (h : e'.tree = e.tree.reset) : Treated e e' :=
  ⟨.of_call (c := .reset) (congrArg Except.ok h.symm), fun _ => h⟩

/-- Before it, nothing happened to the tree or to the mode. -/
theorem after_same {found : Engine α σ} (h : Treated found e') (htree : found.tree = e.tree)
    (hmode : found.mode = e.mode) : Treated e e' where
  called := (Called.of_eq htree).trans h.called
  erased := by
    rw [← hmode, ← htree]
    exact h.erased

/-- Nor after it. -/
theorem before_same (h : Treated e e') (htree : e''.tree = e'.tree)
    (hmode : e''.mode = e'.mode) : Treated e e'' where
  called := h.called.trans (.of_eq htree)
  erased := by
    rw [hmode, htree]
    exact h.erased

end Treated

/-- Entering a mode resets the tree. -/
theorem enter_tree (e : Engine α σ) (target : Mode) : (e.enter target).tree = e.tree.reset := by
  cases target with
  | stop | idle | blocked | running | runningSpeed | passthrough => rfl

/-- A change of mode comes with a reset. -/
theorem arrive_treated (e : Engine α σ) (event : ModeEvent) (target : Mode) :
    Treated e (e.arrive event target) := by
  refine arrive_cases (fun hsame => .of_eq rfl hsame.symm) (fun _ => ?_) fun _ entered h => ?_
  · exact .of_reset (enter_tree _ target)
  · exact h.before_same rfl rfl

/-- So does every event that changes it. -/
theorem accept_treated {event : ModeEvent} (h : e.accept event = .ok e') : Treated e e' := by
  obtain ⟨target, -, rfl⟩ := accept_eq_ok_iff.mp h
  exact arrive_treated e event target

/-- A command is an accepted event, and nothing that follows it touches the tree or the mode. -/
theorem command_treated {event : ModeEvent} {after : Engine α σ → Engine α σ}
    (h : (do
      let e ← e.accept event
      .ok (after e)) = .ok e')
    (hafter : ∀ e, (after e).tree = e.tree ∧ (after e).mode = e.mode) : Treated e e' := by
  obtain ⟨arrived, haccept, hset⟩ := bind_eq_ok_iff.mp h
  cases hset
  exact (accept_treated haccept).before_same (hafter arrived).1 (hafter arrived).2

theorem setPoseTarget_treated {target : PathPose α} (h : e.setPoseTarget target = .ok e') :
    Treated e e' :=
  command_treated h fun _ => ⟨rfl, rfl⟩

theorem requestMode_treated {mode : Mode} (h : e.requestMode mode = .ok e') : Treated e e' := by
  obtain ⟨event, haccept⟩ | ⟨event, arrived, haccept, rfl⟩ := requestMode_cases h
  · exact accept_treated haccept
  · exact (accept_treated haccept).before_same rfl rfl

theorem disable_treated (e : Engine α σ) : Treated e e.disable := by
  obtain hrefused | haccept := disable_cases e
  · rw [hrefused]
    exact .refl e
  · exact accept_treated haccept

/-- A block that the tree accepts is a call to it. -/
theorem setParameters_treated {leaf : String} {settings : LawSettings α}
    (h : e.setParameters leaf settings = .ok e') : Treated e e' := by
  obtain ⟨tree, htree, hset⟩ := bind_eq_ok_iff.mp h
  cases hset
  refine ⟨.of_call (c := .setParameters leaf settings) ?_, fun hchanged => absurd rfl hchanged⟩
  rw [Node.call, mapError_eq_ok_iff.mp htree]
  rfl

/-- Whatever is requested, the tree is reset when the mode changes. -/
theorem request_treated (e : Engine α σ) (what : Request α) : Treated e (e.request what) := by
  cases what with
  | handle event => exact granted_cases (.refl e) fun _ => accept_treated
  | requestMode mode => exact granted_cases (.refl e) fun _ => requestMode_treated
  | enable => exact granted_cases (.refl e) fun _ => accept_treated
  | disable => exact disable_treated e
  | dropCommand => exact granted_cases (.refl e) fun _ => accept_treated
  | recover => exact granted_cases (.refl e) fun _ => accept_treated
  | setPoseTarget target => exact granted_cases (.refl e) fun _ => setPoseTarget_treated
  | setSpeedTarget order =>
    exact granted_cases (.refl e) fun _ h => command_treated h fun _ => ⟨rfl, rfl⟩
  | setPassthrough order =>
    exact granted_cases (.refl e) fun _ h => command_treated h fun _ => ⟨rfl, rfl⟩
  | setSpeedOrder order => exact .of_eq rfl rfl
  | setPose pose => exact .of_eq rfl rfl
  | setPathFollow enabled => exact .of_eq rfl rfl
  | setParameters leaf settings => exact granted_cases (.refl e) fun _ => setParameters_treated
  | setStallSettings settings =>
    refine granted_cases (.refl e) fun e' h => ?_
    rw [setStallSettings_eq_ok h]
    by_cases henabled : settings.enabled
    · rw [if_pos henabled]
      exact .of_eq rfl rfl
    · rw [if_neg henabled]
      exact .of_eq rfl rfl
  | setArrivalSettings settings =>
    refine granted_cases (.refl e) fun e' h => ?_
    obtain ⟨_, -, hset⟩ := bind_eq_ok_iff.mp h
    cases hset
    exact .of_eq rfl rfl
  | setTimeoutSettings settings =>
    refine granted_cases (.refl e) fun e' h => ?_
    obtain ⟨_, -, hset⟩ := bind_eq_ok_iff.mp h
    cases hset
    exact .of_eq rfl rfl

omit [Scalar α] in
theorem Looked.tree {next : Option (PathPose α) × Engine α σ} (h : Looked e next) :
    next.2.tree = e.tree := by
  cases h with
  | nothing | first | dropped => rfl

theorem followPath_treated (e : Engine α σ) : Treated e e.followPath := by
  cases followPath_spec e with
  | looked look => exact .of_eq look.tree look.mode
  | loaded loads look accepted =>
    exact (setPoseTarget_treated accepted).after_same look.tree look.mode

theorem StallLook.treated (h : StallLook e e') : Treated e e' := by
  cases h with
  | counted stall => exact .of_eq rfl rfl
  | @tripped stall blocked accepted =>
    have hblocked : Treated e blocked := (accept_treated accepted).after_same rfl rfl
    exact hblocked.before_same rfl rfl

theorem ArrivalLook.tree (h : ArrivalLook e e') : e'.tree = e.tree := by
  cases h with
  | before | away | arrived => rfl

theorem TimeoutLook.treated (h : TimeoutLook e e') : Treated e e' := by
  cases h with
  | pending => exact .refl e
  | expired unreached expired entered =>
    rw [entered]
    exact .of_reset (enter_tree _ _)

theorem stallChecked_treated (e : Engine α σ) : Treated e e.stallChecked := by
  unfold stallChecked
  by_cases hregulating : e.mode.isRegulating
  · rw [if_pos hregulating]
    exact (checkStall_spec e).treated
  · rw [if_neg hregulating]
    exact .refl e

/-- Arrival leaves the tree and the mode alone, so that only the timeout is left. -/
theorem checkTarget_treated (e : Engine α σ) : Treated e e.checkTarget := by
  unfold checkTarget
  by_cases hrunning : e.mode = .running
  · rw [if_pos hrunning]
    have hlook := checkArrival_spec e
    exact (checkTimeout_spec _).treated.after_same hlook.tree hlook.alike.mode
  · rw [if_neg hrunning]
    exact .refl e

/-! ## Whole runs -/

/-- The looks at the end of a cycle call the tree for resets only. -/
theorem supervised_called (e : Engine α σ) : Called e e.supervised := by
  obtain ⟨telemetry, hpublished⟩ := publish_eq e.stallChecked.checkTarget
  rw [supervised, hpublished]
  exact (stallChecked_treated e).called.trans
    ((checkTarget_treated e.stallChecked).called.trans (.of_eq rfl))

theorem Readied.called {outcome : Except (Interrupted α σ) (Engine α σ)}
    (h : Readied e outcome) : Called e (left outcome) := by
  cases h with
  | failed | ready => exact .of_eq rfl

theorem tick_followPath_called (e : Engine α σ) : Called e e.tick.followPath :=
  (Called.of_eq rfl).trans (followPath_treated e.tick).called

theorem controlled_called (e : Engine α σ) : Called e (left e.controlled) := by
  have hsensed : Called e e.tick.followPath.sense := (tick_followPath_called e).trans (.of_eq rfl)
  have hready := hsensed.trans (beforeControl_spec e.tick.followPath.sense).called
  refine left_bind hready fun ready hok => ?_
  rw [hok] at hready
  have hdriven := Called.trans hready (control_called ready)
  refine left_bind hdriven fun driven hok => ?_
  rw [hok] at hdriven
  exact Called.trans hdriven (.of_eq rfl)

/-- A whole cycle does nothing to the tree but calls. -/
theorem step_called (e : Engine α σ) : Called e (left e.step) :=
  left_step (controlled_called e) fun c hcalled => hcalled.trans (supervised_called c)

/-- Requests and cycles, finished or given up, are calls to the tree. -/
theorem attemptAll_called (e : Engine α σ) (operations : List (Operation α)) :
    Called e (e.attemptAll operations) :=
  attemptAll_invariant (fun _ what h => h.trans (request_treated _ what).called)
    (fun e h => h.trans (step_called e)) (.refl e)

/-! ## Changes of mode -/

/-- The engine has just changed its mode: by a request, by the waypoint at the beginning of a
cycle, or by the stall or the timeout at its end. -/
inductive Transited (e : Engine α σ) : Engine α σ → Prop where
  | requested {what} (changed : (e.request what).mode ≠ e.mode) : Transited e (e.request what)
  | loaded (changed : e.tick.followPath.mode ≠ e.mode) : Transited e e.tick.followPath
  | stalled {c} (controlled : e.controlled = .ok c) (changed : c.stallChecked.mode ≠ c.mode) :
      Transited e c.stallChecked
  | expired {c} (controlled : e.controlled = .ok c)
      (changed : c.stallChecked.checkTarget.mode ≠ c.stallChecked.mode) :
      Transited e c.stallChecked.checkTarget

namespace Transited

/-- So does whatever leads from one mode to another. -/
theorem called (h : Transited e e') : Called e e' := by
  cases h with
  | requested changed => exact (request_treated e _).called
  | loaded changed => exact tick_followPath_called e
  | @stalled c controlled changed =>
    have hc := controlled_called e
    rw [controlled] at hc
    exact Called.trans hc (stallChecked_treated c).called
  | @expired c controlled changed =>
    have hc := controlled_called e
    rw [controlled] at hc
    exact (Called.trans hc (stallChecked_treated c).called).trans
      (checkTarget_treated c.stallChecked).called

/-- Wherever the mode changed, the tree was reset. -/
theorem erased (h : Transited e e') : e'.tree.reset = e'.tree := by
  have hreset {n n' : Node α} (h : n' = n.reset) : n'.reset = n' := by
    rw [h, Node.reset_reset]
  cases h with
  | requested changed => exact hreset ((request_treated e _).erased changed)
  | loaded changed => exact hreset ((followPath_treated e.tick).erased changed)
  | @stalled c controlled changed => exact hreset ((stallChecked_treated c).erased changed)
  | @expired c controlled changed =>
    exact hreset ((checkTarget_treated c.stallChecked).erased changed)

end Transited

end Engine

/-! ## Configurations -/

namespace Configuration

variable {α : Type} [Scalar α]

/-- The engine is fresh from its builder, with any surroundings. -/
inductive Makes {σ : Type} : Configuration α → Engine α σ → Prop where
  | platform {settings period odometer actuators targets attachments world e}
      (built : Engine.ofPlatform settings period odometer actuators targets attachments world
        = .ok e) : Makes (platform settings period) e
  | motor {settings period encoder actuators attachments world e}
      (built : Engine.ofMotor settings period encoder actuators attachments world = .ok e) :
      Makes (motor settings period) e

/-- What an engine of the configuration is controlled by. -/
def tree : Configuration α → Except (WiringError α) (Node α)
  | platform settings period => StandardTree.platform settings period
  | motor settings period => StandardTree.motor settings period

/-- A configuration makes a tree of typed leaves. -/
theorem tree_assembled {c : Configuration α} {n : Node α} (h : c.tree = .ok n) :
    Node.Assembled Node.TypedLeaf n := by
  cases c with
  | platform settings period => exact (StandardTree.platform_assembled h).1
  | motor settings period => exact (StandardTree.motor_assembled h).1

theorem Makes.tree {σ : Type} {c : Configuration α} {e : Engine α σ} (h : c.Makes e) :
    c.tree = .ok e.tree := by
  cases h with
  | platform built =>
    obtain ⟨_, _, htree, rfl⟩ := Engine.ofPlatform_eq_ok built
    exact htree
  | motor built =>
    obtain ⟨_, _, htree, rfl⟩ := Engine.ofMotor_eq_ok built
    exact htree

/-- Engines of one configuration have trees of one plan, whatever is done with them. -/
theorem planned (c : Configuration α) : ∃ p : Plan α,
    ∀ {σ : Type} {built e : Engine α σ}, c.Makes built → Engine.Called built e →
      p.Builds e.tree.reset := by
  cases htree : c.tree with
  | error reason =>
    -- nothing is built from such a configuration, so that any plan will do
    refine ⟨.sequential "" [], fun hmade _ => ?_⟩
    cases htree.symm.trans hmade.tree
  | ok n =>
    obtain ⟨p, hp⟩ := (tree_assembled htree).planned
    refine ⟨p, fun hmade ⟨cs, hcs⟩ => ?_⟩
    cases htree.symm.trans hmade.tree
    refine Plan.Builds.calls ?_ hcs
    rw [hp.unused.2]
    exact hp

end Configuration

namespace Engine

variable {α : Type} [Scalar α]

/-- A reset returns every tree of typed leaves to its construction, with the blocks that are in
force by then: whatever inputs were written, cycles run and blocks accepted, what is left is
what the same constructors give with these blocks.

So once the mode of an engine has changed, by a request, a waypoint, a stall or a timeout, its
configuration and its blocks determine the tree.  Two engines of one configuration, with any
surroundings and any histories, hold the same one if they have the same blocks. -/
theorem mode_change_erases_history :
    (∀ n : Node α, n.Assembled Node.TypedLeaf →
      (∃ p : Plan α, p.build? n.blocks = some n) ∧
        ∀ p : Plan α, p.build? n.blocks = some n → ∀ cs n', n.calls cs = .ok n' →
          p.build? n'.blocks = some n'.reset) ∧
      ∀ (c : Configuration α) {σ τ : Type} {built : Engine α σ} {built' : Engine α τ},
        c.Makes built → c.Makes built' → ∀ {operations operations' e e'},
          Transited (built.attemptAll operations) e →
          Transited (built'.attemptAll operations') e' →
          e.tree.blocks = e'.tree.blocks → e.tree = e'.tree := by
  constructor
  · intro n hn
    constructor
    · obtain ⟨p, hp⟩ := hn.planned
      exact ⟨p, Plan.build?_eq_some_iff.mpr ⟨hp, rfl⟩⟩
    · intro p hbuild cs n' hcs
      have hp := (Plan.build?_eq_some_iff.mp hbuild).1
      -- an assembled tree was never used, so that it is its own reset
      have hreset : p.Builds n.reset := by
        rw [hp.unused.2]
        exact hp
      exact Plan.build?_eq_some_iff.mpr ⟨hreset.calls hcs, (Node.blocks_reset n').symm⟩
  · intro c σ τ built built' hmade hmade' operations operations' e e' h h' hblocks
    obtain ⟨p, hp⟩ := c.planned
    -- both trees are their own resets, of one plan and with the same blocks
    have hbuilds := hp hmade ((attemptAll_called built operations).trans h.called)
    have hbuilds' := hp hmade' ((attemptAll_called built' operations').trans h'.called)
    rw [h.erased] at hbuilds
    rw [h'.erased] at hbuilds'
    have hbuild := Plan.build?_eq_some_iff.mpr ⟨hbuilds, rfl⟩
    rw [hblocks, Plan.build?_eq_some_iff.mpr ⟨hbuilds', rfl⟩] at hbuild
    exact (Option.some.inj hbuild).symm

deriving instance DecidableEq for PidGains, StraightMoveSettings, RampSettings, LawSettings

/-- The stuck axis gets other gains before it stalls. -/
def retunedAndStalled : List (Operation Float) :=
  .request (.setParameters "speed_pid" (.pid ⟨2, 1, 0, 5⟩)) :: almostStalled

/-- An axis that always turns. -/
def turningLift : Except (EngineError Float) (Engine Float Unit) :=
  ofMotor (.named "lift") 1 ⟨fun _ => (⟨3, 40⟩, ()), fun _ _ => ()⟩ slackActuators .none ()

/-- It gets the same gains in the middle of its work. -/
def retunedAtWork : List (Operation Float) :=
  [.request .enable, .request (.setPoseTarget (.final (.of 20 0 0))), .step,
    .request (.setParameters "speed_pid" (.pid ⟨2, 1, 0, 5⟩)), .step, .step]

/-- The blocks of either axis after that. -/
def retunedBlocks : List (LawSettings Float) :=
  [.pid (MotorSettings.named "lift").position, .speedRamp (MotorSettings.named "lift").ramp,
    .pid ⟨2, 1, 0, 5⟩]

/-- A cascade works on values that are not numbers, and gets another ramp. -/
def retunedCascade : List (TreeCall Float) :=
  [.setInputs [0 / 0, 1 / 0, 1], .compute, .setParameters "ramp" (.speedRamp ⟨2, 1, 1⟩), .compute]

/-- The cascade is what it was built to be once it is reset, but for its ramp.  One axis stalls
and the other is disabled: they have the same tree then. -/
theorem retuned_lifts_forget :
    (∃ n' p, Node.rampCascade.calls retunedCascade = .ok n' ∧
      Plan.build? p Node.rampCascade.blocks = some Node.rampCascade ∧
      Plan.build? p n'.blocks = some n'.reset) ∧
    ∃ e e' c, stuckLift = .ok e ∧ turningLift = .ok e' ∧
      (e.attemptAll retunedAndStalled).controlled = .ok c ∧ c.stallChecked.mode = .blocked ∧
      ((e'.attemptAll retunedAtWork).request .disable).mode = .stop ∧
      c.stallChecked.tree = ((e'.attemptAll retunedAtWork).request .disable).tree := by
  obtain ⟨hplans, herases⟩ := mode_change_erases_history (α := Float)
  constructor
  · obtain ⟨⟨p, hp⟩, hresets⟩ := hplans Node.rampCascade Node.rampCascade_assembled
    have hsound := Node.rampCascade_assembled.sound_checked rfl
    have hfits : ∀ c ∈ retunedCascade, c.Fits Node.rampCascade.inputCount := by
      simp [TreeCall.Fits, retunedCascade, Node.rampCascade, Node.defaultRamp, Signals.length]
    obtain ⟨n', hcalls, -⟩ := hsound.calls Law.Checked.invariant Law.Checked.answering hfits
    exact ⟨n', p, hcalls, hp, hresets p hp _ n' hcalls⟩
  · have hstalls : (stuckLift.toOption.bind fun e =>
        (e.attemptAll retunedAndStalled).controlled.toOption.map fun c =>
          (c.mode, c.stallChecked.mode, c.stallChecked.tree.blocks))
        = some (.runningSpeed, .blocked, retunedBlocks) := by decide +kernel
    have hstops : (turningLift.toOption.map fun e =>
        ((e.attemptAll retunedAtWork).mode, ((e.attemptAll retunedAtWork).request .disable).mode,
          ((e.attemptAll retunedAtWork).request .disable).tree.blocks))
        = some (.running, .stop, retunedBlocks) := by decide +kernel
    obtain ⟨e, he, hstalls⟩ := toOption_bind_eq_some_iff.mp hstalls
    obtain ⟨c, hc, hstalls⟩ := toOption_map_eq_some_iff.mp hstalls
    obtain ⟨e', he', hstops⟩ := toOption_map_eq_some_iff.mp hstops
    simp only [Prod.mk.injEq] at hstalls hstops
    obtain ⟨hbefore, hblocked, hblocks⟩ := hstalls
    obtain ⟨hbefore', hstopped, hblocks'⟩ := hstops
    have hstalled : Transited (e.attemptAll retunedAndStalled) c.stallChecked := by
      refine .stalled hc ?_
      rw [hbefore, hblocked]
      decide
    have hdisabled : Transited (e'.attemptAll retunedAtWork)
        ((e'.attemptAll retunedAtWork).request .disable) := by
      refine .requested ?_
      rw [hbefore', hstopped]
      decide
    exact ⟨e, e', c, he, he', hc, hblocked, hstopped,
      herases (.motor (.named "lift") 1) (.motor he) (.motor he') hstalled hdisabled
        (hblocks.trans hblocks'.symm)⟩

end Engine

end MotionControl
