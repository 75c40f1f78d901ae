import MotionControl.Proofs.Engine.FaultFree
import MotionControl.Simulation.Waypoints

/-!
# Engines beside a queue of waypoints

A queue of waypoints can stand beside the rest of the world.  Whoever holds it may add waypoints
and put a hold on it between the cycles of an engine; the surroundings of the engine leave it
alone, and the engine itself takes waypoints from it in one place only.

- `Engine.Following`: the surroundings of an engine that takes its waypoints from the queue.
- `Engine.BuiltFollowing`: such an engine, fresh from its builder.
- `Hooks.Loyal`: hooks that leave the target alone.
- `Engine.PathKept`, `Engine.AimKept`: the queue is the same; the target is, too.
- `Engine.Following.request`, `Engine.Following.step`: nothing but a pose target changes the
  target, and nothing but a look for a waypoint changes the queue.
-/

namespace MotionControl

open Outcome

variable {α σ γ : Type}

/-! ## Surroundings -/

/-- The actuators next to a component of the world that they leave alone. -/
def Actuators.beside (a : Actuators α σ) : Actuators α (σ × γ) where
  apply commands w := (a.apply commands w.1, w.2)
  release w := (a.release w.1, w.2)

/-- The queue that stands beside a world, as a source of targets. -/
def TargetSource.queued : TargetSource α (σ × WaypointQueue α) :=
  WaypointQueue.source Prod.snd fun queue w => (w.1, queue)

/-- Hooks that leave the target alone.  They may change anything else, and give a cycle up. -/
structure Hooks.Loyal (h : Hooks α σ) : Prop where
  before : ∀ {state world state' world'},
    h.beforeControl state world = (.ok state', world') → state'.target = state.target
  after : ∀ state world, (h.afterControl state world).1.target = state.target

namespace Engine

/-- The queue beside the engine. -/
def waypoints (e : Engine α (σ × WaypointQueue α)) : WaypointQueue α := e.world.2

variable [Scalar α] {e e' e'' : Engine α (σ × WaypointQueue α)}

/-- The waypoints come from the queue, and the surroundings leave it alone. -/
structure Following (e : Engine α (σ × WaypointQueue α)) : Prop where
  targets : e.plant.targets? = some .queued
  sample : ∀ w, (e.plant.sample w).2.2 = w.2
  reseat : ∀ pose w, (e.plant.reseat pose w).2 = w.2
  apply : ∀ commands w, (e.actuators.apply commands w).2 = w.2
  release : ∀ w, (e.actuators.release w).2 = w.2
  beforeControl : ∀ s w, (e.hooks.beforeControl s w).2.2 = w.2
  afterControl : ∀ s w, (e.hooks.afterControl s w).2.2 = w.2
  targetReached : ∀ s w, (e.hooks.targetReached s w).2 = w.2

/-- A vehicle engine fresh from its builder, next to a queue.  Its surroundings are arbitrary,
apart from leaving the queue alone. -/
inductive BuiltFollowing (queue : WaypointQueue α) :
    Engine α (σ × WaypointQueue α) → Prop where
  | platform {settings : PlatformSettings α} {period : α} {odometer : Odometer α σ}
      {actuators : Actuators α σ} {attachments : Attachments α σ} {world : σ} {e}
      (built : ofPlatform settings period odometer.beside actuators.beside (some .queued)
        attachments.beside (world, queue) = .ok e) :
      BuiltFollowing queue e

/-- An engine that was built on a queue follows it. -/
theorem BuiltFollowing.following {queue : WaypointQueue α} (h : BuiltFollowing queue e) :
    Following e := by
  cases h with
  | platform built =>
    obtain ⟨_, _, -, rfl⟩ := ofPlatform_eq_ok built
    exact ⟨rfl, fun _ => rfl, fun _ _ => rfl, fun _ _ => rfl, fun _ => rfl, fun _ _ => rfl,
      fun _ _ => rfl, fun _ _ => rfl⟩

/-- A fresh engine has loaded no waypoint yet, and the queue is as it was. -/
theorem BuiltFollowing.unloaded {queue : WaypointQueue α} (h : BuiltFollowing queue e) :
    e.pathLoaded = false ∧ e.waypoints = queue := by
  cases h with
  | platform built =>
    obtain ⟨_, _, -, rfl⟩ := ofPlatform_eq_ok built
    exact ⟨rfl, rfl⟩

/-! ## What leaves the queue alone -/

/-- The surroundings are the same. -/
structure SameSurroundings (e e' : Engine α (σ × WaypointQueue α)) : Prop where
  plant : e'.plant = e.plant
  actuators : e'.actuators = e.actuators
  hooks : e'.hooks = e.hooks

/-- The queue is the same, too, with its first waypoint loaded or not. -/
structure PathKept (e e' : Engine α (σ × WaypointQueue α)) : Prop
    extends SameSurroundings e e' where
  waypoints : e'.waypoints = e.waypoints
  pathLoaded : e'.pathLoaded = e.pathLoaded

/-- The engine still has the same target, unless the hooks gave it another one. -/
structure AimKept (e e' : Engine α (σ × WaypointQueue α)) : Prop extends PathKept e e' where
  target : e.hooks.Loyal → e'.state.target = e.state.target

omit [Scalar α] in
theorem SameSurroundings.refl (e : Engine α (σ × WaypointQueue α)) : SameSurroundings e e :=
  ⟨rfl, rfl, rfl⟩

omit [Scalar α] in
theorem SameSurroundings.trans (h : SameSurroundings e e') (h' : SameSurroundings e' e'') :
    SameSurroundings e e'' where
  plant := h'.plant.trans h.plant
  actuators := h'.actuators.trans h.actuators
  hooks := h'.hooks.trans h.hooks

omit [Scalar α] in
theorem PathKept.refl (e : Engine α (σ × WaypointQueue α)) : PathKept e e :=
  ⟨.refl e, rfl, rfl⟩

omit [Scalar α] in
theorem PathKept.trans (h : PathKept e e') (h' : PathKept e' e'') : PathKept e e'' where
  toSameSurroundings := h.toSameSurroundings.trans h'.toSameSurroundings
  waypoints := h'.waypoints.trans h.waypoints
  pathLoaded := h'.pathLoaded.trans h.pathLoaded

omit [Scalar α] in
theorem AimKept.refl (e : Engine α (σ × WaypointQueue α)) : AimKept e e :=
  ⟨.refl e, fun _ => rfl⟩

omit [Scalar α] in
theorem AimKept.trans (h : AimKept e e') (h' : AimKept e' e'') : AimKept e e'' where
  toPathKept := h.toPathKept.trans h'.toPathKept
  target hloyal := (h'.target (h.hooks ▸ hloyal)).trans (h.target hloyal)

theorem Following.of_same (h : Following e) (hsame : SameSurroundings e e') : Following e' where
  targets := hsame.plant ▸ h.targets
  sample := hsame.plant ▸ h.sample
  reseat := hsame.plant ▸ h.reseat
  apply := hsame.actuators ▸ h.apply
  release := hsame.actuators ▸ h.release
  beforeControl := hsame.hooks ▸ h.beforeControl
  afterControl := hsame.hooks ▸ h.afterControl
  targetReached := hsame.hooks ▸ h.targetReached

/-- It goes on following whatever keeps its path. -/
theorem Following.of_kept (h : Following e) (hkept : PathKept e e') : Following e' :=
  h.of_same hkept.toSameSurroundings

omit [Scalar α] in
theorem Looked.surroundings {next : Option (PathPose α) × Engine α (σ × WaypointQueue α)}
    (h : Looked e next) : SameSurroundings e next.2 := by
  cases h with
  | nothing => exact .refl e
  | first targets unloaded current => exact ⟨rfl, rfl, rfl⟩
  | dropped targets loaded reached free => exact ⟨rfl, rfl, rfl⟩

/-! ## Requests -/

/-- What is asked of the engine leaves the path alone, and reaches nothing. -/
structure Unmoved (e e' : Engine α (σ × WaypointQueue α)) : Prop extends AimKept e e' where
  reached : e'.state.reached = true → e.state.reached = true

omit [Scalar α] in
theorem Unmoved.refl (e : Engine α (σ × WaypointQueue α)) : Unmoved e e := ⟨.refl e, id⟩

omit [Scalar α] in
theorem Unmoved.trans (h : Unmoved e e') (h' : Unmoved e' e'') : Unmoved e e'' where
  toAimKept := h.toAimKept.trans h'.toAimKept
  reached hreached := h.reached (h'.reached hreached)

omit [Scalar α] in
/-- Everything that matters to the path was left alone. -/
theorem Unmoved.of_same (hplant : e'.plant = e.plant) (hactuators : e'.actuators = e.actuators)
    (hhooks : e'.hooks = e.hooks) (hwaypoints : e'.waypoints = e.waypoints)
    (hloaded : e'.pathLoaded = e.pathLoaded) (htarget : e'.state.target = e.state.target)
    (hreached : e'.state.reached = e.state.reached) : Unmoved e e' :=
  ⟨⟨⟨⟨hplant, hactuators, hhooks⟩, hwaypoints, hloaded⟩, fun _ => htarget⟩,
    fun h => hreached.symm.trans h⟩

namespace Following

/-- Entering a mode moves neither the path nor the target. -/
theorem enter (h : Following e) (target : Mode) : Unmoved e (e.enter target) := by
  cases target with
  | stop => exact .of_same rfl rfl rfl (h.release _) rfl rfl rfl
  | idle | blocked => exact .of_same rfl rfl rfl (h.apply _ _) rfl rfl rfl
  | running | runningSpeed | passthrough => exact .of_same rfl rfl rfl rfl rfl rfl rfl

omit [Scalar α] in
/-- A command that begins has reached nothing yet. -/
theorem beginCommand_unmoved (e : Engine α (σ × WaypointQueue α)) : Unmoved e e.beginCommand :=
  ⟨⟨⟨⟨rfl, rfl, rfl⟩, rfl, rfl⟩, fun _ => rfl⟩, fun h => nomatch h⟩

theorem arrive (h : Following e) (event : ModeEvent) (target : Mode) :
    Unmoved e (e.arrive event target) := by
  have hmoved : Unmoved e { e with machine := e.machine.move event target } :=
    .of_same rfl rfl rfl rfl rfl rfl rfl
  refine arrive_cases (fun _ => hmoved) (fun _ => ?_) fun _ entered hentered => ?_
  · exact hmoved.trans ((h.of_kept hmoved.toPathKept).enter target)
  · exact hentered.trans (beginCommand_unmoved entered)

/-- Nor does an event. -/
theorem accept (h : Following e) {event : ModeEvent} (haccept : e.accept event = .ok e') :
    Unmoved e e' := by
  obtain ⟨target, -, rfl⟩ := accept_eq_ok_iff.mp haccept
  exact h.arrive event target

theorem requestMode (h : Following e) {mode : Mode} (hmode : e.requestMode mode = .ok e') :
    Unmoved e e' := by
  obtain ⟨event, haccept⟩ | ⟨event, arrived, haccept, rfl⟩ := requestMode_cases hmode
  · exact h.accept haccept
  · exact (h.accept haccept).trans (beginCommand_unmoved arrived)

theorem disable (h : Following e) : Unmoved e e.disable := by
  obtain hrefused | haccept := disable_cases e
  · rw [hrefused]
    exact .refl e
  · exact h.accept haccept

/-- An order is set as a command begins. -/
theorem orderCommand (h : Following e) {event : ModeEvent} {order : Polar α}
    (hcommand : (do
      let e ← e.accept event
      .ok ({ e with state := { e.state with order } } :
        Engine α (σ × WaypointQueue α)).beginCommand) = .ok e') : Unmoved e e' := by
  obtain ⟨arrived, haccept, hset⟩ := bind_eq_ok_iff.mp hcommand
  cases hset
  have hordered : Unmoved arrived { arrived with state := { arrived.state with order } } :=
    .of_same rfl rfl rfl rfl rfl rfl rfl
  exact (h.accept haccept).trans (hordered.trans (beginCommand_unmoved _))

/-- A request that sets no pose target leaves the path and the target alone. -/
theorem request (h : Following e) {what : Request α}
    (hwhat : ∀ target, what ≠ .setPoseTarget target) : Unmoved e (e.request what) := by
  cases what with
  | handle event => exact granted_cases (.refl e) fun _ => h.accept
  | requestMode mode => exact granted_cases (.refl e) fun _ => h.requestMode
  | enable => exact granted_cases (.refl e) fun _ => h.accept
  | disable => exact h.disable
  | dropCommand => exact granted_cases (.refl e) fun _ => h.accept
  | recover => exact granted_cases (.refl e) fun _ => h.accept
  | setPoseTarget target => exact absurd rfl (hwhat target)
  | setSpeedTarget order => exact granted_cases (.refl e) fun _ => h.orderCommand
  | setPassthrough order => exact granted_cases (.refl e) fun _ => h.orderCommand
  | setSpeedOrder order => exact .of_same rfl rfl rfl rfl rfl rfl rfl
  | setPose pose => exact .of_same rfl rfl rfl (h.reseat pose e.world) rfl rfl rfl
  | setPathFollow enabled => exact .of_same rfl rfl rfl rfl rfl rfl rfl
  | setParameters leaf settings =>
    refine granted_cases (.refl e) fun e' hset => ?_
    obtain ⟨tree, -, hset⟩ := bind_eq_ok_iff.mp hset
    cases hset
    exact .of_same rfl rfl rfl rfl rfl rfl rfl
  | setStallSettings settings =>
    refine granted_cases (.refl e) fun e' hset => ?_
    rw [setStallSettings_eq_ok hset]
    by_cases henabled : settings.enabled
    · rw [if_pos henabled]
      exact .of_same rfl rfl rfl rfl rfl rfl rfl
    · rw [if_neg henabled]
      exact .of_same rfl rfl rfl rfl rfl rfl rfl
  | setArrivalSettings settings =>
    refine granted_cases (.refl e) fun e' hset => ?_
    obtain ⟨_, -, hset⟩ := bind_eq_ok_iff.mp hset
    cases hset
    exact .of_same rfl rfl rfl rfl rfl rfl rfl
  | setTimeoutSettings settings =>
    refine granted_cases (.refl e) fun e' hset => ?_
    obtain ⟨_, -, hset⟩ := bind_eq_ok_iff.mp hset
    cases hset
    exact .of_same rfl rfl rfl rfl rfl rfl rfl

/-- A pose target leaves the path alone, and is the target then, not reached yet. -/
theorem setPoseTarget (h : Following e) {target : PathPose α}
    (hset : e.setPoseTarget target = .ok e') :
    PathKept e e' ∧ e'.state.target = target ∧ e'.state.reached = false := by
  obtain ⟨arrived, haccept, hset⟩ := bind_eq_ok_iff.mp hset
  cases hset
  exact ⟨(h.accept haccept).toPathKept.trans ⟨⟨rfl, rfl, rfl⟩, rfl, rfl⟩, rfl, rfl⟩

/-! ## Cycles -/

theorem sense (h : Following e) : AimKept e e.sense :=
  ⟨⟨⟨rfl, rfl, rfl⟩, h.sample e.world, rfl⟩, fun _ => rfl⟩

theorem beforeControl_aimKept {outcome : Except (Interrupted α (σ × WaypointQueue α))
    (Engine α (σ × WaypointQueue α))} (h : Following e) (hreadied : Readied e outcome) :
    AimKept e (left outcome) := by
  have hqueue := h.beforeControl e.state e.world
  cases hreadied with
  | failed ran =>
    rw [ran] at hqueue
    exact ⟨⟨⟨rfl, rfl, rfl⟩, hqueue, rfl⟩, fun _ => rfl⟩
  | @ready state world ran =>
    rw [ran] at hqueue
    have htarget : e.hooks.Loyal → state.target = e.state.target :=
      fun hloyal => hloyal.before ran
    exact ⟨⟨⟨rfl, rfl, rfl⟩, hqueue, rfl⟩, htarget⟩

theorem control_aimKept (h : Following e) (hsteered : Steered e e') : AimKept e e' := by
  cases hsteered with
  | shown tree command filtered => exact ⟨⟨⟨rfl, rfl, rfl⟩, rfl, rfl⟩, fun _ => rfl⟩
  | sent tree command filtered commands =>
    exact ⟨⟨⟨rfl, rfl, rfl⟩, h.apply commands e.world, rfl⟩, fun _ => rfl⟩

theorem afterControl_aimKept (h : Following e) : AimKept e e.afterControl :=
  ⟨⟨⟨rfl, rfl, rfl⟩, h.afterControl e.state e.world, rfl⟩,
    fun hloyal => hloyal.after e.state e.world⟩

theorem stall_aimKept (h : Following e) (hlook : StallLook e e') : AimKept e e' := by
  cases hlook with
  | counted stall => exact ⟨⟨⟨rfl, rfl, rfl⟩, rfl, rfl⟩, fun _ => rfl⟩
  | @tripped stall blocked accepted =>
    have hcounted : AimKept e { e with
        stall, state := { e.state with stalledCycles := stall.cycles } } :=
      ⟨⟨⟨rfl, rfl, rfl⟩, rfl, rfl⟩, fun _ => rfl⟩
    have hblocked := hcounted.trans ((h.of_kept hcounted.toPathKept).accept accepted).toAimKept
    exact hblocked.trans ⟨⟨⟨rfl, rfl, rfl⟩, rfl, rfl⟩, fun _ => rfl⟩

theorem arrival_aimKept (h : Following e) (hlook : ArrivalLook e e') : AimKept e e' := by
  cases hlook with
  | before reached => exact .refl e
  | away unreached judged moving => exact ⟨⟨⟨rfl, rfl, rfl⟩, rfl, rfl⟩, fun _ => rfl⟩
  | arrived unreached judged there shown =>
    rw [shown]
    exact ⟨⟨⟨rfl, rfl, rfl⟩, h.targetReached _ _, rfl⟩, fun _ => rfl⟩

theorem timeout_aimKept (h : Following e) (hlook : TimeoutLook e e') : AimKept e e' := by
  cases hlook with
  | pending => exact .refl e
  | expired unreached expired entered =>
    have hforced : AimKept e ({ e with machine := e.machine.forceIdle } :
        Engine α (σ × WaypointQueue α)) := ⟨⟨⟨rfl, rfl, rfl⟩, rfl, rfl⟩, fun _ => rfl⟩
    have hidle := hforced.trans
      ((h.of_kept hforced.toPathKept).enter e.machine.forceIdle.mode).toAimKept
    rw [entered]
    exact hidle.trans ⟨⟨⟨rfl, rfl, rfl⟩, rfl, rfl⟩, fun _ => rfl⟩

theorem supervised (h : Following e) : AimKept e e.supervised :=
  supervised_invariant
    (fun hlook hkept => hkept.trans ((h.of_kept hkept.toPathKept).stall_aimKept hlook))
    (fun hlook hkept => hkept.trans ((h.of_kept hkept.toPathKept).arrival_aimKept hlook))
    (fun hlook hkept => hkept.trans ((h.of_kept hkept.toPathKept).timeout_aimKept hlook))
    (fun hkept => hkept.trans ⟨⟨⟨rfl, rfl, rfl⟩, rfl, rfl⟩, fun _ => rfl⟩) (.refl e)

/-- Neither does the rest of a cycle, once the path was followed. -/
theorem controlled (h : Following e.tick.followPath) :
    AimKept e.tick.followPath (left e.controlled) := by
  have hready := h.sense.trans
    ((h.of_kept h.sense.toPathKept).beforeControl_aimKept (beforeControl_spec _))
  refine left_bind hready fun ready hok => ?_
  rw [hok] at hready
  change AimKept e.tick.followPath ready at hready
  have hdriven := hready.trans ((h.of_kept hready.toPathKept).control_aimKept ready.control_spec)
  refine left_bind hdriven fun driven hok => ?_
  rw [hok] at hdriven
  change AimKept e.tick.followPath driven at hdriven
  exact hdriven.trans (h.of_kept hdriven.toPathKept).afterControl_aimKept

/-- Once the path was followed, a cycle leaves it alone, finished or given up. -/
theorem step (h : Following e.tick.followPath) : AimKept e.tick.followPath (left e.step) :=
  left_step h.controlled fun _ hkept => hkept.trans (h.of_kept hkept.toPathKept).supervised

end Following

end Engine

end MotionControl
