import MotionControl.Proofs.Engine.CallLog

/-!
# Watching the surroundings of an engine

Everything that an engine calls can be watched: next to the world stands a list to which each call
is appended after it was carried out, the latest one last.

- `Call`: one call from an engine to what surrounds it.
- `Plant.watched`, `Actuators.watched`, `Hooks.watched`: surroundings that write down their calls.
- `Engine.watched`, `Engine.Watched`: an engine among watched surroundings.
- `announcedIn`, `Engine.announced`: the targets that the hook was told of.
- `Engine.Watched.announced_apply` and so on: nothing else that an engine calls is told of targets.
-/

namespace MotionControl

variable {α σ : Type}

/-- One call from an engine to what surrounds it.  A look at the waypoints cannot change anything,
and is no call. -/
inductive Call (α : Type) where
  | sample
  | reseat
  | advance
  | actuator (call : ActuatorCall α)
  | beforeControl
  | afterControl
  | targetReached (target : PathPose α)

/-- The target that the hook is told of. -/
def Call.announced? : Call α → Option (PathPose α)
  | .targetReached target => some target
  | .sample | .reseat | .advance | .actuator _ | .beforeControl | .afterControl => none

/-! ## Surroundings -/

/-- An odometer whose calls are noted. -/
def Odometer.watched (o : Odometer α σ) : Odometer α (σ × List (Call α)) where
  sample w := ((o.sample w.1).1, (o.sample w.1).2, w.2 ++ [.sample])
  reseat pose w := (o.reseat pose w.1, w.2 ++ [.reseat])

/-- An encoder whose calls are noted. -/
def Encoder.watched (n : Encoder α σ) : Encoder α (σ × List (Call α)) where
  sample w := ((n.sample w.1).1, (n.sample w.1).2, w.2 ++ [.sample])
  reseat position w := (n.reseat position w.1, w.2 ++ [.reseat])

/-- A target source whose changes are noted; looking at it changes nothing. -/
def TargetSource.watched (s : TargetSource α σ) : TargetSource α (σ × List (Call α)) where
  current w := s.current w.1
  mayAdvance w := s.mayAdvance w.1
  advance w := (s.advance w.1, w.2 ++ [.advance])

/-- A plant of which everything that it calls is noted. -/
def Plant.watched : Plant α σ → Plant α (σ × List (Call α))
  | .platform odometer drive targets =>
    .platform odometer.watched drive (targets.map TargetSource.watched)
  | .motor encoder => .motor encoder.watched

/-- Actuators whose calls are noted. -/
def Actuators.watched (a : Actuators α σ) : Actuators α (σ × List (Call α)) where
  apply commands w := (a.apply commands w.1, w.2 ++ [.actuator (.apply commands)])
  release w := (a.release w.1, w.2 ++ [.actuator .release])

/-- Hooks whose calls are noted. -/
def Hooks.watched (h : Hooks α σ) : Hooks α (σ × List (Call α)) where
  beforeControl s w :=
    ((h.beforeControl s w.1).1, (h.beforeControl s w.1).2, w.2 ++ [.beforeControl])
  afterControl s w := ((h.afterControl s w.1).1, (h.afterControl s w.1).2, w.2 ++ [.afterControl])
  targetReached s w := (h.targetReached s w.1, w.2 ++ [.targetReached s.target])

/-! ## Announcements -/

/-- The targets that the hook was told of, the latest one last. -/
def announcedIn (world : σ × List (Call α)) : List (PathPose α) :=
  world.2.filterMap Call.announced?

/-- Nothing but the hook for targets is told of them. -/
theorem announcedIn_append {world : σ} {log : List (Call α)} {call : Call α}
    (h : call.announced? = none) :
    announcedIn (world, log ++ [call]) = log.filterMap Call.announced? := by
  rw [announcedIn, List.filterMap_append, List.filterMap_cons_none h]
  exact List.append_nil _

theorem Plant.targets?_watched (p : Plant α σ) :
    p.watched.targets? = p.targets?.map TargetSource.watched := by
  cases p with
  | platform odometer drive targets => rfl
  | motor encoder => rfl

/-- A measurement announces nothing. -/
theorem Plant.announcedIn_sample [Scalar α] (p : Plant α σ) (w : σ × List (Call α)) :
    announcedIn (p.watched.sample w).2 = announcedIn w := by
  cases p with
  | platform odometer drive targets => exact announcedIn_append rfl
  | motor encoder => exact announcedIn_append rfl

theorem Plant.announcedIn_reseat (p : Plant α σ) (pose : Pose α) (w : σ × List (Call α)) :
    announcedIn (p.watched.reseat pose w) = announcedIn w := by
  cases p with
  | platform odometer drive targets => exact announcedIn_append rfl
  | motor encoder => exact announcedIn_append rfl

namespace Engine

/-- The engine among watched surroundings, with the calls that were written down so far. -/
def watched (e : Engine α σ) (log : List (Call α)) : Engine α (σ × List (Call α)) where
  name := e.name
  state := e.state
  parameters := e.parameters
  tree := e.tree
  machine := e.machine
  stall := e.stall
  arrival := e.arrival
  plant := e.plant.watched
  actuators := e.actuators.watched
  hooks := e.hooks.watched
  pathLoaded := e.pathLoaded
  telemetry := e.telemetry
  world := (e.world, log)

/-- The targets that the hook of an engine was told of. -/
def announced (e : Engine α (σ × List (Call α))) : List (PathPose α) := announcedIn e.world

/-- Everything around the engine is watched. -/
structure Watched (e : Engine α (σ × List (Call α))) : Prop where
  plant : ∃ plant : Plant α σ, e.plant = plant.watched
  actuators : ∃ actuators : Actuators α σ, e.actuators = actuators.watched
  hooks : ∃ hooks : Hooks α σ, e.hooks = hooks.watched

/-- An engine that is put under watch is watched. -/
theorem watched_is_watched (e : Engine α σ) (log : List (Call α)) : (e.watched log).Watched :=
  ⟨⟨_, rfl⟩, ⟨_, rfl⟩, ⟨_, rfl⟩⟩

namespace Watched

variable {e : Engine α (σ × List (Call α))} {state state' : ControlState α}
  {world : σ × List (Call α)}

theorem announced_apply (h : e.Watched) (commands : List α) :
    announcedIn (e.actuators.apply commands e.world) = e.announced := by
  obtain ⟨actuators, hactuators⟩ := h.actuators
  rw [hactuators]
  exact announcedIn_append rfl

theorem announced_release (h : e.Watched) :
    announcedIn (e.actuators.release e.world) = e.announced := by
  obtain ⟨actuators, hactuators⟩ := h.actuators
  rw [hactuators]
  exact announcedIn_append rfl

theorem announced_sample [Scalar α] (h : e.Watched) :
    announcedIn (e.plant.sample e.world).2 = e.announced := by
  obtain ⟨plant, hplant⟩ := h.plant
  rw [hplant]
  exact plant.announcedIn_sample e.world

theorem announced_reseat (h : e.Watched) (pose : Pose α) :
    announcedIn (e.plant.reseat pose e.world) = e.announced := by
  obtain ⟨plant, hplant⟩ := h.plant
  rw [hplant]
  exact plant.announcedIn_reseat pose e.world

theorem announced_advance (h : e.Watched) {source : TargetSource α (σ × List (Call α))}
    (htargets : e.plant.targets? = some source) :
    announcedIn (source.advance e.world) = e.announced := by
  obtain ⟨plant, hplant⟩ := h.plant
  rw [hplant, plant.targets?_watched] at htargets
  obtain ⟨own, -, rfl⟩ := Option.map_eq_some_iff.mp htargets
  exact announcedIn_append rfl

theorem announced_before (h : e.Watched) {outcome : Except Fault (ControlState α)}
    (hran : e.hooks.beforeControl e.state e.world = (outcome, world)) :
    announcedIn world = e.announced := by
  obtain ⟨hooks, hhooks⟩ := h.hooks
  rw [hhooks] at hran
  cases hran
  exact announcedIn_append rfl

theorem announced_after (h : e.Watched) :
    announcedIn (e.hooks.afterControl e.state e.world).2 = e.announced := by
  obtain ⟨hooks, hhooks⟩ := h.hooks
  rw [hhooks]
  exact announcedIn_append rfl

/-- The hook for targets is told of the target in the state. -/
theorem announced_reached (h : e.Watched) (state : ControlState α) :
    announcedIn (e.hooks.targetReached state e.world) = e.announced ++ [state.target] := by
  obtain ⟨hooks, hhooks⟩ := h.hooks
  rw [hhooks]
  exact List.filterMap_append

end Watched

end Engine

end MotionControl
