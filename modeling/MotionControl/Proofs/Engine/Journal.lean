import MotionControl.Proofs.Engine.Arrival
import MotionControl.Proofs.Engine.Following

/-!
# Journals of waypoints

What becomes of the waypoints of a queue in a run, event by event, as it can be read off the run:
which are added, which the engine loads and which it drops, and what it reaches in between.

- `PathOperation`, `Engine.followAll`: operations on an engine and on its queue.
- `PathEvent`, `Engine.journal`: the events of a run.
- `Headed`: the waypoint that was loaded last.
- `Engine.pathEvents_faithful`: the events of a cycle are what becomes of the target and the queue.
- `Engine.pushes_journal`, `Engine.aimed_mem_journal`: the caller's part in a journal.
-/

namespace MotionControl

open Outcome

variable {α σ : Type}

/-- An operation on an engine, or on the queue that its waypoints come from. -/
inductive PathOperation (α : Type) where
  | engine (operation : Operation α)
  | push (target : PathPose α)
  | hold (on : Bool)

/-- The waypoint that an operation adds. -/
def PathOperation.pushed? : PathOperation α → Option (PathPose α)
  | .push target => some target
  | _ => none

/-- What can happen to waypoints and targets. -/
inductive PathEvent (α : Type) where
  /-- A waypoint is added to the queue. -/
  | pushed (target : PathPose α)
  /-- The engine takes a waypoint for its target. -/
  | loaded (target : PathPose α)
  /-- The engine tries to, and is refused. -/
  | refused (target : PathPose α)
  /-- The caller sets a pose target. -/
  | aimed (target : PathPose α)
  /-- The target becomes reached in a cycle. -/
  | arrived (target : PathPose α)
  /-- A waypoint is gone from the queue, with a hold on it or not. -/
  | dropped (target : PathPose α) (held : Bool)
  deriving DecidableEq

namespace PathEvent

/-- The waypoint that was added, if one was. -/
def pushed? : PathEvent α → Option (PathPose α)
  | .pushed target => some target
  | _ => none

/-- The waypoint that was loaded, if one was. -/
def loaded? : PathEvent α → Option (PathPose α)
  | .loaded target => some target
  | _ => none

/-- The waypoint that was dropped, if one was. -/
def dropped? : PathEvent α → Option (PathPose α)
  | .dropped target _ => some target
  | _ => none

/-- It is the doing of the caller. -/
def outside : PathEvent α → Bool
  | .pushed _ | .aimed _ => true
  | .loaded _ | .refused _ | .arrived _ | .dropped _ _ => false

end PathEvent

/-! ## Events -/

section Events

variable {log log' events : List (PathEvent α)} {t : PathPose α}

/-- The waypoints that were added, in their order. -/
def pushes (log : List (PathEvent α)) : List (PathPose α) := log.filterMap PathEvent.pushed?

/-- The waypoints that were loaded, in their order. -/
def loads (log : List (PathEvent α)) : List (PathPose α) := log.filterMap PathEvent.loaded?

/-- The waypoints that were dropped, in their order. -/
def drops (log : List (PathEvent α)) : List (PathPose α) := log.filterMap PathEvent.dropped?

@[simp] theorem pushes_append : pushes (log ++ log') = pushes log ++ pushes log' :=
  List.filterMap_append

@[simp] theorem loads_append : loads (log ++ log') = loads log ++ loads log' :=
  List.filterMap_append

@[simp] theorem drops_append : drops (log ++ log') = drops log ++ drops log' :=
  List.filterMap_append

/-- The waypoint was loaded last, none was dropped since then, and this is what happened. -/
structure Headed (log : List (PathEvent α)) (t : PathPose α) (since : List (PathEvent α)) :
    Prop where
  split : ∃ earlier, log = earlier ++ .loaded t :: since
  loads : loads since = []
  drops : drops since = []

/-- A waypoint stays the last one loaded until another one is loaded or dropped. -/
theorem Headed.append {since : List (PathEvent α)} (h : Headed log t since)
    (hloads : MotionControl.loads events = []) (hdrops : MotionControl.drops events = []) :
    Headed (log ++ events) t (since ++ events) where
  split := by
    obtain ⟨earlier, rfl⟩ := h.split
    exact ⟨earlier, by simp⟩
  loads := by simp [h.loads, hloads]
  drops := by simp [h.drops, hdrops]

end Events

namespace Engine

variable [Scalar α] {e e' : Engine α (σ × WaypointQueue α)} {t : PathPose α}

/-! ## Runs and their journals -/

/-- The waypoints that a look left no longer in the queue. -/
def dropEvents (e looked : Engine α (σ × WaypointQueue α)) : List (PathEvent α) :=
  (e.waypoints.poses.take (e.waypoints.length - looked.waypoints.length)).map
    (.dropped · e.waypoints.hold)

/-- What becomes of the waypoint that was found. -/
def loadEvents : Option (PathPose α) × Engine α (σ × WaypointQueue α) → List (PathEvent α)
  | (none, _) => []
  | (some target, looked) =>
    if (looked.setPoseTarget target).isOk then [.loaded target] else [.refused target]

/-- What following the path does in a cycle. -/
def pathEvents (e : Engine α (σ × WaypointQueue α)) : List (PathEvent α) :=
  if e.state.pathFollow && loadsWaypoints e.mode then
    dropEvents e e.nextWaypoint.2 ++ loadEvents e.nextWaypoint
  else []

/-- The target becomes reached. -/
def arrivalEvents (e e' : Engine α (σ × WaypointQueue α)) : List (PathEvent α) :=
  if !e.state.reached && e'.state.reached then [.arrived e'.state.target] else []

/-- The caller sets a target, unless that is refused. -/
def aimEvents (e : Engine α (σ × WaypointQueue α)) (target : PathPose α) : List (PathEvent α) :=
  if (e.setPoseTarget target).isOk then [.aimed target] else []

/-- What an operation does with waypoints and targets. -/
def events (e : Engine α (σ × WaypointQueue α)) : PathOperation α → List (PathEvent α)
  | .engine .step => e.tick.pathEvents ++ arrivalEvents e.tick.followPath (left e.step)
  | .engine (.request (.setPoseTarget target)) => e.aimEvents target
  | .engine (.request _) => []
  | .push target => [.pushed target]
  | .hold _ => []

/-- The engine and its queue after an operation, even if a cycle was given up. -/
def follow (e : Engine α (σ × WaypointQueue α)) :
    PathOperation α → Engine α (σ × WaypointQueue α)
  | .engine operation => left (e.perform operation)
  | .push target => { e with world := (e.world.1, e.waypoints.push target) }
  | .hold on => { e with world := (e.world.1, e.waypoints.setHold on) }

/-- The engine and its queue after operations, one after another. -/
def followAll (e : Engine α (σ × WaypointQueue α)) (operations : List (PathOperation α)) :
    Engine α (σ × WaypointQueue α) :=
  operations.foldl follow e

/-- Everything that operations do with waypoints and targets. -/
def journal (e : Engine α (σ × WaypointQueue α)) :
    List (PathOperation α) → List (PathEvent α)
  | [] => []
  | operation :: rest => e.events operation ++ (e.follow operation).journal rest

/-! ## What becomes of the target and the queue -/

omit [Scalar α] in
theorem dropEvents_of_same {looked : Engine α (σ × WaypointQueue α)}
    (h : looked.waypoints = e.waypoints) : dropEvents e looked = [] := by
  rw [dropEvents, h, Nat.sub_self]
  rfl

theorem Following.source_eq (h : Following e) {source : TargetSource α (σ × WaypointQueue α)}
    (htargets : e.plant.targets? = some source) : source = .queued :=
  Option.some.inj (htargets.symm.trans h.targets)

omit [Scalar α] in
/-- Drops are what is missing at the front of the queue. -/
theorem drops_dropEvents (e looked : Engine α (σ × WaypointQueue α)) :
    drops (dropEvents e looked)
      = e.waypoints.poses.take (e.waypoints.length - looked.waypoints.length) := by
  rw [dropEvents, drops, List.filterMap_map]
  exact List.filterMap_some

omit [Scalar α] in
theorem loads_dropEvents (e looked : Engine α (σ × WaypointQueue α)) :
    loads (dropEvents e looked) = [] := by
  rw [dropEvents, loads, List.filterMap_map]
  exact List.filterMap_eq_nil_iff.mpr fun _ _ => rfl

/-- A look leaves the target alone, and the waypoints that it drops are those that are missing. -/
theorem Looked.faithful {next : Option (PathPose α) × Engine α (σ × WaypointQueue α)}
    (h : Looked e next) (hfollowing : Following e) :
    next.2.state.target = e.state.target ∧
      e.waypoints.poses = drops (dropEvents e next.2) ++ next.2.waypoints.poses := by
  rw [drops_dropEvents]
  cases h with
  | nothing | first targets unloaded current =>
    refine ⟨rfl, ?_⟩
    show e.waypoints.poses = e.waypoints.poses.take (e.waypoints.length - e.waypoints.length) ++
      e.waypoints.poses
    rw [Nat.sub_self]
    rfl
  | dropped targets loaded reached free =>
    cases hfollowing.source_eq targets
    refine ⟨rfl, ?_⟩
    show e.waypoints.poses = e.waypoints.poses.take
      (e.waypoints.poses.length - e.waypoints.poses.tail.length) ++ e.waypoints.poses.tail
    cases e.waypoints.poses with
    | nil => rfl
    | cons t rest =>
      rw [List.tail_cons, List.length_cons, Nat.add_sub_cancel_left]
      rfl

/-- The journal is true to what a cycle makes of the target and of the queue: a waypoint that is
loaded is the target from then on, and the waypoints that are dropped are those that are missing. -/
theorem pathEvents_faithful (h : Following e) :
    e.followPath.state.target = (loads e.pathEvents).getLast?.getD e.state.target ∧
      e.waypoints.poses = drops e.pathEvents ++ e.followPath.waypoints.poses := by
  unfold pathEvents Engine.followPath
  by_cases hfollows : e.state.pathFollow && loadsWaypoints e.mode
  · rw [if_pos hfollows, if_pos hfollows]
    have hlook := nextWaypoint_spec e
    have hmode := hlook.mode
    obtain ⟨htarget, hqueue⟩ := hlook.faithful h
    have hfollowing := h.of_same hlook.surroundings
    generalize e.nextWaypoint = next at hmode htarget hqueue hfollowing ⊢
    rcases next with ⟨_ | t, looked⟩
    · dsimp only [loadEvents]
      rw [List.append_nil, loads_dropEvents]
      exact ⟨htarget, hqueue⟩
    · obtain ⟨e', haccepted⟩ := setPoseTarget_answers
        (by rw [hmode]; exact (Bool.and_eq_true_iff.mp hfollows).2) t
      obtain ⟨hkept, haim, -⟩ := hfollowing.setPoseTarget haccepted
      dsimp only [loadEvents]
      rw [haccepted, loads_append, loads_dropEvents, drops_append]
      refine ⟨haim, ?_⟩
      show e.waypoints.poses = (drops (dropEvents e looked) ++ []) ++ e'.waypoints.poses
      rw [List.append_nil, hkept.waypoints]
      exact hqueue
  · rw [if_neg hfollows, if_neg hfollows]
    exact ⟨rfl, rfl⟩

/-! ## What the caller does -/

/-- A cycle adds no waypoints, and sets no targets of the caller. -/
theorem step_inside {event : PathEvent α} (h : event ∈ e.events (.engine .step)) :
    event.outside = false := by
  rcases List.mem_append.mp h with hmem | hmem
  -- The path makes it drop and load, and then it may arrive.
  · unfold pathEvents at hmem
    split at hmem
    · rcases List.mem_append.mp hmem with hmem | hmem
      · obtain ⟨t, -, rfl⟩ := List.mem_map.mp hmem
        rfl
      · revert hmem
        generalize e.tick.nextWaypoint = next
        rcases next with ⟨_ | t, looked⟩
        · exact fun hmem => nomatch hmem
        · unfold loadEvents
          dsimp only
          split
          · rintro (_ | ⟨_, ⟨⟩⟩)
            rfl
          · rintro (_ | ⟨_, ⟨⟩⟩)
            rfl
    · cases hmem
  · unfold arrivalEvents at hmem
    split at hmem
    · cases List.mem_singleton.mp hmem
      rfl
    · cases hmem

/-- An operation adds the waypoint that it pushes, and nothing else does. -/
theorem pushes_events (e : Engine α (σ × WaypointQueue α)) (operation : PathOperation α) :
    pushes (e.events operation) = operation.pushed?.toList := by
  match operation with
  | .push target => rfl
  | .hold on => rfl
  | .engine .step =>
    refine List.filterMap_eq_nil_iff.mpr fun event hmem => ?_
    have hinside := step_inside hmem
    cases event with
    | pushed t => cases hinside
    | loaded | refused | aimed | arrived | dropped => rfl
  | .engine (.request what) =>
    cases what with
    | setPoseTarget target =>
      show pushes (e.aimEvents target) = []
      unfold aimEvents
      split
      · rfl
      · rfl
    | _ => rfl

/-- The journal tells everything that was added. -/
theorem pushes_journal (e : Engine α (σ × WaypointQueue α)) (operations : List (PathOperation α)) :
    pushes (e.journal operations) = operations.filterMap PathOperation.pushed? := by
  induction operations generalizing e with
  | nil => rfl
  | cons operation rest ih =>
    rw [journal, pushes_append, ih, pushes_events, List.filterMap_cons]
    cases operation.pushed? with
    | none => rfl
    | some target => rfl

/-- Only the caller aims. -/
theorem aimed_mem_events {operation : PathOperation α} (h : .aimed t ∈ e.events operation) :
    operation = .engine (.request (.setPoseTarget t)) := by
  match operation with
  | .push target => exact nomatch List.mem_singleton.mp h
  | .hold on => cases h
  | .engine .step => exact nomatch step_inside h
  | .engine (.request what) =>
    cases what with
    | setPoseTarget target =>
      change PathEvent.aimed t ∈ e.aimEvents target at h
      unfold aimEvents at h
      split at h
      · cases List.mem_singleton.mp h
        rfl
      · cases h
    | _ => cases h

/-- The journal tells of a target of the caller only if there was one. -/
theorem aimed_mem_journal {operations : List (PathOperation α)}
    (h : .aimed t ∈ e.journal operations) :
    .engine (.request (.setPoseTarget t)) ∈ operations := by
  induction operations generalizing e with
  | nil => cases h
  | cons operation rest ih =>
    rcases List.mem_append.mp h with hmem | hmem
    · rw [aimed_mem_events hmem]
      exact List.mem_cons_self
    · exact List.mem_cons_of_mem operation (ih hmem)

end Engine

end MotionControl
