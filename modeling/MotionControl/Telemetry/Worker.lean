import MotionControl.Telemetry.Publisher

/-!
# The telemetry worker

A publisher on a thread of its own.  It looks at its stop flag, hands over what
waits, sleeps, and looks again; once it has seen the flag set it hands over what
waits a last time and is finished.  Producers push at any moment in between.

- `TelemetryWorker.move`: the smallest step of the thread, a look at the flag or a
  single snapshot.
- `TelemetryWorker.react`: one event of an interleaving of thread, producers and
  the request to stop.
- `TelemetryWorker.join`: requests the stop and waits for the end, while nobody
  pushes.
-/

namespace MotionControl

/-- What a worker does next. -/
inductive WorkerPhase where
  /-- It looks at the flag. -/
  | checking
  /-- It takes a snapshot if there is one, and for the last time if it has seen the
  flag set. -/
  | draining (last : Bool)
  | sleeping
  | finished
  deriving Repr, DecidableEq

/-- A worker with everything that it shares. -/
structure TelemetryWorker (α τ : Type) where
  publisher : Publisher α τ
  queue : TelemetryQueue α
  stopRequested : Bool
  phase : WorkerPhase

/-- What happens next around a worker. -/
inductive WorkerEvent (α : Type) where
  /-- The thread goes on. -/
  | move
  | push (s : Snapshot α)
  | requestStop

namespace TelemetryWorker

variable {α τ : Type}

/-- A worker that has just begun. -/
def spawn (publisher : Publisher α τ) (queue : TelemetryQueue α) : TelemetryWorker α τ :=
  ⟨publisher, queue, false, .checking⟩

/-- The thread goes on by one step. -/
def move (w : TelemetryWorker α τ) : TelemetryWorker α τ :=
  match w.phase with
  | .checking => { w with phase := .draining w.stopRequested }
  | .draining last =>
    match w.publisher.pull w.queue with
    | some (publisher, queue) => { w with publisher, queue }
    | none => { w with phase := if last then .finished else .sleeping }
  | .sleeping => { w with phase := .checking }
  | .finished => w

/-- Sets the stop flag. -/
def requestStop (w : TelemetryWorker α τ) : TelemetryWorker α τ := { w with stopRequested := true }

/-- The worker after an event. -/
def react (w : TelemetryWorker α τ) : WorkerEvent α → TelemetryWorker α τ
  | .move => w.move
  | .push s => { w with queue := (w.queue.push s).2 }
  | .requestStop => w.requestStop

/-- An interleaving. -/
def run (w : TelemetryWorker α τ) (events : List (WorkerEvent α)) : TelemetryWorker α τ :=
  events.foldl react w

/-- A number of steps of the thread alone. -/
def moves : Nat → TelemetryWorker α τ → TelemetryWorker α τ
  | 0, w => w
  | n + 1, w => moves n w.move

/-- The steps to the end once the stop is requested: one for each snapshot that
waits, and those of a round that began before. -/
def stepsLeft (w : TelemetryWorker α τ) : Nat :=
  match w.phase with
  | .finished => 0
  | .draining true => w.queue.length + 1
  | .checking => w.queue.length + 2
  | .sleeping => w.queue.length + 3
  | .draining false => w.queue.length + 4

/-- Requests the stop and lets the thread come to its end. -/
def join (w : TelemetryWorker α τ) : TelemetryWorker α τ :=
  let w := w.requestStop
  moves w.stepsLeft w

/-! ## The end of a worker -/

/-- Nothing waits in a queue that nothing can be taken from. -/
theorem length_of_pull_none {p : Publisher α τ} {q : TelemetryQueue α}
    (h : p.pull q = none) : q.length = 0 := by
  cases hwaiting : q.snapshots with
  | nil => exact congrArg List.length hwaiting
  | cons s rest =>
    rw [p.pull_cons hwaiting] at h
    cases h

/-- The flag stays set. -/
theorem stopRequested_move (w : TelemetryWorker α τ) :
    w.move.stopRequested = w.stopRequested := by
  unfold move
  repeat' split
  all_goals rfl

/-- Every step of a worker that is to stop brings it closer to its end. -/
theorem stepsLeft_move (w : TelemetryWorker α τ) (h : w.stopRequested = true) :
    w.move.stepsLeft = w.stepsLeft - 1 := by
  obtain ⟨publisher, queue, stopRequested, phase⟩ := w
  subst h
  cases phase with
  | checking => simp [move, stepsLeft]
  | sleeping => simp [move, stepsLeft]
  | finished => simp [move, stepsLeft]
  | draining last =>
    cases hp : publisher.pull queue with
    | none =>
      have := length_of_pull_none hp
      cases last <;> simp [move, stepsLeft, hp, this]
    | some next =>
      obtain ⟨publisher', queue'⟩ := next
      have := Publisher.length_of_pull hp
      cases last <;> simp [move, stepsLeft, hp, this]

/-- Without a step left, the worker has ended. -/
theorem phase_of_stepsLeft {w : TelemetryWorker α τ} (h : w.stepsLeft = 0) :
    w.phase = .finished := by
  unfold stepsLeft at h
  split at h <;> simp_all

/-- With enough steps, a worker that is to stop comes to its end. -/
theorem phase_moves (n : Nat) (w : TelemetryWorker α τ) (h : w.stopRequested = true)
    (hn : w.stepsLeft ≤ n) : (moves n w).phase = .finished := by
  induction n generalizing w with
  | zero => exact phase_of_stepsLeft (Nat.le_zero.mp hn)
  | succ n ih =>
    apply ih w.move
    · rw [stopRequested_move, h]
    · rw [stepsLeft_move w h]
      omega

/-- A join comes to an end. -/
theorem phase_join (w : TelemetryWorker α τ) : w.join.phase = .finished :=
  phase_moves _ _ rfl (Nat.le_refl _)

end TelemetryWorker

end MotionControl
