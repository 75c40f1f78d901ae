import MotionControl.Telemetry.Queue

/-!
# Publishing telemetry

- `TelemetrySink`: a place that snapshots are sent to, which may refuse one.
- `Publisher`: a sink with counts of what it took and what it refused.
- `Drain.pop`: one look of a drain at the queue, and `Publisher.drain`: a drain from begin to end.
- `Journal.keeping`, `Journal.failing`, `Journal.silent`: sinks that take and keep everything,
  refuse every so many snapshots, or keep nothing.
-/

namespace MotionControl

/-- Why a snapshot was not published. -/
inductive SinkError where
  /-- The record itself could not be written in full. -/
  | record (reason : String)
  /-- The record stands, but its line end or what waits behind it does not. -/
  | line (reason : String)
  deriving Repr, DecidableEq

namespace SinkError

/-- The name of a failure in a report. -/
def title : SinkError → String
  | record _ => "Encode"
  | line _ => "Io"

/-- The wording of a failure. -/
def message : SinkError → String
  | record reason => "telemetry encoding failed: " ++ reason
  | line reason => "telemetry write failed: " ++ reason

end SinkError

/-- A place that snapshots are sent to, with a state of its own. -/
structure TelemetrySink (α τ : Type) where
  publish : Snapshot α → τ → Except SinkError Unit × τ

/-- A sink, its state, and how many snapshots it took and refused. -/
structure Publisher (α τ : Type) where
  sink : TelemetrySink α τ
  state : τ
  published : UInt64
  failed : UInt64

namespace Publisher

variable {α τ : Type}

/-- A publisher that has published nothing. -/
def fresh (sink : TelemetrySink α τ) (state : τ) : Publisher α τ := ⟨sink, state, 0, 0⟩

/-- Sends one snapshot.  A refused snapshot is lost. -/
def publish (p : Publisher α τ) (s : Snapshot α) : Publisher α τ :=
  match p.sink.publish s p.state with
  | (.ok (), state) => { p with state, published := p.published + 1 }
  | (.error _, state) => { p with state, failed := p.failed + 1 }

/-- Hands over the oldest snapshot of a queue, if there is one. -/
def pull (p : Publisher α τ) (q : TelemetryQueue α) :
    Option (Publisher α τ × TelemetryQueue α) :=
  q.pop.map fun (s, q) => (p.publish s, q)

theorem pull_nil (p : Publisher α τ) {q : TelemetryQueue α} (h : q.snapshots = []) :
    p.pull q = none := by
  rw [pull, TelemetryQueue.pop_nil h, Option.map_none]

/-- The oldest snapshot is the one that is handed over. -/
theorem pull_cons (p : Publisher α τ) {q : TelemetryQueue α} {s : Snapshot α}
    {rest : List (Snapshot α)} (h : q.snapshots = s :: rest) :
    p.pull q = some (p.publish s, { q with snapshots := rest }) := by
  rw [pull, TelemetryQueue.pop_cons h, Option.map_some]

/-- Each snapshot that is handed over leaves the queue. -/
theorem length_of_pull {p p' : Publisher α τ} {q q' : TelemetryQueue α}
    (h : p.pull q = some (p', q')) : q.length = q'.length + 1 := by
  cases hwaiting : q.snapshots with
  | nil =>
    rw [pull_nil p hwaiting] at h
    cases h
  | cons s rest =>
    rw [pull_cons p hwaiting] at h
    cases h
    rw [TelemetryQueue.length, hwaiting]
    rfl

/-- The publisher of a queue in a diagnostic message. -/
def describe (p : Publisher α τ) (q : TelemetryQueue α) : String :=
  "TelemetryPublisher \x7b queue: " ++ q.describe ++ ", published: " ++ toString p.published
    ++ ", failed: " ++ toString p.failed ++ ", .. \x7d"

end Publisher

/-! ## Drains -/

/-- A drain that is going on: a publisher, its queue, and how many snapshots it has taken so far. -/
structure Drain (α τ : Type) where
  publisher : Publisher α τ
  queue : TelemetryQueue α
  taken : UInt64

namespace Drain

variable {α τ : Type}

/-- Takes the next snapshot, unless nothing waits and the drain is over. -/
def pop (d : Drain α τ) : Option (Drain α τ) :=
  (d.publisher.pull d.queue).map fun (publisher, queue) => ⟨publisher, queue, d.taken + 1⟩

/-- A drain is over when nothing waits. -/
theorem pop_nil (p : Publisher α τ) {q : TelemetryQueue α} (h : q.snapshots = [])
    (taken : UInt64) : pop ⟨p, q, taken⟩ = none := by
  rw [pop, p.pull_nil h, Option.map_none]

/-- Otherwise it takes the oldest snapshot and counts it. -/
theorem pop_cons (p : Publisher α τ) {q : TelemetryQueue α} {s : Snapshot α}
    {rest : List (Snapshot α)} (h : q.snapshots = s :: rest) (taken : UInt64) :
    pop ⟨p, q, taken⟩ = some ⟨p.publish s, { q with snapshots := rest }, taken + 1⟩ := by
  rw [pop, p.pull_cons h, Option.map_some]

theorem length_of_pop {d d' : Drain α τ} (h : d.pop = some d') :
    d.queue.length = d'.queue.length + 1 := by
  obtain ⟨⟨publisher, queue⟩, hpull, rfl⟩ := Option.map_eq_some_iff.mp h
  exact Publisher.length_of_pull hpull

/-- Takes one snapshot after another until nothing waits. -/
def finish (d : Drain α τ) : Drain α τ :=
  match _h : d.pop with
  | some next => next.finish
  | none => d
termination_by d.queue.length
decreasing_by
  have shorter := length_of_pop _h
  omega

theorem finish_of_pop {d next : Drain α τ} (h : d.pop = some next) : d.finish = next.finish := by
  rw [finish]
  split
  · next d' hd' =>
    rw [h] at hd'
    cases hd'
    rfl
  · next hnone =>
    rw [h] at hnone
    cases hnone

theorem finish_of_pop_none {d : Drain α τ} (h : d.pop = none) : d.finish = d := by
  rw [finish]
  split
  · next d' hd' =>
    rw [h] at hd'
    cases hd'
  · rfl

/-- A drain takes all that waits, oldest first, and counts it. -/
theorem finish_eq (d : Drain α τ) :
    d.finish = ⟨d.queue.snapshots.foldl Publisher.publish d.publisher,
      { d.queue with snapshots := [] }, d.taken + .ofNat d.queue.length⟩ := by
  obtain ⟨p, ⟨snapshots, dropped⟩, taken⟩ := d
  induction snapshots generalizing p taken with
  | nil =>
    rw [finish_of_pop_none (pop_nil p rfl taken)]
    show _ = (⟨p, ⟨[], dropped⟩, taken + 0⟩ : Drain α τ)
    rw [UInt64.add_zero]
  | cons s rest ih =>
    have hcount : taken + 1 + .ofNat rest.length = taken + .ofNat (rest.length + 1) := by
      rw [UInt64.ofNat_add, UInt64.add_assoc, UInt64.add_comm 1]
      rfl
    rw [finish_of_pop (pop_cons p rfl taken), ih]
    exact congrArg _ hcount

end Drain

/-- Hands over everything that waits, oldest first, and counts it. -/
def Publisher.drain {α τ : Type} (p : Publisher α τ) (q : TelemetryQueue α) : Drain α τ :=
  Drain.finish ⟨p, q, 0⟩

/-! ## Sinks that keep what they are sent -/

/-- The snapshots that were taken, and how many were sent. -/
structure Journal (α : Type) where
  taken : List (Snapshot α)
  sent : Nat

namespace Journal

variable {α : Type}

/-- Nothing was sent yet. -/
def empty : Journal α := ⟨[], 0⟩

/-- Refuses the snapshots whose number, counted from one, is a multiple of `every`;
none if that is zero. -/
def failing (every : Nat) : TelemetrySink α (Journal α) where
  publish s journal :=
    let sent := journal.sent + 1
    if every ≠ 0 ∧ sent % every = 0 then (.error (.line "refused"), { journal with sent })
    else (.ok (), ⟨journal.taken ++ [s], sent⟩)

/-- Takes and keeps everything. -/
def keeping : TelemetrySink α (Journal α) := failing 0

/-- Takes everything and keeps nothing. -/
def silent : TelemetrySink α (Journal α) where
  publish _ journal := (.ok (), { journal with sent := journal.sent + 1 })

end Journal

end MotionControl
