import Mathlib.Algebra.Group.Nat.Defs
import Mathlib.Data.List.Induction
import MotionControl.Proofs.Engine.Operations
import MotionControl.Telemetry.Publisher

/-!
# An engine and its publisher

An engine queues a snapshot every so many cycles, and a publisher takes them off the queue one by
one, whenever its drain gets to it.  Between two of these the engine may run any number of cycles.

- `Exchange`, `Exchange.react`: an engine and the publisher of its queue, and what happens next
  around them.
- `Consignment`, `Exchange.journal`: what becomes of snapshots in a run.
- `Exchange.run_drain`: a drain that nothing comes between is `Publisher.drain`.
-/

namespace MotionControl

open Outcome

/-! ## Sinks and publishers -/

/-- A sink that also notes what it is sent, whatever becomes of it. -/
def TelemetrySink.noting {α τ : Type} (sink : TelemetrySink α τ) :
    TelemetrySink α (τ × List (Snapshot α)) where
  publish s t := ((sink.publish s t.1).1, (sink.publish s t.1).2, t.2 ++ [s])

namespace Publisher

variable {α τ : Type}

theorem publish_sink (p : Publisher α τ) (s : Snapshot α) : (p.publish s).sink = p.sink := by
  unfold publish
  rcases p.sink.publish s p.state with ⟨_ | _, state⟩
  · rfl
  · rfl

/-- A sink changes, whether it takes a snapshot or not. -/
theorem publish_state (p : Publisher α τ) (s : Snapshot α) :
    (p.publish s).state = (p.sink.publish s p.state).2 := by
  unfold publish
  rcases p.sink.publish s p.state with ⟨_ | _, state⟩
  · rfl
  · rfl

/-- A snapshot that is sent is taken or refused, and counted either way. -/
theorem publish_counts (p : Publisher α τ) (s : Snapshot α) :
    (p.publish s).published = p.published + 1 ∧ (p.publish s).failed = p.failed ∨
      (p.publish s).published = p.published ∧ (p.publish s).failed = p.failed + 1 := by
  unfold publish
  rcases p.sink.publish s p.state with ⟨_ | _, state⟩
  · exact .inr ⟨rfl, rfl⟩
  · exact .inl ⟨rfl, rfl⟩

/-- As long as they have not run out, the counters add up to one more. -/
theorem publish_total (p : Publisher α τ) (s : Snapshot α)
    (hroom : p.published.toNat + p.failed.toNat + 1 < 2 ^ 64) :
    (p.publish s).published.toNat + (p.publish s).failed.toNat
      = p.published.toNat + p.failed.toNat + 1 := by
  rcases p.publish_counts s with ⟨hpublished, hfailed⟩ | ⟨hpublished, hfailed⟩
  · rw [hpublished, hfailed, UInt64.toNat_add, UInt64.toNat_one, Nat.mod_eq_of_lt (by omega)]
    omega
  · rw [hpublished, hfailed, UInt64.toNat_add, UInt64.toNat_one, Nat.mod_eq_of_lt (by omega)]
    omega

/-- A sink that notes what it is sent notes each snapshot once. -/
theorem publish_noted {p : Publisher α (τ × List (Snapshot α))} {sink : TelemetrySink α τ}
    (h : p.sink = sink.noting) (s : Snapshot α) : (p.publish s).state.2 = p.state.2 ++ [s] := by
  rw [publish_state, h]
  rfl

end Publisher

/-! ## The end of a cycle -/

namespace Engine

variable {α σ : Type} {e : Engine α σ} {q : TelemetryQueue α}

/-- The number of the cycle is one of those that the interval asks for. -/
def Due (e : Engine α σ) : Prop :=
  0 < e.parameters.telemetryInterval.toNat ∧
    e.parameters.telemetryInterval.toNat ∣ e.state.cycle.toNat

instance (e : Engine α σ) : Decidable e.Due := inferInstanceAs (Decidable (_ ∧ _))

/-- A cycle queues a snapshot if one is due, and does nothing about it otherwise. -/
theorem publish_spec (hqueue : e.telemetry = some q) :
    e.publish
      = if e.Due then { e with telemetry := some (q.push (.capture e.state)).2 } else e := by
  have hwide : e.parameters.telemetryInterval.toUInt64.toNat
      = e.parameters.telemetryInterval.toNat := UInt32.toNat_toUInt64 _
  have hzero : e.parameters.telemetryInterval.toUInt64 = 0 ↔
      e.parameters.telemetryInterval.toNat = 0 := by
    rw [← hwide]
    exact UInt64.toNat_inj.symm
  have hrest : e.state.cycle % e.parameters.telemetryInterval.toUInt64 = 0 ↔
      e.parameters.telemetryInterval.toNat ∣ e.state.cycle.toNat := by
    rw [Nat.dvd_iff_mod_eq_zero, ← hwide, ← UInt64.toNat_mod]
    exact UInt64.toNat_inj.symm
  unfold Engine.publish
  dsimp only
  by_cases hdue : e.Due
  · rw [if_pos hdue, if_neg, hqueue]
    · rfl
    · rintro (hnone | hother)
      · exact Nat.ne_of_gt hdue.1 (hzero.mp hnone)
      · exact hother (hrest.mpr hdue.2)
  · rw [if_neg hdue, if_pos]
    by_cases hnone : e.parameters.telemetryInterval.toNat = 0
    · exact .inl (hzero.mpr hnone)
    · exact .inr fun h => hdue ⟨Nat.pos_of_ne_zero hnone, hrest.mp h⟩

end Engine

/-! ## What becomes of snapshots -/

/-- What can happen to snapshots. -/
inductive Consignment (α : Type) where
  /-- A snapshot is dropped, while so many wait. -/
  | lost (s : Snapshot α) (waiting : Nat)
  /-- A snapshot is taken off the queue and sent to the sink. -/
  | handed (s : Snapshot α)
  /-- A drain is over, and returns so much. -/
  | drained (count : UInt64)

namespace Consignment

variable {α : Type}

/-- The snapshot that was lost, if one was. -/
def lost? : Consignment α → Option (Snapshot α)
  | .lost s _ => some s
  | .handed _ | .drained _ => none

/-- The snapshot that was handed over, if one was. -/
def handed? : Consignment α → Option (Snapshot α)
  | .handed s => some s
  | .lost .. | .drained _ => none

end Consignment

section Journals

variable {α : Type}

/-- The numbers of the cycles that snapshots were taken in. -/
def cyclesOf (snapshots : List (Snapshot α)) : List Nat := snapshots.map (·.cycle.toNat)

/-- The snapshots that were dropped. -/
def losses (log : List (Consignment α)) : List (Snapshot α) := log.filterMap Consignment.lost?

/-- The snapshots that were sent to the sink. -/
def handovers (log : List (Consignment α)) : List (Snapshot α) :=
  log.filterMap Consignment.handed?

/-- How many were sent to the sink since the last drain was over. -/
def handedSince (log : List (Consignment α)) : Nat :=
  log.foldl (fun count event =>
    match event with
    | .lost .. => count
    | .handed _ => count + 1
    | .drained _ => 0) 0

variable {log : List (Consignment α)}

@[simp] theorem cyclesOf_append (snapshots snapshots' : List (Snapshot α)) :
    cyclesOf (snapshots ++ snapshots') = cyclesOf snapshots ++ cyclesOf snapshots' :=
  List.map_append

@[simp] theorem losses_lost (s : Snapshot α) (waiting : Nat) :
    losses (log ++ [.lost s waiting]) = losses log ++ [s] := List.filterMap_append

@[simp] theorem losses_handed (s : Snapshot α) : losses (log ++ [.handed s]) = losses log :=
  List.filterMap_append.trans (List.append_nil _)

@[simp] theorem losses_drained (count : UInt64) : losses (log ++ [.drained count]) = losses log :=
  List.filterMap_append.trans (List.append_nil _)

@[simp] theorem handovers_lost (s : Snapshot α) (waiting : Nat) :
    handovers (log ++ [.lost s waiting]) = handovers log :=
  List.filterMap_append.trans (List.append_nil _)

@[simp] theorem handovers_handed (s : Snapshot α) :
    handovers (log ++ [.handed s]) = handovers log ++ [s] := List.filterMap_append

@[simp] theorem handovers_drained (count : UInt64) :
    handovers (log ++ [.drained count]) = handovers log :=
  List.filterMap_append.trans (List.append_nil _)

@[simp] theorem handedSince_lost (s : Snapshot α) (waiting : Nat) :
    handedSince (log ++ [.lost s waiting]) = handedSince log := List.foldl_append

@[simp] theorem handedSince_handed (s : Snapshot α) :
    handedSince (log ++ [.handed s]) = handedSince log + 1 := List.foldl_append

@[simp] theorem handedSince_drained (count : UInt64) : handedSince (log ++ [.drained count]) = 0 :=
  List.foldl_append

/-- What the last drain handed over is a part of what was ever handed over. -/
theorem handedSince_le (log : List (Consignment α)) : handedSince log ≤ (handovers log).length := by
  induction log using List.reverseRecOn with
  | nil => exact Nat.le_refl _
  | append_singleton log event ih =>
    cases event with
    | lost s waiting =>
      rw [handedSince_lost, handovers_lost]
      exact ih
    | handed s =>
      rw [handedSince_handed, handovers_handed, List.length_append]
      exact Nat.succ_le_succ ih
    | drained count =>
      rw [handedSince_drained]
      exact Nat.zero_le _

end Journals

/-! ## Exchanges -/

/-- What happens next around an engine and the publisher of its queue. -/
inductive ExchangeEvent (α : Type) where
  | engine (operation : Operation α)
  /-- The drain that is going on, or a new one, looks for another snapshot. -/
  | pop

/-- A cycle, and not a request or a pop. -/
def ExchangeEvent.isStep {α : Type} : ExchangeEvent α → Bool
  | .engine .step => true
  | .engine (.request _) | .pop => false

/-- An engine and the publisher of its queue. -/
structure Exchange (α σ τ : Type) where
  engine : Engine α σ
  publisher : Publisher α τ
  /-- What the drain that is going on has handed over so far. -/
  taken : UInt64

namespace Exchange

variable {α σ τ : Type} [Scalar α]

/-- Where the snapshots wait. -/
def queue (x : Exchange α σ τ) : TelemetryQueue α := x.engine.telemetry.getD .empty

/-- The drain takes the next snapshot, or is over. -/
def pop (x : Exchange α σ τ) : Exchange α σ τ :=
  match x.engine.telemetry.bind fun queue => Drain.pop ⟨x.publisher, queue, x.taken⟩ with
  | some drain =>
    ⟨{ x.engine with telemetry := some drain.queue }, drain.publisher, drain.taken⟩
  | none => { x with taken := 0 }

/-- The exchange after an event, unless a cycle is given up in it. -/
def react (x : Exchange α σ τ) : ExchangeEvent α → Except (Interrupted α σ) (Exchange α σ τ)
  | .engine operation => (x.engine.perform operation).map fun engine => { x with engine }
  | .pop => .ok x.pop

/-- The exchange after events, one after another. -/
def run (x : Exchange α σ τ) (events : List (ExchangeEvent α)) :
    Except (Interrupted α σ) (Exchange α σ τ) :=
  events.foldlM react x

/-- The snapshot of a cycle, if it is due and the queue refuses it. -/
def refusal (x : Exchange α σ τ) (e : Engine α σ) : List (Consignment α) :=
  if e.Due ∧ (x.queue.push (.capture e.state)).1 = false then
    [.lost (.capture e.state) x.queue.length]
  else []

/-- What an event does with snapshots. -/
def news (x : Exchange α σ τ) : ExchangeEvent α → List (Consignment α)
  | .engine .step =>
    match x.engine.step with
    | .ok e => x.refusal e
    | .error _ => []
  | .engine (.request _) => []
  | .pop =>
    match x.queue.pop with
    | some (s, _) => [.handed s]
    | none => [.drained x.taken]

/-- What becomes of snapshots in a run. -/
def journal (x : Exchange α σ τ) : List (ExchangeEvent α) → List (Consignment α)
  | [] => []
  | event :: rest =>
    match x.react event with
    | .ok x' => x.news event ++ x'.journal rest
    | .error _ => x.news event

/-- A publisher that has published nothing, and the engine that its queue was given to. -/
def opened (engine : Engine α σ) (sink : TelemetrySink α τ) (state : τ) : Exchange α σ τ :=
  ⟨engine, .fresh sink state, 0⟩

/-! ## Refusals -/

section Refusals

variable {x : Exchange α σ τ} {e : Engine α σ}

omit [Scalar α] in
/-- Nothing is lost in a cycle that queues nothing. -/
theorem refusal_of_not_due (hdue : ¬ e.Due) : x.refusal e = [] := if_neg fun h => hdue h.1

omit [Scalar α] in
/-- Nor is anything while there is room. -/
theorem refusal_of_lt (hfree : x.queue.length < TelemetryQueue.depth) : x.refusal e = [] := by
  refine if_neg fun h => ?_
  rw [TelemetryQueue.push_of_lt _ hfree] at h
  cases h.2

omit [Scalar α] in
/-- A full queue loses the snapshot of the cycle. -/
theorem refusal_of_le (hdue : e.Due) (hfull : TelemetryQueue.depth ≤ x.queue.length) :
    x.refusal e = [.lost (.capture e.state) x.queue.length] := by
  refine if_pos ⟨hdue, ?_⟩
  rw [TelemetryQueue.push_of_le _ hfull]

end Refusals

/-! ## Pops -/

variable {x : Exchange α σ τ} {q : TelemetryQueue α}

omit [Scalar α] in
theorem queue_of_attached (h : x.engine.telemetry = some q) : x.queue = q := by
  rw [queue, h]
  rfl

omit [Scalar α] in
/-- A pop concerns nothing of the engine but its queue. -/
theorem pop_engine (x : Exchange α σ τ) :
    ∃ telemetry, x.pop.engine = { x.engine with telemetry } := by
  unfold Exchange.pop
  split
  case h_1 drain _ => exact ⟨some drain.queue, rfl⟩
  case h_2 => exact ⟨x.engine.telemetry, rfl⟩

omit [Scalar α] in
/-- A drain that finds nothing is over. -/
theorem pop_nil (h : x.engine.telemetry = some q) (hwaiting : q.snapshots = []) :
    x.pop = { x with taken := 0 } := by
  unfold Exchange.pop
  rw [h, Option.bind_some, Drain.pop_nil _ hwaiting]

theorem news_nil (h : x.engine.telemetry = some q) (hwaiting : q.snapshots = []) :
    x.news .pop = [.drained x.taken] := by
  unfold news
  rw [queue_of_attached h, TelemetryQueue.pop_nil hwaiting]

omit [Scalar α] in
/-- Otherwise the publisher takes the oldest snapshot. -/
theorem pop_cons (h : x.engine.telemetry = some q) {s : Snapshot α} {rest : List (Snapshot α)}
    (hwaiting : q.snapshots = s :: rest) :
    x.pop = ⟨{ x.engine with telemetry := some { q with snapshots := rest } },
      x.publisher.publish s, x.taken + 1⟩ := by
  unfold Exchange.pop
  rw [h, Option.bind_some, Drain.pop_cons _ hwaiting]

theorem news_cons (h : x.engine.telemetry = some q) {s : Snapshot α} {rest : List (Snapshot α)}
    (hwaiting : q.snapshots = s :: rest) : x.news .pop = [.handed s] := by
  unfold news
  rw [queue_of_attached h, TelemetryQueue.pop_cons hwaiting]

/-- A drain that nothing comes between hands over what waits, and returns what it counted. -/
theorem run_drain {drain : Drain α τ} (h : x.engine.telemetry = some q)
    (hdrain : drain = Drain.finish ⟨x.publisher, q, x.taken⟩) :
    x.run (.replicate (q.length + 1) .pop)
        = .ok ⟨{ x.engine with telemetry := some drain.queue }, drain.publisher, 0⟩ ∧
      x.journal (.replicate (q.length + 1) .pop)
        = q.snapshots.map .handed ++ [.drained drain.taken] := by
  subst hdrain
  obtain ⟨snapshots, dropped⟩ := q
  induction snapshots generalizing x with
  | nil =>
    rw [Drain.finish_of_pop_none (Drain.pop_nil _ rfl _)]
    constructor
    · show Except.ok x.pop = .ok ⟨{ x.engine with telemetry := some ⟨[], dropped⟩ }, x.publisher, 0⟩
      rw [pop_nil h rfl, ← h]
    · show x.news .pop ++ [] = _
      rw [news_nil h rfl]
      rfl
  | cons s rest ih =>
    have hpop := pop_cons h rfl
    obtain ⟨hrun, hjournal⟩ := ih (x := x.pop) (by rw [hpop])
    rw [hpop] at hrun hjournal
    rw [Drain.finish_of_pop (Drain.pop_cons _ rfl _)]
    constructor
    · show x.pop.run (.replicate (rest.length + 1) .pop) = _
      rw [hpop]
      exact hrun
    · show x.news .pop ++ x.pop.journal (.replicate (rest.length + 1) .pop) = _
      rw [news_cons h rfl, hpop]
      exact congrArg (.handed s :: ·) hjournal

end Exchange

end MotionControl
