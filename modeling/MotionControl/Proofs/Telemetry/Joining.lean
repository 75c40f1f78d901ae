import MotionControl.Proofs.Telemetry.Exchange
import MotionControl.Scalar
import MotionControl.Telemetry.Publisher
import MotionControl.Telemetry.Worker

/-!
# Joining the telemetry worker

A worker, the producers of its queue and whoever joins it run side by side.  The worker looks at its
flag and pops one snapshot at a time, and anything may come between two of its steps.  What a queue
accepted before the flag was set still reaches the sink, since the last drain begins after the flag
was seen and ends with an empty queue.

- `Publisher.Tallied`: what a publisher handed over is noted and counted, by counters that may run
  out.
- `TelemetryWorker.accepted`: what the queue takes from the producers in an interleaving.
- `TelemetryWorker.run_round`: a round that nothing comes between is `Publisher.drain`.
- `TelemetryWorker.Balanced`: what was pushed is handed over, or waits, in the order of the pushes.
- `TelemetryWorker.Unasked`, `TelemetryWorker.Settled`: the worker before and after its flag is set.
- `TelemetryWorker.joined_loses_nothing`: what a join gives back.
-/

namespace MotionControl

/-! ## Publishers -/

namespace Publisher

variable {α τ : Type} {sink : TelemetrySink α τ} {p : Publisher α (τ × List (Snapshot α))}

/-- Everything that a publisher ever sent is noted by its sink, and counted as taken or as
refused. -/
structure Tallied (sink : TelemetrySink α τ) (p : Publisher α (τ × List (Snapshot α))) : Prop where
  noting : p.sink = sink.noting
  counted : ∃ took refused, took + refused = p.state.2.length ∧ p.published = .ofNat took ∧
    p.failed = .ofNat refused

/-- A new publisher has sent nothing and counted nothing. -/
theorem fresh_tallied (t : τ) : (fresh sink.noting (t, [])).Tallied sink :=
  ⟨rfl, 0, 0, rfl, rfl, rfl⟩

/-- Each publication is counted. -/
theorem Tallied.publish (h : p.Tallied sink) (s : Snapshot α) : (p.publish s).Tallied sink := by
  obtain ⟨took, refused, hsum, htook, hrefused⟩ := h.counted
  refine ⟨by rw [publish_sink, h.noting], ?_⟩
  rw [publish_noted h.noting, List.length_append, ← hsum]
  rcases p.publish_counts s with ⟨hpublished, hfailed⟩ | ⟨hpublished, hfailed⟩
  · refine ⟨took + 1, refused, Nat.add_right_comm .., ?_, hfailed.trans hrefused⟩
    rw [hpublished, htook, UInt64.ofNat_add]
    rfl
  · refine ⟨took, refused + 1, (Nat.add_assoc ..).symm, hpublished.trans htook, ?_⟩
    rw [hfailed, hrefused, UInt64.ofNat_add]
    rfl

/-- The two counters add up to all that was sent, in the arithmetic of their words. -/
theorem Tallied.sum (h : p.Tallied sink) : p.published + p.failed = .ofNat p.state.2.length := by
  obtain ⟨took, refused, hsum, htook, hrefused⟩ := h.counted
  rw [htook, hrefused, ← hsum, UInt64.ofNat_add]

/-- They add up as numbers, unless more was sent than a word can count. -/
theorem Tallied.total (h : p.Tallied sink) (hroom : p.state.2.length < 2 ^ 64) :
    p.published.toNat + p.failed.toNat = p.state.2.length := by
  obtain ⟨took, refused, hsum, htook, hrefused⟩ := h.counted
  rw [htook, hrefused, UInt64.toNat_ofNat', UInt64.toNat_ofNat', Nat.mod_eq_of_lt (by omega),
    Nat.mod_eq_of_lt (by omega), hsum]

end Publisher

namespace TelemetryWorker

variable {α τ : Type} {w : TelemetryWorker α (τ × List (Snapshot α))}
variable {sink : TelemetrySink α τ} {pushed : List (Snapshot α)}
variable {event : WorkerEvent α} {events : List (WorkerEvent α)}

/-! ## Interleavings -/

/-- What the queue takes from the producers in an event. -/
def entry (w : TelemetryWorker α τ) : WorkerEvent α → List (Snapshot α)
  | .push s => if (w.queue.push s).1 then [s] else []
  | .move | .requestStop => []

/-- What the queue takes from the producers in an interleaving. -/
def accepted (w : TelemetryWorker α τ) : List (WorkerEvent α) → List (Snapshot α)
  | [] => []
  | event :: rest => w.entry event ++ (w.react event).accepted rest

/-- The snapshots that the sink was ever sent, oldest first. -/
def handed (w : TelemetryWorker α (τ × List (Snapshot α))) : List (Snapshot α) := w.publisher.state.2

/-- Steps of the thread alone are an interleaving without producers. -/
theorem moves_eq_run (n : Nat) (w : TelemetryWorker α τ) : moves n w = w.run (.replicate n .move) := by
  induction n generalizing w with
  | zero => rfl
  | succ n ih => exact ih w.move

/-- Joining a worker while nobody pushes is one of the interleavings. -/
theorem join_eq_run (w : TelemetryWorker α τ) :
    w.join = w.run (.requestStop :: .replicate w.requestStop.stepsLeft .move) :=
  moves_eq_run _ w.requestStop

/-! ## The balance of a worker -/

/-- What was pushed is handed over or waits, in the order of the pushes, and what was handed over is
counted. -/
structure Balanced (sink : TelemetrySink α τ) (pushed : List (Snapshot α))
    (w : TelemetryWorker α (τ × List (Snapshot α))) : Prop where
  tallied : w.publisher.Tallied sink
  balance : w.handed ++ w.queue.snapshots = pushed

/-- A worker that takes a snapshot off the queue hands it over. -/
theorem move_cons {w : TelemetryWorker α τ} {s : Snapshot α} {rest : List (Snapshot α)}
    {last : Bool} (hphase : w.phase = .draining last) (hwaiting : w.queue.snapshots = s :: rest) :
    w.move = { w with publisher := w.publisher.publish s,
                      queue := { w.queue with snapshots := rest } } := by
  unfold move
  rw [hphase]
  simp only [w.publisher.pull_cons hwaiting]

/-- A drain of an empty queue is over. -/
theorem move_nil {w : TelemetryWorker α τ} {last : Bool} (hphase : w.phase = .draining last)
    (hwaiting : w.queue.snapshots = []) :
    w.move = { w with phase := if last then .finished else .sleeping } := by
  unfold move
  rw [hphase]
  simp only [w.publisher.pull_nil hwaiting]

/-- A round of the worker that nothing comes between is a drain of its publisher. -/
theorem run_round {w : TelemetryWorker α τ} {last : Bool} (hphase : w.phase = .draining last) :
    w.run (.replicate (w.queue.length + 1) .move)
      = { w with
          publisher := (w.publisher.drain w.queue).publisher
          queue := (w.publisher.drain w.queue).queue
          phase := if last then .finished else .sleeping } := by
  rw [Publisher.drain, Drain.finish_eq]
  obtain ⟨publisher, ⟨snapshots, dropped⟩, stopRequested, phase⟩ := w
  induction snapshots generalizing publisher with
  | nil => exact move_nil hphase rfl
  | cons s rest ih =>
    show TelemetryWorker.run (move _) (.replicate (rest.length + 1) .move) = _
    rw [move_cons hphase rfl]
    exact ih _ hphase

/-- What the worker does: it takes a snapshot in a drain, or goes from one phase to another. -/
theorem move_cases (w : TelemetryWorker α (τ × List (Snapshot α))) :
    (∃ s rest last, w.phase = .draining last ∧ w.queue.snapshots = s :: rest ∧
      w.move = { w with publisher := w.publisher.publish s,
                        queue := { w.queue with snapshots := rest } }) ∨
    ∃ phase, w.move = { w with phase } ∧
      (phase = .draining true → w.stopRequested = true ∨ w.phase = .draining true) ∧
      (phase = .finished →
        w.phase = .finished ∨ w.phase = .draining true ∧ w.queue.snapshots = []) := by
  cases hphase : w.phase with
  | checking =>
    refine .inr ⟨.draining w.stopRequested, ?_, ?_, nofun⟩
    · unfold move
      rw [hphase]
    · intro hlast
      injection hlast with hlast
      exact .inl hlast
  | sleeping =>
    refine .inr ⟨.checking, ?_, nofun, nofun⟩
    unfold move
    rw [hphase]
  | finished =>
    refine .inr ⟨.finished, ?_, nofun, fun _ => .inl rfl⟩
    unfold move
    rw [hphase]
    show w = { w with phase := .finished }
    rw [← hphase]
  | draining last =>
    cases hwaiting : w.queue.snapshots with
    | cons s rest =>
      refine .inl ⟨s, rest, last, rfl, rfl, ?_⟩
      rw [move_cons hphase hwaiting, hphase]
    | nil =>
      -- only here does a drain come to its end, and the worker with it if it was the last one
      refine .inr ⟨_, move_nil hphase hwaiting, ?_, ?_⟩
      · cases last
        · exact nofun
        · exact nofun
      · cases last
        · exact nofun
        · exact fun _ => .inr ⟨rfl, rfl⟩

/-- Setting the flag moves nothing. -/
theorem Balanced.requestStop (h : w.Balanced sink pushed) : w.requestStop.Balanced sink pushed :=
  ⟨h.tallied, h.balance⟩

/-- Every event keeps the balance: a push that is accepted waits behind the others, and a pop hands
over what waited first. -/
theorem Balanced.react (h : w.Balanced sink pushed) (event : WorkerEvent α) :
    (w.react event).Balanced sink (pushed ++ w.entry event) := by
  cases event with
  | requestStop =>
    rw [entry, List.append_nil]
    exact h.requestStop
  | push s =>
    rcases Nat.lt_or_ge w.queue.length TelemetryQueue.depth with hfree | hfull
    · have hpush := TelemetryQueue.push_of_lt s hfree
      refine ⟨h.tallied, ?_⟩
      show w.handed ++ (w.queue.push s).2.snapshots
        = pushed ++ if (w.queue.push s).1 then [s] else []
      rw [hpush, ← h.balance, List.append_assoc]
      rfl
    · have hpush := TelemetryQueue.push_of_le s hfull
      refine ⟨h.tallied, ?_⟩
      show w.handed ++ (w.queue.push s).2.snapshots
        = pushed ++ if (w.queue.push s).1 then [s] else []
      rw [hpush, ← h.balance]
      exact (List.append_nil _).symm
  | move =>
    show w.move.Balanced sink (pushed ++ [])
    rw [List.append_nil]
    rcases move_cases w with ⟨s, rest, last, -, hwaiting, hmove⟩ | ⟨phase, hmove, -⟩
    · rw [hmove]
      refine ⟨h.tallied.publish s, ?_⟩
      show (w.publisher.publish s).state.2 ++ rest = pushed
      rw [Publisher.publish_noted h.tallied.noting, List.append_assoc, ← h.balance, hwaiting]
      rfl
    · rw [hmove]
      exact ⟨h.tallied, h.balance⟩

/-- Whatever is accepted in a run is accounted for. -/
theorem Balanced.run (h : w.Balanced sink pushed) (events : List (WorkerEvent α)) :
    (w.run events).Balanced sink (pushed ++ w.accepted events) := by
  induction events generalizing w pushed with
  | nil =>
    show w.Balanced sink (pushed ++ [])
    rw [List.append_nil]
    exact h
  | cons event rest ih =>
    show ((w.react event).run rest).Balanced sink
      (pushed ++ (w.entry event ++ (w.react event).accepted rest))
    rw [← List.append_assoc]
    exact ih (h.react event)

/-! ## Before and after the flag is set -/

/-- The flag is not set, and the worker has neither begun its last drain nor ended. -/
structure Unasked (w : TelemetryWorker α τ) : Prop where
  unset : w.stopRequested = false
  notLast : w.phase ≠ .draining true
  notFinished : w.phase ≠ .finished

/-- Nobody has asked a new worker to stop. -/
theorem spawn_unasked (publisher : Publisher α τ) (queue : TelemetryQueue α) :
    (spawn publisher queue).Unasked := ⟨rfl, nofun, nofun⟩

/-- Only a request sets the flag. -/
theorem Unasked.react (h : w.Unasked) (hevent : event ≠ .requestStop) : (w.react event).Unasked := by
  cases event with
  | requestStop => exact absurd rfl hevent
  | push s => exact ⟨h.unset, h.notLast, h.notFinished⟩
  | move =>
    show w.move.Unasked
    rcases move_cases w with ⟨s, rest, last, -, -, hmove⟩ | ⟨phase, hmove, hlast, hfinished⟩
    · rw [hmove]
      exact ⟨h.unset, h.notLast, h.notFinished⟩
    · rw [hmove]
      refine ⟨h.unset, ?_, ?_⟩
      · intro hphase
        rcases hlast hphase with hset | hdraining
        · exact Bool.false_ne_true (h.unset.symm.trans hset)
        · exact h.notLast hdraining
      · intro hphase
        rcases hfinished hphase with hended | ⟨hdraining, -⟩
        · exact h.notFinished hended
        · exact h.notLast hdraining

/-- Without a request the flag is not set in a run either. -/
theorem Unasked.run (h : w.Unasked) (hevents : ∀ event ∈ events, event ≠ .requestStop) :
    (w.run events).Unasked := by
  induction events generalizing w with
  | nil => exact h
  | cons event rest ih =>
    exact ih (h.react (hevents event List.mem_cons_self))
      fun later hlater => hevents later (List.mem_cons_of_mem event hlater)

/-- What was pushed up to some moment comes first in all that is handed over or waits, and a worker
that has ended has handed all of it over. -/
structure Settled (pushed : List (Snapshot α)) (w : TelemetryWorker α (τ × List (Snapshot α))) :
    Prop where
  foremost : pushed <+: w.handed ++ w.queue.snapshots
  delivered : w.phase = .finished → pushed <+: w.handed

/-- No event undoes what is settled.  A worker ends only with an empty queue, so that what is handed
over by then is all that was pushed. -/
theorem Settled.react (h : w.Settled pushed) {accepted : List (Snapshot α)}
    (hbalanced : w.Balanced sink accepted) (event : WorkerEvent α) :
    (w.react event).Settled pushed := by
  have hforemost : pushed <+: (w.react event).handed ++ (w.react event).queue.snapshots := by
    rw [(hbalanced.react event).balance, ← hbalanced.balance]
    exact h.foremost.trans (List.prefix_append _ _)
  refine ⟨hforemost, ?_⟩
  cases event with
  | requestStop => exact h.delivered
  | push s => exact h.delivered
  | move =>
    show w.move.phase = .finished → pushed <+: w.move.handed
    rcases move_cases w with ⟨s, rest, last, hphase, -, hmove⟩ | ⟨phase, hmove, -, hfinished⟩
    · rw [hmove]
      intro hended
      cases hphase.symm.trans hended
    · rw [hmove]
      intro hended
      rcases hfinished hended with hbefore | ⟨-, hempty⟩
      · exact h.delivered hbefore
      · -- nothing waits, so that what comes first in all that is handed over or waits is handed over
        have hall := h.foremost
        rw [hempty, List.append_nil] at hall
        exact hall

/-- Whatever comes after the flag leaves the promise in force. -/
theorem Settled.run (h : w.Settled pushed) {accepted : List (Snapshot α)}
    (hbalanced : w.Balanced sink accepted) (events : List (WorkerEvent α)) :
    (w.run events).Settled pushed := by
  induction events generalizing w accepted with
  | nil => exact h
  | cons event rest ih => exact ih (h.react hbalanced event) (hbalanced.react event)

/-- At the moment that the flag is set, all that was pushed is settled: the worker cannot have ended
before. -/
theorem Unasked.settled (h : w.Unasked) (hbalanced : w.Balanced sink pushed) :
    w.requestStop.Settled pushed where
  foremost := ⟨[], (List.append_nil _).trans hbalanced.balance.symm⟩
  delivered hended := absurd hended h.notFinished

/-- Whatever comes after the flag, an end comes with all that was pushed before it. -/
theorem Settled.ends (h : w.Settled pushed) (hbalanced : w.Balanced sink pushed)
    (hended : (w.run events).phase = .finished) :
    ∃ late, (w.run events).handed = pushed ++ late ∧
      w.accepted events = late ++ (w.run events).queue.snapshots := by
  obtain ⟨late, hlate⟩ := (h.run hbalanced events).delivered hended
  have hbalance := (hbalanced.run events).balance
  rw [← hlate, List.append_assoc] at hbalance
  exact ⟨late, hlate.symm, (List.append_cancel_left hbalance).symm⟩

/-- Once the flag is set it stays set. -/
theorem stopRequested_run (h : w.stopRequested = true) (events : List (WorkerEvent α)) :
    (w.run events).stopRequested = true := by
  induction events generalizing w with
  | nil => exact h
  | cons event rest ih =>
    refine ih ?_
    cases event with
    | move => exact (stopRequested_move w).trans h
    | push s => exact h
    | requestStop => rfl

/-! ## Joins -/

/-- A worker on its own brings nothing into its queue. -/
theorem accepted_moves (n : Nat) (w : TelemetryWorker α τ) :
    w.accepted (.replicate n .move) = [] := by
  induction n generalizing w with
  | zero => rfl
  | succ n ih => exact ih w.move

/-- A worker is spawned with a queue that may hold something, runs beside producers, is asked to
stop, and runs on beside them.  It comes to its end when the producers let it, and its rounds are
drains of its publisher.  When it has ended, the sink was sent, once and in the order of the pushes,
all that it was sent before, all that waited at the beginning, all that was accepted before the flag
was set, and some of what was accepted later; the rest of the latter is what still waits.  The
counts of the publisher add up to all that the sink was ever sent.  A join that no producer comes
between ends so, with nothing left in the queue. -/
theorem joined_loses_nothing {publisher : Publisher α (τ × List (Snapshot α))}
    {queue : TelemetryQueue α} {before after : List (WorkerEvent α)}
    {spawned asked joined : TelemetryWorker α (τ × List (Snapshot α))}
    (htallied : publisher.Tallied sink)
    (hbefore : ∀ event ∈ before, event ≠ .requestStop)
    (hspawned : spawned = spawn publisher queue)
    (hasked : asked = (spawned.run before).requestStop)
    (hjoined : joined = asked.run after) :
    (joined.run (.replicate joined.stepsLeft .move)).phase = .finished ∧
    (∀ last, joined.phase = .draining last →
      joined.run (.replicate (joined.queue.length + 1) .move)
        = { joined with
            publisher := (joined.publisher.drain joined.queue).publisher
            queue := (joined.publisher.drain joined.queue).queue
            phase := if last then .finished else .sleeping }) ∧
    (joined.phase = .finished →
      (∃ late, joined.handed
          = publisher.state.2 ++ queue.snapshots ++ spawned.accepted before ++ late ∧
        asked.accepted after = late ++ joined.queue.snapshots) ∧
      joined.publisher.published + joined.publisher.failed = .ofNat joined.handed.length ∧
      (joined.handed.length < 2 ^ 64 →
        joined.publisher.published.toNat + joined.publisher.failed.toNat
          = joined.handed.length)) ∧
    ((spawned.run before).join.phase = .finished ∧
      (spawned.run before).join.handed
        = publisher.state.2 ++ queue.snapshots ++ spawned.accepted before ∧
      (spawned.run before).join.queue.snapshots = []) := by
  subst hspawned
  have hstart : (spawn publisher queue).Balanced sink (publisher.state.2 ++ queue.snapshots) :=
    ⟨htallied, rfl⟩
  have hunasked := (spawn_unasked publisher queue).run hbefore
  have hset : asked.Balanced sink
      (publisher.state.2 ++ queue.snapshots ++ (spawn publisher queue).accepted before) := by
    rw [hasked]
    exact (hstart.run before).requestStop
  have hsettled : asked.Settled
      (publisher.state.2 ++ queue.snapshots ++ (spawn publisher queue).accepted before) := by
    rw [hasked]
    exact hunasked.settled (hstart.run before)
  refine ⟨?_, fun last hphase => run_round hphase, fun hfinished => ?_, ?_⟩
  · rw [← moves_eq_run]
    refine phase_moves _ joined ?_ (Nat.le_refl _)
    rw [hjoined]
    refine stopRequested_run ?_ after
    rw [hasked]
    rfl
  · have htally := (hset.run after).tallied
    rw [← hjoined] at htally
    refine ⟨?_, htally.sum, htally.total⟩
    rw [hjoined] at hfinished ⊢
    exact hsettled.ends hset hfinished
  · have hended := phase_join ((spawn publisher queue).run before)
    have hmoves : ((spawn publisher queue).run before).join
        = asked.run (.replicate asked.stepsLeft .move) := by
      rw [hasked]
      exact join_eq_run _
    rw [hmoves] at hended ⊢
    obtain ⟨late, hhanded, hlate⟩ := hsettled.ends hset hended
    rw [accepted_moves] at hlate
    obtain ⟨rfl, hempty⟩ := List.append_eq_nil_iff.mp hlate.symm
    exact ⟨hended, hhanded.trans (List.append_nil _), hempty⟩

/-- The snapshot of a cycle in which nothing moved. -/
def restful (cycle : UInt64) : Snapshot Float :=
  .capture { (ControlState.initial : ControlState Float) with cycle }

/-- A worker with one snapshot in its queue, whose sink refuses every other one. -/
def hesitant : TelemetryWorker Float (Journal Float × List (Snapshot Float)) :=
  spawn (.fresh (Journal.failing 2).noting (.empty, [])) ⟨[restful 0], 0⟩

/-- Two snapshots are pushed while the worker is in its first drain. -/
def early : List (WorkerEvent Float) := [.move, .push (restful 1), .move, .push (restful 2)]

/-- A push comes between the flag and the end of the drain that is going on, and another one after
the last drain. -/
def belated : List (WorkerEvent Float) :=
  [.push (restful 3)] ++ .replicate 7 .move ++ [.push (restful 4)]

/-- Four snapshots reach the sink, which refuses two of them, and the fifth still waits. -/
theorem hesitant_joined :
    ∃ asked joined, asked = (hesitant.run early).requestStop ∧ joined = asked.run belated ∧
      joined.phase = .finished ∧
      (∃ late, joined.handed = [] ++ [restful 0] ++ [restful 1, restful 2] ++ late ∧
        asked.accepted belated = late ++ joined.queue.snapshots ∧
        joined.queue.snapshots = [restful 4]) ∧
      joined.publisher.published.toNat + joined.publisher.failed.toNat = joined.handed.length ∧
      joined.publisher.published = 2 ∧ joined.publisher.failed = 2 ∧
      (hesitant.run early).join.handed = [] ++ [restful 0] ++ [restful 1, restful 2] := by
  have htallied : (Publisher.fresh (Journal.failing 2).noting
      ((.empty, []) : Journal Float × List (Snapshot Float))).Tallied (Journal.failing 2) :=
    Publisher.fresh_tallied _
  have hearly : ∀ event ∈ early, event ≠ .requestStop := by
    simp [early]
  obtain ⟨-, -, hended, -, hjoin, -⟩ := joined_loses_nothing htallied hearly
    (rfl : hesitant = _) rfl (rfl : _ = ((hesitant.run early).requestStop).run belated)
  obtain ⟨⟨late, hhanded, hlate⟩, -, hcounts⟩ := hended rfl
  exact ⟨_, _, rfl, rfl, rfl, ⟨late, hhanded, hlate, rfl⟩, hcounts (by decide), rfl, rfl, hjoin⟩

end TelemetryWorker

end MotionControl
