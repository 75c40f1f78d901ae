import MotionControl.Proofs.Engine.Actuation
import MotionControl.Proofs.Engine.FaultFree
import MotionControl.Proofs.Engine.Reporting
import MotionControl.Proofs.History
import MotionControl.Proofs.Telemetry.Exchange

/-!
# Conservation of telemetry

Between an engine and its publisher no snapshot is lost but by a full queue, none is handed over
twice or out of order, and the counters say what became of them.

- `Exchange.Accounts`, `Exchange.Conserved`: where the snapshots are, what the counters say of them,
  and in which order they are handed over.
- `Exchange.Balanced`: what keeps the accounts, whatever happens next.
- `Exchange.telemetry_is_conserved`: they are kept in every interleaving.
-/

namespace MotionControl

open Outcome

namespace Exchange

open Engine

variable {α σ τ : Type}

/-! ## Balance -/

/-- Where the snapshots are, and what the counters say of them. -/
structure Accounts (interval : Nat) (log : List (Consignment α))
    (x : Exchange α σ (τ × List (Snapshot α))) : Prop where
  /-- The sink was sent what was taken off the queue. -/
  noted : x.publisher.state.2 = handovers log
  /-- A multiple of the interval, from the interval itself to the current cycle, is in one of the
  three groups and there once; nothing else is in any of them. -/
  accounted : ∀ n, (cyclesOf (handovers log)).count n + (cyclesOf x.queue.snapshots).count n
      + (cyclesOf (losses log)).count n
    = if 0 < n ∧ interval ∣ n ∧ n ≤ x.engine.state.cycle.toNat then 1 else 0
  full : ∀ s waiting, .lost s waiting ∈ log → waiting = 64
  dropped : x.queue.dropped.toNat = (losses log).length
  counted : x.publisher.published.toNat + x.publisher.failed.toNat = (handovers log).length
  /-- A drain that is over returns how much it handed over. -/
  drained : EachFollows (fun before event => ∀ count, event = .drained count →
    count.toNat = handedSince before) log

/-- The accounts, and the order in which snapshots are handed over. -/
structure Conserved (interval : Nat) (log : List (Consignment α))
    (x : Exchange α σ (τ × List (Snapshot α))) : Prop extends Accounts interval log x where
  increasing : (cyclesOf (handovers log)).Pairwise (· < ·)
  multiples : ∀ n ∈ cyclesOf (handovers log), interval ∣ n

/-- The accounts, and what keeps them: what waits was taken after everything that was handed over,
the publisher knows what its drain has handed over, and no counter runs out before the one of the
cycles does. -/
structure Balanced (interval : Nat) (log : List (Consignment α))
    (x : Exchange α σ (τ × List (Snapshot α))) : Prop extends Accounts interval log x where
  attached : x.engine.telemetry = some x.queue
  reports : x.engine.parameters.telemetryInterval.toNat = interval
  punctual : x.engine.hooks.Punctual
  noting : ∃ sink : TelemetrySink α τ, x.publisher.sink = sink.noting
  room : x.queue.length ≤ TelemetryQueue.depth
  ordered : (cyclesOf (handovers log) ++ cyclesOf x.queue.snapshots).Pairwise (· < ·)
  taken : x.taken.toNat = handedSince log
  few : (handovers log).length + x.queue.length + (losses log).length
    ≤ x.engine.state.cycle.toNat

/-- The engine is one cycle older. -/
structure Older (e e' : Engine α σ) : Prop where
  cycle : e'.state.cycle.toNat = e.state.cycle.toNat + 1
  interval : e'.parameters.telemetryInterval = e.parameters.telemetryInterval
  hooks : e'.hooks = e.hooks

/-- The queue is no matter for the number of the cycle. -/
theorem Older.reporting {e e' : Engine α σ} (h : Older e e')
    (telemetry : Option (TelemetryQueue α)) : Older e { e' with telemetry } :=
  ⟨h.cycle, h.interval, h.hooks⟩

namespace Balanced

variable {interval : Nat} {log : List (Consignment α)} {x : Exchange α σ (τ × List (Snapshot α))}
  {e' : Engine α σ}

/-- Balanced accounts say what became of every snapshot. -/
theorem conserved (h : Balanced interval log x) : Conserved interval log x where
  toAccounts := h.toAccounts
  increasing := (List.pairwise_append.mp h.ordered).1
  multiples n hn := by
    have haccounted := h.accounted n
    have hcount := List.count_pos_iff.mpr hn
    by_contra hnot
    rw [if_neg (fun hdue => hnot hdue.2.1)] at haccounted
    omega

/-- Nothing that was queued is ahead of its time. -/
theorem past (h : Balanced interval log x) {n : Nat}
    (hn : n ∈ cyclesOf (handovers log) ++ cyclesOf x.queue.snapshots) :
    n ≤ x.engine.state.cycle.toNat := by
  have haccounted := h.accounted n
  have hcount := List.count_pos_iff.mpr hn
  rw [List.count_append] at hcount
  by_contra hnot
  rw [if_neg (fun hdue => hnot hdue.2.2)] at haccounted
  omega

/-- There is always a next number for a counter of snapshots. -/
theorem countable (h : Balanced interval log x) :
    (handovers log).length + x.queue.length + (losses log).length < 2 ^ 64 :=
  h.few.trans_lt x.engine.state.cycle.toNat_lt

/-- What neither counts nor reports is no news. -/
theorem of_unreported (h : Balanced interval log x) (hsame : x.engine.Unreported e') :
    Balanced interval log { x with engine := e' } := by
  have hqueue : ({ x with engine := e' } : Exchange α σ (τ × List (Snapshot α))).queue = x.queue :=
    congrArg (·.getD .empty) hsame.telemetry
  refine ⟨⟨h.noted, ?_, h.full, hqueue ▸ h.dropped, h.counted, h.drained⟩, ?_, ?_,
    hsame.hooks ▸ h.punctual, h.noting, hqueue ▸ h.room, hqueue ▸ h.ordered, h.taken, ?_⟩
  · rw [hqueue]
    show ∀ n, _ = if 0 < n ∧ interval ∣ n ∧ n ≤ e'.state.cycle.toNat then 1 else 0
    rw [hsame.cycle]
    exact h.accounted
  · rw [hqueue]
    exact hsame.telemetry.trans h.attached
  · rw [← h.reports]
    exact congrArg UInt32.toNat hsame.interval
  · rw [hqueue]
    show _ ≤ e'.state.cycle.toNat
    rw [hsame.cycle]
    exact h.few

/-! ## Cycles -/

/-- A cycle that is not due leaves everything where it is. -/
theorem undue (h : Balanced interval log x) (holder : Older x.engine e')
    (hqueue : e'.telemetry = some x.queue) (hdue : ¬ interval ∣ e'.state.cycle.toNat) :
    Balanced interval log { x with engine := e' } := by
  have hsame : ({ x with engine := e' } : Exchange α σ (τ × List (Snapshot α))).queue = x.queue :=
    congrArg (·.getD .empty) hqueue
  refine ⟨⟨h.noted, fun n => ?_, h.full, hsame ▸ h.dropped, h.counted, h.drained⟩,
    hsame ▸ hqueue, ?_, holder.hooks ▸ h.punctual, h.noting, hsame ▸ h.room, hsame ▸ h.ordered,
    h.taken, ?_⟩
  · rw [hsame, h.accounted n]
    refine if_congr (and_congr_right fun _ => and_congr_right fun hmultiple => ?_) rfl rfl
    have hother : n ≠ e'.state.cycle.toNat := fun heq => hdue (heq ▸ hmultiple)
    show n ≤ x.engine.state.cycle.toNat ↔ n ≤ e'.state.cycle.toNat
    rw [holder.cycle] at hother ⊢
    omega
  · rw [← h.reports]
    exact congrArg UInt32.toNat holder.interval
  · rw [hsame]
    show _ ≤ e'.state.cycle.toNat
    rw [holder.cycle]
    exact h.few.trans (Nat.le_succ _)

/-- What is due up to a cycle that is due itself. -/
theorem due_succ {c n : Nat} (hdue : interval ∣ c + 1) :
    (if 0 < n ∧ interval ∣ n ∧ n ≤ c + 1 then 1 else 0)
      = (if 0 < n ∧ interval ∣ n ∧ n ≤ c then 1 else 0) + [c + 1].count n := by
  by_cases hlast : n = c + 1
  · subst hlast
    simp [hdue]
  · have hpast : n ≤ c + 1 ↔ n ≤ c := by omega
    simp [hpast, Ne.symm hlast]

/-- A snapshot that finds room is the last one to wait. -/
theorem queued (h : Balanced interval log x) (holder : Older x.engine e') {s : Snapshot α}
    (hcycle : s.cycle = e'.state.cycle) (hdue : interval ∣ e'.state.cycle.toNat)
    (hfree : x.queue.length < TelemetryQueue.depth)
    (hqueue : e'.telemetry = some { x.queue with snapshots := x.queue.snapshots ++ [s] }) :
    Balanced interval log { x with engine := e' } := by
  have hsame : ({ x with engine := e' } : Exchange α σ (τ × List (Snapshot α))).queue
      = { x.queue with snapshots := x.queue.snapshots ++ [s] } := congrArg (·.getD .empty) hqueue
  have hnow : cyclesOf [s] = [x.engine.state.cycle.toNat + 1] := by
    rw [← holder.cycle, ← hcycle]
    rfl
  refine ⟨⟨h.noted, fun n => ?_, h.full, hsame ▸ h.dropped, h.counted, h.drained⟩,
    hsame ▸ hqueue, ?_, holder.hooks ▸ h.punctual, h.noting, ?_, ?_, h.taken, ?_⟩
  · have haccounted := h.accounted n
    show _ = if 0 < n ∧ interval ∣ n ∧ n ≤ e'.state.cycle.toNat then 1 else 0
    rw [holder.cycle] at hdue ⊢
    rw [hsame, cyclesOf_append, hnow, List.count_append, due_succ hdue]
    omega
  · rw [← h.reports]
    exact congrArg UInt32.toNat holder.interval
  · rw [hsame]
    show (x.queue.snapshots ++ [s]).length ≤ _
    rw [List.length_append]
    exact hfree
  · rw [hsame, cyclesOf_append, ← List.append_assoc, List.pairwise_append]
    refine ⟨h.ordered, List.pairwise_singleton _ _, fun n hn m hm => ?_⟩
    have hpast := h.past hn
    rw [hnow, List.mem_singleton] at hm
    omega
  · have hfew := h.few
    rw [hsame]
    show _ + (x.queue.snapshots ++ [s]).length + _ ≤ e'.state.cycle.toNat
    rw [holder.cycle, List.length_append]
    show _ + (x.queue.length + 1) + _ ≤ _
    omega

/-- A snapshot that finds none is lost. -/
theorem lost (h : Balanced interval log x) (holder : Older x.engine e') {s : Snapshot α}
    (hcycle : s.cycle = e'.state.cycle) (hdue : interval ∣ e'.state.cycle.toNat)
    (hfull : TelemetryQueue.depth ≤ x.queue.length)
    (hqueue : e'.telemetry = some { x.queue with dropped := x.queue.dropped + 1 }) :
    Balanced interval (log ++ [.lost s x.queue.length]) { x with engine := e' } := by
  have hsame : ({ x with engine := e' } : Exchange α σ (τ × List (Snapshot α))).queue
      = { x.queue with dropped := x.queue.dropped + 1 } := congrArg (·.getD .empty) hqueue
  have hnow : cyclesOf [s] = [x.engine.state.cycle.toNat + 1] := by
    rw [← holder.cycle, ← hcycle]
    rfl
  refine ⟨⟨?_, fun n => ?_, fun s' waiting hmem => ?_, ?_, ?_, ?_⟩, hsame ▸ hqueue, ?_,
    holder.hooks ▸ h.punctual, h.noting, hsame ▸ h.room, ?_, ?_, ?_⟩
  · rw [handovers_lost]
    exact h.noted
  · have haccounted := h.accounted n
    show _ = if 0 < n ∧ interval ∣ n ∧ n ≤ e'.state.cycle.toNat then 1 else 0
    rw [holder.cycle] at hdue ⊢
    rw [handovers_lost, losses_lost, hsame, cyclesOf_append, hnow, List.count_append, due_succ hdue]
    show _ + (cyclesOf x.queue.snapshots).count n + _ = _
    omega
  · obtain hbefore | hnew := List.mem_append.mp hmem
    · exact h.full s' waiting hbefore
    · cases List.mem_singleton.mp hnew
      exact le_antisymm h.room hfull
  · have hcountable := h.countable
    have hwaiting : 0 < x.queue.length := (by decide : 0 < TelemetryQueue.depth).trans_le hfull
    rw [hsame, losses_lost, List.length_append, ← h.dropped]
    show (x.queue.dropped + 1).toNat = _
    rw [UInt64.toNat_add]
    exact Nat.mod_eq_of_lt (by rw [h.dropped, UInt64.toNat_one]; omega)
  · rw [handovers_lost]
    exact h.counted
  · refine h.drained.concat ?_
    rintro count ⟨⟩
  · rw [← h.reports]
    exact congrArg UInt32.toNat holder.interval
  · rw [handovers_lost, hsame]
    exact h.ordered
  · rw [handedSince_lost]
    exact h.taken
  · have hfew := h.few
    rw [handovers_lost, losses_lost, hsame, List.length_append, ← Nat.add_assoc]
    show _ ≤ e'.state.cycle.toNat
    rw [holder.cycle]
    exact Nat.succ_le_succ hfew

/-- The end of a cycle that counted itself. -/
theorem publish (h : Balanced interval log x) {ended : Engine α σ} (hinterval : 0 < interval)
    (hended : x.engine.tick.Unreported ended)
    (hroom : x.engine.state.cycle.toNat + 1 < 2 ^ 64) :
    Balanced interval (log ++ x.refusal ended.publish) { x with engine := ended.publish } := by
  have hqueue : ended.telemetry = some x.queue := hended.telemetry.trans h.attached
  have hreports : ended.parameters.telemetryInterval.toNat = interval := by
    rw [hended.interval]
    exact h.reports
  have hdue_iff : ended.Due ↔ interval ∣ ended.state.cycle.toNat := by
    unfold Engine.Due
    rw [hreports]
    exact and_iff_right hinterval
  have holder : Older x.engine ended := by
    refine ⟨?_, hended.interval, hended.hooks⟩
    rw [hended.cycle]
    show (x.engine.state.cycle + 1).toNat = _
    rw [UInt64.toNat_add]
    exact Nat.mod_eq_of_lt hroom
  rw [Engine.publish_spec hqueue]
  by_cases hdue : ended.Due
  · rw [if_pos hdue]
    by_cases hfree : x.queue.length < TelemetryQueue.depth
    · rw [refusal_of_lt hfree, List.append_nil, TelemetryQueue.push_of_lt _ hfree]
      exact h.queued (holder.reporting _) rfl (hdue_iff.mp hdue) hfree rfl
    · have hfull := Nat.not_lt.mp hfree
      have hstill : Engine.Due { ended with
          telemetry := some (x.queue.push (.capture ended.state)).2 } := hdue
      rw [refusal_of_le hstill hfull, TelemetryQueue.push_of_le _ hfull]
      exact h.lost (holder.reporting _) rfl (hdue_iff.mp hdue) hfull rfl
  · rw [if_neg hdue, refusal_of_not_due hdue, List.append_nil]
    exact h.undue holder hqueue fun hmultiple => hdue (hdue_iff.mpr hmultiple)

/-! ## Pops -/

/-- Finding no snapshot ends the drain. -/
theorem exhausted (h : Balanced interval log x) :
    Balanced interval (log ++ [.drained x.taken]) { x with taken := 0 } := by
  refine ⟨⟨?_, fun n => ?_, fun s waiting hmem => ?_, ?_, ?_, ?_⟩, h.attached, h.reports,
    h.punctual, h.noting, h.room, ?_, ?_, ?_⟩
  · rw [handovers_drained]
    exact h.noted
  · rw [handovers_drained, losses_drained]
    exact h.accounted n
  · exact h.full s waiting (by simpa using hmem)
  · rw [losses_drained]
    exact h.dropped
  · rw [handovers_drained]
    exact h.counted
  · refine h.drained.concat ?_
    rintro count ⟨⟩
    exact h.taken
  · rw [handovers_drained]
    exact h.ordered
  · exact (handedSince_drained x.taken).symm
  · rw [handovers_drained, losses_drained]
    exact h.few

/-- A snapshot that is taken off the queue moves from those that wait to those that were handed
over. -/
theorem handed (h : Balanced interval log x) {s : Snapshot α} {rest : List (Snapshot α)}
    (hwaiting : x.queue.snapshots = s :: rest) :
    Balanced interval (log ++ [.handed s])
      ⟨{ x.engine with telemetry := some { x.queue with snapshots := rest } },
        x.publisher.publish s, x.taken + 1⟩ := by
  obtain ⟨sink, hsink⟩ := h.noting
  have hcountable := h.countable
  have hlength : x.queue.length = rest.length + 1 := congrArg List.length hwaiting
  have hmoved : cyclesOf x.queue.snapshots = cyclesOf [s] ++ cyclesOf rest := by
    rw [hwaiting]
    rfl
  refine ⟨⟨?_, fun n => ?_, fun s' waiting hmem => ?_, ?_, ?_, ?_⟩, rfl, h.reports, h.punctual,
    ⟨sink, (Publisher.publish_sink _ s).trans hsink⟩, ?_, ?_, ?_, ?_⟩
  · rw [handovers_handed, ← h.noted]
    exact Publisher.publish_noted hsink s
  · have haccounted := h.accounted n
    rw [hmoved, List.count_append] at haccounted
    rw [handovers_handed, losses_handed, cyclesOf_append, List.count_append]
    show _ + (cyclesOf rest).count n + _
      = if 0 < n ∧ interval ∣ n ∧ n ≤ x.engine.state.cycle.toNat then 1 else 0
    omega
  · exact h.full s' waiting (by simpa using hmem)
  · rw [losses_handed]
    exact h.dropped
  · rw [handovers_handed, List.length_append, ← h.counted]
    refine Publisher.publish_total _ s ?_
    rw [h.counted]
    omega
  · refine h.drained.concat ?_
    rintro count ⟨⟩
  · have hroom := h.room
    rw [hlength] at hroom
    exact (Nat.le_succ _).trans hroom
  · have hordered := h.ordered
    rw [hmoved, ← List.append_assoc] at hordered
    rw [handovers_handed, cyclesOf_append]
    exact hordered
  · have hpart := handedSince_le log
    rw [handedSince_handed, ← h.taken]
    show (x.taken + 1).toNat = _
    rw [UInt64.toNat_add]
    exact Nat.mod_eq_of_lt (by rw [h.taken, UInt64.toNat_one]; omega)
  · have hfew := h.few
    rw [handovers_handed, losses_handed, List.length_append]
    show _ + rest.length + _ ≤ x.engine.state.cycle.toNat
    rw [List.length_singleton]
    omega

variable [Scalar α]

/-- A pop hands over the oldest snapshot, or ends the drain. -/
theorem pop (h : Balanced interval log x) : Balanced interval (log ++ x.news .pop) x.pop := by
  rcases hwaiting : x.queue.snapshots with _ | ⟨s, rest⟩
  · rw [pop_nil h.attached hwaiting, news_nil h.attached hwaiting]
    exact h.exhausted
  · rw [pop_cons h.attached hwaiting, news_cons h.attached hwaiting]
    exact h.handed hwaiting

/-! ## Events -/

/-- A cycle that comes to its end reports once. -/
theorem step (h : Balanced interval log x) (hinterval : 0 < interval)
    (hroom : x.engine.state.cycle.toNat + 1 < 2 ^ 64) (hstep : x.engine.step = .ok e') :
    Balanced interval (log ++ x.news (.engine .step)) { x with engine := e' } := by
  have hnews : x.news (.engine .step) = x.refusal e' := by
    simp only [news, hstep]
  have hstepped := x.engine.step_stepped h.punctual
  rw [hstep] at hstepped
  rw [hnews]
  cases hstepped with
  | finished unreported => exact h.publish hinterval unreported hroom

/-- Whatever happens next, the accounts are kept. -/
theorem react (h : Balanced interval log x) (hinterval : 0 < interval) {event : ExchangeEvent α}
    {x' : Exchange α σ (τ × List (Snapshot α))}
    (hroom : x.engine.state.cycle.toNat + [event].countP ExchangeEvent.isStep < 2 ^ 64)
    (hreact : x.react event = .ok x') : Balanced interval (log ++ x.news event) x' := by
  cases event with
  | pop =>
    cases hreact
    exact h.pop
  | engine operation =>
    obtain ⟨e', hperform, rfl⟩ := map_eq_ok_iff.mp hreact
    cases operation with
    | request what =>
      cases hperform
      show Balanced interval (log ++ []) _
      rw [List.append_nil]
      exact h.of_unreported (x.engine.request_unreported what)
    | step => exact h.step hinterval hroom hperform

end Balanced

/-! ## Runs -/

section Runs

variable [Scalar α] {x' : Exchange α σ τ} {event : ExchangeEvent α}

/-- Only a cycle counts, and by one. -/
theorem cycle_react {x : Exchange α σ τ} (h : x.engine.hooks.Punctual)
    (hreact : x.react event = .ok x') :
    x'.engine.state.cycle.toNat ≤
      x.engine.state.cycle.toNat + [event].countP ExchangeEvent.isStep := by
  cases event with
  | pop =>
    cases hreact
    obtain ⟨telemetry, hpop⟩ := x.pop_engine
    rw [hpop]
    exact Nat.le_add_right _ _
  | engine operation =>
    obtain ⟨e', hperform, rfl⟩ := map_eq_ok_iff.mp hreact
    cases operation with
    | request what =>
      cases hperform
      exact (congrArg UInt64.toNat (x.engine.request_unreported what).cycle).le
    | step =>
      change x.engine.step = .ok e' at hperform
      obtain ⟨hcycle, -⟩ := (x.engine.step_stepped h).cycle
      rw [hperform] at hcycle
      change e'.state.cycle = _ at hcycle
      show e'.state.cycle.toNat ≤ x.engine.state.cycle.toNat + 1
      rw [hcycle, UInt64.toNat_add]
      exact Nat.mod_le _ _

/-- The accounts are kept as long as the cycles can be told apart. -/
theorem Balanced.run {interval : Nat} {log : List (Consignment α)}
    {x x' : Exchange α σ (τ × List (Snapshot α))} {events : List (ExchangeEvent α)}
    (h : Balanced interval log x) (hinterval : 0 < interval)
    (hroom : x.engine.state.cycle.toNat + events.countP ExchangeEvent.isStep < 2 ^ 64)
    (hrun : x.run events = .ok x') : Balanced interval (log ++ x.journal events) x' := by
  induction events generalizing x log with
  | nil =>
    cases hrun
    rw [journal, List.append_nil]
    exact h
  | cons event rest ih =>
    obtain ⟨x₁, hreact, hrest⟩ := bind_eq_ok_iff.mp hrun
    have hsplit : (event :: rest).countP ExchangeEvent.isStep
        = [event].countP ExchangeEvent.isStep + rest.countP ExchangeEvent.isStep := by
      rw [← List.countP_append]
      rfl
    have hcycle := cycle_react h.punctual hreact
    have hjournal : x.journal (event :: rest) = x.news event ++ x₁.journal rest := by
      rw [journal, hreact]
    rw [hjournal, ← List.append_assoc]
    exact ih (h.react hinterval (by omega) hreact) (by omega) hrest

variable [LawfulScalar α]

/-- Every event comes to its end, and takes nothing away from the engine. -/
theorem react_finishes {x : Exchange α σ τ} (h : x.engine.Operable)
    (hhooks : x.engine.hooks.Willing) (hband : x.engine.plant.Banded) (event : ExchangeEvent α) :
    ∃ x', x.react event = .ok x' ∧ x.engine.Maintained x'.engine := by
  cases event with
  | pop =>
    obtain ⟨telemetry, hpop⟩ := x.pop_engine
    refine ⟨x.pop, rfl, ?_⟩
    rw [hpop]
    exact ⟨rfl, rfl, rfl, .refl⟩
  | engine operation =>
    cases operation with
    | request what =>
      exact ⟨{ x with engine := x.engine.request what }, rfl, x.engine.request_maintained what⟩
    | step =>
      obtain ⟨e', hstep⟩ := h.step_finishes hhooks hband
      have hkept := h.step_maintained
      rw [hstep] at hkept
      refine ⟨{ x with engine := e' }, ?_, hkept⟩
      show x.engine.step.map _ = _
      rw [hstep]
      rfl

/-- An engine that can be operated, with willing hooks, comes through any interleaving. -/
theorem run_finishes {x : Exchange α σ τ} (h : x.engine.Operable) (hhooks : x.engine.hooks.Willing)
    (hband : x.engine.plant.Banded) (events : List (ExchangeEvent α)) :
    ∃ x', x.run events = .ok x' := by
  induction events generalizing x with
  | nil => exact ⟨x, rfl⟩
  | cons event rest ih =>
    obtain ⟨x₁, hreact, hkept⟩ := react_finishes h hhooks hband event
    obtain ⟨x', hrest⟩ := ih (h.of_maintained hkept) (hkept.hooks ▸ hhooks) (hkept.plant ▸ hband)
    refine ⟨x', ?_⟩
    show (x.react event >>= (·.run rest)) = _
    rw [hreact]
    exact hrest

end Runs

/-! ## Main results -/

section Conservation

variable [Scalar α] {e : Engine α σ}

/-- Before the first cycle there is nothing to account for. -/
theorem opened_balanced (hbuilt : e.Built) (hqueue : e.telemetry = some .empty)
    (hhooks : e.hooks.Punctual) (sink : TelemetrySink α τ) (state : τ) :
    Balanced e.parameters.telemetryInterval.toNat [] (opened e sink.noting (state, [])) := by
  have hempty : (opened e sink.noting (state, [])).queue = .empty := queue_of_attached hqueue
  have hcycle : e.state.cycle.toNat = 0 := by
    rw [hbuilt.cycle]
    rfl
  refine ⟨⟨rfl, fun n => ?_, ?_, ?_, rfl, .nil⟩, ?_, rfl, hhooks, ⟨sink, rfl⟩, ?_, ?_, rfl, ?_⟩
  · rw [hempty]
    refine (if_neg ?_).symm
    rintro ⟨hpos, -, hpast⟩
    exact hpos.ne' (Nat.le_zero.mp (hcycle ▸ hpast))
  · rintro s waiting ⟨⟩
  · rw [hempty]
    rfl
  · rw [hempty]
    exact hqueue
  · rw [hempty]
    exact Nat.zero_le _
  · rw [hempty]
    exact List.Pairwise.nil
  · rw [hempty]
    exact Nat.zero_le _

variable [LawfulScalar α]

/-- A drain that begins now and that nothing comes between hands over all that waits, and returns
how much that is. -/
structure DrainsAll (x : Exchange α σ τ) : Prop where
  run : x.run (.replicate (x.queue.length + 1) .pop)
    = .ok ⟨{ x.engine with telemetry := some (x.publisher.drain x.queue).queue },
        (x.publisher.drain x.queue).publisher, 0⟩
  journal : x.journal (.replicate (x.queue.length + 1) .pop)
    = x.queue.snapshots.map .handed ++ [.drained (x.publisher.drain x.queue).taken]
  emptied : (x.publisher.drain x.queue).queue.length = 0
  returned : (x.publisher.drain x.queue).taken.toNat = x.queue.length

omit [LawfulScalar α] in
/-- Between two drains, the next one hands over all that waits and counts it. -/
theorem Balanced.drainsAll {interval : Nat} {log : List (Consignment α)}
    {x : Exchange α σ (τ × List (Snapshot α))} (h : Balanced interval log x) (hidle : x.taken = 0) :
    x.DrainsAll := by
  have hdrain : x.publisher.drain x.queue = Drain.finish ⟨x.publisher, x.queue, x.taken⟩ := by
    rw [hidle]
    rfl
  obtain ⟨hrun, hjournal⟩ := run_drain h.attached hdrain
  refine ⟨hrun, hjournal, ?_, ?_⟩
  · rw [Publisher.drain, Drain.finish_eq]
    rfl
  · have hroom := h.room
    rw [Publisher.drain, Drain.finish_eq]
    show (0 + UInt64.ofNat x.queue.length).toNat = _
    rw [UInt64.zero_add, UInt64.toNat_ofNat']
    exact Nat.mod_eq_of_lt (hroom.trans_lt (by decide))

/-- Whenever the drain of a publisher gets to the queue of its engine, whatever the sink refuses,
and whatever the engine is asked between its cycles, every snapshot is accounted for.  And from
there, a drain that nothing comes between is `Publisher.drain`. -/
theorem telemetry_is_conserved (hbuilt : e.Built) (hqueue : e.telemetry = some .empty)
    (hinterval : 0 < e.parameters.telemetryInterval.toNat) (hhooks : e.hooks.Punctual)
    (sink : TelemetrySink α τ) (state : τ) {events : List (ExchangeEvent α)}
    (hroom : events.countP ExchangeEvent.isStep < 2 ^ 64) :
    (e.hooks.Willing → e.plant.Banded →
        ∃ x', (opened e sink.noting (state, [])).run events = .ok x') ∧
      ∀ x', (opened e sink.noting (state, [])).run events = .ok x' →
        Conserved e.parameters.telemetryInterval.toNat
          ((opened e sink.noting (state, [])).journal events) x' ∧
        (x'.taken = 0 → x'.DrainsAll) := by
  refine ⟨fun hwilling hband => run_finishes hbuilt.operable hwilling hband events,
    fun x' hrun => ?_⟩
  have hopened := opened_balanced hbuilt hqueue hhooks sink state
  have hbalanced := hopened.run hinterval (by
    show e.state.cycle.toNat + _ < _
    rw [hbuilt.cycle]
    exact (Nat.zero_add _).trans_lt hroom) hrun
  exact ⟨hbalanced.conserved, hbalanced.drainsAll⟩

end Conservation

/-- A lift that never turns and queues a snapshot of every other cycle. -/
def watchedLift : Except (EngineError Float) (Engine Float Unit) :=
  ofMotor (.named "lift") 1 stuckEncoder slackActuators ⟨.idle, some .empty, 2⟩ ()

/-- A sink that refuses every other snapshot. -/
def fickleSink : TelemetrySink Float Bool where
  publish _ refuses := (if refuses then .error (.line "busy") else .ok (), !refuses)

/-- The queue is left alone until it is full and one snapshot is lost, and then read in two drains,
with cycles in between. -/
def neglected : List (ExchangeEvent Float) :=
  .replicate 130 (.engine .step) ++
    ([.pop, .engine .step, .engine .step] ++ .replicate 65 .pop ++ [.engine .step, .pop])

/-- Of the 66 snapshots, the 65 that found room are handed over, and the sink takes every other one
of them. -/
theorem watchedLift_conserves :
    ∃ e x', watchedLift = .ok e ∧
      (opened e fickleSink.noting (false, [])).run neglected = .ok x' ∧
      Conserved 2 ((opened e fickleSink.noting (false, [])).journal neglected) x' ∧
      x'.publisher.published = 33 ∧ x'.publisher.failed = 32 ∧ x'.queue.dropped = 1 := by
  have hran : (watchedLift.toOption.bind fun e =>
      ((opened e fickleSink.noting (false, [])).run neglected).toOption.map fun x =>
        (e.parameters.telemetryInterval.toNat, x.publisher.published, x.publisher.failed,
          x.queue.dropped)) = some (2, 33, 32, 1) := by
    decide +kernel
  obtain ⟨e, hbuilt, hran⟩ := Option.bind_eq_some_iff.mp hran
  obtain ⟨x', hrun, hcounts⟩ := Option.map_eq_some_iff.mp hran
  rw [toOption_eq_some_iff] at hbuilt hrun
  simp only [Prod.mk.injEq] at hcounts
  obtain ⟨hinterval, hpublished, hfailed, hdropped⟩ := hcounts
  obtain ⟨hqueue, hhooks⟩ : e.telemetry = some .empty ∧ e.hooks = .idle := by
    obtain ⟨_, _, -, rfl⟩ := ofMotor_eq_ok hbuilt
    exact ⟨rfl, rfl⟩
  have hpunctual : e.hooks.Punctual := hhooks ▸ Hooks.idle_discreet.punctual
  have hpositive : 0 < e.parameters.telemetryInterval.toNat := by omega
  have hcycles : neglected.countP ExchangeEvent.isStep < 2 ^ 64 := by decide +kernel
  obtain ⟨-, hconserved⟩ := telemetry_is_conserved (.motor hbuilt) hqueue hpositive hpunctual
    fickleSink false hcycles
  rw [hinterval] at hconserved
  exact ⟨e, x', hbuilt, hrun, (hconserved x' hrun).1, hpublished, hfailed, hdropped⟩

end Exchange

end MotionControl
