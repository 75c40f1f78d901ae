import Mathlib
import MotionControl.Proofs.Outcome
import MotionControl.Scalar
import MotionControl.Simulation.Bench
import MotionControl.Task

/-!
# Tasks with a budget of cycles

Whether a task goes on is read off the statistics that each of its cycles changes.  So the budget is
spent exactly, and what is reported in the end is what happened, because the statistics say the same
of the cycles so far at any time.

- `CycleTiming`, `CycleStats.recordAll`: the statistics of any cycles.
- `CycleStats.Reports`: what they say, and `CycleStats.Reports.record`: after one more cycle.
- `CycleStats.Reports.average_mem_iff`: when the average is between the extremes.
- `Task.loop_timing`: a loop that has begun spends what is left of its budget.
- `Task.budget_is_spent_and_reported`: a whole task, and the statistics of any cycles.
-/

namespace MotionControl

/-- How long a cycle took, and how late it began. -/
structure CycleTiming where
  duration : Int
  latency : Int

namespace CycleStats

/-! ## Statistics of any cycles -/

/-- The statistics after cycles, one after another. -/
def recordAll (timings : List CycleTiming) : CycleStats :=
  timings.foldl (fun s t => s.record t.duration t.latency) empty

/-- The last cycle is recorded after the others. -/
theorem recordAll_concat (timings : List CycleTiming) (t : CycleTiming) :
    recordAll (timings ++ [t]) = (recordAll timings).record t.duration t.latency :=
  List.foldl_concat ..

/-- How long the cycles took, in their order. -/
def durations (timings : List CycleTiming) : List Int := timings.map (·.duration)

/-- How late the cycles began, in their order. -/
def latencies (timings : List CycleTiming) : List Int := timings.map (·.latency)

theorem durations_concat (timings : List CycleTiming) (t : CycleTiming) :
    durations (timings ++ [t]) = durations timings ++ [t.duration] := List.map_append ..

theorem latencies_concat (timings : List CycleTiming) (t : CycleTiming) :
    latencies (timings ++ [t]) = latencies timings ++ [t.latency] := List.map_append ..

/-! ## What statistics say -/

/-- Durations as a clock measures them, and a total that can be told apart. -/
structure Measured (timings : List CycleTiming) : Prop where
  nonneg : ∀ d ∈ durations timings, 0 ≤ d
  fits : (durations timings).sum ≤ greatestDuration

/-- What statistics say about the cycles so far.  Before the first cycle, each extreme is at the end
of its range where any cycle moves it. -/
structure Reports (timings : List CycleTiming) (s : CycleStats) : Prop where
  count : s.count = .ofNat timings.length
  last : s.last = (durations timings).getLastD 0
  shortest : IsLeast {d | d ∈ greatestDuration :: durations timings} s.shortest
  longest : IsGreatest {d | d ∈ 0 :: durations timings} s.longest
  total : Measured timings → s.total = (durations timings).sum
  latency : IsGreatest {l | l ∈ 0 :: latencies timings} s.latency

/-- A number of cycles that is read as a signed one. -/
theorem toInt_toInt64 (n : UInt64) :
    n.toInt64.toInt = if n.toNat < 2 ^ 63 then (n.toNat : Int) else n.toNat - 2 ^ 64 := by
  show n.toBitVec.toInt = _
  rw [BitVec.toInt_eq_toNat_cond]
  show (if 2 * n.toNat < 2 ^ 64 then (n.toNat : Int) else n.toNat - ((2 ^ 64 : Nat) : Int)) = _
  split <;> split <;> omega

/-- A total that fits is not cut. -/
theorem saturate_of_mem {d : Int} (h : 0 ≤ d) (hfits : d ≤ greatestDuration) : saturate d = d := by
  have hrange : -0x8000000000000000 ≤ d := by omega
  rw [saturate, min_eq_right hfits, max_eq_right hrange]

theorem setOf_mem_cons_concat {β : Type} (first last : β) (l : List β) :
    {b | b ∈ first :: (l ++ [last])} = insert last {b | b ∈ first :: l} := by
  ext b
  simp only [List.mem_cons, List.mem_append, List.not_mem_nil, or_false, Set.mem_ofPred_eq,
    Set.mem_insert_iff]
  tauto

/-- An end of a range that a member reaches is of no account. -/
theorem isLeast_of_cons {β : Type} [PartialOrder β] {first least : β} {l : List β}
    (h : IsLeast {b | b ∈ first :: l} least) (hreached : ∃ b ∈ l, b ≤ first) :
    IsLeast {b | b ∈ l} least := by
  have hle : ∀ b ∈ l, least ≤ b := fun b hb => h.2 (List.mem_cons_of_mem _ hb)
  refine ⟨?_, hle⟩
  rcases List.mem_cons.mp h.1 with hend | hmem
  · obtain ⟨b, hb, hreached⟩ := hreached
    have heq : b = least := le_antisymm (hend ▸ hreached) (hle b hb)
    exact heq ▸ hb
  · exact hmem

variable {timings : List CycleTiming} {s : CycleStats}

namespace Measured

/-- Time that was measured does not run backward. -/
theorem total_nonneg (h : Measured timings) : 0 ≤ (durations timings).sum :=
  List.sum_nonneg h.nonneg

/-- No cycle takes longer than all of them together. -/
theorem le_greatest (h : Measured timings) {d : Int} (hd : d ∈ durations timings) :
    d ≤ greatestDuration :=
  (List.single_le_sum h.nonneg d hd).trans h.fits

/-- What is said of cycles holds without the last of them as well. -/
theorem of_concat {t : CycleTiming} (h : Measured (timings ++ [t])) :
    Measured timings ∧ 0 ≤ t.duration ∧
      (durations timings).sum + t.duration ≤ greatestDuration := by
  obtain ⟨hnonneg, hfits⟩ := h
  rw [durations_concat] at hnonneg hfits
  rw [List.forall_mem_append, List.forall_mem_singleton] at hnonneg
  rw [List.sum_append, List.sum_singleton] at hfits
  exact ⟨⟨hnonneg.1, by omega⟩, hnonneg.2, hfits⟩

end Measured

namespace Reports

/-- Nothing has happened, and this is what is reported. -/
theorem empty : Reports [] CycleStats.empty where
  count := rfl
  last := rfl
  shortest := by simp [durations, CycleStats.empty]
  longest := by simp [durations, CycleStats.empty]
  total _ := rfl
  latency := by simp [latencies, CycleStats.empty]

/-- One more cycle, and all that is reported stays true. -/
theorem record (h : Reports timings s) (t : CycleTiming) :
    Reports (timings ++ [t]) (s.record t.duration t.latency) where
  count := by
    show s.count + 1 = _
    rw [h.count, List.length_append, UInt64.ofNat_add]
    rfl
  last := by
    rw [durations_concat, List.getLastD_concat]
    rfl
  shortest := by
    show IsLeast _ (min s.shortest t.duration)
    rw [durations_concat, setOf_mem_cons_concat, min_comm]
    exact h.shortest.insert t.duration
  longest := by
    show IsGreatest _ (max s.longest t.duration)
    rw [durations_concat, setOf_mem_cons_concat, max_comm]
    exact h.longest.insert t.duration
  total hmeasured := by
    obtain ⟨hpast, hnonneg, hfits⟩ := hmeasured.of_concat
    show saturate (s.total + t.duration) = _
    rw [h.total hpast, saturate_of_mem (add_nonneg hpast.total_nonneg hnonneg) hfits,
      durations_concat, List.sum_append, List.sum_singleton]
  latency := by
    show IsGreatest _ (max s.latency t.latency)
    rw [latencies_concat, setOf_mem_cons_concat, max_comm]
    exact h.latency.insert t.latency

end Reports

/-- So it is true of any cycles. -/
theorem reports_recordAll (timings : List CycleTiming) : Reports timings (recordAll timings) := by
  induction timings using List.reverseRecOn with
  | nil => exact .empty
  | append_singleton timings t ih =>
    rw [recordAll_concat]
    exact ih.record t

namespace Reports

variable (h : Reports timings s) (hmeasured : Measured timings) (hne : timings ≠ [])

include h hmeasured in
/-- A total that is not negative can be divided by any number of cycles, also by one that is
negative when it is read as a signed number. -/
theorem average_eq (hcount : s.count ≠ 0) :
    s.average = .ok ((durations timings).sum.tdiv s.count.toInt64.toInt) := by
  have hquotient : s.total.tdiv s.count.toInt64.toInt ≤ greatestDuration := by
    rw [h.total hmeasured]
    exact (Int.tdiv_le_self _ hmeasured.total_nonneg).trans hmeasured.fits
  rw [average, if_neg hcount, if_pos hquotient, h.total hmeasured]

include h hne

/-- The last duration is reported. -/
theorem last_duration : (durations timings).getLast? = some s.last := by
  have hdurations : durations timings ≠ [] := by simpa [durations] using hne
  rw [h.last, List.getLastD_eq_getLast?, List.getLast?_eq_some_getLast hdurations, Option.getD_some]

include hmeasured

/-- After a cycle, the end of the range is of no account for the shortest one. -/
theorem shortest_isLeast : IsLeast {d | d ∈ durations timings} s.shortest := by
  obtain ⟨t, ht⟩ := List.exists_mem_of_ne_nil timings hne
  have hd : t.duration ∈ durations timings := List.mem_map_of_mem ht
  exact isLeast_of_cons h.shortest ⟨_, hd, hmeasured.le_greatest hd⟩

/-- Nor is it for the longest one. -/
theorem longest_isGreatest : IsGreatest {d | d ∈ durations timings} s.longest := by
  obtain ⟨t, ht⟩ := List.exists_mem_of_ne_nil timings hne
  have hd : t.duration ∈ durations timings := List.mem_map_of_mem ht
  exact isLeast_of_cons (β := ℤᵒᵈ) h.longest ⟨_, hd, hmeasured.nonneg _ hd⟩

/-- The total is at least what as many of the shortest cycles take, and at most what as many of the
longest ones do. -/
theorem total_mem : (durations timings).sum ∈
    Set.Icc (s.shortest * timings.length) (s.longest * timings.length) := by
  constructor
  · have hsum := List.card_nsmul_le_sum _ _ (h.shortest_isLeast hmeasured hne).2
    rwa [nsmul_eq_mul, durations, List.length_map, mul_comm] at hsum
  · have hsum := List.sum_le_card_nsmul _ _ (h.longest_isGreatest hmeasured hne).2
    rwa [nsmul_eq_mul, durations, List.length_map, mul_comm] at hsum

/-- Rounding the quotient toward zero does not take it below the shortest duration. -/
theorem quotient_mem :
    (durations timings).sum.tdiv timings.length ∈ Set.Icc s.shortest s.longest := by
  obtain ⟨hlow, hhigh⟩ := h.total_mem hmeasured hne
  have hlength : (0 : Int) < timings.length := by
    exact_mod_cast List.length_pos_iff.mpr hne
  rw [Int.tdiv_eq_ediv_of_nonneg hmeasured.total_nonneg]
  exact ⟨(Int.le_ediv_iff_mul_le hlength).mpr hlow, Int.ediv_le_of_le_mul hlength hhigh⟩

/-- So many cycles cannot all have taken time. -/
theorem shortest_of_many (hmany : 2 ^ 63 ≤ timings.length) : s.shortest = 0 := by
  have hnonneg : 0 ≤ s.shortest := hmeasured.nonneg _ (h.shortest_isLeast hmeasured hne).1
  have hlow := (h.total_mem hmeasured hne).1
  have hfits := hmeasured.fits
  unfold greatestDuration at hfits
  by_contra hsome
  have hall : (timings.length : Int) ≤ s.shortest * timings.length :=
    le_mul_of_one_le_left (Int.natCast_nonneg _) (by omega)
  omega

/-- A number of cycles that is read as a negative one makes the quotient negative as well, unless
the total is less than what the number lacks to `2 ^ 64`. -/
theorem wrapped_quotient_mem_iff (hmany : 2 ^ 63 ≤ timings.length)
    (hfew : timings.length < 2 ^ 64) :
    (durations timings).sum.tdiv (timings.length - 2 ^ 64) ∈ Set.Icc s.shortest s.longest ↔
      timings.length + (durations timings).sum < 2 ^ 64 := by
  have hnonneg := hmeasured.total_nonneg
  have hlongest := (h.longest_isGreatest hmeasured hne).2 (h.shortest_isLeast hmeasured hne).1
  have hlack : (0 : Int) < 2 ^ 64 - timings.length := by omega
  have hnegative : (timings.length : Int) - 2 ^ 64 = -(2 ^ 64 - timings.length) := by omega
  have hquotient := Int.ediv_nonneg hnonneg hlack.le
  rw [h.shortest_of_many hmeasured hne hmany] at hlongest ⊢
  rw [hnegative, Int.tdiv_neg, Int.tdiv_eq_ediv_of_nonneg hnonneg]
  -- The quotient is zero or below, and zero if the total is less than what is lacking.
  have hzero : 0 ≤ -((durations timings).sum / (2 ^ 64 - timings.length)) ↔
      (durations timings).sum < 2 ^ 64 - timings.length := by
    rw [Int.neg_nonneg, ← Int.lt_add_one_iff, zero_add, Int.ediv_lt_iff_lt_mul hlack, one_mul]
  constructor
  · rintro ⟨hge, -⟩
    have := hzero.mp hge
    omega
  · intro hroom
    exact ⟨hzero.mpr (by omega), by omega⟩

/-- As long as their number does not wrap, cycles have an average.  It is between the extremes
unless the number is so great that it is read as a negative one, and what it lacks to `2 ^ 64` is
not more than the total. -/
theorem average_mem_iff (hfew : timings.length < 2 ^ 64) :
    ∃ average, s.average = .ok average ∧
      (average ∈ Set.Icc s.shortest s.longest ↔
        timings.length + (durations timings).sum < 2 ^ 64) := by
  have hcount : s.count.toNat = timings.length := by
    rw [h.count, UInt64.toNat_ofNat_of_lt' hfew]
  have hsome : s.count ≠ 0 := by
    intro hzero
    rw [hzero] at hcount
    exact hne (List.length_eq_zero_iff.mp hcount.symm)
  refine ⟨_, h.average_eq hmeasured hsome, ?_⟩
  rw [toInt_toInt64, hcount]
  by_cases hsigned : timings.length < 2 ^ 63
  · have hfits := hmeasured.fits
    unfold greatestDuration at hfits
    rw [if_pos hsigned]
    exact iff_of_true (h.quotient_mem hmeasured hne) (by omega)
  · rw [if_neg hsigned]
    exact h.wrapped_quotient_mem_iff hmeasured hne (Nat.not_lt.mp hsigned) hfew

end Reports

end CycleStats

/-! ## Tasks -/

namespace Task

open CycleStats Outcome TaskSettings

/-- The statistics of a task after these rounds, each with a cycle of its own. -/
def timing (settings : TaskSettings) (rounds : List Round) : CycleStats :=
  { recordAll (rounds.map fun round => ⟨round.duration, 0⟩) with
    overruns := .ofNat (rounds.countP fun round => settings.budget < round.duration) }

section Loops

variable {settings : TaskSettings} {limit : UInt64}

/-- Every round is counted. -/
theorem timing_count (settings : TaskSettings) (rounds : List Round) :
    (timing settings rounds).count = .ofNat rounds.length := by
  rw [timing, (reports_recordAll _).count, List.length_map]

/-- What a cycle changes is what one more round is to change. -/
theorem account_timing (settings : TaskSettings) (past : List Round) (round : Round) :
    account settings (timing settings past) round.duration
      = timing settings (past ++ [round]) := by
  unfold account timing
  rw [List.map_append, List.map_singleton, recordAll_concat, List.countP_append,
    List.countP_singleton, UInt64.ofNat_add]
  by_cases hover : settings.budget < round.duration
  · simp [hover, CycleStats.record]
  · simp [hover, CycleStats.record]

/-- Unless it is to stop, a task goes on as long as there is a budget left. -/
theorem goesOn_timing (h : settings.maxCycles = some limit) {past : List Round}
    (hpast : past.length ≤ limit.toNat) :
    goesOn settings (timing settings past) false = decide (past.length < limit.toNat) := by
  have hcount : (UInt64.ofNat past.length).toNat = past.length :=
    UInt64.toNat_ofNat_of_lt' (hpast.trans_lt limit.toNat_lt)
  rw [goesOn, h, timing_count]
  simp [UInt64.lt_iff_toNat_lt, hcount]

variable {α σ : Type} [Scalar α]

/-- A loop that has begun, with the statistics of its past, runs as many cycles as are left. -/
theorem loop_timing (h : settings.maxCycles = some limit) {left : Nat} {past rounds : List Round}
    (hpast : past.length + left = limit.toNat) (hgo : ∀ round ∈ rounds, round.stopped = false)
    (hrounds : left ≤ rounds.length) (e : Engine α σ) :
    loop settings rounds (timing settings past) e
      = (e.steps left).map (timing settings (past ++ rounds.take left), ·) := by
  -- Each round of the rest becomes the last one of the past.
  induction rounds generalizing left past e with
  | nil =>
    obtain rfl : left = 0 := Nat.le_zero.mp hrounds
    simp [loop, Engine.steps, Except.map]
  | cons round rest ih =>
    rw [List.forall_mem_cons] at hgo
    rw [loop, hgo.1, goesOn_timing h (by omega)]
    cases left with
    | zero =>
      have hspent : ¬ past.length < limit.toNat := by omega
      simp [hspent, Engine.steps, Except.map]
    | succ left =>
      have hleft : past.length < limit.toNat := by omega
      simp only [hleft, decide_true, if_true, account_timing]
      rw [Engine.steps]
      cases e.step with
      | error interrupted => rfl
      | ok e' =>
        have hpast' : (past ++ [round]).length + left = limit.toNat := by
          rw [List.length_append, List.length_singleton]
          omega
        rw [ok_bind, ok_bind, ih hpast' hgo.2 (Nat.le_of_succ_le_succ hrounds) e',
          List.append_assoc, List.singleton_append, List.take_succ_cons]

/-- A whole task, which has no past. -/
theorem run_timing (h : settings.maxCycles = some limit) {rounds : List Round}
    (hgo : ∀ round ∈ rounds, round.stopped = false) (hrounds : limit.toNat ≤ rounds.length)
    (e : Engine α σ) :
    run settings rounds e
      = (e.steps limit.toNat).map (timing settings (rounds.take limit.toNat), ·) := by
  have hpast : ([] : List Round).length + limit.toNat = limit.toNat := Nat.zero_add _
  exact loop_timing h hpast hgo hrounds e

/-- Nobody stops a task with a budget, and it may have more rounds than it needs.  It comes to what
as many cycles come to, one after another: either to the engine after the last of them, and then it
goes on no further and returns with their number and their statistics, or to the engine that was
left behind when one of them was given up.

Of any cycles, one at least, statistics hold the total of their durations, the last one, the
shortest and the longest one, and the greatest latency, if there was any.  Unless it wraps they hold
their number, and then there is an average; it is between the shortest and the longest duration if
and only if the number and the total together are below `2 ^ 64`, as they are for fewer than
`2 ^ 63` cycles. -/
theorem budget_is_spent_and_reported :
    (∀ (settings : TaskSettings) (limit : UInt64) (rounds : List Round) (e : Engine α σ),
      settings.maxCycles = some limit → (∀ round ∈ rounds, round.stopped = false) →
      limit.toNat ≤ rounds.length →
      ∃ stats, run settings rounds e = (e.steps limit.toNat).map (stats, ·) ∧
        stats.count = limit ∧ goesOn settings stats false = false ∧
        stats = timing settings (rounds.take limit.toNat)) ∧
    (∀ timings : List CycleTiming, timings ≠ [] → Measured timings →
      (recordAll timings).count = .ofNat timings.length ∧
      (recordAll timings).total = (durations timings).sum ∧
      (durations timings).getLast? = some (recordAll timings).last ∧
      IsLeast {d | d ∈ durations timings} (recordAll timings).shortest ∧
      IsGreatest {d | d ∈ durations timings} (recordAll timings).longest ∧
      IsGreatest {l | l ∈ 0 :: latencies timings} (recordAll timings).latency ∧
      (timings.length < 2 ^ 64 →
        (recordAll timings).count.toNat = timings.length ∧
        ∃ average, (recordAll timings).average = .ok average ∧
          ((recordAll timings).shortest ≤ average ∧ average ≤ (recordAll timings).longest ↔
            timings.length + (durations timings).sum < 2 ^ 64)) ∧
      (timings.length < 2 ^ 63 → timings.length + (durations timings).sum < 2 ^ 64)) := by
  constructor
  · intro settings limit rounds e hlimit hgo hrounds
    have hlength : (rounds.take limit.toNat).length = limit.toNat := by
      rw [List.length_take, Nat.min_eq_left hrounds]
    have hcount : (timing settings (rounds.take limit.toNat)).count = limit := by
      rw [timing_count, hlength, UInt64.ofNat_toNat]
    refine ⟨_, run_timing hlimit hgo hrounds e, hcount, ?_, rfl⟩
    rw [goesOn_timing hlimit hlength.le, hlength]
    exact decide_eq_false (lt_irrefl _)
  · intro timings hne hmeasured
    have hreports := reports_recordAll timings
    have hfits := hmeasured.fits
    refine ⟨hreports.count, hreports.total hmeasured, hreports.last_duration hne,
      hreports.shortest_isLeast hmeasured hne, hreports.longest_isGreatest hmeasured hne,
      hreports.latency, ?_, ?_⟩
    · intro hfew
      refine ⟨?_, hreports.average_mem_iff hmeasured hne hfew⟩
      rw [hreports.count, UInt64.toNat_ofNat_of_lt' hfew]
    · intro hsigned
      unfold greatestDuration at hfits
      omega

/-- Two cycles, and a millisecond for each. -/
def twoCycles : TaskSettings := ⟨1000, none, defaultPriority, some 2⟩

/-- The second of three cycles is late in its end. -/
def threeRounds : List Round := [⟨false, 400⟩, ⟨false, 2000000⟩, ⟨false, 700⟩]

/-- Three cycles, the first of which was early. -/
def threeTimings : List CycleTiming := [⟨4, -1⟩, ⟨9, 3⟩, ⟨5, 2⟩]

/-- A lift on the bench, with hooks that may give a cycle up. -/
def benchLift (givesUpAt : Option UInt64) :
    Except (EngineError Float) (Engine Float (AxisBench Float)) :=
  AxisBench.engine (.named "lift") 1 ⟨Bench.hooks ⟨id, id, givesUpAt⟩, none, 0⟩
    (.fresh (.simulated (.fresh 1)) .empty)

/-- The third round is not needed. -/
theorem twoCycles_are_spent :
    (∃ e e', benchLift none = .ok e ∧ e.steps 2 = .ok e' ∧ e'.state.cycle = 2 ∧
      run twoCycles threeRounds e = .ok (⟨2, 2000000, 400, 2000000, 2000400, 1, 0⟩, e')) ∧
    Measured threeTimings ∧ recordAll threeTimings = ⟨3, 5, 4, 9, 18, 0, 3⟩ ∧
      ∃ average, (recordAll threeTimings).average = .ok average ∧
        (recordAll threeTimings).shortest ≤ average ∧
        average ≤ (recordAll threeTimings).longest := by
  constructor
  · have hran : ((benchLift none).toOption.bind fun e => (e.steps 2).toOption.map fun e' =>
        e'.state.cycle) = some 2 := by decide +kernel
    obtain ⟨e, hbuilt, hran⟩ := toOption_bind_eq_some_iff.mp hran
    obtain ⟨e', hsteps, hcycle⟩ := toOption_map_eq_some_iff.mp hran
    obtain ⟨stats, hrun, -, -, hstats⟩ := budget_is_spent_and_reported.1 twoCycles 2 threeRounds e
      rfl (by simp [threeRounds]) (by simp [threeRounds])
    have hreported : timing twoCycles (threeRounds.take 2)
        = ⟨2, 2000000, 400, 2000000, 2000400, 1, 0⟩ := by decide +kernel
    refine ⟨e, e', hbuilt, hsteps, hcycle, ?_⟩
    rw [hrun, hstats]
    show (e.steps 2).map (timing twoCycles (threeRounds.take 2), ·) = _
    rw [hsteps, hreported]
    rfl
  · have hmeasured : Measured threeTimings := ⟨by decide, by decide⟩
    obtain ⟨-, -, -, -, -, -, haverage, hroom⟩ :=
      (budget_is_spent_and_reported (α := Float) (σ := Unit)).2 threeTimings (by decide) hmeasured
    obtain ⟨-, average, hok, hbetween⟩ := haverage (by decide)
    exact ⟨hmeasured, by decide, average, hok, hbetween.mpr (hroom (by decide))⟩

/-- One cycle of a nanosecond, and more that took no time. -/
def oneThenNone (n : Nat) : List CycleTiming := ⟨1, 0⟩ :: .replicate n ⟨0, 0⟩

theorem durations_oneThenNone (n : Nat) : durations (oneThenNone n) = 1 :: .replicate n 0 := by
  rw [durations, oneThenNone, List.map_cons, List.map_replicate]

theorem count_oneThenNone (n : Nat) : (recordAll (oneThenNone n)).count = .ofNat (n + 1) := by
  rw [(reports_recordAll _).count, oneThenNone, List.length_cons, List.length_replicate]

theorem measured_oneThenNone (n : Nat) : Measured (oneThenNone n) where
  nonneg := by
    rw [durations_oneThenNone]
    intro d hd
    rcases List.mem_cons.mp hd with rfl | hmem
    · exact Int.one_nonneg
    · exact (List.eq_of_mem_replicate hmem).ge
  fits := by
    rw [durations_oneThenNone, List.sum_cons, List.sum_replicate, smul_zero]
    decide

theorem shortest_oneThenNone {n : Nat} (h : 0 < n) :
    (recordAll (oneThenNone n)).shortest = 0 := by
  have hmeasured := measured_oneThenNone n
  have hshortest := (reports_recordAll (oneThenNone n)).shortest_isLeast hmeasured
    (List.cons_ne_nil _ _)
  have hzero : (0 : Int) ∈ durations (oneThenNone n) := by
    rw [durations_oneThenNone]
    exact List.mem_cons_of_mem _ (List.mem_replicate.mpr ⟨h.ne', rfl⟩)
  exact le_antisymm (hshortest.2 hzero) (hmeasured.nonneg _ hshortest.1)

/-- A task whose first cycle is given up spends no budget.  The average is negative when the number
of cycles is one below its end, and the number is zero after one more. -/
theorem budget_may_be_lost_and_misreported :
    (∃ e, benchLift (some 1) = .ok e ∧ ∀ spent, run twoCycles threeRounds e ≠ .ok spent) ∧
    (Measured (oneThenNone (2 ^ 64 - 2)) ∧
      (recordAll (oneThenNone (2 ^ 64 - 2))).average = .ok (-1) ∧
      (recordAll (oneThenNone (2 ^ 64 - 2))).shortest = 0) ∧
    Measured (oneThenNone (2 ^ 64 - 1)) ∧ (recordAll (oneThenNone (2 ^ 64 - 1))).count = 0 := by
  refine ⟨?_, ⟨measured_oneThenNone _, ?_, shortest_oneThenNone (by decide)⟩,
    measured_oneThenNone _, ?_⟩
  · have hlost : ((benchLift (some 1)).toOption.map fun e =>
        (run twoCycles threeRounds e).toOption.isNone) = some true := by decide +kernel
    obtain ⟨e, hbuilt, hlost⟩ := toOption_map_eq_some_iff.mp hlost
    refine ⟨e, hbuilt, ?_⟩
    intro spent hspent
    rw [hspent] at hlost
    cases hlost
  · have hcount : (recordAll (oneThenNone (2 ^ 64 - 2))).count = .ofNat (2 ^ 64 - 1) :=
      count_oneThenNone _
    have hsome : (recordAll (oneThenNone (2 ^ 64 - 2))).count ≠ 0 := by
      rw [hcount]
      decide
    rw [(reports_recordAll _).average_eq (measured_oneThenNone _) hsome, hcount,
      durations_oneThenNone, List.sum_cons, List.sum_replicate, smul_zero]
    decide
  · rw [count_oneThenNone]
    decide

end Loops

end Task

end MotionControl
