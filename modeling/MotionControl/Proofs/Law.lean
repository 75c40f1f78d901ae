import Mathlib.Data.List.Basic
import MotionControl.Proofs.Law.Answer
import MotionControl.Proofs.Scalar.Lawful
import MotionControl.Proofs.Settings

/-!
# Laws over many cycles

A law whose settings passed their check never faults on vectors of its arity, and whatever happens
to it, its settings stay checked.

- `LawInvariant`: what a cycle, a reset and an accepted parameter block preserve.
- `Law.Checked`, `Law.Checked.invariant`: the settings of a law passed their check,
  and this is an invariant.
- `Answering`, `Law.Checked.answering`: such a law has an answer to any values, and writes it to
  any slots.
-/

namespace MotionControl

open Scalar Outcome

variable {α : Type} [Scalar α]

/-- A property of laws that nothing that happens to a law destroys. -/
structure LawInvariant (P : Law α → Prop) : Prop where
  compute {law law' : Law α} {inputs outputs outputs' : List α} : P law →
    law.compute inputs outputs = .ok (outputs', law') → P law'
  reset {law : Law α} : P law → P law.reset
  install {law law' : Law α} {settings : LawSettings α} : P law → settings.check = .ok () →
    law.install settings = some law' → P law'

/-- Laws with the property have an answer to any values, and write it to any slots, as many of both
as their arity says. -/
def Answering (P : Law α → Prop) : Prop :=
  ∀ law : Law α, P law → ∀ inputs outputs : List α, inputs.length = law.arity.1 →
    outputs.length = law.arity.2 → ∃ r, law.compute inputs outputs = .ok r

/-- Nothing at all is demanded of the laws. -/
theorem Law.invariant_true : LawInvariant fun _ : Law α => True :=
  ⟨fun _ _ => trivial, fun _ => trivial, fun _ _ _ => trivial⟩

/-! ## Settings that passed their check -/

/-- The clamp of an integral is a bound. -/
theorem PidGains.integralLimit_isBound {g : PidGains α} (h : g.check = .ok ()) :
    IsBound g.integralLimit := by
  obtain ⟨_, _, h⟩ := bind_eq_ok_iff.mp h
  obtain ⟨_, _, h⟩ := bind_eq_ok_iff.mp h
  obtain ⟨_, _, h⟩ := bind_eq_ok_iff.mp h
  simpa [IsBound] using require_eq_ok_iff.mp h

namespace RampSettings

variable {s : RampSettings α}

/-- The greatest speed of a checked ramp bounds an interval around zero. -/
theorem maxSpeed_isBound [LawfulScalar α] (h : s.check = .ok ()) : IsBound s.maxSpeed := by
  obtain ⟨_, _, h⟩ := bind_eq_ok_iff.mp h
  obtain ⟨_, hspeed, _⟩ := bind_eq_ok_iff.mp h
  have hpos : isNaN s.maxSpeed = false ∧ ¬ s.maxSpeed ≤ 0 := by
    simpa using require_eq_ok_iff.mp hspeed
  exact isBound_of_pos hpos.1 hpos.2

/-- Over a positive period, the speed stays within reach. -/
theorem reach_isBound [LawfulScalar α] (h : s.check = .ok ()) {period : α} (hp : 0 < period) :
    IsBound (s.maxAcceleration * period) := by
  obtain ⟨_, _, h⟩ := bind_eq_ok_iff.mp h
  obtain ⟨_, _, h⟩ := bind_eq_ok_iff.mp h
  obtain ⟨_, _, h⟩ := bind_eq_ok_iff.mp h
  have hpos : isNaN s.maxAcceleration = false ∧ ¬ s.maxAcceleration ≤ 0 := by
    simpa using require_eq_ok_iff.mp h
  exact mul_bound hpos.1 hpos.2 hp

end RampSettings

/-- The settings of a law passed their check.  A bank has the gains in its channels. -/
def Law.Checked : Law α → Prop
  | pid bank => ∀ channel ∈ bank.channels, channel.gains.check = .ok ()
  | straightMove f => f.settings.check = .ok ()
  | speedRamp f => f.settings.check = .ok ()
  | select _ | forward _ => True

/-! ## Checked laws answer -/

section Answers

variable [LawfulScalar α]

/-- Such a bound can be saturated to. -/
theorem orFault_clamp (fault : Fault) {bound : α} (h : IsBound bound) (v : α) :
    ∃ w, orFault fault (clamp? (-bound) bound v) = .ok w := by
  obtain ⟨w, hw⟩ := clamp?_neg_self h v
  exact ⟨w, by rw [hw]; rfl⟩

/-- With checked gains a channel answers any error in any state. -/
theorem PidState.advance_answers {gains : PidGains α} (h : gains.check = .ok ())
    (state : PidState α) (error period : α) : ∃ r, state.advance gains error period = .ok r := by
  unfold advance
  by_cases hp : period ≤ 0
  · rw [if_pos hp]
    exact ⟨_, rfl⟩
  · obtain ⟨integral, hi⟩ := orFault_clamp .clampBounds
      (PidGains.integralLimit_isBound h) (state.integral + error * period)
    rw [if_neg hp]
    dsimp only
    rw [hi]
    exact ⟨_, rfl⟩

/-- So it does for any target and any measurement. -/
theorem Pid.compute_answers {p : Pid α} (h : p.gains.check = .ok ()) (target measured : α) :
    ∃ r, p.compute target measured = .ok r := by
  obtain ⟨r, hr⟩ := PidState.advance_answers h p.state (target - measured) p.period
  exact ⟨_, by rw [compute, hr, ok_bind]⟩

/-- Channels with checked gains answer when each of them finds its inputs. -/
theorem PidBank.computeChannels_answers {layout : PidLayout} {inputs : List α}
    {channels : List (Pid α)} (h : ∀ channel ∈ channels, channel.gains.check = .ok ()) {k : Nat}
    (hread : ∀ i < channels.length, ∃ r, layout.read inputs (k + i) = .ok r) (slots : List α) :
    ∃ r, computeChannels layout inputs k channels slots = .ok r := by
  induction channels generalizing k slots with
  | nil => exact ⟨_, computeChannels_no_channels⟩
  | cons channel rest ih =>
    cases slots with
    | nil => exact ⟨_, computeChannels_no_slots⟩
    | cons slot slots =>
      rw [List.forall_mem_cons] at h
      obtain ⟨⟨target, measured⟩, hfirst⟩ := hread 0 (Nat.zero_lt_succ _)
      obtain ⟨r, hr⟩ := Pid.compute_answers h.1 target measured
      have hothers : ∀ i < rest.length, ∃ r, layout.read inputs (k + 1 + i) = .ok r := by
        intro i hi
        rw [Nat.add_right_comm]
        exact hread (i + 1) (Nat.succ_lt_succ hi)
      obtain ⟨q, hq⟩ := ih h.2 hothers slots
      refine ⟨(r.1 :: q.1, r.2 :: q.2), ?_⟩
      simp only [computeChannels, show layout.read inputs k = _ from hfirst, hr, hq, ok_bind]

/-- A checked ramp answers any order. -/
theorem SpeedRamp.limit_answers {f : SpeedRamp α} (h : f.settings.check = .ok ())
    (order current bound : α) : ∃ limited, f.limit order current bound = .ok limited := by
  have hcap : IsBound (lesser f.settings.maxSpeed (abs bound)) :=
    lesser_abs (RampSettings.maxSpeed_isBound h) bound
  unfold limit
  obtain ⟨capped, hcapped⟩ := orFault_clamp .clampBounds hcap order
  dsimp only
  rw [hcapped, ok_bind]
  by_cases hp : 0 < f.period
  · obtain ⟨step, hstep⟩ := orFault_clamp .clampBounds
      (RampSettings.reach_isBound h hp) (capped - current)
    rw [if_pos hp, hstep]
    exact orFault_clamp .clampBounds hcap _
  · rw [if_neg hp]
    exact orFault_clamp .clampBounds hcap _

end Answers

/-! ## Checked laws stay checked -/

/-- A cycle leaves the gains of every channel alone. -/
theorem PidBank.computeChannels_gains {layout : PidLayout} {inputs : List α} {k : Nat}
    {channels channels' : List (Pid α)} {slots commands : List α}
    (h : computeChannels layout inputs k channels slots = .ok (commands, channels')) :
    channels'.map (·.gains) = channels.map (·.gains) := by
  induction channels generalizing k slots commands channels' with
  | nil =>
    rw [computeChannels_no_channels] at h
    cases h
    rfl
  | cons channel rest ih =>
    cases slots with
    | nil =>
      rw [computeChannels_no_slots] at h
      cases h
      rfl
    | cons slot slots =>
      obtain ⟨_, _, _, _, _, _, _, hfirst, hrest, rfl, rfl⟩ := computeChannels_cons_eq_ok h
      obtain ⟨_, _, hfirst⟩ := bind_eq_ok_iff.mp hfirst
      cases hfirst
      rw [List.map_cons, List.map_cons, ih hrest]

/-- Thirteen signals make up a request. -/
theorem MoveRequest.exists_ofSignals? {inputs : List α} (h : inputs.length = 13) :
    ∃ request, MoveRequest.ofSignals? inputs = some request := by
  rcases inputs with _ | ⟨x, _ | ⟨y, _ | ⟨angle, _ | ⟨goalX, _ | ⟨goalY, _ | ⟨goalAngle,
    _ | ⟨linearSpeed, _ | ⟨angularSpeed, _ | ⟨linearOrder, _ | ⟨angularOrder,
    _ | ⟨allowReverse, _ | ⟨intermediate, _ | ⟨mode, rest⟩⟩⟩⟩⟩⟩⟩⟩⟩⟩⟩⟩⟩
  case cons.cons.cons.cons.cons.cons.cons.cons.cons.cons.cons.cons.cons => exact ⟨_, rfl⟩
  all_goals cases h

namespace Law.Checked

/-- A cycle, a reset and a checked block leave a law with checked settings. -/
theorem invariant : LawInvariant (Checked (α := α)) where
  compute {law law' inputs outputs outputs'} h hc := by
    cases law with
    | pid bank =>
      obtain ⟨⟨values, bank'⟩, hb, hc⟩ := bind_eq_ok_iff.mp hc
      cases hc
      obtain ⟨⟨commands, channels⟩, hchannels, hb⟩ := bind_eq_ok_iff.mp hb
      cases hb
      intro channel hmem
      have hgains : channel.gains ∈ bank.channels.map (·.gains) := by
        rw [← PidBank.computeChannels_gains hchannels]
        exact List.mem_map_of_mem hmem
      obtain ⟨before, hbefore, heq⟩ := List.mem_map.mp hgains
      rw [← heq]
      exact h before hbefore
    | straightMove f =>
      obtain ⟨⟨values, f'⟩, hf, hc⟩ := bind_eq_ok_iff.mp hc
      cases hc
      obtain ⟨request, _, _, rfl⟩ := StraightMove.of_compute_eq_ok hf
      show (f.decide request).2.settings.check = .ok ()
      rw [StraightMove.decide_settings]
      exact h
    | speedRamp f =>
      obtain ⟨values, _, hc⟩ := bind_eq_ok_iff.mp hc
      cases hc
      exact h
    | select width =>
      obtain ⟨values, _, hc⟩ := bind_eq_ok_iff.mp hc
      cases hc
      exact h
    | forward width =>
      obtain ⟨values, _, hc⟩ := bind_eq_ok_iff.mp hc
      cases hc
      exact h
  reset {law} h := by
    cases law with
    | pid bank => exact List.forall_mem_map.mpr h
    | straightMove f => exact h
    | speedRamp f => exact h
    | select width => exact h
    | forward width => exact h
  install {law law' settings} h hs hi := by
    unfold Law.install at hi
    split at hi
    · cases hi
      exact List.forall_mem_map.mpr fun _ _ => hs
    · cases hi
      exact hs
    · cases hi
      exact hs
    · cases hi

/-- Checked laws answer any values, not a number and infinities included. -/
theorem answering [LawfulScalar α] : Answering (Checked (α := α)) := by
  intro law h inputs outputs hlength hslots
  cases law with
  | pid bank =>
    obtain ⟨r, hr⟩ := PidBank.computeChannels_answers (k := 0) h
      (fun i hi => (Nat.zero_add i).symm ▸ PidLayout.read_answers bank hlength hi) outputs
    refine ⟨(r.1, .pid { bank with channels := r.2 }), ?_⟩
    simp only [Law.compute, PidBank.compute, hr, ok_bind]
  | straightMove f =>
    obtain ⟨request, hr⟩ := MoveRequest.exists_ofSignals? hlength
    refine ⟨((f.decide request).1.toSignals, .straightMove (f.decide request).2), ?_⟩
    rw [Law.compute, f.compute_eq_ok hr hslots, ok_bind]
  | speedRamp f =>
    obtain ⟨order, current, bound, rfl⟩ := List.length_eq_three.mp hlength
    obtain ⟨limited, hl⟩ := SpeedRamp.limit_answers h order current bound
    refine ⟨([limited, current], .speedRamp f), ?_⟩
    rw [Law.compute, f.compute_eq order current bound hslots, hl, ok_bind, ok_bind]
  | select width =>
    change inputs.length = 1 + 2 * width at hlength
    change outputs.length = width at hslots
    obtain ⟨selector, hs⟩ := Slice.get_answers (show 0 < inputs.length by omega)
    have hrange : (if selector < half then 1 else 1 + outputs.length) + outputs.length
        ≤ inputs.length := by
      split <;> omega
    generalize hstart : (if selector < half then 1 else 1 + outputs.length) = start at hrange
    have hpicked : ((inputs.drop start).take outputs.length).length = outputs.length := by
      rw [List.length_take, List.length_drop]
      omega
    refine ⟨((inputs.drop start).take outputs.length, .select width), ?_⟩
    simp only [Law.compute, Routing.select, hs, ok_bind, hstart, Slice.range, if_pos hrange,
      Slice.copy_of_length hpicked]
  | forward width =>
    refine ⟨(inputs, .forward width), ?_⟩
    rw [Law.compute, Routing.forward, Slice.copy_of_length (hlength.trans hslots.symm), ok_bind]

end Law.Checked

end MotionControl
