import MotionControl.Control.Law
import MotionControl.Proofs.Move.Decision

/-!
# What a law writes

A law writes its outputs in place.  It writes every slot that it was given, so that what a slot held
before makes no difference.

- `PidLayout.own`, `PidBank.computeChannels_own`: the inputs of one channel of a bank, and its part
  of a cycle.
- `Law.answer`: a cycle of a law on slots that hold zero, and `Law.compute_eq_answer`: so it is on
  any slots.
- `Law.compute_lengths`: no slot comes or goes, and the arity is kept.
-/

namespace MotionControl

open Scalar Outcome

variable {α : Type} [Scalar α]

/-! ## Channels -/

/-- Of the inputs of a bank, those of one channel: its target and its measurement, or its error,
which is measured against zero. -/
def PidLayout.own (layout : PidLayout) (k : Nat) (inputs : List α) : List α :=
  match layout with
  | .setpointMeasurement => inputs[2 * k]?.toList ++ inputs[2 * k + 1]?.toList
  | .error => inputs[k]?.toList ++ [0]

omit [Scalar α] in
/-- A value is read from a place that is there. -/
theorem Slice.get_eq_ok_iff {values : List α} {index : Nat} {v : α} :
    Slice.get values index = .ok v ↔ values[index]? = some v := orFault_eq_ok_iff

omit [Scalar α] in
/-- Every place before the end can be read. -/
theorem Slice.get_answers {values : List α} {index : Nat} (h : index < values.length) :
    ∃ v, Slice.get values index = .ok v :=
  ⟨values[index], Slice.get_eq_ok_iff.mpr (List.getElem?_eq_getElem h)⟩

/-- What a channel reads is its own. -/
theorem PidLayout.own_of_read {layout : PidLayout} {inputs : List α} {k : Nat} {target measured : α}
    (h : layout.read inputs k = .ok (target, measured)) :
    layout.own k inputs = [target, measured] := by
  cases layout with
  | setpointMeasurement =>
    obtain ⟨t, ht, h⟩ := bind_eq_ok_iff.mp h
    obtain ⟨m, hm, h⟩ := bind_eq_ok_iff.mp h
    cases h
    rw [own, Slice.get_eq_ok_iff.mp ht, Slice.get_eq_ok_iff.mp hm]
    rfl
  | error =>
    obtain ⟨e, he, h⟩ := bind_eq_ok_iff.mp h
    cases h
    rw [own, Slice.get_eq_ok_iff.mp he]
    rfl

/-- Every channel finds its inputs. -/
theorem PidLayout.read_answers (b : PidBank α) {inputs : List α}
    (hlength : inputs.length = b.arity.1) {k : Nat} (hk : k < b.channels.length) :
    ∃ r, b.layout.read inputs k = .ok r := by
  unfold PidBank.arity at hlength
  cases hlayout : b.layout with
  | setpointMeasurement =>
    rw [hlayout] at hlength
    change inputs.length = 2 * b.channels.length at hlength
    obtain ⟨target, ht⟩ := Slice.get_answers (show 2 * k < inputs.length by omega)
    obtain ⟨measured, hm⟩ := Slice.get_answers (show 2 * k + 1 < inputs.length by omega)
    refine ⟨(target, measured), ?_⟩
    rw [read, ht, hm]
    rfl
  | error =>
    rw [hlayout] at hlength
    change inputs.length = b.channels.length at hlength
    obtain ⟨error, he⟩ := Slice.get_answers (show k < inputs.length by omega)
    refine ⟨(error, 0), ?_⟩
    rw [read, he]
    rfl

namespace PidBank

variable {layout : PidLayout} {inputs : List α} {k : Nat} {channels channels' : List (Pid α)}
  {slots commands : List α}

/-- Without a channel, no slot is written. -/
theorem computeChannels_no_channels :
    computeChannels layout inputs k [] slots = .ok (slots, []) := by
  cases slots with
  | nil => rfl
  | cons slot slots => rfl

/-- Without a slot to write to, no channel is run. -/
theorem computeChannels_no_slots :
    computeChannels layout inputs k channels [] = .ok ([], channels) := by
  cases channels with
  | nil => rfl
  | cons channel rest => rfl

/-- A cycle of a bank is a cycle of its first channel, on the inputs that the layout picks for it,
and one of the others. -/
theorem computeChannels_cons_eq_ok {channel : Pid α} {slot : α}
    (h : computeChannels layout inputs k (channel :: channels) (slot :: slots)
      = .ok (commands, channels')) :
    ∃ target measured command channel' others rest,
      layout.read inputs k = .ok (target, measured) ∧
      channel.compute target measured = .ok (command, channel') ∧
      computeChannels layout inputs (k + 1) channels slots = .ok (others, rest) ∧
      commands = command :: others ∧ channels' = channel' :: rest := by
  obtain ⟨⟨target, measured⟩, hread, h⟩ := bind_eq_ok_iff.mp h
  obtain ⟨⟨command, channel'⟩, hfirst, h⟩ := bind_eq_ok_iff.mp h
  obtain ⟨⟨others, rest⟩, hrest, h⟩ := bind_eq_ok_iff.mp h
  cases h
  exact ⟨target, measured, command, channel', others, rest, hread, hfirst, hrest, rfl, rfl⟩

/-- In a cycle of a bank, every channel that has a slot goes through a cycle of its own, on its own
inputs. -/
theorem computeChannels_own {i : Nat} {channel : Pid α}
    (h : computeChannels layout inputs k channels slots = .ok (commands, channels'))
    (hi : channels[i]? = some channel) (hslot : i < slots.length) :
    ∃ target measured command channel', layout.own (k + i) inputs = [target, measured] ∧
      channel.compute target measured = .ok (command, channel') ∧
      commands[i]? = some command ∧ channels'[i]? = some channel' := by
  induction channels generalizing k slots commands channels' i with
  | nil => cases hi
  | cons first others ih =>
    cases slots with
    | nil => cases hslot
    | cons slot slots =>
      obtain ⟨target, measured, command, first', commands, others', hread, hfirst, hothers, rfl,
        rfl⟩ := computeChannels_cons_eq_ok h
      cases i with
      | zero =>
        cases hi
        exact ⟨target, measured, command, first', PidLayout.own_of_read hread, hfirst, rfl, rfl⟩
      | succ i =>
        have hrest := ih hothers hi (Nat.lt_of_succ_lt_succ hslot)
        rwa [Nat.add_right_comm] at hrest

/-- No slot and no channel comes or goes. -/
theorem computeChannels_lengths
    (h : computeChannels layout inputs k channels slots = .ok (commands, channels')) :
    commands.length = slots.length ∧ channels'.length = channels.length := by
  induction channels generalizing k slots commands channels' with
  | nil =>
    rw [computeChannels_no_channels] at h
    cases h
    exact ⟨rfl, rfl⟩
  | cons channel rest ih =>
    cases slots with
    | nil =>
      rw [computeChannels_no_slots] at h
      cases h
      exact ⟨rfl, rfl⟩
    | cons slot slots =>
      obtain ⟨_, _, _, _, _, _, _, _, hrest, rfl, rfl⟩ := computeChannels_cons_eq_ok h
      obtain ⟨hcommands, hchannels⟩ := ih hrest
      exact ⟨congrArg (· + 1) hcommands, congrArg (· + 1) hchannels⟩

/-- With a slot for every channel, what the slots held makes no difference. -/
theorem computeChannels_slots {slots' : List α} (h : slots.length = channels.length)
    (h' : slots'.length = channels.length) :
    computeChannels layout inputs k channels slots
      = computeChannels layout inputs k channels slots' := by
  induction channels generalizing k slots slots' with
  | nil =>
    rw [List.eq_nil_of_length_eq_zero h, List.eq_nil_of_length_eq_zero h']
  | cons channel rest ih =>
    match slots, slots', h, h' with
    | _ :: slots, _ :: slots', h, h' =>
      rw [computeChannels, computeChannels, ih (Nat.succ.inj h) (Nat.succ.inj h')]

omit [Scalar α] in
/-- A bank has an output for each channel. -/
theorem arity_snd (b : PidBank α) : b.arity.2 = b.channels.length := by
  unfold arity
  cases b.layout with
  | setpointMeasurement => rfl
  | error => rfl

omit [Scalar α] in
/-- The arity of a bank is a matter of its layout and of the number of its channels. -/
theorem arity_congr {b b' : PidBank α} (hl : b'.layout = b.layout)
    (hc : b'.channels.length = b.channels.length) : b'.arity = b.arity := by
  unfold arity
  rw [hl, hc]

/-- A cycle keeps the slice and the channels as many as they are. -/
theorem compute_lengths {b b' : PidBank α} {outputs outputs' : List α}
    (h : b.compute inputs outputs = .ok (outputs', b')) :
    outputs'.length = outputs.length ∧ b'.layout = b.layout ∧
      b'.channels.length = b.channels.length := by
  obtain ⟨⟨commands, channels⟩, hc, h⟩ := bind_eq_ok_iff.mp h
  cases h
  obtain ⟨hcommands, hchannels⟩ := computeChannels_lengths hc
  exact ⟨hcommands, rfl, hchannels⟩

/-- What stood in the slots before is of no account. -/
theorem compute_slots (b : PidBank α) {outputs outputs' : List α}
    (h : outputs.length = b.channels.length) (h' : outputs'.length = b.channels.length) :
    b.compute inputs outputs = b.compute inputs outputs' := by
  rw [compute, compute, computeChannels_slots h h']

/-- A bank of one channel. -/
theorem compute_single (p : Pid α) {target measured slot : α}
    (h : layout.read inputs 0 = .ok (target, measured)) :
    compute ⟨layout, [p]⟩ inputs [slot]
      = p.compute target measured >>= fun r => .ok ([r.1], ⟨layout, [r.2]⟩) := by
  rw [compute, computeChannels, h, ok_bind]
  dsimp only
  cases p.compute target measured with
  | ok r => rfl
  | error fault => rfl

end PidBank

/-! ## Laws -/

/-- Two slots are both written. -/
theorem SpeedRamp.compute_slots (f : SpeedRamp α) {inputs outputs outputs' : List α}
    (h : outputs.length = 2) (h' : outputs'.length = 2) :
    f.compute inputs outputs = f.compute inputs outputs' := by
  match outputs, outputs', h, h' with
  | [_, _], [_, _], _, _ => rfl

/-- A ramp on its three inputs writes both of its slots. -/
theorem SpeedRamp.compute_eq (f : SpeedRamp α) (order current bound : α) {outputs : List α}
    (h : outputs.length = 2) :
    f.compute [order, current, bound] outputs
      = f.limit order current bound >>= fun limited => .ok [limited, current] := by
  match outputs, h with
  | [_, _], _ => rfl

/-- Of two blocks of one signal each. -/
theorem Routing.select_single (mode first second slot : α) :
    select [mode, first, second] [slot] = .ok [if mode < half then first else second] := by
  have hmode : Slice.get [mode, first, second] 0 = .ok mode := rfl
  rw [select, hmode, ok_bind]
  by_cases h : mode < half
  · simp only [if_pos h]
    rfl
  · simp only [if_neg h]
    rfl

/-- What stood in the slots before is of no account. -/
theorem Routing.select_slots {inputs outputs outputs' : List α}
    (h : outputs.length = outputs'.length) : select inputs outputs = select inputs outputs' := by
  simp only [select, Slice.copy, h]

omit [Scalar α] in
/-- What stood in the slots before is of no account. -/
theorem Routing.forward_slots {inputs outputs outputs' : List α}
    (h : outputs.length = outputs'.length) : forward inputs outputs = forward inputs outputs' := by
  simp only [forward, Slice.copy, h]

namespace Law

/-- One cycle of a law, as if the slots of its outputs held zero. -/
def answer (law : Law α) (inputs : List α) : Except Fault (List α × Law α) :=
  law.compute inputs (List.replicate law.arity.2 0)

/-- Every law writes all slots that its arity asks for: the outputs are the same, whatever the slots
held. -/
theorem compute_eq_answer (law : Law α) {inputs outputs : List α}
    (h : outputs.length = law.arity.2) : law.compute inputs outputs = law.answer inputs := by
  have hzeros : (List.replicate law.arity.2 (0 : α)).length = law.arity.2 := List.length_replicate
  have hsame := h.trans hzeros.symm
  rw [answer]
  cases law with
  | pid bank =>
    have hbank : (Law.pid bank).arity.2 = bank.channels.length := bank.arity_snd
    rw [compute, compute, bank.compute_slots (h.trans hbank) (hzeros.trans hbank)]
  | straightMove f =>
    rw [compute, compute]
    cases hr : MoveRequest.ofSignals? inputs with
    | some r => rw [f.compute_eq_ok hr h, f.compute_eq_ok hr hzeros]
    | none =>
      simp only [StraightMove.compute, hr, orFault, error_bind]
  | speedRamp f => rw [compute, compute, f.compute_slots h hzeros]
  | select width => rw [compute, compute, Routing.select_slots hsame]
  | forward width => rw [compute, compute, Routing.forward_slots hsame]

/-- A cycle leaves as many outputs as there were slots, and the law takes and gives as many as
before. -/
theorem compute_lengths {law law' : Law α} {inputs outputs outputs' : List α}
    (h : law.compute inputs outputs = .ok (outputs', law')) :
    outputs'.length = outputs.length ∧ law'.arity = law.arity := by
  cases law with
  | pid bank =>
    obtain ⟨⟨values, bank'⟩, hb, h⟩ := bind_eq_ok_iff.mp h
    cases h
    obtain ⟨hvalues, hlayout, hchannels⟩ := PidBank.compute_lengths hb
    exact ⟨hvalues, PidBank.arity_congr hlayout hchannels⟩
  | straightMove f =>
    obtain ⟨⟨values, f'⟩, hf, h⟩ := bind_eq_ok_iff.mp h
    cases h
    obtain ⟨_, _, hlength, _⟩ := StraightMove.of_compute_eq_ok hf
    exact ⟨hlength, rfl⟩
  | speedRamp f =>
    obtain ⟨values, hf, h⟩ := bind_eq_ok_iff.mp h
    cases h
    obtain ⟨_, _, hf⟩ := bind_eq_ok_iff.mp hf
    obtain ⟨_, _, hf⟩ := bind_eq_ok_iff.mp hf
    obtain ⟨_, _, hf⟩ := bind_eq_ok_iff.mp hf
    obtain ⟨_, _, hf⟩ := bind_eq_ok_iff.mp hf
    exact ⟨Slice.length_setAll hf, rfl⟩
  | select width =>
    obtain ⟨values, hs, h⟩ := bind_eq_ok_iff.mp h
    cases h
    obtain ⟨_, _, hs⟩ := bind_eq_ok_iff.mp hs
    obtain ⟨_, _, hs⟩ := bind_eq_ok_iff.mp hs
    exact ⟨Slice.length_copy hs, rfl⟩
  | forward width =>
    obtain ⟨values, hs, h⟩ := bind_eq_ok_iff.mp h
    cases h
    exact ⟨Slice.length_copy hs, rfl⟩

/-- A reset keeps the arity. -/
@[simp] theorem arity_reset (law : Law α) : law.reset.arity = law.arity := by
  cases law with
  | pid bank => exact PidBank.arity_congr rfl (List.length_map _)
  | straightMove f => rfl
  | speedRamp f => rfl
  | select width => rfl
  | forward width => rfl

omit [Scalar α] in
/-- Another block of settings keeps the arity. -/
theorem arity_install {law law' : Law α} {settings : LawSettings α}
    (h : law.install settings = some law') : law'.arity = law.arity := by
  unfold install at h
  split at h
  · cases h
    exact PidBank.arity_congr rfl (List.length_map _)
  · cases h
    rfl
  · cases h
    rfl
  · cases h

end Law

end MotionControl
