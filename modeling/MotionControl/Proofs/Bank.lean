import MotionControl.Proofs.Law
import MotionControl.Proofs.Scalar.Ordered
import MotionControl.Proofs.Tree.Assembly
import MotionControl.Proofs.Tree.Cyclic

/-!
# Channels of a bank

The channels of a bank share their gains and nothing else.  Each of them goes through the run that
it would go through on its own, and its integral stays within the limit that is in force.

- `Pid.machine`, `PidBank.machine`, `Node.tunable`: a channel, a bank and the leaf that carries a
  bank, run cycle after cycle, reset and given other gains.
- `PidGains.after`: the gains that a run leaves in force, and `Pid.play_gains`: the channel has them.
- `PidBank.projects_channel`: each channel of a bank, as a machine of its own.
- `Pid.WithinLimit`, `Pid.within_of_compute`: the integral after a cycle.
- `PidBank.Serves`, `PidBank.Serves.exists_play`: a bank whose gains passed their check has a run.
- `PidBank.channel_of_play`: the run of one channel.
- `Node.tunable_follows`: a leaf answers like its bank.
- `PidBank.channels_are_independent`: every run of every bank.
-/

namespace MotionControl

open Scalar Outcome

variable {α : Type} [Scalar α]

/-! ## Machines -/

/-- A channel on its own.  It takes a target and a measurement. -/
def Pid.machine (α : Type) [Scalar α] : Cyclic α (PidGains α) (Pid α) where
  respond channel inputs :=
    match inputs with
    | [target, measured] =>
      (channel.compute target measured).toOption.map fun r => ([r.1], r.2)
    | _ => none
  reset := Pid.reset
  change channel gains := some (channel.withGains gains)

/-- A bank with the slots of its outputs, which no one clears.  It takes gains that pass their
check. -/
def PidBank.machine (α : Type) [Scalar α] : Cyclic α (PidGains α) (PidBank α × List α) where
  respond b inputs := (b.1.compute inputs b.2).toOption.map fun r => (r.1, r.2, r.1)
  reset b := (b.1.reset, b.2)
  change b gains := gains.check.toOption.map fun _ => (b.1.withGains gains, b.2)

/-- A leaf, which is asked to take gains as its parameter block. -/
def Node.tunable (α : Type) [Scalar α] : Cyclic α (PidGains α) (Node α) where
  respond := (Node.machine α).respond
  reset := Node.reset
  change leaf gains := (leaf.install (.pid gains)).toOption

/-! ## Gains in force -/

namespace PidGains

/-- The gains that a run leaves in force, those of its last change. -/
def after (gains : PidGains α) : List (Round α (PidGains α)) → PidGains α
  | [] => gains
  | .change gains :: rest => gains.after rest
  | .cycle _ :: rest | .reset :: rest => gains.after rest

omit [Scalar α] in
/-- The gains in force do not depend on what the inputs are. -/
theorem after_mapInputs (gains : PidGains α) (pick : List α → List α)
    (rounds : List (Round α (PidGains α))) :
    gains.after (rounds.map (.mapInputs pick)) = gains.after rounds := by
  induction rounds generalizing gains with
  | nil => rfl
  | cons round rest ih =>
    cases round with
    | cycle inputs => exact ih gains
    | reset => exact ih gains
    | change what => exact ih what

/-- Gains stay checked when every other block was checked before it was accepted. -/
theorem check_after {gains : PidGains α} {rounds : List (Round α (PidGains α))}
    (h : gains.check = .ok ()) (haccepted : ∀ what, .change what ∈ rounds → what.check = .ok ()) :
    (gains.after rounds).check = .ok () := by
  induction rounds generalizing gains with
  | nil => exact h
  | cons round rest ih =>
    have hrest : ∀ what, .change what ∈ rest → what.check = .ok () := fun what hmem =>
      haccepted what (List.mem_cons_of_mem _ hmem)
    cases round with
    | cycle inputs => exact ih h hrest
    | reset => exact ih h hrest
    | change what => exact ih (haccepted what List.mem_cons_self) hrest

end PidGains

/-! ## A channel -/

namespace Pid

variable {p p' : Pid α} {target measured command : α}

/-- A cycle of a channel changes its state only. -/
theorem compute_eq_ok (h : p.compute target measured = .ok (command, p')) :
    p'.gains = p.gains ∧ p'.period = p.period ∧
      p.state.advance p.gains (target - measured) p.period = .ok (command, p'.state) := by
  obtain ⟨⟨_, state⟩, hadvance, h⟩ := bind_eq_ok_iff.mp h
  cases h
  exact ⟨rfl, rfl, hadvance⟩

/-- What a channel on its own reads and answers. -/
theorem respond_eq_some {inputs outputs : List α}
    (h : (machine α).respond p inputs = some (outputs, p')) :
    ∃ target measured command, inputs = [target, measured] ∧ outputs = [command] ∧
      p.compute target measured = .ok (command, p') := by
  rcases inputs with _ | ⟨target, _ | ⟨measured, _ | ⟨more, rest⟩⟩⟩
  case cons.cons.nil =>
    obtain ⟨⟨command, p₁⟩, hcompute, heq⟩ := toOption_map_eq_some_iff.mp h
    cases heq
    exact ⟨target, measured, command, rfl, rfl, hcompute⟩
  all_goals cases h

/-- After a run, a channel has the gains that the run leaves in force, and its period. -/
theorem play_gains {rounds : List (Round α (PidGains α))} {outputs : List (List α)}
    (h : (machine α).play p rounds = some (outputs, p')) :
    p'.gains = p.gains.after rounds ∧ p'.period = p.period := by
  -- Resets and changes go on from another channel, with gains that are known.
  induction rounds generalizing p outputs with
  | nil =>
    cases h
    exact ⟨rfl, rfl⟩
  | cons round rest ih =>
    cases round with
    | cycle inputs =>
      obtain ⟨⟨first, p₁⟩, hrespond, h⟩ := Option.bind_eq_some_iff.mp h
      obtain ⟨⟨others, p₂⟩, hrest, heq⟩ := Option.map_eq_some_iff.mp h
      cases heq
      obtain ⟨_, _, _, -, -, hcompute⟩ := respond_eq_some hrespond
      obtain ⟨hgains, hperiod, -⟩ := compute_eq_ok hcompute
      have hkept := ih hrest
      rwa [hgains, hperiod] at hkept
    | reset =>
      have hrest : (machine α).play p.reset rest = some (outputs, p') := h
      exact (ih hrest :)
    | change what =>
      have hrest : (machine α).play (p.withGains what) rest = some (outputs, p') := h
      exact (ih hrest :)

/-- The integral is within the limit that is in force, if it is a number. -/
def WithinLimit (p : Pid α) : Prop :=
  isNaN p.state.integral = true ∨
    -p.gains.integralLimit ≤ p.state.integral ∧ p.state.integral ≤ p.gains.integralLimit

/-- A cycle over a period leaves the integral within the limit, wherever it was before. -/
theorem within_of_compute [OrderedScalar α] (hgains : p.gains.check = .ok ())
    (hperiod : 0 < p.period) (h : p.compute target measured = .ok (command, p')) :
    p'.WithinLimit := by
  obtain ⟨hsame, -, hadvance⟩ := compute_eq_ok h
  rw [PidState.advance, if_neg fun hle => OrderedScalar.not_lt_of_le hle hperiod] at hadvance
  obtain ⟨integral, hclamp, hadvance⟩ := bind_eq_ok_iff.mp hadvance
  have hintegral : p'.state.integral = integral :=
    congrArg (·.2.integral) (Except.ok.inj hadvance).symm
  rw [WithinLimit, hsame, hintegral]
  exact OrderedScalar.between_of_clamp? (PidGains.integralLimit_isBound hgains)
    (orFault_eq_ok_iff.mp hclamp)

end Pid

namespace PidBank

/-! ## A channel of a bank -/

/-- The output of one channel. -/
def outputOf (k : Nat) (outputs : List α) : List α := outputs[k]?.toList

/-- In every round, a channel of a bank does what it would do on its own. -/
theorem projects_channel (layout : PidLayout) (width k : Nat) :
    Cyclic.Projects (machine α) (Pid.machine α) width (layout.own k) (outputOf k) fun b channel =>
      b.1.layout = layout ∧ b.1.channels[k]? = some channel ∧ k < b.2.length where
  respond {b channel inputs outputs b'} hR _ h := by
    obtain ⟨rfl, hchannel, hslot⟩ := hR
    obtain ⟨_, hbank, rfl, rfl⟩ := toOption_map_eq_some_iff.mp h
    obtain ⟨⟨commands, channels⟩, hcompute, heq⟩ := bind_eq_ok_iff.mp hbank
    obtain rfl := Except.ok.inj heq
    obtain ⟨target, measured, command, channel', hown, hchannel', hcommand, hafter⟩ :=
      computeChannels_own hcompute hchannel hslot
    have hkept : k < commands.length := by
      rwa [(computeChannels_lengths hcompute).1]
    refine ⟨channel', ?_, rfl, hafter, hkept⟩
    rw [Nat.zero_add] at hown
    rw [hown, outputOf, hcommand]
    exact toOption_map_eq_some_iff.mpr ⟨_, hchannel', rfl⟩
  reset {b channel} hR := by
    refine ⟨hR.1, ?_, hR.2.2⟩
    show (b.1.channels.map Pid.reset)[k]? = _
    rw [List.getElem?_map, hR.2.1]
    rfl
  change {b channel gains b'} hR h := by
    obtain ⟨_, -, rfl⟩ := toOption_map_eq_some_iff.mp h
    refine ⟨channel.withGains gains, rfl, hR.1, ?_, hR.2.2⟩
    show (b.1.channels.map (·.withGains gains))[k]? = _
    rw [List.getElem?_map, hR.2.1]
    rfl

/-! ## A bank -/

/-- The gains of a bank passed their check, it takes and gives this many signals, and there is a
slot for each of those that it gives. -/
structure Serves (arity : Nat × Nat) (b : PidBank α × List α) : Prop where
  checked : (Law.pid b.1).Checked
  arity_eq : b.1.arity = arity
  slots : b.2.length = arity.2

namespace Serves

variable {arity : Nat × Nat} {b : PidBank α × List α}

/-- A bank that serves answers any inputs of its arity, and goes on serving. -/
theorem respond [LawfulScalar α] (h : Serves arity b) {inputs : List α}
    (hfits : inputs.length = arity.1) :
    ∃ r, (machine α).respond b inputs = some r ∧ Serves arity r.2 := by
  have hlength : inputs.length = (Law.pid b.1).arity.1 := hfits.trans (congrArg _ h.arity_eq.symm)
  have hslots : b.2.length = (Law.pid b.1).arity.2 := h.slots.trans (congrArg _ h.arity_eq.symm)
  obtain ⟨⟨outputs, law⟩, hlaw⟩ :=
    Law.Checked.answering (.pid b.1) h.checked inputs b.2 hlength hslots
  obtain ⟨⟨_, b'⟩, hcompute, heq⟩ := bind_eq_ok_iff.mp hlaw
  cases heq
  obtain ⟨houtputs, hlayout, hchannels⟩ := compute_lengths hcompute
  exact ⟨(outputs, b', outputs), toOption_map_eq_some_iff.mpr ⟨_, hcompute, rfl⟩,
    Law.Checked.invariant.compute h.checked hlaw,
    (arity_congr hlayout hchannels).trans h.arity_eq, houtputs.trans h.slots⟩

/-- A reset bank goes on serving. -/
theorem reset (h : Serves arity b) : Serves arity ((machine α).reset b) where
  checked := Law.Checked.invariant.reset h.checked
  arity_eq := (Law.arity_reset (.pid b.1)).trans h.arity_eq
  slots := h.slots

/-- A bank that serves takes checked gains, and goes on serving. -/
theorem change (h : Serves arity b) {gains : PidGains α} (hgains : gains.check = .ok ()) :
    ∃ b', (machine α).change b gains = some b' ∧ Serves arity b' := by
  have hsettings : (LawSettings.pid gains).check = .ok () := hgains
  have hinstall : (Law.pid b.1).install (.pid gains) = some (.pid (b.1.withGains gains)) := rfl
  refine ⟨(b.1.withGains gains, b.2), toOption_map_eq_some_iff.mpr ⟨(), hgains, rfl⟩, ?_, ?_,
    h.slots⟩
  · exact Law.Checked.invariant.install h.checked hsettings hinstall
  · exact (Law.arity_install hinstall).trans h.arity_eq

/-- Such a bank has a run of every list of rounds, as long as the gains in it are accepted. -/
theorem exists_play [LawfulScalar α] (h : Serves arity b) {rounds : List (Round α (PidGains α))}
    (hfits : ∀ r ∈ rounds, r.Fits arity.1)
    (haccepted : ∀ gains, .change gains ∈ rounds → gains.check = .ok ()) :
    ∃ outputs b', (machine α).play b rounds = some (outputs, b') ∧ Serves arity b' := by
  obtain ⟨⟨outputs, b'⟩, hplay, hserves⟩ :=
    Cyclic.play_answers (m := machine α) (fun _ _ h hfits => respond h hfits) (fun _ h => reset h)
      (fun _ _ h hgains => change h hgains) h hfits haccepted
  exact ⟨outputs, b', hplay, hserves⟩

end Serves

/-- A bank has an output for each channel. -/
theorem arity_fresh (count : Nat) (layout : PidLayout) (gains : PidGains α) (period : α) :
    (fresh count layout gains period).arity.2 = count := by
  rw [arity_snd]
  exact List.length_replicate

/-- A new bank with checked gains serves. -/
theorem serves_fresh {gains : PidGains α} (h : gains.check = .ok ()) {count : Nat}
    (layout : PidLayout) (period : α) {slots : List α} (hslots : slots.length = count) :
    Serves (fresh count layout gains period).arity (fresh count layout gains period, slots) where
  checked channel hmem := by
    rw [List.eq_of_mem_replicate hmem]
    exact h
  arity_eq := rfl
  slots := hslots.trans (arity_fresh count layout gains period).symm

omit [Scalar α] in
/-- A channel takes a signal at least for the one that it gives. -/
theorem arity_snd_le (b : PidBank α) : b.arity.2 ≤ b.arity.1 := by
  unfold arity
  cases b.layout with
  | setpointMeasurement => exact Nat.le_mul_of_pos_left _ Nat.two_pos
  | error => exact le_rfl

/-! ## The runs of its channels -/

section Runs

variable {count k : Nat} {layout : PidLayout} {gains : PidGains α} {period : α}
  {rounds : List (Round α (PidGains α))} {slots slots' : List α} {outputs : List (List α)}
  {bank : PidBank α} (hslots : slots.length = count)
  (hfits : ∀ r ∈ rounds, r.Fits (fresh count layout gains period).arity.1)
  (hplay : (machine α).play (fresh count layout gains period, slots) rounds
    = some (outputs, bank, slots'))

include hslots hfits hplay

/-- A channel of a bank is what it would be on its own, with its own inputs. -/
theorem channel_of_play (hk : k < count) :
    ∃ channel, bank.channels[k]? = some channel ∧
      (Pid.machine α).play (.fresh gains period) (rounds.map (.mapInputs (layout.own k)))
        = some (outputs.map (outputOf k), channel) := by
  have hfresh : (fresh count layout gains period).channels[k]? = some (.fresh gains period) :=
    List.getElem?_replicate_of_lt hk
  obtain ⟨channel, hchannel, -, hk, -⟩ :=
    Cyclic.play_of_projects (projects_channel layout _ k) ⟨rfl, hfresh, hslots ▸ hk⟩ hfits hplay
  exact ⟨channel, hk, hchannel⟩

/-- Every channel is one of those that were there at first. -/
theorem play_of_mem (hcount : bank.channels.length = count) {channel : Pid α}
    (hmem : channel ∈ bank.channels) :
    ∃ k outputs', (Pid.machine α).play (.fresh gains period)
      (rounds.map (.mapInputs (layout.own k))) = some (outputs', channel) := by
  obtain ⟨k, hk⟩ := List.getElem?_of_mem hmem
  have hlt : k < count := hcount ▸ (List.getElem?_eq_some_iff.mp hk).1
  obtain ⟨channel', hk', hchannel⟩ := channel_of_play hslots hfits hplay hlt
  obtain rfl : channel = channel' := Option.some.inj (hk.symm.trans hk')
  exact ⟨k, _, hchannel⟩

/-- In a run that gives a channel the same inputs, it has the same outputs, whatever the others are
given. -/
theorem outputs_congr {rounds' : List (Round α (PidGains α))} {others : List α}
    {outputs' : List (List α)} {after : PidBank α × List α} (hothers : others.length = count)
    (hfits' : ∀ r ∈ rounds', r.Fits (fresh count layout gains period).arity.1)
    (hplay' : (machine α).play (fresh count layout gains period, others) rounds'
      = some (outputs', after))
    (hk : k < count)
    (hown : rounds'.map (Round.mapInputs (layout.own k)) = rounds.map (.mapInputs (layout.own k))) :
    outputs'.map (outputOf k) = outputs.map (outputOf k) := by
  obtain ⟨channel, -, hchannel⟩ := channel_of_play hslots hfits hplay hk
  obtain ⟨channel', -, hchannel'⟩ := channel_of_play hothers hfits' hplay' hk
  rw [hown, hchannel, Option.some.injEq, Prod.mk.injEq] at hchannel'
  exact hchannel'.1.symm

/-- All channels of a bank have the gains in force. -/
theorem gains_of_play (hcount : bank.channels.length = count) {channel : Pid α}
    (hmem : channel ∈ bank.channels) : channel.gains = gains.after rounds := by
  obtain ⟨k, outputs', hchannel⟩ := play_of_mem hslots hfits hplay hcount hmem
  rw [(Pid.play_gains hchannel).1, PidGains.after_mapInputs, Pid.fresh]

end Runs

/-- A cycle leaves every channel within the limit that is in force, also where the run before it
lowered that limit. -/
theorem within_of_play [OrderedScalar α] {count : Nat} {layout : PidLayout} {gains : PidGains α}
    {period : α} {before : List (Round α (PidGains α))} {inputs slots slots' : List α}
    {outputs : List (List α)} {bank : PidBank α} (hslots : slots.length = count)
    (hfits : ∀ r ∈ before ++ [.cycle inputs], r.Fits (fresh count layout gains period).arity.1)
    (hplay : (machine α).play (fresh count layout gains period, slots) (before ++ [.cycle inputs])
      = some (outputs, bank, slots'))
    (hcount : bank.channels.length = count) (hgains : (gains.after before).check = .ok ())
    (hperiod : 0 < period) {channel : Pid α} (hmem : channel ∈ bank.channels) :
    channel.WithinLimit := by
  obtain ⟨k, outputs', hchannel⟩ := play_of_mem hslots hfits hplay hcount hmem
  rw [List.map_append] at hchannel
  obtain ⟨earlier, last, outputs', hbefore, hrespond⟩ := Cyclic.play_concat_cycle hchannel
  -- The last cycle begins with the gains that the run before it left, whatever its integral was.
  obtain ⟨hforce, hsame⟩ := Pid.play_gains hbefore
  rw [PidGains.after_mapInputs] at hforce
  obtain ⟨_, _, _, -, -, hcompute⟩ := Pid.respond_eq_some hrespond
  refine Pid.within_of_compute ?_ ?_ hcompute
  · rw [hforce]
    exact hgains
  · rw [hsame]
    exact hperiod

end PidBank

/-! ## A leaf -/

namespace Node

/-- A leaf answers as its law does. -/
theorem respond_leaf (name : String) (law : Law α) {ins outs : Signals α} {values : List α}
    (h : values.length = ins.length) :
    (leaf name law ins outs).respond values =
      (law.compute values outs.values).map fun r => (⟨r.1⟩, leaf name r.2 ⟨values⟩ ⟨r.1⟩) := by
  simp only [respond, setInputs, overInputs, Signals.copy, if_pos h, ok_bind, compute, run, written]
  cases law.compute values outs.values with
  | ok r => rfl
  | error fault => rfl

/-- A leaf with vectors of the right size does in every round what its bank does, though it clears
its outputs in a reset. -/
theorem tunable_follows (name : String) (width count : Nat) :
    Cyclic.Follows (PidBank.machine α) (tunable α) width fun b n =>
      ∃ ins outs, n = leaf name (.pid b.1) ins outs ∧ ins.length = width ∧ outs.length = count ∧
        b.1.channels.length = count ∧ b.2.length = count where
  respond {b n inputs outputs b'} hR hfits h := by
    obtain ⟨ins, outs, rfl, rfl, houts, hchannels, hslots⟩ := hR
    obtain ⟨⟨values, bank'⟩, hcompute, heq⟩ := toOption_map_eq_some_iff.mp h
    obtain ⟨rfl, rfl⟩ := Prod.mk.inj heq
    obtain ⟨hlength, -, hsame⟩ := PidBank.compute_lengths hcompute
    have hleaf : b.1.compute inputs outs.values = .ok (values, bank') := by
      rw [b.1.compute_slots (houts.trans hchannels.symm) (hslots.trans hchannels.symm), hcompute]
    refine ⟨leaf name (.pid bank') ⟨inputs⟩ ⟨values⟩, ?_, ⟨inputs⟩, ⟨values⟩, rfl, hfits,
      hlength.trans hslots, hsame.trans hchannels, hlength.trans hslots⟩
    show ((leaf name (.pid b.1) ins outs).respond inputs).toOption.map _ = _
    rw [respond_leaf name _ hfits, Law.compute, hleaf]
    rfl
  reset {b n} hR := by
    obtain ⟨ins, outs, rfl, rfl, houts, hchannels, hslots⟩ := hR
    exact ⟨ins.clear, outs.clear, rfl, Signals.length_clear ins,
      (Signals.length_clear outs).trans houts, (List.length_map _).trans hchannels, hslots⟩
  change {b n gains b'} hR h := by
    obtain ⟨ins, outs, rfl, hins, houts, hchannels, hslots⟩ := hR
    obtain ⟨_, hcheck, rfl⟩ := toOption_map_eq_some_iff.mp h
    refine ⟨leaf name (.pid (b.1.withGains gains)) ins outs, ?_, ins, outs, rfl, hins, houts,
      (List.length_map _).trans hchannels, hslots⟩
    have hsettings : (LawSettings.pid gains).check = .ok () := hcheck
    show ((leaf name (.pid b.1) ins outs).install (.pid gains)).toOption = _
    rw [install, hsettings]
    rfl

/-- A leaf is made for a bank whose signals fit into vectors, and it carries the bank at rest. -/
theorem pid_of_fits (name : String) {count : Nat} {layout : PidLayout} {gains : PidGains α}
    {period : α} (hgains : gains.check = .ok ()) (hcount : 0 < count)
    (hfits : (PidBank.fresh count layout gains period).arity.1 ≤ Signals.capacity) :
    ∃ ins outs, Node.pid name count layout gains period
        = .ok (leaf name (.pid (.fresh count layout gains period)) ins outs) ∧
      ins.length = (PidBank.fresh count layout gains period).arity.1 ∧ outs.length = count := by
  have hsettings : (LawSettings.pid gains).check = .ok () := hgains
  have hout : 0 < (PidBank.fresh count layout gains period).arity.2 := by
    rwa [PidBank.arity_fresh]
  have hle := PidBank.arity_snd_le (PidBank.fresh count layout gains period)
  have hmade : Node.pid name count layout gains period
      = ofLaw name (.pid (.fresh count layout gains period)) := by
    rw [Node.pid, ofSettings, hsettings]
  exact ⟨_, _, hmade.trans (ofLaw_of_fits name _ (hout.trans_le hle) hout hfits (hle.trans hfits)),
    List.length_replicate, List.length_replicate.trans (PidBank.arity_fresh ..)⟩

end Node

namespace PidBank

/-- A bank of any number of channels, run over any vectors of inputs, resets and accepted gains, and
with it the leaf that is made for such a bank.  Whatever stood in the slots of its outputs at first,
each channel gives in every cycle what it would give on its own, fed with its own inputs, and so
nothing that any other channel is fed with changes it.  All channels have the gains in force.  And a
cycle over a period leaves every integral within the limit that is in force then, unless it is not a
number. -/
theorem channels_are_independent (layout : PidLayout) {gains : PidGains Float}
    (hgains : gains.check = .ok ()) (period : Float) {rounds : List (Round Float (PidGains Float))}
    {count : Nat} (hfits : ∀ r ∈ rounds, r.Fits (fresh count layout gains period).arity.1)
    (haccepted : ∀ what, .change what ∈ rounds → what.check = .ok ()) {slots : List Float}
    (hslots : slots.length = count) :
    ∃ outputs bank slots',
      (machine Float).play (fresh count layout gains period, slots) rounds
        = some (outputs, bank, slots') ∧
      (∀ name, 0 < count → (fresh count layout gains period).arity.1 ≤ Signals.capacity →
        ∃ leaf ins outs, Node.pid name count layout gains period = .ok leaf ∧
          (Node.tunable Float).play leaf rounds
            = some (outputs, .leaf name (.pid bank) ins outs)) ∧
      bank.channels.length = count ∧
      (∀ k < count, ∃ channel, bank.channels[k]? = some channel ∧
        (Pid.machine Float).play (.fresh gains period) (rounds.map (.mapInputs (layout.own k)))
          = some (outputs.map (outputOf k), channel)) ∧
      (∀ k < count, ∀ (rounds' : List (Round Float (PidGains Float))) (others : List Float)
        (outputs' : List (List Float)) (after : PidBank Float × List Float),
        (∀ r ∈ rounds', r.Fits (fresh count layout gains period).arity.1) →
        others.length = count →
        rounds'.map (Round.mapInputs (layout.own k)) = rounds.map (.mapInputs (layout.own k)) →
        (machine Float).play (fresh count layout gains period, others) rounds'
          = some (outputs', after) →
        outputs'.map (outputOf k) = outputs.map (outputOf k)) ∧
      (∀ channel ∈ bank.channels, channel.gains = gains.after rounds) ∧
      (0 < period → ∀ before inputs, rounds = before ++ [.cycle inputs] →
        ∀ channel ∈ bank.channels, channel.WithinLimit) := by
  obtain ⟨outputs, ⟨bank, slots'⟩, hplay, hserves⟩ :=
    (serves_fresh hgains layout period hslots).exists_play hfits haccepted
  have hcount : bank.channels.length = count := by
    rw [← arity_snd, hserves.arity_eq, arity_fresh]
  refine ⟨outputs, bank, slots', hplay, fun name hpos hcapacity => ?_, hcount,
    fun k hk => channel_of_play hslots hfits hplay hk,
    fun k hk rounds' others outputs' after hfits' hothers hown hplay' =>
      outputs_congr hslots hfits hplay hothers hfits' hplay' hk hown,
    fun channel hmem => gains_of_play hslots hfits hplay hcount hmem,
    fun hperiod before inputs hlast channel hmem => ?_⟩
  · obtain ⟨ins, outs, hmade, hins, houts⟩ := Node.pid_of_fits name hgains hpos hcapacity
    have hfresh : (fresh count layout gains period).channels.length = count :=
      List.length_replicate
    obtain ⟨n, hn, ins', outs', rfl, -⟩ := Cyclic.play_of_follows
      (Node.tunable_follows name _ count) ⟨ins, outs, rfl, hins, houts, hfresh, hslots⟩ hfits hplay
    exact ⟨_, ins', outs', hmade, hn⟩
  · subst hlast
    have hforce : (gains.after before).check = .ok () :=
      PidGains.check_after hgains fun what hwhat =>
        haccepted what (List.mem_append_left _ hwhat)
    exact within_of_play hslots hfits hplay hcount hforce hperiod hmem

/-- Gains of an integral alone. -/
def integralGains (limit : Float) : PidGains Float := ⟨0, 1, 0, limit⟩

/-- Two channels over a period of one, with slots that something was left in. -/
def twoIntegrals : PidBank Float × List Float :=
  (fresh 2 .setpointMeasurement (integralGains 5) 1, [7, -7])

/-- The limit is lowered between two cycles.  The second channel is fed with anything. -/
def lowering (first second : Float × Float) : List (Round Float (PidGains Float)) :=
  [.cycle [3, 0, first.1, first.2], .change (integralGains 2), .cycle [4, 3, second.1, second.2]]

/-- Three and six are the integrals of the first cycle, and six is above its limit.  Both are above
the limit of the second one. -/
theorem lowered_limit_is_kept :
    ∃ outputs bank slots', (machine Float).play twoIntegrals (lowering (8, 2) (2, 2))
        = some (outputs, bank, slots') ∧ outputs = [[3, 5], [2, 2]] ∧
      (∀ channel ∈ bank.channels, channel.gains = integralGains 2 ∧ channel.WithinLimit) ∧
      (∃ leaf ins outs, Node.pid "turn" 2 .setpointMeasurement (integralGains 5) 1 = .ok leaf ∧
        (Node.tunable Float).play leaf (lowering (8, 2) (2, 2))
          = some (outputs, .leaf "turn" (.pid bank) ins outs)) ∧
      ∀ outputs' after, (machine Float).play twoIntegrals (lowering (-9, 2) (0, 7))
          = some (outputs', after) →
        outputs'.map (outputOf 0) = [[3], [2]] := by
  have hgains : (integralGains 5).check = .ok () := rfl
  have hfits : ∀ first second, ∀ r ∈ lowering first second, r.Fits twoIntegrals.1.arity.1 := by
    simp [lowering, twoIntegrals, Round.Fits, fresh, arity]
  have haccepted : ∀ what, .change what ∈ lowering (8, 2) (2, 2) → what.check = .ok () := by
    intro what hmem
    obtain rfl : what = integralGains 2 := by simpa [lowering] using hmem
    rfl
  obtain ⟨outputs, bank, slots', hplay, hleaf, -, -, hown, hforce, hwithin⟩ :=
    channels_are_independent .setpointMeasurement hgains 1 (hfits (8, 2) (2, 2)) haccepted
      (rfl : [(7 : Float), -7].length = 2)
  have hrun : ((machine Float).play twoIntegrals (lowering (8, 2) (2, 2))).map (·.1)
      = some [[3, 5], [2, 2]] := by decide +kernel
  have houtputs : outputs = [[3, 5], [2, 2]] := by
    rw [twoIntegrals, hplay] at hrun
    exact Option.some.inj hrun
  have hown₀ : (lowering (-9, 2) (0, 7)).map (Round.mapInputs (PidLayout.own .setpointMeasurement 0))
      = (lowering (8, 2) (2, 2)).map (.mapInputs (PidLayout.own .setpointMeasurement 0)) := by
    simp [lowering, Round.mapInputs, PidLayout.own]
  have hperiod : (0 : Float) < 1 := by decide +kernel
  refine ⟨outputs, bank, slots', hplay, houtputs, fun channel hmem => ⟨hforce channel hmem, ?_⟩,
    hleaf "turn" Nat.two_pos (by decide), fun outputs' after hplay' => ?_⟩
  · exact hwithin hperiod [_, _] _ rfl channel hmem
  · rw [hown 0 Nat.two_pos _ _ outputs' after (hfits _ _) rfl hown₀ hplay', houtputs]
    rfl

end PidBank

end MotionControl
