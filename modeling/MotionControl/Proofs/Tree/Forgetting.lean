import MotionControl.Proofs.Tree.FaultFree

/-!
# What a reset forgets

A reset forgets everything that cycles and inputs left behind in a tree, and nothing else: whatever
ran before it, it leaves the same tree as long as nobody changed a parameter block.

- `Node.laws`, `Node.blocks`: the laws at the leaves of a tree, and the parameter blocks in force.
- `Law.reset_compute`, `Law.install_reset`: a law after a cycle and with another block.
- `Node.Sized`: vectors of the sizes that the laws need.
- `Node.compute_forgotten`, `Node.setInputs_forgotten`: a cycle and new inputs make no difference
  to a reset.
- `Node.setParameters_reset`: another parameter block makes the same difference before and after
  one.
-/

namespace MotionControl

open Outcome

variable {α : Type}

/-! ## Laws and parameter blocks -/

namespace Circuit

mutual

/-- The laws at the leaves, from left to right. -/
def laws : Circuit α → List (Law α)
  | leaf _ law => [law]
  | sequential _ stages => lawsOfStages stages
  | parallel _ _ branches => lawsOfBranches branches

/-- The laws of all stages, in their order. -/
def lawsOfStages : List (Circuit α) → List (Law α)
  | [] => []
  | stage :: rest => laws stage ++ lawsOfStages rest

/-- The laws of all branches, in their order. -/
def lawsOfBranches : List (Wired (Circuit α)) → List (Law α)
  | [] => []
  | ⟨_, _, node⟩ :: rest => laws node ++ lawsOfBranches rest

end

end Circuit

namespace Node

/-- The laws at the leaves, from left to right. -/
def laws (n : Node α) : List (Law α) := n.circuit.laws

/-- The parameter blocks in force, from left to right. -/
def blocks (n : Node α) : List (LawSettings α) := n.laws.filterMap Law.settings?

@[simp] theorem laws_leaf (name : String) (law : Law α) (inputs outputs : Signals α) :
    (leaf name law inputs outputs).laws = [law] := rfl

@[simp] theorem laws_sequential (name : String) (stages : List (Node α)) :
    (sequential name stages).laws = stages.flatMap laws := by
  show Circuit.lawsOfStages (circuitStages stages) = _
  induction stages with
  | nil => rfl
  | cons stage rest ih =>
    rw [circuitStages, Circuit.lawsOfStages, ih, List.flatMap_cons]
    rfl

@[simp] theorem laws_parallel (name : String) (inputs outputs : Signals α)
    (branches : List (Wired (Node α))) :
    (parallel name inputs outputs branches).laws = branches.flatMap (·.node.laws) := by
  show Circuit.lawsOfBranches (circuitBranches branches) = _
  induction branches with
  | nil => rfl
  | cons branch rest ih =>
    rw [circuitBranches, Circuit.lawsOfBranches, ih, List.flatMap_cons]
    rfl

theorem blocks_sequential (name : String) (stages : List (Node α)) :
    (sequential name stages).blocks = stages.flatMap blocks := by
  rw [blocks, laws_sequential, List.filterMap_flatMap]
  rfl

theorem blocks_parallel (name : String) (inputs outputs : Signals α)
    (branches : List (Wired (Node α))) :
    (parallel name inputs outputs branches).blocks = branches.flatMap (·.node.blocks) := by
  rw [blocks, laws_parallel, List.filterMap_flatMap]
  rfl

end Node

variable [Scalar α]

/-! ## Laws -/

namespace Law

@[simp] theorem reset_reset (law : Law α) : law.reset.reset = law.reset := by
  cases law with
  | pid bank => simp [reset, PidBank.reset, Pid.reset, Function.comp_def]
  | straightMove f => rfl
  | speedRamp f => rfl
  | select width => rfl
  | forward width => rfl

@[simp] theorem settings?_reset (law : Law α) : law.reset.settings? = law.settings? := by
  cases law with
  | pid bank => cases hchannels : bank.channels <;> simp [reset, settings?, PidBank.reset,
      Pid.reset, hchannels]
  | straightMove f => rfl
  | speedRamp f => rfl
  | select width => rfl
  | forward width => rfl

/-- A cycle leaves nothing in a channel but its state. -/
theorem computeChannels_reset {layout : PidLayout} {inputs : List α} {k : Nat}
    {channels channels' : List (Pid α)} {slots commands : List α}
    (h : PidBank.computeChannels layout inputs k channels slots = .ok (commands, channels')) :
    channels'.map Pid.reset = channels.map Pid.reset := by
  induction channels generalizing k slots commands channels' with
  | nil =>
    rw [PidBank.computeChannels_no_channels] at h
    cases h
    rfl
  | cons channel rest ih =>
    cases slots with
    | nil =>
      rw [PidBank.computeChannels_no_slots] at h
      cases h
      rfl
    | cons slot slots =>
      obtain ⟨_, _, _, _, _, _, _, hfirst, hrest, rfl, rfl⟩ :=
        PidBank.computeChannels_cons_eq_ok h
      -- the integral and the previous error are all that a cycle changes in the first channel
      obtain ⟨_, _, hfirst⟩ := bind_eq_ok_iff.mp hfirst
      cases hfirst
      rw [List.map_cons, List.map_cons, ih hrest]
      rfl

/-- A reset forgets the cycle before it. -/
theorem reset_compute {law law' : Law α} {inputs outputs outputs' : List α}
    (h : law.compute inputs outputs = .ok (outputs', law')) : law'.reset = law.reset := by
  cases law with
  | pid bank =>
    obtain ⟨⟨values, bank'⟩, hbank, h⟩ := bind_eq_ok_iff.mp h
    cases h
    obtain ⟨⟨commands, channels⟩, hchannels, hbank⟩ := bind_eq_ok_iff.mp hbank
    cases hbank
    exact congrArg (fun channels => pid ⟨bank.layout, channels⟩) (computeChannels_reset hchannels)
  | straightMove f =>
    obtain ⟨⟨values, f'⟩, hf, h⟩ := bind_eq_ok_iff.mp h
    cases h
    obtain ⟨request, -, -, rfl⟩ := StraightMove.of_compute_eq_ok hf
    exact congrArg (fun settings => straightMove (.fresh settings)) (f.decide_settings request)
  | speedRamp f =>
    obtain ⟨values, -, h⟩ := bind_eq_ok_iff.mp h
    cases h
    rfl
  | select width =>
    obtain ⟨values, -, h⟩ := bind_eq_ok_iff.mp h
    cases h
    rfl
  | forward width =>
    obtain ⟨values, -, h⟩ := bind_eq_ok_iff.mp h
    cases h
    rfl

@[simp] theorem kind_reset (law : Law α) : law.reset.kind = law.kind := by
  cases law <;> rfl

@[simp] theorem isParameterized_reset (law : Law α) :
    law.reset.isParameterized = law.isParameterized := by
  cases law <;> rfl

/-- A law takes the same blocks after a reset, and a block survives one. -/
theorem install_reset (law : Law α) (settings : LawSettings α) :
    law.reset.install settings = (law.install settings).map reset := by
  cases law with
  | pid bank =>
    cases settings with
    | pid gains =>
      simp [reset, install, PidBank.reset, PidBank.withGains, Pid.reset, Pid.withGains,
        Function.comp_def]
    | straightMove settings => rfl
    | speedRamp settings => rfl
  | straightMove f => cases settings <;> rfl
  | speedRamp f => cases settings <;> rfl
  | select width => cases settings <;> rfl
  | forward width => cases settings <;> rfl

end Law

/-! ## Vectors -/

namespace Signals

/-- A cleared vector has nothing but its length. -/
theorem clear_congr {s t : Signals α} (h : t.length = s.length) : t.clear = s.clear := by
  unfold clear fill
  rw [List.map_const', List.map_const']
  exact congrArg (fun length => Signals.mk (List.replicate length 0)) h

@[simp] theorem clear_clear (s : Signals α) : s.clear.clear = s.clear :=
  clear_congr (length_clear s)

theorem clear_replicate (length : Nat) :
    (⟨List.replicate length 0⟩ : Signals α).clear = ⟨List.replicate length 0⟩ := by
  simp [clear, fill]

omit [Scalar α] in
/-- Steps that keep the length keep it together. -/
theorem length_foldlM {β : Type} {f : Signals α → β → Except Fault (Signals α)}
    (hf : ∀ s b t, f s b = .ok t → t.length = s.length) {entries : List β} {s t : Signals α}
    (h : entries.foldlM f s = .ok t) : t.length = s.length := by
  induction entries generalizing s with
  | nil =>
    cases h
    rfl
  | cons first rest ih =>
    obtain ⟨next, hfirst, hrest⟩ := bind_eq_ok_iff.mp h
    rw [ih hrest, hf _ _ _ hfirst]

end Signals

namespace Node

/-- Every law has vectors of the sizes that it needs. -/
inductive Sized : Node α → Prop where
  | leaf {name law inputs outputs} (takes : inputs.length = law.arity.1)
      (gives : outputs.length = law.arity.2) : Sized (leaf name law inputs outputs)
  | sequential {name stages} (each : ∀ s ∈ stages, Sized s) : Sized (sequential name stages)
  | parallel {name inputs outputs branches} (nodes : ∀ b ∈ branches, Sized b.node) :
      Sized (parallel name inputs outputs branches)

omit [Scalar α] in
theorem Sized.stages {name : String} {stages : List (Node α)} (h : Sized (.sequential name stages)) :
    ∀ s ∈ stages, Sized s := by
  cases h with
  | sequential each => exact each

omit [Scalar α] in
theorem Sized.nodes {name : String} {inputs outputs : Signals α} {branches : List (Wired (Node α))}
    (h : Sized (.parallel name inputs outputs branches)) : ∀ b ∈ branches, Sized b.node := by
  cases h with
  | parallel nodes => exact nodes

/-! ## Resets -/

@[simp] theorem reset_reset (n : Node α) : n.reset.reset = n.reset := by
  induction n using induct with
  | leaf name law inputs outputs => simp [reset]
  | sequential name stages ih =>
    rw [reset, reset, resetStages_eq_map, resetStages_eq_map, List.map_map]
    exact congrArg _ (List.map_congr_left ih)
  | parallel name inputs outputs branches ih =>
    rw [reset, reset, resetBranches_eq_map, resetBranches_eq_map, Signals.clear_clear,
      Signals.clear_clear]
    exact congrArg _ ((Wired.map_map ..).trans (Wired.map_congr (f := reset ∘ reset) ih))

theorem laws_reset (n : Node α) : n.reset.laws = n.laws.map Law.reset := by
  induction n using induct with
  | leaf name law inputs outputs => rfl
  | sequential name stages ih =>
    rw [reset, laws_sequential, laws_sequential, resetStages_eq_map, List.flatMap_map,
      List.map_flatMap]
    exact List.flatMap_congr ih
  | parallel name inputs outputs branches ih =>
    rw [reset, laws_parallel, laws_parallel, resetBranches_eq_map, List.flatMap_map,
      List.map_flatMap]
    exact List.flatMap_congr ih

/-- A reset keeps the parameter blocks. -/
@[simp] theorem blocks_reset (n : Node α) : n.reset.blocks = n.blocks := by
  rw [blocks, laws_reset, List.filterMap_map]
  exact List.filterMap_congr fun law _ => law.settings?_reset

/-- A reset keeps the sizes of all vectors. -/
theorem sized_reset_iff {n : Node α} : Sized n.reset ↔ Sized n := by
  induction n using induct with
  | leaf name law inputs outputs =>
    constructor
    · rintro ⟨takes, gives⟩
      rw [Signals.length_clear, Law.arity_reset] at takes gives
      exact .leaf takes gives
    · rintro ⟨takes, gives⟩
      rw [← Signals.length_clear, ← Law.arity_reset] at takes gives
      exact .leaf takes gives
  | sequential name stages ih =>
    rw [reset, resetStages_eq_map]
    constructor
    · intro h
      exact .sequential fun s hs => (ih s hs).mp (h.stages _ (List.mem_map_of_mem hs))
    · intro h
      exact .sequential (List.forall_mem_map.mpr fun s hs => (ih s hs).mpr (h.stages s hs))
  | parallel name inputs outputs branches ih =>
    rw [reset, resetBranches_eq_map]
    constructor
    · intro h
      exact .parallel fun b hb => (ih b hb).mp (h.nodes (b.map reset) (List.mem_map_of_mem hb))
    · intro h
      exact .parallel (List.forall_mem_map.mpr fun b hb => (ih b hb).mpr (h.nodes b hb))

/-! ## Cycles -/

/-- The second node has vectors of the right sizes, and a reset makes no difference between it
and the first. -/
structure Forgotten (n n' : Node α) : Prop where
  sized : Sized n'
  reset : n'.reset = n.reset

namespace Forgotten

theorem refl {n : Node α} (h : Sized n) : Forgotten n n := ⟨h, rfl⟩

theorem sequential {name : String} {stages stages' : List (Node α)}
    (h : List.Forall₂ Forgotten stages stages') :
    Forgotten (.sequential name stages) (.sequential name stages') := by
  have hparts : (∀ s ∈ stages', Sized s) ∧ resetStages stages' = resetStages stages := by
    induction h with
    | nil => exact ⟨List.forall_mem_nil _, rfl⟩
    | cons hfirst _ ih =>
      refine ⟨List.forall_mem_cons.mpr ⟨hfirst.sized, ih.1⟩, ?_⟩
      rw [resetStages, resetStages, hfirst.reset, ih.2]
  exact ⟨.sequential hparts.1, congrArg (Node.sequential name) hparts.2⟩

theorem parallel {name : String} {inputs outputs inputs' outputs' : Signals α}
    {branches branches' : List (Wired (Node α))} (hi : inputs'.length = inputs.length)
    (ho : outputs'.length = outputs.length)
    (h : List.Forall₂ (SameWiring Forgotten) branches branches') :
    Forgotten (.parallel name inputs outputs branches)
      (.parallel name inputs' outputs' branches') := by
  have hparts : (∀ b ∈ branches', Sized b.node) ∧
      resetBranches branches' = resetBranches branches := by
    induction h with
    | nil => exact ⟨List.forall_mem_nil _, rfl⟩
    | cons hfirst _ ih =>
      refine ⟨List.forall_mem_cons.mpr ⟨hfirst.node.sized, ih.1⟩, ?_⟩
      rw [resetBranches, resetBranches, hfirst.node.reset, ih.2, hfirst.inputMap,
        hfirst.outputMap]
  refine ⟨.parallel hparts.1, ?_⟩
  rw [Node.reset, Node.reset, Signals.clear_congr hi, Signals.clear_congr ho, hparts.2]

end Forgotten

/-- A writing of inputs that puts as many in the place of those that were there. -/
def Overwrites (write : Signals α → Except Fault (Signals α)) : Prop :=
  ∀ s t, write s = .ok t → t.length = s.length

omit [Scalar α] in
theorem overwrites_copy (values : List α) : Overwrites (·.copy values) :=
  fun _ _ h => Signals.length_copy h

omit [Scalar α] in
theorem overwrites_distribute (source : Signals α) (inputMap : List Nat) :
    Overwrites (distribute source inputMap) := by
  intro s t h
  refine Signals.length_foldlM (fun s entry t h => ?_) h
  obtain ⟨_, -, h⟩ := bind_eq_ok_iff.mp h
  exact Signals.length_set h

omit [Scalar α] in
/-- Outputs are put in the place of others. -/
theorem length_gather {branches : List (Wired (Node α))} {target gathered : Signals α}
    (h : gather target branches = .ok gathered) : gathered.length = target.length := by
  refine Signals.length_foldlM (fun target branch delivered h => ?_) h
  refine Signals.length_foldlM (fun s entry t h => ?_) h
  obtain ⟨_, -, h⟩ := bind_eq_ok_iff.mp h
  obtain ⟨_, -, h⟩ := bind_eq_ok_iff.mp h
  exact Signals.length_set h

/-- New inputs make no difference to a reset. -/
theorem overInputs_forgotten {write : Signals α → Except Fault (Signals α)}
    (hwrite : Overwrites write) {n n' : Node α} (h : Sized n)
    (hw : n.overInputs write = .ok n') : Forgotten n n' := by
  induction n using induct generalizing n' with
  | leaf name law inputs outputs =>
    obtain ⟨written, hwritten, hw⟩ := bind_eq_ok_iff.mp hw
    cases hw
    have hlength := hwrite _ _ hwritten
    cases h with
    | leaf takes gives =>
      refine ⟨.leaf (hlength.trans takes) gives, ?_⟩
      rw [reset, reset, Signals.clear_congr hlength]
  | sequential name stages ih =>
    cases stages with
    | nil => cases hw
    | cons first rest =>
      obtain ⟨first', hfirst, hw⟩ := bind_eq_ok_iff.mp hw
      cases hw
      have hstages := h.stages
      rw [List.forall_mem_cons] at hstages
      refine .sequential (.cons (ih first List.mem_cons_self hstages.1 hfirst) ?_)
      exact List.forall₂_same.mpr fun s hs => .refl (hstages.2 s hs)
  | parallel name inputs outputs branches _ =>
    obtain ⟨written, hwritten, hw⟩ := bind_eq_ok_iff.mp hw
    cases hw
    refine .parallel (hwrite _ _ hwritten) rfl ?_
    exact List.forall₂_same.mpr fun b hb => ⟨rfl, rfl, .refl (h.nodes b hb)⟩

/-- A cycle of the node makes no difference to a reset, whatever inputs are written first. -/
def Forgets (n : Node α) : Prop :=
  ∀ write, (∀ w ∈ write, Overwrites w) → ∀ n', n.run write = .ok n' → Forgotten n n'

theorem runFollowers_forgotten {rest rest' : List (Node α)} {previous : Node α}
    (hforgets : ∀ s ∈ rest, Forgets s) (h : runFollowers previous rest = .ok rest') :
    List.Forall₂ Forgotten rest rest' := by
  induction rest generalizing previous rest' with
  | nil =>
    cases h
    exact .nil
  | cons stage rest ih =>
    rw [List.forall_mem_cons] at hforgets
    obtain ⟨fed, -, h⟩ := bind_eq_ok_iff.mp h
    obtain ⟨stage', hstage, h⟩ := bind_eq_ok_iff.mp h
    obtain ⟨rest'', hrest, h⟩ := bind_eq_ok_iff.mp h
    cases h
    refine .cons (hforgets.1 _ ?_ stage' hstage) (ih hforgets.2 hrest)
    intro w hw
    cases hw
    exact overwrites_copy fed.values

theorem runBranches_forgotten {inputs : Signals α} {branches branches' : List (Wired (Node α))}
    (hforgets : ∀ b ∈ branches, Forgets b.node) (h : runBranches inputs branches = .ok branches') :
    List.Forall₂ (SameWiring Forgotten) branches branches' := by
  induction branches generalizing branches' with
  | nil =>
    cases h
    exact .nil
  | cons branch rest ih =>
    rw [List.forall_mem_cons] at hforgets
    obtain ⟨node, hnode, h⟩ := bind_eq_ok_iff.mp h
    obtain ⟨rest', hrest, h⟩ := bind_eq_ok_iff.mp h
    cases h
    refine .cons ⟨rfl, rfl, hforgets.1 _ ?_ node hnode⟩ (ih hforgets.2 hrest)
    intro w hw
    by_cases hempty : branch.inputMap.isEmpty
    · rw [if_pos hempty] at hw
      cases hw
    · rw [if_neg hempty] at hw
      cases hw
      exact overwrites_distribute inputs branch.inputMap

omit [Scalar α] in
theorem length_written {write : Option (Signals α → Except Fault (Signals α))}
    (hwrite : ∀ w ∈ write, Overwrites w) {inputs inputs' : Signals α}
    (h : written write inputs = .ok inputs') : inputs'.length = inputs.length := by
  cases write with
  | none =>
    cases h
    rfl
  | some w => exact hwrite w rfl _ _ h

theorem Sized.forgets {n : Node α} (h : Sized n) : Forgets n := by
  induction n using induct with
  | leaf name law inputs outputs =>
    intro write hwrite n' hrun
    obtain ⟨inputs', hwritten, hrun⟩ := bind_eq_ok_iff.mp hrun
    obtain ⟨⟨values, law'⟩, hlaw, hrun⟩ := bind_eq_ok_iff.mp hrun
    cases hrun
    have hlength := length_written hwrite hwritten
    cases h with
    | leaf takes gives =>
      have htakes : inputs'.length = law.arity.1 := hlength.trans takes
      -- the law leaves as many values as there were, and that is all that clearing leaves
      obtain ⟨hout, harity⟩ := Law.compute_lengths hlaw
      have hgives : values.length = law.arity.2 := hout.trans gives
      refine ⟨.leaf (by rw [harity]; exact htakes) (by rw [harity]; exact hgives), ?_⟩
      have hout : (Signals.mk values).length = outputs.length := hout
      rw [Node.reset, Node.reset, Law.reset_compute hlaw, Signals.clear_congr hlength,
        Signals.clear_congr hout]
  | sequential name stages ih =>
    intro write hwrite n' hrun
    have hforgets := fun s hs => ih s hs (h.stages s hs)
    cases stages with
    | nil =>
      rw [run] at hrun
      by_cases hsome : write.isSome
      · rw [if_pos hsome] at hrun
        cases hrun
      · rw [if_neg hsome] at hrun
        cases hrun
        exact .refl h
    | cons first rest =>
      rw [List.forall_mem_cons] at hforgets
      obtain ⟨first', hfirst, hrun⟩ := bind_eq_ok_iff.mp hrun
      obtain ⟨rest', hrest, hrun⟩ := bind_eq_ok_iff.mp hrun
      cases hrun
      exact .sequential (.cons (hforgets.1 write hwrite first' hfirst)
        (runFollowers_forgotten hforgets.2 hrest))
  | parallel name inputs outputs branches ih =>
    intro write hwrite n' hrun
    obtain ⟨inputs', hwritten, hrun⟩ := bind_eq_ok_iff.mp hrun
    obtain ⟨branches', hbranches, hrun⟩ := bind_eq_ok_iff.mp hrun
    obtain ⟨outputs', hgather, hrun⟩ := bind_eq_ok_iff.mp hrun
    cases hrun
    exact .parallel (length_written hwrite hwritten) (length_gather hgather)
      (runBranches_forgotten (fun b hb => ih b hb (h.nodes b hb)) hbranches)

/-- New inputs make no difference to a reset. -/
theorem setInputs_forgotten {n n' : Node α} (h : Sized n) {values : List α}
    (hset : n.setInputs values = .ok n') : Forgotten n n' :=
  overInputs_forgotten (overwrites_copy values) h hset

/-- A cycle makes no difference to a reset. -/
theorem compute_forgotten {n n' : Node α} (h : Sized n) (hcompute : n.compute = .ok n') :
    Forgotten n n' := by
  refine h.forgets none ?_ n' hcompute
  intro w hw
  cases hw

/-! ## Parameter blocks -/

/-- A leaf takes the same blocks after a reset, and refuses the others in the same words. -/
theorem install_reset (settings : LawSettings α) (n : Node α) :
    n.reset.install settings = (n.install settings).map reset := by
  cases n with
  | leaf name law inputs outputs =>
    rw [reset, install, install, Law.install_reset, Law.kind_reset, Law.isParameterized_reset]
    cases settings.check with
    | error reason => rfl
    | ok u =>
      dsimp only
      cases law.install settings with
      | some law' => rfl
      | none =>
        dsimp only [Option.map_none]
        cases law.isParameterized with
        | true => rfl
        | false => rfl
  | sequential name stages => rfl
  | parallel name inputs outputs branches => rfl

section Edit

variable {name : String} {settings : LawSettings α}

theorem editStage?_reset {stages : List (Node α)}
    (h : ∀ s ∈ stages, s.reset.edit? name (install settings)
      = (s.edit? name (install settings)).map (·.map reset)) :
    editStage? name (install settings) (resetStages stages)
      = (editStage? name (install settings) stages).map (·.map resetStages) := by
  induction stages with
  | nil => rfl
  | cons first rest ih =>
    rw [List.forall_mem_cons] at h
    rw [resetStages, editStage?, editStage?, h.1, ih h.2]
    cases first.edit? name (install settings) with
    | some changed =>
      cases changed with
      | ok _ => rfl
      | error _ => rfl
    | none =>
      cases editStage? name (install settings) rest with
      | none => rfl
      | some changed =>
        cases changed with
        | ok _ => rfl
        | error _ => rfl

theorem editBranch?_reset {branches : List (Wired (Node α))}
    (h : ∀ b ∈ branches, b.node.reset.edit? name (install settings)
      = (b.node.edit? name (install settings)).map (·.map reset)) :
    editBranch? name (install settings) (resetBranches branches)
      = (editBranch? name (install settings) branches).map (·.map resetBranches) := by
  induction branches with
  | nil => rfl
  | cons first rest ih =>
    rw [List.forall_mem_cons] at h
    rw [resetBranches, editBranch?, editBranch?, h.1, ih h.2]
    cases first.node.edit? name (install settings) with
    | some changed =>
      cases changed with
      | ok _ => rfl
      | error _ => rfl
    | none =>
      cases editBranch? name (install settings) rest with
      | none => rfl
      | some changed =>
        cases changed with
        | ok _ => rfl
        | error _ => rfl

theorem edit?_reset (n : Node α) :
    n.reset.edit? name (install settings)
      = (n.edit? name (install settings)).map (·.map reset) := by
  induction n using induct with
  | leaf own law inputs outputs =>
    rw [edit?]
    by_cases hname : own = name
    · rw [if_pos hname, Option.map_some, ← install_reset, reset, edit?, if_pos hname]
    · rw [if_neg hname, reset, edit?, if_neg hname, Option.map_none]
  | sequential own stages ih =>
    rw [edit?]
    by_cases hname : own = name
    -- a composite node of that name refuses, after a reset as before
    · rw [if_pos hname, Option.map_some, ← install_reset, reset, edit?, if_pos hname]
    · rw [if_neg hname, reset, edit?, if_neg hname, editStage?_reset ih, Option.map_map,
        Option.map_map]
      refine congrArg (Option.map · _) (funext fun changed => ?_)
      cases changed with
      | ok _ => rfl
      | error _ => rfl
  | parallel own inputs outputs branches ih =>
    rw [edit?]
    by_cases hname : own = name
    · rw [if_pos hname, Option.map_some, ← install_reset, reset, edit?, if_pos hname]
    · rw [if_neg hname, reset, edit?, if_neg hname, editBranch?_reset ih, Option.map_map,
        Option.map_map]
      refine congrArg (Option.map · _) (funext fun changed => ?_)
      cases changed with
      | ok _ => rfl
      | error _ => rfl

/-- A reset makes no difference to which blocks a tree accepts, and takes none of them away. -/
theorem setParameters_reset (n : Node α) :
    n.reset.setParameters name settings = (n.setParameters name settings).map reset := by
  rw [setParameters, setParameters, edit?_reset]
  cases n.edit? name (install settings) with
  | none => rfl
  | some changed => rfl

end Edit

end Node

end MotionControl
