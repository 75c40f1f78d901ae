import MotionControl.Proofs.Tree.Refinement
import MotionControl.Proofs.Tree.Upkeep

/-!
# What vectors held makes no difference

Trees that differ in the contents of their vectors only give the same outputs in the next
cycle, and are the same tree after it.

- `Node.forgetful_of_sound`: a cycle of a tree, with its vectors cleared or not.
- `Node.Sound.respond_sameBlank`: the same for two trees, inputs and outputs included.
- `Node.Sound.play`: over whole runs, a tree and its circuit do the same.
-/

namespace MotionControl

namespace Node

open Outcome

variable {α : Type} [Scalar α] {P : Law α → Prop}

/-! ## One cycle -/

/-- A cycle of the node does not depend on what its vectors hold. -/
def Forgetful (n : Node α) : Prop :=
  ∀ values : List α, values.length = n.inputCount →
    n.blank.run (some (·.copy values)) = n.run (some (·.copy values))

theorem runFollowers_blank (hP : LawInvariant P) {previous : Node α} {rest : List (Node α)}
    {values : List α} (hout : previous.outputs = .ok ⟨values⟩)
    (hchain : (previous :: rest).IsChain Feeds) (hsound : ∀ s ∈ rest, Sound P s)
    (hforget : ∀ s ∈ rest, Forgetful s) :
    runFollowers previous (rest.map blank) = runFollowers previous rest := by
  induction rest generalizing previous values with
  | nil => rfl
  | cons stage rest ih =>
    rw [List.isChain_cons_cons] at hchain
    rw [List.forall_mem_cons] at hsound hforget
    have hlength := length_of_feeds hout hchain.1
    rw [List.map_cons, runFollowers, runFollowers, hout, ok_bind, ok_bind,
      hforget.1 values hlength]
    cases hrun : stage.run (some (·.copy values)) with
    | error fault => rfl
    | ok stage' =>
      have hcycle := hsound.1.cycle hP values hlength
      rw [hrun] at hcycle
      obtain ⟨r, _, hr⟩ := hcycle.of_ok
      rw [ok_bind, ok_bind,
        ih hr.outputs (chain_of_sameEnds hr.ends hchain.2) hsound.2 hforget.2]

theorem runBranches_blank {inputs outputs : Nat} {values : List α}
    {branches : List (Wired (Node α))} (hlength : values.length = inputs)
    (hfits : ∀ b ∈ branches, Fits inputs outputs b) (hsound : ∀ b ∈ branches, Sound P b.node)
    (hforget : ∀ b ∈ branches, Forgetful b.node) :
    runBranches ⟨values⟩ (branches.map (Wired.map blank)) = runBranches ⟨values⟩ branches := by
  induction branches with
  | nil => rfl
  | cons branch rest ih =>
    rw [List.forall_mem_cons] at hfits hsound hforget
    obtain ⟨inputMap, outputMap, node⟩ := branch
    have hblank := hsound.1.blank
    have hwiring : SameWiring SameEnds ⟨inputMap, outputMap, node⟩
        ⟨inputMap, outputMap, node.blank⟩ := ⟨rfl, rfl, hblank.ends⟩
    -- Cleared or not, the branch picks the same inputs, and they fill its vector.
    obtain ⟨picked, hsome, hpicked, hshare⟩ := share_eq hlength hfits.1 hsound.1
    obtain ⟨picked', hsome', _, hshare'⟩ := share_eq hlength (hfits.1.congr hwiring) hblank.sound
    obtain rfl : picked = picked' := Option.some.inj (hsome.symm.trans hsome')
    dsimp only at hshare hshare' hpicked
    rw [List.map_cons, Wired.map, runBranches, runBranches, hshare, hshare',
      hforget.1 picked hpicked, ih hfits.2 hsound.2 hforget.2]

/-- A leaf writes its inputs before it reads them, and its law writes every slot of its outputs, so
that clearing them first is as good as leaving them. -/
theorem forgetful_leaf {name : String} {law : Law α} {inputs outputs : Signals α}
    (h : Sound P (.leaf name law inputs outputs)) : Forgetful (.leaf name law inputs outputs) := by
  intro values hvalues
  have hclear : values.length = inputs.clear.length := by
    rw [Signals.length_clear]
    exact hvalues
  rw [blank, run, run, written, written]
  dsimp only
  rw [Signals.copy_of_length hvalues, Signals.copy_of_length hclear, ok_bind, ok_bind]
  cases h with
  | leaf holds takes gives pos =>
    have hgives : outputs.clear.length = law.arity.2 := (Signals.length_clear outputs).trans gives
    rw [law.compute_eq_answer gives, law.compute_eq_answer hgives]

/-- A cascade depends on its vectors no more than its stages do. -/
theorem forgetful_sequential (hP : LawInvariant P) {name : String} {stages : List (Node α)}
    (h : Sound P (.sequential name stages)) (hforget : ∀ s ∈ stages, Forgetful s) :
    Forgetful (.sequential name stages) := by
  cases stages with
  | nil => cases h
  | cons first rest =>
    intro values hvalues
    have hsound := h.stages
    rw [List.forall_mem_cons] at hsound hforget
    rw [blank, blankStages, blankStages_eq_map, run, run, hforget.1 values hvalues]
    cases hrun : first.run (some (·.copy values)) with
    | error fault => rfl
    | ok first' =>
      have hcycle := hsound.1.cycle hP values hvalues
      rw [hrun] at hcycle
      obtain ⟨r, _, hr⟩ := hcycle.of_ok
      have hchain := chain_of_sameEnds hr.ends h.chain
      rw [ok_bind, ok_bind, runFollowers_blank hP hr.outputs hchain hsound.2 hforget.2]

/-- After a cycle the branches drive every output of their parent, so that it makes no difference
which outputs they are gathered into. -/
theorem BranchesCycled.gather_congr {inputs : Nat} {target target' : Signals α}
    {branches branches' : List (Wired (Node α))} {r : List (Nat × α) × List (Wired (Circuit α))}
    (h : BranchesCycled P branches branches' r) (hlength : target'.length = target.length)
    (hfits : ∀ b ∈ branches, Fits inputs target.length b) (hnodup : (claims branches).Nodup)
    (hcover : ∀ i < target.length, i ∈ claims branches) :
    Node.gather target' branches' = Node.gather target branches' := by
  obtain ⟨placed, hplaced, _, hgather⟩ := h.gather hfits hnodup hcover
  rw [← hlength] at hplaced hfits hcover
  obtain ⟨placed', hplaced', _, hgather'⟩ := h.gather hfits hnodup hcover
  obtain rfl : placed' = placed := Option.some.inj (hplaced'.symm.trans hplaced)
  rw [hgather, hgather']

/-- A parallel node depends on its vectors no more than its branches do. -/
theorem forgetful_parallel (hP : LawInvariant P) {name : String} {inputs outputs : Signals α}
    {branches : List (Wired (Node α))} (h : Sound P (.parallel name inputs outputs branches))
    (hforget : ∀ b ∈ branches, Forgetful b.node) :
    Forgetful (.parallel name inputs outputs branches) := by
  intro values hvalues
  change values.length = inputs.length at hvalues
  have hclear : values.length = inputs.clear.length := by
    rw [Signals.length_clear]
    exact hvalues
  have hsound := h.nodes
  cases h with
  | parallel pos nonempty nodes fits nodup cover =>
  rw [blank, blankBranches_eq_map, run, run, written, written]
  rw [Signals.copy_of_length hvalues, Signals.copy_of_length hclear, ok_bind, ok_bind,
    runBranches_blank hvalues fits hsound hforget]
  cases hrun : runBranches ⟨values⟩ branches with
  | error fault => rfl
  | ok branches' =>
    have hfits : ∀ b ∈ branches, Fits values.length outputs.length b := by
      rw [hvalues]
      exact fits
    have hcycle := runBranches_cycled hsound hfits fun b hb => (hsound b hb).cycle hP
    rw [hrun] at hcycle
    obtain ⟨r, _, hr⟩ := hcycle.of_ok
    rw [ok_bind, ok_bind, hr.gather_congr (Signals.length_clear outputs) fits nodup cover]

/-- What the vectors of a sound tree hold makes no difference to a cycle on new inputs: every
one of them is written before it is read. -/
theorem forgetful_of_sound (hP : LawInvariant P) {n : Node α} (h : Sound P n) : Forgetful n := by
  induction n using induct with
  | leaf name law inputs outputs => exact forgetful_leaf h
  | sequential name stages ih =>
    exact forgetful_sequential hP h fun s hs => ih s hs (h.stages s hs)
  | parallel name inputs outputs branches ih =>
    exact forgetful_parallel hP h fun b hb => ih b hb (h.nodes b hb)

/-- Trees that differ in their vectors only answer inputs with the same outputs, and are the
same tree afterwards. -/
theorem Sound.respond_sameBlank (hP : LawInvariant P) {n n' : Node α} (h : Sound P n)
    (hblank : n'.blank = n.blank) {values : List α} (hvalues : values.length = n.inputCount) :
    n'.respond values = n.respond values := by
  have hkept := h.sameBlank hblank
  have hvalues' : values.length = n'.inputCount := by
    rw [hkept.ends.inputCount]
    exact hvalues
  rw [respond_eq, respond_eq, ← forgetful_of_sound hP h values hvalues,
    ← forgetful_of_sound hP hkept.sound values hvalues', hblank]

/-! ## Whole runs -/

/-- What a tree and its circuit have in common along a run. -/
structure Realizes (P : Law α → Prop) (width : Nat) (n : Node α) (c : Circuit α) : Prop where
  sound : Sound P n
  width : n.inputCount = width
  circuit : c = n.circuit

theorem realizes_circuit {n : Node α} (h : Sound P n) : Realizes P n.inputCount n n.circuit :=
  ⟨h, rfl, rfl⟩

theorem Realizes.kept {width : Nat} {n n' : Node α} {c : Circuit α} (h : Realizes P width n c)
    (hk : Kept P n n') : Realizes P width n' n'.circuit :=
  ⟨hk.sound, hk.ends.inputCount.trans h.width, rfl⟩

theorem Realizes.reset (hP : LawInvariant P) {width : Nat} {n : Node α} {c : Circuit α}
    (h : Realizes P width n c) : Realizes P width n.reset c.reset := by
  rw [h.circuit, ← circuit_reset]
  exact h.kept (h.sound.reset hP)

/-- A tree and its circuit respond alike. -/
theorem Sound.respond (hP : LawInvariant P) {n : Node α} (h : Sound P n) {values : List α}
    (hvalues : values.length = n.inputCount) :
    SameOutcome P (fun p r => p.1.values = r.1 ∧ Kept P n p.2 ∧ r.2 = p.2.circuit)
      (n.respond values) (n.circuit.eval values) := by
  have hcycle := h.cycle hP values hvalues
  rw [respond_eq, ← Option.bind_fun_some (n.circuit.eval values)]
  refine hcycle.bind fun n' r hr => ?_
  rw [hr.outputs, ok_bind]
  exact .done ⟨rfl, hr.toKept, hr.circuit⟩

/-- Along a run, a circuit does what its tree does. -/
theorem circuit_follows (hP : LawInvariant P) (width : Nat) :
    Cyclic.Follows (machine α) (Circuit.machine α) width (Realizes P width) where
  respond {n c inputs outputs n'} h hinputs hrespond := by
    obtain ⟨⟨s, n''⟩, hok, heq⟩ := Option.map_eq_some_iff.mp hrespond
    cases heq
    have hoption := h.sound.respond hP (hinputs.trans h.width.symm)
    rw [toOption_eq_some_iff.mp hok] at hoption
    obtain ⟨r, heval, houtputs, hkept, hcircuit⟩ := hoption.of_ok
    dsimp only at houtputs hkept hcircuit
    refine ⟨n'.circuit, ?_, h.kept hkept⟩
    rw [h.circuit]
    show n.circuit.eval inputs = some (s.values, n'.circuit)
    rw [heval, houtputs, ← hcircuit]
  reset h := h.reset hP
  change {n c block n'} h hchange := by
    have hok : n.setParameters block.1 block.2 = .ok n' := toOption_eq_some_iff.mp hchange
    refine ⟨n'.circuit, ?_, h.kept (h.sound.setParameters hP hok)⟩
    rw [h.circuit]
    show (n.circuit.install? block.1 block.2).join = some n'.circuit
    rw [← circuit_setParameters, hok]
    rfl

/-- Along a run, a tree does what its circuit does. -/
theorem machine_follows (hP : LawInvariant P) (width : Nat) :
    Cyclic.Follows (Circuit.machine α) (machine α) width fun c n => Realizes P width n c where
  respond {c n inputs outputs c'} h hinputs hrespond := by
    have hoption := h.sound.respond hP (hinputs.trans h.width.symm)
    rw [← h.circuit, show c.eval inputs = some (outputs, c') from hrespond] at hoption
    obtain ⟨⟨s, n'⟩, hok, houtputs, hkept, hcircuit⟩ := hoption.of_some
    dsimp only at houtputs hkept hcircuit
    refine ⟨n', ?_, ?_⟩
    · show (n.respond inputs).toOption.map _ = some (outputs, n')
      rw [hok, ← houtputs]
      rfl
    · rw [hcircuit]
      exact h.kept hkept
  reset h := h.reset hP
  change {c n block c'} h hchange := by
    rw [h.circuit] at hchange
    change (n.circuit.install? block.1 block.2).join = some c' at hchange
    rw [← circuit_setParameters] at hchange
    obtain ⟨n', hok, hcircuit⟩ := Option.map_eq_some_iff.mp hchange
    refine ⟨n', hok, ?_⟩
    rw [← hcircuit]
    exact h.kept (h.sound.setParameters hP (toOption_eq_some_iff.mp hok))

/-- A run of a sound tree is a run of its circuit: the same outputs in every cycle, or a
fault or a refusal in both. -/
theorem Sound.play (hP : LawInvariant P) {n : Node α} (h : Sound P n)
    {rounds : List (Round α (String × LawSettings α))}
    (hrounds : ∀ r ∈ rounds, r.Fits n.inputCount) :
    ((machine α).play n rounds).map (fun r => (r.1, r.2.circuit))
      = (Circuit.machine α).play n.circuit rounds := by
  refine Option.ext fun r => ?_
  constructor
  · intro hplay
    obtain ⟨⟨outputs, n'⟩, hrun, heq⟩ := Option.map_eq_some_iff.mp hplay
    obtain ⟨c', hplay', hc⟩ := Cyclic.play_of_follows (circuit_follows hP n.inputCount)
      (realizes_circuit h) hrounds hrun
    rw [← heq, hplay', hc.circuit]
  · intro hplay
    rcases r with ⟨outputs, c'⟩
    obtain ⟨n', hplay', hc⟩ := Cyclic.play_of_follows (machine_follows hP n.inputCount)
      (realizes_circuit h) hrounds hplay
    refine Option.map_eq_some_iff.mpr ⟨(outputs, n'), hplay', ?_⟩
    rw [← hc.circuit]

end Node

end MotionControl
