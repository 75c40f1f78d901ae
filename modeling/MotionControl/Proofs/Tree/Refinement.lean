import MotionControl.Proofs.Law
import MotionControl.Proofs.Tree.Circuit
import MotionControl.Proofs.Tree.Placement

/-!
# Trees compute what their circuits compute

A cycle of a sound tree writes every vector before it reads it, so that nothing of an
earlier cycle leaks into a later one.

- `Node.run_some`, `Node.run_none`: a cycle with and without new inputs, and `Node.run_share`: one
  on the share of a branch.
- `SameOutcome`: two computations that succeed together, with related results.
- `Node.CyclesAlike`: a cycle of a tree against one of its circuit.
- `Node.Sound.cycle`: a sound tree cycles like its circuit, whatever its vectors held before.
-/

namespace MotionControl

open Outcome

/-! ## Computations side by side -/

/-- Both computations succeed, with results related by `Q`; or both fail, because a law
with `P` faults on inputs of its arity. -/
inductive SameOutcome {α β γ : Type} [Scalar α] (P : Law α → Prop) (Q : β → γ → Prop) :
    Except Fault β → Option γ → Prop where
  | done {b c} (related : Q b c) : SameOutcome P Q (.ok b) (some c)
  | failed {law inputs outputs fault} (holds : P law) (takes : inputs.length = law.arity.1)
      (gives : outputs.length = law.arity.2)
      (fails : law.compute inputs outputs = .error fault) : SameOutcome P Q (.error fault) none

namespace SameOutcome

variable {α β γ δ ζ : Type} [Scalar α] {P : Law α → Prop} {Q : β → γ → Prop} {R : δ → ζ → Prop}
  {x : Except Fault β} {y : Option γ}

/-- Chains of computations side by side. -/
theorem bind {f : β → Except Fault δ} {g : γ → Option ζ} (h : SameOutcome P Q x y)
    (hfg : ∀ b c, Q b c → SameOutcome P R (f b) (g c)) :
    SameOutcome P R (x >>= f) (y.bind g) := by
  cases h with
  | done related => exact hfg _ _ related
  | failed holds takes gives fails => exact .failed holds takes gives fails

theorem map {f : β → δ} {g : γ → ζ} (h : SameOutcome P Q x y)
    (hfg : ∀ b c, Q b c → R (f b) (g c)) :
    SameOutcome P R (x >>= fun b => .ok (f b)) (y.map g) := by
  cases h with
  | done related => exact .done (hfg _ _ related)
  | failed holds takes gives fails => exact .failed holds takes gives fails

theorem of_ok {b : β} (h : SameOutcome P Q (.ok b) y) : ∃ c, y = some c ∧ Q b c := by
  cases h with
  | done related => exact ⟨_, rfl, related⟩

theorem of_some {c : γ} (h : SameOutcome P Q x (some c)) : ∃ b, x = .ok b ∧ Q b c := by
  cases h with
  | done related => exact ⟨_, rfl, related⟩

/-- With laws that answer, both computations succeed. -/
theorem answers (h : SameOutcome P Q x y) (hanswer : Answering P) :
    ∃ b c, x = .ok b ∧ y = some c ∧ Q b c := by
  cases h with
  | done related => exact ⟨_, _, rfl, rfl, related⟩
  | failed holds takes gives fails =>
    obtain ⟨r, hr⟩ := hanswer _ holds _ _ takes gives
    rw [hr] at fails
    cases fails

end SameOutcome

namespace Node

variable {α : Type} [Scalar α]

/-! ## Writing and running -/

/-- A cycle after new inputs were written is the writing, and then a cycle. -/
theorem run_some (write : Signals α → Except Fault (Signals α)) (n : Node α) :
    n.run (some write) = n.overInputs write >>= run none := by
  induction n using induct with
  | leaf name law inputs outputs =>
    rw [run, overInputs, written]
    cases write inputs with
    | ok written => rfl
    | error fault => rfl
  | sequential name stages ih =>
    cases stages with
    | nil => rfl
    | cons first rest =>
      rw [run, overInputs, ih first List.mem_cons_self]
      cases first.overInputs write with
      | ok first => rfl
      | error fault => rfl
  | parallel name inputs outputs branches _ =>
    rw [run, overInputs, written]
    cases write inputs with
    | ok written => rfl
    | error fault => rfl

omit [Scalar α] in
/-- Only what a writing makes of the inputs that are there matters. -/
theorem overInputs_congr {write write' : Signals α → Except Fault (Signals α)} {n : Node α}
    {v : Signals α} (h : n.inputs = .ok v) (hv : write v = write' v) :
    n.overInputs write = n.overInputs write' := by
  induction n using induct with
  | leaf name law inputs outputs =>
    cases h
    rw [overInputs, overInputs, hv]
  | sequential name stages ih =>
    cases stages with
    | nil => cases h
    | cons first rest => rw [overInputs, overInputs, ih first List.mem_cons_self h]
  | parallel name inputs outputs branches _ =>
    cases h
    rw [overInputs, overInputs, hv]

omit [Scalar α] in
/-- Writing the inputs that are there changes nothing. -/
theorem overInputs_inputs {n : Node α} {v : Signals α} (h : n.inputs = .ok v) :
    n.overInputs (·.copy v.values) = .ok n := by
  induction n using induct with
  | leaf name law inputs outputs =>
    cases h
    rw [overInputs, Signals.copy_of_length rfl, ok_bind]
  | sequential name stages ih =>
    cases stages with
    | nil => cases h
    | cons first rest =>
      rw [overInputs, ih first List.mem_cons_self h]
      rfl
  | parallel name inputs outputs branches _ =>
    cases h
    rw [overInputs, Signals.copy_of_length rfl, ok_bind]

/-- A cycle on the inputs that are there is a cycle on them, written once more. -/
theorem run_none {n : Node α} {v : Signals α} (h : n.inputs = .ok v) :
    n.run none = n.run (some (·.copy v.values)) := by
  rw [run_some, overInputs_inputs h, ok_bind]

/-- A cycle on the share of a branch, when the share fills the inputs, is a cycle on the picked
inputs. -/
theorem run_share {values picked : List α} {inputMap : List Nat} {n : Node α} {v : Signals α}
    (hv : n.inputs = .ok v) (hlength : v.length = inputMap.length) (hne : inputMap ≠ [])
    (hpicked : inputMap.mapM (values[·]?) = some picked) (hcount : picked.length = v.length) :
    n.run (if inputMap.isEmpty then none else some (distribute ⟨values⟩ inputMap))
      = n.run (some (·.copy picked)) := by
  have hwrite : distribute ⟨values⟩ inputMap v = v.copy picked :=
    (distribute_eq hpicked hlength).trans (Signals.copy_of_length hcount).symm
  have hsame : n.overInputs (distribute ⟨values⟩ inputMap) = n.overInputs (·.copy picked) :=
    overInputs_congr hv hwrite
  rw [if_neg fun hempty => hne (List.isEmpty_iff.mp hempty), run_some, run_some, hsame]

/-- Overwriting the inputs, running a cycle and reading the outputs, as one cycle. -/
theorem respond_eq (n : Node α) (values : List α) :
    n.respond values
      = n.run (some (·.copy values)) >>= fun n => n.outputs >>= fun s => .ok (s, n) := by
  rw [respond, run_some, setInputs]
  cases n.overInputs (·.copy values) with
  | ok n => rfl
  | error fault => rfl

/-! ## Cycles side by side -/

section Cycle

variable {P : Law α → Prop}

namespace Sound

omit [Scalar α] in
/-- A sound node has a vector of outputs. -/
theorem outputs [Scalar α] {n : Node α} (h : Sound P n) : ∃ v, n.outputs = .ok v := by
  induction h with
  | leaf => exact ⟨_, rfl⟩
  | @sequential name first rest _ _ ih =>
    -- The outputs are those of the last stage, however many come before it.
    clear * - ih
    induction rest generalizing first with
    | nil => exact ih first List.mem_cons_self
    | cons second rest ih' => exact ih' fun s hs => ih s (List.mem_cons_of_mem _ hs)
  | parallel => exact ⟨_, rfl⟩

end Sound

/-- What a cycle of a sound node comes to: a sound node with the same ends, and the outputs
and the circuit that the circuit of the node gives. -/
structure Cycled (P : Law α → Prop) (n n' : Node α) (r : List α × Circuit α) : Prop
    extends Kept P n n' where
  outputs : n'.outputs = .ok ⟨r.1⟩
  circuit : r.2 = n'.circuit

/-- A node that runs a cycle on its inputs like its circuit does. -/
def CyclesAlike (P : Law α → Prop) (n : Node α) : Prop :=
  ∀ values : List α, values.length = n.inputCount →
    SameOutcome P (Cycled P n) (n.run (some (·.copy values))) (n.circuit.eval values)

theorem cyclesAlike_leaf (hP : LawInvariant P) {name : String} {law : Law α}
    {inputs outputs : Signals α} (h : Sound P (leaf name law inputs outputs)) :
    CyclesAlike P (leaf name law inputs outputs) := by
  intro values hvalues
  have hsound := h
  cases h with
  | leaf holds takes gives pos =>
  rw [run, circuit, Circuit.eval, written]
  dsimp only
  rw [Signals.copy_of_length hvalues, ok_bind]
  rw [← law.compute_eq_answer gives]
  cases hc : law.compute values outputs.values with
  | error fault => exact .failed holds (hvalues.trans takes) gives hc
  | ok r =>
    obtain ⟨hlength, harity⟩ := Law.compute_lengths hc
    exact .done ⟨.leaf hsound (hP.compute holds hc) harity hvalues hlength, rfl, rfl⟩

/-- What the stages after a node come to. -/
structure FollowersCycled (P : Law α → Prop) (name : String) (previous : Node α)
    (rest rest' : List (Node α)) (r : List α × List (Circuit α)) : Prop where
  kept : List.Forall₂ (Kept P) rest rest'
  outputs : (sequential name (previous :: rest')).outputs = .ok ⟨r.1⟩
  circuits : r.2 = circuitStages rest'

theorem runFollowers_cycled (name : String) {previous : Node α} {rest : List (Node α)}
    {values : List α} (hout : previous.outputs = .ok ⟨values⟩)
    (hchain : (previous :: rest).IsChain Feeds) (halike : ∀ s ∈ rest, CyclesAlike P s) :
    SameOutcome P (FollowersCycled P name previous rest) (runFollowers previous rest)
      (Circuit.evalStages (circuitStages rest) values) := by
  -- What one stage gives, the next one takes: the stage before and its outputs are general.
  induction rest generalizing previous values with
  | nil => exact .done ⟨.nil, hout, rfl⟩
  | cons stage rest ih =>
    rw [List.isChain_cons_cons] at hchain
    rw [List.forall_mem_cons] at halike
    rw [runFollowers, hout, ok_bind, circuitStages, Circuit.evalStages]
    have hstage := halike.1 values (length_of_feeds hout hchain.1)
    refine hstage.bind fun stage' r hr => ?_
    have hrest := ih hr.outputs (chain_of_sameEnds hr.ends hchain.2) halike.2
    refine hrest.map fun rest' q hq => ⟨.cons hr.toKept hq.kept, hq.outputs, ?_⟩
    rw [circuitStages, hr.circuit, hq.circuits]

theorem cyclesAlike_sequential {name : String} {first : Node α} {rest : List (Node α)}
    (h : Sound P (sequential name (first :: rest)))
    (halike : ∀ s ∈ first :: rest, CyclesAlike P s) :
    CyclesAlike P (sequential name (first :: rest)) := by
  intro values hvalues
  rw [List.forall_mem_cons] at halike
  rw [run, circuit, Circuit.eval, circuitStages, Circuit.evalStages, Option.map_bind]
  refine (halike.1 values hvalues).bind fun first' r hr => ?_
  rw [Function.comp, Option.map_map]
  have hrest := runFollowers_cycled name hr.outputs (chain_of_sameEnds hr.ends h.chain) halike.2
  refine hrest.map fun rest' q hq => ⟨.sequential h (.cons hr.toKept hq.kept), hq.outputs, ?_⟩
  rw [circuit, circuitStages, Function.comp, hr.circuit, hq.circuits]

/-- What the branches of a parallel node come to. -/
structure BranchesCycled (P : Law α → Prop) (branches branches' : List (Wired (Node α)))
    (r : List (Nat × α) × List (Wired (Circuit α))) : Prop where
  kept : List.Forall₂ (SameWiring (Kept P)) branches branches'
  placed : r.1 = placements branches'
  circuits : r.2 = circuitBranches branches'

/-- A branch that fits runs on its share as on the inputs that it picks, and there are enough of
them. -/
theorem share_eq {inputs outputs : Nat} {values : List α} {b : Wired (Node α)}
    (hlength : values.length = inputs) (hfit : Fits inputs outputs b) (h : Sound P b.node) :
    ∃ picked, b.inputMap.mapM (values[·]?) = some picked ∧ picked.length = b.node.inputCount ∧
      b.node.run (if b.inputMap.isEmpty then none else some (distribute ⟨values⟩ b.inputMap))
        = b.node.run (some (·.copy picked)) := by
  have hbound : ∀ i ∈ b.inputMap, i < values.length := by
    rw [hlength]
    exact hfit.inputBound
  obtain ⟨picked, hsome, hpicked⟩ := Placement.mapM_pick hbound
  obtain ⟨v, hv, hcount, hpos⟩ := h.inputs
  -- A sound node takes at least one signal, so that it is never left with its old inputs.
  have hne : b.inputMap ≠ [] := by
    rw [← hfit.inputLength] at hpos
    exact List.length_pos_iff.mp hpos
  have hshare : v.length = b.inputMap.length := hcount.trans hfit.inputLength.symm
  exact ⟨picked, hsome, hpicked.trans hfit.inputLength,
    run_share hv hshare hne hsome (hpicked.trans hshare.symm)⟩

theorem runBranches_cycled {outputs : Nat} {values : List α} {branches : List (Wired (Node α))}
    (hnodes : ∀ b ∈ branches, Sound P b.node)
    (hfits : ∀ b ∈ branches, Fits values.length outputs b)
    (halike : ∀ b ∈ branches, CyclesAlike P b.node) :
    SameOutcome P (BranchesCycled P branches) (runBranches ⟨values⟩ branches)
      (Circuit.evalBranches (circuitBranches branches) values) := by
  induction branches with
  | nil => exact .done ⟨.nil, rfl, rfl⟩
  | cons branch rest ih =>
    obtain ⟨inputMap, outputMap, node⟩ := branch
    rw [List.forall_mem_cons] at hnodes hfits halike
    obtain ⟨picked, hsome, hpicked, hshare⟩ := share_eq rfl hfits.1 hnodes.1
    rw [runBranches, hshare, circuitBranches, Circuit.evalBranches, hsome, Option.bind_some]
    refine (halike.1 picked hpicked).bind fun node' r hr => ?_
    refine (ih hnodes.2 hfits.2 halike.2).map fun rest' q hq => ⟨?_, ?_, ?_⟩
    · exact .cons ⟨rfl, rfl, hr.toKept⟩ hq.kept
    · rw [placements, List.flatMap_cons, produced_eq hr.outputs, hq.placed, placements]
    · rw [circuitBranches, hr.circuit, hq.circuits]

/-- After a cycle of its branches, a sound parallel node gathers what they placed. -/
theorem BranchesCycled.gather {inputs : Nat} {target : Signals α}
    {branches branches' : List (Wired (Node α))} {r : List (Nat × α) × List (Wired (Circuit α))}
    (h : BranchesCycled P branches branches' r)
    (hfits : ∀ b ∈ branches, Fits inputs target.length b) (hnodup : (claims branches).Nodup)
    (hcover : ∀ i < target.length, i ∈ claims branches) :
    ∃ placed, (List.range target.length).mapM (r.1.lookup ·) = some placed ∧
      placed.length = target.length ∧ Node.gather target branches' = .ok ⟨placed⟩ := by
  have hwiring : List.Forall₂ (SameWiring SameEnds) branches branches' :=
    h.kept.imp fun _ _ hb => hb.imp fun _ _ hk => hk.ends
  rw [h.placed]
  refine gather_placed (fun b hb => (sound_of_keptWiring h.kept b hb).outputs)
    (fits_congr hwiring hfits) ?_ ?_
  · rw [claims_congr hwiring]
    exact hnodup
  · rw [claims_congr hwiring]
    exact hcover

theorem cyclesAlike_parallel {name : String} {inputs outputs : Signals α}
    {branches : List (Wired (Node α))} (h : Sound P (parallel name inputs outputs branches))
    (halike : ∀ b ∈ branches, CyclesAlike P b.node) :
    CyclesAlike P (parallel name inputs outputs branches) := by
  intro values hvalues
  change values.length = inputs.length at hvalues
  rw [run, circuit, Circuit.eval, written, Signals.copy_of_length hvalues, ok_bind]
  have hsound := h
  cases h with
  | parallel pos nonempty nodes fits nodup cover =>
  have hfits : ∀ b ∈ branches, Fits values.length outputs.length b := by
    rw [hvalues]
    exact fits
  refine (runBranches_cycled nodes hfits halike).bind fun branches' r hr => ?_
  obtain ⟨placed, hplaced, hlength, hgather⟩ := hr.gather fits nodup cover
  rw [hgather, ok_bind, hplaced, Option.map_some]
  refine .done ⟨.parallel hsound hvalues hlength hr.kept, rfl, ?_⟩
  rw [circuit, hr.circuits]
  exact congrArg (Circuit.parallel name · _) hlength.symm

/-- A cycle of a sound tree gives what a cycle of its circuit gives. -/
theorem Sound.cycle (hP : LawInvariant P) {n : Node α} (h : Sound P n) : CyclesAlike P n := by
  induction n using induct with
  | leaf name law inputs outputs => exact cyclesAlike_leaf hP h
  | sequential name stages ih =>
    cases stages with
    | nil => cases h
    | cons first rest => exact cyclesAlike_sequential h fun s hs => ih s hs (h.stages s hs)
  | parallel name inputs outputs branches ih =>
    exact cyclesAlike_parallel h fun b hb => ih b hb (h.nodes b hb)

end Cycle

end Node

end MotionControl
