import Mathlib.Data.List.Chain
import Mathlib.Data.List.Forall2
import MotionControl.Control.Node.Cycle

/-!
# Sound controller trees

A tree is sound when nothing in its connections can go wrong in a cycle: every
vector has the length that its law or its parent relies on, stages fit together, and
every output of a parallel node has exactly one driver.

- `Node.induct`: induction over a tree with its lists of children.
- `Node.SameEnds`: two nodes that fit into the same place.
- `Node.Sound`: the invariant, together with a property of the laws at the leaves.
- `Node.Kept`: a sound node that takes the place of another; `Node.Kept.sequential`,
  `Node.Kept.parallel`: so do nodes whose children take the places of others.
-/

namespace MotionControl

/-- Another node with the same connections. -/
def Wired.map {β γ : Type} (f : β → γ) (b : Wired β) : Wired γ :=
  ⟨b.inputMap, b.outputMap, f b.node⟩

theorem Wired.map_map {β γ δ : Type} (f : β → γ) (g : γ → δ) (branches : List (Wired β)) :
    (branches.map (Wired.map f)).map (Wired.map g) = branches.map (Wired.map (g ∘ f)) := by
  rw [List.map_map]
  rfl

theorem Wired.map_congr {β γ : Type} {f g : β → γ} {branches : List (Wired β)}
    (h : ∀ b ∈ branches, f b.node = g b.node) :
    branches.map (Wired.map f) = branches.map (Wired.map g) := by
  refine List.map_congr_left fun b hb => ?_
  rw [Wired.map, h b hb, Wired.map]

namespace Node

variable {α : Type}

/-- Induction over a tree: a property that holds of a composite node as soon as it holds
of its children holds of every node. -/
@[elab_as_elim]
theorem induct {C : Node α → Prop}
    (leaf : ∀ name law inputs outputs, C (leaf name law inputs outputs))
    (sequential : ∀ name stages, (∀ s ∈ stages, C s) → C (sequential name stages))
    (parallel : ∀ name inputs outputs branches, (∀ b ∈ branches, C b.node) →
      C (parallel name inputs outputs branches)) (n : Node α) : C n :=
  @Node.rec α C (fun stages => ∀ s ∈ stages, C s) (fun branches => ∀ b ∈ branches, C b.node)
    (fun b => C b.node) leaf sequential parallel
    (fun _ h => absurd h List.not_mem_nil)
    (fun _ _ hs hrest => List.forall_mem_cons.mpr ⟨hs, hrest⟩)
    (fun _ h => absurd h List.not_mem_nil)
    (fun _ _ hb hrest => List.forall_mem_cons.mpr ⟨hb, hrest⟩)
    (fun _ _ _ h => h) n

/-! ## The ends of a node -/

/-- The node takes and gives as many signals as another. -/
structure SameEnds (n n' : Node α) : Prop where
  inputCount : n'.inputCount = n.inputCount
  outputCount : n'.outputCount = n.outputCount

theorem SameEnds.refl (n : Node α) : SameEnds n n := ⟨rfl, rfl⟩

theorem SameEnds.trans {n n' n'' : Node α} (h : SameEnds n n') (h' : SameEnds n' n'') :
    SameEnds n n'' :=
  ⟨h'.inputCount.trans h.inputCount, h'.outputCount.trans h.outputCount⟩

/-- The second node takes as many signals as the first gives. -/
def Feeds (feeder fed : Node α) : Prop := feeder.outputCount = fed.inputCount

@[simp] theorem inputCount_leaf (name : String) (law : Law α) (inputs outputs : Signals α) :
    (leaf name law inputs outputs).inputCount = inputs.length := rfl

/-- A cascade takes what its first stage takes. -/
@[simp] theorem inputCount_sequential (name : String) (first : Node α) (rest : List (Node α)) :
    (sequential name (first :: rest)).inputCount = first.inputCount := rfl

/-- A cascade gives what its last stage gives. -/
theorem outputCount_of_getLast? {name : String} {stages : List (Node α)} {last : Node α}
    (h : stages.getLast? = some last) :
    (sequential name stages).outputCount = last.outputCount := by
  induction stages with
  | nil => cases h
  | cons first rest ih =>
    cases rest with
    | nil =>
      cases h
      rfl
    | cons second rest =>
      rw [List.getLast?_cons_cons] at h
      exact ih h

/-- Stages may be exchanged for others with the same ends. -/
theorem sameEnds_sequential {name : String} {stages stages' : List (Node α)}
    (h : List.Forall₂ SameEnds stages stages') :
    SameEnds (sequential name stages) (sequential name stages') := by
  induction h with
  | nil => exact .refl _
  | @cons first first' rest rest' hfirst hrest ih =>
    refine ⟨hfirst.inputCount, ?_⟩
    cases hrest with
    | nil => exact hfirst.outputCount
    | cons _ _ => exact ih.outputCount

theorem chain_feeds_congr {stages stages' : List (Node α)} (h : List.Forall₂ SameEnds stages stages')
    (hc : stages.IsChain Feeds) : stages'.IsChain Feeds := by
  induction h with
  | nil => exact .nil
  | @cons first first' rest rest' hfirst hrest ih =>
    cases hrest with
    | nil => exact .singleton _
    | @cons second second' _ _ hsecond hrest =>
      rw [List.isChain_cons_cons] at hc ⊢
      refine ⟨?_, ih hc.2⟩
      show first'.outputCount = second'.inputCount
      rw [hfirst.outputCount, hsecond.inputCount]
      exact hc.1

/-- The next stage finds its inputs in the outputs of the one before. -/
theorem length_of_feeds {previous stage : Node α} {values : List α}
    (hout : previous.outputs = .ok ⟨values⟩) (h : Feeds previous stage) :
    values.length = stage.inputCount := by
  rw [← h, outputCount, hout]
  rfl

/-- A stage may run a cycle without the stages after it noticing. -/
theorem chain_of_sameEnds {first first' : Node α} {rest : List (Node α)}
    (h : SameEnds first first') (hchain : (first :: rest).IsChain Feeds) :
    (first' :: rest).IsChain Feeds :=
  chain_feeds_congr (.cons h (List.forall₂_same.mpr fun s _ => .refl s)) hchain

/-! ## Branches -/

/-- The connections of a branch fit the node and a parent with these numbers of inputs
and outputs. -/
structure Fits (inputs outputs : Nat) (b : Wired (Node α)) : Prop where
  inputLength : b.inputMap.length = b.node.inputCount
  inputBound : ∀ i ∈ b.inputMap, i < inputs
  outputLength : b.outputMap.length = b.node.outputCount
  outputBound : ∀ i ∈ b.outputMap, i < outputs

/-- The outputs that branches drive, one after another. -/
def claims (branches : List (Wired (Node α))) : List Nat := branches.flatMap (·.outputMap)

/-- The same connections around a node that is related to the other by `R`. -/
structure SameWiring (R : Node α → Node α → Prop) (b b' : Wired (Node α)) : Prop where
  inputMap : b'.inputMap = b.inputMap
  outputMap : b'.outputMap = b.outputMap
  node : R b.node b'.node

theorem SameWiring.imp {R R' : Node α → Node α → Prop} (hR : ∀ n n', R n n' → R' n n')
    {b b' : Wired (Node α)} (h : SameWiring R b b') : SameWiring R' b b' :=
  ⟨h.inputMap, h.outputMap, hR _ _ h.node⟩

theorem Fits.congr {inputs outputs : Nat} {b b' : Wired (Node α)} (h : SameWiring SameEnds b b')
    (hf : Fits inputs outputs b) : Fits inputs outputs b' where
  inputLength := by rw [h.inputMap, h.node.inputCount]; exact hf.inputLength
  inputBound := by rw [h.inputMap]; exact hf.inputBound
  outputLength := by rw [h.outputMap, h.node.outputCount]; exact hf.outputLength
  outputBound := by rw [h.outputMap]; exact hf.outputBound

theorem fits_congr {inputs outputs : Nat} {branches branches' : List (Wired (Node α))}
    (h : List.Forall₂ (SameWiring SameEnds) branches branches')
    (hf : ∀ b ∈ branches, Fits inputs outputs b) : ∀ b ∈ branches', Fits inputs outputs b := by
  induction h with
  | nil => exact hf
  | cons hb _ ih =>
    rw [List.forall_mem_cons] at hf ⊢
    exact ⟨hf.1.congr hb, ih hf.2⟩

theorem claims_congr {branches branches' : List (Wired (Node α))}
    (h : List.Forall₂ (SameWiring SameEnds) branches branches') : claims branches' = claims branches := by
  induction h with
  | nil => rfl
  | cons hb _ ih =>
    rw [claims, List.flatMap_cons, hb.outputMap, claims, List.flatMap_cons]
    exact congrArg _ ih

/-! ## Soundness -/

/-- A tree whose connections hold, with laws that satisfy `P` at its leaves. -/
inductive Sound [Scalar α] (P : Law α → Prop) : Node α → Prop where
  | leaf {name law inputs outputs} (holds : P law) (takes : inputs.length = law.arity.1)
      (gives : outputs.length = law.arity.2) (pos : 0 < law.arity.1) :
      Sound P (leaf name law inputs outputs)
  | sequential {name first rest} (stages : ∀ s ∈ first :: rest, Sound P s)
      (chain : (first :: rest).IsChain Feeds) : Sound P (sequential name (first :: rest))
  | parallel {name inputs outputs branches} (pos : 0 < inputs.length) (nonempty : branches ≠ [])
      (nodes : ∀ b ∈ branches, Sound P b.node)
      (fits : ∀ b ∈ branches, Fits inputs.length outputs.length b)
      (nodup : (claims branches).Nodup) (cover : ∀ i < outputs.length, i ∈ claims branches) :
      Sound P (parallel name inputs outputs branches)

namespace Sound

variable [Scalar α] {P : Law α → Prop}

theorem of_stages {name : String} {stages : List (Node α)} (hne : stages ≠ [])
    (hsound : ∀ s ∈ stages, Sound P s) (hchain : stages.IsChain Feeds) :
    Sound P (.sequential name stages) := by
  cases stages with
  | nil => exact absurd rfl hne
  | cons first rest => exact .sequential hsound hchain

theorem law {name : String} {law : Law α} {inputs outputs : Signals α}
    (h : Sound P (.leaf name law inputs outputs)) : P law := by
  cases h with
  | leaf holds => exact holds

theorem stages {name : String} {stages : List (Node α)} (h : Sound P (.sequential name stages)) :
    ∀ s ∈ stages, Sound P s := by
  cases h with
  | sequential stages => exact stages

theorem chain {name : String} {stages : List (Node α)} (h : Sound P (.sequential name stages)) :
    stages.IsChain Feeds := by
  cases h with
  | sequential _ chain => exact chain

theorem nodes {name : String} {inputs outputs : Signals α} {branches : List (Wired (Node α))}
    (h : Sound P (.parallel name inputs outputs branches)) : ∀ b ∈ branches, Sound P b.node := by
  cases h with
  | parallel _ _ nodes => exact nodes

/-- A sound node has a vector of inputs, and it is not empty. -/
theorem inputs {n : Node α} (h : Sound P n) :
    ∃ v, n.inputs = .ok v ∧ v.length = n.inputCount ∧ 0 < n.inputCount := by
  induction h with
  | leaf _ takes _ pos => exact ⟨_, rfl, rfl, by rw [inputCount_leaf, takes]; exact pos⟩
  | @sequential name first rest _ _ ih => exact ih first List.mem_cons_self
  | parallel pos => exact ⟨_, rfl, rfl, pos⟩

end Sound

/-! ## Nodes that take the place of others -/

section Kept

variable [Scalar α] {P : Law α → Prop}

/-- The second node is sound and fits into the place of the first. -/
structure Kept (P : Law α → Prop) (n n' : Node α) : Prop where
  sound : Sound P n'
  ends : SameEnds n n'

theorem Kept.refl {n : Node α} (h : Sound P n) : Kept P n n := ⟨h, .refl n⟩

theorem sound_of_kept {stages stages' : List (Node α)} (h : List.Forall₂ (Kept P) stages stages') :
    ∀ s ∈ stages', Sound P s := by
  induction h with
  | nil => exact List.forall_mem_nil _
  | cons hfirst _ ih => exact List.forall_mem_cons.mpr ⟨hfirst.sound, ih⟩

theorem sound_of_keptWiring {branches branches' : List (Wired (Node α))}
    (h : List.Forall₂ (SameWiring (Kept P)) branches branches') :
    ∀ b ∈ branches', Sound P b.node := by
  induction h with
  | nil => exact List.forall_mem_nil _
  | cons hfirst _ ih => exact List.forall_mem_cons.mpr ⟨hfirst.node.sound, ih⟩

/-- A leaf may have another law of the same arity, and its vectors may hold anything. -/
theorem Kept.leaf {name : String} {law law' : Law α} {inputs outputs inputs' outputs' : Signals α}
    (h : Sound P (.leaf name law inputs outputs)) (holds : P law') (harity : law'.arity = law.arity)
    (hi : inputs'.length = inputs.length) (ho : outputs'.length = outputs.length) :
    Kept P (.leaf name law inputs outputs) (.leaf name law' inputs' outputs') := by
  cases h with
  | leaf _ takes gives pos =>
    refine ⟨.leaf holds ?_ ?_ ?_, ⟨hi, ho⟩⟩
    · rw [hi, harity]; exact takes
    · rw [ho, harity]; exact gives
    · rw [harity]; exact pos

/-- The stages of a sound cascade may be exchanged. -/
theorem Kept.sequential {name : String} {stages stages' : List (Node α)}
    (h : Sound P (.sequential name stages)) (hstages : List.Forall₂ (Kept P) stages stages') :
    Kept P (.sequential name stages) (.sequential name stages') := by
  have hends : List.Forall₂ SameEnds stages stages' := hstages.imp fun _ _ hk => hk.ends
  refine ⟨?_, sameEnds_sequential hends⟩
  cases h with
  | sequential _ chain =>
    have hchain := chain_feeds_congr hends chain
    have hsound := sound_of_kept hstages
    cases hstages with
    | cons _ _ => exact .sequential hsound hchain

/-- The branches of a sound parallel node may be exchanged, and its vectors may hold
anything. -/
theorem Kept.parallel {name : String} {inputs outputs inputs' outputs' : Signals α}
    {branches branches' : List (Wired (Node α))}
    (h : Sound P (.parallel name inputs outputs branches)) (hi : inputs'.length = inputs.length)
    (ho : outputs'.length = outputs.length)
    (hbranches : List.Forall₂ (SameWiring (Kept P)) branches branches') :
    Kept P (.parallel name inputs outputs branches) (.parallel name inputs' outputs' branches') := by
  have hwiring : List.Forall₂ (SameWiring SameEnds) branches branches' :=
    hbranches.imp fun _ _ hb => hb.imp fun _ _ hk => hk.ends
  have hclaims := claims_congr hwiring
  refine ⟨?_, hi, ho⟩
  cases h with
  | parallel pos nonempty _ fits nodup cover =>
    refine .parallel (by rw [hi]; exact pos) ?_ (sound_of_keptWiring hbranches) ?_ ?_ ?_
    · rintro rfl
      cases hwiring
      exact nonempty rfl
    · rw [hi, ho]
      exact fits_congr hwiring fits
    · rw [hclaims]
      exact nodup
    · rw [ho, hclaims]
      exact cover

end Kept

end Node

end MotionControl
