import MotionControl.Control.Node.Assembly
import MotionControl.Proofs.Outcome
import MotionControl.Proofs.Tree.Shape

/-!
# Assembled trees are sound

Trees come about by adding one child after another to a composite node.  What every
addition checks, and what `Node.validate` checks in the end, together make the tree
sound.

- `Node.checkMap_eq_ok_iff`, `Node.checkClaims_eq_ok_iff`, `Node.validate_sequential`,
  `Node.validate_parallel`: what the checks amount to.
- `Node.IsLeaf`, `Node.TypedLeaf`: a leaf with vectors of the size that its law needs,
  and one whose settings were checked as well.
- `Node.Assembled`: the trees that additions to given leaves build.
- `Node.Assembled.sound`: an assembled tree that passes `validate` is sound.
- `Node.Sound.validate`: and a sound tree passes it.
-/

namespace MotionControl

namespace Node

open Outcome

variable {α : Type}

/-! ## What an addition checks -/

theorem checkMap_eq_ok_iff {parent child : String} {side : Side} {map : List Nat}
    {expected length : Nat} :
    checkMap (α := α) parent child side map expected length = .ok ()
      ↔ map.length = expected ∧ ∀ i ∈ map, i < length := by
  unfold checkMap
  by_cases hlength : map.length = expected
  · rw [if_neg (not_not.mpr hlength)]
    cases hf : map.find? (length ≤ ·) with
    | some index =>
      have hle : length ≤ index := by simpa using List.find?_some hf
      constructor
      · intro h
        cases h
      · intro h
        have hlt := h.2 index (List.mem_of_find?_eq_some hf)
        omega
    | none =>
      have hlt : ∀ i ∈ map, i < length := by simpa using List.find?_eq_none.mp hf
      exact ⟨fun _ => ⟨hlength, hlt⟩, fun _ => rfl⟩
  · rw [if_pos hlength]
    constructor
    · intro h
      cases h
    · intro h
      exact absurd h.1 hlength

theorem driver?_eq_none_iff {branches : List (Wired (Node α))} {index : Nat} :
    driver? branches index = none ↔ index ∉ claims branches := by
  simp [driver?, claims]

theorem checkClaims_eq_ok_iff {parent child : String} {branches : List (Wired (Node α))}
    {map earlier : List Nat} :
    checkClaims parent child branches earlier map = .ok ()
      ↔ map.Nodup ∧ ∀ i ∈ map, i ∉ earlier ∧ i ∉ claims branches := by
  -- The check carries along the entries that it has passed.
  induction map generalizing earlier with
  | nil => simp [checkClaims]
  | cons index rest ih =>
    unfold checkClaims
    cases hd : driver? branches index with
    | some branch =>
      constructor
      · intro h
        cases h
      · intro h
        rw [driver?_eq_none_iff.mpr (h.2 index List.mem_cons_self).2] at hd
        cases hd
    | none =>
      have hfree := driver?_eq_none_iff.mp hd
      by_cases he : index ∈ earlier
      · rw [List.contains_iff_mem.mpr he]
        constructor
        · intro h
          cases h
        · intro h
          exact absurd he (h.2 index List.mem_cons_self).1
      · have hc : earlier.contains index = false := by simpa using he
        rw [hc]
        show checkClaims parent child branches (index :: earlier) rest = .ok () ↔ _
        rw [ih, List.nodup_cons, List.forall_mem_cons]
        constructor
        · rintro ⟨hnodup, hrest⟩
          refine ⟨⟨?_, hnodup⟩, ⟨he, hfree⟩, fun i hi => ?_⟩
          · intro hmem
            exact (hrest index hmem).1 List.mem_cons_self
          · exact ⟨fun h => (hrest i hi).1 (List.mem_cons_of_mem _ h), (hrest i hi).2⟩
        · rintro ⟨⟨hmem, hnodup⟩, -, hrest⟩
          refine ⟨hnodup, fun i hi => ⟨?_, (hrest i hi).2⟩⟩
          intro h
          cases List.mem_cons.mp h with
          | inl heq =>
            rw [heq] at hi
            exact hmem hi
          | inr hin => exact (hrest i hi).1 hin

/-- A stage that is accepted is put at the end, and fits there. -/
theorem appendStage_eq_ok {stages stages' : List (Node α)} {child : Node α}
    (h : appendStage stages child = .ok stages') :
    stages' = stages ++ [child] ∧ (stages.IsChain Feeds → stages'.IsChain Feeds) := by
  unfold appendStage at h
  cases hl : stages.getLast? with
  | none =>
    rw [hl] at h
    cases h
    rw [List.getLast?_eq_none_iff.mp hl]
    exact ⟨rfl, fun _ => .singleton _⟩
  | some last =>
    rw [hl] at h
    dsimp only at h
    by_cases hfeeds : last.outputCount = child.inputCount
    · rw [if_pos hfeeds] at h
      cases h
      refine ⟨rfl, fun hc => List.isChain_append.mpr ⟨hc, .singleton _, ?_⟩⟩
      intro x hx y hy
      rw [hl] at hx
      cases hx
      cases hy
      exact hfeeds
    · rw [if_neg hfeeds] at h
      cases h

theorem claims_concat (branches : List (Wired (Node α))) (last : Wired (Node α)) :
    claims (branches ++ [last]) = claims branches ++ last.outputMap := by
  simp [claims]

/-- A branch that claims what is free shares no output with those before it. -/
theorem nodup_claims_concat {branches : List (Wired (Node α))} {last : Wired (Node α)}
    (hclaims : (claims branches).Nodup) (hnodup : last.outputMap.Nodup)
    (hfree : ∀ i ∈ last.outputMap, i ∉ claims branches) :
    (claims (branches ++ [last])).Nodup := by
  rw [claims_concat]
  refine List.nodup_append.mpr ⟨hclaims, hnodup, ?_⟩
  intro i hi j hj hij
  rw [hij] at hi
  exact hfree j hj hi

/-- A branch that is accepted is put at the end; its connections fit, and its outputs
were free. -/
theorem appendBranch_eq_ok {name : String} {inputs outputs : Signals α}
    {branches branches' : List (Wired (Node α))} {branch : Wired (Node α)}
    (h : appendBranch name inputs outputs branches branch = .ok branches') :
    branches' = branches ++ [branch] ∧ Fits inputs.length outputs.length branch ∧
      branch.outputMap.Nodup ∧ ∀ i ∈ branch.outputMap, i ∉ claims branches := by
  unfold appendBranch at h
  obtain ⟨_, hi, h⟩ := bind_eq_ok_iff.mp h
  obtain ⟨_, ho, h⟩ := bind_eq_ok_iff.mp h
  obtain ⟨_, hc, h⟩ := bind_eq_ok_iff.mp h
  cases h
  have hin := checkMap_eq_ok_iff.mp hi
  have hout := checkMap_eq_ok_iff.mp ho
  have hclaims := checkClaims_eq_ok_iff.mp hc
  exact ⟨rfl, ⟨hin.1, hin.2, hout.1, hout.2⟩, hclaims.1, fun i hmem => (hclaims.2 i hmem).2⟩

/-! ## What validation checks -/

theorem validateStages_eq_ok_iff {stages : List (Node α)} :
    validateStages stages = .ok () ↔ ∀ s ∈ stages, validate s = .ok () := by
  induction stages with
  | nil => simp [validateStages]
  | cons first rest ih =>
    rw [validateStages, List.forall_mem_cons, ← ih]
    cases validate first <;> simp

theorem validateBranches_eq_ok_iff {branches : List (Wired (Node α))} :
    validateBranches branches = .ok () ↔ ∀ b ∈ branches, validate b.node = .ok () := by
  induction branches with
  | nil => simp [validateBranches]
  | cons first rest ih =>
    rw [validateBranches, List.forall_mem_cons, ← ih]
    cases validate first.node <;> simp

theorem checkComplete_eq_ok_iff {name : String} {outputs : Signals α}
    {branches : List (Wired (Node α))} :
    checkComplete name outputs branches = .ok () ↔ ∀ i < outputs.length, i ∈ claims branches := by
  unfold checkComplete
  cases hu : undriven? outputs branches with
  | some index =>
    have hmem := List.mem_of_find?_eq_some hu
    have hnone := List.find?_some hu
    constructor
    · intro h
      cases h
    · intro h
      have hdriver := driver?_eq_none_iff.mp (Option.isNone_iff_eq_none.mp hnone)
      exact absurd (h index (List.mem_range.mp hmem)) hdriver
  | none =>
    refine ⟨fun _ i hi => ?_, fun _ => rfl⟩
    have h := List.find?_eq_none.mp hu i (List.mem_range.mpr hi)
    by_contra hout
    exact h (Option.isNone_iff_eq_none.mpr (driver?_eq_none_iff.mpr hout))

theorem validate_sequential {name : String} {stages : List (Node α)} :
    validate (sequential name stages) = .ok ()
      ↔ stages ≠ [] ∧ ∀ s ∈ stages, validate s = .ok () := by
  rw [← validateStages_eq_ok_iff, validate]
  cases stages <;> simp

theorem validate_parallel {name : String} {inputs outputs : Signals α}
    {branches : List (Wired (Node α))} :
    validate (parallel name inputs outputs branches) = .ok ()
      ↔ branches ≠ [] ∧ (∀ i < outputs.length, i ∈ claims branches) ∧
        ∀ b ∈ branches, validate b.node = .ok () := by
  have hcomplete : checkComplete name outputs branches = .ok () ↔ _ := checkComplete_eq_ok_iff
  rw [← validateBranches_eq_ok_iff, ← hcomplete, validate]
  cases branches with
  | nil => simp
  | cons first rest => cases checkComplete name outputs (first :: rest) <;> simp

/-! ## Leaves -/

section Leaves

variable [Scalar α]

/-- A leaf that was made from its law: its vectors have the sizes that the law needs, and
the law takes and gives signals. -/
def IsLeaf (n : Node α) : Prop := ∃ name law, ofLaw name law = .ok n

/-- A leaf that one of the five constructors made, with settings that passed their check. -/
inductive TypedLeaf : Node α → Prop where
  | pid {name channels layout gains period n}
      (made : Node.pid name channels layout gains period = .ok n) : TypedLeaf n
  | straightMove {name settings n} (made : Node.straightMove name settings = .ok n) : TypedLeaf n
  | speedRamp {name settings period n} (made : Node.speedRamp name settings period = .ok n) :
      TypedLeaf n
  | select {name width n} (made : Node.select name width = .ok n) : TypedLeaf n
  | forward {name width n} (made : Node.forward name width = .ok n) : TypedLeaf n

theorem zeroed_eq_ok {length : Nat} {s : Signals α} (h : Signals.zeroed length = .ok s) :
    s = ⟨List.replicate length 0⟩ := by
  unfold Signals.zeroed at h
  by_cases hc : length ≤ Signals.capacity
  · rw [if_pos hc] at h
    cases h
    rfl
  · rw [if_neg hc] at h
    cases h

theorem ofLaw_eq_ok {name : String} {law : Law α} {n : Node α} (h : ofLaw name law = .ok n) :
    n = leaf name law ⟨List.replicate law.arity.1 0⟩ ⟨List.replicate law.arity.2 0⟩
      ∧ 0 < law.arity.1 := by
  unfold ofLaw at h
  dsimp only at h
  by_cases hz : law.arity.1 = 0 ∨ law.arity.2 = 0
  · rw [if_pos hz] at h
    cases h
  · rw [if_neg hz] at h
    obtain ⟨inputs, hi, h⟩ := bind_eq_ok_iff.mp h
    obtain ⟨outputs, ho, h⟩ := bind_eq_ok_iff.mp h
    cases h
    rw [zeroed_eq_ok hi, zeroed_eq_ok ho]
    exact ⟨rfl, Nat.pos_of_ne_zero fun h => hz (.inl h)⟩

/-- A leaf is made for a law that takes and gives signals, if they fit into vectors. -/
theorem ofLaw_of_fits (name : String) (law : Law α) (hin : 0 < law.arity.1) (hout : 0 < law.arity.2)
    (hins : law.arity.1 ≤ Signals.capacity) (houts : law.arity.2 ≤ Signals.capacity) :
    ofLaw name law
      = .ok (leaf name law ⟨List.replicate law.arity.1 0⟩ ⟨List.replicate law.arity.2 0⟩) := by
  have hz : ¬ (law.arity.1 = 0 ∨ law.arity.2 = 0) := by omega
  unfold ofLaw
  dsimp only
  rw [if_neg hz, Signals.zeroed, if_pos hins, ok_bind, Signals.zeroed, if_pos houts, ok_bind]

/-- A leaf with checked settings: they passed, and the rest is as for any leaf. -/
theorem ofSettings_eq_ok {name : String} {settings : LawSettings α} {law : Law α} {n : Node α}
    (h : ofSettings name settings law = .ok n) :
    settings.check = .ok () ∧ ofLaw name law = .ok n := by
  unfold ofSettings at h
  cases hc : settings.check with
  | error reason =>
    rw [hc] at h
    cases h
  | ok u =>
    rw [hc] at h
    exact ⟨rfl, h⟩

theorem TypedLeaf.isLeaf {n : Node α} (h : TypedLeaf n) : IsLeaf n := by
  cases h with
  | pid made => exact ⟨_, _, (ofSettings_eq_ok made).2⟩
  | straightMove made => exact ⟨_, _, (ofSettings_eq_ok made).2⟩
  | speedRamp made => exact ⟨_, _, (ofSettings_eq_ok made).2⟩
  | select made => exact ⟨_, _, made⟩
  | forward made => exact ⟨_, _, made⟩

end Leaves

/-! ## Assembly -/

section Assembly

variable [Scalar α]

/-- The trees that accepted additions build from given leaves. -/
inductive Assembled (base : Node α → Prop) : Node α → Prop where
  | leaf {n} (given : base n) : Assembled base n
  | cascade {name} : Assembled base (.sequential name [])
  | stage {name stages stages' s} (parent : Assembled base (.sequential name stages))
      (child : Assembled base s) (added : appendStage stages s = .ok stages') :
      Assembled base (.sequential name stages')
  | fan {name inputs outputs ins outs}
      (made : parallelSignals name inputs outputs = .ok (ins, outs)) :
      Assembled base (.parallel name ins outs [])
  | branch {name ins outs branches branches' b}
      (parent : Assembled base (.parallel name ins outs branches))
      (child : Assembled base b.node)
      (added : appendBranch name ins outs branches b = .ok branches') :
      Assembled base (.parallel name ins outs branches')

/-- What additions guarantee of a node, by its shape. -/
def AssembledSpec (base : Node α → Prop) : Node α → Prop
  | leaf name law inputs outputs => base (leaf name law inputs outputs)
  | sequential _ stages => (∀ s ∈ stages, Assembled base s) ∧ stages.IsChain Feeds
  | parallel _ inputs outputs branches =>
    0 < inputs.length ∧ (∀ b ∈ branches, Assembled base b.node) ∧
      (∀ b ∈ branches, Fits inputs.length outputs.length b) ∧ (claims branches).Nodup

namespace Assembled

variable {base : Node α → Prop}

theorem spec (hbase : ∀ n, base n → IsLeaf n) {n : Node α} (h : Assembled base n) :
    AssembledSpec base n := by
  induction h with
  | @leaf n given =>
    obtain ⟨name, law, hlaw⟩ := hbase n given
    rw [(ofLaw_eq_ok hlaw).1] at given ⊢
    exact given
  | cascade => exact ⟨List.forall_mem_nil _, .nil⟩
  | stage _ child added ihparent _ =>
    obtain ⟨hstages, hchain⟩ := appendStage_eq_ok added
    refine ⟨?_, hchain ihparent.2⟩
    rw [hstages]
    exact List.forall_mem_append.mpr ⟨ihparent.1, List.forall_mem_singleton.mpr child⟩
  | @fan name inputs outputs ins outs made =>
    refine ⟨?_, List.forall_mem_nil _, List.forall_mem_nil _, List.nodup_nil⟩
    unfold parallelSignals at made
    by_cases hz : inputs = 0 ∨ outputs = 0
    · rw [if_pos hz] at made
      cases made
    · rw [if_neg hz] at made
      obtain ⟨_, hi, made⟩ := bind_eq_ok_iff.mp made
      obtain ⟨_, _, made⟩ := bind_eq_ok_iff.mp made
      cases made
      rw [zeroed_eq_ok hi, Signals.length, List.length_replicate]
      exact Nat.pos_of_ne_zero fun h => hz (.inl h)
  | branch _ child added ihparent _ =>
    obtain ⟨hbranches, hfits, hnodup, hfree⟩ := appendBranch_eq_ok added
    obtain ⟨hpos, hnodes, hfit, hclaims⟩ := ihparent
    rw [hbranches]
    refine ⟨hpos, ?_, ?_, ?_⟩
    · exact List.forall_mem_append.mpr ⟨hnodes, List.forall_mem_singleton.mpr child⟩
    · exact List.forall_mem_append.mpr ⟨hfit, List.forall_mem_singleton.mpr hfits⟩
    · exact nodup_claims_concat hclaims hnodup hfree

/-- What the additions checked and what `validate` checks make a tree sound. -/
theorem sound {P : Law α → Prop} (hbase : ∀ n, base n → IsLeaf n)
    (hP : ∀ name law inputs outputs, base (.leaf name law inputs outputs) → P law) {n : Node α}
    (h : Assembled base n) (hv : n.validate = .ok ()) : Sound P n := by
  -- The additions saw to the connections.  That nothing is empty and no output is left
  -- undriven is known from `validate` alone.
  induction n using induct with
  | leaf name law inputs outputs =>
    have hgiven := h.spec hbase
    obtain ⟨_, _, hlaw⟩ := hbase _ hgiven
    obtain ⟨heq, hpos⟩ := ofLaw_eq_ok hlaw
    cases heq
    exact .leaf (hP _ _ _ _ hgiven) (List.length_replicate ..) (List.length_replicate ..) hpos
  | sequential name stages ih =>
    obtain ⟨hnodes, hchain⟩ := h.spec hbase
    obtain ⟨hne, hvalid⟩ := validate_sequential.mp hv
    cases stages with
    | nil => exact absurd rfl hne
    | cons first rest =>
      exact .sequential (fun s hs => ih s hs (hnodes s hs) (hvalid s hs)) hchain
  | parallel name inputs outputs branches ih =>
    obtain ⟨hpos, hnodes, hfits, hnodup⟩ := h.spec hbase
    obtain ⟨hne, hcover, hvalid⟩ := validate_parallel.mp hv
    exact .parallel hpos hne (fun b hb => ih b hb (hnodes b hb) (hvalid b hb)) hfits hnodup hcover

/-- Accepted stages, one after another, build up an assembled cascade. -/
theorem stages {name : String} {added result stages : List (Node α)}
    (hparent : Assembled base (.sequential name added)) (hstages : ∀ s ∈ stages, Assembled base s)
    (h : stages.foldlM appendStage added = .ok result) :
    Assembled base (.sequential name result) := by
  induction stages generalizing added with
  | nil =>
    cases h
    exact hparent
  | cons first rest ih =>
    rw [List.forall_mem_cons] at hstages
    obtain ⟨next, hadded, h⟩ := bind_eq_ok_iff.mp h
    exact ih (.stage hparent hstages.1 hadded) hstages.2 h

/-- Accepted branches, one after another, build up an assembled parallel node. -/
theorem branches {name : String} {ins outs : Signals α} {added result branches : List (Wired (Node α))}
    (hparent : Assembled base (.parallel name ins outs added))
    (hnodes : ∀ b ∈ branches, Assembled base b.node)
    (h : branches.foldlM (appendBranch name ins outs) added = .ok result) :
    Assembled base (.parallel name ins outs result) := by
  induction branches generalizing added with
  | nil =>
    cases h
    exact hparent
  | cons first rest ih =>
    rw [List.forall_mem_cons] at hnodes
    obtain ⟨next, hadded, h⟩ := bind_eq_ok_iff.mp h
    exact ih (.branch hparent hnodes.1 hadded) hnodes.2 h

theorem ofStages {name : String} {stages : List (Node α)} {n : Node α}
    (hstages : ∀ s ∈ stages, Assembled base s) (h : Node.ofStages name stages = .ok n) :
    Assembled base n := by
  obtain ⟨result, hresult, h⟩ := bind_eq_ok_iff.mp h
  cases h
  exact cascade.stages hstages hresult

theorem ofBranches {name : String} {inputs outputs : Nat} {branches : List (Wired (Node α))}
    {n : Node α} (hnodes : ∀ b ∈ branches, Assembled base b.node)
    (h : Node.ofBranches name inputs outputs branches = .ok n) : Assembled base n := by
  obtain ⟨_, hmade, h⟩ := bind_eq_ok_iff.mp h
  obtain ⟨result, hresult, h⟩ := bind_eq_ok_iff.mp h
  cases h
  exact (fan hmade).branches hnodes hresult

theorem ofPair {name : String} {inputs outputs : Nat} {b c : Wired (Node α)} {n : Node α}
    (hb : Assembled base b.node) (hc : Assembled base c.node)
    (h : Node.ofBranches name inputs outputs [b, c] = .ok n) : Assembled base n :=
  ofBranches (List.forall_mem_cons.mpr ⟨hb, List.forall_mem_singleton.mpr hc⟩) h

end Assembled

/-- A sound tree passes `validate`. -/
theorem Sound.validate {P : Law α → Prop} {n : Node α} (h : Sound P n) :
    n.validate = .ok () := by
  induction h with
  | leaf => rfl
  | sequential _ _ ih => exact validate_sequential.mpr ⟨List.cons_ne_nil _ _, ih⟩
  | parallel _ nonempty _ _ _ cover ih => exact validate_parallel.mpr ⟨nonempty, cover, ih⟩

end Assembly

end Node

end MotionControl
