import MotionControl.Proofs.Tree.Forgetting
import MotionControl.Proofs.Tree.Order

/-!
# The plans of trees

How a tree was constructed, apart from the parameter blocks in it.  A plan with other blocks
gives another tree, and a tree after a reset is what its plan gives with the blocks that are
in force by then.

- `Plan`: the constructors that were called, without the blocks that they were given.
- `Plan.build?`: calls them again, with these blocks.
- `Plan.Builds`: the trees that a plan gives, and `Plan.build?_eq_some_iff`: each of them is
  determined by its blocks.
- `Node.Assembled.planned`: every tree of typed leaves has a plan.
- `Plan.Builds.call`: no call to a tree makes a reset return to anything but its plan.
-/

namespace MotionControl

open Outcome

/-- The same connections around two things that are related by `R`. -/
inductive Wired.Over {β γ : Type} (R : β → γ → Prop) : Wired β → Wired γ → Prop where
  | wired {inputMap outputMap : List Nat} {b : β} {c : γ} (node : R b c) :
      Over R ⟨inputMap, outputMap, b⟩ ⟨inputMap, outputMap, c⟩

/-- How a tree is constructed, apart from the parameter blocks of its leaves. -/
inductive Plan (α : Type) where
  | pid (name : String) (channels : Nat) (layout : PidLayout) (period : α)
  | straightMove (name : String)
  | speedRamp (name : String) (period : α)
  | select (name : String) (width : Nat)
  | forward (name : String) (width : Nat)
  | sequential (name : String) (stages : List (Plan α))
  | parallel (name : String) (inputs outputs : Nat) (branches : List (Wired (Plan α)))

namespace Plan

variable {α : Type}

/-- Induction over a plan: a property that holds of a composite plan as soon as it holds of
its parts holds of every plan. -/
@[elab_as_elim]
theorem induct {C : Plan α → Prop}
    (pid : ∀ name channels layout period, C (pid name channels layout period))
    (straightMove : ∀ name, C (straightMove name))
    (speedRamp : ∀ name period, C (speedRamp name period))
    (select : ∀ name width, C (select name width))
    (forward : ∀ name width, C (forward name width))
    (sequential : ∀ name stages, (∀ s ∈ stages, C s) → C (sequential name stages))
    (parallel : ∀ name inputs outputs branches, (∀ b ∈ branches, C b.node) →
      C (parallel name inputs outputs branches)) (p : Plan α) : C p :=
  @Plan.rec α C (fun stages => ∀ s ∈ stages, C s) (fun branches => ∀ b ∈ branches, C b.node)
    (fun b => C b.node) pid straightMove speedRamp select forward sequential parallel
    (fun _ h => absurd h List.not_mem_nil)
    (fun _ _ hs hrest => List.forall_mem_cons.mpr ⟨hs, hrest⟩)
    (fun _ h => absurd h List.not_mem_nil)
    (fun _ _ hb hrest => List.forall_mem_cons.mpr ⟨hb, hrest⟩)
    (fun _ _ _ h => h) p

variable [Scalar α]

/-! ## Construction -/

/-- A leaf with the first block of a list, and the others. -/
def takeOne (make : LawSettings α → Option (Node α)) :
    List (LawSettings α) → Option (Node α × List (LawSettings α))
  | [] => none
  | block :: rest => (make block).map fun n => (n, rest)

mutual

/-- The tree with blocks from the front of a list, and the blocks that it has no use for. -/
def take? : Plan α → List (LawSettings α) → Option (Node α × List (LawSettings α))
  | pid name channels layout period, blocks =>
    takeOne (fun
      | .pid gains => (Node.pid name channels layout gains period).toOption
      | _ => none) blocks
  | straightMove name, blocks =>
    takeOne (fun
      | .straightMove settings => (Node.straightMove name settings).toOption
      | _ => none) blocks
  | speedRamp name period, blocks =>
    takeOne (fun
      | .speedRamp settings => (Node.speedRamp name settings period).toOption
      | _ => none) blocks
  | select name width, blocks => (Node.select name width).toOption.map fun n => (n, blocks)
  | forward name width, blocks => (Node.forward name width).toOption.map fun n => (n, blocks)
  | sequential name stages, blocks =>
    (takeStages? stages blocks).bind fun r =>
      (Node.ofStages name r.1).toOption.map fun n => (n, r.2)
  | parallel name inputs outputs branches, blocks =>
    (takeBranches? branches blocks).bind fun r =>
      (Node.ofBranches name inputs outputs r.1).toOption.map fun n => (n, r.2)

/-- The stages take their blocks one after another. -/
def takeStages? :
    List (Plan α) → List (LawSettings α) → Option (List (Node α) × List (LawSettings α))
  | [], blocks => some ([], blocks)
  | stage :: stages, blocks =>
    (take? stage blocks).bind fun r =>
      (takeStages? stages r.2).map fun q => (r.1 :: q.1, q.2)

/-- The branches take their blocks one after another. -/
def takeBranches? : List (Wired (Plan α)) → List (LawSettings α) →
    Option (List (Wired (Node α)) × List (LawSettings α))
  | [], blocks => some ([], blocks)
  | ⟨inputMap, outputMap, node⟩ :: branches, blocks =>
    (take? node blocks).bind fun r =>
      (takeBranches? branches r.2).map fun q => (⟨inputMap, outputMap, r.1⟩ :: q.1, q.2)

end

/-- The tree with these blocks at its leaves, from left to right; nothing if a constructor
refuses, or if the blocks are not what the leaves need. -/
def build? (p : Plan α) (blocks : List (LawSettings α)) : Option (Node α) :=
  match p.take? blocks with
  | some (n, []) => some n
  | _ => none

/-- The trees that a plan gives, with any blocks. -/
inductive Builds : Plan α → Node α → Prop where
  | pid {name channels layout gains period n}
      (made : Node.pid name channels layout gains period = .ok n) :
      Builds (.pid name channels layout period) n
  | straightMove {name settings n} (made : Node.straightMove name settings = .ok n) :
      Builds (.straightMove name) n
  | speedRamp {name settings period n} (made : Node.speedRamp name settings period = .ok n) :
      Builds (.speedRamp name period) n
  | select {name width n} (made : Node.select name width = .ok n) : Builds (.select name width) n
  | forward {name width n} (made : Node.forward name width = .ok n) :
      Builds (.forward name width) n
  | sequential {name plans stages n} (each : List.Forall₂ Builds plans stages)
      (made : Node.ofStages name stages = .ok n) : Builds (.sequential name plans) n
  | parallel {name inputs outputs plans branches n}
      (each : List.Forall₂ (Wired.Over Builds) plans branches)
      (made : Node.ofBranches name inputs outputs branches = .ok n) :
      Builds (.parallel name inputs outputs plans) n

end Plan

namespace Node

variable {α : Type}

/-! ## Cascades -/

theorem appendStage_of_chain {stages : List (Node α)} {child : Node α}
    (h : (stages ++ [child]).IsChain Feeds) : appendStage stages child = .ok (stages ++ [child]) := by
  unfold appendStage
  cases hl : stages.getLast? with
  | none =>
    rw [List.getLast?_eq_none_iff.mp hl]
    rfl
  | some last =>
    have hfeeds : Feeds last child := (List.isChain_append.mp h).2.2 last hl child rfl
    exact if_pos hfeeds

/-- Stages are accepted one after another when each of them finds its inputs. -/
theorem foldlM_appendStage_eq_ok_iff {added stages result : List (Node α)}
    (hadded : added.IsChain Feeds) :
    stages.foldlM appendStage added = .ok result
      ↔ result = added ++ stages ∧ (added ++ stages).IsChain Feeds := by
  induction stages generalizing added with
  | nil =>
    rw [List.append_nil]
    constructor
    · intro h
      cases h
      exact ⟨rfl, hadded⟩
    · rintro ⟨rfl, -⟩
      rfl
  | cons first rest ih =>
    have hsplit : added ++ first :: rest = (added ++ [first]) ++ rest := by simp
    rw [List.foldlM_cons, hsplit]
    constructor
    · intro h
      obtain ⟨next, hfirst, hrest⟩ := bind_eq_ok_iff.mp h
      obtain ⟨rfl, hchain⟩ := appendStage_eq_ok hfirst
      exact (ih (hchain hadded)).mp hrest
    · rintro ⟨hresult, hchain⟩
      have hnext : (added ++ [first]).IsChain Feeds := (List.isChain_append.mp hchain).1
      rw [appendStage_of_chain hnext, ok_bind]
      exact (ih hnext).mpr ⟨hresult, hchain⟩

/-- What a cascade with stages is made of. -/
theorem ofStages_eq_ok_iff {name : String} {stages : List (Node α)} {n : Node α} :
    ofStages name stages = .ok n ↔ n = .sequential name stages ∧ stages.IsChain Feeds := by
  constructor
  · intro h
    obtain ⟨result, hadded, h⟩ := bind_eq_ok_iff.mp h
    cases h
    obtain ⟨rfl, hchain⟩ := (foldlM_appendStage_eq_ok_iff .nil).mp hadded
    exact ⟨rfl, hchain⟩
  · rintro ⟨rfl, hchain⟩
    have hadded : stages.foldlM appendStage [] = .ok stages :=
      (foldlM_appendStage_eq_ok_iff .nil).mpr ⟨rfl, hchain⟩
    rw [ofStages, hadded, ok_bind]

variable [Scalar α]

/-! ## Leaves -/

theorem ofLaw_sized {name : String} {law : Law α} {n : Node α} (h : ofLaw name law = .ok n) :
    Sized n := by
  rw [(ofLaw_eq_ok h).1]
  exact .leaf (List.length_replicate ..) (List.length_replicate ..)

/-- A reset returns a leaf to how it was made, if it does so with its law. -/
theorem ofLaw_reset {name : String} {law : Law α} {n : Node α} (h : ofLaw name law = .ok n)
    (hlaw : law.reset = law) : n.reset = n := by
  rw [(ofLaw_eq_ok h).1, reset, hlaw, Signals.clear_replicate, Signals.clear_replicate]

theorem ofLaw_blocks {name : String} {law : Law α} {n : Node α} (h : ofLaw name law = .ok n) :
    n.blocks = law.settings?.toList := by
  rw [(ofLaw_eq_ok h).1, blocks, laws_leaf]
  cases hs : law.settings? <;> simp [hs]

/-- The same leaf with another law of the same arity. -/
theorem ofLaw_of_arity {name own : String} {law law' : Law α} {inputs outputs : Signals α}
    (h : ofLaw name law = .ok (leaf own law inputs outputs)) (harity : law'.arity = law.arity) :
    ofLaw name law' = .ok (leaf own law' inputs outputs) := by
  unfold ofLaw at h ⊢
  rw [harity]
  dsimp only at h ⊢
  by_cases hz : law.arity.1 = 0 ∨ law.arity.2 = 0
  · rw [if_pos hz] at h
    cases h
  · rw [if_neg hz] at h ⊢
    obtain ⟨ins, hi, h⟩ := bind_eq_ok_iff.mp h
    obtain ⟨outs, ho, h⟩ := bind_eq_ok_iff.mp h
    cases h
    rw [hi, ok_bind, ho, ok_bind]

theorem ofSettings_of_check {name : String} {settings : LawSettings α} {law : Law α}
    (h : settings.check = .ok ()) : ofSettings name settings law = ofLaw name law := by
  rw [ofSettings, h]

/-- A bank that made it into a leaf has channels, and the gains in them are its block. -/
theorem pid_blocks {name : String} {channels : Nat} {layout : PidLayout} {gains : PidGains α}
    {period : α} {n : Node α} (h : Node.pid name channels layout gains period = .ok n) :
    n.blocks = [.pid gains] := by
  obtain ⟨-, hlaw⟩ := ofSettings_eq_ok h
  rw [ofLaw_blocks hlaw]
  cases channels with
  | zero =>
    have hpos := (ofLaw_eq_ok hlaw).2
    cases layout <;> exact absurd hpos (Nat.lt_irrefl 0)
  | succ channels => rfl

end Node

namespace Plan

open Node

variable {α : Type} [Scalar α]

/-! ## What a plan builds -/

/-- A leaf with a parameter block takes it, and nothing else, from the front of the list. -/
theorem takeOne_eq_some_iff {p : Plan α} {make : LawSettings α → Option (Node α)}
    (hgives : ∀ {block n}, make block = some n → p.Builds n ∧ n.blocks = [block])
    (hneeds : ∀ {n}, p.Builds n → ∃ block, make block = some n)
    {blocks rest : List (LawSettings α)} {n : Node α} :
    takeOne make blocks = some (n, rest) ↔ p.Builds n ∧ blocks = n.blocks ++ rest := by
  constructor
  · intro h
    cases blocks with
    | nil => cases h
    | cons block blocks =>
      obtain ⟨n', hmade, h⟩ := Option.map_eq_some_iff.mp h
      cases h
      obtain ⟨hbuilds, hblocks⟩ := hgives hmade
      exact ⟨hbuilds, by rw [hblocks, List.singleton_append]⟩
  · rintro ⟨hbuilds, rfl⟩
    obtain ⟨block, hmade⟩ := hneeds hbuilds
    rw [(hgives hmade).2, List.singleton_append, takeOne, hmade, Option.map_some]

/-- A leaf without one leaves the list alone. -/
theorem takeNone_eq_some_iff {p : Plan α} {made : Except (WiringError α) (Node α)}
    (hmade : ∀ {n}, made = .ok n ↔ p.Builds n) (hblocks : ∀ {n}, made = .ok n → n.blocks = [])
    {blocks rest : List (LawSettings α)} {n : Node α} :
    made.toOption.map (fun n => (n, blocks)) = some (n, rest)
      ↔ p.Builds n ∧ blocks = n.blocks ++ rest := by
  constructor
  · intro h
    obtain ⟨n', hok, h⟩ := toOption_map_eq_some_iff.mp h
    cases h
    exact ⟨hmade.mp hok, by rw [hblocks hok, List.nil_append]⟩
  · rintro ⟨hbuilds, rfl⟩
    have hok := hmade.mpr hbuilds
    rw [hblocks hok, hok]
    rfl

theorem takeStages?_eq_some_iff {plans : List (Plan α)}
    (hplans : ∀ p ∈ plans, ∀ blocks n rest,
      p.take? blocks = some (n, rest) ↔ p.Builds n ∧ blocks = n.blocks ++ rest)
    {blocks rest : List (LawSettings α)} {stages : List (Node α)} :
    takeStages? plans blocks = some (stages, rest)
      ↔ List.Forall₂ Builds plans stages ∧ blocks = stages.flatMap Node.blocks ++ rest := by
  induction plans generalizing blocks stages with
  | nil =>
    rw [takeStages?, List.forall₂_nil_left_iff]
    constructor
    · intro h
      cases h
      exact ⟨rfl, rfl⟩
    · rintro ⟨rfl, rfl⟩
      rfl
  | cons first plans ih =>
    rw [List.forall_mem_cons] at hplans
    rw [takeStages?]
    constructor
    · intro h
      obtain ⟨⟨stage, left⟩, hfirst, h⟩ := Option.bind_eq_some_iff.mp h
      obtain ⟨⟨stages', rest'⟩, hrest, h⟩ := Option.map_eq_some_iff.mp h
      cases h
      obtain ⟨hbuilds, rfl⟩ := (hplans.1 _ _ _).mp hfirst
      obtain ⟨hall, rfl⟩ := (ih hplans.2).mp hrest
      refine ⟨.cons hbuilds hall, ?_⟩
      rw [List.flatMap_cons, List.append_assoc]
    · rintro ⟨hall, rfl⟩
      cases hall with
      | @cons _ stage _ stages' hbuilds hall =>
        have hfirst := (hplans.1 (stage.blocks ++ (stages'.flatMap Node.blocks ++ rest)) stage
          (stages'.flatMap Node.blocks ++ rest)).mpr ⟨hbuilds, rfl⟩
        rw [List.flatMap_cons, List.append_assoc, hfirst, Option.bind_some,
          (ih hplans.2).mpr ⟨hall, rfl⟩, Option.map_some]

theorem takeBranches?_eq_some_iff {plans : List (Wired (Plan α))}
    (hplans : ∀ p ∈ plans, ∀ blocks n rest,
      p.node.take? blocks = some (n, rest) ↔ p.node.Builds n ∧ blocks = n.blocks ++ rest)
    {blocks rest : List (LawSettings α)} {branches : List (Wired (Node α))} :
    takeBranches? plans blocks = some (branches, rest)
      ↔ List.Forall₂ (Wired.Over Builds) plans branches ∧
        blocks = branches.flatMap (·.node.blocks) ++ rest := by
  induction plans generalizing blocks branches with
  | nil =>
    rw [takeBranches?, List.forall₂_nil_left_iff]
    constructor
    · intro h
      cases h
      exact ⟨rfl, rfl⟩
    · rintro ⟨rfl, rfl⟩
      rfl
  | cons first plans ih =>
    rw [List.forall_mem_cons] at hplans
    rw [takeBranches?]
    constructor
    · intro h
      obtain ⟨⟨node, left⟩, hfirst, h⟩ := Option.bind_eq_some_iff.mp h
      obtain ⟨⟨branches', rest'⟩, hrest, h⟩ := Option.map_eq_some_iff.mp h
      cases h
      obtain ⟨hbuilds, rfl⟩ := (hplans.1 _ _ _).mp hfirst
      obtain ⟨hall, rfl⟩ := (ih hplans.2).mp hrest
      refine ⟨.cons (.wired hbuilds) hall, ?_⟩
      rw [List.flatMap_cons, List.append_assoc]
    · rintro ⟨hall, rfl⟩
      cases hall with
      | @cons _ _ _ branches' hbuilds hall =>
        cases hbuilds with
        | @wired inputMap outputMap _ node hbuilds =>
          have hfirst := (hplans.1 (node.blocks ++ (branches'.flatMap (·.node.blocks) ++ rest))
            node (branches'.flatMap (·.node.blocks) ++ rest)).mpr ⟨hbuilds, rfl⟩
          rw [List.flatMap_cons, List.append_assoc, hfirst, Option.bind_some,
            (ih hplans.2).mpr ⟨hall, rfl⟩, Option.map_some]

/-- A cascade whose stages take their own blocks takes those of all of them. -/
theorem take?_sequential_iff {name : String} {plans : List (Plan α)}
    (hplans : ∀ p ∈ plans, ∀ blocks n rest,
      p.take? blocks = some (n, rest) ↔ p.Builds n ∧ blocks = n.blocks ++ rest)
    {blocks rest : List (LawSettings α)} {n : Node α} :
    (sequential name plans).take? blocks = some (n, rest)
      ↔ (sequential name plans).Builds n ∧ blocks = n.blocks ++ rest := by
  rw [take?]
  constructor
  · intro h
    obtain ⟨⟨stages, left⟩, htake, h⟩ := Option.bind_eq_some_iff.mp h
    obtain ⟨n', hok, h⟩ := toOption_map_eq_some_iff.mp h
    cases h
    obtain ⟨hall, rfl⟩ := (takeStages?_eq_some_iff hplans).mp htake
    refine ⟨.sequential hall hok, ?_⟩
    rw [(ofStages_eq_ok_iff.mp hok).1, blocks_sequential]
  · rintro ⟨hbuilds, rfl⟩
    cases hbuilds with
    | @sequential _ _ stages _ hall made =>
      have hblocks : n.blocks ++ rest = stages.flatMap Node.blocks ++ rest := by
        rw [(ofStages_eq_ok_iff.mp made).1, blocks_sequential]
      rw [(takeStages?_eq_some_iff hplans).mpr ⟨hall, hblocks⟩, Option.bind_some]
      dsimp only
      rw [made]
      rfl

/-- A parallel node whose branches take their own blocks takes those of all of them. -/
theorem take?_parallel_iff {name : String} {inputs outputs : Nat} {plans : List (Wired (Plan α))}
    (hplans : ∀ p ∈ plans, ∀ blocks n rest,
      p.node.take? blocks = some (n, rest) ↔ p.node.Builds n ∧ blocks = n.blocks ++ rest)
    {blocks rest : List (LawSettings α)} {n : Node α} :
    (parallel name inputs outputs plans).take? blocks = some (n, rest)
      ↔ (parallel name inputs outputs plans).Builds n ∧ blocks = n.blocks ++ rest := by
  rw [take?]
  constructor
  · intro h
    obtain ⟨⟨branches, left⟩, htake, h⟩ := Option.bind_eq_some_iff.mp h
    obtain ⟨n', hok, h⟩ := toOption_map_eq_some_iff.mp h
    cases h
    obtain ⟨hall, rfl⟩ := (takeBranches?_eq_some_iff hplans).mp htake
    obtain ⟨ins, outs, -, heq, -⟩ := ofBranches_eq_ok_iff.mp hok
    refine ⟨.parallel hall hok, ?_⟩
    rw [heq, blocks_parallel]
  · rintro ⟨hbuilds, rfl⟩
    cases hbuilds with
    | @parallel _ _ _ _ branches _ hall made =>
      obtain ⟨ins, outs, -, heq, -⟩ := ofBranches_eq_ok_iff.mp made
      have hblocks : n.blocks ++ rest = branches.flatMap (·.node.blocks) ++ rest := by
        rw [heq, blocks_parallel]
      rw [(takeBranches?_eq_some_iff hplans).mpr ⟨hall, hblocks⟩, Option.bind_some]
      dsimp only
      rw [made]
      rfl

/-- A tree takes its own blocks from the front of the list. -/
theorem take?_eq_some_iff {p : Plan α} {blocks rest : List (LawSettings α)} {n : Node α} :
    p.take? blocks = some (n, rest) ↔ p.Builds n ∧ blocks = n.blocks ++ rest := by
  -- what one part has no use for goes to the parts after it, so `rest` varies in the induction
  induction p using induct generalizing blocks rest n with
  | pid name channels layout period =>
    refine takeOne_eq_some_iff ?_ ?_
    · intro block n hmade
      cases block with
      | pid gains =>
        have hok := toOption_eq_some_iff.mp hmade
        exact ⟨.pid hok, pid_blocks hok⟩
      | straightMove settings => cases hmade
      | speedRamp settings => cases hmade
    · intro n hbuilds
      cases hbuilds with
      | pid made => exact ⟨.pid _, toOption_eq_some_iff.mpr made⟩
  | straightMove name =>
    refine takeOne_eq_some_iff ?_ ?_
    · intro block n hmade
      cases block with
      | straightMove settings =>
        have hok := toOption_eq_some_iff.mp hmade
        exact ⟨.straightMove hok, ofLaw_blocks (ofSettings_eq_ok hok).2⟩
      | pid gains => cases hmade
      | speedRamp settings => cases hmade
    · intro n hbuilds
      cases hbuilds with
      | straightMove made => exact ⟨.straightMove _, toOption_eq_some_iff.mpr made⟩
  | speedRamp name period =>
    refine takeOne_eq_some_iff ?_ ?_
    · intro block n hmade
      cases block with
      | speedRamp settings =>
        have hok := toOption_eq_some_iff.mp hmade
        exact ⟨.speedRamp hok, ofLaw_blocks (ofSettings_eq_ok hok).2⟩
      | pid gains => cases hmade
      | straightMove settings => cases hmade
    · intro n hbuilds
      cases hbuilds with
      | speedRamp made => exact ⟨.speedRamp _, toOption_eq_some_iff.mpr made⟩
  | select name width =>
    refine takeNone_eq_some_iff ⟨.select, fun hbuilds => ?_⟩ ofLaw_blocks
    cases hbuilds with
    | select made => exact made
  | forward name width =>
    refine takeNone_eq_some_iff ⟨.forward, fun hbuilds => ?_⟩ ofLaw_blocks
    cases hbuilds with
    | forward made => exact made
  | sequential name plans ih => exact take?_sequential_iff fun p hp blocks n rest => ih p hp
  | parallel name inputs outputs plans ih =>
    exact take?_parallel_iff fun p hp blocks n rest => ih p hp

/-- A plan and the blocks that it is given determine the tree, and the tree has these
blocks. -/
theorem build?_eq_some_iff {p : Plan α} {blocks : List (LawSettings α)} {n : Node α} :
    p.build? blocks = some n ↔ p.Builds n ∧ blocks = n.blocks := by
  have htake : p.build? blocks = some n ↔ p.take? blocks = some (n, []) := by
    unfold build?
    constructor
    · intro h
      split at h
      · rename_i n' hn
        cases h
        exact hn
      · cases h
    · intro h
      rw [h]
  rw [htake, take?_eq_some_iff, List.append_nil]

/-! ## A tree that was never used -/

theorem stages_sized {plans : List (Plan α)} {stages : List (Node α)}
    (h : List.Forall₂ Builds plans stages)
    (hplans : ∀ p ∈ plans, ∀ n, p.Builds n → n.Sized ∧ n.reset = n) :
    (∀ s ∈ stages, Sized s) ∧ resetStages stages = stages := by
  induction h with
  | nil => exact ⟨List.forall_mem_nil _, rfl⟩
  | cons hbuilds _ ih =>
    rw [List.forall_mem_cons] at hplans
    obtain ⟨hsized, hreset⟩ := hplans.1 _ hbuilds
    obtain ⟨hrest, hresets⟩ := ih hplans.2
    exact ⟨List.forall_mem_cons.mpr ⟨hsized, hrest⟩, by rw [resetStages, hreset, hresets]⟩

theorem branches_sized {plans : List (Wired (Plan α))} {branches : List (Wired (Node α))}
    (h : List.Forall₂ (Wired.Over Builds) plans branches)
    (hplans : ∀ p ∈ plans, ∀ n, p.node.Builds n → n.Sized ∧ n.reset = n) :
    (∀ b ∈ branches, Sized b.node) ∧ resetBranches branches = branches := by
  induction h with
  | nil => exact ⟨List.forall_mem_nil _, rfl⟩
  | cons hbuilds _ ih =>
    rw [List.forall_mem_cons] at hplans
    obtain ⟨hrest, hresets⟩ := ih hplans.2
    cases hbuilds with
    | wired hbuilds =>
      obtain ⟨hsized, hreset⟩ := hplans.1 _ hbuilds
      exact ⟨List.forall_mem_cons.mpr ⟨hsized, hrest⟩, by rw [resetBranches, hreset, hresets]⟩

theorem parallelSignals_clear {name : String} {inputs outputs : Nat} {ins outs : Signals α}
    (h : parallelSignals name inputs outputs = .ok (ins, outs)) :
    ins.clear = ins ∧ outs.clear = outs := by
  unfold parallelSignals at h
  by_cases hz : inputs = 0 ∨ outputs = 0
  · rw [if_pos hz] at h
    cases h
  · rw [if_neg hz] at h
    obtain ⟨_, hi, h⟩ := bind_eq_ok_iff.mp h
    obtain ⟨_, ho, h⟩ := bind_eq_ok_iff.mp h
    cases h
    rw [zeroed_eq_ok hi, zeroed_eq_ok ho]
    exact ⟨Signals.clear_replicate _, Signals.clear_replicate _⟩

/-- A tree that was just built has vectors of the right sizes, and there is nothing in it for a
reset to forget. -/
theorem Builds.unused {p : Plan α} {n : Node α} (h : p.Builds n) : n.Sized ∧ n.reset = n := by
  induction p using induct generalizing n with
  | pid name channels layout period =>
    cases h with
    | @pid _ _ _ gains _ _ made =>
      obtain ⟨-, hlaw⟩ := ofSettings_eq_ok made
      refine ⟨ofLaw_sized hlaw, ofLaw_reset hlaw ?_⟩
      simp [Law.reset, PidBank.reset, PidBank.fresh, Pid.reset, Pid.fresh]
  | straightMove name =>
    cases h with
    | straightMove made =>
      obtain ⟨-, hlaw⟩ := ofSettings_eq_ok made
      exact ⟨ofLaw_sized hlaw, ofLaw_reset hlaw rfl⟩
  | speedRamp name period =>
    cases h with
    | speedRamp made =>
      obtain ⟨-, hlaw⟩ := ofSettings_eq_ok made
      exact ⟨ofLaw_sized hlaw, ofLaw_reset hlaw rfl⟩
  | select name width =>
    cases h with
    | select made => exact ⟨ofLaw_sized made, ofLaw_reset made rfl⟩
  | forward name width =>
    cases h with
    | forward made => exact ⟨ofLaw_sized made, ofLaw_reset made rfl⟩
  | sequential name plans ih =>
    cases h with
    | sequential each made =>
      obtain ⟨rfl, -⟩ := ofStages_eq_ok_iff.mp made
      obtain ⟨hsized, hreset⟩ := stages_sized each fun p hp n => ih p hp
      exact ⟨.sequential hsized, by rw [reset, hreset]⟩
  | parallel name inputs outputs plans ih =>
    cases h with
    | parallel each made =>
      obtain ⟨ins, outs, hmade, rfl, -⟩ := ofBranches_eq_ok_iff.mp made
      obtain ⟨hsized, hreset⟩ := branches_sized each fun p hp n => ih p hp
      obtain ⟨hins, houts⟩ := parallelSignals_clear hmade
      exact ⟨.parallel hsized, by rw [reset, hreset, hins, houts]⟩

/-! ## The plan of a composite node -/

theorem Builds.of_sequential {p : Plan α} {name : String} {stages : List (Node α)}
    (h : p.Builds (.sequential name stages)) :
    ∃ plans, p = .sequential name plans ∧ List.Forall₂ Builds plans stages ∧
      stages.IsChain Feeds := by
  cases h with
  | pid made => cases (ofLaw_eq_ok (ofSettings_eq_ok made).2).1
  | straightMove made => cases (ofLaw_eq_ok (ofSettings_eq_ok made).2).1
  | speedRamp made => cases (ofLaw_eq_ok (ofSettings_eq_ok made).2).1
  | select made => cases (ofLaw_eq_ok made).1
  | forward made => cases (ofLaw_eq_ok made).1
  | @sequential _ plans _ _ each made =>
    obtain ⟨heq, hchain⟩ := ofStages_eq_ok_iff.mp made
    cases heq
    exact ⟨plans, rfl, each, hchain⟩
  | parallel each made =>
    obtain ⟨ins, outs, -, heq, -⟩ := ofBranches_eq_ok_iff.mp made
    cases heq

theorem Builds.of_parallel {p : Plan α} {name : String} {ins outs : Signals α}
    {branches : List (Wired (Node α))} (h : p.Builds (.parallel name ins outs branches)) :
    ∃ inputs outputs plans, p = .parallel name inputs outputs plans ∧
      List.Forall₂ (Wired.Over Builds) plans branches ∧
      parallelSignals name inputs outputs = .ok (ins, outs) ∧
      (∀ b ∈ branches, Fits ins.length outs.length b) ∧ (claims branches).Nodup := by
  cases h with
  | pid made => cases (ofLaw_eq_ok (ofSettings_eq_ok made).2).1
  | straightMove made => cases (ofLaw_eq_ok (ofSettings_eq_ok made).2).1
  | speedRamp made => cases (ofLaw_eq_ok (ofSettings_eq_ok made).2).1
  | select made => cases (ofLaw_eq_ok made).1
  | forward made => cases (ofLaw_eq_ok made).1
  | sequential each made => cases (ofStages_eq_ok_iff.mp made).1
  | @parallel _ inputs outputs plans _ _ each made =>
    obtain ⟨ins', outs', hmade, heq, hfits, hnodup⟩ := ofBranches_eq_ok_iff.mp made
    cases heq
    exact ⟨inputs, outputs, plans, rfl, each, hmade, hfits, hnodup⟩

/-! ## Other parameter blocks -/

/-- Another block at one leaf gives another tree of the same plan, which fits into the same
places. -/
structure Refit (p : Plan α) (n n' : Node α) : Prop where
  builds : p.Builds n'
  ends : SameEnds n n'

/-- A leaf takes a block that passes its check: it is made with this block instead. -/
theorem Builds.install {p : Plan α} {n n' : Node α} (h : p.Builds n) {settings : LawSettings α}
    (hi : n.install settings = .ok n') : p.Refit n n' := by
  obtain ⟨own, law, law', inputs, outputs, rfl, hcheck, hlaw, rfl⟩ := of_install_eq_ok hi
  have harity := Law.arity_install hlaw
  refine ⟨?_, rfl, rfl⟩
  cases h with
  | pid made =>
    obtain ⟨-, hmade⟩ := ofSettings_eq_ok made
    cases (ofLaw_eq_ok hmade).1
    cases settings with
    | pid gains =>
      cases hlaw
      refine .pid (?_ : Node.pid _ _ _ gains _ = _)
      rw [Node.pid, ofSettings_of_check hcheck, ← ofLaw_of_arity hmade harity]
      simp [PidBank.withGains, PidBank.fresh, Pid.withGains, Pid.fresh]
    | straightMove settings => cases hlaw
    | speedRamp settings => cases hlaw
  | straightMove made =>
    obtain ⟨-, hmade⟩ := ofSettings_eq_ok made
    cases (ofLaw_eq_ok hmade).1
    cases settings with
    | straightMove settings =>
      cases hlaw
      refine .straightMove (?_ : Node.straightMove _ settings = _)
      rw [Node.straightMove, ofSettings_of_check hcheck, ← ofLaw_of_arity hmade harity]
      rfl
    | pid gains => cases hlaw
    | speedRamp settings => cases hlaw
  | speedRamp made =>
    obtain ⟨-, hmade⟩ := ofSettings_eq_ok made
    cases (ofLaw_eq_ok hmade).1
    cases settings with
    | speedRamp settings =>
      cases hlaw
      refine .speedRamp (?_ : Node.speedRamp _ settings _ = _)
      rw [Node.speedRamp, ofSettings_of_check hcheck, ← ofLaw_of_arity hmade harity]
    | pid gains => cases hlaw
    | straightMove settings => cases hlaw
  | select made =>
    cases (ofLaw_eq_ok made).1
    cases hlaw
  | forward made =>
    cases (ofLaw_eq_ok made).1
    cases hlaw
  | sequential each made => cases (ofStages_eq_ok_iff.mp made).1
  | parallel each made =>
    obtain ⟨ins, outs, -, heq, -⟩ := ofBranches_eq_ok_iff.mp made
    cases heq

section Edit

variable {name : String} {settings : LawSettings α}

theorem editStage?_refit {plans : List (Plan α)} {stages stages' : List (Node α)}
    (h : List.Forall₂ Builds plans stages)
    (hstages : ∀ s ∈ stages, ∀ (p : Plan α) s', p.Builds s →
      s.edit? name (Node.install settings) = some (.ok s') → p.Refit s s')
    (he : editStage? name (Node.install settings) stages = some (.ok stages')) :
    List.Forall₂ Builds plans stages' ∧ List.Forall₂ SameEnds stages stages' := by
  induction h generalizing stages' with
  | nil => cases he
  | @cons p stage plans stages hbuilds hrest ih =>
    rw [List.forall_mem_cons] at hstages
    rw [editStage?] at he
    cases hf : stage.edit? name (Node.install settings) with
    | some changed =>
      rw [hf] at he
      obtain ⟨stage', hstage, heq⟩ := map_eq_ok_iff.mp (Option.some.inj he)
      rw [hstage] at hf
      rw [← heq]
      have hrefit := hstages.1 _ _ hbuilds hf
      exact ⟨.cons hrefit.builds hrest,
        .cons hrefit.ends (List.forall₂_same.mpr fun s _ => .refl s)⟩
    | none =>
      rw [hf] at he
      obtain ⟨changed, hchanged, hmap⟩ := Option.map_eq_some_iff.mp he
      obtain ⟨stages'', hok, heq⟩ := map_eq_ok_iff.mp hmap
      rw [hok] at hchanged
      rw [← heq]
      obtain ⟨hall, hends⟩ := ih hstages.2 hchanged
      exact ⟨.cons hbuilds hall, .cons (.refl stage) hends⟩

theorem editBranch?_refit {plans : List (Wired (Plan α))} {branches branches' : List (Wired (Node α))}
    (h : List.Forall₂ (Wired.Over Builds) plans branches)
    (hbranches : ∀ b ∈ branches, ∀ (p : Plan α) n', p.Builds b.node →
      b.node.edit? name (Node.install settings) = some (.ok n') → p.Refit b.node n')
    (he : editBranch? name (Node.install settings) branches = some (.ok branches')) :
    List.Forall₂ (Wired.Over Builds) plans branches' ∧
      List.Forall₂ (SameWiring SameEnds) branches branches' := by
  induction h generalizing branches' with
  | nil => cases he
  | @cons p branch plans branches hbuilds hrest ih =>
    rw [List.forall_mem_cons] at hbranches
    cases hbuilds with
    | @wired inputMap outputMap _ node hbuilds =>
    rw [editBranch?] at he
    cases hf : node.edit? name (Node.install settings) with
    | some changed =>
      rw [hf] at he
      obtain ⟨node', hnode, heq⟩ := map_eq_ok_iff.mp (Option.some.inj he)
      rw [hnode] at hf
      rw [← heq]
      have hrefit := hbranches.1 _ _ hbuilds hf
      exact ⟨.cons (.wired hrefit.builds) hrest,
        .cons ⟨rfl, rfl, hrefit.ends⟩ (List.forall₂_same.mpr fun b _ => ⟨rfl, rfl, .refl b.node⟩)⟩
    | none =>
      rw [hf] at he
      obtain ⟨changed, hchanged, hmap⟩ := Option.map_eq_some_iff.mp he
      obtain ⟨branches'', hok, heq⟩ := map_eq_ok_iff.mp hmap
      rw [hok] at hchanged
      rw [← heq]
      obtain ⟨hall, hends⟩ := ih hbranches.2 hchanged
      exact ⟨.cons (.wired hbuilds) hall, .cons ⟨rfl, rfl, .refl node⟩ hends⟩

theorem Builds.edit? {p : Plan α} {n n' : Node α} (h : p.Builds n)
    (he : n.edit? name (Node.install settings) = some (.ok n')) : p.Refit n n' := by
  -- the edit goes down the tree, and the plan of each part follows by inversion
  induction n using Node.induct generalizing p n' with
  | leaf own law inputs outputs =>
    rw [Node.edit?] at he
    by_cases hname : own = name
    · rw [if_pos hname] at he
      exact h.install (Option.some.inj he)
    · rw [if_neg hname] at he
      cases he
  | sequential own stages ih =>
    obtain ⟨plans, rfl, each, hchain⟩ := h.of_sequential
    rw [Node.edit?] at he
    by_cases hname : own = name
    · rw [if_pos hname] at he
      cases he
    · rw [if_neg hname] at he
      obtain ⟨changed, hchanged, hmap⟩ := Option.map_eq_some_iff.mp he
      obtain ⟨stages', hok, rfl⟩ := map_eq_ok_iff.mp hmap
      rw [hok] at hchanged
      obtain ⟨hall, hends⟩ := editStage?_refit each (fun s hs p s' => ih s hs) hchanged
      refine ⟨.sequential hall (ofStages_eq_ok_iff.mpr ⟨rfl, ?_⟩), sameEnds_sequential hends⟩
      exact chain_feeds_congr hends hchain
  | parallel own ins outs branches ih =>
    obtain ⟨inputs, outputs, plans, rfl, each, hmade, hfits, hnodup⟩ := h.of_parallel
    rw [Node.edit?] at he
    by_cases hname : own = name
    · rw [if_pos hname] at he
      cases he
    · rw [if_neg hname] at he
      obtain ⟨changed, hchanged, hmap⟩ := Option.map_eq_some_iff.mp he
      obtain ⟨branches', hok, rfl⟩ := map_eq_ok_iff.mp hmap
      rw [hok] at hchanged
      obtain ⟨hall, hends⟩ := editBranch?_refit each (fun b hb p n' => ih b hb) hchanged
      refine ⟨.parallel hall (ofBranches_eq_ok_iff.mpr ⟨ins, outs, hmade, rfl, ?_, ?_⟩), rfl, rfl⟩
      · exact fits_congr hends hfits
      · rw [claims_congr hends]
        exact hnodup

theorem Builds.setParameters {p : Plan α} {n n' : Node α} (h : p.Builds n)
    (hs : n.setParameters name settings = .ok n') : p.Builds n' := by
  unfold Node.setParameters at hs
  cases he : n.edit? name (Node.install settings) with
  | none =>
    rw [he] at hs
    cases hs
  | some changed =>
    rw [he] at hs
    change changed = .ok n' at hs
    rw [hs] at he
    exact (h.edit? he).builds

end Edit

/-! ## Trees at work -/

/-- Whatever is done to a tree, a reset returns it to its plan. -/
theorem Builds.call {p : Plan α} {n n' : Node α} (h : p.Builds n.reset) {c : TreeCall α}
    (hc : n.call c = .ok n') : p.Builds n'.reset := by
  -- sizes are all that has to be known of a tree in use, and a reset does not change them
  have hsized : n.Sized := sized_reset_iff.mp h.unused.1
  cases c with
  | setInputs values =>
    rw [(setInputs_forgotten hsized hc).reset]
    exact h
  | compute =>
    rw [(compute_forgotten hsized hc).reset]
    exact h
  | reset =>
    cases hc
    rw [reset_reset]
    exact h
  | setParameters name settings =>
    cases hc
    cases hs : n.setParameters name settings with
    | error e => exact h
    | ok n' =>
      -- the block might as well have been given to the tree after its reset
      have hreset : n.reset.setParameters name settings = .ok n'.reset := by
        rw [setParameters_reset, hs]
        rfl
      exact h.setParameters hreset

theorem Builds.calls {p : Plan α} {n n' : Node α} (h : p.Builds n.reset) {cs : List (TreeCall α)}
    (hcs : n.calls cs = .ok n') : p.Builds n'.reset := by
  induction cs generalizing n with
  | nil =>
    cases hcs
    exact h
  | cons c rest ih =>
    obtain ⟨n₁, hcall, hrest⟩ := bind_eq_ok_iff.mp hcs
    exact ih (h.call hcall) hrest

end Plan

/-! ## Every tree of typed leaves has a plan -/

namespace Node

open Plan

variable {α : Type} [Scalar α]

theorem TypedLeaf.planned {n : Node α} (h : TypedLeaf n) : ∃ p : Plan α, p.Builds n := by
  cases h with
  | pid made => exact ⟨_, .pid made⟩
  | straightMove made => exact ⟨_, .straightMove made⟩
  | speedRamp made => exact ⟨_, .speedRamp made⟩
  | select made => exact ⟨_, .select made⟩
  | forward made => exact ⟨_, .forward made⟩

theorem Assembled.planned {n : Node α} (h : Assembled TypedLeaf n) : ∃ p : Plan α, p.Builds n := by
  induction h with
  | leaf given => exact given.planned
  | @cascade name => exact ⟨.sequential name [], .sequential .nil rfl⟩
  | @stage name stages stages' s _ _ added ihparent ihchild =>
    obtain ⟨p, hp⟩ := ihparent
    obtain ⟨q, hq⟩ := ihchild
    obtain ⟨plans, rfl, each, hchain⟩ := hp.of_sequential
    obtain ⟨rfl, hadded⟩ := appendStage_eq_ok added
    have heach : List.Forall₂ Builds (plans ++ [q]) (stages ++ [s]) :=
      List.rel_append each (.cons hq .nil)
    exact ⟨.sequential name (plans ++ [q]),
      .sequential heach (ofStages_eq_ok_iff.mpr ⟨rfl, hadded hchain⟩)⟩
  | @fan name inputs outputs ins outs made =>
    refine ⟨.parallel name inputs outputs [], .parallel .nil ?_⟩
    exact ofBranches_eq_ok_iff.mpr ⟨ins, outs, made, rfl, List.forall_mem_nil _, nodup_claims_nil⟩
  | @branch name ins outs branches branches' b _ _ added ihparent ihchild =>
    obtain ⟨p, hp⟩ := ihparent
    obtain ⟨q, hq⟩ := ihchild
    obtain ⟨inputs, outputs, plans, rfl, each, hmade, hfits, hnodup⟩ := hp.of_parallel
    obtain ⟨rfl, hfit, hown, hfree⟩ := appendBranch_eq_ok added
    have heach : List.Forall₂ (Wired.Over Builds) (plans ++ [⟨b.inputMap, b.outputMap, q⟩])
        (branches ++ [b]) := List.rel_append each (.cons (.wired hq) .nil)
    refine ⟨.parallel name inputs outputs (plans ++ [⟨b.inputMap, b.outputMap, q⟩]),
      .parallel heach (ofBranches_eq_ok_iff.mpr ⟨ins, outs, hmade, rfl, ?_, ?_⟩)⟩
    · exact List.forall_mem_append.mpr ⟨hfits, List.forall_mem_singleton.mpr hfit⟩
    · exact nodup_claims_concat hnodup hown hfree

end Node

end MotionControl
