import MotionControl.Control.Node.Access
import MotionControl.Proofs.Tree.Shape

/-!
# The parts of a tree

A tree laid out in a row: every node without what is below it, parents before children.  Nothing is
lost that way, so what happens to the row is all that happens to the tree.  Both searches through a
tree, the one that reads and the one that changes, stop at the first part of the name.

- `Node.Part`, `Node.parts`: a node by itself, and those of a tree in the order of the searches.
- `Node.parts_injective`: a tree is known by its parts.
- `Node.Search`, `Node.search`: what a search by name comes to, whether it reads or changes.
-/

namespace MotionControl

namespace Node

variable {α : Type}

/-! ## Parts -/

/-- A node by itself: its law and signals, or how many nodes are below it and how they are wired. -/
inductive Part (α : Type) where
  | leaf (name : String) (law : Law α) (inputs outputs : Signals α)
  | sequential (name : String) (stages : Nat)
  | parallel (name : String) (inputs outputs : Signals α) (wiring : List (List Nat × List Nat))

/-- The name of the node that a part is of. -/
def Part.name : Part α → String
  | leaf name .. | sequential name _ | parallel name .. => name

/-- The connections of the branches of a parallel node. -/
def wiring (branches : List (Wired (Node α))) : List (List Nat × List Nat) :=
  branches.map fun b => (b.inputMap, b.outputMap)

/-- The root by itself. -/
def part : Node α → Part α
  | leaf own law inputs outputs => .leaf own law inputs outputs
  | sequential own stages => .sequential own stages.length
  | parallel own inputs outputs branches => .parallel own inputs outputs (wiring branches)

mutual

/-- Every node by itself, parents before children. -/
def parts : Node α → List (Part α)
  | leaf own law inputs outputs => [.leaf own law inputs outputs]
  | sequential own stages => .sequential own stages.length :: partsOfStages stages
  | parallel own inputs outputs branches =>
    .parallel own inputs outputs (wiring branches) :: partsOfBranches branches

/-- The parts of all stages, in their order. -/
def partsOfStages : List (Node α) → List (Part α)
  | [] => []
  | stage :: rest => parts stage ++ partsOfStages rest

/-- The parts of all branches, in their order. -/
def partsOfBranches : List (Wired (Node α)) → List (Part α)
  | [] => []
  | ⟨_, _, node⟩ :: rest => parts node ++ partsOfBranches rest

end

@[simp] theorem name_part (n : Node α) : n.part.name = n.name := by
  cases n with
  | leaf | sequential | parallel => rfl

theorem parts_eq (n : Node α) : n.parts = n.part :: n.parts.tail := by
  cases n with
  | leaf | sequential | parallel => rfl

theorem partsOfStages_eq (stages : List (Node α)) :
    partsOfStages stages = stages.flatMap parts := by
  induction stages with
  | nil => rfl
  | cons stage rest ih => rw [partsOfStages, ih, List.flatMap_cons]

theorem partsOfBranches_eq (branches : List (Wired (Node α))) :
    partsOfBranches branches = branches.flatMap (·.node.parts) := by
  induction branches with
  | nil => rfl
  | cons branch rest ih => rw [partsOfBranches, ih, List.flatMap_cons]

/-! ## Nothing is lost -/

/-- The parts of a tree tell where it ends. -/
def Legible (n : Node α) : Prop :=
  ∀ n' rest rest', n.parts ++ rest = n'.parts ++ rest' → n = n' ∧ rest = rest'

theorem legible_stages {stages : List (Node α)} (h : ∀ s ∈ stages, Legible s)
    {stages' : List (Node α)} {rest rest' : List (Part α)} (hlength : stages.length = stages'.length)
    (heq : partsOfStages stages ++ rest = partsOfStages stages' ++ rest') :
    stages = stages' ∧ rest = rest' := by
  induction stages generalizing stages' with
  | nil =>
    obtain rfl := List.length_eq_zero_iff.mp hlength.symm
    exact ⟨rfl, heq⟩
  | cons s stages ih =>
    obtain ⟨s', stages', rfl⟩ := List.exists_cons_of_length_eq_add_one hlength.symm
    rw [List.forall_mem_cons] at h
    rw [partsOfStages, partsOfStages, List.append_assoc, List.append_assoc] at heq
    obtain ⟨rfl, hlater⟩ := h.1 s' _ _ heq
    obtain ⟨rfl, hrest⟩ := ih h.2 (Nat.succ.inj hlength) hlater
    exact ⟨rfl, hrest⟩

theorem legible_branches {branches : List (Wired (Node α))} (h : ∀ b ∈ branches, Legible b.node)
    {branches' : List (Wired (Node α))} {rest rest' : List (Part α)}
    (hwiring : wiring branches = wiring branches')
    (heq : partsOfBranches branches ++ rest = partsOfBranches branches' ++ rest') :
    branches = branches' ∧ rest = rest' := by
  induction branches generalizing branches' with
  | nil =>
    obtain rfl := List.map_eq_nil_iff.mp hwiring.symm
    exact ⟨rfl, heq⟩
  | cons b branches ih =>
    obtain ⟨b', branches', rfl, hmaps, hlast⟩ := List.map_eq_cons_iff.mp hwiring.symm
    rw [List.forall_mem_cons] at h
    rw [partsOfBranches, partsOfBranches, List.append_assoc, List.append_assoc] at heq
    obtain ⟨hnode, hlater⟩ := h.1 b'.node _ _ heq
    obtain ⟨rfl, hrest⟩ := ih h.2 hlast.symm hlater
    obtain ⟨hinputs, houtputs⟩ := Prod.mk.inj hmaps
    obtain ⟨inputMap, outputMap, node⟩ := b
    obtain ⟨inputMap', outputMap', node'⟩ := b'
    obtain rfl : inputMap' = inputMap := hinputs
    obtain rfl : outputMap' = outputMap := houtputs
    obtain rfl : node = node' := hnode
    exact ⟨rfl, hrest⟩

theorem legible (n : Node α) : Legible n := by
  -- The root tells how many nodes are below it, so the row of their parts ends with the last one.
  induction n using induct with
  | leaf own law inputs outputs =>
    intro n' rest rest' heq
    cases n' with
    | leaf own' law' inputs' outputs' =>
      cases heq
      exact ⟨rfl, rfl⟩
    | sequential | parallel => cases heq
  | sequential own stages ih =>
    intro n' rest rest' heq
    cases n' with
    | sequential own' stages' =>
      obtain ⟨hroot, hbelow⟩ := List.cons.inj heq
      obtain ⟨rfl, hlength⟩ := Part.sequential.inj hroot
      obtain ⟨rfl, hrest⟩ := legible_stages ih hlength hbelow
      exact ⟨rfl, hrest⟩
    | leaf | parallel => cases heq
  | parallel own inputs outputs branches ih =>
    intro n' rest rest' heq
    cases n' with
    | parallel own' inputs' outputs' branches' =>
      obtain ⟨hroot, hbelow⟩ := List.cons.inj heq
      obtain ⟨rfl, rfl, rfl, hwiring⟩ := Part.parallel.inj hroot
      obtain ⟨rfl, hrest⟩ := legible_branches ih hwiring hbelow
      exact ⟨rfl, hrest⟩
    | leaf | sequential => cases heq

theorem parts_injective : Function.Injective (parts : Node α → List (Part α)) := by
  intro n n' h
  exact (n.legible n' [] [] (by rw [h])).1

/-! ## Searches -/

/-- What a search by name through a tree, or through a list of trees, comes to, when it reads and
when it changes: nothing where no part has the name, and otherwise the same node.  A change keeps
everything around that node. -/
inductive Search {β γ ε : Type} (name : String) (change : Node α → Except ε (Node α))
    (partsOf : β → List (Part α)) (shape : β → γ) (whole : β) :
    Option (Node α) → Option (Except ε β) → Prop where
  | absent (unnamed : ∀ p ∈ partsOf whole, p.name ≠ name) :
      Search name change partsOf shape whole none none
  | found (n : Node α) (around : Node α → β) (before after : List (Part α))
      {changed : Except ε β} (named : n.name = name) (unnamed : ∀ p ∈ before, p.name ≠ name)
      (split : partsOf whole = before ++ n.parts ++ after)
      (kept : ∀ n', partsOf (around n') = before ++ n'.parts ++ after)
      (shaped : ∀ n', shape (around n') = shape whole)
      (result : changed = (change n).map around) :
      Search name change partsOf shape whole (some n) (some changed)

section Search

variable {ε : Type} {name : String} {change : Node α → Except ε (Node α)}

/-- Two changes of what is around a node, one after the other. -/
theorem map_around {β γ : Type} {n : Node α} {around : Node α → β} {changed : Except ε β}
    (h : changed = (change n).map around) (further : β → γ) :
    changed.map further = (change n).map fun n' => further (around n') := by
  rw [h]
  cases change n with
  | ok n' => rfl
  | error reason => rfl

/-- A search ends at the root if it has the name. -/
theorem Search.root {n : Node α} (hname : n.name = name) :
    Search name change parts (fun _ => ()) n (some n) (some (change n)) := by
  refine .found n id [] [] hname (List.forall_mem_nil _) (by simp) (by simp) (fun _ => rfl) ?_
  cases change n with
  | ok n' => rfl
  | error reason => rfl

/-- It goes on below a root of another name. -/
theorem Search.below {β γ : Type} {partsOf : β → List (Part α)} {shape : β → γ} {whole : β}
    {found : Option (Node α)} {changed : Option (Except ε β)}
    (h : Search name change partsOf shape whole found changed) {root : γ → Part α}
    {under : β → Node α} (hparts : ∀ b, (under b).parts = root (shape b) :: partsOf b)
    (hroot : (root (shape whole)).name ≠ name) :
    Search name change parts (fun _ => ()) (under whole) found
      (changed.map (·.map under)) := by
  cases h with
  | absent unnamed =>
    refine .absent ?_
    rw [hparts]
    exact List.forall_mem_cons.mpr ⟨hroot, unnamed⟩
  | found n around before after named unnamed split kept shaped result =>
    refine .found n (fun n' => under (around n')) (root (shape whole) :: before) after named
      (List.forall_mem_cons.mpr ⟨hroot, unnamed⟩) ?_ ?_ (fun _ => rfl) (map_around result under)
    · rw [hparts, split]
      rfl
    · intro n'
      rw [hparts, kept, shaped]
      rfl

/-- It goes from one child to the next, whatever goes with a child in the row. -/
theorem Search.cons {β γ : Type} {partsOf : β → List (Part α)} {shape : β → γ} {first : Node α}
    {rest : β} {found found' : Option (Node α)} {changed : Option (Except ε (Node α))}
    {changed' : Option (Except ε β)} (cons : Node α → β → β)
    (hparts : ∀ n row, partsOf (cons n row) = n.parts ++ partsOf row)
    (hshape : ∀ n n' row row', shape row = shape row' →
      shape (cons n row) = shape (cons n' row')) :
    Search name change parts (fun _ => ()) first found changed →
    Search name change partsOf shape rest found' changed' →
    Search name change partsOf shape (cons first rest)
      (match found with
        | some n => some n
        | none => found')
      (match changed with
        | some changed => some (changed.map (cons · rest))
        | none => changed'.map (·.map (cons first))) := by
  intro hfirst hrest
  cases hfirst with
  | found n around before after named unnamed split kept _ result =>
    refine .found n (fun n' => cons (around n') rest) before (after ++ partsOf rest) named unnamed
      ?_ ?_ (fun _ => hshape _ _ _ _ rfl) (map_around result (cons · rest))
    · simp [hparts, split]
    · simp [hparts, kept]
  | absent unnamed =>
    cases hrest with
    | absent unnamed' =>
      refine .absent ?_
      rw [hparts]
      exact List.forall_mem_append.mpr ⟨unnamed, unnamed'⟩
    | found n around before after named unnamed' split kept shaped result =>
      refine .found n (fun n' => cons first (around n')) (first.parts ++ before) after named
        (List.forall_mem_append.mpr ⟨unnamed, unnamed'⟩) ?_ ?_
        (fun n' => hshape _ _ _ _ (shaped n')) (map_around result (cons first))
      · simp [hparts, split]
      · simp [hparts, kept]

theorem search_stages {stages : List (Node α)}
    (h : ∀ s ∈ stages,
      Search name change parts (fun _ => ()) s (s.find? name) (s.edit? name change)) :
    Search name change partsOfStages List.length stages (findStage? name stages)
      (editStage? name change stages) := by
  induction stages with
  | nil => exact .absent (List.forall_mem_nil _)
  | cons stage rest ih =>
    rw [List.forall_mem_cons] at h
    rw [findStage?, editStage?]
    refine .cons (· :: ·) (fun _ _ => rfl) ?_ h.1 (ih h.2)
    intro _ _ row row' hlength
    exact congrArg (· + 1) hlength

theorem search_branches {branches : List (Wired (Node α))}
    (h : ∀ b ∈ branches,
      Search name change parts (fun _ => ()) b.node (b.node.find? name)
        (b.node.edit? name change)) :
    Search name change partsOfBranches wiring branches (findBranch? name branches)
      (editBranch? name change branches) := by
  induction branches with
  | nil => exact .absent (List.forall_mem_nil _)
  | cons branch rest ih =>
    obtain ⟨inputMap, outputMap, node⟩ := branch
    rw [List.forall_mem_cons] at h
    rw [findBranch?, editBranch?]
    refine .cons (⟨inputMap, outputMap, ·⟩ :: ·) (fun _ _ => rfl) ?_ h.1 (ih h.2)
    intro _ _ row row' hwiring
    exact congrArg ((inputMap, outputMap) :: ·) hwiring

/-- Reading and changing, whatever the change is, mean the same node. -/
theorem search (name : String) (change : Node α → Except ε (Node α)) (n : Node α) :
    Search name change parts (fun _ => ()) n (n.find? name) (n.edit? name change) := by
  induction n using induct with
  | leaf own law inputs outputs =>
    rw [find?, edit?]
    by_cases hname : own = name
    · rw [if_pos hname, if_pos hname]
      exact .root hname
    · rw [if_neg hname, if_neg hname]
      exact .absent (List.forall_mem_singleton.mpr hname)
  | sequential own stages ih =>
    rw [find?, edit?]
    by_cases hname : own = name
    · rw [if_pos hname, if_pos hname]
      exact .root hname
    · rw [if_neg hname, if_neg hname]
      exact (search_stages ih).below (fun _ => rfl) hname
  | parallel own inputs outputs branches ih =>
    rw [find?, edit?]
    by_cases hname : own = name
    · rw [if_pos hname, if_pos hname]
      exact .root hname
    · rw [if_neg hname, if_neg hname]
      exact (search_branches ih).below (fun _ => rfl) hname

end Search

end Node

end MotionControl
