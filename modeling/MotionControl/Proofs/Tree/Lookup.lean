import MotionControl.Proofs.Tree.Forgetting
import MotionControl.Proofs.Tree.Standing

/-!
# What a name means in a tree

A name means the first node that has it, parents before children.  So a composite node hides every
leaf of its own name below it.  A leaf that is not hidden can be read and set at runtime, and what
was set is read back.

- `Circuit.entries`: the names of a tree, in the order in which they are looked through.
- `Node.parameters?_eq`: reading a block at a name.
- `Circuit.entries_install?`, `Node.setParameters_entries`: setting a block there.
- `Node.setParameters_of_lookup`, `Node.parameters?_of_setParameters`: what can be set, and that it
  is read back.
- `Node.setParameters_root`, `Node.parameters?_root`: what has the name of the root is out of reach.
- `AxisCascade.lookup_motorCircuit`: the leaves of a motor.
-/

namespace MotionControl

open Outcome

variable {α : Type}

/-! ## Names in order -/

namespace Circuit

mutual

/-- Every name with the law that it stands for, if it is the name of a leaf; parents before
children. -/
def entries : Circuit α → List (String × Option (Law α))
  | leaf own law => [(own, some law)]
  | sequential own stages => (own, none) :: entriesOfStages stages
  | parallel own _ branches => (own, none) :: entriesOfBranches branches

/-- The entries of all stages, in their order. -/
def entriesOfStages : List (Circuit α) → List (String × Option (Law α))
  | [] => []
  | stage :: rest => entries stage ++ entriesOfStages rest

/-- The entries of all branches, in their order. -/
def entriesOfBranches : List (Wired (Circuit α)) → List (String × Option (Law α))
  | [] => []
  | ⟨_, _, node⟩ :: rest => entries node ++ entriesOfBranches rest

end

/-- A composite node is what its own name means, and hides what is below. -/
theorem lookup_composite {name own : String} {below : List (String × Option (Law α))} :
    ((own, none) :: below).lookup name = if own = name then some none else below.lookup name := by
  by_cases h : own = name
  · rw [if_pos h, h, List.lookup_cons_self]
  · rw [if_neg h, List.lookup_cons, beq_false_of_ne (Ne.symm h)]

theorem lookup_leaf {name own : String} {law : Law α} :
    [(own, some law)].lookup name = if own = name then some (some law) else none := by
  by_cases h : own = name
  · rw [if_pos h, h, List.lookup_cons_self]
  · rw [if_neg h, List.lookup_cons, beq_false_of_ne (Ne.symm h), List.lookup_nil]

end Circuit

/-! ## Reading -/

namespace Node

variable {name : String}

/-- The law of a leaf. -/
def law? : Node α → Option (Law α)
  | leaf _ law _ _ => some law
  | _ => none

theorem findStage?_entries {stages : List (Node α)}
    (h : ∀ s ∈ stages, (s.find? name).map law? = s.circuit.entries.lookup name) :
    (findStage? name stages).map law?
      = (Circuit.entriesOfStages (circuitStages stages)).lookup name := by
  induction stages with
  | nil => rfl
  | cons first rest ih =>
    rw [List.forall_mem_cons] at h
    rw [findStage?, circuitStages, Circuit.entriesOfStages, List.lookup_append, ← h.1, ← ih h.2]
    cases first.find? name with
    | some found => rfl
    | none => rfl

theorem findBranch?_entries {branches : List (Wired (Node α))}
    (h : ∀ b ∈ branches, (b.node.find? name).map law? = b.node.circuit.entries.lookup name) :
    (findBranch? name branches).map law?
      = (Circuit.entriesOfBranches (circuitBranches branches)).lookup name := by
  induction branches with
  | nil => rfl
  | cons first rest ih =>
    rw [List.forall_mem_cons] at h
    rw [findBranch?, circuitBranches, Circuit.entriesOfBranches, List.lookup_append, ← h.1,
      ← ih h.2]
    cases first.node.find? name with
    | some found => rfl
    | none => rfl

/-- The node that is found is the first entry of its name. -/
theorem find?_entries (n : Node α) :
    (n.find? name).map law? = n.circuit.entries.lookup name := by
  induction n using induct with
  | leaf own law inputs outputs =>
    rw [find?, circuit, Circuit.entries, Circuit.lookup_leaf]
    by_cases h : own = name
    · rw [if_pos h, if_pos h]
      rfl
    · rw [if_neg h, if_neg h]
      rfl
  | sequential own stages ih =>
    rw [find?, circuit, Circuit.entries, Circuit.lookup_composite, ← findStage?_entries ih]
    by_cases h : own = name
    · rw [if_pos h, if_pos h]
      rfl
    · rw [if_neg h, if_neg h]
  | parallel own inputs outputs branches ih =>
    rw [find?, circuit, Circuit.entries, Circuit.lookup_composite, ← findBranch?_entries ih]
    by_cases h : own = name
    · rw [if_pos h, if_pos h]
      rfl
    · rw [if_neg h, if_neg h]

/-- A block is read at the first entry of its name. -/
theorem parameters?_eq [Scalar α] (n : Node α) :
    n.parameters? name = (n.circuit.entries.lookup name).join.bind Law.settings? := by
  rw [← find?_entries, parameters?]
  cases n.find? name with
  | none => rfl
  | some found =>
    cases found with
    | leaf own law inputs outputs => rfl
    | sequential own stages => rfl
    | parallel own inputs outputs branches => rfl

end Node

/-! ## Setting -/

variable [Scalar α] {name : String} {settings : LawSettings α}

omit [Scalar α] in
/-- A law that took a block shows it. -/
theorem Law.settings?_install {law law' : Law α} (h : law.install settings = some law')
    (hshown : law.settings?.isSome = true) : law'.settings? = some settings := by
  cases law with
  | pid bank =>
    obtain ⟨layout, channels⟩ := bank
    cases settings with
    | straightMove settings | speedRamp settings => cases h
    | pid gains =>
      cases h
      cases channels with
      | nil => cases hshown
      | cons first rest => rfl
  | straightMove f =>
    cases settings with
    | pid settings | speedRamp settings => cases h
    | straightMove settings =>
      cases h
      rfl
  | speedRamp f =>
    cases settings with
    | pid settings | straightMove settings => cases h
    | speedRamp settings =>
      cases h
      rfl
  | select width | forward width => cases hshown

/-- A law takes every block of its kind that passes its check. -/
theorem Law.accept?_of_kind {law : Law α} (hkind : law.kind = settings.kind)
    (hcheck : settings.check = .ok ()) : ∃ law', law.accept? settings = some law' := by
  unfold accept?
  rw [hcheck]
  cases law with
  | pid bank =>
    cases settings with
    | pid gains => exact ⟨_, rfl⟩
    | straightMove settings | speedRamp settings => simp [kind, LawSettings.kind] at hkind
  | straightMove f =>
    cases settings with
    | straightMove settings => exact ⟨_, rfl⟩
    | pid settings | speedRamp settings => simp [kind, LawSettings.kind] at hkind
  | speedRamp f =>
    cases settings with
    | speedRamp settings => exact ⟨_, rfl⟩
    | pid settings | straightMove settings => simp [kind, LawSettings.kind] at hkind
  | select width | forward width =>
    cases settings <;> simp [kind, LawSettings.kind] at hkind

namespace Circuit

/-- The entries with another block at the first one of this name.  The outer option is empty if
there is none, the inner one if it is not a leaf or refuses the block. -/
def amend? (name : String) (settings : LawSettings α) :
    List (String × Option (Law α)) → Option (Option (List (String × Option (Law α))))
  | [] => none
  | (own, law) :: rest =>
    if own = name then
      some ((law.bind (·.accept? settings)).map fun law => (own, some law) :: rest)
    else (amend? name settings rest).map (·.map ((own, law) :: ·))

/-- The first entry of a name in two parts is in the first part, or else in the second. -/
theorem amend?_append (front back : List (String × Option (Law α))) :
    amend? name settings (front ++ back)
      = ((amend? name settings front).map (·.map (· ++ back))).or
          ((amend? name settings back).map (·.map (front ++ ·))) := by
  induction front with
  | nil => simp [amend?]
  | cons first rest ih =>
    obtain ⟨own, law⟩ := first
    rw [List.cons_append, amend?, amend?, ih]
    by_cases h : own = name
    · rw [if_pos h, if_pos h]
      simp [Function.comp_def]
    · rw [if_neg h, if_neg h]
      cases amend? name settings rest with
      | some r => simp [Function.comp_def]
      | none => simp [Function.comp_def]

theorem amend?_leaf {own : String} {law : Law α} :
    amend? name settings [(own, some law)]
      = if own = name then some ((law.accept? settings).map fun law => [(own, some law)])
        else none := rfl

mutual

/-- A change to a tree is a change to the entry that its name means. -/
theorem entries_install? :
    ∀ c : Circuit α, (c.install? name settings).map (·.map entries)
      = amend? name settings c.entries
  | leaf own law => by
    rw [install?, entries, amend?_leaf]
    by_cases h : own = name
    · rw [if_pos h, if_pos h, Option.map_some, Option.map_map]
      rfl
    · rw [if_neg h, if_neg h, Option.map_none]
  | sequential own stages => by
    rw [install?, entries, amend?]
    by_cases h : own = name
    · rw [if_pos h, if_pos h]
      rfl
    · rw [if_neg h, if_neg h, ← entries_installStage? stages]
      simp [Function.comp_def, entries]
  | parallel own outputs branches => by
    rw [install?, entries, amend?]
    by_cases h : own = name
    · rw [if_pos h, if_pos h]
      rfl
    · rw [if_neg h, if_neg h, ← entries_installBranch? branches]
      simp [Function.comp_def, entries]

theorem entries_installStage? :
    ∀ stages : List (Circuit α),
      (installStage? name settings stages).map (·.map entriesOfStages)
        = amend? name settings (entriesOfStages stages)
  | [] => rfl
  | stage :: rest => by
    rw [installStage?, entriesOfStages, amend?_append, ← entries_install? stage,
      ← entries_installStage? rest, Option.map_or]
    simp [Function.comp_def, entriesOfStages]

theorem entries_installBranch? :
    ∀ branches : List (Wired (Circuit α)),
      (installBranch? name settings branches).map (·.map entriesOfBranches)
        = amend? name settings (entriesOfBranches branches)
  | [] => rfl
  | ⟨inputMap, outputMap, node⟩ :: rest => by
    rw [installBranch?, entriesOfBranches, amend?_append, ← entries_install? node,
      ← entries_installBranch? rest, Option.map_or]
    simp [Function.comp_def, entriesOfBranches]

end

/-- What a name meant and means after a change: the law there took the block. -/
theorem lookup_of_amend? {entries entries' : List (String × Option (Law α))}
    (h : amend? name settings entries = some (some entries')) :
    ∃ law law', entries.lookup name = some (some law) ∧ law.accept? settings = some law' ∧
      entries'.lookup name = some (some law') := by
  induction entries generalizing entries' with
  | nil => cases h
  | cons first rest ih =>
    obtain ⟨own, law⟩ := first
    rw [amend?] at h
    by_cases hname : own = name
    · rw [if_pos hname] at h
      obtain ⟨law', haccepted, rfl⟩ := Option.map_eq_some_iff.mp (Option.some.inj h)
      obtain ⟨law, rfl, haccept⟩ := Option.bind_eq_some_iff.mp haccepted
      rw [hname]
      exact ⟨law, law', List.lookup_cons_self, haccept, List.lookup_cons_self⟩
    · rw [if_neg hname] at h
      obtain ⟨amended, hrest, h⟩ := Option.map_eq_some_iff.mp h
      obtain ⟨rest', rfl, rfl⟩ := Option.map_eq_some_iff.mp h
      have hskip : (name == own) = false := beq_false_of_ne (Ne.symm hname)
      rw [List.lookup_cons, List.lookup_cons, hskip]
      exact ih hrest

/-- A block that the law takes which a name means can be set. -/
theorem amend?_of_lookup {entries : List (String × Option (Law α))} {law law' : Law α}
    (h : entries.lookup name = some (some law)) (haccept : law.accept? settings = some law') :
    ∃ entries', amend? name settings entries = some (some entries') := by
  induction entries with
  | nil => cases h
  | cons first rest ih =>
    obtain ⟨own, found⟩ := first
    rw [amend?]
    by_cases hname : own = name
    · rw [hname, List.lookup_cons_self] at h
      cases h
      rw [if_pos hname, Option.bind_some, haccept]
      exact ⟨_, rfl⟩
    · rw [List.lookup_cons, beq_false_of_ne (Ne.symm hname)] at h
      obtain ⟨rest', hrest⟩ := ih h
      rw [if_neg hname, hrest]
      exact ⟨_, rfl⟩

end Circuit

namespace Node

variable {n n' : Node α}

/-- A change to a tree is a change to its entries. -/
theorem setParameters_entries (n : Node α) (name : String) (settings : LawSettings α) :
    (n.setParameters name settings).toOption.map (·.circuit.entries)
      = (Circuit.amend? name settings n.circuit.entries).join := by
  have hcircuit : ((n.setParameters name settings).toOption.map circuit).map Circuit.entries
      = (n.circuit.install? name settings).join.map Circuit.entries := by
    rw [circuit_setParameters]
  rw [Option.map_map] at hcircuit
  rw [← Circuit.entries_install?]
  refine hcircuit.trans ?_
  cases n.circuit.install? name settings with
  | none => rfl
  | some installed => rfl

/-- Every block of its kind that passes its check can be set at a leaf that a name means. -/
theorem setParameters_of_lookup {law : Law α}
    (h : n.circuit.entries.lookup name = some (some law)) (hkind : law.kind = settings.kind)
    (hcheck : settings.check = .ok ()) : ∃ n', n.setParameters name settings = .ok n' := by
  obtain ⟨law', haccept⟩ := Law.accept?_of_kind hkind hcheck
  obtain ⟨entries', hamend⟩ := Circuit.amend?_of_lookup h haccept
  have hset := n.setParameters_entries name settings
  rw [hamend, Option.join_some] at hset
  obtain ⟨n', hn', -⟩ := toOption_map_eq_some_iff.mp hset
  exact ⟨n', hn'⟩

/-- What was set at a name is read back, if anything was read there before. -/
theorem parameters?_of_setParameters (h : n.setParameters name settings = .ok n')
    (hshown : (n.parameters? name).isSome = true) : n'.parameters? name = some settings := by
  have hset := n.setParameters_entries name settings
  rw [h] at hset
  obtain ⟨law, law', hlookup, haccept, hlookup'⟩ :=
    Circuit.lookup_of_amend? (Option.join_eq_some_iff.mp hset.symm)
  rw [parameters?_eq, hlookup] at hshown
  rw [parameters?_eq, hlookup']
  exact Law.settings?_install (Law.accept?_eq_some haccept) hshown

/-- Nothing is set behind the name of the root. -/
theorem setParameters_root {stages : List (Circuit α)}
    (h : n.circuit = .sequential name stages) :
    n.setParameters name settings = .error (.notParameterized name) := by
  cases n with
  | leaf own law inputs outputs | parallel own inputs outputs branches => cases h
  | sequential own stages =>
    cases h
    rw [setParameters, edit?, if_pos rfl]
    rfl

/-- And nothing is read there. -/
theorem parameters?_root {stages : List (Circuit α)}
    (h : n.circuit = .sequential name stages) : n.parameters? name = none := by
  rw [parameters?_eq, h, Circuit.entries, List.lookup_cons_self]
  rfl

end Node

/-! ## The tree of a motor -/

namespace AxisCascade

/-- The loops of a motor, under the names of their leaves. -/
def leaves (a : AxisCascade α) : List (String × Law α) := [
  ("position_pid", .pid ⟨.setpointMeasurement, [a.position]⟩),
  ("speed_pid", .pid ⟨.setpointMeasurement, [a.speed]⟩),
  ("speed_ramp", .speedRamp a.ramp)]

/-- Their parameter blocks. -/
def blocks (a : AxisCascade α) : List (String × LawSettings α) := [
  ("position_pid", .pid a.position.gains),
  ("speed_pid", .pid a.speed.gains),
  ("speed_ramp", .speedRamp a.ramp.settings)]

omit [Scalar α] in
/-- Only the name of the motor can hide a leaf. -/
theorem lookup_motorCircuit {a : AxisCascade α} {own leaf : String} {law : Law α}
    (h : (leaf, law) ∈ a.leaves) (hname : own ≠ leaf) :
    (a.motorCircuit own).entries.lookup leaf = some (some law) := by
  rw [motorCircuit, Circuit.entries, Circuit.lookup_composite, if_neg hname]
  simp only [leaves, List.mem_cons, Prod.mk.injEq, List.not_mem_nil, or_false] at h
  rcases h with ⟨rfl, rfl⟩ | ⟨rfl, rfl⟩ | ⟨rfl, rfl⟩
  · rfl
  · rfl
  · rfl

omit [Scalar α] in
/-- A block is that of the leaf of its name. -/
theorem leaf_of_block {a : AxisCascade α} {leaf : String} {block : LawSettings α}
    (h : (leaf, block) ∈ a.blocks) :
    ∃ law, (leaf, law) ∈ a.leaves ∧ law.settings? = some block ∧ law.kind = block.kind := by
  simp only [blocks, List.mem_cons, Prod.mk.injEq, List.not_mem_nil, or_false] at h
  rcases h with ⟨rfl, rfl⟩ | ⟨rfl, rfl⟩ | ⟨rfl, rfl⟩
  · exact ⟨_, .head _, rfl, rfl⟩
  · exact ⟨_, .tail _ (.head _), rfl, rfl⟩
  · exact ⟨_, .tail _ (.tail _ (.head _)), rfl, rfl⟩

omit [Scalar α] in
/-- A leaf has a block of one kind, whatever is set there. -/
theorem block_of_block {a : AxisCascade α} {leaf : String} {block : LawSettings α}
    (h : (leaf, block) ∈ a.blocks) (a' : AxisCascade α) :
    ∃ block', (leaf, block') ∈ a'.blocks ∧ block'.kind = block.kind := by
  simp only [blocks, List.mem_cons, Prod.mk.injEq, List.not_mem_nil, or_false] at h
  rcases h with ⟨rfl, rfl⟩ | ⟨rfl, rfl⟩ | ⟨rfl, rfl⟩
  · exact ⟨_, .head _, rfl⟩
  · exact ⟨_, .tail _ (.head _), rfl⟩
  · exact ⟨_, .tail _ (.tail _ (.head _)), rfl⟩

end AxisCascade

namespace Node.Stands

variable {n : Node α} {a : AxisCascade α} {own leaf : String} {block : LawSettings α}

/-- Every block of a motor whose leaf has not the name of the motor is read under the name of its
leaf. -/
theorem parameters?_leaf (h : n.Stands 6 (AxisCascade.motorCircuit own) a)
    (hblock : (leaf, block) ∈ a.blocks) (hname : own ≠ leaf) :
    n.parameters? leaf = some block := by
  obtain ⟨law, hleaf, hsettings, -⟩ := AxisCascade.leaf_of_block hblock
  rw [parameters?_eq, h.circuit, AxisCascade.lookup_motorCircuit hleaf hname]
  exact hsettings

/-- Every other block of its kind that passes its check can take its place. -/
theorem setParameters_leaf (h : n.Stands 6 (AxisCascade.motorCircuit own) a)
    (hblock : (leaf, block) ∈ a.blocks) (hname : own ≠ leaf) {given : LawSettings α}
    (hkind : given.kind = block.kind) (hcheck : given.check = .ok ()) :
    ∃ n', n.setParameters leaf given = .ok n' ∧ n'.parameters? leaf = some given := by
  obtain ⟨law, hleaf, -, hlaw⟩ := AxisCascade.leaf_of_block hblock
  have hlookup : n.circuit.entries.lookup leaf = some (some law) := by
    rw [h.circuit]
    exact AxisCascade.lookup_motorCircuit hleaf hname
  obtain ⟨n', hset⟩ := setParameters_of_lookup hlookup (hlaw.trans hkind.symm) hcheck
  refine ⟨n', hset, parameters?_of_setParameters hset ?_⟩
  rw [h.parameters?_leaf hblock hname]
  rfl

end Node.Stands

end MotionControl
