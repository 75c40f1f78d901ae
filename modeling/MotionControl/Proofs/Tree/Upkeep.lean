import MotionControl.Proofs.Law
import MotionControl.Proofs.Tree.Circuit
import MotionControl.Proofs.Tree.Placement

/-!
# Sound trees between cycles

Whatever is done to a sound tree between two cycles leaves a sound tree that takes its
place.

- `Node.Sound.reset`, `Node.Sound.setInputs`, `Node.Sound.setParameters`: one theorem for
  each operation.
- `Node.Sound.sameBlank`: soundness is no matter of what the vectors hold.
-/

namespace MotionControl

namespace Node

open Outcome

variable {α : Type} [Scalar α] {P : Law α → Prop}

/-! ## One change to every child -/

theorem kept_map {f : Node α → Node α} {stages : List (Node α)}
    (h : ∀ s ∈ stages, Kept P s (f s)) : List.Forall₂ (Kept P) stages (stages.map f) :=
  List.forall₂_map_right_iff.mpr (List.forall₂_same.mpr h)

theorem keptWiring_map {f : Node α → Node α} {branches : List (Wired (Node α))}
    (h : ∀ b ∈ branches, Kept P b.node (f b.node)) :
    List.Forall₂ (SameWiring (Kept P)) branches (branches.map (Wired.map f)) :=
  List.forall₂_map_right_iff.mpr (List.forall₂_same.mpr fun b hb => ⟨rfl, rfl, h b hb⟩)

theorem Sound.reset (hP : LawInvariant P) {n : Node α} (h : Sound P n) : Kept P n n.reset := by
  induction n using induct with
  | leaf name law inputs outputs =>
    exact .leaf h (hP.reset h.law) (Law.arity_reset law) (Signals.length_clear inputs)
      (Signals.length_clear outputs)
  | sequential name stages ih =>
    rw [Node.reset, resetStages_eq_map]
    exact .sequential h (kept_map fun s hs => ih s hs (h.stages s hs))
  | parallel name inputs outputs branches ih =>
    rw [Node.reset, resetBranches_eq_map]
    refine .parallel h (Signals.length_clear inputs) (Signals.length_clear outputs) ?_
    exact keptWiring_map fun b hb => ih b hb (h.nodes b hb)

/-! ## Vectors -/

theorem Sound.blank {n : Node α} (h : Sound P n) : Kept P n n.blank := by
  induction n using induct with
  | leaf name law inputs outputs =>
    exact .leaf h h.law rfl (Signals.length_clear inputs) (Signals.length_clear outputs)
  | sequential name stages ih =>
    rw [Node.blank, blankStages_eq_map]
    exact .sequential h (kept_map fun s hs => ih s hs (h.stages s hs))
  | parallel name inputs outputs branches ih =>
    rw [Node.blank, blankBranches_eq_map]
    refine .parallel h (Signals.length_clear inputs) (Signals.length_clear outputs) ?_
    exact keptWiring_map fun b hb => ih b hb (h.nodes b hb)

theorem kept_of_blank {n : Node α} (h : Sound P n.blank) : Kept P n.blank n := by
  induction n using induct with
  | leaf name law inputs outputs =>
    exact .leaf h h.law rfl (Signals.length_clear inputs).symm (Signals.length_clear outputs).symm
  | sequential name stages ih =>
    rw [Node.blank, blankStages_eq_map] at h ⊢
    refine .sequential h (List.forall₂_map_left_iff.mpr (List.forall₂_same.mpr fun s hs => ?_))
    exact ih s hs (h.stages s.blank (List.mem_map_of_mem hs))
  | parallel name inputs outputs branches ih =>
    rw [Node.blank, blankBranches_eq_map] at h ⊢
    refine .parallel h (Signals.length_clear inputs).symm (Signals.length_clear outputs).symm
      (List.forall₂_map_left_iff.mpr (List.forall₂_same.mpr fun b hb => ⟨rfl, rfl, ?_⟩))
    exact ih b hb (h.nodes (b.map Node.blank) (List.mem_map_of_mem hb))

/-- Trees that differ in their vectors only are sound together. -/
theorem Sound.sameBlank {n n' : Node α} (h : Sound P n) (hblank : n'.blank = n.blank) :
    Kept P n n' := by
  have hb := h.blank
  rw [← hblank] at hb
  have hk := kept_of_blank hb.sound
  exact ⟨hk.sound, hb.ends.trans hk.ends⟩

/-- As many inputs as a sound tree takes can be written. -/
theorem Sound.setInputs {n : Node α} (h : Sound P n) {values : List α}
    (hvalues : values.length = n.inputCount) :
    ∃ n', n.setInputs values = .ok n' ∧ Kept P n n' := by
  unfold Node.setInputs
  induction n using induct with
  | leaf name law inputs outputs =>
    refine ⟨.leaf name law ⟨values⟩ outputs, ?_, .leaf h h.law rfl hvalues rfl⟩
    rw [overInputs, Signals.copy_of_length hvalues, ok_bind]
  | sequential name stages ih =>
    cases stages with
    | nil => cases h
    | cons first rest =>
      have hstages := h.stages
      rw [List.forall_mem_cons] at hstages
      obtain ⟨first', hfirst, hkept⟩ := ih first List.mem_cons_self hstages.1 hvalues
      refine ⟨.sequential name (first' :: rest), ?_, .sequential h (.cons hkept ?_)⟩
      · rw [overInputs, hfirst, ok_bind]
      · exact List.forall₂_same.mpr fun s hs => .refl (hstages.2 s hs)
  | parallel name inputs outputs branches _ =>
    refine ⟨.parallel name ⟨values⟩ outputs branches, ?_, .parallel h hvalues rfl ?_⟩
    · rw [overInputs, Signals.copy_of_length hvalues, ok_bind]
    · exact List.forall₂_same.mpr fun b hb => ⟨rfl, rfl, .refl (h.nodes b hb)⟩

/-! ## Parameter blocks -/

section Edit

variable {name : String} {settings : LawSettings α}

/-- A node that takes a block is a leaf, the block passes its check, and the law takes it. -/
theorem of_install_eq_ok {n n' : Node α} (h : n.install settings = .ok n') :
    ∃ own law law' inputs outputs, n = leaf own law inputs outputs ∧ settings.check = .ok () ∧
      law.install settings = some law' ∧ n' = leaf own law' inputs outputs := by
  cases n with
  | leaf own law inputs outputs =>
    unfold install at h
    dsimp only at h
    cases hc : settings.check with
    | error reason =>
      rw [hc] at h
      cases h
    | ok u =>
      rw [hc] at h
      dsimp only at h
      cases hl : law.install settings with
      | some law' =>
        rw [hl] at h
        cases h
        exact ⟨own, law, law', inputs, outputs, rfl, rfl, hl, rfl⟩
      | none =>
        rw [hl] at h
        dsimp only at h
        cases hp : law.isParameterized with
        | true =>
          rw [hp] at h
          cases h
        | false =>
          rw [hp] at h
          cases h
  | sequential name stages => cases h
  | parallel name inputs outputs branches => cases h

theorem install_eq_ok (hP : LawInvariant P) {n n' : Node α} (h : Sound P n)
    (hi : n.install settings = .ok n') : Kept P n n' := by
  obtain ⟨own, law, law', inputs, outputs, rfl, hc, hl, rfl⟩ := of_install_eq_ok hi
  exact .leaf h (hP.install h.law hc hl) (Law.arity_install hl) rfl rfl

/-- One stage is changed, and the others stay as they are. -/
theorem editStage?_kept {stages stages' : List (Node α)} (hsound : ∀ s ∈ stages, Sound P s)
    (hkept : ∀ s ∈ stages, ∀ s', s.edit? name (install settings) = some (.ok s') → Kept P s s')
    (h : editStage? name (install settings) stages = some (.ok stages')) :
    List.Forall₂ (Kept P) stages stages' := by
  -- The first stage where the name is found is changed, and no other one.
  induction stages generalizing stages' with
  | nil => cases h
  | cons first rest ih =>
    rw [List.forall_mem_cons] at hsound hkept
    rw [editStage?] at h
    cases hf : first.edit? name (install settings) with
    | some changed =>
      rw [hf] at h
      obtain ⟨first', hfirst, heq⟩ := map_eq_ok_iff.mp (Option.some.inj h)
      rw [hfirst] at hf
      rw [← heq]
      refine .cons (hkept.1 first' hf) (List.forall₂_same.mpr fun s hs => .refl ?_)
      exact hsound.2 s hs
    | none =>
      rw [hf] at h
      obtain ⟨changed, hrest, hchanged⟩ := Option.map_eq_some_iff.mp h
      obtain ⟨rest', hok, heq⟩ := map_eq_ok_iff.mp hchanged
      rw [hok] at hrest
      rw [← heq]
      exact .cons (.refl hsound.1) (ih hsound.2 hkept.2 hrest)

theorem editBranch?_kept {branches branches' : List (Wired (Node α))}
    (hsound : ∀ b ∈ branches, Sound P b.node)
    (hkept : ∀ b ∈ branches, ∀ n', b.node.edit? name (install settings) = some (.ok n') →
      Kept P b.node n')
    (h : editBranch? name (install settings) branches = some (.ok branches')) :
    List.Forall₂ (SameWiring (Kept P)) branches branches' := by
  induction branches generalizing branches' with
  | nil => cases h
  | cons first rest ih =>
    rw [List.forall_mem_cons] at hsound hkept
    rw [editBranch?] at h
    cases hf : first.node.edit? name (install settings) with
    | some changed =>
      rw [hf] at h
      obtain ⟨node', hfirst, heq⟩ := map_eq_ok_iff.mp (Option.some.inj h)
      rw [hfirst] at hf
      rw [← heq]
      refine .cons ⟨rfl, rfl, hkept.1 node' hf⟩ (List.forall₂_same.mpr fun b hb => ⟨rfl, rfl, ?_⟩)
      exact .refl (hsound.2 b hb)
    | none =>
      rw [hf] at h
      obtain ⟨changed, hrest, hchanged⟩ := Option.map_eq_some_iff.mp h
      obtain ⟨rest', hok, heq⟩ := map_eq_ok_iff.mp hchanged
      rw [hok] at hrest
      rw [← heq]
      exact .cons ⟨rfl, rfl, .refl hsound.1⟩ (ih hsound.2 hkept.2 hrest)

theorem edit?_kept (hP : LawInvariant P) {n n' : Node α} (h : Sound P n)
    (he : n.edit? name (install settings) = some (.ok n')) : Kept P n n' := by
  induction n using induct generalizing n' with
  | leaf own law inputs outputs =>
    rw [edit?] at he
    by_cases hname : own = name
    · rw [if_pos hname] at he
      exact install_eq_ok hP h (Option.some.inj he)
    · rw [if_neg hname] at he
      cases he
  | sequential own stages ih =>
    rw [edit?] at he
    by_cases hname : own = name
    · rw [if_pos hname] at he
      exact install_eq_ok hP h (Option.some.inj he)
    · rw [if_neg hname] at he
      obtain ⟨changed, hstages, hchanged⟩ := Option.map_eq_some_iff.mp he
      obtain ⟨stages', hok, rfl⟩ := map_eq_ok_iff.mp hchanged
      rw [hok] at hstages
      exact .sequential h (editStage?_kept h.stages (fun s hs s' => ih s hs (h.stages s hs)) hstages)
  | parallel own inputs outputs branches ih =>
    rw [edit?] at he
    by_cases hname : own = name
    · rw [if_pos hname] at he
      exact install_eq_ok hP h (Option.some.inj he)
    · rw [if_neg hname] at he
      obtain ⟨changed, hbranches, hchanged⟩ := Option.map_eq_some_iff.mp he
      obtain ⟨branches', hok, rfl⟩ := map_eq_ok_iff.mp hchanged
      rw [hok] at hbranches
      exact .parallel h rfl rfl
        (editBranch?_kept h.nodes (fun b hb n' => ih b hb (h.nodes b hb)) hbranches)

/-- A parameter block that is accepted leaves a sound tree. -/
theorem Sound.setParameters (hP : LawInvariant P) {n n' : Node α} (h : Sound P n)
    (hs : n.setParameters name settings = .ok n') : Kept P n n' := by
  unfold Node.setParameters at hs
  cases he : n.edit? name (install settings) with
  | none =>
    rw [he] at hs
    cases hs
  | some changed =>
    rw [he] at hs
    change changed = .ok n' at hs
    rw [hs] at he
    exact edit?_kept hP h he

end Edit

end Node

end MotionControl
