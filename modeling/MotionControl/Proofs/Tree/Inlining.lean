import MotionControl.Proofs.Tree.Circuit

/-!
# Cascades within cascades

A cascade that is a stage of another one may be replaced by its stages, anywhere in a
tree.

- `Circuit.Inlined`, `Node.Inlined`: one such replacement, in a circuit and in a tree.
- `Circuit.inlined_follows`: along a run, the circuit after the replacement does what the
  circuit before does.
- `Node.Inlined.kept`: a sound tree stays sound.
-/

namespace MotionControl

namespace Circuit

variable {α : Type}

/-- The second circuit is the first with a nested cascade replaced by its stages. -/
inductive Inlined : Circuit α → Circuit α → Prop where
  | here {name nested pre inner post} :
      Inlined (.sequential name (pre ++ .sequential nested inner :: post))
        (.sequential name (pre ++ (inner ++ post)))
  | stage {name pre post c c'} (h : Inlined c c') :
      Inlined (.sequential name (pre ++ c :: post)) (.sequential name (pre ++ c' :: post))
  | branch {name outputs pre post inputMap outputMap c c'} (h : Inlined c c') :
      Inlined (.parallel name outputs (pre ++ ⟨inputMap, outputMap, c⟩ :: post))
        (.parallel name outputs (pre ++ ⟨inputMap, outputMap, c'⟩ :: post))

variable [Scalar α]

/-! ## Cycles -/

/-- Another node in the place of a branch, with the same outputs, places the same. -/
theorem evalBranches_exchange {pre post branches' : List (Wired (Circuit α))} {c c' : Circuit α}
    {inputMap outputMap : List Nat} {inputs : List α} {placed : List (Nat × α)}
    {R : Circuit α → Circuit α → Prop}
    (hc : ∀ values outputs d, eval c values = some (outputs, d) →
      ∃ d', eval c' values = some (outputs, d') ∧ R d d')
    (h : evalBranches (pre ++ ⟨inputMap, outputMap, c⟩ :: post) inputs = some (placed, branches')) :
    ∃ pre' d d' post', branches' = pre' ++ ⟨inputMap, outputMap, d⟩ :: post' ∧ R d d' ∧
      evalBranches (pre ++ ⟨inputMap, outputMap, c'⟩ :: post) inputs
        = some (placed, pre' ++ ⟨inputMap, outputMap, d'⟩ :: post') := by
  induction pre generalizing placed branches' with
  | nil =>
    rw [List.nil_append, evalBranches] at h
    obtain ⟨picked, hpicked, h⟩ := Option.bind_eq_some_iff.mp h
    obtain ⟨⟨outputs, d⟩, hd, h⟩ := Option.bind_eq_some_iff.mp h
    obtain ⟨⟨others, post'⟩, hpost, h⟩ := Option.map_eq_some_iff.mp h
    cases h
    obtain ⟨d', hd', hR⟩ := hc picked outputs d hd
    refine ⟨[], d, d', post', rfl, hR, ?_⟩
    rw [List.nil_append, evalBranches, hpicked, Option.bind_some, hd', Option.bind_some, hpost]
    rfl
  | cons branch rest ih =>
    rw [List.cons_append, evalBranches] at h
    obtain ⟨picked, hpicked, h⟩ := Option.bind_eq_some_iff.mp h
    obtain ⟨⟨outputs, e⟩, he, h⟩ := Option.bind_eq_some_iff.mp h
    obtain ⟨⟨others, rest'⟩, hrest, h⟩ := Option.map_eq_some_iff.mp h
    cases h
    obtain ⟨pre', d, d', post', rfl, hR, hrest'⟩ := ih hrest
    refine ⟨⟨branch.inputMap, branch.outputMap, e⟩ :: pre', d, d', post', rfl, hR, ?_⟩
    rw [List.cons_append, evalBranches, hpicked, Option.bind_some, he, Option.bind_some, hrest']
    rfl

/-- A circuit after a replacement responds as before. -/
theorem Inlined.eval {c c' d : Circuit α} (h : Inlined c c') {inputs outputs : List α}
    (heval : c.eval inputs = some (outputs, d)) :
    ∃ d', c'.eval inputs = some (outputs, d') ∧ Inlined d d' := by
  induction h generalizing inputs outputs d with
  | here =>
    obtain ⟨stages', hstages, rfl⟩ := eval_sequential_eq_some.mp heval
    obtain ⟨first, pre', _, hpre, hrest, rfl⟩ := evalStages_append_eq_some.mp hstages
    obtain ⟨second, _, post', hnested, hpost, rfl⟩ := evalStages_cons_eq_some.mp hrest
    obtain ⟨inner', hinner, rfl⟩ := eval_sequential_eq_some.mp hnested
    refine ⟨_, eval_sequential_eq_some.mpr ⟨_, ?_, rfl⟩, .here⟩
    refine evalStages_append_eq_some.mpr ⟨first, pre', inner' ++ post', hpre, ?_, rfl⟩
    exact evalStages_append_eq_some.mpr ⟨second, inner', post', hinner, hpost, rfl⟩
  | stage _ ih =>
    obtain ⟨stages', hstages, rfl⟩ := eval_sequential_eq_some.mp heval
    obtain ⟨first, pre', _, hpre, hrest, rfl⟩ := evalStages_append_eq_some.mp hstages
    obtain ⟨second, e, post', he, hpost, rfl⟩ := evalStages_cons_eq_some.mp hrest
    obtain ⟨e', he', hinlined⟩ := ih he
    refine ⟨_, eval_sequential_eq_some.mpr ⟨_, ?_, rfl⟩, .stage hinlined⟩
    refine evalStages_append_eq_some.mpr ⟨first, pre', e' :: post', hpre, ?_, rfl⟩
    exact evalStages_cons_eq_some.mpr ⟨second, e', post', he', hpost, rfl⟩
  | branch _ ih =>
    rw [Circuit.eval] at heval
    obtain ⟨⟨placed, branches'⟩, hbranches, heval⟩ := Option.bind_eq_some_iff.mp heval
    obtain ⟨values, hvalues, heval⟩ := Option.map_eq_some_iff.mp heval
    cases heval
    obtain ⟨pre', e, e', post', rfl, hinlined, hbranches'⟩ :=
      evalBranches_exchange (R := Inlined) (fun _ _ _ h => ih h) hbranches
    refine ⟨_, ?_, .branch hinlined⟩
    rw [Circuit.eval, hbranches', Option.bind_some, hvalues, Option.map_some]

/-! ## Resets and parameter blocks -/

theorem Inlined.reset {c c' : Circuit α} (h : Inlined c c') : Inlined c.reset c'.reset := by
  induction h with
  | here =>
    simp only [Circuit.reset, resetStages_eq_map, List.map_append, List.map_cons]
    exact .here
  | stage _ ih =>
    simp only [Circuit.reset, resetStages_eq_map, List.map_append, List.map_cons]
    exact .stage ih
  | branch _ ih =>
    simp only [Circuit.reset, resetBranches_eq_map, List.map_append, List.map_cons, Wired.map]
    exact .branch ih

/-- What a replacement does to the installing of a block: where the name is absent it stays
so, and a block that is accepted is still accepted. -/
structure InstallsAlike {β γ : Type} (R : β → γ → Prop) (x : Option (Option β))
    (y : Option (Option γ)) : Prop where
  absent : x = none → y = none
  accepted {b} : x = some (some b) → ∃ c, y = some (some c) ∧ R b c

namespace InstallsAlike

variable {β γ δ ζ : Type} {R : β → γ → Prop} {S : δ → ζ → Prop} {x x' : Option (Option β)}
  {y y' : Option (Option γ)}

theorem refl (x : Option (Option β)) : InstallsAlike Eq x x :=
  ⟨id, fun h => ⟨_, h, rfl⟩⟩

/-- A block that is refused says nothing. -/
theorem refused (y : Option (Option γ)) : InstallsAlike R (some none) y where
  absent h := by cases h
  accepted h := by cases h

theorem map {f : β → δ} {g : γ → ζ} (h : InstallsAlike R x y)
    (hfg : ∀ b c, R b c → S (f b) (g c)) :
    InstallsAlike S (x.map (·.map f)) (y.map (·.map g)) where
  absent hx := by
    rw [h.absent (Option.map_eq_none_iff.mp hx), Option.map_none]
  accepted {d} hx := by
    obtain ⟨o, ho, hd⟩ := Option.map_eq_some_iff.mp hx
    obtain ⟨b, rfl, rfl⟩ := Option.map_eq_some_iff.mp hd
    obtain ⟨c, hc, hR⟩ := h.accepted ho
    exact ⟨g c, by rw [hc, Option.map_some, Option.map_some], hfg b c hR⟩

/-- Two places to look, one after the other. -/
theorem or (hx : InstallsAlike R x y) (hx' : InstallsAlike R x' y') :
    InstallsAlike R (x.or x') (y.or y') where
  absent h := by
    obtain ⟨hnone, hnone'⟩ := Option.or_eq_none_iff.mp h
    rw [hx.absent hnone, hx'.absent hnone', Option.or_none]
  accepted {b} h := by
    -- What is found in the first place is final, a refusal included.
    cases x with
    | none =>
      obtain ⟨c, hc, hR⟩ := hx'.accepted h
      refine ⟨c, ?_, hR⟩
      rw [hx.absent rfl, hc, Option.none_or]
    | some o =>
      obtain ⟨c, hc, hR⟩ := hx.accepted h
      refine ⟨c, ?_, hR⟩
      rw [hc, Option.some_or]

theorem mono {R' : β → γ → Prop} (h : InstallsAlike R x y) (hR : ∀ b c, R b c → R' b c) :
    InstallsAlike R' x y :=
  ⟨h.absent, fun hx => (h.accepted hx).imp fun _ hc => ⟨hc.1, hR _ _ hc.2⟩⟩

end InstallsAlike

section Install

variable {name : String} {settings : LawSettings α}

/-- A change of a part at the end of a list of stages changes what the whole list accepts in
that part only. -/
theorem installsAlike_append {pre back back' : List (Circuit α)}
    {R : List (Circuit α) → List (Circuit α) → Prop} (hR : ∀ front, R (front ++ back) (front ++ back'))
    (h : InstallsAlike (fun l l' => R (pre ++ l) (pre ++ l')) (installStage? name settings back)
      (installStage? name settings back')) :
    InstallsAlike R (installStage? name settings (pre ++ back))
      (installStage? name settings (pre ++ back')) := by
  rw [installStage?_append, installStage?_append]
  refine .or (.map (.refl _) ?_) (.map h fun _ _ hl => hl)
  rintro front _ rfl
  exact hR front

/-- A name in a nested cascade, other than its own, is a name of its stages. -/
theorem installsAlike_nested {nested : String} {inner post : List (Circuit α)} :
    InstallsAlike
      (fun l l' => ∃ stages rest, l = .sequential nested stages :: rest ∧ l' = stages ++ rest)
      (installStage? name settings (.sequential nested inner :: post))
      (installStage? name settings (inner ++ post)) := by
  rw [installStage?, installStage?_append, Circuit.install?]
  refine .or ?_ (.map (.refl _) ?_)
  · by_cases hname : nested = name
    · -- The nested cascade refuses a block at its own name, and is gone afterwards.
      rw [if_pos hname]
      exact .refused _
    · rw [if_neg hname]
      refine .map (R := fun d l => d = .sequential nested l) ⟨?_, ?_⟩ ?_
      · exact Option.map_eq_none_iff.mp
      · intro d hd
        obtain ⟨o, ho, hd⟩ := Option.map_eq_some_iff.mp hd
        obtain ⟨stages, rfl, rfl⟩ := Option.map_eq_some_iff.mp hd
        exact ⟨stages, ho, rfl⟩
      · rintro _ stages rfl
        exact ⟨stages, post, rfl, rfl⟩
  · rintro rest _ rfl
    exact ⟨inner, rest, rfl, rfl⟩

/-- A change of one branch changes what all branches accept in that branch only. -/
theorem installsAlike_branch {R : Circuit α → Circuit α → Prop} {c c' : Circuit α} (hR : R c c')
    (h : InstallsAlike R (c.install? name settings) (c'.install? name settings))
    (inputMap outputMap : List Nat) (pre post : List (Wired (Circuit α))) :
    InstallsAlike (fun l l' => ∃ front back d d', R d d' ∧
        l = front ++ ⟨inputMap, outputMap, d⟩ :: back ∧
        l' = front ++ ⟨inputMap, outputMap, d'⟩ :: back)
      (installBranch? name settings (pre ++ ⟨inputMap, outputMap, c⟩ :: post))
      (installBranch? name settings (pre ++ ⟨inputMap, outputMap, c'⟩ :: post)) := by
  induction pre with
  | nil =>
    rw [List.nil_append, List.nil_append, installBranch?, installBranch?]
    refine .or (.map h fun d d' hd => ?_) (.map (.refl _) ?_)
    · exact ⟨[], post, d, d', hd, rfl, rfl⟩
    · rintro rest _ rfl
      exact ⟨[], rest, c, c', hR, rfl, rfl⟩
  | cons branch rest ih =>
    rw [List.cons_append, List.cons_append, installBranch?, installBranch?]
    refine .or (.map (.refl _) ?_) (.map ih ?_)
    · rintro node _ rfl
      exact ⟨⟨branch.inputMap, branch.outputMap, node⟩ :: rest, post, c, c', hR, rfl, rfl⟩
    · rintro _ _ ⟨front, back, d, d', hd, rfl, rfl⟩
      exact ⟨branch :: front, back, d, d', hd, rfl, rfl⟩

/-- Two cascades of one name accept alike as soon as their stages do. -/
theorem installsAlike_sequential {own : String} {stages stages' : List (Circuit α)}
    {R : Circuit α → Circuit α → Prop}
    (h : InstallsAlike (fun l l' => R (.sequential own l) (.sequential own l'))
      (installStage? name settings stages) (installStage? name settings stages')) :
    InstallsAlike R ((Circuit.sequential own stages).install? name settings)
      ((Circuit.sequential own stages').install? name settings) := by
  rw [Circuit.install?, Circuit.install?]
  by_cases hown : own = name
  · rw [if_pos hown, if_pos hown]
    exact .refused _
  · rw [if_neg hown, if_neg hown]
    exact .map h fun _ _ hl => hl

/-- A circuit after a replacement accepts the blocks that it accepted before. -/
theorem Inlined.install? {c c' : Circuit α} (h : Inlined c c') :
    InstallsAlike Inlined (c.install? name settings) (c'.install? name settings) := by
  induction h with
  | @here own nested pre inner post =>
    refine installsAlike_sequential ?_
    refine installsAlike_append (fun front => .here) (installsAlike_nested.mono ?_)
    rintro _ _ ⟨stages, rest, rfl, rfl⟩
    exact .here
  | @stage own pre post c c' hc ih =>
    refine installsAlike_sequential (installsAlike_append (fun front => .stage hc) ?_)
    rw [installStage?, installStage?]
    refine .or (.map ih fun _ _ hd => .stage hd) (.map (.refl _) ?_)
    rintro rest _ rfl
    exact .stage hc
  | @branch own outputs pre post inputMap outputMap c c' hc ih =>
    rw [Circuit.install?, Circuit.install?]
    by_cases hown : own = name
    · rw [if_pos hown, if_pos hown]
      exact .refused _
    · rw [if_neg hown, if_neg hown]
      refine .map (installsAlike_branch hc ih inputMap outputMap pre post) ?_
      rintro _ _ ⟨front, back, d, d', hd, rfl, rfl⟩
      exact .branch hd

end Install

/-- Along a run, a circuit after a replacement does what it did before. -/
theorem inlined_follows (width : Nat) :
    Cyclic.Follows (machine α) (machine α) width Inlined where
  respond h _ hrespond := h.eval hrespond
  reset h := h.reset
  change {c c' block d} h hchange := by
    have haccepted : c.install? block.1 block.2 = some (some d) := Option.join_eq_some_iff.mp hchange
    obtain ⟨d', hd', hinlined⟩ := h.install?.accepted haccepted
    exact ⟨d', Option.join_eq_some_iff.mpr hd', hinlined⟩

end Circuit

namespace Node

variable {α : Type}

/-- The second tree is the first with a nested cascade replaced by its stages. -/
inductive Inlined : Node α → Node α → Prop where
  | here {name nested pre inner post} :
      Inlined (.sequential name (pre ++ .sequential nested inner :: post))
        (.sequential name (pre ++ (inner ++ post)))
  | stage {name pre post n n'} (h : Inlined n n') :
      Inlined (.sequential name (pre ++ n :: post)) (.sequential name (pre ++ n' :: post))
  | branch {name inputs outputs pre post inputMap outputMap n n'} (h : Inlined n n') :
      Inlined (.parallel name inputs outputs (pre ++ ⟨inputMap, outputMap, n⟩ :: post))
        (.parallel name inputs outputs (pre ++ ⟨inputMap, outputMap, n'⟩ :: post))

namespace Inlined

/-- A replacement in a tree is one in its circuit. -/
theorem circuit {n n' : Node α} (h : Inlined n n') : Circuit.Inlined n.circuit n'.circuit := by
  induction h with
  | here =>
    simp only [Node.circuit, circuitStages_eq_map, List.map_append, List.map_cons]
    exact .here
  | stage _ ih =>
    simp only [Node.circuit, circuitStages_eq_map, List.map_append, List.map_cons]
    exact .stage ih
  | branch _ ih =>
    simp only [Node.circuit, circuitBranches_eq_map, List.map_append, List.map_cons, Wired.map]
    exact .branch ih

/-- The stages of a nested cascade have its ends. -/
theorem chain_here {nested : String} {pre inner post : List (Node α)} {first : Node α}
    (hinner : (first :: inner).IsChain Feeds)
    (h : (pre ++ sequential nested (first :: inner) :: post).IsChain Feeds) :
    (pre ++ (first :: inner ++ post)).IsChain Feeds := by
  obtain ⟨hpre, hback, hjoin⟩ := List.isChain_append.mp h
  refine List.isChain_append.mpr ⟨hpre, List.isChain_append.mpr ⟨hinner, ?_, ?_⟩, ?_⟩
  · exact hback.tail
  · intro last hlast next hnext
    have hfeeds : Feeds (sequential nested (first :: inner)) next := by
      cases post with
      | nil => cases hnext
      | cons _ _ =>
        cases hnext
        exact (List.isChain_cons_cons.mp hback).1
    show last.outputCount = next.inputCount
    exact (outputCount_of_getLast? hlast).symm.trans hfeeds
  · intro last hlast next hnext
    cases hnext
    show last.outputCount = first.inputCount
    exact hjoin last hlast (sequential nested (first :: inner)) rfl

theorem ends_here {name nested : String} {pre inner post : List (Node α)} {first : Node α} :
    SameEnds (sequential name (pre ++ sequential nested (first :: inner) :: post))
      (sequential name (pre ++ (first :: inner ++ post))) := by
  constructor
  · cases pre with
    | nil => rfl
    | cons _ _ => rfl
  · -- The last stage comes after the nested cascade, or is the last one in it.
    cases hpost : post.getLast? with
    | none =>
      rw [List.getLast?_eq_none_iff.mp hpost, List.append_nil]
      cases hlast : (first :: inner).getLast? with
      | none => cases List.getLast?_eq_none_iff.mp hlast
      | some last =>
        have hspliced : (pre ++ (first :: inner)).getLast? = some last := by
          rw [List.getLast?_append, hlast, Option.some_or]
        rw [outputCount_of_getLast? hspliced, outputCount_of_getLast? List.getLast?_concat,
          outputCount_of_getLast? hlast]
    | some last =>
      have hnested : (pre ++ sequential nested (first :: inner) :: post).getLast? = some last := by
        rw [List.getLast?_append, List.getLast?_cons, hpost]
        rfl
      have hspliced : (pre ++ (first :: inner ++ post)).getLast? = some last := by
        rw [List.getLast?_append, List.getLast?_append, hpost]
        rfl
      rw [outputCount_of_getLast? hnested, outputCount_of_getLast? hspliced]

variable [Scalar α] {P : Law α → Prop}

/-- A sound tree stays sound, with the same ends. -/
theorem kept {n n' : Node α} (h : Inlined n n') (hn : Sound P n) : Kept P n n' := by
  induction h with
  | @here name nested pre inner post =>
    have hstages := hn.stages
    rw [List.forall_mem_append, List.forall_mem_cons] at hstages
    obtain ⟨hpre, hnested, hpost⟩ := hstages
    have hchain : (pre ++ sequential nested inner :: post).IsChain Feeds := hn.chain
    have hinner := hnested.stages
    cases hnested with
    | sequential _ chain =>
    refine ⟨.of_stages ?_ ?_ (chain_here chain hchain), ends_here⟩
    · exact List.append_ne_nil_of_right_ne_nil _ (List.cons_ne_nil _ _)
    · rw [List.forall_mem_append, List.forall_mem_append]
      exact ⟨hpre, hinner, hpost⟩
  | @stage name pre post n n' _ ih =>
    have hstages := hn.stages
    rw [List.forall_mem_append, List.forall_mem_cons] at hstages
    obtain ⟨hpre, hstage, hpost⟩ := hstages
    refine .sequential hn (List.rel_append ?_ (.cons (ih hstage) ?_))
    · exact List.forall₂_same.mpr fun s hs => .refl (hpre s hs)
    · exact List.forall₂_same.mpr fun s hs => .refl (hpost s hs)
  | @branch name inputs outputs pre post inputMap outputMap n n' _ ih =>
    have hnodes := hn.nodes
    rw [List.forall_mem_append, List.forall_mem_cons] at hnodes
    obtain ⟨hpre, hnode, hpost⟩ := hnodes
    refine .parallel hn rfl rfl (List.rel_append ?_ (.cons ⟨rfl, rfl, ih hnode⟩ ?_))
    · exact List.forall₂_same.mpr fun b hb => ⟨rfl, rfl, .refl (hpre b hb)⟩
    · exact List.forall₂_same.mpr fun b hb => ⟨rfl, rfl, .refl (hpost b hb)⟩

end Inlined

end Node

end MotionControl
