import MotionControl.Proofs.Engine.Refusal
import MotionControl.Proofs.Tree.Lookup
import MotionControl.Proofs.Tree.Parts
import MotionControl.Proofs.Tree.Plan

/-!
# Parameter blocks of one leaf

Setting a parameter block changes one part of a tree, the first one of the name, and in it nothing
but the block.  Whether it is set depends on that part and on the block alone.

- `Law.Retuned`: a law before and after another block, everything it remembers kept.
- `Node.first?`: the part that a name means.
- `Node.setParameters_at`: setting a block is installing it at that part.
- `Node.Used`, `Node.Used.sized_fed`: trees in use, and what holds of them at any time.
- `Node.retuning_is_exact_and_local`: when a block is set, and all that this changes.
-/

namespace MotionControl

open Outcome InPlace

variable {α : Type}

/-! ## Laws -/

namespace Law

/-- The law with another block: in a bank, every channel has the gains and keeps its state and its
period; a straight-line move keeps the target that it drives towards; a ramp keeps its period. -/
inductive Retuned : LawSettings α → Law α → Law α → Prop where
  | pid {gains : PidGains α} {layout : PidLayout} {channels channels' : List (Pid α)}
      (given : ∀ c ∈ channels', c.gains = gains)
      (kept : List.Forall₂ (fun c c' => c'.state = c.state ∧ c'.period = c.period)
        channels channels') :
      Retuned (.pid gains) (.pid ⟨layout, channels⟩) (.pid ⟨layout, channels'⟩)
  | straightMove {settings : StraightMoveSettings α} {f f' : StraightMove α}
      (given : f'.settings = settings) (aligned : f'.alignedOn = f.alignedOn)
      (step : f'.step = f.step) :
      Retuned (.straightMove settings) (.straightMove f) (.straightMove f')
  | speedRamp {settings : RampSettings α} {f f' : SpeedRamp α}
      (given : f'.settings = settings) (period : f'.period = f.period) :
      Retuned (.speedRamp settings) (.speedRamp f) (.speedRamp f')

variable {law law' : Law α} {settings : LawSettings α}

theorem retuned_of_install (h : law.install settings = some law') : Retuned settings law law' := by
  unfold install at h
  split at h
  · cases h
    refine .pid (by simp [Pid.withGains]) (List.forall₂_map_right_iff.mpr ?_)
    exact List.forall₂_same.mpr fun _ _ => ⟨rfl, rfl⟩
  · cases h
    exact .straightMove rfl rfl rfl
  · cases h
    exact .speedRamp rfl rfl
  · cases h

theorem Retuned.kind [Scalar α] (h : Retuned settings law law') : law.kind = settings.kind := by
  cases h with
  | pid | straightMove | speedRamp => rfl

theorem Retuned.isParameterized (h : Retuned settings law law') :
    law.isParameterized = true := by
  cases h with
  | pid | straightMove | speedRamp => rfl

end Law

/-! ## The part that a name means -/

namespace Node

variable {tree : Node α} {name : String}

/-- The first part of a name, parents before children. -/
def first? (tree : Node α) (name : String) : Option (Part α) :=
  tree.parts.find? (·.name = name)

/-- It is a node with nodes below it. -/
def Part.isComposite : Part α → Bool
  | leaf .. => false
  | sequential .. | parallel .. => true

/-- The law of a leaf. -/
def Part.law? : Part α → Option (Law α)
  | leaf _ law .. => some law
  | sequential .. | parallel .. => none

theorem laws_eq (n : Node α) : n.laws = n.parts.filterMap Part.law? := by
  induction n using induct with
  | leaf own law inputs outputs => rfl
  | sequential own stages ih =>
    rw [laws_sequential, parts, partsOfStages_eq, List.filterMap_cons_none rfl,
      List.filterMap_flatMap]
    exact List.flatMap_congr ih
  | parallel own inputs outputs branches ih =>
    rw [laws_parallel, parts, partsOfBranches_eq, List.filterMap_cons_none rfl,
      List.filterMap_flatMap]
    exact List.flatMap_congr ih

theorem first?_eq_none_iff : tree.first? name = none ↔ ∀ p ∈ tree.parts, p.name ≠ name := by
  simp [first?]

theorem first?_of_split {n : Node α} {before after : List (Part α)} (hname : n.name = name)
    (hbefore : ∀ p ∈ before, p.name ≠ name) (h : tree.parts = before ++ n.parts ++ after) :
    tree.first? name = some n.part := by
  have hskip : before.find? (·.name = name) = none := by simpa using hbefore
  rw [first?, h, n.parts_eq, List.append_assoc, List.find?_append, hskip, Option.none_or,
    List.cons_append, List.find?_cons_of_pos]
  simpa using hname

variable [Scalar α] {settings : LawSettings α}

/-- Installing a block at a node: it is set where the node is a leaf whose law takes blocks of its
kind, and it passes its check. -/
theorem install_ok_iff {n : Node α} :
    (∃ n', n.install settings = .ok n') ↔
      ∃ law inputs outputs, n.part = .leaf n.name law inputs outputs ∧ law.kind = settings.kind ∧
        settings.check = .ok () := by
  constructor
  · rintro ⟨n', h⟩
    obtain ⟨own, law, law', inputs, outputs, rfl, hcheck, hlaw, -⟩ := of_install_eq_ok h
    exact ⟨law, inputs, outputs, rfl, (Law.retuned_of_install hlaw).kind, hcheck⟩
  · rintro ⟨law, inputs, outputs, hpart, hkind, hcheck⟩
    obtain ⟨law', haccept⟩ := Law.accept?_of_kind hkind hcheck
    cases n with
    | leaf own law₀ inputs₀ outputs₀ =>
      cases hpart
      refine ⟨leaf own law' inputs outputs, ?_⟩
      rw [install, hcheck, Law.accept?_eq_some haccept]
    | sequential | parallel => cases hpart

theorem install_composite {n : Node α} (h : n.part.isComposite = true) :
    n.install settings = .error (.notParameterized n.name) := by
  cases n with
  | leaf => cases h
  | sequential | parallel => rfl

theorem install_ne_unknown (n : Node α) (settings : LawSettings α) (name : String) :
    n.install settings ≠ .error (.unknownController name) := by
  cases n with
  | leaf own law inputs outputs =>
    rw [install]
    split
    · simp
    · split
      · simp
      · split <;> simp
  | sequential | parallel => simp [install]

/-- Setting a block is installing it at the first part of the name, with everything around it. -/
theorem setParameters_at (tree : Node α) (name : String) (settings : LawSettings α) :
    (tree.first? name = none ∧
        tree.setParameters name settings = .error (.unknownController name)) ∨
      ∃ (n : Node α) (around : Node α → Node α) (before after : List (Part α)),
        n.name = name ∧ tree.find? name = some n ∧ tree.parts = before ++ n.parts ++ after ∧
        (∀ p ∈ before, p.name ≠ name) ∧ (∀ n', (around n').parts = before ++ n'.parts ++ after) ∧
        tree.setParameters name settings = (n.install settings).map around := by
  have h := search name (install settings) tree
  unfold setParameters
  generalize tree.find? name = found, tree.edit? name (install settings) = changed at h ⊢
  cases h with
  | absent unnamed => exact .inl ⟨first?_eq_none_iff.mpr unnamed, rfl⟩
  | found n around before after named unnamed split kept _ result =>
    exact .inr ⟨n, around, before, after, named, rfl, split, unnamed, kept, result⟩

variable {left : Node α}

theorem setParameters_isOk_iff :
    (∃ left, tree.setParameters name settings = .ok left) ↔
      ∃ law inputs outputs, tree.first? name = some (.leaf name law inputs outputs) ∧
        law.kind = settings.kind ∧ settings.check = .ok () := by
  obtain ⟨hnone, hset⟩ | ⟨n, around, before, after, rfl, -, hsplit, hbefore, -, hset⟩ :=
    setParameters_at tree name settings
  · simp [hnone, hset]
  · have hmap : (∃ left, (n.install settings).map around = .ok left) ↔
        ∃ n', n.install settings = .ok n' := by
      simp [map_eq_ok_iff]
    rw [hset, hmap, install_ok_iff, first?_of_split rfl hbefore hsplit]
    simp only [Option.some.injEq]

/-- A block that is set takes the place of another one, and no other part changes. -/
theorem setParameters_local (h : tree.setParameters name settings = .ok left) :
    ∃ before law law' inputs outputs after,
      tree.find? name = some (leaf name law inputs outputs) ∧
      tree.parts = before ++ .leaf name law inputs outputs :: after ∧
      (∀ p ∈ before, p.name ≠ name) ∧ Law.Retuned settings law law' ∧
      left.parts = before ++ .leaf name law' inputs outputs :: after := by
  obtain ⟨-, hset⟩ | ⟨n, around, before, after, rfl, hfound, hsplit, hbefore, hkept, hset⟩ :=
    setParameters_at tree name settings
  · rw [hset] at h
    cases h
  · rw [hset] at h
    obtain ⟨n', hinstall, rfl⟩ := map_eq_ok_iff.mp h
    obtain ⟨own, law, law', inputs, outputs, rfl, -, hlaw, rfl⟩ := of_install_eq_ok hinstall
    refine ⟨before, law, law', inputs, outputs, after, hfound, ?_, hbefore,
      Law.retuned_of_install hlaw, ?_⟩
    · rw [hsplit]
      simp [parts, name]
    · rw [hkept]
      simp [parts, name]

theorem setParameters_unknown_iff :
    tree.first? name = none ↔
      tree.setParameters name settings = .error (.unknownController name) := by
  obtain ⟨hnone, hset⟩ | ⟨n, around, before, after, rfl, -, hsplit, hbefore, -, hset⟩ :=
    setParameters_at tree name settings
  · simp [hnone, hset]
  · rw [hset, first?_of_split rfl hbefore hsplit]
    have hknown := n.install_ne_unknown settings n.name
    cases hinstall : n.install settings with
    | ok n' => simp [Except.map]
    | error reason =>
      rw [hinstall] at hknown
      simpa [Except.map] using hknown

theorem setParameters_composite {p : Part α} (h : tree.first? name = some p)
    (hcomposite : p.isComposite = true) :
    tree.setParameters name settings = .error (.notParameterized name) := by
  obtain ⟨hnone, -⟩ | ⟨n, around, before, after, rfl, -, hsplit, hbefore, -, hset⟩ :=
    setParameters_at tree name settings
  · rw [hnone] at h
    cases h
  · rw [first?_of_split rfl hbefore hsplit] at h
    cases h
    rw [hset, install_composite hcomposite]
    rfl

end Node

/-! ## Trees in use -/

namespace Law

variable {law law' : Law α} {settings : LawSettings α}

/-- A law with inputs that takes blocks shows the one in force: no bank is without channels. -/
theorem shown_of_arity (h : 0 < law.arity.1) (hparameterized : law.isParameterized = true) :
    law.settings?.isSome = true := by
  cases law with
  | pid bank =>
    obtain ⟨layout, channels⟩ := bank
    cases channels with
    | nil => cases layout <;> cases h
    | cons first rest => rfl
  | straightMove | speedRamp => rfl
  | select | forward => cases hparameterized

theorem Retuned.arity (h : Retuned settings law law') : law'.arity = law.arity := by
  cases h with
  | pid given kept => simp [Law.arity, PidBank.arity, kept.length_eq]
  | straightMove | speedRamp => rfl

end Law

namespace Node

/-- A leaf has vectors of the sizes that its law needs. -/
def Part.Sized : Part α → Prop
  | leaf _ law inputs outputs => inputs.length = law.arity.1 ∧ outputs.length = law.arity.2
  | sequential .. | parallel .. => True

theorem sized_iff (n : Node α) : n.Sized ↔ ∀ p ∈ n.parts, p.Sized := by
  induction n using induct with
  | leaf own law inputs outputs =>
    constructor
    · rintro ⟨takes, gives⟩
      exact List.forall_mem_singleton.mpr ⟨takes, gives⟩
    · intro h
      obtain ⟨takes, gives⟩ := List.forall_mem_singleton.mp h
      exact .leaf takes gives
  | sequential own stages ih =>
    rw [parts, partsOfStages_eq, List.forall_mem_cons, List.forall_mem_flatMap]
    constructor
    · intro h
      exact ⟨trivial, fun s hs => (ih s hs).mp (h.stages s hs)⟩
    · rintro ⟨-, h⟩
      exact .sequential fun s hs => (ih s hs).mpr (h s hs)
  | parallel own inputs outputs branches ih =>
    rw [parts, partsOfBranches_eq, List.forall_mem_cons, List.forall_mem_flatMap]
    constructor
    · intro h
      exact ⟨trivial, fun b hb => (ih b hb).mp (h.nodes b hb)⟩
    · rintro ⟨-, h⟩
      exact .parallel fun b hb => (ih b hb).mpr (h b hb)

/-- Every law has inputs. -/
def Fed (n : Node α) : Prop := ∀ law ∈ n.laws, 0 < law.arity.1

variable [Scalar α]

theorem fed_reset_iff {n : Node α} : n.reset.Fed ↔ n.Fed := by
  simp [Fed, laws_reset]

/-- The trees that come about where typed leaves are made, put together and used, one thing after
another in any order. -/
inductive Used : Node α → Prop where
  | leaf {n} (made : TypedLeaf n) : Used n
  | cascade {name} : Used (.sequential name [])
  | stage {name stages stages' s} (parent : Used (.sequential name stages)) (child : Used s)
      (added : appendStage stages s = .ok stages') : Used (.sequential name stages')
  | fan {name inputs outputs ins outs}
      (made : parallelSignals name inputs outputs = .ok (ins, outs)) :
      Used (.parallel name ins outs [])
  | branch {name ins outs branches branches' b} (parent : Used (.parallel name ins outs branches))
      (child : Used b.node) (added : appendBranch name ins outs branches b = .ok branches') :
      Used (.parallel name ins outs branches')
  | call {n n' c} (before : Used n) (done : n.call c = .ok n') : Used n'

variable {n n' : Node α}

theorem Fed.of_forgotten (h : n.Fed) (hforgotten : Forgotten n n') : n'.Fed := by
  rw [← fed_reset_iff, hforgotten.reset, fed_reset_iff]
  exact h

/-- Another block keeps all sizes. -/
theorem setParameters_sized_fed {name : String} {settings : LawSettings α} (hsized : n.Sized)
    (hfed : n.Fed) (h : n.setParameters name settings = .ok n') : n'.Sized ∧ n'.Fed := by
  obtain ⟨before, law, law', inputs, outputs, after, -, hparts, -, hlaw, hparts'⟩ :=
    setParameters_local h
  rw [sized_iff, hparts] at hsized
  rw [Fed, laws_eq, hparts] at hfed
  rw [sized_iff, Fed, laws_eq, hparts']
  simp only [List.filterMap_append, List.filterMap_cons, Part.law?, List.forall_mem_append,
    List.forall_mem_cons, Part.Sized, hlaw.arity] at hsized hfed ⊢
  exact ⟨hsized, hfed⟩

theorem sized_fed_of_law {name : String} {law : Law α} (h : ofLaw name law = .ok n) :
    n.Sized ∧ n.Fed := by
  obtain ⟨rfl, harity⟩ := ofLaw_eq_ok h
  exact ⟨ofLaw_sized h, List.forall_mem_singleton.mpr harity⟩

theorem TypedLeaf.sized_fed (h : TypedLeaf n) : n.Sized ∧ n.Fed := by
  obtain ⟨name, law, hlaw⟩ := h.isLeaf
  exact sized_fed_of_law hlaw

theorem Used.sized_fed (h : Used n) : n.Sized ∧ n.Fed := by
  induction h with
  | leaf made => exact made.sized_fed
  | cascade => exact ⟨.sequential (List.forall_mem_nil _), by simp [Fed]⟩
  | stage _ _ added ihparent ihchild =>
    obtain ⟨rfl, -⟩ := appendStage_eq_ok added
    refine ⟨.sequential ?_, ?_⟩
    · exact List.forall_mem_append.mpr
        ⟨ihparent.1.stages, List.forall_mem_singleton.mpr ihchild.1⟩
    · have hparent := ihparent.2
      rw [Fed, laws_sequential] at hparent ⊢
      rw [List.flatMap_append, List.flatMap_singleton, List.forall_mem_append]
      exact ⟨hparent, ihchild.2⟩
  | fan made => exact ⟨.parallel (List.forall_mem_nil _), by simp [Fed]⟩
  | branch _ _ added ihparent ihchild =>
    obtain ⟨rfl, -⟩ := appendBranch_eq_ok added
    refine ⟨.parallel ?_, ?_⟩
    · exact List.forall_mem_append.mpr
        ⟨ihparent.1.nodes, List.forall_mem_singleton.mpr ihchild.1⟩
    · have hparent := ihparent.2
      rw [Fed, laws_parallel] at hparent ⊢
      rw [List.flatMap_append, List.flatMap_singleton, List.forall_mem_append]
      exact ⟨hparent, ihchild.2⟩
  | @call n n' c _ done ih =>
    obtain ⟨hsized, hfed⟩ := ih
    cases c with
    | setInputs values =>
      have hforgotten := setInputs_forgotten hsized done
      exact ⟨hforgotten.sized, hfed.of_forgotten hforgotten⟩
    | compute =>
      have hforgotten := compute_forgotten hsized done
      exact ⟨hforgotten.sized, hfed.of_forgotten hforgotten⟩
    | reset =>
      cases done
      exact ⟨sized_reset_iff.mpr hsized, fed_reset_iff.mpr hfed⟩
    | setParameters name settings =>
      cases done
      cases hset : n.setParameters name settings with
      | ok left => exact setParameters_sized_fed hsized hfed hset
      | error reason => exact ⟨hsized, hfed⟩

variable {tree : Node α} {name : String} {settings : LawSettings α}

/-- The leaf that a name means shows its block. -/
theorem Used.parameters?_isSome (h : Used tree) {law : Law α} {inputs outputs : Signals α}
    (hfound : tree.find? name = some (Node.leaf name law inputs outputs)) (hlaw : law ∈ tree.laws)
    (hparameterized : law.isParameterized = true) : (tree.parameters? name).isSome = true := by
  rw [parameters?, hfound]
  exact Law.shown_of_arity (h.sized_fed.2 law hlaw) hparameterized

/-- Setting a parameter block, at any time in the life of a tree of typed leaves.  It succeeds
exactly where the first part of the name is a leaf whose law takes blocks of this kind, and the
block passes its check.  Then the block is read back, that leaf has it in place of its own, and
there is nothing else in which the trees before and after differ.  Without such a part, or with a
composite one, the answer says so, and whatever is refused leaves the tree as it was. -/
theorem retuning_is_exact_and_local (h : Used tree) (name : String) (settings : LawSettings α) :
    ∃ outcome left, (amend name settings).run tree = (outcome, left) ∧
      (outcome = .ok () ↔ ∃ law inputs outputs,
        tree.first? name = some (.leaf name law inputs outputs) ∧ law.kind = settings.kind ∧
          settings.check = .ok ()) ∧
      (outcome = .ok () → left.parameters? name = some settings ∧
        ∃ before law law' inputs outputs after,
          tree.parts = before ++ .leaf name law inputs outputs :: after ∧
          (∀ p ∈ before, p.name ≠ name) ∧ Law.Retuned settings law law' ∧
          left.parts = before ++ .leaf name law' inputs outputs :: after ∧
          ∀ other : Node α, other.parts = left.parts → other = left) ∧
      (tree.first? name = none ↔ outcome = .error (.unknownController name)) ∧
      (∀ p, tree.first? name = some p → p.isComposite = true →
        outcome = .error (.notParameterized name)) ∧
      (outcome ≠ .ok () → left = tree) := by
  rw [amend_run]
  refine ⟨_, _, rfl, ?_, ?_, ?_, ?_, ?_⟩
  · rw [← setParameters_isOk_iff]
    cases tree.setParameters name settings with
    | ok left => simp
    | error reason => simp
  · intro haccepted
    cases hset : tree.setParameters name settings with
    | error reason =>
      rw [hset] at haccepted
      cases haccepted
    | ok left =>
      obtain ⟨before, law, law', inputs, outputs, after, hfound, hparts, hbefore, hlaw, hleft⟩ :=
        setParameters_local hset
      refine ⟨parameters?_of_setParameters hset ?_, before, law, law', inputs, outputs, after,
        hparts, hbefore, hlaw, hleft, fun other hother => parts_injective hother⟩
      refine h.parameters?_isSome hfound ?_ hlaw.isParameterized
      simp [laws_eq, hparts, Part.law?]
  · rw [setParameters_unknown_iff]
    cases tree.setParameters name settings with
    | ok left => simp
    | error reason => simp
  · intro p hfirst hcomposite
    rw [setParameters_composite hfirst hcomposite]
  · intro hrefused
    cases hset : tree.setParameters name settings with
    | ok left =>
      rw [hset] at hrefused
      exact absurd rfl hrefused
    | error reason => rfl

/-- A controller that has added up an error of three. -/
def gain (gains : PidGains Float) : Node Float :=
  .leaf "gain" (.pid ⟨.error, [⟨gains, ⟨3, 3⟩, 1⟩]⟩) ⟨[3]⟩ ⟨[3]⟩

/-- Two of them in a row, of one name, after a cycle. -/
def twins : Node Float := .sequential "loop" [gain (.ofIntegral 1), gain (.ofIntegral 1)]

theorem twins_used : Used twins := by
  have hgain : Node.pid "gain" 1 .error (.ofIntegral 1) (1 : Float)
      = .ok (.leaf "gain" (.pid ⟨.error, [⟨.ofIntegral 1, .zero, 1⟩]⟩) ⟨[0]⟩ ⟨[0]⟩) := rfl
  have hfirst : Used (.sequential "loop" [_]) := .stage .cascade (.leaf (.pid hgain)) rfl
  have hboth : Used (.sequential "loop" [_, _]) := .stage hfirst (.leaf (.pid hgain)) rfl
  have hset : Used _ := hboth.call (c := .setInputs [3]) rfl
  exact hset.call (c := .compute) rfl

/-- Only the first of the two has other gains, and it has not lost what it added up. -/
theorem twins_are_retuned_apart :
    ∃ left, (amend "gain" (.pid (.ofProportional 2))).run twins = (.ok (), left) ∧
      left.parameters? "gain" = some (.pid (.ofProportional 2)) ∧
      left = .sequential "loop" [gain (.ofProportional 2), gain (.ofIntegral 1)] := by
  obtain ⟨outcome, left, hrun, haccepted, hexact, -⟩ :=
    retuning_is_exact_and_local twins_used "gain" (.pid (.ofProportional 2))
  obtain rfl := haccepted.mpr ⟨_, _, _, rfl, rfl, rfl⟩
  obtain ⟨hread, -⟩ := hexact rfl
  have hleft : (amend "gain" (.pid (.ofProportional 2))).run twins
      = (.ok (), .sequential "loop" [gain (.ofProportional 2), gain (.ofIntegral 1)]) := rfl
  exact ⟨left, hrun, hread, (Prod.mk.inj (hrun.symm.trans hleft)).2⟩

end Node

end MotionControl
