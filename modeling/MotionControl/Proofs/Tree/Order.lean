import MotionControl.Proofs.Tree.FaultFree

/-!
# The order of branches

Every output of a parallel node has one driver at most, so that the order in which its
branches were added makes no difference: not to whether they are accepted, not to whether the
node is complete, and not to what any cycle computes.

- `Outcome.mapM_order`: one computation on every element of a list, in either order.
- `Node.ofBranches_eq_ok_iff`: when a list of branches is accepted.
- `Node.Exclusive`: no output has two drivers, and `Node.gather_order`: then the outputs are
  gathered in either order.
- `Node.Agree`, `Node.calls_agree`: two parallel nodes that differ in the order of their
  branches only stay like this.
- `Node.Accepted.calls`: and they do not fault, be they complete or not.
- `Node.branch_order_irrelevant`: the two together.
-/

namespace MotionControl

namespace Outcome

/-! ## One computation on every element -/

variable {ε β γ : Type} {g : β → Except ε γ} {l l' : List β}

theorem mapM_eq_ok {f : β → γ} (h : ∀ b ∈ l, g b = .ok (f b)) : l.mapM g = .ok (l.map f) := by
  induction l with
  | nil => rfl
  | cons first rest ih =>
    rw [List.forall_mem_cons] at h
    rw [List.mapM_cons, h.1, ih h.2]
    rfl

theorem mapM_eq_error (h : ∃ b ∈ l, ∃ e, g b = .error e) : ∃ e, l.mapM g = .error e := by
  induction l with
  | nil =>
    obtain ⟨b, hb, _⟩ := h
    cases hb
  | cons first rest ih =>
    rw [List.mapM_cons]
    cases hfirst : g first with
    | error e => exact ⟨e, rfl⟩
    | ok c =>
      obtain ⟨b, hb, e, hfails⟩ := h
      rcases List.mem_cons.mp hb with rfl | hrest
      · rw [hfirst] at hfails
        cases hfails
      · obtain ⟨e', he'⟩ := ih ⟨b, hrest, e, hfails⟩
        refine ⟨e', ?_⟩
        rw [ok_bind, he']
        rfl

/-- A computation that succeeds on every element gives the same elements in either order.  One
that fails somewhere fails in either order, though not always in the same place. -/
theorem mapM_order [Nonempty γ] (h : l.Perm l') :
    (∃ f, (∀ b ∈ l, g b = .ok (f b)) ∧ l.mapM g = .ok (l.map f) ∧ l'.mapM g = .ok (l'.map f)) ∨
      (∃ e e', l.mapM g = .error e ∧ l'.mapM g = .error e') := by
  by_cases hall : ∀ b ∈ l, ∃ c, g b = .ok c
  · left
    choose! f hf using hall
    exact ⟨f, hf, mapM_eq_ok hf, mapM_eq_ok fun b hb => hf b (h.mem_iff.mpr hb)⟩
  · right
    push Not at hall
    obtain ⟨b, hb, hfails⟩ := hall
    cases hg : g b with
    | ok c => exact absurd hg (hfails c)
    | error e =>
      obtain ⟨e₁, h₁⟩ := mapM_eq_error ⟨b, hb, e, hg⟩
      obtain ⟨e₂, h₂⟩ := mapM_eq_error ⟨b, h.mem_iff.mp hb, e, hg⟩
      exact ⟨e₁, e₂, h₁, h₂⟩

end Outcome

/-- A branch with the node that its own became. -/
def Wired.become {β : Type} (f : Wired β → β) (b : Wired β) : Wired β :=
  ⟨b.inputMap, b.outputMap, f b⟩

namespace Node

open Outcome

variable {α : Type}

/-! ## Adding branches -/

theorem appendBranch_of_free {name : String} {inputs outputs : Signals α}
    {branches : List (Wired (Node α))} {branch : Wired (Node α)}
    (hfits : Fits inputs.length outputs.length branch) (hnodup : branch.outputMap.Nodup)
    (hfree : ∀ i ∈ branch.outputMap, i ∉ claims branches) :
    appendBranch name inputs outputs branches branch = .ok (branches ++ [branch]) := by
  have hin : checkMap (α := α) name branch.node.name .input branch.inputMap branch.node.inputCount
      inputs.length = .ok () := checkMap_eq_ok_iff.mpr ⟨hfits.inputLength, hfits.inputBound⟩
  have hout : checkMap (α := α) name branch.node.name .output branch.outputMap
      branch.node.outputCount outputs.length = .ok () :=
    checkMap_eq_ok_iff.mpr ⟨hfits.outputLength, hfits.outputBound⟩
  have hclaims : checkClaims name branch.node.name branches [] branch.outputMap = .ok () :=
    checkClaims_eq_ok_iff.mpr ⟨hnodup, fun i hi => ⟨List.not_mem_nil, hfree i hi⟩⟩
  rw [appendBranch, hin, ok_bind, hout, ok_bind, hclaims, ok_bind]

theorem nodup_claims_nil : (claims ([] : List (Wired (Node α)))).Nodup := List.nodup_nil

theorem claims_append (front back : List (Wired (Node α))) :
    claims (front ++ back) = claims front ++ claims back := List.flatMap_append

theorem claims_cons (first : Wired (Node α)) (rest : List (Wired (Node α))) :
    claims (first :: rest) = first.outputMap ++ claims rest := List.flatMap_cons

/-- Branches are accepted one after another when each of them fits and no output is claimed
twice, which says nothing of their order. -/
theorem foldlM_appendBranch_eq_ok_iff {name : String} {inputs outputs : Signals α}
    {added branches result : List (Wired (Node α))} (hadded : (claims added).Nodup) :
    branches.foldlM (appendBranch name inputs outputs) added = .ok result
      ↔ result = added ++ branches ∧ (∀ b ∈ branches, Fits inputs.length outputs.length b) ∧
        (claims (added ++ branches)).Nodup := by
  induction branches generalizing added with
  | nil =>
    rw [List.append_nil]
    constructor
    · intro h
      cases h
      exact ⟨rfl, List.forall_mem_nil _, hadded⟩
    · rintro ⟨rfl, -, -⟩
      rfl
  | cons first rest ih =>
    have hsplit : added ++ first :: rest = (added ++ [first]) ++ rest := by simp
    rw [List.foldlM_cons, List.forall_mem_cons, hsplit]
    constructor
    · intro h
      obtain ⟨next, hfirst, hrest⟩ := bind_eq_ok_iff.mp h
      obtain ⟨rfl, hfits, hnodup, hfree⟩ := appendBranch_eq_ok hfirst
      have hnext := nodup_claims_concat hadded hnodup hfree
      obtain ⟨hresult, hfit, hclaims⟩ := (ih hnext).mp hrest
      exact ⟨hresult, ⟨hfits, hfit⟩, hclaims⟩
    · rintro ⟨hresult, ⟨hfits, hfit⟩, hclaims⟩
      -- What is claimed in the end holds the claims made so far, and those of the next branch.
      have hnext : (claims (added ++ [first])).Nodup := by
        rw [claims_append] at hclaims
        exact (List.nodup_append.mp hclaims).1
      have hnow := hnext
      rw [claims_concat] at hnow
      obtain ⟨-, hnodup, hapart⟩ := List.nodup_append.mp hnow
      rw [appendBranch_of_free hfits hnodup fun i hi hmem => hapart i hmem i hi rfl, ok_bind]
      exact (ih hnext).mpr ⟨hresult, hfit, hclaims⟩

/-- What a parallel node with branches is made of. -/
theorem ofBranches_eq_ok_iff [Scalar α] {name : String} {inputs outputs : Nat}
    {branches : List (Wired (Node α))} {n : Node α} :
    ofBranches name inputs outputs branches = .ok n
      ↔ ∃ ins outs, parallelSignals name inputs outputs = .ok (ins, outs) ∧
        n = .parallel name ins outs branches ∧
        (∀ b ∈ branches, Fits ins.length outs.length b) ∧ (claims branches).Nodup := by
  constructor
  · intro h
    obtain ⟨⟨ins, outs⟩, hmade, h⟩ := bind_eq_ok_iff.mp h
    obtain ⟨result, hadded, h⟩ := bind_eq_ok_iff.mp h
    cases h
    obtain ⟨rfl, hfits, hnodup⟩ := (foldlM_appendBranch_eq_ok_iff nodup_claims_nil).mp hadded
    exact ⟨ins, outs, hmade, rfl, hfits, hnodup⟩
  · rintro ⟨ins, outs, hmade, rfl, hfits, hnodup⟩
    have hadded : branches.foldlM (appendBranch name ins outs) [] = .ok branches :=
      (foldlM_appendBranch_eq_ok_iff nodup_claims_nil).mpr ⟨rfl, hfits, hnodup⟩
    rw [ofBranches, hmade, ok_bind]
    dsimp only
    rw [hadded, ok_bind]

theorem claims_perm {branches permuted : List (Wired (Node α))} (h : branches.Perm permuted) :
    (claims branches).Perm (claims permuted) := h.flatMap_right _

/-- Whether a parallel node can run is no matter of the order of its branches. -/
theorem validate_order {name : String} {ins outs : Signals α}
    {branches permuted : List (Wired (Node α))} (h : branches.Perm permuted) :
    (parallel name ins outs branches).validate = .ok ()
      ↔ (parallel name ins outs permuted).validate = .ok () := by
  have hempty : branches = [] ↔ permuted = [] := by
    constructor
    · rintro rfl
      exact h.nil_eq.symm
    · rintro rfl
      exact h.eq_nil
  simp only [validate_parallel, ne_eq, hempty, (claims_perm h).mem_iff, h.mem_iff]

/-! ## Gathering -/

/-- Branches that fit claim outputs that are there. -/
theorem bound_of_fits {inputs outputs : Nat} {branches : List (Wired (Node α))}
    (h : ∀ b ∈ branches, Fits inputs outputs b) : ∀ i ∈ claims branches, i < outputs := by
  intro i hi
  obtain ⟨b, hb, hmem⟩ := List.mem_flatMap.mp hi
  exact (h b hb).outputBound i hmem

/-- No output has two drivers among the branches, and none of them drives an output that is
not there. -/
structure Exclusive (outputs : Nat) (branches : List (Wired (Node α))) : Prop where
  nodup : (claims branches).Nodup
  bound : ∀ i ∈ claims branches, i < outputs

/-- Branches claim what they claim, whatever becomes of their nodes. -/
theorem claims_become (f : Wired (Node α) → Node α) (branches : List (Wired (Node α))) :
    claims (branches.map (Wired.become f)) = claims branches := by
  rw [claims, List.flatMap_map]
  rfl

theorem Exclusive.become {outputs : Nat} {branches : List (Wired (Node α))}
    (h : Exclusive outputs branches) (f : Wired (Node α) → Node α) :
    Exclusive outputs (branches.map (Wired.become f)) := by
  constructor
  · rw [claims_become]
    exact h.nodup
  · rw [claims_become]
    exact h.bound

/-- Outputs are placed where they are claimed, each in a place of its own. -/
theorem placements_keys_sublist (branches : List (Wired (Node α))) :
    ((placements branches).map (·.1)).Sublist (claims branches) := by
  induction branches with
  | nil => exact List.Sublist.slnil
  | cons first rest ih =>
    rw [placements, List.flatMap_cons, List.map_append, claims_cons]
    refine List.Sublist.append ?_ ih
    rw [List.zip_eq_zip_take_min, List.map_fst_zip (by simp)]
    exact List.take_sublist _ _

/-- Gathering stops at a branch with outputs that cannot be read. -/
theorem gather_eq_error {branches : List (Wired (Node α))} {target : Signals α}
    (h : ∃ b ∈ branches, ¬ Readable b) : ∃ fault, gather target branches = .error fault := by
  induction branches generalizing target with
  | nil =>
    obtain ⟨b, hb, _⟩ := h
    cases hb
  | cons first rest ih =>
    rw [gather, List.foldlM_cons]
    cases hfirst : deliver target first with
    | error fault => exact ⟨fault, rfl⟩
    | ok next =>
      rw [ok_bind]
      obtain ⟨b, hb, hunreadable⟩ := h
      rcases List.mem_cons.mp hb with rfl | hrest
      · exact absurd (readable_of_deliver hfirst) hunreadable
      · exact ih ⟨b, hrest, hunreadable⟩

/-- Readable branches are gathered when every output that they claim is there. -/
theorem gather_of_readable {target : Signals α} {branches : List (Wired (Node α))}
    (hread : ∀ b ∈ branches, Readable b) (hbound : ∀ i ∈ claims branches, i < target.length) :
    gather target branches
      = .ok ⟨(placements branches).foldl (fun l e => l.set e.1 e.2) target.values⟩ := by
  rw [gather_eq hread]
  refine Placement.foldlM_set_eq_ok fun e he => ?_
  exact hbound e.1 ((placements_keys_sublist branches).subset (List.mem_map_of_mem he))

/-- Readable branches without a common claim are gathered into the same outputs in either
order: their writes go to different places. -/
theorem gather_order_of_readable {target : Signals α} {branches permuted : List (Wired (Node α))}
    (h : branches.Perm permuted) (hex : Exclusive target.length branches)
    (hread : ∀ b ∈ branches, Readable b) :
    ∃ gathered, gather target branches = .ok gathered ∧ gather target permuted = .ok gathered ∧
      gathered.length = target.length := by
  have hplaced : (placements branches).Perm (placements permuted) := h.flatMap_right _
  have hnodup : ((placements branches).map (·.1)).Nodup :=
    (placements_keys_sublist branches).nodup hex.nodup
  have hwrites : (placements branches).foldl (fun l e => l.set e.1 e.2) target.values
      = (placements permuted).foldl (fun l e => l.set e.1 e.2) target.values := by
    refine hplaced.foldl_eq' ?_ _
    intro e he e' he' values
    by_cases hkey : e.1 = e'.1
    · rw [List.inj_on_of_nodup_map hnodup he he' hkey]
    · exact List.set_comm _ _ hkey
  have hread' : ∀ b ∈ permuted, Readable b := fun b hb => hread b (h.mem_iff.mpr hb)
  have hbound' : ∀ i ∈ claims permuted, i < target.length := fun i hi =>
    hex.bound i ((claims_perm h).mem_iff.mpr hi)
  rw [gather_of_readable hread hex.bound, gather_of_readable hread' hbound', hwrites]
  exact ⟨_, rfl, rfl, Placement.length_foldl_set _ _⟩

theorem gather_order {target : Signals α} {branches permuted : List (Wired (Node α))}
    (h : branches.Perm permuted) (hex : Exclusive target.length branches) :
    (∃ gathered, gather target branches = .ok gathered ∧
        gather target permuted = .ok gathered ∧ gathered.length = target.length) ∨
      ∃ fault fault', gather target branches = .error fault ∧
        gather target permuted = .error fault' := by
  by_cases hread : ∀ b ∈ branches, Readable b
  · exact .inl (gather_order_of_readable h hex hread)
  · right
    push Not at hread
    obtain ⟨b, hb, hunreadable⟩ := hread
    obtain ⟨fault, hfault⟩ := gather_eq_error ⟨b, hb, hunreadable⟩
    obtain ⟨fault', hfault'⟩ := gather_eq_error ⟨b, h.mem_iff.mp hb, hunreadable⟩
    exact ⟨fault, fault', hfault, hfault'⟩

/-! ## One call to either node -/

/-- What becomes of two parallel nodes that differ in the order of their branches: both fail,
or both end with the same vectors, and every branch with the same node in one as in the
other. -/
inductive Agree (name : String) (outputs : Nat) (branches permuted : List (Wired (Node α))) :
    Except Fault (Node α) → Except Fault (Node α) → Prop where
  | done {ins outs : Signals α} (length : outs.length = outputs) (f : Wired (Node α) → Node α) :
      Agree name outputs branches permuted
        (.ok (.parallel name ins outs (branches.map (Wired.become f))))
        (.ok (.parallel name ins outs (permuted.map (Wired.become f))))
  | failed (fault fault' : Fault) :
      Agree name outputs branches permuted (.error fault) (.error fault')

theorem map_become_node (branches : List (Wired (Node α))) :
    branches.map (Wired.become (·.node)) = branches := List.map_id branches

/-- Nothing has become of any branch yet. -/
theorem Agree.start (name : String) (ins outs : Signals α)
    (branches permuted : List (Wired (Node α))) :
    Agree name outs.length branches permuted (.ok (.parallel name ins outs branches))
      (.ok (.parallel name ins outs permuted)) := by
  have h : Agree name outs.length branches permuted
      (.ok (.parallel name ins outs (branches.map (Wired.become (·.node)))))
      (.ok (.parallel name ins outs (permuted.map (Wired.become (·.node))))) := .done rfl _
  rwa [map_become_node, map_become_node] at h

/-- What becomes of branches later has become of them altogether. -/
theorem Agree.later {name : String} {outputs : Nat} {branches permuted : List (Wired (Node α))}
    {f : Wired (Node α) → Node α} {x y : Except Fault (Node α)}
    (h : Agree name outputs (branches.map (Wired.become f)) (permuted.map (Wired.become f)) x y) :
    Agree name outputs branches permuted x y := by
  cases h with
  | done length g =>
    rw [List.map_map, List.map_map]
    exact .done length fun b => g (b.become f)
  | failed fault fault' => exact .failed fault fault'

variable [Scalar α]

/-- One branch in a cycle of its parent. -/
def runBranch (inputs : Signals α) (b : Wired (Node α)) : Except Fault (Wired (Node α)) := do
  let node ← run (if b.inputMap.isEmpty then none else some (distribute inputs b.inputMap)) b.node
  .ok ⟨b.inputMap, b.outputMap, node⟩

theorem runBranches_eq_mapM (inputs : Signals α) (branches : List (Wired (Node α))) :
    runBranches inputs branches = branches.mapM (runBranch inputs) := by
  induction branches with
  | nil => rfl
  | cons first rest ih =>
    rw [runBranches, List.mapM_cons, ih, runBranch]
    cases run (if first.inputMap.isEmpty then none else some (distribute inputs first.inputMap))
        first.node with
    | error fault => rfl
    | ok node => rfl

instance : Nonempty (Wired (Node α)) := ⟨⟨[], [], .sequential "" []⟩⟩

/-- Branches do not look at each other: each becomes the same in either order. -/
theorem runBranches_order (inputs : Signals α) {branches permuted : List (Wired (Node α))}
    (h : branches.Perm permuted) :
    (∃ f, runBranches inputs branches = .ok (branches.map (Wired.become f)) ∧
        runBranches inputs permuted = .ok (permuted.map (Wired.become f))) ∨
      ∃ fault fault', runBranches inputs branches = .error fault ∧
        runBranches inputs permuted = .error fault' := by
  rw [runBranches_eq_mapM, runBranches_eq_mapM]
  obtain ⟨f, hf, hran, hran'⟩ | hfailed := mapM_order (g := runBranch inputs) h
  · left
    have hbecome : ∀ b ∈ branches, f b = Wired.become (fun b => (f b).node) b := by
      intro b hb
      obtain ⟨node, -, hnode⟩ := bind_eq_ok_iff.mp (hf b hb)
      rw [Wired.become, ← Except.ok.inj hnode]
    refine ⟨fun b => (f b).node, ?_, ?_⟩
    · rw [hran, List.map_congr_left hbecome]
    · rw [hran', List.map_congr_left fun b hb => hbecome b (h.mem_iff.mpr hb)]
  · exact .inr hfailed

theorem compute_agree (name : String) (ins : Signals α) {outs : Signals α}
    {branches permuted : List (Wired (Node α))} (h : branches.Perm permuted)
    (hex : Exclusive outs.length branches) :
    Agree name outs.length branches permuted (parallel name ins outs branches).compute
      (parallel name ins outs permuted).compute := by
  rw [compute, compute, run, run, written, ok_bind, ok_bind]
  obtain ⟨f, hran, hran'⟩ | ⟨fault, fault', hran, hran'⟩ := runBranches_order ins h
  · rw [hran, hran', ok_bind, ok_bind]
    obtain ⟨gathered, hg, hg', hlength⟩ | ⟨fault, fault', hg, hg'⟩ :=
      gather_order (h.map (Wired.become f)) (hex.become f)
    · rw [hg, hg']
      exact .done hlength f
    · rw [hg, hg']
      exact .failed fault fault'
  · rw [hran, hran']
    exact .failed fault fault'

end Node

/-- The call is not addressed to a node by its name. -/
def TreeCall.Anonymous {α : Type} : TreeCall α → Prop
  | setInputs _ | compute | reset => True
  | setParameters .. => False

namespace Node

open Outcome

variable {α : Type} [Scalar α]

theorem call_agree (name : String) (ins : Signals α) {outs : Signals α}
    {branches permuted : List (Wired (Node α))} (h : branches.Perm permuted)
    (hex : Exclusive outs.length branches) {c : TreeCall α} (hc : c.Anonymous) :
    Agree name outs.length branches permuted ((parallel name ins outs branches).call c)
      ((parallel name ins outs permuted).call c) := by
  cases c with
  | setInputs values =>
    rw [call, call, setInputs, setInputs, overInputs, overInputs]
    cases ins.copy values with
    | error fault => exact .failed fault fault
    | ok written => exact .start name written outs branches permuted
  | compute => exact compute_agree name ins h hex
  | reset =>
    rw [call, call, Node.reset, Node.reset, resetBranches_eq_map, resetBranches_eq_map]
    exact .done (Signals.length_clear outs) fun b => b.node.reset
  | setParameters name settings => exact hc.elim

theorem calls_agree (name : String) (ins : Signals α) {outs : Signals α}
    {branches permuted : List (Wired (Node α))} (h : branches.Perm permuted)
    (hex : Exclusive outs.length branches) {cs : List (TreeCall α)}
    (hcs : ∀ c ∈ cs, c.Anonymous) :
    Agree name outs.length branches permuted ((parallel name ins outs branches).calls cs)
      ((parallel name ins outs permuted).calls cs) := by
  induction cs generalizing ins outs branches permuted with
  | nil => exact .start name ins outs branches permuted
  | cons c rest ih =>
    rw [List.forall_mem_cons] at hcs
    rw [calls, calls, List.foldlM_cons, List.foldlM_cons]
    have hcall := call_agree name ins h hex hcs.1
    revert hcall
    generalize (parallel name ins outs branches).call c = x
    generalize (parallel name ins outs permuted).call c = y
    intro hcall
    cases hcall with
    | @done ins' outs' length f =>
      have hex' : Exclusive outs'.length (branches.map (Wired.become f)) := by
        rw [length]
        exact hex.become f
      rw [← length]
      exact (ih ins' (h.map _) hex' hcs.2).later
    | failed fault fault' => exact .failed fault fault'

/-! ## Branches that work -/

variable {P : Law α → Prop}

/-- Branches that a parent with so many inputs and outputs accepted, with sound nodes.  They
need not drive all of its outputs, so that the parent itself may be incomplete. -/
structure Accepted (P : Law α → Prop) (inputs outputs : Nat) (branches : List (Wired (Node α))) :
    Prop where
  nodes : ∀ b ∈ branches, Sound P b.node
  fits : ∀ b ∈ branches, Fits inputs outputs b

theorem Accepted.bound {inputs outputs : Nat} {branches : List (Wired (Node α))}
    (h : Accepted P inputs outputs branches) : ∀ i ∈ claims branches, i < outputs :=
  bound_of_fits h.fits

theorem Accepted.kept {inputs outputs : Nat} {branches branches' : List (Wired (Node α))}
    (h : Accepted P inputs outputs branches)
    (hkept : List.Forall₂ (SameWiring (Kept P)) branches branches') :
    Accepted P inputs outputs branches' where
  nodes := sound_of_keptWiring hkept
  fits := fits_congr (hkept.imp fun _ _ hb => hb.imp fun _ _ hk => hk.ends) h.fits

/-- A call to a parent of working branches succeeds, and leaves one. -/
theorem Accepted.call (hP : LawInvariant P) (hanswer : Answering P) (name : String)
    {ins outs : Signals α} {branches : List (Wired (Node α))}
    (h : Accepted P ins.length outs.length branches) {c : TreeCall α} (hc : c.Anonymous)
    (hfits : c.Fits ins.length) :
    ∃ ins' outs' branches',
      (parallel name ins outs branches).call c = .ok (parallel name ins' outs' branches') ∧
      ins'.length = ins.length ∧ outs'.length = outs.length ∧
      Accepted P ins.length outs.length branches' := by
  cases c with
  | setInputs values =>
    have hcopy : ins.copy values = .ok ⟨values⟩ := Signals.copy_of_length hfits
    refine ⟨⟨values⟩, outs, branches, ?_, hfits, rfl, h⟩
    rw [Node.call, setInputs, overInputs, hcopy]
    rfl
  | compute =>
    obtain ⟨branches', r, hran, -, hcycled⟩ :=
      (runBranches_cycled h.nodes h.fits fun b hb => (h.nodes b hb).cycle hP).answers hanswer
    have h' := h.kept hcycled.kept
    have hread : ∀ b ∈ branches', Readable b := by
      intro b hb
      obtain ⟨s, hs⟩ := (h'.nodes b hb).outputs
      exact .inr ⟨s, hs, ((h'.fits b hb).outputs_length hs).le⟩
    have hgather := gather_of_readable hread h'.bound
    refine ⟨ins, ⟨_⟩, branches', ?_, rfl,
      Placement.length_foldl_set (placements branches') outs.values, h'⟩
    rw [Node.call, compute, run, written, ok_bind, hran, ok_bind, hgather]
    rfl
  | reset =>
    refine ⟨ins.clear, outs.clear, branches.map (Wired.map Node.reset), ?_,
      Signals.length_clear ins, Signals.length_clear outs, ?_⟩
    · rw [Node.call, Node.reset, resetBranches_eq_map]
      rfl
    · exact h.kept (keptWiring_map fun b hb => (h.nodes b hb).reset hP)
  | setParameters name settings => exact hc.elim

theorem Accepted.calls (hP : LawInvariant P) (hanswer : Answering P) (name : String)
    {ins outs : Signals α} {branches : List (Wired (Node α))}
    (h : Accepted P ins.length outs.length branches) {cs : List (TreeCall α)}
    (hcs : ∀ c ∈ cs, c.Anonymous ∧ c.Fits ins.length) :
    ∃ n, (parallel name ins outs branches).calls cs = .ok n := by
  induction cs generalizing ins outs branches with
  | nil => exact ⟨_, rfl⟩
  | cons c rest ih =>
    rw [List.forall_mem_cons] at hcs
    obtain ⟨ins', outs', branches', hcall, hins, houts, h'⟩ :=
      h.call hP hanswer name hcs.1.1 hcs.1.2
    rw [Node.calls, List.foldlM_cons, hcall, ok_bind]
    rw [← hins, ← houts] at h'
    rw [← hins] at hcs
    exact ih h' hcs.2

/-! ## Either order -/

/-- A tree of typed leaves that passed `validate`, and may have been at work since. -/
def Operational (n : Node Float) : Prop :=
  ∃ m cs, Assembled TypedLeaf m ∧ m.validate = .ok () ∧ (∀ c ∈ cs, c.Fits m.inputCount) ∧
    m.calls cs = .ok n

theorem Operational.sound {n : Node Float} (h : Operational n) : Sound Law.Checked n := by
  obtain ⟨m, cs, hm, hv, hfits, hcalls⟩ := h
  obtain ⟨n', hcalls', hkept⟩ := (hm.sound_checked hv).calls Law.Checked.invariant
    Law.Checked.answering hfits
  rw [hcalls] at hcalls'
  cases hcalls'
  exact hkept.sound

theorem parallelSignals_lengths {name : String} {inputs outputs : Nat} {ins outs : Signals α}
    (h : parallelSignals name inputs outputs = .ok (ins, outs)) :
    ins.length = inputs ∧ outs.length = outputs := by
  unfold parallelSignals at h
  by_cases hz : inputs = 0 ∨ outputs = 0
  · rw [if_pos hz] at h
    cases h
  · rw [if_neg hz] at h
    obtain ⟨_, hi, h⟩ := bind_eq_ok_iff.mp h
    obtain ⟨_, ho, h⟩ := bind_eq_ok_iff.mp h
    cases h
    rw [zeroed_eq_ok hi, zeroed_eq_ok ho]
    exact ⟨List.length_replicate .., List.length_replicate ..⟩

/-- The branches of a parallel node may be added in any order.  They are accepted in one as in
the other, and the node is complete in both or in neither.  Whatever the branches are, any writing
of inputs, cycles and resets fail in both, or end with the same inputs and outputs, and with the
same node in every branch.  And branches at work do not fail: their outputs and their state are
alike. -/
theorem branch_order_irrelevant {name : String} {inputs outputs : Nat}
    {branches permuted : List (Wired (Node Float))} {n : Node Float} (hperm : branches.Perm permuted)
    (h : ofBranches name inputs outputs branches = .ok n) :
    ∃ n', ofBranches name inputs outputs permuted = .ok n' ∧
      (n.validate = .ok () ↔ n'.validate = .ok ()) ∧
      (∀ cs : List (TreeCall Float), (∀ c ∈ cs, c.Anonymous) →
        Agree name outputs branches permuted (n.calls cs) (n'.calls cs)) ∧
      ((∀ b ∈ branches, Operational b.node) →
        ∀ cs : List (TreeCall Float), (∀ c ∈ cs, c.Anonymous ∧ c.Fits inputs) →
          ∃ ins outs f,
            n.calls cs = .ok (.parallel name ins outs (branches.map (Wired.become f))) ∧
            n'.calls cs = .ok (.parallel name ins outs (permuted.map (Wired.become f)))) := by
  obtain ⟨ins, outs, hmade, rfl, hfits, hnodup⟩ := ofBranches_eq_ok_iff.mp h
  obtain ⟨hins, houts⟩ := parallelSignals_lengths hmade
  have hexclusive : Exclusive outs.length branches := ⟨hnodup, bound_of_fits hfits⟩
  have hagree : ∀ cs : List (TreeCall Float), (∀ c ∈ cs, c.Anonymous) →
      Agree name outputs branches permuted ((parallel name ins outs branches).calls cs)
        ((parallel name ins outs permuted).calls cs) := by
    rw [← houts]
    exact fun cs hcs => calls_agree name ins hperm hexclusive hcs
  refine ⟨.parallel name ins outs permuted, ?_, validate_order hperm, hagree,
    fun hnodes cs hcs => ?_⟩
  · refine ofBranches_eq_ok_iff.mpr ⟨ins, outs, hmade, rfl, ?_, ?_⟩
    · exact fun b hb => hfits b (hperm.mem_iff.mpr hb)
    · exact (claims_perm hperm).nodup_iff.mp hnodup
  · have haccepted : Accepted Law.Checked ins.length outs.length branches :=
      ⟨fun b hb => (hnodes b hb).sound, hfits⟩
    have hanonymous := hagree cs fun c hc => (hcs c hc).1
    rw [← hins] at hcs
    obtain ⟨n', hcalls⟩ :=
      haccepted.calls Law.Checked.invariant Law.Checked.answering name hcs
    rw [hcalls] at hanonymous ⊢
    revert hanonymous
    generalize (parallel name ins outs permuted).calls cs = permutedRun
    intro hanonymous
    cases hanonymous with
    | done length f => exact ⟨_, _, f, rfl, rfl⟩

/-- A relay of one signal next to the ramp, each driving what the other leaves free. -/
def rampAndRelay : List (Wired (Node Float)) :=
  [⟨[0, 1, 2], [2, 0], defaultRamp⟩, ⟨[1], [1], .leaf "relay" (.forward 1) ⟨[0]⟩ ⟨[0]⟩⟩]

theorem rampAndRelay_operational : ∀ b ∈ rampAndRelay, Operational b.node := by
  have hramp : TypedLeaf defaultRamp :=
    .speedRamp (rfl : Node.speedRamp "ramp" .default (1 : Float) = .ok defaultRamp)
  refine List.forall_mem_cons.mpr ⟨?_, List.forall_mem_singleton.mpr ?_⟩
  · exact ⟨_, [], .leaf hramp, rfl, List.forall_mem_nil _, rfl⟩
  · exact ⟨_, [], .leaf (.forward (rfl : Node.forward "relay" 1 = _)), rfl,
      List.forall_mem_nil _, rfl⟩

theorem rampAndRelay_either_order :
    ∃ n n', ofBranches "both" 3 3 rampAndRelay = .ok n ∧
      ofBranches "both" 3 3 rampAndRelay.reverse = .ok n' ∧
      (n.validate = .ok () ↔ n'.validate = .ok ()) ∧
      ∃ ins outs f,
        n.calls [.setInputs [1, 2, 3], .compute, .reset, .compute]
          = .ok (.parallel "both" ins outs (rampAndRelay.map (Wired.become f))) ∧
        n'.calls [.setInputs [1, 2, 3], .compute, .reset, .compute]
          = .ok (.parallel "both" ins outs (rampAndRelay.reverse.map (Wired.become f))) := by
  obtain ⟨n', h', hvalid, -, hrun⟩ := branch_order_irrelevant
    (List.reverse_perm rampAndRelay).symm
    (rfl : ofBranches "both" 3 3 rampAndRelay
      = .ok (.parallel "both" ⟨[0, 0, 0]⟩ ⟨[0, 0, 0]⟩ rampAndRelay))
  refine ⟨_, n', rfl, h', hvalid, hrun rampAndRelay_operational _ ?_⟩
  simp [TreeCall.Anonymous, TreeCall.Fits]

end Node

end MotionControl
