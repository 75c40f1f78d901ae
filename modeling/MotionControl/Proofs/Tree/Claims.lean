import MotionControl.Control.Node.Fan
import MotionControl.InPlace
import MotionControl.Proofs.Tree.Order

/-!
# Claims on the outputs of a parallel node

The table of a parallel node says which child drives which output.  It is looked up when a child is
added and when the node is checked, and it is right because every addition keeps it so: a child is
turned down before the first entry is written, or all its entries are.

- `Fan.Tidy`: children, connections and table agree, and no output has two drivers.
- `Fan.claimant?_eq`, `Fan.checkClaims_eq`: the table tells what a search through the children would.
- `Fan.attach_run`: an attempt adds a branch to the node, or leaves the node as it is.
- `Fan.Tidy.attachAll`: agreement is kept by any attempts, accepted or not.
- `Fan.checkComplete_eq`: the check of the table is the check of the finished node.
- `Fan.ofBranches_eq`: a node made of branches is one that was given them one after another.
- `Fan.claims_are_exact`: all this, for every node and any attempts.
-/

namespace MotionControl

open Outcome InPlace

namespace Fan

variable {α : Type} {fan : Fan α} {b : Wired (Node α)}

/-! ## Children and connections -/

theorem branch_iff {k : Nat} :
    fan.branches[k]? = some b ↔
      fan.children[k]? = some b.node ∧ fan.mappings[k]? = some ⟨b.inputMap, b.outputMap⟩ := by
  obtain ⟨inputMap, outputMap, node⟩ := b
  rw [branches, List.getElem?_zipWith]
  cases fan.children[k]? with
  | none => simp
  | some child =>
    cases fan.mappings[k]? with
    | none => simp
    | some m =>
      obtain ⟨inputMap', outputMap'⟩ := m
      simp only [Option.some.injEq, Wired.mk.injEq, Mapping.mk.injEq]
      constructor
      · rintro ⟨rfl, rfl, rfl⟩
        exact ⟨rfl, rfl, rfl⟩
      · rintro ⟨rfl, rfl, rfl⟩
        exact ⟨rfl, rfl, rfl⟩

/-- The claims of all children together. -/
theorem claims_branches (h : fan.mappings.length = fan.children.length) :
    Node.claims fan.branches = fan.mappings.flatMap (·.outputMap) := by
  have hmap : fan.branches.map (·.outputMap) = fan.mappings.map (·.outputMap) := by
    refine List.ext_getElem (by simp [branches, h]) ?_
    simp [branches]
  rw [Node.claims, List.flatMap_def, hmap, ← List.flatMap_def]

/-! ## Agreement -/

/-- Children, connections and table agree: every child fits, no output is claimed twice, and the
table has each output under the child that claims it. -/
structure Tidy (fan : Fan α) : Prop where
  paired : fan.mappings.length = fan.children.length
  tabled : fan.owners.length = fan.outputs.length
  fits : ∀ b ∈ fan.branches, Node.Fits fan.inputs.length fan.outputs.length b
  exclusive : (Node.claims fan.branches).Nodup
  owner : ∀ i k, fan.owners[i]? = some (some k) ↔
    ∃ m : Mapping, fan.mappings[k]? = some m ∧ i ∈ m.outputMap

theorem opened_eq_ok [Scalar α] {name : String} {inputs outputs : Nat}
    (h : opened name inputs outputs = .ok fan) :
    fan.Tidy ∧ fan.name = name ∧ fan.inputs.length = inputs ∧ fan.outputs.length = outputs := by
  obtain ⟨⟨ins, outs⟩, hsignals, h⟩ := bind_eq_ok_iff.mp h
  cases h
  obtain ⟨hins, houts⟩ := Node.parallelSignals_lengths hsignals
  refine ⟨⟨rfl, ?_, List.forall_mem_nil _, List.nodup_nil, ?_⟩, rfl, hins, houts⟩
  · rw [List.length_replicate, houts]
  · intro i k
    simp [List.getElem?_replicate]

theorem Tidy.mem_claims_iff (h : fan.Tidy) {i : Nat} :
    i ∈ Node.claims fan.branches ↔ ∃ k, fan.owners[i]? = some (some k) := by
  rw [claims_branches h.paired, List.mem_flatMap]
  constructor
  · rintro ⟨m, hm, hi⟩
    obtain ⟨k, hk⟩ := List.getElem?_of_mem hm
    exact ⟨k, (h.owner i k).mpr ⟨m, hk, hi⟩⟩
  · rintro ⟨k, hk⟩
    obtain ⟨m, hm, hi⟩ := (h.owner i k).mp hk
    exact ⟨m, List.mem_of_getElem? hm, hi⟩

/-- An output that is there is claimed, or the table has nobody for it. -/
theorem Tidy.free_iff (h : fan.Tidy) {i : Nat} (hi : i < fan.outputs.length) :
    fan.owners[i]? = some none ↔ i ∉ Node.claims fan.branches := by
  obtain ⟨owner, howner⟩ : ∃ owner, fan.owners[i]? = some owner :=
    ⟨_, List.getElem?_eq_getElem (h.tabled.symm ▸ hi)⟩
  rw [h.mem_claims_iff, howner]
  cases owner with
  | none => simp
  | some k => simp

/-! ## Looking up -/

/-- The table names the child that a search through the branches would find. -/
theorem claimant?_eq (h : fan.Tidy) {child : String} {earlier : List Nat} {i : Nat}
    (hi : i < fan.outputs.length) :
    fan.claimant? child earlier i = .ok (match Node.driver? fan.branches i with
      | some b => some b.node.name
      | none => if earlier.contains i then some child else none) := by
  unfold claimant?
  cases hdriver : Node.driver? fan.branches i with
  | none =>
    have hfree := (h.free_iff hi).mpr (Node.driver?_eq_none_iff.mp hdriver)
    rw [entry, hfree]
    rfl
  | some b =>
    have hclaims : i ∈ b.outputMap := by simpa using List.find?_some hdriver
    obtain ⟨k, hk⟩ := List.getElem?_of_mem (List.mem_of_find?_eq_some hdriver)
    obtain ⟨hchild, hmapping⟩ := branch_iff.mp hk
    have howner := (h.owner i k).mpr ⟨_, hmapping, hclaims⟩
    rw [entry, howner, ok_bind]
    dsimp only
    rw [entry, hchild]
    rfl

theorem checkClaims_eq (h : fan.Tidy) {child : String} {earlier map : List Nat}
    (hmap : ∀ i ∈ map, i < fan.outputs.length) :
    fan.checkClaims child earlier map
      = (Node.checkClaims fan.name child fan.branches earlier map).mapError .refused := by
  induction map generalizing earlier with
  | nil => rfl
  | cons i rest ih =>
    rw [List.forall_mem_cons] at hmap
    rw [checkClaims, Node.checkClaims, claimant?_eq h hmap.1, ok_bind]
    cases Node.driver? fan.branches i with
    | some b => rfl
    | none =>
      dsimp only
      by_cases hearlier : earlier.contains i
      · rw [if_pos hearlier, if_pos hearlier]
        rfl
      · rw [if_neg hearlier, if_neg hearlier]
        exact ih hmap.2

/-! ## Handing over outputs -/

/-- A table after some of its entries went to the child in this place. -/
def handed (k : Nat) (map : List Nat) (owners : List (Option Nat)) : List (Option Nat) :=
  map.foldl (fun owners i => owners.set i (some k)) owners

@[simp] theorem length_handed (k : Nat) (map : List Nat) (owners : List (Option Nat)) :
    (handed k map owners).length = owners.length := by
  induction map generalizing owners with
  | nil => rfl
  | cons i rest ih => rw [handed, List.foldl_cons, ← handed, ih, List.length_set]

theorem getElem?_handed {k : Nat} {map : List Nat} {owners : List (Option Nat)}
    (h : ∀ i ∈ map, i < owners.length) (i : Nat) :
    (handed k map owners)[i]? = if i ∈ map then some (some k) else owners[i]? := by
  induction map generalizing owners with
  | nil => rfl
  | cons first rest ih =>
    rw [List.forall_mem_cons] at h
    rw [handed, List.foldl_cons, ← handed, ih (by simpa using h.2)]
    by_cases hlater : i ∈ rest
    · simp [hlater]
    · by_cases hfirst : i = first
      · simp [hfirst, h.1]
      · simp [hlater, hfirst, List.getElem?_set_ne (Ne.symm hfirst)]

/-- No entry is written past the end of the table. -/
theorem ownAll_run {k : Nat} {map : List Nat} (h : ∀ i ∈ map, i < fan.owners.length) :
    (ownAll k map).run fan = (.ok (), { fan with owners := handed k map fan.owners }) := by
  induction map generalizing fan with
  | nil => rfl
  | cons first rest ih =>
    rw [List.forall_mem_cons] at h
    have hfirst : (own k first).run fan
        = (.ok (), { fan with owners := fan.owners.set first (some k) }) := by
      rw [own, run_bind, run_get]
      dsimp only
      rw [if_pos h.1]
      rfl
    rw [ownAll, run_bind, hfirst]
    exact ih (by simpa using h.2)

/-! ## Attempts -/

/-- The node with one more child. -/
def grown (fan : Fan α) (b : Wired (Node α)) : Fan α where
  name := fan.name
  inputs := fan.inputs
  outputs := fan.outputs
  children := fan.children ++ [b.node]
  mappings := fan.mappings ++ [⟨b.inputMap, b.outputMap⟩]
  owners := handed fan.children.length b.outputMap fan.owners

/-- An attempt to add a child adds its branch, or refuses it in the same words and leaves the node
as it is. -/
theorem attach_run (h : fan.Tidy) (b : Wired (Node α)) :
    (attach b).run fan = settle fan
      (((Node.appendBranch fan.name fan.inputs fan.outputs fan.branches b).map
        fun _ => fan.grown b).mapError .refused) := by
  unfold attach Node.appendBranch
  rw [run_bind, run_get]
  dsimp only
  cases hinputs : Node.checkMap (α := α) fan.name b.node.name .input b.inputMap b.node.inputCount
    fan.inputs.length with
  | error reason => rfl
  | ok _ =>
    cases houtputs : Node.checkMap (α := α) fan.name b.node.name .output b.outputMap
      b.node.outputCount fan.outputs.length with
    | error reason => rfl
    | ok _ =>
      have hbound : ∀ i ∈ b.outputMap, i < fan.outputs.length :=
        (Node.checkMap_eq_ok_iff.mp houtputs).2
      rw [checkClaims_eq h hbound]
      -- The table is written only when every claim has been looked up in it.
      cases Node.checkClaims fan.name b.node.name fan.branches [] b.outputMap with
      | error reason => rfl
      | ok _ =>
        have howned : (ownAll fan.children.length b.outputMap).run fan = _ :=
          ownAll_run (by rwa [h.tabled])
        show (ownAll fan.children.length b.outputMap >>= _).run fan = _
        rw [run_bind, howned]
        rfl

theorem branches_grown (h : fan.Tidy) (b : Wired (Node α)) :
    (fan.grown b).branches = fan.branches ++ [b] := by
  rw [branches, grown, List.zipWith_append h.paired.symm]
  rfl

theorem Tidy.grown (h : fan.Tidy) (hfits : Node.Fits fan.inputs.length fan.outputs.length b)
    (hnodup : b.outputMap.Nodup) (hfree : ∀ i ∈ b.outputMap, i ∉ Node.claims fan.branches) :
    (fan.grown b).Tidy := by
  have hbranches := branches_grown h b
  refine ⟨?_, ?_, ?_, ?_, ?_⟩
  · simp [Fan.grown, h.paired]
  · simp [Fan.grown, h.tabled]
  · rw [hbranches]
    exact List.forall_mem_append.mpr ⟨h.fits, List.forall_mem_singleton.mpr hfits⟩
  · rw [hbranches]
    exact Node.nodup_claims_concat h.exclusive hnodup hfree
  · intro i k
    have hbound : ∀ i ∈ b.outputMap, i < fan.owners.length := by
      rw [h.tabled]
      exact hfits.outputBound
    show (handed fan.children.length b.outputMap fan.owners)[i]? = _ ↔
      ∃ m, (fan.mappings ++ [⟨b.inputMap, b.outputMap⟩])[k]? = some m ∧ i ∈ m.outputMap
    have hmappings : ∀ m, (fan.mappings ++ [⟨b.inputMap, b.outputMap⟩])[k]? = some m ↔
        fan.mappings[k]? = some m ∨ k = fan.children.length ∧ m = ⟨b.inputMap, b.outputMap⟩ := by
      intro m
      rw [← h.paired]
      grind
    simp only [getElem?_handed hbound, hmappings, or_and_right, exists_or, ← h.owner]
    -- What the new child claims was nobody's, so that its entries are its own and no other's.
    by_cases hi : i ∈ b.outputMap
    · have hnobody : ¬ fan.owners[i]? = some (some k) := by
        intro howner
        exact hfree i hi (h.mem_claims_iff.mpr ⟨k, howner⟩)
      simp [hi, hnobody, eq_comm]
    · simp [hi]

/-- What a child has to be for it to be added. -/
structure Admissible (fan : Fan α) (b : Wired (Node α)) : Prop where
  fits : Node.Fits fan.inputs.length fan.outputs.length b
  nodup : b.outputMap.Nodup
  free : ∀ i ∈ b.outputMap, i ∉ Node.claims fan.branches

theorem attach_cases (h : fan.Tidy) (b : Wired (Node α)) :
    fan.Admissible b ∧ (attach b).run fan = (.ok (), fan.grown b) ∨
      ¬ fan.Admissible b ∧ ∃ reason, (attach b).run fan = (.error (.refused reason), fan) := by
  rw [attach_run h]
  cases hadded : Node.appendBranch fan.name fan.inputs fan.outputs fan.branches b with
  | ok branches =>
    obtain ⟨-, hfits, hnodup, hfree⟩ := Node.appendBranch_eq_ok hadded
    exact .inl ⟨⟨hfits, hnodup, hfree⟩, rfl⟩
  | error reason =>
    refine .inr ⟨?_, reason, rfl⟩
    rintro ⟨hfits, hnodup, hfree⟩
    rw [Node.appendBranch_of_free hfits hnodup hfree] at hadded
    cases hadded

/-- The node after attempts, one after another. -/
def attachAll (fan : Fan α) (attempts : List (Wired (Node α))) : Fan α :=
  attempts.foldl (fun fan b => ((attach b).run fan).2) fan

/-- The node keeps its name and its signals. -/
structure Same (fan fan' : Fan α) : Prop where
  name : fan'.name = fan.name
  inputs : fan'.inputs = fan.inputs
  outputs : fan'.outputs = fan.outputs

theorem Tidy.attach (h : fan.Tidy) (b : Wired (Node α)) :
    ((attach b).run fan).2.Tidy ∧ fan.Same ((Fan.attach b).run fan).2 := by
  obtain ⟨⟨hfits, hnodup, hfree⟩, hrun⟩ | ⟨-, reason, hrun⟩ := attach_cases h b
  · rw [hrun]
    exact ⟨h.grown hfits hnodup hfree, rfl, rfl, rfl⟩
  · rw [hrun]
    exact ⟨h, rfl, rfl, rfl⟩

theorem Tidy.attachAll (h : fan.Tidy) (attempts : List (Wired (Node α))) :
    (fan.attachAll attempts).Tidy ∧ fan.Same (fan.attachAll attempts) := by
  induction attempts generalizing fan with
  | nil => exact ⟨h, rfl, rfl, rfl⟩
  | cons first rest ih =>
    obtain ⟨hfirst, hsame⟩ := h.attach first
    obtain ⟨hlast, hsame'⟩ := ih hfirst
    exact ⟨hlast, hsame'.name.trans hsame.name, hsame'.inputs.trans hsame.inputs,
      hsame'.outputs.trans hsame.outputs⟩

/-! ## Completeness -/

theorem Tidy.isNone_owner (h : fan.Tidy) {i : Nat} (hi : i < fan.owners.length) :
    fan.owners[i].isNone = (Node.driver? fan.branches i).isNone := by
  have hfree := h.free_iff (h.tabled ▸ hi)
  rw [List.getElem?_eq_getElem hi, Option.some_inj, ← Node.driver?_eq_none_iff,
    ← Option.isNone_iff_eq_none, ← Option.isNone_iff_eq_none] at hfree
  exact Bool.eq_iff_iff.mpr hfree

/-- The first gap in the table is the least output without a driver. -/
theorem findIdx?_owners (h : fan.Tidy) :
    fan.owners.findIdx? Option.isNone = Node.undriven? fan.outputs fan.branches := by
  ext i
  rw [Node.undriven?, List.findIdx?_eq_some_iff_getElem, List.find?_range_eq_some, ← h.tabled]
  constructor
  · rintro ⟨hi, hnone, hbefore⟩
    refine ⟨h.isNone_owner hi ▸ hnone, List.mem_range.mpr hi, fun j hj => ?_⟩
    rw [← h.isNone_owner (hj.trans hi)]
    exact Bool.not_iff_not.mpr (hbefore j hj)
  · rintro ⟨hnone, hi, hbefore⟩
    have hi := List.mem_range.mp hi
    refine ⟨hi, h.isNone_owner hi ▸ hnone, fun j hj => ?_⟩
    rw [h.isNone_owner (hj.trans hi)]
    exact Bool.not_iff_not.mp (hbefore j hj)

/-- The check of the table is the check of the finished node. -/
theorem checkComplete_eq (h : fan.Tidy) :
    fan.checkComplete = Node.checkComplete fan.name fan.outputs fan.branches := by
  rw [checkComplete, findIdx?_owners h]
  rfl

theorem Tidy.claims_bound (h : fan.Tidy) {i : Nat} (hi : i ∈ Node.claims fan.branches) :
    i < fan.outputs.length := by
  obtain ⟨b, hb, hib⟩ := List.mem_flatMap.mp hi
  exact (h.fits b hb).outputBound i hib

/-- A complete node claims its outputs, each of them once. -/
theorem checkComplete_eq_ok_iff (h : fan.Tidy) :
    fan.checkComplete = .ok () ↔
      (Node.claims fan.branches).Perm (List.range fan.outputs.length) := by
  rw [checkComplete_eq h, Node.checkComplete_eq_ok_iff,
    List.perm_ext_iff_of_nodup h.exclusive List.nodup_range]
  simp only [List.mem_range]
  constructor
  · intro hall i
    exact ⟨h.claims_bound, hall i⟩
  · intro hsame i hi
    exact (hsame i).mpr hi

/-- An incomplete node reports the least output that is missing. -/
theorem least_of_checkComplete (h : fan.Tidy) {reason : WiringError α}
    (hcheck : fan.checkComplete = .error reason) :
    ∃ i < fan.outputs.length, reason = .outputUnclaimed fan.name i ∧
      i ∉ Node.claims fan.branches ∧ ∀ j < i, j ∈ Node.claims fan.branches := by
  rw [checkComplete_eq h, Node.checkComplete] at hcheck
  cases hundriven : Node.undriven? fan.outputs fan.branches with
  | none =>
    rw [hundriven] at hcheck
    cases hcheck
  | some i =>
    rw [hundriven] at hcheck
    cases hcheck
    obtain ⟨hnone, hi, hbefore⟩ := List.find?_range_eq_some.mp hundriven
    refine ⟨i, List.mem_range.mp hi, rfl, ?_, fun j hj => ?_⟩
    · exact Node.driver?_eq_none_iff.mp (Option.isNone_iff_eq_none.mp hnone)
    · by_contra hfree
      have hdriver := Node.driver?_eq_none_iff.mpr hfree
      simpa [hdriver] using hbefore j hj

/-! ## The finished node -/

/-- Attempts one after another, up to the first that is refused, come to what adding branches to the
finished node comes to. -/
theorem run_forM_attach (h : fan.Tidy) (branches : List (Wired (Node α))) :
    ((forM branches attach).run fan).1.map (fun _ => ((forM branches attach).run fan).2.toNode)
      = ((branches.foldlM (Node.appendBranch fan.name fan.inputs fan.outputs) fan.branches).map
          (Node.parallel fan.name fan.inputs fan.outputs)).mapError .refused := by
  induction branches generalizing fan with
  | nil => rfl
  | cons first rest ih =>
    rw [List.forM_cons, run_bind, attach_run h, List.foldlM_cons]
    cases hadded : Node.appendBranch fan.name fan.inputs fan.outputs fan.branches first with
    | error reason => rfl
    | ok branches =>
      obtain ⟨rfl, hfits, hnodup, hfree⟩ := Node.appendBranch_eq_ok hadded
      have hrest := ih (h.grown hfits hnodup hfree)
      rw [branches_grown h] at hrest
      exact hrest

/-- A node with branches is one that was opened and given them. -/
theorem ofBranches_eq [Scalar α] {name : String} {inputs outputs : Nat} {fan₀ : Fan α}
    (hopened : opened name inputs outputs = .ok fan₀) (branches : List (Wired (Node α))) :
    (Node.ofBranches name inputs outputs branches).mapError .refused
      = ((forM branches attach).run fan₀).1.map
          (fun _ => ((forM branches attach).run fan₀).2.toNode) := by
  have hrun := run_forM_attach (opened_eq_ok hopened).1 branches
  obtain ⟨⟨ins, outs⟩, hsignals, hfan⟩ := bind_eq_ok_iff.mp hopened
  cases hfan
  rw [Node.ofBranches, hsignals]
  exact hrun.symm

/-- The check of the whole node asks the table. -/
theorem validate_toNode (h : fan.Tidy) :
    fan.toNode.validate = (do
      if fan.branches.isEmpty then .error (.empty fan.name)
      fan.checkComplete
      Node.validateBranches fan.branches) := by
  rw [checkComplete_eq h]
  rfl

/-! ## All attempts -/

/-- The outputs of a parallel node, after any attempts to add children to it.  A child is added
just where its maps fit and its outputs are free, and otherwise the attempt is refused, with no
trace in the node.  Every child has maps of the right lengths that stay within the node, no output
is claimed twice, and the table has each output under the child that claims it.  So the node is
complete when its claims are its outputs, each of them once, and if it is not, the least output
that is missing is reported.

The node that comes of it asks the table when it is checked, and a node that is made of branches at
once is one that was given them one after another. -/
theorem claims_are_exact [Scalar α] {name : String} {inputs outputs : Nat} {fan₀ : Fan α}
    (hopened : opened name inputs outputs = .ok fan₀) {attempts : List (Wired (Node α))}
    (hreached : fan₀.attachAll attempts = fan) :
    (∀ b, (fan.Admissible b ∧ (attach b).run fan = (.ok (), fan.grown b)) ∨
        ¬ fan.Admissible b ∧ ∃ reason, (attach b).run fan = (.error (.refused reason), fan)) ∧
      fan.inputs.length = inputs ∧ fan.outputs.length = outputs ∧
      fan.mappings.length = fan.children.length ∧ fan.owners.length = outputs ∧
      (∀ (k : Nat) (child : Node α) (m : Mapping),
        fan.children[k]? = some child → fan.mappings[k]? = some m →
        m.inputMap.length = child.inputCount ∧ (∀ i ∈ m.inputMap, i < inputs) ∧
        m.outputMap.length = child.outputCount ∧ ∀ i ∈ m.outputMap, i < outputs) ∧
      (fan.mappings.flatMap (·.outputMap)).Nodup ∧
      (∀ i k : Nat, fan.owners[i]? = some (some k) ↔
        ∃ m : Mapping, fan.mappings[k]? = some m ∧ i ∈ m.outputMap) ∧
      (fan.checkComplete = .ok () ↔
        (fan.mappings.flatMap (·.outputMap)).Perm (List.range outputs)) ∧
      (∀ reason, fan.checkComplete = .error reason →
        ∃ i < outputs, reason = .outputUnclaimed name i ∧
          i ∉ fan.mappings.flatMap (·.outputMap) ∧
          ∀ j < i, j ∈ fan.mappings.flatMap (·.outputMap)) ∧
      fan.toNode.validate = (do
        if fan.branches.isEmpty then .error (.empty name)
        fan.checkComplete
        Node.validateBranches fan.branches) ∧
      ∀ branches, (Node.ofBranches name inputs outputs branches).mapError .refused
        = ((forM branches attach).run fan₀).1.map
            (fun _ => ((forM branches attach).run fan₀).2.toNode) := by
  have hmade := ofBranches_eq hopened
  obtain ⟨hempty, rfl, rfl, rfl⟩ := opened_eq_ok hopened
  obtain ⟨htidy, hname, hins, houts⟩ := hempty.attachAll attempts
  rw [hreached] at htidy hname hins houts
  rw [← hname, ← hins, ← houts, ← claims_branches htidy.paired]
  refine ⟨attach_cases htidy, rfl, rfl, htidy.paired, htidy.tabled, ?_, htidy.exclusive,
    htidy.owner, checkComplete_eq_ok_iff htidy, fun _ => least_of_checkComplete htidy,
    validate_toNode htidy, ?_⟩
  · intro k child m hchild hm
    obtain ⟨hinputs, hinputBound, houtputs, houtputBound⟩ :=
      htidy.fits ⟨m.inputMap, m.outputMap, child⟩
        (List.mem_of_getElem? (branch_iff.mpr ⟨hchild, hm⟩))
    exact ⟨hinputs, hinputBound, houtputs, houtputBound⟩
  · rw [hname, hins, houts]
    exact hmade

/-- A relay of one signal that takes the only input. -/
def relay (name : String) (output : Nat) : Wired (Node Float) :=
  ⟨[0], [output], .leaf name (.forward 1) ⟨[0]⟩ ⟨[0]⟩⟩

/-- The second of three relays wants what the first has, and nobody wants the output between. -/
theorem quarrel_leaves_a_gap :
    ∃ fan : Fan Float,
      attachAll ⟨"split", ⟨[0]⟩, ⟨[0, 0, 0]⟩, [], [], [none, none, none]⟩
        [relay "first" 2, relay "second" 2, relay "third" 0] = fan ∧
      fan.children = [(relay "first" 2).node, (relay "third" 0).node] ∧
      fan.owners = [some 1, none, some 0] ∧
      ¬ (fan.mappings.flatMap (·.outputMap)).Perm (List.range 3) ∧
      ∃ i < 3, fan.checkComplete = .error (.outputUnclaimed "split" i) ∧
        i ∉ fan.mappings.flatMap (·.outputMap) := by
  refine ⟨_, rfl, rfl, rfl, ?_⟩
  obtain ⟨-, -, -, -, -, -, -, -, hcomplete, hleast, -, -⟩ :=
    claims_are_exact (rfl : opened "split" 1 3 = .ok _)
      (rfl : attachAll _ [relay "first" 2, relay "second" 2, relay "third" 0] = _)
  obtain ⟨i, hi, hreason, hfree, -⟩ := hleast _ rfl
  refine ⟨fun hperm => ?_, i, hi, congrArg _ hreason, hfree⟩
  cases hcomplete.mpr hperm

end Fan

end MotionControl
