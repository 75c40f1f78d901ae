import Mathlib.Data.List.Induction
import Mathlib.Data.List.Nodup
import MotionControl.Proofs.Outcome
import MotionControl.Proofs.Tree.Shape

/-!
# Picking and placing signals

A branch of a parallel node picks some of its parent's inputs, and its outputs are
placed among those of the parent, one write after another.

- `Placement.mapM_pick`: signals that are there can be picked, and `Node.distribute_eq`: a branch
  has its share written one input after another.
- `Placement.foldlM_set`: writes to distinct places that leave no place out decide the
  whole vector, whatever stood in it before.
- `Node.Readable`, `Node.deliver_eq`, `Node.readable_of_deliver`: a branch delivers its outputs one
  after another, and stops at one that it does not have.
- `Node.gather_placed`: the outputs of branches that claim every output once decide those of their
  parent.
-/

namespace MotionControl

open Outcome

theorem Signals.copy_of_length {α : Type} {s : Signals α} {values : List α}
    (h : values.length = s.length) : s.copy values = .ok ⟨values⟩ := if_pos h

namespace Placement

variable {α : Type}

/-! ## Picking -/

/-- Signals that are there can be picked, and no others come along. -/
theorem mapM_pick {values : List α} {indices : List Nat} (h : ∀ i ∈ indices, i < values.length) :
    ∃ picked, indices.mapM (values[·]?) = some picked ∧ picked.length = indices.length := by
  induction indices with
  | nil => exact ⟨[], rfl, rfl⟩
  | cons index rest ih =>
    rw [List.forall_mem_cons] at h
    obtain ⟨picked, hsome, hlength⟩ := ih h.2
    have hindex : values[index]? = some values[index] := List.getElem?_eq_getElem h.1
    refine ⟨values[index] :: picked, ?_, congrArg (· + 1) hlength⟩
    rw [List.mapM_cons, hindex, hsome]
    rfl

/-! ## Placing -/

/-- A list, rebuilt from what is known of each of its places. -/
theorem mapM_range {f : Nat → Option α} {values : List α}
    (h : ∀ i < values.length, f i = values[i]?) :
    (List.range values.length).mapM f = some values := by
  -- From the back, as the range ends in the last place.
  induction values using List.reverseRecOn with
  | nil => rfl
  | append_singleton values last ih =>
    have hbefore : ∀ i < values.length, f i = values[i]? := by
      intro i hi
      rw [h i (by rw [List.length_append]; omega), List.getElem?_append_left hi]
    have hlast : f values.length = some last := by
      rw [h _ (by rw [List.length_append]; exact Nat.lt_succ_self _),
        List.getElem?_concat_length]
    rw [List.length_append, List.length_singleton, List.range_succ, List.mapM_append,
      ih hbefore, List.mapM_cons, hlast]
    rfl

theorem length_foldl_set (entries : List (Nat × α)) (values : List α) :
    (entries.foldl (fun l e => l.set e.1 e.2) values).length = values.length := by
  induction entries generalizing values with
  | nil => rfl
  | cons entry rest ih => rw [List.foldl_cons, ih, List.length_set]

/-- What stands at a place after writes to distinct places: the value written there, or
what stood there before. -/
theorem getElem?_foldl_set {entries : List (Nat × α)} {values : List α}
    (hnodup : (entries.map (·.1)).Nodup) (hbound : ∀ e ∈ entries, e.1 < values.length) (i : Nat) :
    (entries.foldl (fun l e => l.set e.1 e.2) values)[i]?
      = (entries.lookup i).or values[i]? := by
  induction entries generalizing values with
  | nil => rfl
  | cons entry rest ih =>
    rw [List.map_cons, List.nodup_cons] at hnodup
    rw [List.forall_mem_cons] at hbound
    have hrest : ∀ e ∈ rest, e.1 < (values.set entry.1 entry.2).length := by
      rw [List.length_set]
      exact hbound.2
    rw [List.foldl_cons, ih hnodup.2 hrest]
    by_cases hi : i = entry.1
    · -- The keys are distinct, so that no later write comes here.
      have hnone : rest.lookup i = none := by
        refine List.lookup_eq_none_iff.mpr fun e he => ?_
        rw [hi]
        simpa using fun heq => hnodup.1 (List.mem_map.mpr ⟨e, he, heq.symm⟩)
      rw [hnone, hi, List.getElem?_set_self hbound.1, List.lookup_cons, beq_self_eq_true]
      rfl
    · rw [List.getElem?_set_ne (Ne.symm hi), List.lookup_cons, beq_false_of_ne hi]

/-- Writes to places that are there succeed. -/
theorem foldlM_set_eq_ok {entries : List (Nat × α)} {s : Signals α}
    (hbound : ∀ e ∈ entries, e.1 < s.length) :
    entries.foldlM (fun s e => s.set e.1 e.2) s
      = .ok (ε := Fault) ⟨entries.foldl (fun l e => l.set e.1 e.2) s.values⟩ := by
  induction entries generalizing s with
  | nil => rfl
  | cons entry rest ih =>
    rw [List.forall_mem_cons] at hbound
    have hset : s.set entry.1 entry.2 = .ok ⟨s.values.set entry.1 entry.2⟩ :=
      if_pos hbound.1
    have hrest : ∀ e ∈ rest, e.1 < Signals.length ⟨s.values.set entry.1 entry.2⟩ := by
      rw [Signals.length_set hset]
      exact hbound.2
    rw [List.foldlM_cons, hset]
    exact ih hrest

/-- Writes to distinct places that leave no place out decide the whole vector: it holds at
every place what was written there. -/
theorem foldlM_set {entries : List (Nat × α)} {s : Signals α}
    (hnodup : (entries.map (·.1)).Nodup) (hbound : ∀ e ∈ entries, e.1 < s.length)
    (hcover : ∀ i < s.length, i ∈ entries.map (·.1)) :
    ∃ placed, (List.range s.length).mapM (entries.lookup ·) = some placed ∧
      placed.length = s.length ∧
      entries.foldlM (fun s e => s.set e.1 e.2) s = .ok (ε := Fault) ⟨placed⟩ := by
  obtain ⟨placed, hplaced⟩ :
      ∃ placed, placed = entries.foldl (fun l e => l.set e.1 e.2) s.values := ⟨_, rfl⟩
  have hlength : placed.length = s.length := by
    rw [hplaced]
    exact length_foldl_set entries s.values
  refine ⟨placed, ?_, hlength, ?_⟩
  · rw [← hlength]
    refine mapM_range fun i hi => ?_
    rw [hlength] at hi
    rw [hplaced, getElem?_foldl_set hnodup hbound]
    obtain ⟨entry, hentry, hkey⟩ := List.mem_map.mp (hcover i hi)
    have hsome : (entries.lookup i).isSome :=
      List.lookup_isSome_iff.mpr ⟨entry, hentry, beq_iff_eq.mpr hkey.symm⟩
    -- Every place has an entry: what stood there before does not show.
    rw [Option.or_of_isSome hsome]
  · rw [hplaced]
    exact foldlM_set_eq_ok hbound

end Placement

namespace Node

variable {α : Type}

/-! ## The inputs of a branch -/

/-- The inputs behind the first ones, written one after another. -/
theorem foldlM_distribute (front : List α) {values rest picked : List α} {inputMap : List Nat}
    (hpicked : inputMap.mapM (values[·]?) = some picked) (hlength : rest.length = inputMap.length) :
    (inputMap.zipIdx front.length).foldlM (takeInput ⟨values⟩) ⟨front ++ rest⟩
      = .ok ⟨front ++ picked⟩ := by
  -- What has been written stands in front, and grows by one signal with every write.
  induction inputMap generalizing front rest picked with
  | nil =>
    cases hpicked
    rw [List.eq_nil_of_length_eq_zero hlength]
    rfl
  | cons index inputMap ih =>
    obtain _ | ⟨old, rest⟩ := rest
    · cases hlength
    rw [List.mapM_cons] at hpicked
    obtain ⟨v, hv, hpicked⟩ := Option.bind_eq_some_iff.mp hpicked
    obtain ⟨others, hothers, hpicked⟩ := Option.bind_eq_some_iff.mp hpicked
    cases hpicked
    have hget : Signals.get ⟨values⟩ index = .ok v := by
      rw [Signals.get, hv]
    have hlt : front.length < Signals.length ⟨front ++ old :: rest⟩ := by
      simp [Signals.length]
    have hset : Signals.set ⟨front ++ old :: rest⟩ front.length v = .ok ⟨front ++ v :: rest⟩ := by
      rw [Signals.set, if_pos hlt]
      simp
    have hnext := ih (front ++ [v]) hothers (Nat.succ.inj hlength)
    rw [List.length_append, List.append_assoc, List.append_assoc] at hnext
    rw [List.zipIdx_cons, List.foldlM_cons, takeInput, hget, ok_bind, hset, ok_bind]
    exact hnext

/-- The share of a branch, when it fills the vector. -/
theorem distribute_eq {values picked : List α} {inputMap : List Nat} {target : Signals α}
    (hpicked : inputMap.mapM (values[·]?) = some picked)
    (hlength : target.length = inputMap.length) :
    distribute ⟨values⟩ inputMap target = .ok ⟨picked⟩ :=
  foldlM_distribute [] hpicked hlength

/-! ## The outputs of branches -/

/-- The outputs of a branch. -/
def produced (b : Wired (Node α)) : List α :=
  match b.node.outputs with
  | .ok s => s.values
  | .error _ => []

/-- The outputs of branches with the places where they go, in the order of their writing. -/
def placements (branches : List (Wired (Node α))) : List (Nat × α) :=
  branches.flatMap fun b => b.outputMap.zip (produced b)

theorem produced_eq {b : Wired (Node α)} {s : Signals α} (h : b.node.outputs = .ok s) :
    produced b = s.values := by
  rw [produced, h]

/-- The outputs of a branch can be read, one for each entry of its map. -/
def Readable (b : Wired (Node α)) : Prop :=
  b.outputMap = [] ∨ ∃ s, b.node.outputs = .ok s ∧ b.outputMap.length ≤ s.length

/-- The outputs of a branch from one place on, delivered one after another. -/
theorem foldlM_deliver {outputs : Except Fault (Signals α)} {s : Signals α} (hs : outputs = .ok s)
    {outputMap : List Nat} {k : Nat} (hlength : k + outputMap.length ≤ s.length)
    (target : Signals α) :
    (outputMap.zipIdx k).foldlM (driveOutput outputs) target
      = (outputMap.zip (s.values.drop k)).foldlM (fun t e => t.set e.1 e.2) target := by
  induction outputMap generalizing k target with
  | nil => rfl
  | cons index outputMap ih =>
    rw [List.length_cons] at hlength
    have hk : k < s.values.length := by
      show k < s.length
      omega
    have hget : s.get k = .ok s.values[k] := by
      rw [Signals.get, List.getElem?_eq_getElem hk]
    have hrest : k + 1 + outputMap.length ≤ s.length := by omega
    rw [List.zipIdx_cons, List.foldlM_cons, List.drop_eq_getElem_cons hk, List.zip_cons_cons,
      List.foldlM_cons, driveOutput, hs, ok_bind, hget, ok_bind, ← hs]
    exact congrArg (target.set index _ >>= ·) (funext fun t => ih hrest t)

/-- A branch that can be read writes its outputs to their places. -/
theorem deliver_eq {b : Wired (Node α)} (h : Readable b) (target : Signals α) :
    deliver target b
      = (b.outputMap.zip (produced b)).foldlM (fun t e => t.set e.1 e.2) target := by
  rcases h with hempty | ⟨s, hs, hlength⟩
  · -- A branch without connections is not read at all, and has no entries.
    rw [deliver, hempty]
    rfl
  · rw [produced_eq hs]
    exact foldlM_deliver hs ((Nat.zero_add _).trans_le hlength) target

/-- What was delivered had been read. -/
theorem readable_of_foldlM {outputs : Except Fault (Signals α)} {outputMap : List Nat} {k : Nat}
    {target delivered : Signals α}
    (h : (outputMap.zipIdx k).foldlM (driveOutput outputs) target = .ok delivered) :
    outputMap = [] ∨ ∃ s, outputs = .ok s ∧ k + outputMap.length ≤ s.length := by
  induction outputMap generalizing k target with
  | nil => exact .inl rfl
  | cons index outputMap ih =>
    right
    rw [List.zipIdx_cons, List.foldlM_cons] at h
    obtain ⟨next, hfirst, hrest⟩ := bind_eq_ok_iff.mp h
    obtain ⟨s, hs, hfirst⟩ := bind_eq_ok_iff.mp hfirst
    obtain ⟨v, hv, -⟩ := bind_eq_ok_iff.mp hfirst
    have hk : k < s.length := by
      rw [Signals.get] at hv
      split at hv
      case h_1 hsome => exact (List.getElem?_eq_some_iff.mp hsome).1
      case h_2 => cases hv
    refine ⟨s, hs, ?_⟩
    rw [List.length_cons]
    rcases ih hrest with rfl | ⟨s', hs', hlength⟩
    · exact hk
    · obtain rfl : s = s' := Except.ok.inj (hs.symm.trans hs')
      omega

theorem readable_of_deliver {b : Wired (Node α)} {target delivered : Signals α}
    (h : deliver target b = .ok delivered) : Readable b := by
  rcases readable_of_foldlM h with hempty | ⟨s, hs, hlength⟩
  · exact .inl hempty
  · exact .inr ⟨s, hs, (Nat.zero_add _).symm.trans_le hlength⟩

/-- Gathering is writing all outputs of all branches. -/
theorem gather_eq {branches : List (Wired (Node α))} (h : ∀ b ∈ branches, Readable b)
    (target : Signals α) :
    gather target branches = (placements branches).foldlM (fun s e => s.set e.1 e.2) target := by
  induction branches generalizing target with
  | nil => rfl
  | cons first rest ih =>
    rw [List.forall_mem_cons] at h
    rw [placements, List.flatMap_cons, List.foldlM_append, ← deliver_eq h.1]
    show deliver target first >>= (gather · rest) = _
    exact congrArg (deliver target first >>= ·) (funext fun t => ih h.2 t)

theorem placements_keys {branches : List (Wired (Node α))}
    (h : ∀ b ∈ branches, b.outputMap.length = (produced b).length) :
    (placements branches).map (·.1) = claims branches := by
  rw [placements, claims, List.map_flatMap]
  refine List.flatMap_congr fun b hb => ?_
  exact List.map_fst_zip (Nat.le_of_eq (h b hb))

/-- A branch that fits has an output for each entry of its map. -/
theorem Fits.outputs_length {inputs outputs : Nat} {b : Wired (Node α)} (h : Fits inputs outputs b)
    {s : Signals α} (hs : b.node.outputs = .ok s) : b.outputMap.length = s.length := by
  rw [h.outputLength, outputCount, hs]

/-- Branches that fit, claim every output and claim none twice decide the outputs of
their parent, whatever these were before. -/
theorem gather_placed {inputs : Nat} {target : Signals α} {branches : List (Wired (Node α))}
    (houtputs : ∀ b ∈ branches, ∃ s, b.node.outputs = .ok s)
    (hfits : ∀ b ∈ branches, Fits inputs target.length b) (hnodup : (claims branches).Nodup)
    (hcover : ∀ i < target.length, i ∈ claims branches) :
    ∃ placed, (List.range target.length).mapM ((placements branches).lookup ·) = some placed ∧
      placed.length = target.length ∧ gather target branches = .ok ⟨placed⟩ := by
  have hkeys : (placements branches).map (·.1) = claims branches := by
    refine placements_keys fun b hb => ?_
    obtain ⟨s, hs⟩ := houtputs b hb
    rw [(hfits b hb).outputs_length hs, produced_eq hs]
    rfl
  have hread : ∀ b ∈ branches, Readable b := by
    intro b hb
    obtain ⟨s, hs⟩ := houtputs b hb
    exact .inr ⟨s, hs, ((hfits b hb).outputs_length hs).le⟩
  rw [gather_eq hread]
  refine Placement.foldlM_set (by rw [hkeys]; exact hnodup) ?_ (by rw [hkeys]; exact hcover)
  intro e he
  have hmem : e.1 ∈ claims branches := by
    rw [← hkeys]
    exact List.mem_map_of_mem he
  obtain ⟨b, hb, hi⟩ := List.mem_flatMap.mp hmem
  exact (hfits b hb).outputBound e.1 hi

end Node

end MotionControl
