import MotionControl.Control.Node.Access
import MotionControl.Control.Node.Cycle

/-!
# Runs of cyclic machines

A controller tree, the circuit that it stands for and a cascade of loops all answer a
vector of inputs with a vector of outputs, cycle after cycle.  Between two cycles they
may be reset or changed.

- `Round`: what happens to a machine, once.
- `Cyclic`: a machine, and `Cyclic.play`: a run of it.
- `Cyclic.Projects`, `Cyclic.play_of_projects`: a machine that does in each round what a part of
  another does gives the outputs of that part over a whole run.
- `Cyclic.Follows`, `Cyclic.play_of_follows`: a machine that answers each round like
  another gives the same outputs over a whole run.
- `Cyclic.play_answers`, `Cyclic.play_concat_cycle`: runs of machines that always respond, and the
  last round of a run.
- `Cyclic.fixed`, `Cyclic.play_total`: machines that are not changed, and always respond.
- `Node.machine`: a controller tree as a machine, changed by parameter blocks.
-/

namespace MotionControl

/-- One thing that happens to a machine: a cycle on new inputs, a reset, or a change. -/
inductive Round (α κ : Type) where
  | cycle (inputs : List α)
  | reset
  | change (what : κ)

/-- The inputs of a round, if it has any, are as many as the machine takes. -/
def Round.Fits {α κ : Type} (width : Nat) : Round α κ → Prop
  | cycle inputs => inputs.length = width
  | reset | change _ => True

/-- The same round on inputs that are picked from its own. -/
def Round.mapInputs {α κ : Type} (pick : List α → List α) : Round α κ → Round α κ
  | cycle inputs => cycle (pick inputs)
  | reset => reset
  | change what => change what

theorem Round.mapInputs_id {α κ : Type} : (mapInputs id : Round α κ → Round α κ) = id := by
  funext round
  cases round with
  | cycle | reset | change => rfl

/-- A machine with states `S`.  It may fault in a cycle, and it may refuse a change. -/
structure Cyclic (α κ S : Type) where
  respond : S → List α → Option (List α × S)
  reset : S → S
  change : S → κ → Option S

namespace Cyclic

variable {α κ S T : Type}

/-- The outputs of every cycle of a run, and the state after it.  There is neither when
a cycle faults or a change is refused. -/
def play (m : Cyclic α κ S) : S → List (Round α κ) → Option (List (List α) × S)
  | s, [] => some ([], s)
  | s, .cycle inputs :: rest =>
    (m.respond s inputs).bind fun first =>
      (play m first.2 rest).map fun others => (first.1 :: others.1, others.2)
  | s, .reset :: rest => play m (m.reset s) rest
  | s, .change what :: rest => (m.change s what).bind fun s => play m s rest

/-- In states related by `R`, and on inputs of the given width, the second machine does whatever a
part of the first does, the one that `pick` picks inputs for and `view` shows the outputs of. -/
structure Projects (m : Cyclic α κ S) (m' : Cyclic α κ T) (width : Nat)
    (pick view : List α → List α) (R : S → T → Prop) : Prop where
  respond {s t inputs outputs s'} : R s t → inputs.length = width →
    m.respond s inputs = some (outputs, s') →
    ∃ t', m'.respond t (pick inputs) = some (view outputs, t') ∧ R s' t'
  reset {s t} : R s t → R (m.reset s) (m'.reset t)
  change {s t what s'} : R s t → m.change s what = some s' →
    ∃ t', m'.change t what = some t' ∧ R s' t'

/-- In states related by `R`, and on inputs of the given width, the second machine does
whatever the first does, and the states after it are related again. -/
structure Follows (m : Cyclic α κ S) (m' : Cyclic α κ T) (width : Nat) (R : S → T → Prop) :
    Prop where
  respond {s t inputs outputs s'} : R s t → inputs.length = width →
    m.respond s inputs = some (outputs, s') →
    ∃ t', m'.respond t inputs = some (outputs, t') ∧ R s' t'
  reset {s t} : R s t → R (m.reset s) (m'.reset t)
  change {s t what s'} : R s t → m.change s what = some s' →
    ∃ t', m'.change t what = some t' ∧ R s' t'

section Runs

variable {m : Cyclic α κ S} {m' : Cyclic α κ T} {width : Nat} {R : S → T → Prop}
  {rounds : List (Round α κ)} {s s' : S} {t : T} {outputs : List (List α)}

/-- What holds of each round holds of a run. -/
theorem play_of_projects {pick view : List α → List α} (h : Projects m m' width pick view R)
    (hR : R s t) (hfits : ∀ r ∈ rounds, r.Fits width)
    (hplay : m.play s rounds = some (outputs, s')) :
    ∃ t', m'.play t (rounds.map (.mapInputs pick)) = some (outputs.map view, t') ∧ R s' t' := by
  -- The states are general: each round leaves related ones to the rest.
  induction rounds generalizing s t outputs with
  | nil =>
    cases hplay
    exact ⟨t, rfl, hR⟩
  | cons round rest ih =>
    rw [List.forall_mem_cons] at hfits
    rw [List.map_cons]
    cases round with
    | cycle inputs =>
      obtain ⟨⟨first, s₁⟩, hrespond, hplay⟩ := Option.bind_eq_some_iff.mp hplay
      obtain ⟨⟨others, s₂⟩, hrest, heq⟩ := Option.map_eq_some_iff.mp hplay
      cases heq
      obtain ⟨t₁, hrespond', hR₁⟩ := h.respond hR hfits.1 hrespond
      obtain ⟨t', hplay', hR'⟩ := ih hR₁ hfits.2 hrest
      refine ⟨t', ?_, hR'⟩
      rw [Round.mapInputs, play, hrespond', Option.bind_some, hplay', Option.map_some, List.map_cons]
    | reset => exact ih (h.reset hR) hfits.2 hplay
    | change what =>
      obtain ⟨s₁, hchange, hplay⟩ := Option.bind_eq_some_iff.mp hplay
      obtain ⟨t₁, hchange', hR₁⟩ := h.change hR hchange
      obtain ⟨t', hplay', hR'⟩ := ih hR₁ hfits.2 hplay
      refine ⟨t', ?_, hR'⟩
      rw [Round.mapInputs, play, hchange', Option.bind_some, hplay']

theorem play_of_follows (h : Follows m m' width R) (hR : R s t)
    (hfits : ∀ r ∈ rounds, r.Fits width) (hplay : m.play s rounds = some (outputs, s')) :
    ∃ t', m'.play t rounds = some (outputs, t') ∧ R s' t' := by
  have hprojects : Projects m m' width id id R := ⟨h.respond, h.reset, h.change⟩
  have hrun := play_of_projects hprojects hR hfits hplay
  rw [Round.mapInputs_id, List.map_id, List.map_id] at hrun
  exact hrun

/-- A machine that always responds has a run of every list of rounds, as long as it accepts the
changes in it. -/
theorem play_answers {I : S → Prop} {Accepted : κ → Prop}
    (hrespond : ∀ s inputs, I s → inputs.length = width → ∃ r, m.respond s inputs = some r ∧ I r.2)
    (hreset : ∀ s, I s → I (m.reset s))
    (hchange : ∀ s what, I s → Accepted what → ∃ s', m.change s what = some s' ∧ I s')
    (hs : I s) (hfits : ∀ r ∈ rounds, r.Fits width)
    (haccepted : ∀ what, .change what ∈ rounds → Accepted what) :
    ∃ r, m.play s rounds = some r ∧ I r.2 := by
  induction rounds generalizing s with
  | nil => exact ⟨_, rfl, hs⟩
  | cons round rest ih =>
    rw [List.forall_mem_cons] at hfits
    have hrest : ∀ what, .change what ∈ rest → Accepted what := fun what hmem =>
      haccepted what (List.mem_cons_of_mem _ hmem)
    cases round with
    | cycle inputs =>
      obtain ⟨first, hfirst, hI⟩ := hrespond s inputs hs hfits.1
      obtain ⟨others, hothers, hI'⟩ := ih hI hfits.2 hrest
      refine ⟨(first.1 :: others.1, others.2), ?_, hI'⟩
      rw [play, hfirst, Option.bind_some, hothers, Option.map_some]
    | reset => exact ih (hreset s hs) hfits.2 hrest
    | change what =>
      obtain ⟨s₁, hs₁, hI⟩ := hchange s what hs (haccepted what List.mem_cons_self)
      obtain ⟨r, hr, hI'⟩ := ih hI hfits.2 hrest
      refine ⟨r, ?_, hI'⟩
      rw [play, hs₁, Option.bind_some, hr]

/-- The last cycle of a run begins in the state that the run before it left. -/
theorem play_concat_cycle {inputs : List α}
    (h : m.play s (rounds ++ [.cycle inputs]) = some (outputs, s')) :
    ∃ before s₁ last, m.play s rounds = some (before, s₁) ∧
      m.respond s₁ inputs = some (last, s') := by
  induction rounds generalizing s outputs with
  | nil =>
    obtain ⟨⟨last, s₁⟩, hrespond, h⟩ := Option.bind_eq_some_iff.mp h
    cases h
    exact ⟨[], s, last, rfl, hrespond⟩
  | cons round rest ih =>
    cases round with
    | cycle first =>
      obtain ⟨⟨outputs, s₁⟩, hfirst, h⟩ := Option.bind_eq_some_iff.mp h
      obtain ⟨⟨others, s₂⟩, hrest, heq⟩ := Option.map_eq_some_iff.mp h
      cases heq
      obtain ⟨before, s₂, last, hbefore, hlast⟩ := ih hrest
      refine ⟨outputs :: before, s₂, last, ?_, hlast⟩
      rw [play, hfirst, Option.bind_some, hbefore, Option.map_some]
    | reset => exact ih h
    | change what =>
      obtain ⟨s₁, hchange, h⟩ := Option.bind_eq_some_iff.mp h
      obtain ⟨before, s₂, last, hbefore, hlast⟩ := ih h
      refine ⟨before, s₂, last, ?_, hlast⟩
      rw [play, hchange, Option.bind_some, hbefore]

end Runs

/-! ## Machines that are not changed -/

/-- The machine with no changes to make. -/
def fixed (m : Cyclic α κ S) : Cyclic α Empty S where
  respond := m.respond
  reset := m.reset
  change _ what := nomatch what

theorem Follows.fixed {m : Cyclic α κ S} {m' : Cyclic α κ T} {width : Nat} {R : S → T → Prop}
    (h : Follows m m' width R) : Follows m.fixed m'.fixed width R where
  respond := h.respond
  reset := h.reset
  change {_ _ what} := nomatch what

/-- A machine that always responds has a run of every list of rounds. -/
theorem play_total {m : Cyclic α Empty S} {width : Nat} {I : S → Prop}
    (hrespond : ∀ s inputs, I s → inputs.length = width → ∃ r, m.respond s inputs = some r ∧ I r.2)
    (hreset : ∀ s, I s → I (m.reset s)) {rounds : List (Round α Empty)} {s : S} (hs : I s)
    (hfits : ∀ r ∈ rounds, r.Fits width) : ∃ r, m.play s rounds = some r := by
  have hchange : ∀ s what, I s → True → ∃ s', m.change s what = some s' ∧ I s' := fun _ what =>
    nomatch what
  obtain ⟨r, hr, -⟩ := play_answers hrespond hreset hchange hs hfits fun _ _ => trivial
  exact ⟨r, hr⟩

end Cyclic

/-- A controller tree as a machine.  A change installs a parameter block at a name. -/
def Node.machine (α : Type) [Scalar α] : Cyclic α (String × LawSettings α) (Node α) where
  respond n inputs := (n.respond inputs).toOption.map fun (outputs, n) => (outputs.values, n)
  reset := Node.reset
  change n block := (n.setParameters block.1 block.2).toOption

end MotionControl
