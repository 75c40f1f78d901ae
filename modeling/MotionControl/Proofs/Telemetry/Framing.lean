import Mathlib.Data.List.Induction
import MotionControl.Proofs.Telemetry.Exchange
import MotionControl.Proofs.Telemetry.Records
import MotionControl.Telemetry.Lines

/-!
# Records on lines of their own

A sink that writes lines goes on after a failure, and its writer may refuse a character or a flush
at any time and take others later.  What such a writer has taken, read by lines:

- `Delivery`: the four ends of a publication, and the text that each of them leaves.
- `LineWriter.publications`: what becomes of snapshots that are sent one after another.
- `LineWriter.published_lines`: which line each record is on, and when it has that line for itself.
-/

namespace MotionControl

-- Records are not opened in this module: all that matters is that each is a single line.
attribute [local irreducible] Snapshot.record

/-! ## Lines -/

/-- The complete lines of a text, each up to its line end. -/
def linesOf (text : List Char) : List (List Char) := (text.splitOn '\n').dropLast

/-- What a text has after its last line end. -/
def unfinishedOf (text : List Char) : List Char :=
  (text.splitOn '\n').getLast (List.splitOn_ne_nil '\n' text)

section Lines

variable {piece : List Char}

@[simp] theorem linesOf_nil : linesOf [] = [] := rfl

@[simp] theorem unfinishedOf_nil : unfinishedOf [] = [] := rfl

/-- A text is its lines, and what comes after the last line end. -/
theorem splitOn_eq (text : List Char) : text.splitOn '\n' = linesOf text ++ [unfinishedOf text] :=
  (List.dropLast_append_getLast (List.splitOn_ne_nil '\n' text)).symm

/-- It falls into them in one way only. -/
theorem lines_of_splitOn {text : List Char} {lines : List (List Char)}
    (h : text.splitOn '\n' = lines ++ [piece]) :
    linesOf text = lines ∧ unfinishedOf text = piece := by
  rw [splitOn_eq] at h
  obtain ⟨hlines, hpiece⟩ := List.append_inj' h rfl
  exact ⟨hlines, List.singleton_inj.mp hpiece⟩

/-- A text ends in a piece of a line, which may be empty. -/
theorem exists_last_line (text : List Char) :
    ∃ piece, '\n' ∉ piece ∧ (text = piece ∨ ∃ front, text = front ++ '\n' :: piece) := by
  induction text using List.reverseRecOn with
  | nil => exact ⟨[], by simp, .inl rfl⟩
  | append_singleton text c ih =>
    by_cases hc : c = '\n'
    · subst hc
      exact ⟨[], by simp, .inr ⟨text, rfl⟩⟩
    · obtain ⟨piece, hpiece, hend⟩ := ih
      refine ⟨piece ++ [c], by simp [hpiece, Ne.symm hc], ?_⟩
      rcases hend with rfl | ⟨front, rfl⟩
      · exact .inl rfl
      · exact .inr ⟨front, by simp⟩

/-- A piece without a line end goes on with the line that is not finished. -/
theorem lines_append (text : List Char) (h : '\n' ∉ piece) :
    linesOf (text ++ piece) = linesOf text ∧
      unfinishedOf (text ++ piece) = unfinishedOf text ++ piece := by
  apply lines_of_splitOn
  obtain ⟨last, hlast, hend⟩ := exists_last_line text
  have hboth : (last ++ piece).splitOn '\n' = [last ++ piece] :=
    List.splitOn_eq_singleton (by simp [hlast, h])
  rcases hend with rfl | ⟨front, rfl⟩
  · have hsplit : text.splitOn '\n' = [] ++ [text] := List.splitOn_eq_singleton hlast
    obtain ⟨hlines, hpiece⟩ := lines_of_splitOn hsplit
    rw [hlines, hpiece, hboth, List.nil_append]
  · have hsplit : (front ++ '\n' :: last).splitOn '\n' = front.splitOn '\n' ++ [last] := by
      rw [List.splitOn_append_cons_self, List.splitOn_eq_singleton hlast]
    obtain ⟨hlines, hpiece⟩ := lines_of_splitOn hsplit
    rw [hlines, hpiece, List.append_assoc, List.cons_append, List.splitOn_append_cons_self, hboth]

/-- A line end finishes the line. -/
theorem lines_append_newline (text : List Char) :
    linesOf (text ++ ['\n']) = linesOf text ++ [unfinishedOf text] ∧
      unfinishedOf (text ++ ['\n']) = [] := by
  apply lines_of_splitOn
  rw [List.splitOn_append_cons_self, splitOn_eq, List.splitOn_nil]

end Lines

namespace LineWriter

variable {τ : Type}

/-! ## What a writer takes -/

/-- A writer that also notes the text that it takes. -/
def noting (w : LineWriter τ) : LineWriter (τ × List Char) where
  put c t :=
    match w.put c t.1 with
    | (.ok (), state) => (.ok (), state, t.2 ++ [c])
    | (.error reason, state) => (.error reason, state, t.2)
  flush t := ((w.flush t.1).1, (w.flush t.1).2, t.2)

/-- A writer that notes writes as it does without, and notes a front part of the text: all of it
if nothing is refused, and not all of it otherwise. -/
theorem write_noting (w : LineWriter τ) (text : List Char) (state : τ) :
    ∃ part, part <+: text ∧ ((w.write text state).1 = .ok () ↔ part = text) ∧
      ∀ noted, w.noting.write text (state, noted)
        = ((w.write text state).1, (w.write text state).2, noted ++ part) := by
  induction text generalizing state with
  | nil => exact ⟨[], List.prefix_refl [], by simp [write], by simp [write]⟩
  | cons c rest ih =>
    rcases hput : w.put c state with ⟨reason | ⟨⟩, state'⟩
    · refine ⟨[], List.nil_prefix, ?_, ?_⟩
      · simp [write, hput]
      · intro noted
        simp [write, noting, hput]
    · obtain ⟨part, hfront, hall, hnoting⟩ := ih state'
      refine ⟨c :: part, List.cons_prefix_cons.mpr ⟨rfl, hfront⟩, ?_, ?_⟩
      · simpa [write, hput] using hall
      · intro noted
        have hstep : w.noting.put c (state, noted) = (.ok (), state', noted ++ [c]) := by
          simp [noting, hput]
        simp [write, hput, hstep, hnoting]

end LineWriter

/-! ## One publication -/

/-- What the publication of a record may come to, and the text that it leaves behind. -/
inductive Delivery (record : List Char) : Except SinkError Unit → List Char → Prop where
  | published : Delivery record (.ok ()) (record ++ ['\n'])
  /-- The line is there, but the writer did not make sure of it. -/
  | unkept (reason : String) : Delivery record (.error (.line reason)) (record ++ ['\n'])
  /-- The line end was refused. -/
  | unended (reason : String) : Delivery record (.error (.line reason)) record
  /-- A character of the record was refused. -/
  | broken (reason : String) {part : List Char} (hfront : part <+: record)
      (hpart : part ≠ record) : Delivery record (.error (.record reason)) part

/-- What becomes of a record that is sent to a writer. -/
structure Publication where
  record : List Char
  outcome : Except SinkError Unit
  /-- What the writer has taken before. -/
  before : List Char
  /-- What it takes of this publication. -/
  taken : List Char
  single : '\n' ∉ record
  delivery : Delivery record outcome taken

namespace Publication

variable {p : Publication}

/-- The record is there, and its line end. -/
def Ended (p : Publication) : Prop := p.taken = p.record ++ ['\n']

/-- Something of the record is there, and no line end. -/
def Cut (p : Publication) : Prop := p.taken ≠ [] ∧ ¬ p.Ended

instance : DecidablePred Ended := fun p => inferInstanceAs (Decidable (p.taken = p.record ++ _))

instance : DecidablePred Cut := fun p => inferInstanceAs (Decidable (p.taken ≠ [] ∧ ¬ p.Ended))

/-- What stands between the last line end before a record and its own. -/
def line (p : Publication) : List Char := unfinishedOf p.before ++ p.record

/-- The record shares its line with an earlier one. -/
def Damaged (p : Publication) : Prop := p.Ended ∧ p.line ≠ p.record

instance : DecidablePred Damaged :=
  fun p => inferInstanceAs (Decidable (p.Ended ∧ p.line ≠ p.record))

/-- A record that counts as published is there with its line end. -/
theorem ended_of_ok (h : p.outcome = .ok ()) : p.Ended := by
  obtain ⟨record, outcome, before, taken, single, delivery⟩ := p
  subst h
  cases delivery
  rfl

/-- A record has its line for itself if nothing was left unfinished before it. -/
theorem line_eq_record_iff : p.line = p.record ↔ unfinishedOf p.before = [] :=
  List.append_left_eq_self

/-- A record with its line end finishes the line that it is on. -/
theorem lines_of_ended (h : p.Ended) :
    linesOf (p.before ++ p.taken) = linesOf p.before ++ [p.line] ∧
      unfinishedOf (p.before ++ p.taken) = [] := by
  obtain ⟨hlines, hunfinished⟩ := lines_append p.before p.single
  obtain ⟨hlines', hunfinished'⟩ := lines_append_newline (p.before ++ p.record)
  rw [h, ← List.append_assoc]
  refine ⟨?_, hunfinished'⟩
  rw [hlines', line, hlines, hunfinished]

/-- Otherwise the line goes on. -/
theorem lines_of_not_ended (h : ¬ p.Ended) :
    linesOf (p.before ++ p.taken) = linesOf p.before ∧
      unfinishedOf (p.before ++ p.taken) = unfinishedOf p.before ++ p.taken := by
  apply lines_append
  obtain ⟨record, outcome, before, taken, single, delivery⟩ := p
  cases delivery with
  | published => exact absurd rfl h
  | unkept => exact absurd rfl h
  | unended => exact single
  | broken reason hfront => exact fun hmem => single (hfront.subset hmem)

/-- Every record of a run that was cut is followed by one with a line end. -/
def Closed (run : List Publication) : Prop :=
  ∀ p later, p :: later <:+ run → p.Cut → ∃ q ∈ later, q.Ended

theorem closed_nil : Closed [] := by
  intro p later hsuffix
  cases List.suffix_nil.mp hsuffix

/-- The first record of a run, and the others. -/
theorem closed_cons_iff {run : List Publication} :
    Closed (p :: run) ↔ (p.Cut → ∃ q ∈ run, q.Ended) ∧ Closed run := by
  constructor
  · intro h
    refine ⟨h p run (List.suffix_refl _), ?_⟩
    intro q later hsuffix
    exact h q later (hsuffix.trans (List.suffix_cons p run))
  · rintro ⟨hhead, hrest⟩ q later hsuffix
    rcases List.suffix_cons_iff.mp hsuffix with heq | hsuffix
    · obtain ⟨rfl, rfl⟩ := List.cons.inj heq
      exact hhead
    · exact hrest q later hsuffix

end Publication

namespace LineWriter

variable {τ : Type}

/-- A writer that notes is published to as it is without, and notes what the publication leaves. -/
theorem publish_noting (w : LineWriter τ) (s : Snapshot Float) (state : τ) :
    ∃ part, Delivery s.record.toList (w.publish s state).1 part ∧
      ∀ noted, w.noting.publish s (state, noted)
        = ((w.publish s state).1, (w.publish s state).2, noted ++ part) := by
  obtain ⟨part, hfront, hall, hrecord⟩ := w.write_noting s.record.toList state
  unfold publish
  generalize s.record.toList = record at *
  rcases hwrite : w.write record state with ⟨reason | ⟨⟩, state₁⟩
  · have hpart : part ≠ record := by
      intro heq
      have := hall.mpr heq
      simp [hwrite] at this
    exact ⟨part, .broken reason hfront hpart, fun noted => by simp [hrecord, hwrite]⟩
  · obtain rfl : part = record := hall.mp (by rw [hwrite])
    rcases hput : w.put '\n' state₁ with ⟨reason | ⟨⟩, state₂⟩
    · refine ⟨part, ?_, ?_⟩
      · simpa [write, hput] using Delivery.unended reason
      · intro noted
        rw [hrecord, hwrite]
        simp [write, noting, hput]
    · refine ⟨part ++ ['\n'], ?_, ?_⟩
      · rcases hflush : w.flush state₂ with ⟨reason | ⟨⟩, state₃⟩
        · simpa [write, hput, hflush] using Delivery.unkept reason
        · simpa [write, hput, hflush] using Delivery.published
      · intro noted
        rw [hrecord, hwrite]
        rcases hflush : w.flush state₂ with ⟨reason | ⟨⟩, state₃⟩
        · simp [write, noting, hput, hflush]
        · simp [write, noting, hput, hflush]

/-- What a writer takes of the publication of a snapshot. -/
def taken (w : LineWriter τ) (s : Snapshot Float) (state : τ) : List Char :=
  (w.noting.publish s (state, [])).2.2

/-- A writer that notes what it takes is published to in the same way. -/
theorem publish_noting_eq (w : LineWriter τ) (s : Snapshot Float) (state : τ) (noted : List Char) :
    w.noting.publish s (state, noted)
      = ((w.publish s state).1, (w.publish s state).2, noted ++ w.taken s state) := by
  obtain ⟨part, -, h⟩ := w.publish_noting s state
  rw [taken, h, h, List.nil_append]

/-- What it takes is one of the four ends of a publication. -/
theorem delivery_taken (w : LineWriter τ) (s : Snapshot Float) (state : τ) :
    Delivery s.record.toList (w.publish s state).1 (w.taken s state) := by
  obtain ⟨part, hdelivery, h⟩ := w.publish_noting s state
  rw [taken, h]
  exact hdelivery

/-- What becomes of a snapshot that is sent to a writer that has taken `text` before. -/
def publication (w : LineWriter τ) (s : Snapshot Float) (state : τ) (text : List Char) :
    Publication :=
  ⟨s.record.toList, (w.publish s state).1, text, w.taken s state, s.newline_notMem_record,
    w.delivery_taken s state⟩

@[simp] theorem record_publication (w : LineWriter τ) (s : Snapshot Float) (state : τ)
    (text : List Char) : (w.publication s state text).record = s.record.toList := rfl

@[simp] theorem before_publication (w : LineWriter τ) (s : Snapshot Float) (state : τ)
    (text : List Char) : (w.publication s state text).before = text := rfl

@[simp] theorem taken_publication (w : LineWriter τ) (s : Snapshot Float) (state : τ)
    (text : List Char) : (w.publication s state text).taken = w.taken s state := rfl

/-- A publication finishes its line, or leaves nothing behind, or leaves a line unfinished. -/
theorem publication_shapes (w : LineWriter τ) (s : Snapshot Float) (state : τ)
    (text : List Char) :
    ((w.publication s state text).Ended ∧ ¬ (w.publication s state text).Cut ∧
        unfinishedOf (text ++ w.taken s state) = []) ∨
      (w.taken s state = [] ∧ ¬ (w.publication s state text).Ended ∧
        ¬ (w.publication s state text).Cut) ∨
      ((w.publication s state text).Cut ∧ ¬ (w.publication s state text).Ended ∧
        unfinishedOf (text ++ w.taken s state) ≠ []) := by
  by_cases hended : (w.publication s state text).Ended
  · exact .inl ⟨hended, fun hcut => hcut.2 hended, (Publication.lines_of_ended hended).2⟩
  by_cases htaken : w.taken s state = []
  · exact .inr (.inl ⟨htaken, hended, fun hcut => hcut.1 htaken⟩)
  have hgoes : unfinishedOf (text ++ w.taken s state) = unfinishedOf text ++ w.taken s state :=
    (Publication.lines_of_not_ended hended).2
  refine .inr (.inr ⟨⟨htaken, hended⟩, hended, ?_⟩)
  rw [hgoes]
  exact List.append_ne_nil_of_right_ne_nil _ htaken

/-! ## Runs -/

/-- What becomes of snapshots that are sent one after another, to a writer that has taken `text`
before. -/
def publications (w : LineWriter τ) : List (Snapshot Float) → τ → List Char → List Publication
  | [], _, _ => []
  | s :: rest, state, text =>
    w.publication s state text ::
      w.publications rest (w.publish s state).2 (text ++ w.taken s state)

/-- What a writer has taken when a publisher has drained a queue of snapshots into it. -/
def written (w : LineWriter τ) (snapshots : List (Snapshot Float)) (state : τ) : List Char :=
  ((Publisher.fresh w.noting.sink (state, [])).drain ⟨snapshots, 0⟩).publisher.state.2

open Publication

variable (w : LineWriter τ)

/-- A run sends the records of its snapshots, in their order. -/
theorem record_publications (snapshots : List (Snapshot Float)) (state : τ) (text : List Char) :
    (w.publications snapshots state text).map Publication.record
      = snapshots.map (·.record.toList) := by
  induction snapshots generalizing state text with
  | nil => rfl
  | cons s rest ih => simp [publications, ih]

/-- The texts that the publications of a run leave stand one behind the other. -/
theorem foldl_publish_noted (p : Publisher Float (τ × List Char)) (hsink : p.sink = w.noting.sink)
    (snapshots : List (Snapshot Float)) :
    (snapshots.foldl Publisher.publish p).state.2
      = p.state.2 ++ (w.publications snapshots p.state.1 p.state.2).flatMap Publication.taken := by
  induction snapshots generalizing p with
  | nil => simp [publications]
  | cons s rest ih =>
    have hstate : (p.publish s).state
        = ((w.publish s p.state.1).2, p.state.2 ++ w.taken s p.state.1) := by
      rw [Publisher.publish_state, hsink]
      exact congrArg Prod.snd (w.publish_noting_eq s p.state.1 p.state.2)
    rw [List.foldl_cons, ih (p.publish s) (by rw [Publisher.publish_sink, hsink]), hstate]
    simp [publications]

/-- What a writer has taken after a drain is what the publications left. -/
theorem written_eq (snapshots : List (Snapshot Float)) (state : τ) :
    w.written snapshots state
      = (w.publications snapshots state []).flatMap Publication.taken := by
  rw [written, Publisher.drain, Drain.finish_eq]
  exact w.foldl_publish_noted (.fresh w.noting.sink (state, [])) rfl snapshots

/-- The lines of a run: one for each record that has its line end, in the order in which they
were sent. -/
theorem lines_of_publications (snapshots : List (Snapshot Float)) (state : τ) (text : List Char) :
    linesOf (text ++ (w.publications snapshots state text).flatMap Publication.taken)
      = linesOf text
        ++ ((w.publications snapshots state text).filter (·.Ended)).map Publication.line := by
  induction snapshots generalizing state text with
  | nil => simp [publications]
  | cons s rest ih =>
    rw [publications, List.flatMap_cons, taken_publication, ← List.append_assoc, ih]
    by_cases hended : (w.publication s state text).Ended
    · have hlines : linesOf (text ++ w.taken s state)
          = linesOf text ++ [(w.publication s state text).line] := (lines_of_ended hended).1
      simp [hended, hlines]
    · have hlines : linesOf (text ++ w.taken s state) = linesOf text :=
        (lines_of_not_ended hended).1
      simp [hended, hlines]

/-- A run leaves no line unfinished if every record that was cut is followed by a line end, and
so is what was unfinished before. -/
theorem unfinished_of_publications (snapshots : List (Snapshot Float)) (state : τ)
    (text : List Char) :
    unfinishedOf (text ++ (w.publications snapshots state text).flatMap Publication.taken) = [] ↔
      (unfinishedOf text = [] ∨ ∃ p ∈ w.publications snapshots state text, p.Ended) ∧
        Closed (w.publications snapshots state text) := by
  induction snapshots generalizing state text with
  | nil => simp [publications, closed_nil]
  | cons s rest ih =>
    rw [publications, List.flatMap_cons, taken_publication, ← List.append_assoc, ih,
      closed_cons_iff, List.exists_mem_cons_iff]
    obtain ⟨hended, hcut, hfinished⟩ | ⟨htaken, hended, hcut⟩ | ⟨hcut, hended, hunfinished⟩ :=
      w.publication_shapes s state text
    · simp [hended, hcut, hfinished]
    · simp [hended, hcut, htaken]
    · rw [or_iff_right hunfinished, or_iff_right hended]
      constructor
      · rintro ⟨hlater, hclosed⟩
        exact ⟨.inr hlater, fun _ => hlater, hclosed⟩
      · rintro ⟨-, hlater, hclosed⟩
        exact ⟨hlater hcut, hclosed⟩

/-- No more records are damaged in a run than were cut. -/
theorem countP_damaged_le (snapshots : List (Snapshot Float)) (state : τ) (text : List Char) :
    (w.publications snapshots state text).countP (·.Damaged)
      ≤ (w.publications snapshots state text).countP (·.Cut)
        + if unfinishedOf text = [] then 0 else 1 := by
  induction snapshots generalizing state text with
  | nil => simp [publications]
  | cons s rest ih =>
    have hrest := ih (w.publish s state).2 (text ++ w.taken s state)
    simp only [publications, List.countP_cons, decide_eq_true_eq]
    obtain ⟨hended, hcut, hfinished⟩ | ⟨htaken, hended, hcut⟩ | ⟨hcut, hended, hunfinished⟩ :=
      w.publication_shapes s state text
    · have hdamaged : (w.publication s state text).Damaged ↔ ¬ unfinishedOf text = [] :=
        (and_iff_right hended).trans (not_congr line_eq_record_iff)
      rw [if_pos hfinished] at hrest
      simp only [hcut, hdamaged, if_false, ite_not]
      omega
    · have hdamaged : ¬ (w.publication s state text).Damaged := fun h => hended h.1
      rw [htaken, List.append_nil] at hrest ⊢
      rw [if_neg hcut, if_neg hdamaged]
      exact hrest
    · have hdamaged : ¬ (w.publication s state text).Damaged := fun h => hended h.1
      rw [if_neg hunfinished] at hrest
      rw [if_pos hcut, if_neg hdamaged]
      omega

/-- Before each publication of a run the writer has taken what the earlier ones left. -/
theorem before_of_publications {snapshots : List (Snapshot Float)} {state : τ} {text : List Char}
    {earlier later : List Publication} {p : Publication}
    (h : w.publications snapshots state text = earlier ++ p :: later) :
    ∃ front, earlier = w.publications front state text ∧
      p.before = text ++ earlier.flatMap Publication.taken := by
  induction snapshots generalizing state text earlier with
  | nil => simp [publications] at h
  | cons s rest ih =>
    cases earlier with
    | nil =>
      obtain ⟨rfl, -⟩ := List.cons.inj h
      exact ⟨[], rfl, by simp⟩
    | cons first earlier =>
      obtain ⟨rfl, hrest⟩ := List.cons.inj h
      obtain ⟨front, hfront, hbefore⟩ := ih hrest
      exact ⟨s :: front, congrArg _ hfront, by simp [hbefore]⟩

/-- A record has its line for itself if and only if every record that was cut before it was
followed, still before it, by one with a line end. -/
theorem line_eq_record_iff_closed {snapshots : List (Snapshot Float)} {state : τ}
    {earlier later : List Publication} {p : Publication}
    (h : w.publications snapshots state [] = earlier ++ p :: later) :
    p.line = p.record ↔ Closed earlier := by
  obtain ⟨front, hfront, hbefore⟩ := w.before_of_publications h
  have hunfinished := w.unfinished_of_publications front state []
  rw [← hfront, ← hbefore] at hunfinished
  rw [line_eq_record_iff, hunfinished]
  exact and_iff_right (.inl rfl)

/-- The records of a run in which none is cut have lines of their own. -/
theorem lines_of_uncut {snapshots : List (Snapshot Float)} {state : τ}
    (h : ∀ p ∈ w.publications snapshots state [], ¬ p.Cut) :
    linesOf (w.written snapshots state)
      = ((w.publications snapshots state []).filter (·.Ended)).map Publication.record := by
  have hcut : (w.publications snapshots state []).countP (·.Cut) = 0 := by
    simpa [List.countP_eq_zero] using h
  have hdamaged : (w.publications snapshots state []).countP (·.Damaged) = 0 := by
    have := w.countP_damaged_le snapshots state []
    simpa [hcut] using this
  have hlines := w.lines_of_publications snapshots state []
  rw [List.nil_append, ← written_eq] at hlines
  rw [hlines, linesOf_nil, List.nil_append]
  apply List.map_congr_left
  intro p hp
  obtain ⟨hmem, hended⟩ := List.mem_filter.mp hp
  have hundamaged := List.countP_eq_zero.mp hdamaged p hmem
  by_contra hline
  exact hundamaged (decide_eq_true ⟨of_decide_eq_true hended, hline⟩)

/-- If every publication of a run succeeds, its lines are the records. -/
theorem lines_of_all_published {snapshots : List (Snapshot Float)} {state : τ}
    (h : ∀ p ∈ w.publications snapshots state [], p.outcome = .ok ()) :
    linesOf (w.written snapshots state) = snapshots.map (·.record.toList) := by
  have hended : ∀ p ∈ w.publications snapshots state [], p.Ended :=
    fun p hp => ended_of_ok (h p hp)
  rw [w.lines_of_uncut fun p hp hcut => hcut.2 (hended p hp), ← w.record_publications _ state [],
    List.filter_eq_self.mpr fun p hp => decide_eq_true (hended p hp)]

/-- Whatever a writer refuses and takes in a run: the complete lines of what it has taken are
those of the records whose line ends it has taken, all that count as published among them, in the
order in which they were sent.  Such a record has its line for itself if and only if every record
that was cut before was followed by a line end in between.  So no more records are damaged than
were cut; and if every publication succeeds, the lines are the records. -/
theorem published_lines (snapshots : List (Snapshot Float)) (state : τ) :
    let run := w.publications snapshots state []
    run.map Publication.record = snapshots.map (·.record.toList) ∧
      linesOf (w.written snapshots state) = (run.filter (·.Ended)).map Publication.line ∧
      (∀ p ∈ run, p.outcome = .ok () → p.Ended) ∧
      (∀ earlier p later, run = earlier ++ p :: later →
        (p.line = p.record ↔ Closed earlier)) ∧
      run.countP (·.Damaged) ≤ run.countP (·.Cut) ∧
      ((∀ p ∈ run, p.outcome = .ok ()) →
        linesOf (w.written snapshots state) = snapshots.map (·.record.toList)) := by
  intro run
  refine ⟨w.record_publications snapshots state [], ?_, ?_, ?_, ?_, ?_⟩
  · have hlines := w.lines_of_publications snapshots state []
    rwa [List.nil_append, ← written_eq, linesOf_nil, List.nil_append] at hlines
  · intro p _ hok
    exact ended_of_ok hok
  · intro earlier p later hrun
    exact w.line_eq_record_iff_closed hrun
  · exact w.countP_damaged_le snapshots state []
  · intro hpublished
    exact w.lines_of_all_published hpublished

end LineWriter

/-! ## A writer that falters -/

/-- A snapshot of a machine that stands at the origin. -/
def Snapshot.still (cycle : UInt64) : Snapshot Float :=
  ⟨cycle, 0, 0, 0, 0, 0, ⟨0, 0, 0⟩, ⟨0, 0, 0⟩, ⟨0, 0⟩, ⟨0, 0⟩⟩

namespace LineWriter

open Publication

/-- Refuses the second character that it is given, and nothing else. -/
def faltering : LineWriter Nat where
  put _ given := (if given = 1 then .error "gone" else .ok (), given + 1)
  flush given := (.ok (), given)

/-- After the second character it takes everything. -/
theorem write_faltering (text : List Char) {given : Nat} (h : 1 < given) :
    ∃ later, 1 < later ∧ faltering.write text given = (.ok (), later) := by
  induction text generalizing given with
  | nil => exact ⟨given, h, rfl⟩
  | cons c rest ih =>
    have hput : faltering.put c given = (.ok (), given + 1) := by
      simp [faltering, Nat.ne_of_gt h]
    rw [write, hput]
    exact ih (by omega)

/-- The first publication leaves one character behind. -/
theorem publish_faltering_first (s : Snapshot Float) :
    faltering.publish s 0 = (.error (.record "gone"), 2) ∧ faltering.taken s 0 = ['{'] := by
  obtain ⟨fields, hfields⟩ := s.record_eq_braces
  obtain ⟨c, rest, hrest⟩ := List.exists_cons_of_ne_nil
    (List.append_ne_nil_of_right_ne_nil fields (List.cons_ne_nil '}' []))
  have hrecord : s.record.toList = '{' :: c :: rest := by rw [hfields, hrest]
  constructor
  · simp [publish, hrecord, write, faltering]
  · simp [taken, publish, hrecord, write, noting, faltering]

/-- The later ones succeed. -/
theorem publish_faltering (s : Snapshot Float) {given : Nat} (h : 1 < given) :
    ∃ later, 1 < later ∧ faltering.publish s given = (.ok (), later) := by
  obtain ⟨ended, hended, hrecord⟩ := write_faltering s.record.toList h
  obtain ⟨later, hlater, hend⟩ := write_faltering ['\n'] hended
  refine ⟨later, hlater, ?_⟩
  simp only [publish, hrecord, hend]
  rfl

/-- So every later record gets its line end. -/
theorem ended_faltering (s : Snapshot Float) {given : Nat} (h : 1 < given) (text : List Char) :
    (faltering.publication s given text).Ended := by
  obtain ⟨later, -, hpublish⟩ := publish_faltering s h
  apply ended_of_ok
  simp [publication, hpublish]

/-- The first record is cut after one character. -/
theorem cut_faltering (s : Snapshot Float) : (faltering.publication s 0 []).Cut := by
  have htaken : (faltering.publication s 0 []).taken = ['{'] := (publish_faltering_first s).2
  constructor
  · rw [htaken]
    exact List.cons_ne_nil '{' []
  · intro hended
    have hnewline : '\n' ∈ (faltering.publication s 0 []).taken := by
      rw [hended]
      simp
    rw [htaken] at hnewline
    exact absurd hnewline (by decide)

/-- Two publications leave one line, which is no record. -/
theorem lines_faltering (first second : Snapshot Float) :
    linesOf (faltering.written [first, second] 0) = ['{' :: second.record.toList] := by
  obtain ⟨hfirst, htaken⟩ := publish_faltering_first first
  have hwritten : faltering.written [first, second] 0
      = ('{' :: second.record.toList) ++ ['\n'] := by
    rw [written_eq]
    have hsecond : faltering.taken second 2 = second.record.toList ++ ['\n'] :=
      ended_faltering second (by decide) []
    simp [publications, hfirst, htaken, hsecond]
  have hpiece : '\n' ∉ '{' :: second.record.toList := by simp [second.newline_notMem_record]
  obtain ⟨hlines, hunfinished⟩ := lines_append [] hpiece
  rw [List.nil_append] at hlines hunfinished
  rw [hwritten, (lines_append_newline _).1, hlines, hunfinished]
  rfl

/-- The first publication fails and the second one succeeds. -/
theorem outcomes_faltering (first second : Snapshot Float) :
    (faltering.publications [first, second] 0 []).map Publication.outcome
      = [.error (.record "gone"), .ok ()] := by
  obtain ⟨hfirst, -⟩ := publish_faltering_first first
  obtain ⟨later, -, hsecond⟩ := publish_faltering second (by decide : 1 < 2)
  simp [publications, publication, hfirst, hsecond]

/-- The publication after a failure succeeds, and its record is not a line. -/
theorem record_after_failure_is_no_line :
    (faltering.publications [.still 1, .still 2] 0 []).map Publication.outcome
        = [.error (.record "gone"), .ok ()] ∧
      (Snapshot.still 2).record.toList
        ∉ linesOf (faltering.written [.still 1, .still 2] 0) := by
  -- Nothing depends on what the snapshots are.
  generalize Snapshot.still 1 = first, Snapshot.still 2 = second
  refine ⟨outcomes_faltering first second, ?_⟩
  rw [lines_faltering, List.mem_singleton]
  exact (List.cons_ne_self '{' _).symm

/-- A failure damages the next record, and not the one after it. -/
theorem failure_damages_next :
    ∃ torn damaged whole, faltering.publications [.still 1, .still 2, .still 3] 0 []
        = [torn, damaged, whole] ∧
      linesOf (faltering.written [.still 1, .still 2, .still 3] 0)
        = [damaged.line, whole.line] ∧
      damaged.line ≠ damaged.record ∧ whole.line = whole.record := by
  generalize Snapshot.still 1 = first, Snapshot.still 2 = second, Snapshot.still 3 = third
  obtain ⟨-, hlines, -, hown, -, -⟩ := published_lines faltering [first, second, third] 0
  obtain ⟨hfirst, htaken⟩ := publish_faltering_first first
  obtain ⟨later, hlater, hsecond⟩ := publish_faltering second (by decide : 1 < 2)
  have hcut := cut_faltering first
  have hended := ended_faltering second (by decide : 1 < 2) ['{']
  have hended' := ended_faltering third hlater ('{' :: faltering.taken second 2)
  have hrun : faltering.publications [first, second, third] 0 []
      = [faltering.publication first 0 [], faltering.publication second 2 ['{'],
        faltering.publication third later ('{' :: faltering.taken second 2)] := by
    simp [publications, hfirst, htaken, hsecond]
  refine ⟨_, _, _, hrun, ?_, ?_, ?_⟩
  · rw [hlines, hrun]
    simp [hcut.2, hended, hended']
  · rw [ne_eq, hown [_] _ [_] hrun, closed_cons_iff]
    simp [hcut]
  · rw [hown [_, _] _ [] hrun, closed_cons_iff, closed_cons_iff]
    simp [hended, closed_nil, Cut]

end LineWriter

end MotionControl
