import Highlight.Proofs.Bracket.Alike
import Highlight.Proofs.Editor.Suspension
import Highlight.Proofs.Worker.Spans

/-! # Events that are delivered late

Several edits are made before the first of their events is read. Each change is then widened in the
document of all edits, although its offsets are those of the document it was made in. A later edit
in front of it moves its text away from its offsets, and if no other region happens to reach the new
text, the brackets there are never tracked. Edits that run from front to back move nothing that has
changed before, and lose nothing.
-/

namespace Highlight

open Document

/-- An edit that went through, the document it was made in and the change it reported. -/
structure EditStep where
  source : Document
  edit : Edit
  change : Change

/-- The edits that go through, one after the other. -/
def Document.steps : Document → List Edit → List EditStep
  | _, [] => []
  | d, x :: edits =>
    match x.apply d with
    | .ok (d', c) => ⟨d, x, c⟩ :: d'.steps edits
    | .error _ => d.steps edits

theorem Document.length_steps (d : Document) (edits : List Edit) :
    (d.steps edits).length ≤ edits.length := by
  induction edits generalizing d with
  | nil => exact Nat.le_refl _
  | cons x edits ih =>
      rw [steps]
      split
      · exact Nat.succ_le_succ (ih _)
      · exact Nat.le_succ_of_le (ih _)

namespace Editor

/-- Make edits and leave their events on the bus. -/
def editLate (e : Editor) (edits : List Edit) : Editor :=
  edits.foldl (fun e x => e.act (.edit x)) e

/-- Read all events of a reader and pass them on, each of them when both workers have come to rest
    from the one before. -/
def deliver (e : Editor) (reader : Bus.Cursor) : Editor :=
  (e.session.bus.drain reader).1.foldl (fun e event => (e.handleLogged event).1.settle) e

/-- The bracket worker is on, alive and at rest, and it tracks all brackets of the document. -/
structure Tracking (pair : BracketPair) (e : Editor) : Prop where
  enabled : e.highlighter.bracketsEnabled = true
  ready : e.highlighter.brackets.control.Ready
  rested : e.regions = []
  sound : e.highlighter.brackets.job.Sound pair e.document
  complete : e.tracked = e.document.brackets pair

/-! ## Edits without delivery -/

theorem act_edit (e : Editor) (x : Edit) : e.act (.edit x) =
    match x.apply e.document with
    | .ok edited => { e with session := (e.session.commit edited).1 }
    | .error _ => e := by
  rw [act, Session.edit_eq, document]
  cases x.apply e.session.document <;> rfl

/-- What edits leave behind whose events wait on the bus. -/
structure Waiting (e e' : Editor) (steps : List EditStep) : Prop where
  highlighter : e'.highlighter = e.highlighter
  logged : e'.session.bus.log =
    e.session.bus.log ++ steps.map fun s => .contentChanged [s.change]
  formed : e'.document.WellFormed
  evolved : Evolves e.document e'.document
  unchanged : steps = [] → e'.document = e.document

theorem editLate_waiting {e : Editor} (formed : e.document.WellFormed) (edits : List Edit) :
    Waiting e (e.editLate edits) (e.document.steps edits) := by
  induction edits generalizing e with
  | nil => exact ⟨rfl, by simp [editLate, steps], formed, .refl _, fun _ => rfl⟩
  | cons x edits ih =>
      have first : e.editLate (x :: edits) = (e.act (.edit x)).editLate edits := rfl
      rw [first, act_edit]
      cases applied : x.apply e.document with
      | error _ => simpa only [steps, applied] using ih formed
      | ok edited =>
          obtain ⟨d, c⟩ := edited
          obtain ⟨formed', evolved⟩ := Edit.apply_step formed applied
          have rest := ih (e := { e with session := (e.session.commit (d, c)).1 }) formed'
          simp only [steps, applied]
          refine ⟨rest.highlighter, ?_, rest.formed, evolved.trans rest.evolved, by simp⟩
          rw [rest.logged, List.map_cons]
          simp only [Session.commit, Session.emit, Bus.emit, List.append_assoc,
            List.singleton_append]
          rfl

/-- So few events all wait for a reader that has read everything before them. -/
theorem drain_waiting {bus : Bus} {log events : List Event} (logged : bus.log = log ++ events)
    (few : events.length ≤ Bus.capacity) : (bus.drain log.length).1 = events := by
  have unread : bus.firstUnread log.length = log.length := by
    rw [Bus.firstUnread, logged, List.length_append]
    omega
  rw [Bus.drain, unread, logged, List.drop_left]

/-! ## Delivery -/

/-- The bracket worker is at rest with a given list, and the text is that of a given document. -/
structure Delivering (pair : BracketPair) (d : Document) (t : Tracker) (e : Editor) : Prop where
  enabled : e.highlighter.bracketsEnabled = true
  ready : e.highlighter.brackets.control.Ready
  rested : e.regions = []
  delimiters : e.highlighter.brackets.job.pair = pair
  tracker : e.highlighter.brackets.job.tracker = t
  alike : Alike d e.document

theorem Delivering.contentChanged {pair : BracketPair} {d : Document} {t : Tracker} {e : Editor}
    (h : Delivering pair d t e) (c : Change) :
    Delivering pair d (t.update pair d (d.region c))
      (e.handleLogged (.contentChanged [c])).1.settle := by
  let e' := (e.handleLogged (.contentChanged [c])).1
  let d' := (e'.highlighter.keywords.settle e'.document).2
  obtain ⟨queued, enabled⟩ := Highlighter.push_brackets h.enabled (e.document.region c)
  have brackets : e'.highlighter.brackets = e.highlighter.brackets.push (d.region c) := by
    rw [← h.alike.region c]
    exact queued
  have ready : e'.highlighter.brackets.control.Ready := by
    rw [brackets]
    exact h.ready.rest _ _
  have waits : e'.regions = [d.region c] := by
    rw [regions_push brackets, h.rested, List.nil_append]
  have styled : Alike d d' := by
    obtain ⟨blocks, same, ids⟩ := (e'.highlighter.keywords.settle_restyles e'.document).blocks
    refine h.alike.trans ?_
    change d' = { e.document with blocks } at same
    rw [same]
    exact ⟨rfl, rfl, ids⟩
  obtain ⟨ready', rested, pair_eq, tracker⟩ := BracketWorker.settle_done ready d'
  obtain ⟨connectors, drawn⟩ := BracketWorker.settle_document e'.highlighter.brackets d'
  refine ⟨enabled, ready', rested, ?_, ?_, ?_⟩
  · exact pair_eq.trans ((congrArg (·.job.pair) brackets).trans h.delimiters)
  · refine tracker.trans ?_
    change e'.regions.foldl _ _ = _
    rw [waits, brackets, List.foldl_cons, List.foldl_nil, styled.update]
    simp only [BracketWorker.push, h.tracker, h.delimiters]
  · refine styled.trans ?_
    change Alike d' (e'.highlighter.brackets.settle d').2
    rw [drawn]
    exact ⟨rfl, rfl, rfl⟩

theorem Delivering.deliver {pair : BracketPair} {d : Document} {t : Tracker} {e : Editor}
    (h : Delivering pair d t e) (changes : List Change) :
    Delivering pair d ((changes.map d.region).foldl (fun t i => t.update pair d i) t)
      ((changes.map fun c => Event.contentChanged [c]).foldl
        (fun e event => (e.handleLogged event).1.settle) e) := by
  induction changes generalizing t e with
  | nil => exact h
  | cons c changes ih => exact ih (h.contentChanged c)

/-- The list is brought up to date with the region of every change, in the document of all edits. -/
theorem Tracking.delivered {pair : BracketPair} {e : Editor} (start : Tracking pair e)
    {edits : List Edit} (few : edits.length ≤ Bus.capacity) :
    let late := e.editLate edits
    let done := late.deliver e.session.bus.log.length
    let regions := (e.document.steps edits).map fun s => late.document.region s.change
    Alike late.document done.document ∧
      done.highlighter.brackets.job.tracker =
        regions.foldl (fun t i => t.update pair late.document i)
          e.highlighter.brackets.job.tracker := by
  intro late done regions
  have waiting := editLate_waiting start.sound.formed edits
  have events := drain_waiting waiting.logged
    (by rw [List.length_map]; exact Nat.le_trans (length_steps _ edits) few)
  have begun : Delivering pair late.document e.highlighter.brackets.job.tracker late := by
    refine ⟨?_, ?_, ?_, ?_, ?_, .refl _⟩
    all_goals simp only [Editor.regions, late, waiting.highlighter]
    · exact start.enabled
    · exact start.ready
    · exact start.rested
    · exact start.sound.delimiters
  have ended := begun.deliver ((e.document.steps edits).map (·.change))
  rw [List.map_map, List.map_map] at ended
  have done_eq : done = _ := congrArg (List.foldl _ late) events
  rw [done_eq]
  exact ⟨ended.alike, ended.tracker⟩

end Editor

/-! ## Edits from front to back -/

/-- The line of an index lies in the lines of a change. -/
def Change.Covers (d : Document) (line : Nat) (c : Change) : Prop :=
  d.lineAt c.offset ≤ line ∧ line ≤ d.lineAt c.stop

/-- Every row of `d` is from before or in the lines of a change, and no change sticks out of the
    text. -/
structure Covered (source d : Document) (changes : List Change) : Prop where
  inside : ∀ c ∈ changes, c.stop ≤ d.length
  rows : ∀ line row, d.rows[line]? = some row →
    row ∈ source.rows ∨ ∃ c ∈ changes, c.Covers d line

theorem Document.WellFormed.lineAt_lt {d : Document} (h : d.WellFormed) (i : Nat) :
    d.lineAt i < d.blocks.length := by
  rw [h.count, d.lines_eq, lineAt, d.lines_eq]
  exact Text.lineAt_lt (Text.lines_ne_nil _) i

theorem Document.WellFormed.stretch_last {d : Document} (h : d.WellFormed)
    {first last first' last' : Nat} (inside : last < d.blocks.length)
    (inside' : last' < d.blocks.length) (same : d.stretch first last = d.stretch first' last') :
    last = last' := by
  have resolved := h.resolve?_place inside (Nat.le_refl (d.width last))
  have resolved' := h.resolve?_place inside' (Nat.le_refl (d.width last'))
  have stop : d.place last (d.width last) = d.place last' (d.width last') :=
    congrArg Interval.stop same
  rw [stop, resolved'] at resolved
  exact (congrArg Prod.fst (Option.some.inj resolved)).symm

theorem Covered.edit {source d d' : Document} {changes : List Change} {x : Edit} {c : Change}
    (h : Covered source d changes) (formed : d.WellFormed) (ok : x.apply d = .ok (d', c))
    (clear : ¬x.BehindReturn d) (behind : ∀ c' ∈ changes, c'.stop ≤ c.offset) :
    Covered source d' (changes ++ [c]) := by
  obtain ⟨formed', -⟩ := Edit.apply_step formed ok
  obtain ⟨offset, -, stop_le, -⟩ := Edit.apply_front ok
  obtain ⟨before, old, new, after, replaces, region, some_old, anchored⟩ :=
    Edit.replaces_at formed clear ok
  have count := replaces.count formed'
  have old_pos := List.length_pos_iff.mpr some_old
  have new_pos := List.length_pos_iff.mpr replaces.some_new
  have in_front {i : Nat} (le : i ≤ c.offset) : d'.lineAt i = d.lineAt i :=
    Edit.lineAt_front clear ok (offset ▸ le)
  have first : d.lineAt c.offset = before.length := by rw [offset, anchored]
  have last : d'.lineAt c.stop = before.length + new.length - 1 := by
    rw [region_eq stop_le] at region
    exact formed'.stretch_last (formed'.lineAt_lt _) (by omega) region
  constructor
  · intro c' member
    rcases List.mem_append.mp member with earlier | this
    · exact Nat.le_trans (Nat.le_trans (behind c' earlier) (Nat.le_add_right _ _)) stop_le
    · rw [List.mem_singleton.mp this]
      exact stop_le
  · intro line row found
    by_cases inside : before.length ≤ line ∧ line ≤ before.length + new.length - 1
    · refine .inr ⟨c, List.mem_append_right _ (List.mem_singleton_self c), ?_, ?_⟩
      · rw [in_front (Nat.le_refl _), first]
        exact inside.1
      · rw [last]
        exact inside.2
    · rcases replaces.kept_at inside found with ⟨same, -⟩ | ⟨line', far, moved⟩
      · rcases h.rows line row same with old | ⟨c', earlier, covers⟩
        · exact .inl old
        · have stop_le := behind c' earlier
          refine .inr ⟨c', List.mem_append_left _ earlier, ?_⟩
          rw [Change.Covers, in_front (Nat.le_trans (Nat.le_add_right _ _) stop_le),
            in_front stop_le]
          exact covers
      · rcases h.rows line' row moved with old | ⟨c', earlier, covers⟩
        · exact .inl old
        · -- Earlier changes end at or before the line where this one starts.
          have := Text.lineAt_mono d.lines (behind c' earlier)
          have up_to : line' ≤ d.lineAt c'.stop := covers.2
          rw [lineAt] at first up_to
          omega

/-- Edits from front to back cover all that they change. -/
theorem Covered.edits {source : Document} {e : Editor} {changes : List Change}
    (h : Covered source e.document changes) (formed : e.document.WellFormed) {edits : List Edit}
    (clear : ∀ s ∈ e.document.steps edits, ¬s.edit.BehindReturn s.source)
    (ordered : (changes ++ (e.document.steps edits).map (·.change)).Pairwise
      fun a b => a.stop ≤ b.offset) :
    Covered source (e.editLate edits).document
      (changes ++ (e.document.steps edits).map (·.change)) := by
  induction edits generalizing e changes with
  | nil => simpa [steps, Editor.editLate] using h
  | cons x edits ih =>
      have first : e.editLate (x :: edits) = (e.act (.edit x)).editLate edits := rfl
      rw [first, Editor.act_edit]
      cases applied : x.apply e.document with
      | error _ =>
          simp only [steps, applied] at clear ordered ⊢
          exact ih h formed clear ordered
      | ok edited =>
          obtain ⟨d, c⟩ := edited
          simp only [steps, applied, List.map_cons] at clear ordered ⊢
          rw [List.append_cons] at ordered ⊢
          have behind : ∀ c' ∈ changes, c'.stop ≤ c.offset := by
            have split := List.pairwise_append.mp (List.pairwise_append.mp ordered).1
            exact fun c' member => split.2.2 c' member c (List.mem_singleton_self c)
          have edited := h.edit formed applied (clear _ List.mem_cons_self) behind
          exact ih (e := { e with session := (e.session.commit (d, c)).1 }) edited
            (Edit.apply_step formed applied).1
            (fun s member => clear s (List.mem_cons_of_mem _ member)) ordered

/-- What is covered is from before or still reached. -/
theorem Covered.reaches {source d : Document} {changes : List Change}
    (h : Covered source d changes) (formed : source.WellFormed) (formed' : d.WellFormed)
    (same : source.id = d.id) {pair : BracketPair} {b : Bracket} (holds : d.Holds pair b) :
    b ∈ source.brackets pair ∨
      ∃ c ∈ changes, Tracker.Reaches d (d.region c) b.position.block := by
  obtain ⟨line, inside, index⟩ := holds.on_line formed'
  obtain ⟨text, found⟩ := formed'.row_of_block (List.getElem?_eq_getElem inside)
  rcases h.rows line _ found with old | ⟨c, member, from_line, to_line⟩
  · left
    rw [formed.mem_brackets]
    exact holds.of_row formed same found index formed' old
  · right
    refine ⟨c, member, line, ?_, index⟩
    rw [region_eq (h.inside c member)]
    exact Tracker.mem_reach (formed'.resolve?_place (formed'.lineAt_lt _) (Nat.zero_le _))
      (formed'.resolve?_place (formed'.lineAt_lt _) (Nat.le_refl _)) from_line to_line

/-- Edits whose events are delivered late. Afterwards the list is a part of the scan of the
    document, in order: the brackets that were there before and those in a block that the region of
    a change reaches, where the region is taken from the offsets of the change in the document of
    all edits. So it is complete exactly if these are all; and they are if the edits run from front
    to back and none starts behind a carriage return. -/
theorem brackets_after_late_delivery {pair : BracketPair} {e : Editor} (start : e.Tracking pair)
    (edits : List Edit) (few : edits.length ≤ Bus.capacity) :
    let late := e.editLate edits
    let done := late.deliver e.session.bus.log.length
    let steps := e.document.steps edits
    let list := done.tracked
    let scan := done.document.brackets pair
    let reached (b : Bracket) : Prop := b ∈ e.document.brackets pair ∨ ∃ s ∈ steps,
      Tracker.Reaches late.document (late.document.region s.change) b.position.block
    done.document.text = late.document.text ∧ list.Sublist scan ∧
      (∀ b ∈ scan, b ∈ list ↔ reached b) ∧ (list = scan ↔ ∀ b ∈ scan, reached b) ∧
      ((∀ s ∈ steps, ¬s.edit.BehindReturn s.source) →
        ((steps.map (·.change)).Pairwise fun a b => a.stop ≤ b.offset) → list = scan) := by
  intro late done steps list scan reached
  have formed := start.sound.formed
  have waiting : e.Waiting late steps := Editor.editLate_waiting formed edits
  obtain ⟨alike, tracker⟩ := start.delivered few
  obtain ⟨consistent, members⟩ := (start.sound.consistent.evolves waiting.evolved).updateAll
    waiting.formed (steps.map fun s => late.document.region s.change) (by
      intro none b member
      rw [waiting.unchanged (List.map_eq_nil_iff.mp none), ← formed.mem_brackets, ← start.complete]
      exact member)
  have scan_eq : scan = late.document.brackets pair := alike.brackets pair
  have list_eq : list = _ := congrArg Tracker.brackets tracker
  have in_list (b : Bracket) : b ∈ list ↔ late.document.Holds pair b ∧ reached b := by
    rw [list_eq, members]
    simp only [reached, List.mem_map, exists_exists_and_eq_and, ← start.complete, Editor.tracked]
  obtain ⟨part, among, whole⟩ := waiting.formed.part_of_scan (list_eq ▸ consistent.ordered) in_list
  rw [← scan_eq] at part among whole
  refine ⟨alike.text, part, among, whole, fun clear ordered => whole.mpr fun b member => ?_⟩
  have none : Covered e.document e.document [] :=
    ⟨by simp, fun line row found => .inl (List.mem_of_getElem? found)⟩
  have covered := none.edits formed clear (by simpa using ordered)
  rw [scan_eq, waiting.formed.mem_brackets] at member
  simpa [reached] using covered.reaches formed waiting.formed waiting.evolved.same.symm member

/-- An opening bracket is put in front of the second line, and two lines then in front of the first.
    Both changes are taken for changes of the new lines, and the bracket is lost. -/
theorem brackets_lost_in_late_delivery :
    let e : Editor := {
      session := { Session.new {} with document := .ofText 0 ['a', '\n', 'b'] }
      highlighter := {
        keywords := { control := { started := true, running := true } }
        brackets := { control := { started := true, running := true } }
        registry := { root := "", mappingPath := "", definitionsDirectory := "", mapping := {} }
        keywordsEnabled := true
        bracketsEnabled := true }
      files := {} }
    let edits : List Edit :=
      [.insert 2 ['\x7b'], .insert 0 ['x', 'x', 'x', 'x', '\n', 'y', 'y', 'y', 'y']]
    let late := e.editLate edits
    let done := late.deliver 0
    let scan := done.document.brackets {}
    done.tracked = [] ∧ scan = [⟨⟨0, 2, 0⟩, .opening⟩] ∧
      ¬∀ b ∈ scan, b ∈ e.document.brackets {} ∨ ∃ s ∈ e.document.steps edits,
        Tracker.Reaches late.document (late.document.region s.change) b.position.block := by
  intro e edits late done scan
  have start : e.Tracking {} := ⟨rfl, ⟨rfl, rfl, rfl, rfl⟩, rfl,
    ⟨.setText _ _, rfl, .empty _ _⟩, by decide +kernel⟩
  have lost : done.tracked = [] := by decide +kernel
  have present : scan = [⟨⟨0, 2, 0⟩, .opening⟩] := by decide +kernel
  refine ⟨lost, present, fun reached => ?_⟩
  obtain ⟨-, -, -, complete, -⟩ := brackets_after_late_delivery start edits (by decide)
  cases (lost.symm.trans (complete.mpr reached)).trans present

end Highlight
