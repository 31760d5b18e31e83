import Highlight.Proofs.Editor.Operation
import Highlight.Proofs.Worker.Bracket

/-! # Edits during a suspension

While the bracket worker is suspended, every edit queues its region, and the regions are worked off
when the worker goes on. By then later edits may have made the ends of a region stale, and a region
whose end is stale is dropped whole. What it alone would have reached is lost, so the list is
complete exactly if every new bracket stands in a block that some region still reaches. Regions of
one block always do; a region of several blocks does as long as both its ends are live.
-/

namespace Highlight

open Document

namespace Editor

/-- Make an edit and hand its change to the highlighter at once. -/
def editNow (e : Editor) (x : Edit) : Editor :=
  match e.session.edit x with
  | .ok (session, change) => ({ e with session }.handleLogged (.contentChanged [change])).1
  | .error _ => e

def editAll (e : Editor) (edits : List Edit) : Editor :=
  edits.foldl editNow e

/-- End the suspension of the bracket worker and let it come to rest. -/
def resumeBrackets (e : Editor) : Editor :=
  { e with highlighter := e.highlighter.steerBrackets e.highlighter.brackets.control.resume }
    |>.settleBrackets

/-- The brackets that are tracked. -/
def tracked (e : Editor) : List Bracket :=
  e.highlighter.brackets.job.tracker.brackets

/-- The regions that wait for the bracket worker. -/
def regions (e : Editor) : List Interval :=
  e.highlighter.brackets.job.backlog.all

/-- The bracket worker is alive, suspended and on, and it tracks all brackets of the document. -/
structure Suspended (pair : BracketPair) (e : Editor) : Prop where
  enabled : e.highlighter.bracketsEnabled = true
  running : e.highlighter.brackets.control.running = true
  live : e.highlighter.brackets.control.cancelled = false
  suspended : e.highlighter.brackets.control.suspendRequested = true
  quiet : e.highlighter.brackets.control.alarm = none
  sound : e.highlighter.brackets.job.Sound pair e.document
  complete : e.tracked = e.document.brackets pair

/-- None of the edits that go through starts directly behind a carriage return. -/
def Clear : Editor → List Edit → Prop
  | _, [] => True
  | e, x :: edits =>
    (∀ done, x.apply e.document = .ok done → ¬x.BehindReturn e.document) ∧ Clear (e.editNow x) edits

end Editor

/-! ## What an edit queues -/

namespace Editor

/-- An edit is refused, or it takes the document along and queues one region. -/
theorem editNow_cases {e : Editor} (enabled : e.highlighter.bracketsEnabled = true) (x : Edit) :
    e.editNow x = e ∨ ∃ d c, x.apply e.document = .ok (d, c) ∧ (e.editNow x).document = d ∧
      (e.editNow x).highlighter.brackets = e.highlighter.brackets.push (d.region c) ∧
      (e.editNow x).highlighter.bracketsEnabled = true := by
  rw [editNow]
  cases edited : e.session.edit x with
  | error _ => exact .inl rfl
  | ok done =>
      obtain ⟨d, c, applied, rfl⟩ := Session.edit_ok edited
      obtain ⟨queued, on⟩ := Highlighter.push_brackets enabled (d.region c)
      exact .inr ⟨d, c, applied, rfl, queued, on⟩

/-- What edits during a suspension leave behind. Everything that the bracket worker tracks is from
    before; what has changed since is in the regions that wait. -/
structure Behind (pair : BracketPair) (e e' : Editor) : Prop where
  enabled : e'.highlighter.bracketsEnabled = true
  ready : e'.highlighter.brackets.control.resume.Ready
  delimiters : e'.highlighter.brackets.job.pair = pair
  tracker : e'.highlighter.brackets.job.tracker = e.highlighter.brackets.job.tracker
  formed : e'.document.WellFormed
  evolved : Evolves e.document e'.document
  unchanged : e'.regions = [] → e'.document = e.document

theorem Suspended.behind {pair : BracketPair} {e : Editor} (h : Suspended pair e) :
    Behind pair e e :=
  ⟨h.enabled, ⟨h.running, h.live, rfl, h.quiet⟩, h.sound.delimiters, rfl, h.sound.formed, .refl _,
    fun _ => rfl⟩

theorem regions_push {e e' : Editor} {i : Interval}
    (queued : e'.highlighter.brackets = e.highlighter.brackets.push i) :
    e'.regions = e.regions ++ [i] := by
  rw [regions, queued, regions]
  simp only [BracketWorker.push, Backlog.push, Backlog.all, List.append_assoc]

theorem Behind.editNow {pair : BracketPair} {e e' : Editor} (h : Behind pair e e') (x : Edit) :
    Behind pair e (e'.editNow x) := by
  rcases editNow_cases h.enabled x with same | ⟨d, c, applied, document, queued, enabled⟩
  · rw [same]
    exact h
  · obtain ⟨formed, evolved⟩ := Edit.apply_step h.formed applied
    refine ⟨enabled, ?_, ?_, ?_, document ▸ formed, document ▸ h.evolved.trans evolved, ?_⟩
    · rw [queued]
      exact ⟨h.ready.running, h.ready.live, rfl, h.ready.quiet⟩
    · rw [queued]
      exact h.delimiters
    · rw [queued]
      exact h.tracker
    · rw [regions_push queued]
      simp

theorem Behind.editAll {pair : BracketPair} {e e' : Editor} (h : Behind pair e e')
    (edits : List Edit) : Behind pair e (e'.editAll edits) := by
  induction edits generalizing e' with
  | nil => exact h
  | cons x edits ih => exact ih (h.editNow x)

/-! ## What is tracked afterwards -/

theorem resumeBrackets_brackets (e : Editor) (pair : BracketPair) :
    e.resumeBrackets.document.brackets pair = e.document.brackets pair := by
  obtain ⟨connectors, drawn⟩ := BracketWorker.settle_document
    { e.highlighter.brackets with control := e.highlighter.brackets.control.resume } e.document
  have document : e.resumeBrackets.document = { e.document with connectors } := drawn
  rw [document]
  rfl

/-- The list holds brackets of the document in order: those it held before, and those that a region
    still reaches. -/
theorem Behind.resumeBrackets {pair : BracketPair} {e e' : Editor} (start : Suspended pair e)
    (h : Behind pair e e') :
    let list := e'.resumeBrackets.tracked
    (list.Pairwise fun a b => e'.document.Ahead a.position b.position) ∧
      ∀ b, b ∈ list ↔ e'.document.Holds pair b ∧ (b ∈ e.document.brackets pair ∨
        ∃ i ∈ e'.regions, Tracker.Reaches e'.document i b.position.block) := by
  have settled : e'.resumeBrackets.highlighter.brackets.job.tracker =
      e'.regions.foldl (fun t i => t.update pair e'.document i)
        e.highlighter.brackets.job.tracker := by
    rw [← h.delimiters, ← h.tracker]
    exact BracketWorker.settle_tracker h.ready e'.document
  have consistent := start.sound.consistent.evolves h.evolved
  obtain ⟨done, members⟩ := consistent.updateAll h.formed e'.regions (by
    intro none b member
    rw [h.unchanged none, ← start.sound.formed.mem_brackets, ← start.complete]
    exact member)
  intro list
  have list_eq : list = (e'.regions.foldl (fun t i => t.update pair e'.document i)
      e.highlighter.brackets.job.tracker).brackets := congrArg Tracker.brackets settled
  rw [list_eq]
  refine ⟨done.ordered, fun b => ?_⟩
  rw [members, ← start.complete]
  rfl

end Editor

/-! ## Rows that a region stands for -/

/-- The region is exactly the line of the row, or it has several lines and none of its ends is on
    the wrong side of the row. -/
inductive Interval.Marks (d : Document) (row : Row) : Interval → Prop
  | line : Marks d row ⟨⟨d.id, row.1.id, 0⟩, ⟨d.id, row.1.id, (Text.lineContent row.2).length⟩⟩
  | lines {i : Interval} (several : i.start.block ≠ i.stop.block)
      (issued : i.start.block < d.nextBlock ∧ i.stop.block < d.nextBlock)
      (first : ¬([row.1.id, i.start.block] : List Nat).Sublist d.ids)
      (last : ¬([i.stop.block, row.1.id] : List Nat).Sublist d.ids) : Marks d row i

namespace Document

theorem WellFormed.marks_stretch {d : Document} (h : d.WellFormed) {first last line : Nat}
    {row : Row} (found : d.rows[line]? = some row) (behind : first ≤ line) (before : line ≤ last)
    (inside : last < d.blocks.length) : (d.stretch first last).Marks d row := by
  have start := h.resolve?_place (Nat.lt_of_le_of_lt (Nat.le_trans behind before) inside)
    (Nat.zero_le (d.width first))
  have stop := h.resolve?_place inside (Nat.le_refl (d.width last))
  obtain ⟨-, start_index, -⟩ := resolve?_eq_some.mp start
  obtain ⟨-, stop_index, -⟩ := resolve?_eq_some.mp stop
  by_cases single : first = last
  · obtain rfl : line = first := by omega
    subst single
    rw [stretch, width_eq_length, content_of_row found, place_of_row found, place_of_row found]
    exact .line
  · have several : (d.stretch first last).start.block ≠ (d.stretch first last).stop.block := by
      intro same
      rw [stretch] at same
      rw [same, stop_index] at start_index
      exact single (Option.some.inj start_index).symm
    refine .lines several ⟨h.issued_of_index start_index, h.issued_of_index stop_index⟩ ?_ ?_
    · rw [stretch, h.pair_sublist_iff (h.index_of_row found) start_index]
      omega
    · rw [stretch, h.pair_sublist_iff stop_index (h.index_of_row found)]
      omega

end Document

theorem Interval.Marks.evolves {d d' : Document} {row : Row} {i : Interval} (h : i.Marks d row)
    (evolved : Evolves d d') (issued : row.1.id < d.nextBlock) : i.Marks d' row := by
  cases h with
  | line =>
      rw [← evolved.same]
      exact .line
  | lines several ends first last =>
      exact .lines several
        ⟨Nat.lt_of_lt_of_le ends.1 evolved.next, Nat.lt_of_lt_of_le ends.2 evolved.next⟩
        (fun later => first (evolved.pair_sublist issued ends.1 later))
        (fun later => last (evolved.pair_sublist ends.2 issued later))

/-- A region that a row stands in still reaches it, unless it has several lines and one of its ends
    is stale. -/
theorem Interval.Marks.reaches {d : Document} (formed : d.WellFormed) {line : Nat} {row : Row}
    (found : d.rows[line]? = some row) {i : Interval} (marks : i.Marks d row)
    (ends : i.start.block ≠ i.stop.block → d.isValid i.start = true ∧ d.isValid i.stop = true) :
    Tracker.Reaches d i row.1.id := by
  refine ⟨line, ?_, formed.index_of_row found⟩
  cases marks with
  | line =>
      have inside := formed.line_lt (formed.index_of_row found)
      have start := formed.resolve?_place inside (Nat.zero_le (d.width line))
      have stop := formed.resolve?_place inside (Nat.le_refl (d.width line))
      rw [place_of_row found] at start stop
      rw [width_eq_length, content_of_row found] at stop
      exact Tracker.mem_reach start stop (Nat.le_refl line) (Nat.le_refl line)
  | lines several issued first last =>
      obtain ⟨start_valid, stop_valid⟩ := ends several
      obtain ⟨⟨l, column⟩, start⟩ := Option.isSome_iff_exists.mp start_valid
      obtain ⟨⟨l', column'⟩, stop⟩ := Option.isSome_iff_exists.mp stop_valid
      obtain ⟨-, start_index, -⟩ := resolve?_eq_some.mp start
      obtain ⟨-, stop_index, -⟩ := resolve?_eq_some.mp stop
      rw [formed.pair_sublist_iff (formed.index_of_row found) start_index, Nat.not_lt] at first
      rw [formed.pair_sublist_iff stop_index (formed.index_of_row found), Nat.not_lt] at last
      exact Tracker.mem_reach start stop first last

/-- A bracket on a row that another document has too is a bracket of that document. -/
theorem Document.Holds.of_row {d d' : Document} (formed : d.WellFormed) (same : d.id = d'.id)
    {pair : BracketPair} {b : Bracket} (holds : d'.Holds pair b) {line : Nat} {row : Row}
    (found : d'.rows[line]? = some row) (index : d'.blockIndex? b.position.block = some line)
    (formed' : d'.WellFormed) (member : row ∈ d.rows) : d.Holds pair b := by
  obtain ⟨c, at_position, kind⟩ := holds
  obtain ⟨line', column, resolved, at_column⟩ := charAt?_eq_some.mp at_position
  obtain ⟨own, index', offset, fits⟩ := resolve?_eq_some.mp resolved
  obtain rfl := Option.some.inj (index.symm.trans index')
  obtain ⟨k, found_before⟩ := List.getElem?_of_mem member
  have block : b.position.block = row.1.id := by
    rw [formed'.blockIndex?_eq_some_iff] at index
    have := formed'.blockIndex?_eq_some_iff.mp (formed'.index_of_row found)
    exact Option.some.inj (index.symm.trans this)
  rw [width_eq_length, content_of_row found, ← content_of_row found_before] at fits
  rw [content_of_row found, ← content_of_row found_before] at at_column
  refine ⟨c, charAt?_eq_some.mpr ⟨k, column, resolve?_eq_some.mpr ⟨own.trans same.symm, ?_, offset,
    by rwa [width_eq_length]⟩, at_column⟩, kind⟩
  rw [block]
  exact formed.index_of_row found_before

namespace Editor

/-- Every row is from before or stands in a region that waits. -/
def Accounted (e e' : Editor) : Prop :=
  ∀ row ∈ e'.document.rows, row ∈ e.document.rows ∨ ∃ i ∈ e'.regions, i.Marks e'.document row

theorem Accounted.editNow {pair : BracketPair} {e e' : Editor} (h : Accounted e e')
    (behind : Behind pair e e') {x : Edit}
    (clear : ∀ done, x.apply e'.document = .ok done → ¬x.BehindReturn e'.document) :
    Accounted e (e'.editNow x) := by
  rcases editNow_cases behind.enabled x with same | ⟨d, c, applied, document, queued, -⟩
  · rw [same]
    exact h
  · obtain ⟨formed, evolved⟩ := Edit.apply_step behind.formed applied
    obtain ⟨before, old, new, after, replaces, region⟩ :=
      Edit.replaces behind.formed (clear _ applied) applied
    have count := replaces.count formed
    have new_pos := List.length_pos_iff.mpr replaces.some_new
    intro row member
    rw [document] at member ⊢
    rw [regions_push queued]
    obtain ⟨line, found⟩ := List.getElem?_of_mem member
    by_cases inside : before.length ≤ line ∧ line ≤ before.length + new.length - 1
    · refine .inr ⟨d.region c, List.mem_append_right _ (List.mem_singleton_self _), ?_⟩
      rw [region]
      exact formed.marks_stretch found inside.1 inside.2 (by omega)
    · obtain ⟨line', was_there⟩ := replaces.kept inside found
      have member := List.mem_of_getElem? was_there
      rcases h row member with old | ⟨i, waits, marks⟩
      · exact .inl old
      · exact .inr ⟨i, List.mem_append_left _ waits,
          marks.evolves evolved (behind.formed.issued_of_row member)⟩

theorem Accounted.editAll {pair : BracketPair} {e e' : Editor} (h : Accounted e e')
    (behind : Behind pair e e') {edits : List Edit} (clear : e'.Clear edits) :
    Accounted e (e'.editAll edits) := by
  induction edits generalizing e' with
  | nil => exact h
  | cons x edits ih => exact ih (h.editNow behind clear.1) (behind.editNow x) clear.2

theorem Accounted.reaches {pair : BracketPair} {e e' : Editor} (start : Suspended pair e)
    (behind : Behind pair e e') (h : Accounted e e')
    (ends : ∀ i ∈ e'.regions, i.start.block ≠ i.stop.block →
      e'.document.isValid i.start = true ∧ e'.document.isValid i.stop = true)
    {b : Bracket} (holds : e'.document.Holds pair b) : b ∈ e.document.brackets pair ∨
      ∃ i ∈ e'.regions, Tracker.Reaches e'.document i b.position.block := by
  obtain ⟨line, inside, index⟩ := holds.on_line behind.formed
  obtain ⟨text, found⟩ := behind.formed.row_of_block (List.getElem?_eq_getElem inside)
  have block : b.position.block = e'.document.blocks[line].id := by
    have := behind.formed.blockIndex?_eq_some_iff.mp index
    rw [blockId?, List.getElem?_eq_getElem inside, Option.map_some] at this
    exact (Option.some.inj this).symm
  rcases h _ (List.mem_of_getElem? found) with old | ⟨i, waits, marks⟩
  · left
    rw [start.sound.formed.mem_brackets]
    exact holds.of_row start.sound.formed behind.evolved.same.symm found index behind.formed old
  · right
    rw [block]
    exact ⟨i, waits, marks.reaches behind.formed found (ends i waits)⟩

end Editor

/-- Edits during a suspension. Afterwards the list is a part of the scan of the document, in order:
    the brackets that were there before and those that a region still reaches. So it is complete
    exactly if these are all; and they are if no edit starts behind a carriage return and both ends
    of every region of several blocks are live. -/
theorem brackets_after_suspension {pair : BracketPair} {e : Editor} (start : e.Suspended pair)
    (edits : List Edit) :
    let e' := e.editAll edits
    let list := e'.resumeBrackets.tracked
    let scan := e'.resumeBrackets.document.brackets pair
    list.Sublist scan ∧
      (∀ b ∈ scan, b ∈ list ↔ b ∈ e.document.brackets pair ∨
        ∃ i ∈ e'.regions, Tracker.Reaches e'.document i b.position.block) ∧
      (list = scan ↔ ∀ b ∈ scan, b ∈ e.document.brackets pair ∨
        ∃ i ∈ e'.regions, Tracker.Reaches e'.document i b.position.block) ∧
      (e.Clear edits → (∀ i ∈ e'.regions, i.start.block ≠ i.stop.block →
        e'.document.isValid i.start = true ∧ e'.document.isValid i.stop = true) →
        list = scan) := by
  intro e' list scan
  have behind : e.Behind pair e' := start.behind.editAll edits
  have scan_eq : scan = e'.document.brackets pair := e'.resumeBrackets_brackets pair
  obtain ⟨ordered, members⟩ := behind.resumeBrackets start
  obtain ⟨part, among, whole⟩ := behind.formed.part_of_scan ordered members
  rw [← scan_eq] at part among whole
  refine ⟨part, among, whole, fun clear ends => whole.mpr fun b member => ?_⟩
  have accounted : e.Accounted e' :=
    Editor.Accounted.editAll (fun row member => .inl member) start.behind clear
  rw [scan_eq, behind.formed.mem_brackets] at member
  exact accounted.reaches start behind ends member

/-- Three lines come in, and the last of them is then made shorter. The end of the first region is
    stale when its turn comes, and the brackets on the other two lines are lost. -/
theorem brackets_lost_in_suspension :
    let e : Editor := {
      session := .new {}
      highlighter := {
        brackets := { control := { started := true, running := true, suspendRequested := true } }
        registry := { root := "", mappingPath := "", definitionsDirectory := "", mapping := {} }
        keywordsEnabled := true
        bracketsEnabled := true }
      files := {} }
    let e' := e.editAll
      [.insert 0 ['\x7b', '\n', '\x7b', '\n', 'a', 'b', 'c'], .delete 6 7]
    let scan := e'.resumeBrackets.document.brackets {}
    e'.resumeBrackets.tracked = [] ∧ scan = [⟨⟨0, 0, 0⟩, .opening⟩, ⟨⟨0, 1, 0⟩, .opening⟩] ∧
      ¬∀ b ∈ scan, b ∈ e.document.brackets {} ∨
        ∃ i ∈ e'.regions, Tracker.Reaches e'.document i b.position.block := by
  intro e e' scan
  have start : e.Suspended {} := ⟨rfl, rfl, rfl, rfl, rfl,
    ⟨(Origin.new {}).wellFormed 0, rfl, .empty _ _⟩, by decide +kernel⟩
  have lost : e'.resumeBrackets.tracked = [] := by decide +kernel
  have present : scan = [⟨⟨0, 0, 0⟩, .opening⟩, ⟨⟨0, 1, 0⟩, .opening⟩] := by decide +kernel
  refine ⟨lost, present, fun reached => ?_⟩
  obtain ⟨-, -, complete, -⟩ := brackets_after_suspension start
    [.insert 0 ['\x7b', '\n', '\x7b', '\n', 'a', 'b', 'c'], .delete 6 7]
  cases (lost.symm.trans (complete.mpr reached)).trans present

end Highlight
