import Highlight.Proofs.Editor.LateDelivery

/-! # Switching bracket highlighting

While bracket highlighting is off, nothing is tracked and nothing is drawn, whatever happens to the
document. When it is switched on, or a file is opened while it is on, the list starts from nothing
and one region covers the whole document: edits of the time before leave no trace in it.
-/

namespace Highlight

open Document

namespace Editor

/-- The states of an editor whose workers are started and never suspended. The user edits, scrolls,
    opens files, chooses and registers languages and switches bracket highlighting; the files may
    change at any time. Events reach the highlighter in any order, late or not at all, and both
    workers come to rest behind each of them. `start` is the highlighter as it was made. -/
inductive Switching (config : Config) (start : Highlighter) : Editor → Prop
  | opened {registry : Registry} (made : Highlighter.new registry config = .ok start)
      (files : FileTree) (id : DocumentId) :
      Switching config start { session := .new config id, highlighter := start.start.1, files }
  | operation {e : Editor} (run : Switching config start e) (files : FileTree) (op : Operation) :
      Switching config start ({ e with files }.act op)
  | scroll {e : Editor} (run : Switching config start e) (top : Float) :
      Switching config start { e with session := e.session.scrollTo top }
  | toggle {e : Editor} (run : Switching config start e) (on : Bool) :
      Switching config start { e with session := e.session.toggleBrackets on }
  | event {e : Editor} (run : Switching config start e) (files : FileTree) (event : Event) :
      Switching config start ({ e with files }.handleLogged event).1.settle

end Editor

/-! ## The bracket worker comes to rest -/

namespace BracketWorker

/-- The worker can work, with the delimiters and the stroke it was made with. -/
structure Steady (pair : BracketPair) (stroke : Stroke) (w : BracketWorker) : Prop where
  ready : w.control.Ready
  delimiters : w.job.pair = pair
  drawing : w.job.stroke = stroke

/-- Nothing waits, nothing is tracked, and nothing is drawn or will be behind the next pass. -/
structure Blank (w : BracketWorker) (d : Document) : Prop where
  rested : w.job.backlog.all = []
  untracked : w.job.tracker = {}
  undrawn : d.connectors = [] ∨ w.job.redrawPending = true

/-- Forget what waits and what is tracked. -/
def reset (w : BracketWorker) : BracketWorker :=
  w.clearIntervals.clearBrackets

variable {pair : BracketPair} {stroke : Stroke} {w : BracketWorker}

theorem Steady.push (h : w.Steady pair stroke) (i : Interval) : (w.push i).Steady pair stroke :=
  ⟨h.ready.rest _ _, h.delimiters, h.drawing⟩

theorem Steady.pushAll (h : w.Steady pair stroke) (regions : List Interval) :
    (regions.foldl BracketWorker.push w).Steady pair stroke := by
  induction regions generalizing w with
  | nil => exact h
  | cons i regions ih => exact ih (h.push i)

theorem Steady.notifyScrolled (h : w.Steady pair stroke) : w.notifyScrolled.Steady pair stroke :=
  ⟨h.ready.rest _ _, h.delimiters, h.drawing⟩

theorem Steady.reset (h : w.Steady pair stroke) : w.reset.Steady pair stroke :=
  ⟨h.ready.rest _ _, h.delimiters, h.drawing⟩

theorem blank_reset (w : BracketWorker) (d : Document) : w.reset.Blank d :=
  ⟨rfl, rfl, .inr rfl⟩

theorem Steady.settle (h : w.Steady pair stroke) (d : Document) :
    (w.settle d).1.Steady pair stroke := by
  obtain ⟨ready, -, delimiters, -⟩ := settle_done h.ready d
  refine ⟨ready, delimiters.trans h.delimiters, ?_⟩
  simp only [BracketWorker.settle]
  apply Control.settle_invariant (BracketJob.work Control.tick) (s := (w.job, d))
    (P := fun s => s.1.stroke = stroke)
  · intro c s kept
    simp only [BracketJob.work]
    split <;> exact kept
  · exact h.drawing

/-- A worker that is asked for a pass draws what it then tracks. -/
theorem settle_drawn (ready : w.control.Ready) (d : Document)
    (asked : w.job.backlog.all ≠ [] ∨ w.job.redrawPending = true) :
    (w.settle d).2 = { d with
      connectors := connectorLines d w.job.stroke (w.settle d).1.job.tracker.brackets } := by
  have ready' := ready.rest false w.control.idle
  have rest : ¬(w.job.backlog.all.isEmpty ∧ ¬w.job.scrolled ∧ ¬w.job.redrawPending) := by
    rintro ⟨empty, -, settled⟩
    rcases asked with waits | redraw
    · exact waits (List.isEmpty_iff.mp empty)
    · exact settled redraw
  let job := { w.job with
    backlog := {}
    tracker := w.job.backlog.all.foldl (fun t i => t.update w.job.pair d i) w.job.tracker
    scrolled := false
    redrawPending := false }
  have busy : BracketJob.work Control.tick { w.control with parked := false } (w.job, d) =
      ({ w.control with parked := false }, (job, job.redraw d), .busy) := by
    simp only [BracketJob.work, if_neg rest, Backlog.pass_ready ready', ready'.tick]
    rfl
  have idle : BracketJob.work Control.tick { w.control with parked := false }
      (job, job.redraw d) = ({ w.control with parked := false }, (job, job.redraw d), .idle) :=
    rfl
  simp only [BracketWorker.settle, Control.settle_busy ready busy, Control.settle_idle ready' idle]
  rfl

theorem Blank.settle {d : Document} (h : w.Blank d) (ready : w.control.Ready) :
    (w.settle d).1.Blank (w.settle d).2 ∧ (w.settle d).2.connectors = [] := by
  obtain ⟨-, rested, -, tracker⟩ := settle_done ready d
  rw [h.rested, List.foldl_nil, h.untracked] at tracker
  have undrawn : (w.settle d).2.connectors = [] := by
    by_cases redraw : w.job.redrawPending = true
    · rw [settle_drawn ready d (.inr redraw), tracker]
      rfl
    · -- Only a pass of an empty list can draw now, and it draws nothing.
      have blank : d.connectors = [] := h.undrawn.resolve_right redraw
      have kept := Control.settle_invariant (BracketJob.work Control.tick) (s := (w.job, d))
        (P := fun s => s.1.backlog.all = [] ∧ s.1.tracker = {} ∧ s.2.connectors = []) ?_
        (w.job.backlog.all.length + 3) w.control ⟨h.rested, h.untracked, blank⟩
      · exact kept.2.2
      · rintro c ⟨job, d'⟩ ⟨none, untracked, undrawn⟩
        dsimp only at none untracked undrawn
        simp only [BracketJob.work, none, Backlog.pass]
        split
        · exact ⟨none, untracked, undrawn⟩
        · refine ⟨rfl, untracked, ?_⟩
          simp only [BracketJob.redraw, untracked]
          rfl
  exact ⟨⟨rested, tracker, .inl undrawn⟩, undrawn⟩

end BracketWorker

/-- From nothing, the whole document as a region gives all its brackets. -/
theorem Document.WellFormed.update_whole {d : Document} (h : d.WellFormed) (pair : BracketPair) :
    (Tracker.update pair d d.whole {}).brackets = d.brackets pair := by
  obtain ⟨consistent, members⟩ := (Tracker.Consistent.empty pair d).update h d.whole
  obtain ⟨-, -, complete⟩ := h.part_of_scan consistent.ordered members
  refine complete.mpr fun b member => .inr ?_
  obtain ⟨line, inside, index⟩ := (h.mem_brackets.mp member).on_line h
  refine ⟨line, ?_, index⟩
  exact Tracker.mem_reach (h.resolve?_place h.blocks_pos (Nat.zero_le _))
    (h.resolve?_place (Nat.sub_lt h.blocks_pos Nat.one_pos) (Nat.le_refl _)) (Nat.zero_le line)
    (by omega)

/-! ## What an event does to the bracket worker -/

namespace Highlighter

/-- The whole effect of an event on the bracket worker and its switch. -/
inductive Stirs (d : Document) (h h' : Highlighter) : Prop
  | not (same : h'.brackets = h.brackets) (switch : h'.bracketsEnabled = h.bracketsEnabled)
  | regions (on : h.bracketsEnabled = true) (still : h'.bracketsEnabled = true)
      (regions : List Interval) (queued : h'.brackets = regions.foldl BracketWorker.push h.brackets)
  | scrolled (on : h.bracketsEnabled = true) (still : h'.bracketsEnabled = true)
      (told : h'.brackets = h.brackets.notifyScrolled)
  /-- A file is opened while the switch is on. -/
  | renewed (on : h.bracketsEnabled = true) (still : h'.bracketsEnabled = true)
      (queued : h'.brackets = h.brackets.reset.push d.whole)
  | switchedOn (off : h.bracketsEnabled = false) (now : h'.bracketsEnabled = true)
      (queued : h'.brackets = h.brackets.push d.whole)
  /-- The switch is turned off, or a file is opened while it is off. -/
  | cleared (off : h'.bracketsEnabled = false) (blank : h'.brackets = h.brackets.reset)

theorem brackets_pushBrackets (h : Highlighter) (i : Interval) :
    (h.pushBrackets i).bracketsEnabled = h.bracketsEnabled ∧ (h.pushBrackets i).brackets =
      if h.bracketsEnabled then h.brackets.push i else h.brackets := by
  rw [pushBrackets]
  split
  · exact ⟨rfl, rfl⟩
  · exact ⟨rfl, rfl⟩

theorem stirs_contentChanged (h : Highlighter) (d : Document) (changes : List Change) :
    Stirs d h (changes.foldl (fun h c => h.push (d.region c)) h) := by
  have pushed (h : Highlighter) (i : Interval) : (h.push i).bracketsEnabled = h.bracketsEnabled ∧
      (h.push i).brackets = if h.bracketsEnabled then h.brackets.push i else h.brackets := by
    simpa only [push, bracketsEnabled_pushKeywords, brackets_pushKeywords] using
      brackets_pushBrackets (h.pushKeywords i) i
  cases on : h.bracketsEnabled with
  | false =>
      have same : (changes.foldl (fun h c => h.push (d.region c)) h).brackets = h.brackets ∧
          (changes.foldl (fun h c => h.push (d.region c)) h).bracketsEnabled = false := by
        induction changes generalizing h with
        | nil => exact ⟨rfl, on⟩
        | cons c changes ih =>
            obtain ⟨switch, brackets⟩ := pushed h (d.region c)
            rw [on] at switch brackets
            rw [List.foldl_cons]
            exact ⟨(ih _ switch).1.trans brackets, (ih _ switch).2⟩
      exact .not same.1 (same.2.trans on.symm)
  | true =>
      have queued : (changes.foldl (fun h c => h.push (d.region c)) h).brackets =
          (changes.map d.region).foldl BracketWorker.push h.brackets ∧
          (changes.foldl (fun h c => h.push (d.region c)) h).bracketsEnabled = true := by
        induction changes generalizing h with
        | nil => exact ⟨rfl, on⟩
        | cons c changes ih =>
            obtain ⟨switch, brackets⟩ := pushed h (d.region c)
            rw [on] at switch brackets
            rw [List.foldl_cons, List.map_cons, List.foldl_cons]
            exact ⟨(ih _ switch).1.trans (by rw [brackets, if_pos rfl]), (ih _ switch).2⟩
      exact .regions on queued.2 _ queued.1

theorem brackets_setLanguage (h : Highlighter) (d : Document) (language : Option Language) :
    (h.setLanguage d language).1.brackets = h.brackets ∧
      (h.setLanguage d language).1.bracketsEnabled = h.bracketsEnabled := by
  simp only [setLanguage, brackets_pushKeywords, bracketsEnabled_pushKeywords, and_self]

theorem brackets_showFile (h : Highlighter) (files : FileTree) (d : Document) (path : String) :
    (h.showFile files d path).1.bracketsEnabled = h.bracketsEnabled ∧
      (h.showFile files d path).1.brackets =
        if h.bracketsEnabled then h.brackets.reset.push d.whole else h.brackets.reset := by
  let h' : Highlighter := { h.resetBrackets with path := some path }
  obtain ⟨brackets, switch⟩ := h'.brackets_setLanguage d (h'.detect files path)
  obtain ⟨kept, queued⟩ :=
    brackets_pushBrackets (h'.setLanguage d (h'.detect files path)).1 d.whole
  rw [switch, brackets] at queued
  exact ⟨kept.trans switch, queued⟩

theorem stirs_switchBrackets (h : Highlighter) (d : Document) (on : Bool) :
    Stirs d h (h.switchBrackets d on) := by
  rw [switchBrackets]
  split
  · exact .not rfl rfl
  · rename_i changed
    cases on with
    | true =>
        have off : h.bracketsEnabled = false := by simpa using Ne.symm changed
        exact .switchedOn off rfl rfl
    | false => exact .cleared rfl rfl

theorem handle_stirs {h : Highlighter} {files : FileTree} {d : Document} {event : Event}
    {done : Highlighter × List Event} (ok : h.handle files d event = .ok done) :
    Stirs d h done.1 := by
  cases event with
  | contentChanged changes =>
      cases ok
      exact h.stirs_contentChanged d changes
  | fileOpened path =>
      cases ok
      obtain ⟨switch, brackets⟩ := h.brackets_showFile files d path
      cases on : h.bracketsEnabled with
      | false => exact .cleared (switch.trans on) (by simpa [on] using brackets)
      | true => exact .renewed on (switch.trans on) (by simpa [on] using brackets)
  | bracketsToggled on =>
      cases ok
      exact h.stirs_switchBrackets d on
  | scrolled top =>
      cases ok
      cases on : h.bracketsEnabled with
      | false => exact .not rfl rfl
      | true => exact .scrolled on rfl rfl
  | languageSelected name =>
      simp only [handle, select] at ok
      split at ok
      · cases ok
      · cases ok
      · cases ok
        exact .not (h.brackets_setLanguage d _).1 (h.brackets_setLanguage d _).2
  | languageUploaded name =>
      simp only [handle] at ok
      split at ok
      · cases ok
        exact .not (h.brackets_setLanguage d _).1 (h.brackets_setLanguage d _).2
      · cases ok
        exact .not rfl rfl
  | languageChanged name | quit =>
      cases ok
      exact .not rfl rfl

end Highlighter

/-! ## Runs -/

/-- An edit keeps the overlay or takes it away. -/
theorem Edit.apply_connectors {d d' : Document} {x : Edit} {c : Change}
    (ok : x.apply d = .ok (d', c)) (empty : d.connectors = []) : d'.connectors = [] := by
  cases x with
  | insert offset text =>
      obtain ⟨-, rfl, -⟩ := insert_ok ok
      exact empty
  | delete start stop =>
      obtain ⟨-, -, rfl, -⟩ := delete_ok ok
      exact empty
  | replaceBlock index text =>
      obtain ⟨-, cleared, removed, added, deleted, inserted, -⟩ := replaceBlock_ok ok
      obtain ⟨-, -, rfl, -⟩ := delete_ok deleted
      obtain ⟨-, rfl, -⟩ := insert_ok inserted
      exact empty
  | setText text =>
      obtain ⟨rfl, -⟩ := setText_ok ok
      rfl

namespace Editor

variable {pair : BracketPair} {stroke : Stroke} {e : Editor}

/-- The bracket worker can work, and if it is switched off, there is nothing for it to show. -/
structure Switched (pair : BracketPair) (stroke : Stroke) (e : Editor) : Prop where
  formed : e.document.WellFormed
  steady : e.highlighter.brackets.Steady pair stroke
  off : e.highlighter.bracketsEnabled = false → e.highlighter.brackets.Blank e.document

/-- The keyword worker leaves text, blocks and overlay alone. -/
theorem settleKeywords_document (w : KeywordWorker) (d : Document) :
    Alike d (w.settle d).2 ∧ (w.settle d).2.connectors = d.connectors := by
  obtain ⟨blocks, same, ids⟩ := (w.settle_restyles d).blocks
  rw [same]
  exact ⟨⟨rfl, rfl, ids⟩, rfl⟩

theorem Switched.settle (h : Switched pair stroke e) : Switched pair stroke e.settle ∧
    (e.highlighter.bracketsEnabled = false → e.settle.document.connectors = []) := by
  let d := (e.highlighter.keywords.settle e.document).2
  have restyled := e.highlighter.keywords.settle_restyles e.document
  obtain ⟨-, overlay⟩ := settleKeywords_document e.highlighter.keywords e.document
  obtain ⟨connectors, drawn⟩ := BracketWorker.settle_document e.highlighter.brackets d
  have document : e.settle.document = { d with connectors } := drawn
  have formed : d.WellFormed := restyled.formed h.formed
  have blank (off : e.highlighter.bracketsEnabled = false) : e.highlighter.brackets.Blank d :=
    ⟨(h.off off).rested, (h.off off).untracked, (h.off off).undrawn.imp_left overlay.trans⟩
  refine ⟨⟨?_, h.steady.settle d, ?_⟩, ?_⟩
  · rw [document]
    exact ⟨formed.count, formed.distinct, formed.issued⟩
  · exact fun off => ((blank off).settle h.steady.ready).1
  · exact fun off => ((blank off).settle h.steady.ready).2

theorem Switched.stirs {h' : Highlighter} {e' : Editor} (h : Switched pair stroke e)
    (stirs : e.highlighter.Stirs e.document h') (highlighter : e'.highlighter = h')
    (document : e'.document = e.document) : Switched pair stroke e' := by
  subst highlighter
  have formed := document ▸ h.formed
  rw [← document] at stirs
  cases stirs with
  | not same switch =>
      refine ⟨formed, same ▸ h.steady, fun off => ?_⟩
      rw [same, document]
      exact h.off (switch.symm.trans off)
  | regions on still regions queued =>
      refine ⟨formed, queued ▸ h.steady.pushAll regions, fun off => ?_⟩
      rw [still] at off
      cases off
  | scrolled on still told =>
      refine ⟨formed, told ▸ h.steady.notifyScrolled, fun off => ?_⟩
      rw [still] at off
      cases off
  | renewed on still queued =>
      refine ⟨formed, queued ▸ h.steady.reset.push _, fun off => ?_⟩
      rw [still] at off
      cases off
  | switchedOn off now queued =>
      refine ⟨formed, queued ▸ h.steady.push _, fun off' => ?_⟩
      rw [now] at off'
      cases off'
  | cleared off blank =>
      refine ⟨formed, blank ▸ h.steady.reset, fun _ => ?_⟩
      rw [blank]
      exact BracketWorker.blank_reset _ _

theorem Switched.handleLogged (h : Switched pair stroke e) (event : Event) :
    Switched pair stroke (e.handleLogged event).1 := by
  cases handled : e.highlighter.handle e.files e.document event with
  | error error =>
      rw [handleLogged_error handled]
      exact h
  | ok done =>
      rw [handleLogged_ok handled]
      exact h.stirs (Highlighter.handle_stirs handled) rfl rfl

/-- A document after an operation: well formed, and without an overlay if it had none. -/
theorem act_document (formed : e.document.WellFormed) (op : Operation) :
    (e.act op).document.WellFormed ∧
      (e.document.connectors = [] → (e.act op).document.connectors = []) := by
  cases op with
  | openFile path =>
      simp only [act]
      cases opened : e.session.openFile e.files path with
      | error _ => exact ⟨formed, id⟩
      | ok session =>
          obtain ⟨text, rfl⟩ := Session.openFile_ok opened
          have loaded := WellFormed.setText e.session.document text
          exact ⟨⟨loaded.count, loaded.distinct, loaded.issued⟩, fun _ => rfl⟩
  | edit x =>
      rw [act_edit]
      cases applied : x.apply e.document with
      | error _ => exact ⟨formed, id⟩
      | ok edited =>
          exact ⟨(Edit.apply_step formed applied).1, Edit.apply_connectors applied⟩
  | selectLanguage name | announceLanguage name => exact ⟨formed, id⟩
  | uploadLanguage tag path =>
      simp only [act, upload]
      rcases e.highlighter.registry.upload e.files tag path with ⟨registry, files, error | name⟩
      · exact ⟨formed, id⟩
      · exact ⟨formed, id⟩

theorem act_brackets (e : Editor) (op : Operation) :
    (e.act op).highlighter.brackets = e.highlighter.brackets ∧
      (e.act op).highlighter.bracketsEnabled = e.highlighter.bracketsEnabled := by
  cases op with
  | openFile path =>
      simp only [act]
      split <;> exact ⟨rfl, rfl⟩
  | edit x =>
      simp only [act]
      split <;> exact ⟨rfl, rfl⟩
  | selectLanguage name | announceLanguage name => exact ⟨rfl, rfl⟩
  | uploadLanguage tag path =>
      simp only [act, upload]
      split <;> exact ⟨rfl, rfl⟩

theorem Switched.opened {config : Config} {registry : Registry} {start : Highlighter}
    (made : Highlighter.new registry config = .ok start) (files : FileTree) (id : DocumentId) :
    Switched ⟨config.brackets.opening, config.brackets.closing⟩ start.brackets.job.stroke
      { session := .new config id, highlighter := start.start.1, files } := by
  have fresh : start.keywords = {} ∧ start.brackets.control = {} ∧ start.brackets.job =
      { pair := ⟨config.brackets.opening, config.brackets.closing⟩,
        stroke := start.brackets.job.stroke } := by
    simp only [Highlighter.new, BracketWorker.ofConfig, bind, Except.bind] at made
    cases brush : Brush.parse config.brackets.stroke with
    | error _ => simp [brush, Except.mapError] at made
    | ok brush' =>
        simp only [brush, pure, Except.pure, Except.mapError, Except.ok.injEq] at made
        rw [← made]
        exact ⟨rfl, rfl, rfl⟩
  have control : ({} : Control).run = .ok { started := true, running := true } := rfl
  have brackets : start.start.1.brackets =
      ⟨{ started := true, running := true }, start.brackets.job⟩ := by
    simp only [Highlighter.start, fresh.1, control, Highlighter.steerKeywords, fresh.2.1,
      Highlighter.steerBrackets]
  refine ⟨(Origin.new config.view).wellFormed id, ?_, fun _ => ?_⟩
  · rw [brackets]
    exact ⟨⟨rfl, rfl, rfl, rfl⟩, by rw [fresh.2.2], rfl⟩
  · rw [brackets, fresh.2.2]
    exact ⟨rfl, rfl, .inl rfl⟩

/-- What holds at every point of a run. -/
theorem Switching.switched {config : Config} {start : Highlighter}
    (run : Switching config start e) :
    Switched ⟨config.brackets.opening, config.brackets.closing⟩ start.brackets.job.stroke e ∧
      (e.highlighter.bracketsEnabled = false → e.document.connectors = []) := by
  induction run with
  | opened made files id => exact ⟨.opened made files id, fun _ => rfl⟩
  | @operation e run files op ih =>
      obtain ⟨h, undrawn⟩ := ih
      obtain ⟨formed, empty⟩ := act_document (e := { e with files }) h.formed op
      obtain ⟨brackets, switch⟩ := act_brackets { e with files } op
      refine ⟨⟨formed, brackets ▸ h.steady, fun off => ?_⟩, fun off => ?_⟩
      · have off' := switch.symm.trans off
        rw [brackets]
        exact ⟨(h.off off').rested, (h.off off').untracked, .inl (empty (undrawn off'))⟩
      · exact empty (undrawn (switch.symm.trans off))
  | scroll run top ih =>
      obtain ⟨h, undrawn⟩ := ih
      refine ⟨⟨⟨h.formed.count, h.formed.distinct, h.formed.issued⟩, h.steady, fun off => ?_⟩,
        undrawn⟩
      exact ⟨(h.off off).rested, (h.off off).untracked, (h.off off).undrawn⟩
  | toggle run on ih =>
      obtain ⟨h, undrawn⟩ := ih
      exact ⟨⟨h.formed, h.steady, h.off⟩, undrawn⟩
  | @event e run files event ih =>
      have moved : Switched _ _ { e with files } := ⟨ih.1.formed, ih.1.steady, ih.1.off⟩
      exact (moved.handleLogged event).settle

/-- The bracket worker starts from nothing, with the whole document to do. -/
structure Renewed (d : Document) (e : Editor) : Prop where
  document : e.document = d
  waits : e.regions = [d.whole]
  untracked : e.highlighter.brackets.job.tracker = {}

theorem Switched.renewed (h : Switched pair stroke e) {event : Event}
    (turns : event = .bracketsToggled true ∧ e.highlighter.bracketsEnabled = false ∨
      ∃ path, event = .fileOpened path ∧ e.highlighter.bracketsEnabled = true) :
    (e.handleLogged event).1.highlighter.bracketsEnabled = true ∧
      Renewed e.document (e.handleLogged event).1 := by
  rcases turns with ⟨rfl, off⟩ | ⟨path, rfl, on⟩
  · have handled : (e.handleLogged (.bracketsToggled true)).1 = _ := handleLogged_ok rfl
    have switched : e.highlighter.switchBrackets e.document true =
        { e.highlighter with
          bracketsEnabled := true
          brackets := e.highlighter.brackets.push e.document.whole } := by
      simp [Highlighter.switchBrackets, off, Highlighter.pushBrackets]
    have highlighter : (e.handleLogged (.bracketsToggled true)).1.highlighter = _ :=
      (congrArg Editor.highlighter handled).trans switched
    have rested := (h.off off).rested
    refine ⟨by rw [highlighter], by rw [handled]; rfl, ?_, ?_⟩
    · rw [regions_push (e := e) (by rw [highlighter]), regions, rested]
      rfl
    · rw [highlighter]
      exact (h.off off).untracked
  · have handled : (e.handleLogged (.fileOpened path)).1 = _ := handleLogged_ok rfl
    obtain ⟨switch, brackets⟩ := e.highlighter.brackets_showFile e.files e.document path
    rw [on, if_pos rfl] at brackets
    have worker : (e.handleLogged (.fileOpened path)).1.highlighter.brackets = _ :=
      (congrArg (·.highlighter.brackets) handled).trans brackets
    refine ⟨?_, by rw [handled]; rfl, ?_, by rw [worker]; rfl⟩
    · exact (congrArg (·.highlighter.bracketsEnabled) handled).trans (switch.trans on)
    · rw [regions, worker]
      rfl

/-- From an empty list and the whole document, the worker tracks and draws all brackets. -/
theorem Switched.resync (h : Switched pair stroke e) {document : Document}
    (renewed : Renewed document e) :
    e.settle.tracked = e.settle.document.brackets pair ∧
      e.settle.document.connectors =
        connectorLines e.settle.document stroke (e.settle.document.brackets pair) := by
  obtain ⟨rfl, waits, untracked⟩ := renewed
  let d := (e.highlighter.keywords.settle e.document).2
  have formed : d.WellFormed := (e.highlighter.keywords.settle_restyles e.document).formed h.formed
  obtain ⟨alike, -⟩ := settleKeywords_document e.highlighter.keywords e.document
  have whole : e.document.whole = d.whole := by
    simp only [Document.whole, contentStart, contentEnd, d, alike.place, alike.width,
      alike.blockCount]
  have tracker : e.settle.highlighter.brackets.job.tracker = Tracker.update pair d d.whole {} := by
    refine (BracketWorker.settle_tracker h.steady.ready d).trans ?_
    change e.regions.foldl _ _ = _
    rw [waits, whole, untracked, h.steady.delimiters]
    rfl
  have list : e.settle.tracked = d.brackets pair :=
    (congrArg Tracker.brackets tracker).trans (formed.update_whole pair)
  have asked : e.highlighter.brackets.job.backlog.all ≠ [] := by
    change e.regions ≠ []
    simp [waits]
  have drawn : e.settle.document = _ :=
    BracketWorker.settle_drawn h.steady.ready d (.inl asked)
  have tracked : (e.highlighter.brackets.settle d).1.job.tracker.brackets = d.brackets pair := list
  rw [h.steady.drawing, tracked] at drawn
  rw [drawn]
  exact ⟨list, rfl⟩

end Editor

/-- While bracket highlighting is off, nothing is tracked or drawn. When an event switches it on, or
    tells of an opened file while it is on, the list becomes the scan of the document as it is by
    then, and the overlay shows the connectors of that list. -/
theorem brackets_follow_switch {config : Config} {start : Highlighter} {e : Editor}
    (run : e.Switching config start) :
    let pair : BracketPair := ⟨config.brackets.opening, config.brackets.closing⟩
    let tracker := e.highlighter.brackets.job.tracker
    (e.highlighter.bracketsEnabled = false →
      tracker.brackets = [] ∧ tracker.known = [] ∧ e.document.connectors = []) ∧
    ∀ (files : FileTree) (event : Event),
      (event = .bracketsToggled true ∧ e.highlighter.bracketsEnabled = false ∨
        ∃ path, event = .fileOpened path ∧ e.highlighter.bracketsEnabled = true) →
      let e' := ({ e with files }.handleLogged event).1.settle
      e'.highlighter.bracketsEnabled = true ∧ e'.document.text = e.document.text ∧
        e'.tracked = e'.document.brackets pair ∧
        e'.document.connectors =
          connectorLines e'.document start.brackets.job.stroke (e'.document.brackets pair) := by
  intro pair tracker
  obtain ⟨h, undrawn⟩ := run.switched
  refine ⟨fun off => ?_, fun files event turns => ?_⟩
  · have untracked : tracker = {} := (h.off off).untracked
    rw [untracked]
    exact ⟨rfl, rfl, undrawn off⟩
  · let e₁ := ({ e with files }.handleLogged event).1
    have moved : Editor.Switched pair start.brackets.job.stroke { e with files } :=
      ⟨h.formed, h.steady, h.off⟩
    obtain ⟨enabled, renewed⟩ :
        e₁.highlighter.bracketsEnabled = true ∧ Editor.Renewed e.document e₁ := moved.renewed turns
    obtain ⟨list, overlay⟩ := (moved.handleLogged event).resync renewed
    refine ⟨enabled, ?_, list, overlay⟩
    obtain ⟨alike, -⟩ := Editor.settleKeywords_document e₁.highlighter.keywords e₁.document
    obtain ⟨connectors, drawn⟩ := BracketWorker.settle_document e₁.highlighter.brackets
      (e₁.highlighter.keywords.settle e₁.document).2
    have settled : e₁.settle.document = _ := drawn
    rw [settled, ← renewed.document]
    exact alike.text

/-- A pair of brackets comes in while they are off, and is tracked when they are switched on. -/
theorem brackets_follow_switch_pair : ∃ (start : Highlighter) (e : Editor),
    e.Switching { bracketsEnabled := false } start ∧
    (e.highlighter.bracketsEnabled = false ∧ e.document.text = ['\x7b', '\r', '\n', '\x7d'] ∧
      e.tracked = [] ∧ e.document.connectors = []) ∧
    let e' := (e.handleLogged (.bracketsToggled true)).1.settle
    e'.tracked = [⟨⟨0, 0, 0⟩, .opening⟩, ⟨⟨0, 1, 0⟩, .closing⟩] ∧
      e'.document.connectors =
        connectorLines e'.document start.brackets.job.stroke (e'.document.brackets {}) := by
  let registry : Registry :=
    { root := "", mappingPath := "", definitionsDirectory := "", mapping := {} }
  let start : Highlighter :=
    { brackets := {}, registry, keywordsEnabled := true, bracketsEnabled := false }
  have made : Highlighter.new registry { bracketsEnabled := false } = .ok start := rfl
  let opened : Editor :=
    { session := .new { bracketsEnabled := false }, highlighter := start.start.1, files := {} }
  let edited := opened.act (.edit (.insert 0 ['\x7b', '\r', '\n', '\x7d']))
  let e := ({ edited with files := {} }.handleLogged (.contentChanged [⟨0, 4, 0⟩])).1.settle
  have run : e.Switching { bracketsEnabled := false } start :=
    ((Editor.Switching.opened made {} 0).operation {} _).event {} _
  have off : e.highlighter.bracketsEnabled = false := by decide +kernel
  obtain ⟨blank, turned⟩ := brackets_follow_switch run
  obtain ⟨untracked, -, undrawn⟩ := blank off
  obtain ⟨-, -, -, overlay⟩ := turned {} (.bracketsToggled true) (.inl ⟨rfl, off⟩)
  exact ⟨start, e, run, ⟨off, by decide +kernel, untracked, undrawn⟩, by decide +kernel, overlay⟩

end Highlight
