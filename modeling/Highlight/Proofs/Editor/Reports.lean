import Highlight.Proofs.Document.Frame
import Highlight.Proofs.Editor.Operation
import Mathlib.Algebra.GroupWithZero.Nat

/-! # What a session tells about its edits

The highlighter never compares texts: it trusts the change that a session announces. Here a change
is held against the text before and after it. A refused edit is followed in place, where the
replacement of a block could stop between its two halves; that it never does is what makes the
refusals of the session harmless.
-/

namespace Highlight

open Document

/-- The text that an edit brings. -/
def Edit.given : Edit → List Char
  | .insert _ text => text
  | .delete _ _ => []
  | .replaceBlock _ text => text
  | .setText text => text

/-- The edit reaches for something that the document does not have. -/
def Edit.Outside (d : Document) : Edit → Prop
  | .insert offset _ => d.length < offset
  | .delete start stop => d.length < stop ∨ stop < start
  | .replaceBlock index _ => d.blocks.length ≤ index
  | .setText _ => False

/-- A change tells how one text becomes another by a given text. -/
structure Change.Describes (c : Change) (d d' : Document) (given : List Char) : Prop where
  inside : c.offset + c.removed ≤ d.length
  added : c.added = given.length
  text : d'.text = d.text.take c.offset ++ given ++ d.text.drop (c.offset + c.removed)

theorem Change.Describes.length {c : Change} {d d' : Document} {given : List Char}
    (h : c.Describes d d' given) : d'.length + c.removed = d.length + c.added := by
  have inside : c.offset + c.removed ≤ d.text.length := h.inside
  have added := h.added
  rw [Document.length, Document.length, h.text]
  simp only [List.length_append, List.length_take, List.length_drop]
  omega

/-! ## Edits of a document -/

theorem Edit.apply_error_iff {d : Document} (formed : d.WellFormed) (x : Edit) :
    (∃ e, x.apply d = .error e) ↔ x.Outside d := by
  cases x with
  | insert offset text =>
      simp only [apply, Document.insert, Outside]
      split <;> simp <;> omega
  | delete start stop =>
      simp only [apply, Document.delete, Outside]
      split
      · simp_all
      · split <;> simp <;> omega
  | replaceBlock index text =>
      simp only [apply, Outside]
      constructor
      · rintro ⟨e, refused⟩
        by_contra inside
        obtain ⟨d', c, ok⟩ := formed.replaceBlock_of_lt (Nat.lt_of_not_le inside) text
        simp [ok] at refused
      · intro outside
        refine ⟨.blockOutOfBounds index, ?_⟩
        simp only [Document.replaceBlock, if_pos outside]
        rfl
  | setText text => simp [apply, Outside]

theorem Edit.apply_describes {d d' : Document} {x : Edit} {c : Change} (formed : d.WellFormed)
    (ok : x.apply d = .ok (d', c)) : c.offset = x.start d ∧ c.Describes d d' x.given := by
  cases x with
  | insert offset text =>
      obtain ⟨inside, rfl, rfl⟩ := insert_ok ok
      exact ⟨rfl, inside, rfl, rfl⟩
  | delete start stop =>
      obtain ⟨ordered, inside, rfl, rfl⟩ := delete_ok ok
      have stop_eq : start + (stop - start) = stop := by omega
      refine ⟨rfl, stop_eq.symm ▸ inside, rfl, ?_⟩
      simp only [withText, given, List.append_nil, stop_eq]
  | replaceBlock index text =>
      obtain ⟨inside, cleared, removed, added, deleted, inserted, rfl⟩ := replaceBlock_ok ok
      obtain ⟨before, brk, rest, framed⟩ := formed.exists_framed inside
      obtain ⟨-, -, rfl, rfl⟩ := delete_ok deleted
      obtain ⟨-, rfl, rfl⟩ := insert_ok inserted
      have width_eq : d.lineStart index + d.width index - d.lineStart index = d.width index :=
        Nat.add_sub_cancel_left _ _
      refine ⟨rfl, ?_, rfl, ?_⟩
      · rw [width_eq]
        exact framed.stop_le
      · simp only [withText, given, width_eq, framed.take_text, framed.drop_text]
        rw [framed.lineStart_eq, List.take_left, List.drop_left]
  | setText text =>
      obtain ⟨rfl, rfl⟩ := setText_ok ok
      refine ⟨rfl, Nat.le_of_eq (Nat.zero_add _), rfl, ?_⟩
      simp [Document.setText, given, Document.length]

namespace Document

/-- A document after a call that either edits it or refuses, with the call's answer. -/
def answered (d : Document) :
    Except EditError (Document × Change) → Document × Except EditError Change
  | .ok (edited, c) => (edited, .ok c)
  | .error e => (d, .error e)

/-- An edit in place, with the document as it is left behind also where the edit is refused. A
    block is replaced in two halves, and the first would stand if the second were refused. -/
def mutate (d : Document) : Edit → Document × Except EditError Change
  | .replaceBlock index text =>
    if d.blocks.length ≤ index then (d, .error (.blockOutOfBounds index))
    else
      let start := d.lineStart index
      match d.answered (d.delete start (start + d.width index)) with
      | (cleared, .error e) => (cleared, .error e)
      | (cleared, .ok removed) =>
        let (filled, added) := cleared.answered (cleared.insert start text)
        (filled, added.map fun added => ⟨start, added.added, removed.removed⟩)
  | x => d.answered (x.apply d)

/-- No edit stops halfway. -/
theorem WellFormed.mutate_eq {d : Document} (formed : d.WellFormed) (x : Edit) :
    d.mutate x = d.answered (x.apply d) := by
  cases x with
  | replaceBlock index text =>
      by_cases outside : d.blocks.length ≤ index
      · simp only [mutate, Edit.apply, replaceBlock, if_pos outside]
        rfl
      · obtain ⟨d', c, ok⟩ := formed.replaceBlock_of_lt (Nat.lt_of_not_le outside) text
        obtain ⟨-, cleared, removed, added, deleted, inserted, rfl⟩ := replaceBlock_ok ok
        simp only [mutate, if_neg outside, deleted, answered, inserted, Edit.apply, ok, Except.map]
  | insert | delete | setText => rfl

end Document

/-! ## Sessions -/

/-- The changes that an event tells of. -/
def Event.changes : Event → List Change
  | .contentChanged changes => changes
  | _ => []

namespace Session

/-- What can happen to a session: its own operations, and calls that reach its document past it,
    such as those of the workers. -/
inductive Action where
  | edit (x : Edit)
  | openFile (files : FileTree) (path : String)
  | scrollTo (top : Float)
  /-- Tell of something; to choose a language or to switch the brackets is no more than that. -/
  | announce (event : Event)
  | call (call : Call)
  | draw (connectors : List Connector)
  | layOut (geometry : Geometry)
  | assign (path : Option String)

/-- The action leaves it to the session to change the text and to announce it: it opens no file,
    does not edit the document past the session, and announces no change that was not made. -/
def Action.Reported : Action → Prop
  | .openFile _ _ => False
  | .call (.edit _) => False
  | .announce event => event.changes = []
  | _ => True

/-- An edit in place. -/
def mutate (s : Session) (x : Edit) : Session × Except SessionError Change :=
  match s.document.mutate x with
  | (document, .ok c) => ((s.commit (document, c)).1, .ok c)
  | (document, .error e) => ({ s with document }, .error (.edit e))

def act (s : Session) : Action → Session
  | .edit x => (s.mutate x).1
  | .openFile files path =>
    match s.openFile files path with
    | .ok opened => opened
    | .error _ => s
  | .scrollTo top => s.scrollTo top
  | .announce event => s.emit event
  | .call call => { s with document := s.document.perform call }
  | .draw connectors => { s with document := { s.document with connectors } }
  | .layOut geometry => { s with document := { s.document with geometry } }
  | .assign path => { s with document := { s.document with path } }

def actAll (s : Session) (actions : List Action) : Session :=
  actions.foldl act s

/-- What was announced between two states of a session accounts for the length of the text. -/
def Accounts (s s' : Session) : Prop :=
  ∃ events, s'.bus.log = s.bus.log ++ events ∧
    s'.document.length + ((events.flatMap Event.changes).map (·.removed)).sum =
      s.document.length + ((events.flatMap Event.changes).map (·.added)).sum

variable {s s' s'' : Session}

theorem mutate_eq (formed : s.document.WellFormed) (x : Edit) :
    s.mutate x = match s.edit x with
      | .ok (s', c) => (s', .ok c)
      | .error e => (s, .error e) := by
  rw [mutate, formed.mutate_eq, edit_eq]
  cases x.apply s.document <;> rfl

theorem edit_error_iff (formed : s.document.WellFormed) (x : Edit) :
    (∃ e, s.edit x = .error e) ↔ x.Outside s.document := by
  rw [← Edit.apply_error_iff formed, edit_eq]
  cases x.apply s.document <;> simp [Except.map, Except.mapError]

theorem edit_describes {x : Edit} {c : Change} (formed : s.document.WellFormed)
    (ok : s.edit x = .ok (s', c)) :
    s'.bus.log = s.bus.log ++ [.contentChanged [c]] ∧ c.offset = x.start s.document ∧
      c.Describes s.document s'.document x.given := by
  obtain ⟨d, c', applied, done⟩ := edit_ok ok
  obtain ⟨rfl, rfl⟩ := Prod.mk.inj done
  exact ⟨rfl, Edit.apply_describes formed applied⟩

/-! ## Actions and runs -/

theorem act_wellFormed (formed : s.document.WellFormed) (a : Action) :
    (s.act a).document.WellFormed := by
  cases a with
  | edit x =>
      rw [act, mutate_eq formed]
      cases edited : s.edit x with
      | error _ => exact formed
      | ok done =>
          obtain ⟨d, c, applied, rfl⟩ := edit_ok edited
          exact (Edit.apply_step formed applied).1
  | openFile files path =>
      rw [act]
      split
      · rename_i opened
        obtain ⟨text, rfl⟩ := openFile_ok opened
        have loaded := WellFormed.setText s.document text
        exact ⟨loaded.count, loaded.distinct, loaded.issued⟩
      · exact formed
  | call call => exact (perform_step formed call).1
  | announce _ => exact formed
  | scrollTo _ | draw _ | layOut _ | assign _ =>
      exact ⟨formed.count, formed.distinct, formed.issued⟩

theorem actAll_wellFormed (formed : s.document.WellFormed) (actions : List Action) :
    (s.actAll actions).document.WellFormed := by
  induction actions generalizing s with
  | nil => exact formed
  | cons a actions ih => exact ih (act_wellFormed formed a)

namespace Accounts

theorem of_quiet {events : List Event} (log : s'.bus.log = s.bus.log ++ events)
    (quiet : events.flatMap Event.changes = []) (same : s'.document.length = s.document.length) :
    Accounts s s' :=
  ⟨events, log, by simp only [quiet, same, List.map_nil]⟩

theorem refl (s : Session) : Accounts s s :=
  of_quiet (List.append_nil _).symm rfl rfl

theorem trans (first : Accounts s s') (second : Accounts s' s'') : Accounts s s'' := by
  obtain ⟨early, log, balance⟩ := first
  obtain ⟨late, log', balance'⟩ := second
  refine ⟨early ++ late, by rw [log', log, List.append_assoc], ?_⟩
  simp only [List.flatMap_append, List.map_append, List.sum_append]
  omega

end Accounts

/-- Styling leaves the text alone. -/
theorem perform_length {d : Document} {call : Call} (styling : ∀ x, call ≠ .edit x) :
    (d.perform call).length = d.length := by
  have kept {d' : Document} (ok : call.apply d = .ok d') : d'.length = d.length := by
    cases call with
    | edit x => exact absurd rfl (styling x)
    | applyStyle | clearStyles =>
        obtain ⟨blocks, rfl, -⟩ := mapSpans_ok ok
        rfl
  rw [perform]
  split
  · exact kept ‹_›
  · rfl

theorem act_accounts (formed : s.document.WellFormed) {a : Action} (h : a.Reported) :
    Accounts s (s.act a) := by
  cases a with
  | edit x =>
      rw [act, mutate_eq formed]
      cases edited : s.edit x with
      | error _ => exact .refl s
      | ok done =>
          obtain ⟨log, -, described⟩ := edit_describes formed edited
          refine ⟨[.contentChanged [done.2]], log, ?_⟩
          simpa [Event.changes] using described.length
  | openFile _ _ => exact h.elim
  | announce event => exact .of_quiet rfl (by simpa [Action.Reported] using h) rfl
  | scrollTo top => exact .of_quiet rfl rfl rfl
  | call call =>
      refine .of_quiet (List.append_nil _).symm rfl (perform_length ?_)
      rintro x rfl
      exact h
  | draw _ | layOut _ | assign _ => exact .of_quiet (List.append_nil _).symm rfl rfl

theorem actAll_accounts (formed : s.document.WellFormed) {actions : List Action}
    (h : ∀ a ∈ actions, a.Reported) : Accounts s (s.actAll actions) := by
  induction actions generalizing s with
  | nil => exact .refl s
  | cons a actions ih =>
      obtain ⟨first, rest⟩ := List.forall_mem_cons.mp h
      exact (act_accounts formed first).trans (ih (act_wellFormed formed a) rest)

end Session

/-- In whatever state a session is, an edit is refused exactly if it reaches outside of the
    document, and a refused one leaves the session as it was. One that goes through announces its
    change and nothing else, and the change tells exactly what became of the text. So, as long as no
    file is opened and the text is changed through the session only, the announced changes account
    for the length of the text over every run; where a file is opened, the account starts anew. -/
theorem session_edits_report (config : Config) (id : DocumentId)
    (actions : List Session.Action) :
    let s := (Session.new config id).actAll actions
    (∀ x : Edit, ((∃ e, s.edit x = .error e) ↔ x.Outside s.document) ∧
      (∀ e, s.edit x = .error e → s.mutate x = (s, .error e)) ∧
      ∀ s' c, s.edit x = .ok (s', c) → s.mutate x = (s', .ok c) ∧
        s'.bus.log = s.bus.log ++ [.contentChanged [c]] ∧ c.offset = x.start s.document ∧
        c.Describes s.document s'.document x.given) ∧
    ∀ later : List Session.Action, (∀ a ∈ later, a.Reported) → s.Accounts (s.actAll later) := by
  intro s
  have formed : s.document.WellFormed :=
    Session.actAll_wellFormed (Origin.wellFormed (.new config.view) id) actions
  refine ⟨fun x => ⟨Session.edit_error_iff formed x, fun e refused => ?_, fun s' c ok => ?_⟩,
    fun later => Session.actAll_accounts formed⟩
  · rw [Session.mutate_eq formed, refused]
  · rw [Session.mutate_eq formed, ok]
    exact ⟨rfl, Session.edit_describes formed ok⟩

/-- The last line of two is replaced by a longer text, and then the first letter is deleted. -/
theorem replaced_line_reported :
    let s := (Session.new {} 0).actAll [.edit (.insert 0 ['a', '\n', 'b'])]
    let later : List Session.Action := [.edit (.replaceBlock 1 ['x', 'y']), .edit (.delete 0 1)]
    (∃ s' c, s.edit (.replaceBlock 1 ['x', 'y']) = .ok (s', c) ∧ c.offset = 2 ∧ c.added = 2) ∧
      (∀ a ∈ later, a.Reported) ∧ s.Accounts (s.actAll later) := by
  intro s later
  obtain ⟨edits, accounts⟩ :=
    session_edits_report {} 0 [.edit (.insert 0 ['a', '\n', 'b'])]
  obtain ⟨refused, -, done⟩ := edits (.replaceBlock 1 ['x', 'y'])
  have reported : ∀ a ∈ later, a.Reported := by
    simp [later, Session.Action.Reported]
  refine ⟨?_, reported, accounts later reported⟩
  cases edited : s.edit (.replaceBlock 1 ['x', 'y']) with
  | error e =>
      have outside : 2 ≤ 1 := refused.mp ⟨e, edited⟩
      omega
  | ok result =>
      obtain ⟨s', c⟩ := result
      obtain ⟨-, -, start, described⟩ := done s' c edited
      exact ⟨s', c, rfl, start, described.added⟩

end Highlight
