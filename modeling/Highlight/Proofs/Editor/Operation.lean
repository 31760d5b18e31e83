import Highlight.Editor
import Highlight.Proofs.Document.Replacement

/-! # Operations of an editor

What a user does, how the highlighter hears of it and what it queues in turn. An operation announces
at most one event, the highlighter answers it with at most one change of the language, and to that
it does not react: passing events on ends after one event that matters.
-/

namespace Highlight

/-- An edit through a session. -/
def Session.edit (s : Session) : Edit → Except SessionError (Session × Change)
  | .insert offset text => s.insert offset text
  | .delete start stop => s.delete start stop
  | .replaceBlock index text => s.replaceBlock index text
  | .setText text => .ok (s.setText text)

theorem Session.edit_eq (s : Session) (x : Edit) :
    s.edit x = ((x.apply s.document).map s.commit).mapError .edit := by
  cases x <;> rfl

theorem Session.edit_ok {s : Session} {x : Edit} {done : Session × Change}
    (ok : s.edit x = .ok done) :
    ∃ d c, x.apply s.document = .ok (d, c) ∧ done = s.commit (d, c) := by
  rw [edit_eq] at ok
  cases applied : x.apply s.document with
  | error _ => simp [applied, Except.map, Except.mapError] at ok
  | ok edited =>
      simp only [applied, Except.map, Except.mapError, Except.ok.injEq] at ok
      exact ⟨edited.1, edited.2, rfl, ok.symm⟩

theorem Session.openFile_ok {s s' : Session} {files : FileTree} {path : String}
    (ok : s.openFile files path = .ok s') : ∃ text, s' = { s with
      document := { (s.document.setText text).1 with path := some path }
      path := some path }.emit (.fileOpened path) := by
  simp only [Session.openFile] at ok
  split at ok
  · split at ok
    · cases ok
    · cases ok
      exact ⟨_, rfl⟩
  · cases ok

/-- What a user does with an editor that changes its text or its language. -/
inductive Operation where
  | openFile (path : String)
  | edit (e : Edit)
  | selectLanguage (name : String)
  /-- Tell of a registered language. -/
  | announceLanguage (name : String)
  /-- Register a language, which tells of it. -/
  | uploadLanguage (tag path : String)

namespace Editor

/-- Do an operation. A refused one changes nothing. -/
def act (e : Editor) : Operation → Editor
  | .openFile path =>
    match e.session.openFile e.files path with
    | .ok session => { e with session }
    | .error _ => e
  | .edit x =>
    match e.session.edit x with
    | .ok (session, _) => { e with session }
    | .error _ => e
  | .selectLanguage name => { e with session := e.session.selectLanguage name }
  | .announceLanguage name => { e with session := e.session.emit (.languageUploaded name) }
  | .uploadLanguage tag path => (e.upload tag path).1

/-- Let the keyword worker come to rest. -/
def settleKeywords (e : Editor) : Editor :=
  let (keywords, document) := e.highlighter.keywords.settle e.document
  { e with highlighter := { e.highlighter with keywords }, session := { e.session with document } }

/-- Let the bracket worker come to rest. -/
def settleBrackets (e : Editor) : Editor :=
  let (brackets, document) := e.highlighter.brackets.settle e.document
  { e with highlighter := { e.highlighter with brackets }, session := { e.session with document } }

/-- Do an operation over the files as they are by then, pass its events on and let the keyword
    worker come to rest. -/
def operate (e : Editor) (reader : Bus.Cursor) (files : FileTree) (op : Operation) :
    Editor × Bus.Cursor :=
  let (e, reader, _) := ({ e with files }.act op).pump reader
  (e.settleKeywords, reader)

end Editor

/-! ## Queueing -/

namespace Highlighter

@[simp] theorem keywords_pushBrackets (h : Highlighter) (i : Interval) :
    (h.pushBrackets i).keywords = h.keywords := by
  simp only [pushBrackets, apply_ite Highlighter.keywords, ite_self]

@[simp] theorem keywordsEnabled_pushBrackets (h : Highlighter) (i : Interval) :
    (h.pushBrackets i).keywordsEnabled = h.keywordsEnabled := by
  simp only [pushBrackets, apply_ite Highlighter.keywordsEnabled, ite_self]

@[simp] theorem keywordsEnabled_pushKeywords (h : Highlighter) (i : Interval) :
    (h.pushKeywords i).keywordsEnabled = h.keywordsEnabled := by
  simp only [pushKeywords, apply_ite Highlighter.keywordsEnabled, ite_self]

theorem keywords_pushKeywords {h : Highlighter} (enabled : h.keywordsEnabled = true)
    (i : Interval) : (h.pushKeywords i).keywords = h.keywords.push i := by
  simp only [pushKeywords, enabled, if_true]

theorem keywordsEnabled_setLanguage (h : Highlighter) (d : Document)
    (language : Option Language) :
    (h.setLanguage d language).1.keywordsEnabled = h.keywordsEnabled := by
  simp only [setLanguage, keywordsEnabled_pushKeywords]

theorem keywords_setLanguage {h : Highlighter} (enabled : h.keywordsEnabled = true)
    (d : Document) (language : Option Language) : (h.setLanguage d language).1.keywords =
      (h.keywords.clearIntervals.setLanguage language).push d.whole := by
  simp only [setLanguage, pushKeywords, enabled, if_true]

theorem keywordsEnabled_showFile (h : Highlighter) (files : FileTree) (d : Document)
    (path : String) : (h.showFile files d path).1.keywordsEnabled = h.keywordsEnabled := by
  simp only [showFile, keywordsEnabled_pushBrackets, keywordsEnabled_setLanguage, resetBrackets]

theorem keywords_showFile {h : Highlighter} (enabled : h.keywordsEnabled = true)
    (files : FileTree) (d : Document) (path : String) : (h.showFile files d path).1.keywords =
      (h.keywords.clearIntervals.setLanguage (h.detect files path)).push d.whole := by
  simp only [showFile, keywords_pushBrackets, resetBrackets]
  exact keywords_setLanguage (h := { h.resetBrackets with path := some path }) enabled d _

@[simp] theorem brackets_pushKeywords (h : Highlighter) (i : Interval) :
    (h.pushKeywords i).brackets = h.brackets := by
  simp only [pushKeywords, apply_ite Highlighter.brackets, ite_self]

@[simp] theorem bracketsEnabled_pushKeywords (h : Highlighter) (i : Interval) :
    (h.pushKeywords i).bracketsEnabled = h.bracketsEnabled := by
  simp only [pushKeywords, apply_ite Highlighter.bracketsEnabled, ite_self]

theorem push_brackets {h : Highlighter} (enabled : h.bracketsEnabled = true) (i : Interval) :
    (h.push i).brackets = h.brackets.push i ∧ (h.push i).bracketsEnabled = true := by
  simp [push, pushBrackets, enabled]

end Highlighter

namespace Editor

/-! ## Passing events on -/

theorem handleLogged_ok {e : Editor} {event : Event} {done : Highlighter × List Event}
    (ok : e.highlighter.handle e.files e.document event = .ok done) :
    (e.handleLogged event).1 = e.adopt done := by
  rw [handleLogged, handle, ok]
  rfl

theorem handleLogged_error {e : Editor} {event : Event} {error : HighlightError}
    (refused : e.highlighter.handle e.files e.document event = .error error) :
    (e.handleLogged event).1 = e := by
  rw [handleLogged, handle, refused]
  rfl

theorem adopt_unchanged (e : Editor) : e.adopt (e.highlighter, []) = e := by
  simp only [adopt, announce, Bus.emitAll, List.append_nil]

theorem pump_quiet {e : Editor} {reader : Bus.Cursor} (read : reader = e.session.bus.log.length) :
    e.pump reader = (e, reader, []) := by
  subst read
  have drained : e.session.bus.drain e.session.bus.log.length =
      ([], e.session.bus.log.length) := by
    rw [Bus.drain, Bus.firstUnread, List.drop_eq_nil_of_le (Nat.le_max_left _ _)]
  simp only [pump, pumpRounds, drained, handleAll, List.append_nil]

theorem drain_one {bus : Bus} {log : List Event} {event : Event} (h : bus.log = log ++ [event]) :
    bus.drain log.length = ([event], bus.log.length) := by
  have unread : bus.firstUnread log.length = log.length := by
    rw [Bus.firstUnread, h, List.length_append, List.length_singleton, Bus.capacity]
    omega
  rw [Bus.drain, unread, h, List.drop_left]

/-- The highlighter announces changes of the language and nothing else. -/
theorem handle_announces {h : Highlighter} {files : FileTree} {d : Document} {event : Event}
    {done : Highlighter × List Event} (ok : h.handle files d event = .ok done) :
    done.2 = [] ∨ ∃ name, done.2 = [.languageChanged name] := by
  cases event with
  | languageSelected name =>
      simp only [Highlighter.handle, Highlighter.select] at ok
      split at ok
      · cases ok
      · cases ok
      · cases ok
        exact .inr ⟨_, rfl⟩
  | languageUploaded name =>
      simp only [Highlighter.handle] at ok
      split at ok
      · cases ok
        exact .inr ⟨_, rfl⟩
      · cases ok
        exact .inl rfl
  | fileOpened path =>
      cases ok
      exact .inr ⟨_, rfl⟩
  | contentChanged _ | scrolled _ | bracketsToggled _ | languageChanged _ | quit =>
      cases ok
      exact .inl rfl

theorem handleLogged_languageChanged (e : Editor) (name : Option String) :
    (e.handleLogged (.languageChanged name)).1 = e :=
  (handleLogged_ok rfl).trans e.adopt_unchanged

/-- One event is passed on; what the highlighter announces in turn is read and changes nothing. -/
theorem pump_one {e : Editor} {log : List Event} {event : Event}
    (h : e.session.bus.log = log ++ [event]) :
    let e' := (e.handleLogged event).1
    (e.pump log.length).1 = e' ∧ (e.pump log.length).2.1 = e'.session.bus.log.length := by
  intro e'
  have log' : e'.session.bus.log = e.session.bus.log ∨
      ∃ name, e'.session.bus.log = e.session.bus.log ++ [.languageChanged name] := by
    cases handled : e.highlighter.handle e.files e.document event with
    | error _ => exact .inl (congrArg (·.session.bus.log) (handleLogged_error handled))
    | ok done =>
        have logged : e'.session.bus.log = e.session.bus.log ++ done.2 :=
          congrArg (·.session.bus.log) (handleLogged_ok handled)
        rcases handle_announces handled with none | ⟨name, one⟩
        · exact .inl (by rw [logged, none, List.append_nil])
        · exact .inr ⟨name, by rw [logged, one]⟩
  have pumped : e.pump log.length = pumpRounds 2 e log.length := rfl
  simp only [pumpRounds, drain_one h, handleAll] at pumped
  have second : ((e'.handleAll (e'.session.bus.drain e.session.bus.log.length).1).1 = e' ∧
      (e'.session.bus.drain e.session.bus.log.length).2 = e'.session.bus.log.length) := by
    rcases log' with same | ⟨name, one⟩
    · rw [Bus.drain, Bus.firstUnread, same, List.drop_eq_nil_of_le (Nat.le_max_left _ _)]
      exact ⟨rfl, rfl⟩
    · rw [drain_one one]
      exact ⟨handleLogged_languageChanged e' name, rfl⟩
  rw [pumped]
  exact second

end Editor

end Highlight
