import Highlight.Highlighter

/-! # The editor

A session, the highlighter that listens to it and the files both work on, as one value. The
highlighter's announcements go to the bus of the session.
-/

namespace Highlight

/-- A session with its highlighter, over a tree of files. -/
structure Editor where
  session : Session
  highlighter : Highlighter
  files : FileTree

namespace Editor

/-- The document of the session. -/
def document (e : Editor) : Document :=
  e.session.document

/-- Announce events on the bus. -/
def announce (e : Editor) (events : List Event) : Editor :=
  { e with session := { e.session with bus := e.session.bus.emitAll events } }

/-- Take over what the highlighter did and announced. -/
def adopt (e : Editor) (done : Highlighter × List Event) : Editor :=
  { e with highlighter := done.1 }.announce done.2

/-- Pass an event to the highlighter. -/
def handle (e : Editor) (event : Event) : Except HighlightError Editor :=
  (e.highlighter.handle e.files e.document event).map e.adopt

/-- Pass an event to the highlighter and tell of a refusal, which changes nothing. -/
def handleLogged (e : Editor) (event : Event) : Editor × Option HighlightError :=
  match e.handle event with
  | .ok e => (e, none)
  | .error error => (e, some error)

/-- Pass events to the highlighter in order. Every event comes back with its refusal, if any. -/
def handleAll (e : Editor) : List Event → Editor × List (Event × Option HighlightError)
  | [] => (e, [])
  | event :: rest =>
    let (e, refusal) := e.handleLogged event
    let (e, later) := e.handleAll rest
    (e, (event, refusal) :: later)

/-- Read a reader's events and pass them on, round after round. -/
def pumpRounds : Nat → Editor → Bus.Cursor →
    Editor × Bus.Cursor × List (Event × Option HighlightError)
  | 0, e, reader => (e, reader, [])
  | rounds + 1, e, reader =>
    let (events, reader) := e.session.bus.drain reader
    let (e, handled) := e.handleAll events
    let (e, reader, later) := pumpRounds rounds e reader
    (e, reader, handled ++ later)

/-- Read a reader's events and pass them on until none is left. The highlighter only announces
    changes of the language, to which it does not react: the second round is the last that finds
    events. -/
def pump (e : Editor) (reader : Bus.Cursor) :
    Editor × Bus.Cursor × List (Event × Option HighlightError) :=
  pumpRounds 2 e reader

/-- Pass a reader's events on one by one until the editor closes; refusals are passed over. The
    fuel bounds the number of events. -/
def listenFor : Nat → Editor → Bus.Cursor → Editor
  | 0, e, _ => e
  | fuel + 1, e, reader =>
    match e.session.bus.next? reader with
    | none | some (.quit, _) => e
    | some (event, reader) => listenFor fuel (e.handleLogged event).1 reader

/-- Pass a reader's events on until the editor closes or none is left. Each event makes the
    highlighter announce at most one more. -/
def listen (e : Editor) (reader : Bus.Cursor) : Editor :=
  e.listenFor (2 * (e.session.bus.log.length - reader) + 1) reader

/-- Register a language and announce it. `tag` makes the name of the copy unique. -/
def upload (e : Editor) (tag path : String) : Editor × Except LanguageError String :=
  let (registry, files, outcome) := e.highlighter.registry.upload e.files tag path
  let e := { e with highlighter := { e.highlighter with registry }, files }
  match outcome with
  | .ok name => (e.announce [.languageUploaded name], .ok name)
  | .error error => (e, .error error)

/-- Put a language in place. -/
def setLanguage (e : Editor) (language : Option Language) : Editor :=
  e.adopt (e.highlighter.setLanguage e.document language)

/-- Queue the whole document for the workers. -/
def highlightAll (e : Editor) : Editor :=
  { e with highlighter := e.highlighter.highlightAll e.document }

/-- Let both workers come to rest. -/
def settle (e : Editor) : Editor :=
  let (highlighter, document) := e.highlighter.settle e.document
  { e with highlighter, session := { e.session with document } }

end Editor

end Highlight
