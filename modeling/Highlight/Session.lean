import Highlight.Config
import Highlight.Document.Edit
import Highlight.Document.View
import Highlight.Event

/-! # Editor sessions

A session owns the document. Every edit goes through it and is announced on its bus; an edit that
is refused changes nothing and is not announced.
-/

namespace Highlight

/-- Why a session refuses an operation. -/
inductive SessionError where
  | fileNotFound (path : String)
  | file (error : FileError)
  | edit (error : EditError)
  deriving Repr, DecidableEq

/-- The wording of a refusal. -/
def SessionError.message : SessionError → String
  | .fileNotFound path => "File not found: " ++ path
  | .file error => "IO error: " ++ error.message
  | .edit error => "Buffer error: " ++ error.message

/-- The causes behind a refusal, nearest first. -/
def SessionError.causes : SessionError → List String
  | .fileNotFound _ => []
  | .file error => [error.message]
  | .edit error => [error.message]

/-- A document with its bus and the file it comes from. -/
structure Session where
  document : Document
  bus : Bus := {}
  config : Config
  path : Option String := none

namespace Session

/-- A session over an empty document. -/
def new (config : Config) (id : DocumentId := 0) : Session :=
  { document := .empty id config.view, config }

/-- Announce an event. -/
def emit (s : Session) (event : Event) : Session :=
  { s with bus := s.bus.emit event }

/-- Load a file into the document. Only the opening is announced, no change. -/
def openFile (s : Session) (files : FileTree) (path : String) : Except SessionError Session :=
  if files.has path then
    match files.readText path with
    | .error e => .error (.file e)
    | .ok text =>
      let document := (s.document.setText text.toList).1
      .ok ({ s with document := { document with path := some path }, path := some path }.emit
        (.fileOpened path))
  else .error (.fileNotFound path)

/-- Take over an edited document and announce the change. -/
def commit (s : Session) (edited : Document × Change) : Session × Change :=
  ({ s with document := edited.1 }.emit (.contentChanged [edited.2]), edited.2)

/-- Replace the whole text. -/
def setText (s : Session) (text : List Char) : Session × Change :=
  s.commit (s.document.setText text)

/-- Insert a text at a character offset. -/
def insert (s : Session) (offset : Nat) (text : List Char) :
    Except SessionError (Session × Change) :=
  ((s.document.insert offset text).map s.commit).mapError .edit

/-- Delete a range of characters. -/
def delete (s : Session) (start stop : Nat) : Except SessionError (Session × Change) :=
  ((s.document.delete start stop).map s.commit).mapError .edit

/-- Replace the content of one block. -/
def replaceBlock (s : Session) (index : Nat) (text : List Char) :
    Except SessionError (Session × Change) :=
  ((s.document.replaceBlock index text).map s.commit).mapError .edit

/-- Scroll the view; the offset is announced as it was asked for. -/
def scrollTo (s : Session) (top : Float) : Session :=
  { s with document := s.document.scrollTo top }.emit (.scrolled top)

/-- Choose a language by name. -/
def selectLanguage (s : Session) (name : String) : Session :=
  s.emit (.languageSelected name)

/-- Switch bracket highlighting on or off. -/
def toggleBrackets (s : Session) (on : Bool) : Session :=
  s.emit (.bracketsToggled on)

end Session

end Highlight
