import Highlight.Document.Basic

/-! # Events

What happens in the editor is announced on a bus. The bus keeps the latest events; a reader that
falls further behind misses the oldest of those it has not read.
-/

namespace Highlight

/-- Something that happened in the editor. -/
inductive Event where
  /-- The text changed. -/
  | contentChanged (changes : List Change)
  /-- A file's text took the place of the document's. -/
  | fileOpened (path : String)
  /-- The view scrolled to a vertical offset. -/
  | scrolled (top : Float)
  /-- The user chose a language by name. -/
  | languageSelected (name : String)
  /-- A language was registered. -/
  | languageUploaded (name : String)
  /-- Another language is active now; none is plain text. -/
  | languageChanged (name : Option String)
  /-- Bracket highlighting was switched on or off. -/
  | bracketsToggled (on : Bool)
  /-- The editor is closing. -/
  | quit

/-- The events announced so far, oldest first. -/
structure Bus where
  log : List Event := []

namespace Bus

/-- How many events the bus keeps. -/
def capacity : Nat :=
  256

/-- Announce an event. -/
def emit (bus : Bus) (event : Event) : Bus :=
  ⟨bus.log ++ [event]⟩

/-- Announce several events in order. -/
def emitAll (bus : Bus) (events : List Event) : Bus :=
  ⟨bus.log ++ events⟩

/-- A reader's place in the log. -/
abbrev Cursor := Nat

/-- The place of a new reader: behind all events so far. -/
def subscribe (bus : Bus) : Cursor :=
  bus.log.length

/-- The first event a reader still gets. -/
def firstUnread (bus : Bus) (reader : Cursor) : Nat :=
  max reader (bus.log.length - capacity)

/-- All events a reader has not read, and its place behind them. -/
def drain (bus : Bus) (reader : Cursor) : List Event × Cursor :=
  (bus.log.drop (bus.firstUnread reader), bus.log.length)

/-- The next event a reader has not read, and its place behind it. -/
def next? (bus : Bus) (reader : Cursor) : Option (Event × Cursor) :=
  (bus.log[bus.firstUnread reader]?).map (·, bus.firstUnread reader + 1)

end Bus

end Highlight
