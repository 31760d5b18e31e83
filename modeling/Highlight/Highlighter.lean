import Highlight.Registry
import Highlight.Session
import Highlight.Worker.Bracket
import Highlight.Worker.Keyword

/-! # The highlighter

The highlighter stands between the events of the editor and the two workers. It turns changes of
the text into regions of whole blocks, picks the language when a file is opened or a language is
chosen, and keeps the overlay of connectors in step with the view. What it announces itself is
handed back as a list of events.
-/

namespace Highlight

/-- Why the highlighter refuses an operation. -/
inductive HighlightError where
  | language (error : LanguageError)
  /-- No language of that name is registered. -/
  | unknownLanguage (name : String)
  | worker (error : WorkerError)
  deriving Repr, DecidableEq

namespace HighlightError

/-- The wording of a refusal. -/
def message : HighlightError → String
  | .language error => error.message
  | .unknownLanguage name => "Not found: language '" ++ name ++ "'"
  | .worker error => "Worker error: " ++ error.message

/-- The causes behind a refusal, nearest first. -/
def causes : HighlightError → List String
  | .language error => error.causes
  | .unknownLanguage _ => []
  | .worker error => [error.message]

end HighlightError

/-- The whole document as a region. -/
def Document.whole (d : Document) : Interval :=
  ⟨d.contentStart, d.contentEnd⟩

/-- A change widened to whole blocks, from the block of its offset to the block behind the added
    text. An offset outside the text stands for the end of the document on its side. -/
def Document.region (d : Document) (change : Change) : Interval :=
  ⟨((d.blockBounds? change.offset).map (·.1)).getD d.contentStart,
    ((d.blockBounds? change.stop).map (·.2)).getD d.contentEnd⟩

/-- The two workers of one document, and what decides about their work. -/
structure Highlighter where
  keywords : KeywordWorker := {}
  brackets : BracketWorker
  registry : Registry
  keywordsEnabled : Bool
  bracketsEnabled : Bool
  /-- The file that is shown, to pick its language again. -/
  path : Option String := none

namespace Highlighter

/-- A highlighter whose workers are not started. -/
def new (registry : Registry) (config : Config) : Except LanguageError Highlighter := do
  let brackets ← (BracketWorker.ofConfig config.brackets).mapError .style
  return {
    brackets
    registry
    keywordsEnabled := config.keywordsEnabled
    bracketsEnabled := config.bracketsEnabled }

/-- Change the control of the keyword worker. -/
def steerKeywords (h : Highlighter) (control : Control) : Highlighter :=
  { h with keywords := { h.keywords with control } }

/-- Change the control of the bracket worker. -/
def steerBrackets (h : Highlighter) (control : Control) : Highlighter :=
  { h with brackets := { h.brackets with control } }

/-- Steer both workers in one way. -/
def steer (h : Highlighter) (f : Control → Control) : Highlighter :=
  (h.steerKeywords (f h.keywords.control)).steerBrackets (f h.brackets.control)

/-- Start both workers, the keyword worker first. The highlighter comes back also when one cannot be
    started. -/
def start (h : Highlighter) : Highlighter × Except WorkerError Unit :=
  match h.keywords.control.run with
  | .error e => (h, .error e)
  | .ok control =>
    let h := h.steerKeywords control
    match h.brackets.control.run with
    | .error e => (h, .error e)
    | .ok control => (h.steerBrackets control, .ok ())

/-- Stop both workers. -/
def shutdown (h : Highlighter) : Highlighter :=
  h.steer Control.join

/-- Whether both workers have gone idle. -/
def isIdle (h : Highlighter) : Bool :=
  h.keywords.control.idle && h.brackets.control.idle

/-- The name of the active language; none for plain text. -/
def languageName (h : Highlighter) : Option String :=
  h.keywords.languageName

/-- Queue a region for the keyword worker, if keywords are on. -/
def pushKeywords (h : Highlighter) (i : Interval) : Highlighter :=
  if h.keywordsEnabled then { h with keywords := h.keywords.push i } else h

/-- Queue a region for the bracket worker, if brackets are on. -/
def pushBrackets (h : Highlighter) (i : Interval) : Highlighter :=
  if h.bracketsEnabled then { h with brackets := h.brackets.push i } else h

/-- Queue a region for every worker that is on. -/
def push (h : Highlighter) (i : Interval) : Highlighter :=
  (h.pushKeywords i).pushBrackets i

/-- Queue the whole document for every worker that is on. -/
def highlightAll (h : Highlighter) (d : Document) : Highlighter :=
  h.push d.whole

/-- Put a language in place and have the whole document styled anew. -/
def setLanguage (h : Highlighter) (d : Document) (language : Option Language) :
    Highlighter × List Event :=
  let h := { h with keywords := h.keywords.clearIntervals.setLanguage language }
  (h.pushKeywords d.whole, [.languageChanged (language.map (·.name))])

/-- The language of a file; plain text if it cannot be loaded. -/
def detect (h : Highlighter) (files : FileTree) (path : String) : Option Language :=
  match h.registry.forPath files path with
  | .ok language => language
  | .error _ => none

/-- Forget what the bracket worker waits for and knows. -/
def resetBrackets (h : Highlighter) : Highlighter :=
  { h with brackets := h.brackets.clearIntervals.clearBrackets }

/-- Start over with the text of another file. -/
def showFile (h : Highlighter) (files : FileTree) (d : Document) (path : String) :
    Highlighter × List Event :=
  let h := { h.resetBrackets with path := some path }
  let (h, announced) := h.setLanguage d (h.detect files path)
  (h.pushBrackets d.whole, announced)

/-- Put the registered language of a name in place. -/
def select (h : Highlighter) (files : FileTree) (d : Document) (name : String) :
    Except HighlightError (Highlighter × List Event) :=
  match h.registry.byName files name with
  | .error e => .error (.language e)
  | .ok none => .error (.unknownLanguage name)
  | .ok (some language) => .ok (h.setLanguage d (some language))

/-- Switch bracket highlighting. Switched on, the whole document is scanned; switched off, all
    brackets are forgotten. -/
def switchBrackets (h : Highlighter) (d : Document) (on : Bool) : Highlighter :=
  if on = h.bracketsEnabled then h
  else
    let h := { h with bracketsEnabled := on }
    if on then h.pushBrackets d.whole else h.resetBrackets

/-- React to an event; gives what is announced in turn. A refusal changes nothing. -/
def handle (h : Highlighter) (files : FileTree) (d : Document) :
    Event → Except HighlightError (Highlighter × List Event)
  | .contentChanged changes => .ok (changes.foldl (fun h c => h.push (d.region c)) h, [])
  | .fileOpened path => .ok (h.showFile files d path)
  | .languageSelected name => h.select files d name
  | .languageUploaded _ =>
    match h.path with
    | some path => .ok (h.setLanguage d (h.detect files path))
    | none => .ok (h, [])
  | .scrolled _ =>
    .ok (if h.bracketsEnabled then { h with brackets := h.brackets.notifyScrolled } else h, [])
  | .bracketsToggled on => .ok (h.switchBrackets d on, [])
  | .languageChanged _ | .quit => .ok (h, [])

/-- Let both workers come to rest, the keyword worker first. -/
def settle (h : Highlighter) (d : Document) : Highlighter × Document :=
  let (keywords, d) := h.keywords.settle d
  let (brackets, d) := h.brackets.settle d
  ({ h with keywords, brackets }, d)

end Highlighter

end Highlight
