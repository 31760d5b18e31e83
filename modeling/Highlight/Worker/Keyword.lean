import Highlight.Language
import Highlight.Worker.Queue

/-! # The keyword worker

The keyword worker takes changed regions, clears their styles, looks their tokens up in the active
language and styles the ones it finds.
-/

namespace Highlight

/-- What the keyword worker works on. -/
structure KeywordJob where
  backlog : Backlog := {}
  language : Option Language := none
  deriving Repr, DecidableEq

namespace KeywordJob

/-- Offer matches to a language one after the other. -/
def offerAll (language : Language) (candidates : List Match) : Language :=
  candidates.foldl (fun l m => (l.tryPut m).1) language

/-- Clear the styles of a region, as far as it is still there, and offer the tokens of its blocks to
    the language. -/
def scan (i : Interval) (s : Option Language × Document) : Option Language × Document :=
  let (language, d) := s
  let d := match d.clearStyles i.start i.stop with
    | .ok d => d
    | .error _ => d
  let runs := d.runsBetween i.start i.stop
  (language.map fun l => offerAll l (runs.flatMap fun r => r.matches (some l)), d)

/-- One pass over all that waits, then the styling. The document is accessed once for each region
    and once for the styling. -/
def work {γ : Type} (tick : γ → γ × Bool) (g : γ) (s : KeywordJob × Document) :
    γ × (KeywordJob × Document) × Status :=
  let (job, d) := s
  if job.backlog.all.isEmpty then (g, s, .idle)
  else
    match Backlog.pass tick scan job.backlog.all g (job.language, d) with
    | (g, rest, none, d) => (g, ({ backlog := { deferred := rest }, language := none }, d), .busy)
    | (g, rest, some language, d) =>
      let (language, d, _) := language.applyStyling d
      ((tick g).1, ({ backlog := { deferred := rest }, language := some language }, d), .busy)

end KeywordJob

/-- The keyword worker: its control and its job. -/
structure KeywordWorker where
  control : Control := {}
  job : KeywordJob := {}
  deriving Repr, DecidableEq

namespace KeywordWorker

/-- Queue a changed region. -/
def push (w : KeywordWorker) (i : Interval) : KeywordWorker :=
  { control := w.control.wake, job := { w.job with backlog := w.job.backlog.push i } }

/-- Drop all that waits. -/
def clearIntervals (w : KeywordWorker) : KeywordWorker :=
  { w with job := { w.job with backlog := {} } }

/-- Put another language in place while the worker is parked; a suspension from before stays. -/
def setLanguage (w : KeywordWorker) (language : Option Language) : KeywordWorker :=
  let parked := w.control.suspendWait
  { control := if w.control.suspendRequested then parked else { parked.resume with parked := false }
    job := { w.job with language } }

/-- The name of the active language; none for plain text. -/
def languageName (w : KeywordWorker) : Option String :=
  w.job.language.map (·.name)

/-- The number of queued regions; those put off are not counted. -/
def pending (w : KeywordWorker) : Nat :=
  w.job.backlog.queue.length

/-- Let the worker come to rest. -/
def settle (w : KeywordWorker) (d : Document) : KeywordWorker × Document :=
  let (control, job, d) := w.control.settle (KeywordJob.work Control.tick)
    (w.job.backlog.all.length + 2) (w.job, d)
  ({ control, job }, d)

end KeywordWorker

end Highlight
