import Highlight.Bracket
import Highlight.Config
import Highlight.Worker.Queue

/-! # The bracket worker

The bracket worker keeps the list of brackets up to date with changed regions and draws the
connectors anew after every pass.
-/

namespace Highlight

/-- What the bracket worker works on. -/
structure BracketJob where
  backlog : Backlog := {}
  tracker : Tracker := {}
  pair : BracketPair := {}
  stroke : Stroke := {}
  /-- The view has scrolled since the last pass. -/
  scrolled : Bool := false
  /-- The overlay has to be drawn even if no region changed. -/
  redrawPending : Bool := false

namespace BracketJob

/-- Draw the connectors of the tracked brackets. -/
def redraw (job : BracketJob) (d : Document) : Document :=
  { d with connectors := connectorLines d job.stroke job.tracker.brackets }

/-- One pass over all that waits, then the drawing. The document is accessed once for each region
    and once for the drawing. -/
def work {γ : Type} (tick : γ → γ × Bool) (g : γ) (s : BracketJob × Document) :
    γ × (BracketJob × Document) × Status :=
  let (job, d) := s
  if job.backlog.all.isEmpty ∧ ¬job.scrolled ∧ ¬job.redrawPending then (g, s, .idle)
  else
    let (g, rest, tracker) :=
      Backlog.pass tick (Tracker.update job.pair d) job.backlog.all g job.tracker
    let job := { job with
      backlog := { deferred := rest }
      tracker
      scrolled := false
      redrawPending := false }
    ((tick g).1, (job, job.redraw d), .busy)

end BracketJob

/-- The bracket worker: its control and its job. -/
structure BracketWorker where
  control : Control := {}
  job : BracketJob := {}

namespace BracketWorker

/-- The worker of the settings; the connector's colour is the first of its brush. -/
def ofConfig (config : BracketConfig) : Except DescriptorError BracketWorker := do
  let brush ← Brush.parse config.stroke
  return { job := {
    pair := ⟨config.opening, config.closing⟩
    stroke := ⟨brush.firstColor, config.dash, config.gap⟩ } }

/-- Queue a changed region. -/
def push (w : BracketWorker) (i : Interval) : BracketWorker :=
  { control := w.control.wake, job := { w.job with backlog := w.job.backlog.push i } }

/-- Drop all that waits. -/
def clearIntervals (w : BracketWorker) : BracketWorker :=
  { w with job := { w.job with backlog := {} } }

/-- Forget all brackets; the next pass draws an empty overlay. -/
def clearBrackets (w : BracketWorker) : BracketWorker :=
  { control := w.control.wake, job := { w.job with tracker := {}, redrawPending := true } }

/-- Have the overlay drawn anew because the view has scrolled. -/
def notifyScrolled (w : BracketWorker) : BracketWorker :=
  { control := w.control.wake, job := { w.job with scrolled := true } }

/-- Let the worker come to rest. -/
def settle (w : BracketWorker) (d : Document) : BracketWorker × Document :=
  let (control, job, d) := w.control.settle (BracketJob.work Control.tick)
    (w.job.backlog.all.length + 3) (w.job, d)
  ({ control, job }, d)

end BracketWorker

end Highlight
