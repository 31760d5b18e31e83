import Highlight.Position
import Highlight.Worker.Control

/-! # Queued work

Changed regions wait in a queue. A pass takes all of them, in order; when it has to end early, the
rest is put off and comes first in the next pass.
-/

namespace Highlight

/-- The regions that wait: those put off by the last pass, and those queued since. -/
structure Backlog where
  deferred : List Interval := []
  queue : List Interval := []
  deriving Repr, DecidableEq

namespace Backlog

/-- Queue a region. -/
def push (b : Backlog) (i : Interval) : Backlog :=
  { b with queue := b.queue ++ [i] }

/-- All that waits, in order. -/
def all (b : Backlog) : List Interval :=
  b.deferred ++ b.queue

/-- Do the regions one after the other. After each, `tick` says whether to end early; the regions
    left over are given back. -/
def pass {γ σ : Type} (tick : γ → γ × Bool) (scan : Interval → σ → σ) :
    List Interval → γ → σ → γ × List Interval × σ
  | [], g, s => (g, [], s)
  | i :: rest, g, s =>
    match tick g with
    | (g, true) => (g, rest, scan i s)
    | (g, false) => pass tick scan rest g (scan i s)

end Backlog

end Highlight
