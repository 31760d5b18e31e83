/-! # Worker control

A worker repeats units of work until it is told to stop. It is steered by requests that take effect
between two units: it parks on a suspension until it is resumed, and an abort ends it for good.
Here the worker is seen whenever it has come to rest: stopped, parked or idle.
-/

namespace Highlight

/-- Where a worker is in its life. -/
inductive WorkerState where
  | unstarted
  | running
  | suspended
  /-- Told to stop, and not at rest yet. -/
  | cancelled
  | stopped
  deriving Repr, DecidableEq

/-- Why a worker cannot be started. -/
inductive WorkerError where
  | alreadyRunning
  | terminated
  deriving Repr, DecidableEq

/-- The wording of a refusal. -/
def WorkerError.message : WorkerError → String
  | .alreadyRunning => "Worker thread is already running"
  | .terminated => "Worker was aborted and cannot run again"

/-- A request that can reach a worker while it works. -/
inductive Request where
  | suspend
  | abort
  deriving Repr, DecidableEq

/-- What a unit of work came to. -/
inductive Status where
  /-- Something was done; there may be more. -/
  | busy
  /-- There was nothing to do. -/
  | idle
  /-- The work broke off and the worker stops. -/
  | failed
  deriving Repr, DecidableEq

/-- What is known about a worker from outside its work. -/
structure Control where
  /-- A suspension was asked for and not lifted. -/
  suspendRequested : Bool := false
  /-- An abort reached the worker while it was alive. -/
  cancelled : Bool := false
  /-- The worker was started at some time. -/
  started : Bool := false
  /-- The worker is alive. -/
  running : Bool := false
  /-- The worker waits for the end of a suspension. -/
  parked : Bool := false
  /-- The last unit found nothing to do and nothing has arrived since. -/
  idle : Bool := false
  /-- A request that will arrive at the given access of the document from now on. -/
  alarm : Option (Nat × Request) := none
  deriving Repr, DecidableEq

namespace Control

/-- The state a worker is in. -/
def state (c : Control) : WorkerState :=
  if !c.started then .unstarted
  else if !c.running then .stopped
  else if c.cancelled then .cancelled
  else if c.parked then .suspended
  else .running

/-- Start the worker. An aborted one never starts again. -/
def run (c : Control) : Except WorkerError Control :=
  if c.cancelled then .error .terminated
  else if c.running then .error .alreadyRunning
  else .ok { c with running := true, started := true, idle := false, parked := false }

/-- Ask the worker to park before its next unit. -/
def suspend (c : Control) : Control :=
  { c with suspendRequested := true }

/-- Let the worker go on. -/
def resume (c : Control) : Control :=
  { c with suspendRequested := false }

/-- Tell the worker to stop. Nobody hears it unless the worker is alive. -/
def abort (c : Control) : Control :=
  if c.running then { c with cancelled := true } else c

/-- Tell the worker to stop and wait until it has. -/
def join (c : Control) : Control :=
  if c.running then { c with cancelled := true, running := false, parked := false } else c

/-- Tell the worker that something has arrived. -/
def wake (c : Control) : Control :=
  { c with idle := false }

/-- Wait until a suspended worker that is alive has parked. -/
def park (c : Control) : Control :=
  if c.running && c.suspendRequested && !c.cancelled then { c with parked := true, idle := false }
  else c

/-- Suspend the worker and wait until it has parked. -/
def suspendWait (c : Control) : Control :=
  c.suspend.park

/-- A request takes effect. -/
def take (c : Control) : Request → Control
  | .suspend => c.suspend
  | .abort => c.abort

/-- Set the request that arrives at the `n`-th access from now on, counted from one; it replaces an
    earlier one. -/
def setAlarm (c : Control) (n : Nat) (request : Request) : Control :=
  { c with alarm := some (n, request) }

/-- The worker accesses the document once. -/
def access (c : Control) : Control :=
  match c.alarm with
  | none => c
  | some (n, request) =>
    if n ≤ 1 then { c with alarm := none }.take request
    else { c with alarm := some (n - 1, request) }

/-- Whether a unit of work should end early. -/
def shouldYield (c : Control) : Bool :=
  c.cancelled || c.suspendRequested

/-- Access the document once, and say whether the unit should then end early. -/
def tick (c : Control) : Control × Bool :=
  (c.access, c.access.shouldYield)

/-- Let the worker go on until it is at rest. `work` does one unit; the fuel bounds how many are
    done. -/
def settle {σ : Type} (work : Control → σ → Control × σ × Status) :
    Nat → Control → σ → Control × σ
  | 0, c, s => (c, s)
  | fuel + 1, c, s =>
    if !c.running then (c, s)
    else if c.cancelled then ({ c with running := false, parked := false }, s)
    else if c.suspendRequested then (c.park, s)
    else
      match work { c with parked := false } s with
      | (c, s, .busy) => settle work fuel c s
      | (c, s, .idle) =>
        if c.shouldYield then settle work fuel c s else ({ c with idle := true }, s)
      | (c, s, .failed) => ({ c with running := false, parked := false }, s)

end Control

end Highlight
