import Highlight.Worker.Control

/-! # Working off a budget

The plainest job of a worker: a number of tasks, done in units of limited size. A hook acts once a
given number of tasks is done, which shows how requests reach a worker in the middle of a unit.
-/

namespace Highlight

/-- What a hook does. -/
inductive HookAction where
  /-- It sends the worker a request. -/
  | request (request : Request)
  /-- It makes the job break off. -/
  | fail
  deriving Repr, DecidableEq

/-- A budget of tasks and what became of it. -/
structure Budget where
  /-- The most tasks of one unit. -/
  chunk : Nat := 1
  tasks : Nat := 0
  done : Nat := 0
  units : Nat := 0
  /-- A unit found nothing to do. -/
  idled : Bool := false
  /-- The tasks brought along by each start. -/
  starts : List Nat := []
  /-- Whether the last unit that ended early did so because of an abort. -/
  cancelledSeen : Bool := false
  /-- What happens once that many tasks are done. -/
  hook : Option (Nat × HookAction) := none
  deriving Repr, DecidableEq

namespace Budget

/-- Begin a run that brings along `n` tasks. -/
def start (b : Budget) (n : Nat) : Budget :=
  { b with starts := b.starts ++ [n], tasks := b.tasks + n }

/-- Do one task, and what the hook says. -/
def task (c : Control) (b : Budget) : Control × Budget × Bool :=
  let b := { b with tasks := b.tasks - 1, done := b.done + 1 }
  match b.hook with
  | some (target, action) =>
    if target = b.done then
      match action with
      | .request request => (c.take request, { b with hook := none }, true)
      | .fail => (c, { b with hook := none }, false)
    else (c, b, true)
  | none => (c, b, true)

/-- Do up to the given number of tasks. -/
def tasksUpTo : Nat → Control → Budget → Control × Budget × Status
  | 0, c, b => (c, b, .busy)
  | n + 1, c, b =>
    if b.tasks = 0 then (c, b, .busy)
    else
      match task c b with
      | (c, b, false) => (c, b, .failed)
      | (c, b, true) =>
        if c.shouldYield then (c, { b with cancelledSeen := c.cancelled }, .busy)
        else tasksUpTo n c b

/-- One unit of work. -/
def work (c : Control) (b : Budget) : Control × Budget × Status :=
  if b.tasks = 0 then (c, { b with idled := true }, .idle)
  else tasksUpTo b.chunk c { b with units := b.units + 1 }

/-- Let the worker come to rest. -/
def settle (c : Control) (b : Budget) : Control × Budget :=
  c.settle work (b.tasks + 2) b

end Budget

end Highlight
