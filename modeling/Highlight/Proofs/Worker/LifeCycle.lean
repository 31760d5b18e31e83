import Highlight.Proofs.Document.Blocks
import Highlight.Proofs.Worker.Keyword
import Mathlib.Data.List.Induction

/-! # The life of a worker

A keyword worker takes directives in any order and comes to rest behind each, while others may
change its document. What is seen of it follows from the history of the directives alone: a worker
is launched by its first run, ends with the first abort or join behind that, and meanwhile rests or
works as the last suspension or resumption says. Regions are served at once while it works and wait
in order while it does not.
-/

namespace Highlight

/-- What a keyword worker can be told, and a change that others make to its document. -/
inductive Directive where
  | run
  | suspend
  | suspendWait
  | resume
  | abort
  | join
  | push (i : Interval)
  | clearIntervals
  | setLanguage (language : Option Language)
  | call (c : Call)

namespace Directive

/-- What is done to the document before the worker comes to rest. -/
def edits (d : Document) : Directive → Document
  | .call c => d.perform c
  | _ => d

/-- The regions that wait before the worker comes to rest. -/
def waiting (queue : List Interval) : Directive → List Interval
  | .push i => queue ++ [i]
  | .clearIntervals => []
  | _ => queue

/-- The language that is then in place. -/
def chosen (current : Option Language) : Directive → Option Language
  | .setLanguage language => language
  | _ => current

/-- Whether a directive suspends or resumes, if it is about that. -/
def holds? : Directive → Option Bool
  | .suspend | .suspendWait => some true
  | .resume => some false
  | _ => none

/-- A run was followed by an abort or a join. -/
def Ended (history : List Directive) : Prop :=
  List.Sublist [run, abort] history ∨ List.Sublist [run, join] history

/-- The last of all suspensions and resumptions was a suspension. -/
def Held (history : List Directive) : Prop :=
  (history.filterMap holds?).getLast? = some true

end Directive

namespace KeywordWorker

/-- A directive reaches the worker. A run that is refused changes nothing. -/
def steer (w : KeywordWorker) : Directive → KeywordWorker
  | .run => match w.control.run with
    | .ok control => { w with control }
    | .error _ => w
  | .suspend => { w with control := w.control.suspend }
  | .suspendWait => { w with control := w.control.suspendWait }
  | .resume => { w with control := w.control.resume }
  | .abort => { w with control := w.control.abort }
  | .join => { w with control := w.control.join }
  | .push i => w.push i
  | .clearIntervals => w.clearIntervals
  | .setLanguage language => w.setLanguage language
  | .call _ => w

/-- The worker and its document when the worker has come to rest behind a directive. -/
def obey (s : KeywordWorker × Document) (o : Directive) : KeywordWorker × Document :=
  (s.1.steer o).settle (o.edits s.2)

def obeyAll (s : KeywordWorker × Document) (history : List Directive) :
    KeywordWorker × Document :=
  history.foldl obey s

end KeywordWorker

/-- The answer that a run gets. -/
def Control.answer (c : Control) : Except WorkerError Unit :=
  c.run.map fun _ => ()

/-! ## Phases -/

/-- How far a worker has come in its life. -/
inductive Phase where
  | unborn
  | alive
  | ended
  deriving DecidableEq

namespace Phase

def next : Phase → Directive → Phase
  | .unborn, .run => .alive
  | .alive, .abort => .ended
  | .alive, .join => .ended
  | phase, _ => phase

/-- The phase behind a history. -/
def behind (history : List Directive) : Phase :=
  history.foldl next .unborn

/-- The control of a worker at rest. -/
def control (held idle : Bool) : Phase → Control
  | .unborn => { suspendRequested := held, idle }
  | .alive =>
    { suspendRequested := held, started := true, running := true, parked := held, idle }
  | .ended => { suspendRequested := held, cancelled := true, started := true, idle }

/-- The state that a worker at rest is seen in. -/
def state (held : Bool) : Phase → WorkerState
  | .unborn => .unstarted
  | .alive => if held then .suspended else .running
  | .ended => .stopped

theorem state_control (phase : Phase) (held idle : Bool) :
    (phase.control held idle).state = phase.state held := by
  cases phase <;> cases held <;> rfl

theorem state_iff (phase : Phase) (held : Bool) :
    (phase.state held = .unstarted ↔ phase = .unborn) ∧
      (phase.state held = .stopped ↔ phase = .ended) ∧
      (phase.state held = .suspended ↔ phase = .alive ∧ held = true) ∧
      (phase.state held = .running ↔ phase = .alive ∧ ¬held = true) := by
  cases phase <;> cases held <;> simp [state]

/-- The answer to a run. -/
def answer : Phase → Except WorkerError Unit
  | .unborn => .ok ()
  | .alive => .error .alreadyRunning
  | .ended => .error .terminated

theorem answer_control (phase : Phase) (held idle : Bool) :
    (phase.control held idle).answer = phase.answer := by
  cases phase <;> rfl

theorem behind_concat (history : List Directive) (o : Directive) :
    behind (history ++ [o]) = (behind history).next o := by
  rw [behind, List.foldl_append]
  rfl

theorem pair_sublist_concat {a b o : Directive} {history : List Directive} :
    List.Sublist [a, b] (history ++ [o]) ↔
      List.Sublist [a, b] history ∨ a ∈ history ∧ o = b := by
  rw [← List.reverse_sublist, List.reverse_append, List.reverse_singleton, List.singleton_append]
  have reversed : List.Sublist [b, a] history.reverse ↔ List.Sublist [a, b] history :=
    @List.reverse_sublist _ [a, b] history
  have member : List.Sublist [a] history.reverse ↔ a ∈ history := by
    rw [List.singleton_sublist, List.mem_reverse]
  constructor
  · intro pair
    cases pair with
    | cons _ pair => exact .inl (reversed.mp pair)
    | cons_cons _ pair => exact .inr ⟨member.mp pair, rfl⟩
  · intro pair
    rcases pair with pair | ⟨found, rfl⟩
    · exact .cons _ (reversed.mpr pair)
    · exact .cons_cons _ (member.mpr found)

/-- The phase says whether there was a run, and whether it was ended. -/
theorem behind_iff (history : List Directive) :
    (behind history = .unborn ↔ Directive.run ∉ history) ∧
      (behind history = .ended ↔ Directive.Ended history) := by
  induction history using List.reverseRecOn with
  | nil => simp [behind, Directive.Ended]
  | append_singleton history o ih =>
      obtain ⟨unborn, ended⟩ := ih
      simp only [Directive.Ended, pair_sublist_concat, behind_concat, List.mem_append,
        List.mem_singleton] at ended ⊢
      cases phase : behind history <;> cases o <;> simp_all [next]

theorem behind_eq_alive (history : List Directive) :
    behind history = .alive ↔ .run ∈ history ∧ ¬Directive.Ended history := by
  obtain ⟨unborn, ended⟩ := behind_iff history
  have launched : Directive.run ∈ history ↔ behind history ≠ .unborn := by
    rw [ne_eq, unborn, not_not]
  rw [launched, ← ended]
  cases behind history <;> simp

theorem next_setLanguage (phase : Phase) (language : Option Language) :
    phase.next (.setLanguage language) = phase := by
  cases phase <;> rfl

end Phase

/-- Whether a worker is held behind a history. -/
def Directive.heldBehind (history : List Directive) : Bool :=
  history.foldl (fun held o => o.holds?.getD held) false

namespace Directive

theorem heldBehind_concat (history : List Directive) (o : Directive) :
    heldBehind (history ++ [o]) = o.holds?.getD (heldBehind history) := by
  rw [heldBehind, List.foldl_append]
  rfl

theorem heldBehind_iff (history : List Directive) : heldBehind history = true ↔ Held history := by
  induction history using List.reverseRecOn with
  | nil => simp [heldBehind, Held]
  | append_singleton history o ih =>
      rw [heldBehind_concat, Held, List.filterMap_append, List.getLast?_append]
      cases told : o.holds? with
      | none =>
          rw [List.filterMap_cons_none told, List.filterMap_nil, List.getLast?_nil]
          exact ih
      | some held =>
          rw [List.filterMap_cons_some told, List.filterMap_nil]
          simp

end Directive

/-! ## Coming to rest -/

namespace Control

/-- The control of a worker when it has come to rest. -/
def atRest (c : Control) : Control :=
  if !c.running then c
  else if c.cancelled then { c with running := false, parked := false }
  else if c.suspendRequested then c.park
  else { c with parked := false, idle := true }

theorem settle_waiting {σ : Type} {work : Control → σ → Control × σ × Status} {c : Control}
    (quiet : c.alarm = none) (kept : ¬c.Ready) (fuel : Nat) (s : σ) :
    settle work (fuel + 1) c s = (c.atRest, s) := by
  rw [settle, atRest]
  split
  · rfl
  · rename_i running
    split
    · rfl
    · rename_i live
      split
      · rfl
      · rename_i awake
        exact absurd ⟨by simpa using running, by simpa using live, by simpa using awake, quiet⟩ kept

theorem atRest_ready {c : Control} (h : c.Ready) :
    c.atRest = { c with parked := false, idle := true } := by
  rw [atRest, if_neg (by simp [h.running]), if_neg (by simp [h.live]), if_neg (by simp [h.awake])]

theorem state_eq_running {c : Control} : c.state = .running ↔
    c.started = true ∧ c.running = true ∧ c.cancelled = false ∧ c.parked = false := by
  simp only [state]
  repeat' split
  all_goals simp_all

/-- A worker at rest is seen running exactly if nothing kept it from working. -/
theorem atRest_state {c : Control} (quiet : c.alarm = none)
    (launched : (c.running && !c.started) = false) : c.atRest.state = .running ↔ c.Ready := by
  constructor
  · intro seen
    by_contra kept
    rw [state_eq_running, atRest] at seen
    split at seen
    · simp_all
    · rename_i running
      split at seen
      · simp at seen
      · rename_i live
        split at seen
        · simp_all [park]
        · rename_i awake
          exact kept ⟨by simpa using running, by simpa using live, by simpa using awake, quiet⟩
  · intro h
    have started : c.started = true := by simpa [h.running] using launched
    rw [atRest_ready h]
    simp [state, started, h.running, h.live]

end Control

namespace KeywordWorker

theorem settle_kept {w : KeywordWorker} (quiet : w.control.alarm = none) (kept : ¬w.control.Ready)
    (d : Document) : w.settle d = (⟨w.control.atRest, w.job⟩, d) := by
  simp only [settle, Control.settle_waiting quiet kept]

theorem settle_control {w : KeywordWorker} (quiet : w.control.alarm = none) (d : Document) :
    (w.settle d).1.control = w.control.atRest := by
  by_cases ready : w.control.Ready
  · rw [settle_served ready, Control.atRest_ready ready]
  · rw [settle_kept quiet ready]

theorem steer_backlog {w : KeywordWorker} (none : w.job.backlog.deferred = []) (o : Directive) :
    (w.steer o).job.backlog = { queue := o.waiting w.job.backlog.queue } := by
  obtain ⟨control, ⟨⟨deferred, queue⟩, language⟩⟩ := w
  subst none
  cases o with
  | run =>
      simp only [steer]
      cases control.run <;> rfl
  | _ => rfl

theorem steer_language (w : KeywordWorker) (o : Directive) :
    (w.steer o).job.language = o.chosen w.job.language := by
  cases o with
  | run =>
      simp only [steer]
      cases w.control.run <;> rfl
  | _ => rfl

/-- In each phase, each directive leads to the next phase. -/
theorem steer_control {w : KeywordWorker} {phase : Phase} {held idle : Bool}
    (shape : w.control = phase.control held idle) (o : Directive) :
    let c := (w.steer o).control
    c.alarm = none ∧ (c.running && !c.started) = false ∧
      ∃ idle, c.atRest = (phase.next o).control (o.holds?.getD held) idle := by
  obtain ⟨control, job⟩ := w
  subst shape
  cases phase <;> cases o <;> cases held <;> exact ⟨rfl, rfl, _, rfl⟩

/-- Nobody hears an end that is asked for before the worker is alive. -/
theorem obey_dead {s : KeywordWorker × Document} (quiet : s.1.control.alarm = none)
    (dead : s.1.control.running = false) : obey s .abort = s ∧ obey s .join = s := by
  have kept : ¬s.1.control.Ready := fun ready => by simp [ready.running] at dead
  have rested : s.1.control.atRest = s.1.control := by simp [Control.atRest, dead]
  have abort : s.1.steer .abort = s.1 := by simp [steer, Control.abort, dead]
  have join : s.1.steer .join = s.1 := by simp [steer, Control.join, dead]
  simp only [obey, abort, join, settle_kept quiet kept, rested]
  exact ⟨rfl, rfl⟩

/-- What a directive comes to: `s` and `s'` are the worker and its document before and behind. -/
structure Obeyed (s : KeywordWorker × Document) (o : Directive) (s' : KeywordWorker × Document) :
    Prop where
  /-- A worker that does not run leaves the document alone, and the regions wait. -/
  waits : s'.1.control.state ≠ .running → s'.2 = o.edits s.2 ∧
    s'.1.job = ⟨{ queue := o.waiting s.1.job.backlog.queue }, o.chosen s.1.job.language⟩
  /-- A worker that runs has served all of them, in order. -/
  serves : s'.1.control.state = .running → s'.1.job.backlog = {} ∧
    (s'.1.job.language, s'.2) = KeywordJob.serve (o.waiting s.1.job.backlog.queue)
      (o.chosen s.1.job.language, o.edits s.2)

/-- What holds of a worker behind a history. -/
structure Lived (history : List Directive) (w : KeywordWorker) : Prop where
  control : ∃ idle, w.control =
    (Phase.behind history).control (Directive.heldBehind history) idle
  deferred : w.job.backlog.deferred = []

theorem Lived.step {history : List Directive} {s : KeywordWorker × Document}
    (h : s.1.Lived history) (o : Directive) : (obey s o).1.Lived (history ++ [o]) := by
  obtain ⟨idle, shape⟩ := h.control
  obtain ⟨quiet, -, idle', rested⟩ := steer_control shape o
  refine ⟨⟨idle', ?_⟩, ?_⟩
  · rw [obey, settle_control quiet, rested, Phase.behind_concat, Directive.heldBehind_concat]
  · by_cases ready : (s.1.steer o).control.Ready
    · rw [obey, settle_served ready]
    · rw [obey, settle_kept quiet ready, steer_backlog h.deferred o]

theorem Lived.run {history : List Directive} {s : KeywordWorker × Document}
    (h : s.1.Lived history) (more : List Directive) :
    (obeyAll s more).1.Lived (history ++ more) := by
  induction more generalizing history s with
  | nil =>
      rw [List.append_nil]
      exact h
  | cons o more ih =>
      have later := ih (h.step o)
      rwa [List.append_assoc, List.singleton_append] at later

theorem Lived.obeyed {history : List Directive} {s : KeywordWorker × Document}
    (h : s.1.Lived history) (o : Directive) : Obeyed s o (obey s o) := by
  obtain ⟨idle, shape⟩ := h.control
  obtain ⟨quiet, launched, -⟩ := steer_control shape o
  have backlog := steer_backlog h.deferred o
  have language := steer_language s.1 o
  have seen : (obey s o).1.control.state = .running ↔ (s.1.steer o).control.Ready := by
    rw [obey, settle_control quiet, Control.atRest_state quiet launched]
  constructor
  · intro other
    rw [obey, settle_kept quiet (mt seen.mpr other), ← backlog, ← language]
    exact ⟨rfl, rfl⟩
  · intro running
    have served := settle_served (seen.mp running) (o.edits s.2)
    rw [backlog, language] at served
    rw [obey, served]
    exact ⟨rfl, rfl⟩

/-- Over a stretch of directives behind none of which the worker runs, the regions pile up until
    they are dropped. -/
theorem Lived.waits {history : List Directive} {s : KeywordWorker × Document}
    (h : s.1.Lived history) {more : List Directive}
    (kept : ∀ front, front ≠ [] → front <+: more →
      (obeyAll s front).1.control.state ≠ .running) :
    (obeyAll s more).2 = more.foldl Directive.edits s.2 ∧ (obeyAll s more).1.job.backlog =
      { queue := more.foldl Directive.waiting s.1.job.backlog.queue } := by
  induction more generalizing history s with
  | nil => exact ⟨rfl, congrArg (Backlog.mk · s.1.job.backlog.queue) h.deferred⟩
  | cons o more ih =>
      obtain ⟨document, job⟩ :=
        (h.obeyed o).waits (kept [o] (List.cons_ne_nil o []) (List.prefix_append [o] more))
      have later := ih (h.step o) (by
        intro front _ before
        have before : o :: front <+: o :: more := List.cons_prefix_cons.mpr ⟨rfl, before⟩
        exact kept (o :: front) (List.cons_ne_nil o front) before)
      rwa [document, job] at later

end KeywordWorker

open KeywordWorker Directive

/-- The life of a worker, told from the directives it was given. -/
structure LifeCycle (history : List Directive) (s : KeywordWorker × Document) : Prop where
  /-- The first run starts the worker and no other does. -/
  starts : .run ∉ history → s.1.control.answer = .ok ()
  started : .run ∈ history → ¬Ended history → s.1.control.answer = .error .alreadyRunning
  terminated : Ended history → s.1.control.answer = .error .terminated
  /-- Before that an abort or a join does nothing at all. -/
  unheard : .run ∉ history → obey s .abort = s ∧ obey s .join = s
  unstarted_iff : s.1.control.state = .unstarted ↔ .run ∉ history
  stopped_iff : s.1.control.state = .stopped ↔ Ended history
  suspended_iff : s.1.control.state = .suspended ↔
    .run ∈ history ∧ ¬Ended history ∧ Held history
  running_iff : s.1.control.state = .running ↔ .run ∈ history ∧ ¬Ended history ∧ ¬Held history
  setLanguage : ∀ language,
    (obey s (.setLanguage language)).1.control.state = s.1.control.state
  /-- Only a worker that runs touches the document. -/
  obeyed : ∀ o, Obeyed s o (obey s o)
  /-- Over a stretch of directives behind none of which it runs, the regions wait in order until
      they are dropped. -/
  waits : ∀ more, (∀ front, front ≠ [] → front <+: more →
      (obeyAll s front).1.control.state ≠ .running) →
    (obeyAll s more).2 = more.foldl edits s.2 ∧
      (obeyAll s more).1.job.backlog = { queue := more.foldl waiting s.1.job.backlog.queue }

/-- A keyword worker lives its life cycle, whatever directives it is given. -/
theorem keyword_worker_lives (d : Document) (history : List Directive) :
    LifeCycle history (obeyAll ({}, d) history) := by
  have lived : (obeyAll ({}, d) history).1.Lived history :=
    @Lived.run [] ({}, d) ⟨⟨false, rfl⟩, rfl⟩ history
  obtain ⟨idle, shape⟩ := lived.control
  obtain ⟨unborn, ended⟩ := Phase.behind_iff history
  have alive := Phase.behind_eq_alive history
  have held := heldBehind_iff history
  have answer := shape ▸ Phase.answer_control (Phase.behind history) (heldBehind history) idle
  have state := shape ▸ Phase.state_control (Phase.behind history) (heldBehind history) idle
  obtain ⟨unstarted, stopped, suspended, running⟩ :=
    Phase.state_iff (Phase.behind history) (heldBehind history)
  rw [← state] at unstarted stopped suspended running
  refine ⟨?_, ?_, ?_, ?_, unstarted.trans unborn, stopped.trans ended, ?_, ?_, ?_, lived.obeyed,
    fun more kept => lived.waits kept⟩
  · intro absent
    rw [answer, unborn.mpr absent]
    rfl
  · intro launched live
    rw [answer, alive.mpr ⟨launched, live⟩]
    rfl
  · intro done
    rw [answer, ended.mpr done]
    rfl
  · intro absent
    rw [unborn.mpr absent] at shape
    exact obey_dead (by rw [shape]; rfl) (by rw [shape]; rfl)
  · rw [suspended, alive, held, and_assoc]
  · rw [running, alive, held, and_assoc]
  · intro language
    obtain ⟨idle', shape'⟩ := (lived.step (.setLanguage language)).control
    rw [shape', Phase.state_control, state, Phase.behind_concat, heldBehind_concat,
      Phase.next_setLanguage]
    rfl

end Highlight
