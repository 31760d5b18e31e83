import Highlight.Proofs.Worker.Bracket
import Highlight.Proofs.Worker.Keyword
import Mathlib.Logic.Function.Iterate

/-! # Passes lose nothing

Regions are queued at any time and passes end early wherever they are asked to. What has been
scanned, what was put off and what is queued always make up, in this order, all that was ever
queued. A region that comes in while a pass is under way waits in the queue that the pass has
emptied, just as one that comes in right behind it.
-/

namespace Highlight

namespace Backlog

/-- The regions that a pass scans: the same pass, over a log that only takes them down. -/
def record {γ : Type} (tick : γ → γ × Bool) (waiting : List Interval) (g : γ) : List Interval :=
  (pass tick (fun i log => log ++ [i]) waiting g []).2.2

theorem record_eq {γ : Type} (tick : γ → γ × Bool) (waiting : List Interval) (g : γ)
    (log : List Interval) :
    (pass tick (fun i log => log ++ [i]) waiting g log).2.2 = log ++ record tick waiting g := by
  induction waiting generalizing g log with
  | nil => simp [record, pass]
  | cons i rest ih =>
      rw [record, pass, pass]
      cases tick g with
      | mk g yield =>
          cases yield with
          | true => rfl
          | false => simp only [ih, List.nil_append, List.append_assoc]

theorem record_cons {γ : Type} (tick : γ → γ × Bool) (i : Interval) (rest : List Interval) (g : γ) :
    record tick (i :: rest) g =
      i :: if (tick g).2 then [] else record tick rest (tick g).1 := by
  rw [record, pass]
  cases tick g with
  | mk g yield =>
      cases yield with
      | true => rfl
      | false => exact record_eq tick rest g [i]

/-- A pass scans a front part of what waits, one access each, and gives the rest back. -/
theorem pass_eq {γ σ : Type} (tick : γ → γ × Bool) (scan : Interval → σ → σ)
    (waiting : List Interval) (g : γ) (s : σ) :
    let done := record tick waiting g
    ∃ rest, waiting = done ++ rest ∧ pass tick scan waiting g s =
      ((fun g => (tick g).1)^[done.length] g, rest, done.foldl (fun s i => scan i s) s) := by
  induction waiting generalizing g s with
  | nil => exact ⟨[], rfl, rfl⟩
  | cons i waiting ih =>
      rw [record_cons, pass]
      cases answer : tick g with
      | mk g' yield =>
          cases yield with
          | true => exact ⟨waiting, rfl, by simp [answer]⟩
          | false =>
              obtain ⟨rest, split, passed⟩ := ih g' (scan i s)
              refine ⟨rest, congrArg (i :: ·) split, ?_⟩
              simp only [passed, Bool.false_eq_true, if_false, List.length_cons, List.foldl_cons,
                Function.iterate_succ_apply, answer]

theorem record_ne_nil {γ : Type} (tick : γ → γ × Bool) {waiting : List Interval}
    (waits : waiting ≠ []) (g : γ) : record tick waiting g ≠ [] := by
  cases waiting with
  | nil => exact absurd rfl waits
  | cons i rest => simp [record_cons]

theorem all_eq_nil {b : Backlog} : b.all = [] ↔ b.deferred = [] ∧ b.queue = [] :=
  List.append_eq_nil_iff

end Backlog

/-- The answers to a pass, one behind each access; when they run out it goes on. -/
def answer (answers : List Bool) : List Bool × Bool :=
  (answers.tail, answers.headD false)

/-! ## Histories -/

/-- A worker that works off queued regions, and what else it can be told. One unit of work leaves
    what it does not scan. -/
structure Queueing (ω σ : Type) where
  backlog : ω → Backlog
  push : ω → Interval → ω
  tell : ω → σ → ω
  work : List Bool → ω → Document → ω × Document
  backlog_push : ∀ w i, backlog (push w i) = (backlog w).push i
  backlog_tell : ∀ w s, backlog (tell w s) = backlog w
  backlog_work : ∀ answers w d, (backlog w).all =
    Backlog.record answer (backlog w).all answers ++ (backlog (work answers w d).1).all

/-- Something that happens to a worker or to its document. -/
inductive Move (σ : Type) where
  | push (i : Interval)
  /-- One unit of work, with the answers to its question whether to end early. -/
  | work (answers : List Bool)
  | call (c : Call)
  | tell (signal : σ)

/-- The regions that are queued, in order. -/
def Move.queued {σ : Type} : List (Move σ) → List Interval
  | [] => []
  | .push i :: moves => i :: queued moves
  | _ :: moves => queued moves

/-- A worker, its document and the regions it has scanned so far. -/
structure History (ω : Type) where
  worker : ω
  document : Document
  scanned : List Interval := []

namespace Queueing

variable {ω σ : Type} (q : Queueing ω σ)

def after (s : History ω) : Move σ → History ω
  | .push i => { s with worker := q.push s.worker i }
  | .work answers =>
    let (worker, document) := q.work answers s.worker s.document
    ⟨worker, document, s.scanned ++ Backlog.record answer (q.backlog s.worker).all answers⟩
  | .call c => { s with document := s.document.perform c }
  | .tell signal => { s with worker := q.tell s.worker signal }

def run (s : History ω) (moves : List (Move σ)) : History ω :=
  moves.foldl q.after s

/-- Scanned regions and those that wait, in order. -/
def account (s : History ω) : List Interval :=
  s.scanned ++ (q.backlog s.worker).all

theorem account_after (s : History ω) (move : Move σ) :
    q.account (q.after s move) = q.account s ++ Move.queued [move] := by
  cases move with
  | push i =>
      simp only [account, after, q.backlog_push, Backlog.push, Backlog.all, List.append_assoc]
      rfl
  | work answers =>
      have split := q.backlog_work answers s.worker s.document
      calc q.account (q.after s (.work answers))
        _ = s.scanned ++ (q.backlog s.worker).all := by
          rw [account, after, List.append_assoc, ← split]
        _ = q.account s ++ [] := (List.append_nil _).symm
  | call c => exact (List.append_nil _).symm
  | tell signal =>
      simp only [account, after, q.backlog_tell]
      exact (List.append_nil _).symm

theorem queued_cons (move : Move σ) (moves : List (Move σ)) :
    Move.queued (move :: moves) = Move.queued [move] ++ Move.queued moves := by
  cases move <;> rfl

theorem account_run (s : History ω) (moves : List (Move σ)) :
    q.account (q.run s moves) = q.account s ++ Move.queued moves := by
  induction moves generalizing s with
  | nil => exact (List.append_nil _).symm
  | cons move moves ih =>
      calc q.account (q.run (q.after s move) moves)
        _ = q.account (q.after s move) ++ Move.queued moves := ih _
        _ = q.account s ++ Move.queued (move :: moves) := by
          rw [q.account_after, List.append_assoc, ← queued_cons]

end Queueing

/-! ## The keyword worker -/

theorem Language.applyStyling_idle (l : Language) (d : Document) : (l.applyStyling d).1.Idle := by
  have groups (groups : List Group) (d : Document) :
      ∀ g ∈ (styleGroups groups d).1, g.pending = [] := by
    induction groups generalizing d with
    | nil => simp [styleGroups]
    | cons g rest ih =>
        intro g' member
        rcases List.mem_cons.mp member with rfl | member
        · rfl
        · exact ih _ g' member
  exact groups l.groups d

namespace KeywordJob

theorem style_idle (s : Option Language × Document) : ∀ l ∈ (style s).1, l.Idle := by
  cases s with
  | mk language d =>
      cases language with
      | none => simp [style]
      | some l =>
          intro l' same
          cases same
          exact l.applyStyling_idle d

/-- What a unit of work of the keyword worker does. -/
structure WorksOff {γ : Type} (job : KeywordJob) (tick : γ → γ × Bool) (g : γ) (d : Document) :
    Prop where
  idle_iff : (work tick g (job, d)).2.2 = .idle ↔ job.backlog.deferred = [] ∧ job.backlog.queue = []
  /-- Without anything to do it changes nothing. -/
  idle : (work tick g (job, d)).2.2 = .idle → work tick g (job, d) = (g, (job, d), .idle)
  some_done : job.backlog.all ≠ [] → Backlog.record tick job.backlog.all g ≠ []
  /-- It scans what it records, puts the rest off and styles once, behind the last scan. -/
  busy : (work tick g (job, d)).2.2 ≠ .idle →
    let done := Backlog.record tick job.backlog.all g
    let styled := style (done.foldl (fun s i => scan i s) (job.language, d))
    let accesses := done.length + styled.1.isSome.toNat
    ∃ rest, job.backlog.all = done ++ rest ∧ work tick g (job, d) =
      ((fun g => (tick g).1)^[accesses] g, (⟨⟨rest, []⟩, styled.1⟩, styled.2), .busy)
  /-- Behind it no match is put off, unless it had nothing to do and one was before. -/
  settled : (work tick g (job, d)).2.2 ≠ .idle ∨ (∀ l ∈ job.language, l.Idle) →
    ∀ l ∈ (work tick g (job, d)).2.1.1.language, l.Idle

theorem worksOff {γ : Type} (tick : γ → γ × Bool) (g : γ) (job : KeywordJob) (d : Document) :
    WorksOff job tick g d := by
  by_cases none : job.backlog.all = []
  · have worked : work tick g (job, d) = (g, (job, d), .idle) := by
      simp only [work, none, List.isEmpty_nil, if_true]
    rw [Backlog.all_eq_nil] at none
    exact ⟨by simp [worked, none], fun _ => worked, by simp [Backlog.all, none], by simp [worked],
      by simp [worked]⟩
  · let done := Backlog.record tick job.backlog.all g
    let styled := style (done.foldl (fun s i => scan i s) (job.language, d))
    obtain ⟨rest, split, passed⟩ := Backlog.pass_eq tick scan job.backlog.all g (job.language, d)
    have worked : work tick g (job, d) =
        ((fun g => (tick g).1)^[done.length + styled.1.isSome.toNat] g,
          (⟨⟨rest, []⟩, styled.1⟩, styled.2), .busy) := by
      simp only [work, List.isEmpty_iff, none, if_false, passed, styled, done]
      cases (Backlog.record tick job.backlog.all g).foldl (fun s i => scan i s)
          (job.language, d) with
      | mk language d' =>
          cases language with
          | none => rfl
          | some l => simp [style, Function.iterate_succ_apply']
    refine ⟨?_, by simp [worked], fun waits => Backlog.record_ne_nil tick waits g,
      fun _ => ⟨rest, split, worked⟩, fun _ => ?_⟩
    · rw [← Backlog.all_eq_nil]
      simp [worked, none]
    · rw [worked]
      exact style_idle _

end KeywordJob

/-- The keyword worker with the change of its language as a signal. -/
def KeywordWorker.queueing : Queueing KeywordWorker (Option Language) where
  backlog w := w.job.backlog
  push := KeywordWorker.push
  tell := KeywordWorker.setLanguage
  work answers w d :=
    let (_, (job, d), _) := KeywordJob.work answer answers (w.job, d)
    ({ w with job }, d)
  backlog_push _ _ := rfl
  backlog_tell _ _ := rfl
  backlog_work answers w d := by
    have unit := KeywordJob.worksOff answer answers w.job d
    by_cases idle : (KeywordJob.work answer answers (w.job, d)).2.2 = .idle
    · have none := Backlog.all_eq_nil.mpr (unit.idle_iff.mp idle)
      simp only [unit.idle idle, none]
      rfl
    · obtain ⟨rest, split, worked⟩ := unit.busy idle
      simpa only [worked, Backlog.all, List.append_nil] using split

/-! ## The bracket worker -/

namespace BracketJob

/-- What a unit of work of the bracket worker does. -/
structure WorksOff {γ : Type} (job : BracketJob) (tick : γ → γ × Bool) (g : γ) (d : Document) :
    Prop where
  idle_iff : (work tick g (job, d)).2.2 = .idle ↔ (job.backlog.deferred = [] ∧
    job.backlog.queue = []) ∧ job.scrolled = false ∧ job.redrawPending = false
  /-- Without anything to do it changes nothing. -/
  idle : (work tick g (job, d)).2.2 = .idle → work tick g (job, d) = (g, (job, d), .idle)
  some_done : job.backlog.all ≠ [] → Backlog.record tick job.backlog.all g ≠ []
  /-- It scans what it records, puts the rest off and draws once, behind the last scan. No request
      to draw is left. -/
  busy : (work tick g (job, d)).2.2 ≠ .idle →
    let done := Backlog.record tick job.backlog.all g
    let tracker := done.foldl (fun t i => t.update job.pair d i) job.tracker
    ∃ rest, job.backlog.all = done ++ rest ∧ work tick g (job, d) =
      ((fun g => (tick g).1)^[done.length + 1] g,
        ({ job with
            backlog := { deferred := rest }
            tracker
            scrolled := false
            redrawPending := false },
          { d with connectors := connectorLines d job.stroke tracker.brackets }), .busy)

theorem worksOff {γ : Type} (tick : γ → γ × Bool) (g : γ) (job : BracketJob) (d : Document) :
    WorksOff job tick g d := by
  have some_done (waits : job.backlog.all ≠ []) := Backlog.record_ne_nil tick waits g
  by_cases rest : job.backlog.all.isEmpty ∧ ¬job.scrolled ∧ ¬job.redrawPending
  · have worked : work tick g (job, d) = (g, (job, d), .idle) := by
      simp only [work, if_pos rest]
    rw [List.isEmpty_iff, Backlog.all_eq_nil, Bool.not_eq_true, Bool.not_eq_true] at rest
    exact ⟨by simp [worked, rest], fun _ => worked, some_done, by simp [worked]⟩
  · obtain ⟨later, split, passed⟩ :=
      Backlog.pass_eq tick (Tracker.update job.pair d) job.backlog.all g job.tracker
    have worked : work tick g (job, d) = _ := if_neg rest
    simp only [passed, ← Function.iterate_succ_apply' (fun g => (tick g).1)] at worked
    refine ⟨?_, by simp [worked], some_done, fun _ => ⟨later, split, worked⟩⟩
    rw [List.isEmpty_iff, Backlog.all_eq_nil, Bool.not_eq_true, Bool.not_eq_true] at rest
    simp [worked, rest]

end BracketJob

/-- What a bracket worker can be told. -/
inductive BracketSignal where
  | scrolled
  | forget

/-- The bracket worker with its two requests to draw as signals. -/
def BracketWorker.queueing : Queueing BracketWorker BracketSignal where
  backlog w := w.job.backlog
  push := BracketWorker.push
  tell w
    | .scrolled => w.notifyScrolled
    | .forget => w.clearBrackets
  work answers w d :=
    let (_, (job, d), _) := BracketJob.work answer answers (w.job, d)
    ({ w with job }, d)
  backlog_push _ _ := rfl
  backlog_tell w signal := by cases signal <;> rfl
  backlog_work answers w d := by
    have unit := BracketJob.worksOff answer answers w.job d
    by_cases idle : (BracketJob.work answer answers (w.job, d)).2.2 = .idle
    · have none := Backlog.all_eq_nil.mpr (unit.idle_iff.mp idle).1
      simp only [unit.idle idle, none]
      rfl
    · obtain ⟨rest, split, worked⟩ := unit.busy idle
      simpa only [worked, Backlog.all, List.append_nil] using split

/-- Both workers do every queued region once and in order, however their passes are cut short, and
    at every point of a history a unit of work does what it should. -/
theorem queued_regions_scanned_once :
    (∀ (language : Option Language) (d : Document) (moves : List (Move (Option Language))),
      let s := KeywordWorker.queueing.run ⟨{ job := { language } }, d, []⟩ moves
      let waiting := s.worker.job.backlog
      s.scanned ++ waiting.deferred ++ waiting.queue = Move.queued moves ∧
        ∀ {γ : Type} (tick : γ → γ × Bool) (g : γ), s.worker.job.WorksOff tick g s.document) ∧
    ∀ (pair : BracketPair) (stroke : Stroke) (d : Document) (moves : List (Move BracketSignal)),
      let s := BracketWorker.queueing.run ⟨{ job := { pair, stroke } }, d, []⟩ moves
      let waiting := s.worker.job.backlog
      s.scanned ++ waiting.deferred ++ waiting.queue = Move.queued moves ∧
        ∀ {γ : Type} (tick : γ → γ × Bool) (g : γ), s.worker.job.WorksOff tick g s.document := by
  constructor
  · intro language d moves s waiting
    rw [List.append_assoc]
    exact ⟨KeywordWorker.queueing.account_run _ moves, fun tick g => KeywordJob.worksOff tick g _ _⟩
  · intro pair stroke d moves s waiting
    rw [List.append_assoc]
    exact ⟨BracketWorker.queueing.account_run _ moves, fun tick g => BracketJob.worksOff tick g _ _⟩

end Highlight
