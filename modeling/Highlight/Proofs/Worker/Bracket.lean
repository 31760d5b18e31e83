import Highlight.Proofs.Bracket.Tracker
import Highlight.Proofs.Worker.Control
import Highlight.Worker.Bracket

/-! # Brackets over whole runs

A document is edited and styled while its bracket worker takes regions, works them off and is told
to forget everything, all in any order. The order of the tracked brackets is never computed anew:
it lasts because surviving blocks keep their order and because every insertion respects it.
-/

namespace Highlight

open Document

/-- Something that happens to a document or to its bracket worker. -/
inductive Happening where
  | call (c : Call)
  | push (i : Interval)
  /-- One of the waiting regions is worked off, in or out of turn. -/
  | update (index : Nat)
  /-- A whole pass. The answers say behind which regions it is asked to end early. -/
  | pass (yields : List Bool)
  | forget

namespace BracketWorker

/-- What becomes of a worker and its document. -/
def after (s : BracketWorker × Document) : Happening → BracketWorker × Document
  | .call c => (s.1, s.2.perform c)
  | .push i => (s.1.push i, s.2)
  | .update index =>
    let waiting := s.1.job.backlog.all
    match waiting[index]? with
    | none => s
    | some i =>
      ({ s.1 with job := { s.1.job with
          backlog := { deferred := waiting.eraseIdx index }
          tracker := s.1.job.tracker.update s.1.job.pair s.2 i } }, s.2)
  | .pass yields =>
    let answer := fun answers : List Bool => (answers.tail, answers.headD false)
    let done := (BracketJob.work answer yields (s.1.job, s.2)).2.1
    ({ s.1 with job := done.1 }, done.2)
  | .forget => (s.1.clearBrackets, s.2)

def afterAll (s : BracketWorker × Document) (happenings : List Happening) :
    BracketWorker × Document :=
  happenings.foldl after s

end BracketWorker

/-- A worker for the given delimiters whose tracker is consistent with its document. -/
structure BracketJob.Sound (pair : BracketPair) (job : BracketJob) (d : Document) : Prop where
  formed : d.WellFormed
  delimiters : job.pair = pair
  consistent : job.tracker.Consistent pair d

namespace BracketJob

theorem Sound.work {γ : Type} {pair : BracketPair} {job : BracketJob} {d : Document}
    (h : Sound pair job d) (tick : γ → γ × Bool) (g : γ) :
    Sound pair (work tick g (job, d)).2.1.1 (work tick g (job, d)).2.1.2 := by
  simp only [BracketJob.work]
  split
  · exact h
  · have passed := Backlog.pass_invariant tick (P := Tracker.Consistent pair d)
      (fun i t consistent => (consistent.update h.formed i).1) job.backlog.all g h.consistent
    rw [← h.delimiters] at passed ⊢
    exact ⟨⟨h.formed.count, h.formed.distinct, h.formed.issued⟩, rfl,
      ⟨passed.issued, passed.told, passed.ordered, passed.known⟩⟩

end BracketJob

namespace BracketWorker

theorem after_step {pair : BracketPair} {s : BracketWorker × Document}
    (h : s.1.job.Sound pair s.2) (happening : Happening) :
    (after s happening).1.job.Sound pair (after s happening).2 := by
  cases happening with
  | call c =>
      obtain ⟨formed, evolved⟩ := perform_step h.formed c
      exact ⟨formed, h.delimiters, h.consistent.evolves evolved⟩
  | push i => exact ⟨h.formed, h.delimiters, h.consistent⟩
  | update index =>
      simp only [after]
      split
      · exact h
      · rename_i i _
        refine ⟨h.formed, h.delimiters, ?_⟩
        simp only [h.delimiters]
        exact (h.consistent.update h.formed i).1
  | pass yields => exact h.work _ yields
  | forget => exact ⟨h.formed, h.delimiters, .empty pair s.2⟩

theorem afterAll_run {pair : BracketPair} {s : BracketWorker × Document}
    (h : s.1.job.Sound pair s.2) (happenings : List Happening) :
    (afterAll s happenings).1.job.Sound pair (afterAll s happenings).2 := by
  induction happenings generalizing s with
  | nil => exact h
  | cons happening happenings ih => exact ih (after_step h happening)

/-- A worker that nothing keeps from working brings its tracker up to date with all that waits, and
    is as ready as before. -/
theorem settle_done {w : BracketWorker} (ready : w.control.Ready) (d : Document) :
    let done := (w.settle d).1
    done.control.Ready ∧ done.job.backlog.all = [] ∧ done.job.pair = w.job.pair ∧
      done.job.tracker =
        w.job.backlog.all.foldl (fun t i => t.update w.job.pair d i) w.job.tracker := by
  have ready' := ready.rest false w.control.idle
  by_cases rest : w.job.backlog.all.isEmpty ∧ ¬w.job.scrolled ∧ ¬w.job.redrawPending
  · have idle : BracketJob.work Control.tick { w.control with parked := false } (w.job, d) =
        ({ w.control with parked := false }, (w.job, d), .idle) := by
      simp only [BracketJob.work, if_pos rest]
    have none := List.isEmpty_iff.mp rest.1
    simp only [settle, Control.settle_idle ready idle, none, List.foldl_nil, and_self, and_true]
    exact ready.rest false true
  · let job := { w.job with
      backlog := {}
      tracker := w.job.backlog.all.foldl (fun t i => t.update w.job.pair d i) w.job.tracker
      scrolled := false
      redrawPending := false }
    have busy : BracketJob.work Control.tick { w.control with parked := false } (w.job, d) =
        ({ w.control with parked := false }, (job, job.redraw d), .busy) := by
      simp only [BracketJob.work, if_neg rest, Backlog.pass_ready ready', ready'.tick]
      rfl
    have idle : BracketJob.work Control.tick { w.control with parked := false }
        (job, job.redraw d) = ({ w.control with parked := false }, (job, job.redraw d), .idle) :=
      rfl
    simp only [settle, Control.settle_busy ready busy, Control.settle_idle ready' idle, job,
      and_true]
    exact ⟨ready.rest false true, rfl⟩

theorem settle_tracker {w : BracketWorker} (ready : w.control.Ready) (d : Document) :
    (w.settle d).1.job.tracker =
      w.job.backlog.all.foldl (fun t i => t.update w.job.pair d i) w.job.tracker :=
  (settle_done ready d).2.2.2

end BracketWorker

theorem BracketJob.work_document {γ : Type} (tick : γ → γ × Bool) (g : γ)
    (s : BracketJob × Document) :
    ∃ connectors, (work tick g s).2.1.2 = { s.2 with connectors } := by
  simp only [work]
  split
  · exact ⟨_, rfl⟩
  · exact ⟨_, rfl⟩

/-- The bracket worker draws connectors and changes nothing else. -/
theorem BracketWorker.settle_document (w : BracketWorker) (d : Document) :
    ∃ connectors, (w.settle d).2 = { d with connectors } := by
  simp only [settle]
  apply Control.settle_invariant (BracketJob.work Control.tick) (s := (w.job, d))
    (P := fun s => ∃ connectors, s.2 = { d with connectors })
  · rintro c ⟨job, d'⟩ ⟨connectors, rfl⟩
    exact BracketJob.work_document Control.tick c (job, { d with connectors })
  · exact ⟨d.connectors, rfl⟩

/-- Whatever happens, the tracked brackets that are not stale are strictly increasing and the known
    blocks are those of the tracked brackets. Right after an update none is stale, each stands on a
    delimiter of its kind, and none is missing in the blocks that the region reaches. -/
theorem tracked_brackets_sound (origin : Origin) (id : DocumentId) (pair : BracketPair)
    (stroke : Stroke) (happenings : List Happening) :
    let s := BracketWorker.afterAll ({ job := { pair, stroke } }, origin.document id) happenings
    let t := s.1.job.tracker
    let live := t.brackets.filter (s.2.isValid ·.position)
    live.Pairwise (fun a b => s.2.compare? a.position b.position = some .lt) ∧
      (live.map (·.position)).Nodup ∧
      (∀ block, block ∈ t.known ↔ ∃ b ∈ t.brackets, b.position.block = block) ∧
      (∀ i, ∀ b ∈ (t.update pair s.2 i).brackets, s.2.isValid b.position = true ∧
        s.2.charAt? b.position = some (pair.delimiter b.kind)) ∧
      ∀ i b, b ∈ (t.update pair s.2 i).brackets ↔
        s.2.Holds pair b ∧ (b ∈ t.brackets ∨ Tracker.Reaches s.2 i b.position.block) := by
  intro s t live
  have sound := BracketWorker.afterAll_run
    (s := ({ job := { pair, stroke } }, origin.document id))
    ⟨origin.wellFormed id, rfl, .empty pair _⟩ happenings
  have ordered := sound.consistent.live_ordered sound.formed
  refine ⟨ordered, ?_, sound.consistent.known, ?_,
    fun i => (sound.consistent.update sound.formed i).2⟩
  · refine List.pairwise_map.mpr (ordered.imp ?_)
    intro a b less same
    rw [same] at less
    exact compare?_self _ less
  · intro i b member
    obtain ⟨holds, -⟩ := ((sound.consistent.update sound.formed i).2 b).mp member
    exact ⟨holds.isValid, by simpa [Tracker.isCurrent] using holds.isCurrent⟩

end Highlight
