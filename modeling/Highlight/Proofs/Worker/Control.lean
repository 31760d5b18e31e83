import Highlight.Worker.Queue

/-! # Workers that come to rest

A worker that nothing keeps from working does its units one after the other until it finds nothing
to do, and each pass takes all that waits.
-/

namespace Highlight

/-- The worker is alive and nothing keeps it from working. -/
structure Control.Ready (c : Control) : Prop where
  running : c.running = true
  live : c.cancelled = false
  awake : c.suspendRequested = false
  quiet : c.alarm = none

namespace Control

theorem Ready.shouldYield {c : Control} (h : c.Ready) : c.shouldYield = false := by
  rw [Control.shouldYield, h.live, h.awake]
  rfl

theorem Ready.tick {c : Control} (h : c.Ready) : c.tick = (c, false) := by
  have access : c.access = c := by rw [Control.access, h.quiet]
  rw [Control.tick, access, h.shouldYield]

theorem Ready.rest {c : Control} (h : c.Ready) (parked idle : Bool) :
    { c with parked, idle }.Ready :=
  ⟨h.running, h.live, h.awake, h.quiet⟩

theorem settle_busy {σ : Type} {work : Control → σ → Control × σ × Status} {c : Control}
    {s s' : σ} (h : c.Ready) (busy : work { c with parked := false } s =
      ({ c with parked := false }, s', .busy)) (fuel : Nat) :
    settle work (fuel + 1) c s = settle work fuel { c with parked := false } s' := by
  rw [settle, if_neg (by simp [h.running]), if_neg (by simp [h.live]), if_neg (by simp [h.awake]),
    busy]

theorem settle_idle {σ : Type} {work : Control → σ → Control × σ × Status} {c : Control} {s : σ}
    (h : c.Ready) (idle : work { c with parked := false } s =
      ({ c with parked := false }, s, .idle)) (fuel : Nat) :
    settle work (fuel + 1) c s = ({ c with parked := false, idle := true }, s) := by
  have ready := (h.rest false c.idle).shouldYield
  rw [settle, if_neg (by simp [h.running]), if_neg (by simp [h.live]), if_neg (by simp [h.awake]),
    idle]
  simp only [ready, Bool.false_eq_true, if_false]

/-- What every unit of work keeps holds when the worker has come to rest. -/
theorem settle_invariant {σ : Type} (work : Control → σ → Control × σ × Status) {P : σ → Prop}
    (step : ∀ c s, P s → P (work c s).2.1) (fuel : Nat) (c : Control) {s : σ} (h : P s) :
    P (settle work fuel c s).2 := by
  induction fuel generalizing c s with
  | zero => exact h
  | succ fuel ih =>
      rw [settle]
      split
      · exact h
      · split
        · exact h
        · split
          · exact h
          · have kept := step { c with parked := false } s h
            split
            · rename_i done
              rw [done] at kept
              exact ih _ kept
            · rename_i done
              rw [done] at kept
              split
              · exact ih _ kept
              · exact kept
            · rename_i done
              rw [done] at kept
              exact kept

end Control

namespace Backlog

theorem eq_empty {b : Backlog} (none : b.all = []) : b = {} := by
  obtain ⟨deferred, queue⟩ := b
  obtain ⟨rfl, rfl⟩ := List.append_eq_nil_iff.mp none
  rfl

theorem pass_invariant {γ σ : Type} (tick : γ → γ × Bool) {scan : Interval → σ → σ}
    {P : σ → Prop} (step : ∀ i s, P s → P (scan i s)) (waiting : List Interval) (g : γ) {s : σ}
    (h : P s) : P (pass tick scan waiting g s).2.2 := by
  induction waiting generalizing g s with
  | nil => exact h
  | cons i rest ih =>
      rw [pass]
      split
      · exact step i s h
      · exact ih _ (step i s h)

/-- A pass that is never asked to end early does all that waits. -/
theorem pass_ready {σ : Type} {scan : Interval → σ → σ} {c : Control} (h : c.Ready)
    (waiting : List Interval) (s : σ) :
    pass Control.tick scan waiting c s = (c, [], waiting.foldl (fun s i => scan i s) s) := by
  induction waiting generalizing s with
  | nil => rfl
  | cons i rest ih =>
      rw [pass, h.tick, List.foldl_cons]
      exact ih _

end Backlog

end Highlight
