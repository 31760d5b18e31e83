import Highlight.Proofs.Bracket.Order
import Highlight.Proofs.Worker.Keyword

/-! # Styling leaves the text alone

Whatever regions and matches wait for the keyword worker, stale ones among them, and whatever the
language: the worker changes the spans of blocks and nothing else of the document, and no span ever
sticks out of its line.
-/

namespace Highlight

namespace Document

/-- Two documents that differ at most in their spans. -/
structure Restyles (d d' : Document) : Prop where
  blocks : ∃ blocks, d' = { d with blocks } ∧ blocks.map (·.id) = d.ids
  tidy : d.Tidy → d'.Tidy

theorem Restyles.refl (d : Document) : Restyles d d :=
  ⟨⟨d.blocks, rfl, rfl⟩, fun h => h⟩

theorem Restyles.trans {d d' d'' : Document} (first : Restyles d d') (second : Restyles d' d'') :
    Restyles d d'' := by
  obtain ⟨⟨blocks, rfl, same⟩, tidy⟩ := first
  obtain ⟨⟨blocks', rfl, same'⟩, tidy'⟩ := second
  exact ⟨⟨blocks', rfl, same'.trans same⟩, fun h => tidy' (tidy h)⟩

theorem Restyles.formed {d d' : Document} (h : Restyles d d') (formed : d.WellFormed) :
    d'.WellFormed := by
  obtain ⟨blocks, rfl, same⟩ := h.blocks
  exact formed.withBlocks same

theorem Restyles.text {d d' : Document} (h : Restyles d d') : d'.text = d.text := by
  obtain ⟨blocks, rfl, -⟩ := h.blocks
  rfl

/-- Changes of spans that stay within the columns they are made for. -/
theorem mapSpans_restyles {d d' : Document} {start stop : Position}
    {f : Nat → Nat → List Span → List Span}
    (keeps : ∀ {left right width : Nat} {spans : List Span}, left < right → right ≤ width →
      (∀ s ∈ spans, s.Within width) → ∀ s ∈ f left right spans, s.Within width)
    (ok : d.mapSpans start stop f = .ok d') : Restyles d d' := by
  refine ⟨mapSpans_ok ok, fun tidy line b found => ?_⟩
  simp only [mapSpans] at ok
  split at ok
  · rename_i first last _ resolved
    split at ok
    · cases ok
    · cases ok
      have columns : (d.columnsBetween first last line).2 ≤ d.width line := by
        simp only [columnsBetween]
        split
        · rename_i here
          exact here ▸ (resolve?_eq_some.mp resolved).2.2.2
        · exact Nat.le_refl _
      change ∀ s ∈ b.spans, s.Within (d.width line)
      simp only [List.getElem?_mapIdx, Option.map_eq_some_iff] at found
      obtain ⟨old, was_there, rfl⟩ := found
      have before := tidy line old was_there
      split
      · split
        · rename_i ordered
          exact keeps ordered columns before
        · exact before
      · exact before
  · cases ok

theorem clearStyles_restyles {d d' : Document} {start stop : Position}
    (ok : d.clearStyles start stop = .ok d') : Restyles d d' :=
  mapSpans_restyles (fun _ _ within => Span.carve_within within) ok

theorem applyStyle_restyles {d d' : Document} {start stop : Position} {style : Style}
    (ok : d.applyStyle start stop style = .ok d') : Restyles d d' := by
  refine mapSpans_restyles ?_ ok
  intro left right width spans ordered fits within s hs
  rcases List.mem_append.mp hs with carved | new
  · exact Span.carve_within within s carved
  · rw [List.mem_singleton] at new
    exact new ▸ ⟨ordered, fits⟩

end Document

open Document

/-! ## Matches, groups and passes -/

theorem Group.styleMatch_restyles (m : Match) (written : Document × Nat) (style : Style) :
    Restyles written.1 (styleMatch m written style).1 := by
  rw [styleMatch]
  split
  · exact applyStyle_restyles (by assumption)
  · exact .refl _

theorem Group.applyStyling_restyles (g : Group) (d : Document) :
    Restyles d (g.applyStyling d).2.1 := by
  have one (styles : List Style) (m : Match) (written : Document × Nat) :
      Restyles written.1 (styles.foldl (styleMatch m) written).1 := by
    induction styles generalizing written with
    | nil => exact .refl _
    | cons style styles ih => exact (styleMatch_restyles m written style).trans (ih _)
  have all (pending : List Match) (written : Document × Nat) : Restyles written.1
      (pending.foldl (fun acc m => g.styles.foldl (styleMatch m) acc) written).1 := by
    induction pending generalizing written with
    | nil => exact .refl _
    | cons m pending ih => exact (one g.styles m written).trans (ih _)
  exact all g.pending (d, 0)

theorem Language.applyStyling_restyles (l : Language) (d : Document) :
    Restyles d (l.applyStyling d).2.1 := by
  have all (groups : List Group) (d : Document) : Restyles d (styleGroups groups d).2.1 := by
    induction groups generalizing d with
    | nil => exact .refl d
    | cons g groups ih => exact (g.applyStyling_restyles d).trans (ih _)
  exact all l.groups d

namespace KeywordJob

theorem scan_restyles (i : Interval) (s : Option Language × Document) :
    Restyles s.2 (scan i s).2 := by
  simp only [scan]
  split
  · exact clearStyles_restyles (by assumption)
  · exact .refl _

theorem work_restyles {γ : Type} (tick : γ → γ × Bool) (g : γ) (s : KeywordJob × Document) :
    Restyles s.2 (work tick g s).2.1.2 := by
  have scanned := Backlog.pass_invariant tick (P := fun s' => Restyles s.2 s'.2)
    (fun i s' h => h.trans (scan_restyles i s')) s.1.backlog.all g
    (s := (s.1.language, s.2)) (.refl _)
  simp only [work]
  split
  · exact .refl _
  · split
    · rename_i passed
      rwa [passed] at scanned
    · rename_i passed
      rw [passed] at scanned
      exact scanned.trans (Language.applyStyling_restyles _ _)

end KeywordJob

/-! ## Coming to rest -/

/-- A worker that does not break off comes to rest as ready as it was. -/
theorem Control.settle_ready {σ : Type} {work : Control → σ → Control × σ × Status}
    (step : ∀ c s, c.Ready → (work c s).1.Ready ∧ (work c s).2.2 ≠ .failed) (fuel : Nat)
    {c : Control} (h : c.Ready) (s : σ) : (settle work fuel c s).1.Ready := by
  induction fuel generalizing c s with
  | zero => exact h
  | succ fuel ih =>
      have unit := step _ s (h.rest false c.idle)
      rw [settle, if_neg (by simp [h.running]), if_neg (by simp [h.live]),
        if_neg (by simp [h.awake])]
      split
      · rename_i done
        rw [done] at unit
        exact ih unit.1 _
      · rename_i done
        rw [done] at unit
        split
        · exact ih unit.1 _
        · exact unit.1.rest _ _
      · rename_i done
        rw [done] at unit
        exact absurd rfl unit.2

theorem KeywordJob.work_ready {c : Control} (h : c.Ready) (s : KeywordJob × Document) :
    (work Control.tick c s).1.Ready ∧ (work Control.tick c s).2.2 ≠ .failed := by
  simp only [work, Backlog.pass_ready h]
  split
  · exact ⟨h, by simp⟩
  · rcases s.1.backlog.all.foldl (fun s i => scan i s) (s.1.language, s.2) with ⟨_ | l, d⟩
    · exact ⟨h, by simp⟩
    · simp only [h.tick]
      exact ⟨h, by simp⟩

namespace KeywordWorker

theorem settle_restyles (w : KeywordWorker) (d : Document) : Restyles d (w.settle d).2 := by
  simp only [settle]
  exact Control.settle_invariant (KeywordJob.work Control.tick) (s := (w.job, d))
    (P := fun s => Restyles d s.2)
    (fun c s h => h.trans (KeywordJob.work_restyles Control.tick c s)) _ _ (.refl d)

theorem settle_ready {w : KeywordWorker} (h : w.control.Ready) (d : Document) :
    (w.settle d).1.control.Ready := by
  simp only [settle]
  exact Control.settle_ready (fun c s ready => KeywordJob.work_ready ready s) _ h _

end KeywordWorker

end Highlight
