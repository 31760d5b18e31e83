import Highlight.Proofs.Document.Replacement
import Highlight.Proofs.Language.Painting
import Highlight.Proofs.Worker.Control

/-! # A pass of the keyword worker

A pass over whole lines gives each of them what it would get if it were styled alone from nothing,
and leaves all other lines as they are. This needs that no span sticks out of its line: only then
does clearing a line leave nothing behind.
-/

namespace Highlight

/-- What a line of the given content gets; nothing for plain text. -/
def spansFor : Option Language → List Char → List Span
  | none, _ => []
  | some l, content => l.lineSpans content

theorem spansFor_within (language : Option Language) (content : List Char) :
    ∀ s ∈ spansFor language content, s.Within content.length := by
  cases language with
  | none => simp [spansFor]
  | some l => exact l.lineSpans_within content

namespace Document

/-- No span sticks out of its line. -/
def Tidy (d : Document) : Prop :=
  ∀ (line : Nat) (b : Block), d.blocks[line]? = some b →
    ∀ s ∈ b.spans, s.Within (d.width line)

/-- The lines from `first` to `last` with the spans that `f` gives to their contents. -/
def restyled (d : Document) (first last : Nat) (f : List Char → List Span) : Document :=
  { d with blocks := d.blocks.mapIdx fun line b =>
      if first ≤ line ∧ line ≤ last then { b with spans := f (d.content line) } else b }

theorem ids_restyled (d : Document) (first last : Nat) (f : List Char → List Span) :
    (d.restyled first last f).ids = d.ids := by
  apply List.ext_getElem?
  intro line
  simp only [ids, restyled, List.getElem?_map, List.getElem?_mapIdx]
  cases d.blocks[line]? with
  | none => rfl
  | some b =>
      simp only [Option.map_some, Option.some.injEq]
      split <;> rfl

theorem WellFormed.restyled {d : Document} (h : d.WellFormed) (first last : Nat)
    (f : List Char → List Span) : (d.restyled first last f).WellFormed :=
  h.withBlocks (ids_restyled d first last f)

theorem place_restyled (d : Document) (first last : Nat) (f : List Char → List Span)
    (line column : Nat) : (d.restyled first last f).place line column = d.place line column := by
  simp only [place, blockId?_eq, ids_restyled]
  rfl

theorem stretch_restyled (d : Document) (first last : Nat) (f : List Char → List Span)
    (from_line to_line : Nat) :
    (d.restyled first last f).stretch from_line to_line = d.stretch from_line to_line := by
  simp only [stretch, place_restyled]
  rfl

/-! ## Clearing -/

theorem clearStyles_stretch {d : Document} (h : d.WellFormed) (tidy : d.Tidy) {first last : Nat}
    (ordered : first ≤ last) (inside : last < d.blocks.length) :
    d.clearStyles (d.stretch first last).start (d.stretch first last).stop =
      .ok (d.restyled first last fun _ => []) := by
  have start := h.resolve?_place (Nat.lt_of_le_of_lt ordered inside) (Nat.zero_le (d.width first))
  have stop := h.resolve?_place inside (Nat.le_refl (d.width last))
  have in_order : comparePlaces (first, 0) (last, d.width last) ≠ .gt := by
    rcases Nat.eq_or_lt_of_le ordered with rfl | before
    · simp [comparePlaces, Nat.compare_eq_gt]
    · have := Nat.compare_eq_lt.mpr before
      simp [comparePlaces, this]
  simp only [clearStyles, mapSpans, stretch, start, stop, if_neg in_order, restyled]
  congr 2
  apply List.ext_getElem?
  intro line
  rw [List.getElem?_mapIdx, List.getElem?_mapIdx]
  cases found : d.blocks[line]? with
  | none => rfl
  | some b =>
      have cleared := Span.clear_eq_nil (tidy line b found)
      have columns : d.columnsBetween (first, 0) (last, d.width last) line =
          (0, d.width line) := by
        simp only [columnsBetween, ite_self]
        split
        · rename_i here
          rw [here]
        · rfl
      simp only [Option.map_some, columns, cleared]
      by_cases touched : first ≤ line ∧ line ≤ last
      · simp only [touched, and_self, if_true]
        split
        · rfl
        · rename_i empty
          have bare : b.spans = [] := by
            apply List.eq_nil_iff_forall_not_mem.mpr
            intro s hs
            have := tidy line b found s hs
            simp only [Span.Within] at this
            omega
          rw [← bare]
      · simp only [if_neg touched]

/-! ## Tokens of several lines -/

/-- The tokens of some lines, each with its line. -/
def tokensOn (d : Document) (l : Language) (lines : List Nat) : List Located :=
  lines.flatMap fun line => (tokenize (isSeparator (some l)) (d.content line)).map (line, ·)

theorem runsBetween_stretch {d : Document} (h : d.WellFormed) {first last : Nat}
    (ordered : first ≤ last) (inside : last < d.blocks.length) :
    d.runsBetween (d.stretch first last).start (d.stretch first last).stop =
      (List.range' first (last + 1 - first)).filterMap d.run? := by
  have start := h.resolve?_place (Nat.lt_of_le_of_lt ordered inside) (Nat.zero_le (d.width first))
  have stop := h.resolve?_place inside (Nat.le_refl (d.width last))
  have lines : (List.range (last + 1)).drop first = List.range' first (last + 1 - first) := by
    rw [List.range_eq_range', List.drop_range', Nat.mul_one, Nat.zero_add]
  simp only [runsBetween, stretch, start, stop, lines]

theorem matches_run? (d : Document) (l : Language) (line : Nat) :
    ((d.run? line).toList.flatMap fun r => r.matches (some l)) =
      ((tokenize (isSeparator (some l)) (d.content line)).map (line, ·)).map d.matchOf := by
  rw [run?]
  cases content : d.content line with
  | nil => rfl
  | cons c rest =>
      simp [Run.matches, Run.positionAt, Position.advance, matchOf, place, Function.comp_def]

theorem flatMap_matches (d : Document) (l : Language) (lines : List Nat) :
    ((lines.filterMap d.run?).flatMap fun r => r.matches (some l)) =
      (d.tokensOn l lines).map d.matchOf := by
  rw [List.filterMap_eq_flatMap_toList, List.flatMap_assoc, tokensOn, List.map_flatMap]
  simp only [matches_run?]

theorem onLine_tokensOn (d : Document) (l : Language) {lines : List Nat} (distinct : lines.Nodup)
    (line : Nat) : onLine line (d.tokensOn l lines) =
      if line ∈ lines then tokenize (isSeparator (some l)) (d.content line) else [] := by
  rw [tokensOn, onLine_flatMap]
  simp only [onLine_map_pair]
  induction lines with
  | nil => rfl
  | cons other lines ih =>
      obtain ⟨absent, distinct⟩ := List.nodup_cons.mp distinct
      rw [List.flatMap_cons, ih distinct]
      by_cases here : other = line
      · subst here
        simp [absent]
      · simp [here, Ne.symm here]

theorem fits_tokensOn {d : Document} {l : Language} {lines : List Nat}
    (inside : ∀ line ∈ lines, line < d.blocks.length) : ∀ t ∈ d.tokensOn l lines, d.Fits t := by
  intro t ht
  obtain ⟨line, member, ht⟩ := List.mem_flatMap.mp ht
  obtain ⟨token, scanned, rfl⟩ := List.mem_map.mp ht
  obtain ⟨ordered, fits⟩ := tokenize_bounds scanned
  exact ⟨inside line member, ordered, by rw [width_eq_length]; exact fits⟩

/-- Painting cleared lines with their tokens. -/
theorem paintAll_restyled (d : Document) (l : Language) (first last : Nat) :
    let cleared := d.restyled first last fun _ => []
    cleared.paintAll (l.paints (cleared.tokensOn l (List.range' first (last + 1 - first)))) =
      d.restyled first last l.lineSpans := by
  intro cleared
  have meant : ∀ line,
      onLine line (l.paints (cleared.tokensOn l (List.range' first (last + 1 - first)))) =
        if first ≤ line ∧ line ≤ last then
          l.spansOf (tokenize (isSeparator (some l)) (d.content line)) else [] := by
    intro line
    have member : line ∈ List.range' first (last + 1 - first) ↔ first ≤ line ∧ line ≤ last := by
      rw [List.mem_range'_1]
      omega
    rw [Language.onLine_paints, onLine_tokensOn _ l List.nodup_range']
    simp only [member]
    split
    · rfl
    · simp [Language.spansOf]
  simp only [paintAll, meant]
  simp only [cleared, restyled, List.mapIdx_mapIdx]
  congr 1
  apply List.ext_getElem?
  intro line
  rw [List.getElem?_mapIdx, List.getElem?_mapIdx]
  cases d.blocks[line]? with
  | none => rfl
  | some b =>
      simp only [Option.map_some, Function.comp_apply]
      by_cases touched : first ≤ line ∧ line ≤ last
      · simp only [touched, and_self, if_true]
        rfl
      · simp only [touched, if_false]
        rfl

end Document

namespace KeywordJob

/-- One region scanned and styled, without anything else waiting. -/
def restyle (i : Interval) (language : Option Language) (d : Document) :
    Option Language × Document :=
  match scan i (language, d) with
  | (none, d) => (none, d)
  | (some l, d) => (some (l.applyStyling d).1, (l.applyStyling d).2.1)

open Document

theorem restyle_stretch {d : Document} (h : d.WellFormed) (tidy : d.Tidy) {first last : Nat}
    (ordered : first ≤ last) (inside : last < d.blocks.length) {language : Option Language}
    (idle : ∀ l ∈ language, l.Idle) :
    restyle (d.stretch first last) language d =
      (language, d.restyled first last (spansFor language)) := by
  have cleared := clearStyles_stretch h tidy ordered inside
  cases language with
  | none =>
      simp only [restyle, scan, cleared, Option.map_none]
      rfl
  | some l =>
      have formed := h.restyled first last fun _ => []
      have inside' : last < (d.restyled first last fun _ => []).blocks.length := by
        rw [← length_ids, ids_restyled, length_ids]
        exact inside
      have runs := runsBetween_stretch formed ordered inside'
      rw [stretch_restyled] at runs
      have fits : ∀ t ∈ (d.restyled first last fun _ => []).tokensOn l
          (List.range' first (last + 1 - first)), (d.restyled first last fun _ => []).Fits t := by
        apply fits_tokensOn
        intro line member
        have := List.mem_range'_1.mp member
        omega
      obtain ⟨same, painted⟩ := Language.applyStyling_offerAll formed (idle l rfl) fits
      simp only [restyle, scan, cleared, runs, Option.map_some, flatMap_matches, same, painted,
        paintAll_restyled d l first last]
      rfl

end KeywordJob

/-! ## Coming to rest -/

namespace KeywordJob

/-- Write the styles that wait, if there is a language. -/
def style : Option Language × Document → Option Language × Document
  | (none, d) => (none, d)
  | (some l, d) => (some (l.applyStyling d).1, (l.applyStyling d).2.1)

/-- Scan some regions one after the other and style behind the last. -/
def serve (waiting : List Interval) (s : Option Language × Document) :
    Option Language × Document :=
  if waiting = [] then s else style (waiting.foldl (fun s i => scan i s) s)

theorem serve_single (i : Interval) (language : Option Language) (d : Document) :
    serve [i] (language, d) = restyle i language d := by
  rw [serve, if_neg (List.cons_ne_nil i []), List.foldl_cons, List.foldl_nil, restyle]
  rcases scan i (language, d) with ⟨_ | l, scanned⟩ <;> rfl

end KeywordJob

namespace KeywordWorker

theorem settle_empty {w : KeywordWorker} (ready : w.control.Ready) (empty : w.job.backlog = {})
    (d : Document) :
    w.settle d = ({ w with control := { w.control with parked := false, idle := true } }, d) := by
  have none : w.job.backlog.all.isEmpty = true := by rw [empty]; rfl
  have idle : KeywordJob.work Control.tick { w.control with parked := false } (w.job, d) =
      ({ w.control with parked := false }, (w.job, d), .idle) := by
    simp only [KeywordJob.work, none, if_true]
  simp only [settle, Control.settle_idle ready idle]

/-- A worker that nothing keeps from working serves all that waits in one pass. -/
theorem settle_served {w : KeywordWorker} (ready : w.control.Ready) (d : Document) :
    let done := KeywordJob.serve w.job.backlog.all (w.job.language, d)
    w.settle d = (⟨{ w.control with parked := false, idle := true }, { language := done.1 }⟩,
      done.2) := by
  intro done
  by_cases none : w.job.backlog.all = []
  · have empty : w.job.backlog = {} := Backlog.eq_empty none
    have untouched : done = (w.job.language, d) := if_pos none
    rw [settle_empty ready empty, untouched, ← empty]
  · have ready' := ready.rest false w.control.idle
    have busy : KeywordJob.work Control.tick { w.control with parked := false } (w.job, d) =
        ({ w.control with parked := false }, ({ language := done.1 }, done.2), .busy) := by
      simp only [KeywordJob.work, List.isEmpty_iff, none, if_false, Backlog.pass_ready ready', done,
        KeywordJob.serve]
      rcases w.job.backlog.all.foldl (fun s i => KeywordJob.scan i s) (w.job.language, d) with
        ⟨_ | l, scanned⟩
      · rfl
      · simp only [ready'.tick, KeywordJob.style]
    have idle : KeywordJob.work Control.tick { w.control with parked := false }
        ({ language := done.1 }, done.2) =
        ({ w.control with parked := false }, ({ language := done.1 }, done.2), .idle) := rfl
    simp only [settle, Control.settle_busy ready busy, Control.settle_idle ready' idle]

theorem settle_single {w : KeywordWorker} {i : Interval} (ready : w.control.Ready)
    (single : w.job.backlog = { queue := [i] }) (d : Document) :
    let done := KeywordJob.restyle i w.job.language d
    w.settle d = (⟨{ w.control with parked := false, idle := true }, { language := done.1 }⟩,
      done.2) := by
  intro done
  have one : w.job.backlog.all = [i] := by rw [single]; rfl
  have served : KeywordJob.serve w.job.backlog.all (w.job.language, d) = done := by
    rw [one, KeywordJob.serve_single]
  rw [settle_served ready, served]

end KeywordWorker

end Highlight
