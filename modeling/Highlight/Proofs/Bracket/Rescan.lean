import Highlight.Proofs.Worker.Bracket

/-! # What one update does

An update rewrites the tracked list line by line. A line that its region still reaches gets the
delimiters that stand on it now, and every other line keeps what was tracked on it and still stands
there. Emptied lines need no care of their own: nothing tracked on them reads a delimiter any more.
-/

namespace Highlight

open Document

namespace Tracker

/-- The tracked brackets that are still what they were. -/
def standing (pair : BracketPair) (d : Document) (t : Tracker) : List Bracket :=
  t.brackets.filter fun b =>
    d.isValid b.position ∧ d.charAt? b.position = some (pair.delimiter b.kind)

/-- What a line has after an update with a region. -/
def rescanned (pair : BracketPair) (d : Document) (i : Interval) (t : Tracker) (line : Nat) :
    List Bracket :=
  if line ∈ reach d i then d.bracketsOn pair line
  else (t.standing pair d).filter fun b => d.blockIndex? b.position.block = some line

section

variable {pair : BracketPair} {d : Document} {t : Tracker}

theorem Consistent.mem_standing (h : Consistent pair d t) {b : Bracket} :
    b ∈ t.standing pair d ↔ b ∈ t.brackets ∧ d.Holds pair b := by
  rw [standing, List.mem_filter, decide_eq_true_eq]
  constructor
  · rintro ⟨member, -, reads⟩
    exact ⟨member, h.holds member (decide_eq_true reads)⟩
  · rintro ⟨member, holds⟩
    exact ⟨member, holds.isValid, of_decide_eq_true holds.isCurrent⟩

theorem reaches_iff {i : Interval} {block : BlockId} {line : Nat}
    (index : d.blockIndex? block = some line) : Reaches d i block ↔ line ∈ reach d i := by
  constructor
  · rintro ⟨line', reached, index'⟩
    rwa [Option.some.inj (index.symm.trans index')]
  · intro reached
    exact ⟨line, reached, index⟩

theorem Consistent.mem_rescanned (h : Consistent pair d t) (formed : d.WellFormed) {i : Interval}
    {line : Nat} (inside : line < d.blocks.length) {b : Bracket} :
    b ∈ t.rescanned pair d i line ↔ d.blockIndex? b.position.block = some line ∧
      d.Holds pair b ∧ (b ∈ t.brackets ∨ Reaches d i b.position.block) := by
  rw [rescanned]
  split
  · rename_i reached
    rw [formed.mem_bracketsOn inside]
    constructor
    · rintro ⟨holds, index⟩
      exact ⟨index, holds, .inr ((reaches_iff index).mpr reached)⟩
    · rintro ⟨index, holds, -⟩
      exact ⟨holds, index⟩
  · rename_i missed
    rw [List.mem_filter, h.mem_standing, decide_eq_true_eq]
    constructor
    · rintro ⟨⟨member, holds⟩, index⟩
      exact ⟨index, holds, .inl member⟩
    · rintro ⟨index, holds, member | reached⟩
      · exact ⟨⟨member, holds⟩, index⟩
      · exact absurd ((reaches_iff index).mp reached) missed

theorem Consistent.rescanned_ordered (h : Consistent pair d t) (formed : d.WellFormed)
    (i : Interval) {line : Nat} (inside : line < d.blocks.length) :
    (t.rescanned pair d i line).Pairwise fun a b => d.Ahead a.position b.position := by
  rw [rescanned]
  split
  · exact formed.bracketsOn_ordered inside
  · exact (h.ordered.filter _).filter _

theorem Consistent.update_eq_rescanned (h : Consistent pair d t) (formed : d.WellFormed)
    (i : Interval) : (t.update pair d i).brackets =
      (List.range d.blocks.length).flatMap (t.rescanned pair d i) := by
  obtain ⟨updated, members⟩ := h.update formed i
  have held : ∀ b ∈ (t.update pair d i).brackets, d.Holds pair b :=
    fun b member => ((members b).mp member).1
  apply formed.eq_of_ordered held updated.ordered
  · refine formed.ordered_by_line pair List.pairwise_lt_range ?_ ?_
    · intro line inside b member
      obtain ⟨index, holds, -⟩ := (h.mem_rescanned formed (List.mem_range.mp inside)).mp member
      exact ⟨holds, index⟩
    · intro line inside
      exact h.rescanned_ordered formed i (List.mem_range.mp inside)
  · intro b
    rw [members, List.mem_flatMap]
    constructor
    · rintro ⟨holds, kept⟩
      obtain ⟨line, inside, index⟩ := holds.on_line formed
      exact ⟨line, List.mem_range.mpr inside,
        (h.mem_rescanned formed inside).mpr ⟨index, holds, kept⟩⟩
    · rintro ⟨line, inside, member⟩
      exact ((h.mem_rescanned formed (List.mem_range.mp inside)).mp member).2

/-- Behind an update that misses none of the untracked brackets, the list is the whole scan. -/
theorem Consistent.update_complete (h : Consistent pair d t) (formed : d.WellFormed) (i : Interval)
    (tracked : ∀ b, d.Holds pair b → ¬Reaches d i b.position.block → b ∈ t.brackets) :
    (t.update pair d i).brackets = d.brackets pair := by
  obtain ⟨updated, members⟩ := h.update formed i
  obtain ⟨-, -, whole⟩ := formed.part_of_scan updated.ordered members
  refine whole.mpr fun b member => ?_
  by_cases reached : Reaches d i b.position.block
  · exact .inr reached
  · exact .inl (tracked b (formed.mem_brackets.mp member) reached)

/-- The brackets of a block that the region does not reach are those that stood there before. -/
theorem Consistent.update_elsewhere (h : Consistent pair d t) (formed : d.WellFormed) (i : Interval)
    {block : BlockId} (missed : ¬Reaches d i block) :
    (t.update pair d i).brackets.filter (·.position.block = block) =
      (t.standing pair d).filter (·.position.block = block) := by
  obtain ⟨updated, members⟩ := h.update formed i
  have held : ∀ b ∈ (t.update pair d i).brackets.filter (·.position.block = block),
      d.Holds pair b :=
    fun b member => ((members b).mp (List.mem_of_mem_filter member)).1
  refine formed.eq_of_ordered held (updated.ordered.filter _) ((h.ordered.filter _).filter _) ?_
  intro b
  simp only [List.mem_filter, members, h.mem_standing, decide_eq_true_eq]
  constructor
  · rintro ⟨⟨holds, member | reached⟩, here⟩
    · exact ⟨⟨member, holds⟩, here⟩
    · exact absurd (here ▸ reached) missed
  · rintro ⟨⟨member, holds⟩, here⟩
    exact ⟨⟨holds, .inl member⟩, here⟩

end

end Tracker

/-- Whatever has happened before, an update with any region leaves, in document order, every
    delimiter on the lines that the region still reaches and every other tracked bracket that still
    stands. So it completes a list that lacks nothing elsewhere, and leaves other blocks alone. -/
theorem update_rescans_reach (origin : Origin) (id : DocumentId) (pair : BracketPair)
    (stroke : Stroke) (happenings : List Happening) (i : Interval) :
    let s := BracketWorker.afterAll ({ job := { pair, stroke } }, origin.document id) happenings
    let d := s.2
    let t := s.1.job.tracker
    let list := (t.update pair d i).brackets
    list = (List.range d.blocks.length).flatMap (t.rescanned pair d i) ∧
      list.Pairwise (fun a b => d.compare? a.position b.position = some .lt) ∧
      ((∀ line < d.blocks.length, line ∉ Tracker.reach d i →
        ∀ b ∈ d.bracketsOn pair line, b ∈ t.brackets) → list = d.brackets pair) ∧
      ∀ block line, d.blockIndex? block = some line → line ∉ Tracker.reach d i →
        list.filter (·.position.block = block) =
          (t.standing pair d).filter (·.position.block = block) := by
  intro s d t list
  have sound := BracketWorker.afterAll_run
    (s := ({ job := { pair, stroke } }, origin.document id))
    ⟨origin.wellFormed id, rfl, .empty pair _⟩ happenings
  have formed : d.WellFormed := sound.formed
  have consistent : t.Consistent pair d := sound.consistent
  obtain ⟨updated, members⟩ := consistent.update formed i
  refine ⟨consistent.update_eq_rescanned formed i, ?_, ?_, ?_⟩
  · have live : list.filter (d.isValid ·.position) = list := by
      apply List.filter_eq_self.mpr
      intro b member
      exact ((members b).mp member).1.isValid
    rw [← live]
    exact updated.live_ordered formed
  · intro tracked
    apply consistent.update_complete formed i
    intro b holds missed
    obtain ⟨line, inside, index⟩ := holds.on_line formed
    rw [Tracker.reaches_iff index] at missed
    exact tracked line inside missed b ((formed.mem_bracketsOn inside).mpr ⟨holds, index⟩)
  · intro block line index missed
    rw [← Tracker.reaches_iff index] at missed
    exact consistent.update_elsewhere formed i missed

end Highlight
