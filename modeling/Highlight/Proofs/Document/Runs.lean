import Highlight.Proofs.Bracket.Order
import Highlight.Proofs.Text.Pairs

/-! # Runs

The runs between two positions are what the workers read of a document. They go through the
characters of the blocks from the one of the first position to the one of the second, each once and
in order, and leave out the line breaks; so an index into a run stands for a position of its block.
-/

namespace Highlight

/-- The places in front of the characters of a run. -/
def Run.places (r : Run) : List Position :=
  (List.range r.text.length).map r.positionAt

namespace Document

/-- A block of the document that stands neither in front of the block of `start` nor behind the one
    of `stop`. -/
def Encloses (d : Document) (start stop : Position) (b : BlockId) : Prop :=
  ∃ first line last, d.blockIndex? start.block = some first ∧ d.blockIndex? b = some line ∧
    d.blockIndex? stop.block = some last ∧ first ≤ line ∧ line ≤ last

/-! ## The places of one block -/

theorem run?_eq_some {d : Document} {line : Nat} {r : Run} :
    d.run? line = some r ↔ d.content line ≠ [] ∧ r = ⟨d.place line 0, d.content line⟩ := by
  simp only [run?, List.isEmpty_iff, Option.ite_none_left_eq_some, Option.some.injEq]
  exact and_congr_right fun _ => eq_comm

theorem positionAt_eq_place (d : Document) (line : Nat) (text : List Char) :
    (⟨d.place line 0, text⟩ : Run).positionAt = d.place line := by
  funext column
  simp [Run.positionAt, Position.advance, place]

theorem places_run? (d : Document) (line : Nat) :
    (d.run? line).toList.flatMap Run.places = (List.range (d.width line)).map (d.place line) := by
  rw [width_eq_length, run?]
  cases content : d.content line with
  | nil => rfl
  | cons c rest => simp [Run.places, positionAt_eq_place]

namespace WellFormed

variable {d : Document} {line line' column column' : Nat}

theorem charAt?_place (h : d.WellFormed) (inside : line < d.blocks.length) (column : Nat) :
    d.charAt? (d.place line column) = (d.content line)[column]? := by
  by_cases fits : column ≤ d.width line
  · rw [charAt?, h.resolve?_place inside fits, Option.bind_some]
  · have stale : d.resolve? (d.place line column) = none := by
      have start := h.resolve?_place inside (Nat.zero_le _)
      refine Option.eq_none_iff_forall_ne_some.mpr fun place found => fits ?_
      obtain ⟨-, index, rfl, fits⟩ := resolve?_eq_some.mp found
      rwa [Option.some.inj ((resolve?_eq_some.mp start).2.1.symm.trans index)]
    rw [width_eq_length, Nat.not_le] at fits
    rw [charAt?, stale, Option.bind_none, List.getElem?_eq_none (Nat.le_of_lt fits)]

theorem compare?_place (h : d.WellFormed) (inside : line < d.blocks.length)
    (inside' : line' < d.blocks.length) (fits : column ≤ d.width line)
    (fits' : column' ≤ d.width line') : d.compare? (d.place line column) (d.place line' column') =
      some (comparePlaces (line, column) (line', column')) := by
  rw [compare?, h.resolve?_place inside fits, h.resolve?_place inside' fits']

/-- A character stands behind the places in front of the end of a content. -/
theorem exists_char_iff (h : d.WellFormed) {p : Position} : (∃ c, d.charAt? p = some c) ↔
    ∃ line column, line < d.blocks.length ∧ column < d.width line ∧ p = d.place line column := by
  constructor
  · rintro ⟨c, found⟩
    obtain ⟨⟨line, column⟩, place, found⟩ := Option.bind_eq_some_iff.mp found
    obtain ⟨-, index, -, -⟩ := resolve?_eq_some.mp place
    refine ⟨line, column, h.line_lt index, ?_, h.eq_place place⟩
    rw [width_eq_length]
    exact (List.getElem?_eq_some_iff.mp found).1
  · rintro ⟨line, column, inside, short, rfl⟩
    rw [width_eq_length] at short
    exact ⟨_, (h.charAt?_place inside column).trans (List.getElem?_eq_getElem short)⟩

theorem blockIndex?_place (h : d.WellFormed) (inside : line < d.blocks.length) (column : Nat) :
    d.blockIndex? (d.place line column).block = some line :=
  (resolve?_eq_some.mp (h.resolve?_place inside (Nat.zero_le _))).2.1

end WellFormed

theorem ids_eq_map_place (d : Document) :
    (List.range d.blocks.length).map (fun line => (d.place line 0).block) = d.ids := by
  refine List.ext_getElem (by simp) fun line inside inside' => ?_
  rw [List.getElem_map, List.getElem_range, place_eq inside']

/-! ## The places of several blocks -/

theorem places_runs (d : Document) (lines : List Nat) :
    (lines.filterMap d.run?).flatMap Run.places =
      lines.flatMap fun line => (List.range (d.width line)).map (d.place line) := by
  rw [List.filterMap_eq_flatMap_toList, List.flatMap_assoc]
  simp only [places_run?]

theorem blocks_runs (d : Document) (lines : List Nat) :
    ((lines.filterMap d.run?).map (·.start.block)).Sublist
      (lines.map fun line => (d.place line 0).block) := by
  induction lines with
  | nil => exact .slnil
  | cons line lines ih =>
      rw [List.filterMap_cons, List.map_cons]
      cases found : d.run? line with
      | none => exact ih.cons _
      | some r =>
          obtain ⟨-, rfl⟩ := run?_eq_some.mp found
          exact ih.cons_cons _

/-- Lines in order have their places in order. -/
theorem WellFormed.places_ordered {d : Document} (h : d.WellFormed) {lines : List Nat}
    (increasing : lines.Pairwise (· < ·)) (inside : ∀ line ∈ lines, line < d.blocks.length) :
    ((lines.filterMap d.run?).flatMap Run.places).Pairwise
      fun p q => d.compare? p q = some .lt := by
  have less {line line' column column' : Nat} (member : line ∈ lines) (member' : line' ∈ lines)
      (short : column < d.width line) (short' : column' < d.width line')
      (before : line < line' ∨ line = line' ∧ column < column') :
      d.compare? (d.place line column) (d.place line' column') = some .lt := by
    rw [h.compare?_place (inside line member) (inside line' member') (Nat.le_of_lt short)
      (Nat.le_of_lt short'), comparePlaces_eq_lt.mpr before]
  rw [places_runs, List.pairwise_flatMap]
  constructor
  · intro line member
    rw [List.pairwise_map]
    refine List.pairwise_lt_range.imp_of_mem fun column column' before => ?_
    exact less member member (List.mem_range.mp column) (List.mem_range.mp column')
      (.inr ⟨rfl, before⟩)
  · refine increasing.imp_of_mem fun member member' before => ?_
    intro p hp q hq
    obtain ⟨column, short, rfl⟩ := List.mem_map.mp hp
    obtain ⟨column', short', rfl⟩ := List.mem_map.mp hq
    exact less member member' (List.mem_range.mp short) (List.mem_range.mp short') (.inl before)

theorem WellFormed.mem_places {d : Document} (h : d.WellFormed) {lines : List Nat}
    (inside : ∀ line ∈ lines, line < d.blocks.length) {p : Position} :
    p ∈ (lines.filterMap d.run?).flatMap Run.places ↔
      (∃ line ∈ lines, d.blockIndex? p.block = some line) ∧ ∃ c, d.charAt? p = some c := by
  rw [places_runs, List.mem_flatMap, h.exists_char_iff]
  constructor
  · rintro ⟨line, member, found⟩
    obtain ⟨column, short, rfl⟩ := List.mem_map.mp found
    have inside := inside line member
    exact ⟨⟨line, member, h.blockIndex?_place inside column⟩,
      line, column, inside, List.mem_range.mp short, rfl⟩
  · rintro ⟨⟨line, member, index⟩, line', column, inside', short, rfl⟩
    obtain rfl := Option.some.inj (index.symm.trans (h.blockIndex?_place inside' column))
    exact ⟨line, member, List.mem_map.mpr ⟨column, List.mem_range.mpr short, rfl⟩⟩

/-! ## Between two positions -/

/-- The lines that the runs between two positions are taken from. -/
theorem WellFormed.exists_lines {d : Document} (h : d.WellFormed) {start stop : Position}
    (valid : d.isValid start = true) (valid' : d.isValid stop = true) :
    ∃ lines : List Nat, d.runsBetween start stop = lines.filterMap d.run? ∧
      lines.Sublist (List.range d.blocks.length) ∧
      ∀ b, (∃ line ∈ lines, d.blockIndex? b = some line) ↔ d.Encloses start stop b := by
  obtain ⟨⟨first, column⟩, place⟩ := Option.isSome_iff_exists.mp valid
  obtain ⟨⟨last, column'⟩, place'⟩ := Option.isSome_iff_exists.mp valid'
  obtain ⟨-, index, -, -⟩ := resolve?_eq_some.mp place
  obtain ⟨-, index', -, -⟩ := resolve?_eq_some.mp place'
  refine ⟨(List.range (last + 1)).drop first, by simp only [runsBetween, place, place'], ?_, ?_⟩
  · exact (List.drop_sublist _ _).trans (List.range_sublist.mpr (h.line_lt index'))
  · intro b
    simp only [Encloses, index, index', Option.some.injEq, List.range_eq_range', List.drop_range',
      List.mem_range'_1]
    constructor
    · rintro ⟨line, reached, found⟩
      exact ⟨first, line, last, rfl, found, rfl, by omega, by omega⟩
    · rintro ⟨_, line, _, rfl, found, rfl, behind, before⟩
      exact ⟨line, by omega, found⟩

theorem runsBetween_eq_nil {d : Document} {start stop : Position}
    (stale : d.isValid start = false ∨ d.isValid stop = false) : d.runsBetween start stop = [] := by
  rw [runsBetween]
  split
  · rename_i first _ last _ place place'
    simp [isValid, place, place'] at stale
  · rfl

/-- A run is the content of a line. -/
theorem WellFormed.exists_line {d : Document} (h : d.WellFormed) {start stop : Position} {r : Run}
    (member : r ∈ d.runsBetween start stop) : ∃ line < d.blocks.length,
      d.content line ≠ [] ∧ r = ⟨d.place line 0, d.content line⟩ := by
  have valid : d.isValid start = true ∧ d.isValid stop = true := by
    by_contra stale
    rw [not_and_or, Bool.not_eq_true, Bool.not_eq_true] at stale
    simp [runsBetween_eq_nil stale] at member
  obtain ⟨lines, runs, sublist, -⟩ := h.exists_lines valid.1 valid.2
  rw [runs] at member
  obtain ⟨line, reached, found⟩ := List.mem_filterMap.mp member
  exact ⟨line, List.mem_range.mp (sublist.subset reached), run?_eq_some.mp found⟩

end Document

open Document

/-- The runs between two valid positions are those of the blocks between their blocks that have a
    character, in document order. Run by run, they have a place in front of each character of these
    blocks and no other, every one once and in order; an index into a run reads the same character
    in the document as in the run, no break is in a run, and its end is a place, too. Between
    positions of which one is stale there are no runs. -/
theorem runs_enumerate_content (origin : Origin) (id : DocumentId) (calls : List Call)
    (start stop : Position) :
    let d := (origin.document id).performAll calls
    let runs := d.runsBetween start stop
    let blocks := runs.map (·.start.block)
    let places := runs.flatMap Run.places
    (d.isValid start = false ∨ d.isValid stop = false → runs = []) ∧
    (d.isValid start = true → d.isValid stop = true →
      blocks.Sublist d.ids ∧
      (∀ b, b ∈ blocks ↔ d.Encloses start stop b ∧ ∃ c, d.charAt? ⟨d.id, b, 0⟩ = some c) ∧
      places.Pairwise (fun p q => d.compare? p q = some .lt) ∧
      ∀ p, p ∈ places ↔ d.Encloses start stop p.block ∧ ∃ c, d.charAt? p = some c) ∧
    ∀ r ∈ runs, (∀ i, d.charAt? (r.positionAt i) = r.text[i]?) ∧
      (∀ c ∈ r.text, Text.isBreak c = false) ∧
      d.isValid (r.positionAt r.text.length) = true := by
  intro d runs blocks places
  have formed : d.WellFormed := (performAll_run (origin.wellFormed id) calls).1
  refine ⟨runsBetween_eq_nil, fun valid valid' => ?_, fun r member => ?_⟩
  · obtain ⟨lines, runs_eq, sublist, between⟩ := formed.exists_lines valid valid'
    have inside : ∀ line ∈ lines, line < d.blocks.length :=
      fun line member => List.mem_range.mp (sublist.subset member)
    have mem_places {p : Position} : p ∈ places ↔
        d.Encloses start stop p.block ∧ ∃ c, d.charAt? p = some c := by
      simp only [places, runs, runs_eq, formed.mem_places inside, between]
    refine ⟨?_, fun b => ?_, ?_, fun p => mem_places⟩
    · rw [← ids_eq_map_place]
      simp only [blocks, runs, runs_eq]
      exact (blocks_runs d lines).trans (sublist.map _)
    · -- A block has a run if and only if its first place is one of the run.
      rw [← mem_places (p := ⟨d.id, b, 0⟩), List.mem_map, List.mem_flatMap]
      constructor
      · rintro ⟨r, member, rfl⟩
        obtain ⟨line, -, filled, rfl⟩ := formed.exists_line member
        refine ⟨_, member, List.mem_map.mpr ⟨0, ?_, by rw [positionAt_eq_place]; rfl⟩⟩
        exact List.mem_range.mpr (List.length_pos_iff.mpr filled)
      · rintro ⟨r, member, found⟩
        obtain ⟨i, -, place⟩ := List.mem_map.mp found
        exact ⟨r, member, congrArg Position.block place⟩
    · simp only [places, runs, runs_eq]
      exact formed.places_ordered (List.pairwise_lt_range.sublist sublist) inside
  · obtain ⟨line, inside, -, rfl⟩ := formed.exists_line member
    simp only [positionAt_eq_place]
    refine ⟨formed.charAt?_place inside, Text.plain_lineContent _, ?_⟩
    rw [isValid, formed.resolve?_place inside (width_eq_length d line).ge, Option.isSome_some]

/-- Behind an empty line, which has no run, the character of the last one is reached. -/
theorem runs_reach_behind_empty_line :
    let d := Document.ofText 0 ['a', '\n', '\n', 'b']
    d.isValid ⟨0, 1, 0⟩ = true ∧ d.isValid ⟨0, 3, 1⟩ = true ∧
      ⟨0, 3, 0⟩ ∈ (d.runsBetween ⟨0, 1, 0⟩ ⟨0, 3, 1⟩).flatMap Run.places := by
  intro d
  have valid : d.isValid ⟨0, 1, 0⟩ = true := rfl
  have valid' : d.isValid ⟨0, 3, 1⟩ = true := rfl
  obtain ⟨-, between, -⟩ := runs_enumerate_content (.ofText ['a', '\n', '\n', 'b'] {}) 0 []
    ⟨0, 1, 0⟩ ⟨0, 3, 1⟩
  obtain ⟨-, -, -, places⟩ := between valid valid'
  have enclosed : d.Encloses ⟨0, 1, 0⟩ ⟨0, 3, 1⟩ 3 := ⟨0, 2, 2, rfl, rfl, rfl, by omega, by omega⟩
  exact ⟨valid, valid', (places ⟨0, 3, 0⟩).mpr ⟨enclosed, 'b', rfl⟩⟩

end Highlight
