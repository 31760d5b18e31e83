import Highlight.Proofs.Document.Frame

/-! # Positions and offsets

A position names a block and a column, an offset counts the characters of the text. Valid
positions are the offsets in another notation, in the same order; only the offset between a carriage
return and its line feed has no position of its own. Everything hangs on the place of a position in
the lines of the text: its line is the one that its offset is found on.
-/

namespace Highlight

/-- On its line, a place stands as far from the front as the content reaches; only inside a pair it
    stands one character behind the content. -/
theorem Text.Place.min_content {pre post start line : List Char} {before rest : List (List Char)}
    (h : Place pre post before start line rest) :
    min start.length (lineContent (start ++ line)).length +
      (if Straddled pre post then 1 else 0) = start.length := by
  by_cases straddled : Straddled pre post
  · have some_start : start ≠ [] := by
      rintro rfl
      have apart := h.apart
      rw [← h.front, List.append_nil] at straddled
      exact apart straddled
    obtain ⟨front, tail, rfl, rfl⟩ :=
      straddled_iff.mp ((h.straddled_iff_start some_start).mp straddled)
    obtain ⟨rfl, rfl⟩ := List.cons.inj ((lines_feed tail).symm.trans h.behind)
    have alone : lines front = [front] := by
      refine lines_start ?_ (lines_pair tail) (by simp [Straddled])
      simpa using h.one
    have content : lineContent (front ++ ['\r'] ++ ['\n']) = front := by
      have plain := plain_lineContent front
      rw [lineContent_open alone] at plain
      rw [List.append_assoc, lineContent_plain plain]
      exact List.append_nil front
    rw [content]
    simp [straddled]
  · have apart : ¬Straddled start post := by
      intro across
      refine straddled ((h.straddled_iff_start ?_).mpr across)
      rintro rfl
      cases across.1
    have plain := plain_lineContent start
    rw [lineContent_open (lines_start h.one h.behind apart)] at plain
    rw [lineContent_plain plain, List.length_append]
    simp [straddled]

namespace Document

namespace Framed

variable {d : Document} {index column : Nat} {before rest : List (List Char)} {brk : List Char}

theorem lines_behind (h : Framed d index before brk rest) :
    Text.lines (brk ++ rest.flatten) = brk :: rest := by
  have whole := (Text.lines_cut (d.lines_eq.symm.trans h.lines) (List.cons_ne_nil _ _)).2.1
  rw [List.flatten_cons, List.append_assoc] at whole
  obtain ⟨line, rest', split⟩ :=
    List.exists_cons_of_ne_nil (Text.lines_ne_nil (brk ++ rest.flatten))
  have same := (Text.lines_plain (Text.plain_lineContent _) split).symm.trans whole
  obtain ⟨line_eq, rfl⟩ := List.cons.inj same
  rw [split, List.append_cancel_left line_eq]

theorem rest_eq_nil (h : Framed d index before brk rest) (none : brk = []) : rest = [] := by
  by_contra more
  exact Text.ne_nil_of_lines_eq h.lines_behind more none

/-- The places of a block are on its line. -/
theorem lineAt_eq (h : Framed d index before brk rest) (fits : column ≤ d.width index) :
    d.lineAt (d.lineStart index + column) = index := by
  rw [width_eq_length] at fits
  rw [lineAt, h.lines, h.lineStart_eq, Text.lineAt_append (Nat.le_add_right _ _), h.index_eq]
  rw [List.length_append]
  by_cases none : brk = []
  · exact .inl (h.rest_eq_nil none)
  · have := List.length_pos_iff.mpr none
    right
    omega

/-- Behind its content a line has a break, or the text ends. -/
theorem content_getElem? (h : Framed d index before brk rest) (fits : column ≤ d.width index) :
    (d.content index)[column]? =
      d.text[d.lineStart index + column]?.filter (!Text.isBreak ·) := by
  rw [width_eq_length] at fits
  rw [h.lineStart_eq, h.text_eq, List.getElem?_append_right (Nat.le_add_right _ _),
    Nat.add_sub_cancel_left]
  rcases Nat.lt_or_eq_of_le fits with inside | rfl
  · have plain := Text.plain_lineContent _ _ (List.getElem_mem inside)
    rw [List.getElem?_append_left inside, List.getElem?_eq_getElem inside]
    exact (Option.filter_some_pos (by simp [plain])).symm
  · rw [List.getElem?_append_right (Nat.le_refl _), Nat.sub_self,
      List.getElem?_eq_none (Nat.le_refl _)]
    cases brk with
    | nil => simp [h.rest_eq_nil rfl]
    | cons c brk =>
        have broken : Text.isBreak c = true := by
          have bare := h.bare
          rw [Text.lineContent, List.takeWhile_cons] at bare
          by_contra other
          simp [other] at bare
        exact (Option.filter_some_neg (by simp [broken])).symm

end Framed

theorem offsetOf?_eq_some {d : Document} {p : Position} {o : Nat} :
    d.offsetOf? p = some o ↔
      ∃ line column, d.resolve? p = some (line, column) ∧ d.lineStart line + column = o := by
  simp [offsetOf?]

namespace WellFormed

variable {d : Document}

/-- Where a valid position stands: on the line of its block, in front of the character that its
    offset counts. -/
theorem exists_framed_of_resolve? (formed : d.WellFormed) {p : Position} {line column : Nat}
    (found : d.resolve? p = some (line, column)) :
    column ≤ d.width line ∧ ∃ before brk rest, Framed d line before brk rest := by
  obtain ⟨-, index, -, fits⟩ := resolve?_eq_some.mp found
  exact ⟨fits, formed.exists_framed (formed.line_lt index)⟩

theorem positionAt?_of_le (formed : d.WellFormed) {o : Nat} (inside : o ≤ d.length) :
    ∃ p, d.positionAt? o = some p ∧ d.offsetOf? p =
      some (if Text.Straddled (d.text.take o) (d.text.drop o) then o - 1 else o) := by
  obtain ⟨before, start, line, rest, place, lines, at_line, offset⟩ := exists_place inside
  have line_lt : d.lineAt o < d.blocks.length := by
    rw [formed.count, lines, at_line]
    simp
  have width : d.width (d.lineAt o) = (Text.lineContent (start ++ line)).length := by
    rw [width_eq_length, at_line, content_of_lines lines]
  have column : o - d.lineStart (d.lineAt o) = start.length := by
    rw [at_line, lineStart_of_lines lines]
    omega
  have content := place.min_content
  have fits : min (o - d.lineStart (d.lineAt o)) (d.width (d.lineAt o)) ≤ d.width (d.lineAt o) :=
    Nat.min_le_right _ _
  refine ⟨_, by rw [positionAt?, if_pos inside], ?_⟩
  rw [offsetOf?, formed.resolve?_place line_lt fits, Option.map_some, column, width, at_line]
  refine congrArg some ?_
  change d.lineStart before.length + min start.length _ = _
  rw [lineStart_of_lines lines]
  split
  case isTrue inside_pair =>
    rw [if_pos inside_pair] at content
    omega
  case isFalse apart =>
    rw [if_neg apart] at content
    omega

theorem positionAt?_offsetOf? (formed : d.WellFormed) {p : Position} {o : Nat}
    (found : d.offsetOf? p = some o) : d.positionAt? o = some p := by
  obtain ⟨line, column, place, rfl⟩ := offsetOf?_eq_some.mp found
  obtain ⟨fits, before, brk, rest, framed⟩ := formed.exists_framed_of_resolve? place
  have inside : d.lineStart line + column ≤ d.length := by
    have := framed.stop_le
    omega
  simp only [positionAt?, if_pos inside, framed.lineAt_eq fits, Nat.add_sub_cancel_left,
    Nat.min_eq_left fits, formed.eq_place place]

theorem charAt?_eq (formed : d.WellFormed) {p : Position} {o : Nat}
    (found : d.offsetOf? p = some o) :
    d.charAt? p = d.text[o]?.filter (!Text.isBreak ·) := by
  obtain ⟨line, column, place, rfl⟩ := offsetOf?_eq_some.mp found
  obtain ⟨fits, before, brk, rest, framed⟩ := formed.exists_framed_of_resolve? place
  rw [charAt?, place]
  exact framed.content_getElem? fits

theorem lineAt_of_resolve? (formed : d.WellFormed) {p : Position} {x : Nat × Nat}
    (found : d.resolve? p = some x) : d.lineAt (d.lineStart x.1 + x.2) = x.1 := by
  obtain ⟨fits, _, _, _, framed⟩ := formed.exists_framed_of_resolve? found
  exact framed.lineAt_eq fits

/-- A smaller offset is on the same line or on one before it. -/
theorem comparePlaces_of_lt (formed : d.WellFormed) {p q : Position} {x y : Nat × Nat}
    (hp : d.resolve? p = some x) (hq : d.resolve? q = some y)
    (less : d.lineStart x.1 + x.2 < d.lineStart y.1 + y.2) : comparePlaces x y = .lt := by
  have mono : d.lineAt _ ≤ d.lineAt _ := Text.lineAt_mono d.lines (Nat.le_of_lt less)
  rw [formed.lineAt_of_resolve? hp, formed.lineAt_of_resolve? hq] at mono
  rw [comparePlaces_eq_lt]
  rcases Nat.lt_or_eq_of_le mono with earlier | same
  · exact .inl earlier
  · rw [same] at less
    exact .inr ⟨same, Nat.lt_of_add_lt_add_left less⟩

theorem comparePlaces_eq_compare (formed : d.WellFormed) {p q : Position} {x y : Nat × Nat}
    (hp : d.resolve? p = some x) (hq : d.resolve? q = some y) :
    comparePlaces x y = compare (d.lineStart x.1 + x.2) (d.lineStart y.1 + y.2) := by
  rcases Nat.lt_trichotomy (d.lineStart x.1 + x.2) (d.lineStart y.1 + y.2) with less | same | more
  · rw [formed.comparePlaces_of_lt hp hq less, Nat.compare_eq_lt.mpr less]
  · have line : x.1 = y.1 := by
      rw [← formed.lineAt_of_resolve? hp, same, formed.lineAt_of_resolve? hq]
    have column : x.2 = y.2 := by
      rw [line] at same
      exact Nat.add_left_cancel same
    rw [comparePlaces_eq_eq.mpr (Prod.ext line column), Nat.compare_eq_eq.mpr same]
  · rw [comparePlaces_eq_gt.mpr (formed.comparePlaces_of_lt hq hp more), Nat.compare_eq_gt.mpr more]

end WellFormed

end Document

open Document

/-- Positions are offsets in another notation. Every offset in the text has a valid position that
    stands for it, or for the offset before it if it lies inside a pair; no other offset has one.
    The offset of a valid position leads back to it, valid positions compare as their offsets do and
    are equal only if they are the same, and the character at a position is the one at its offset,
    unless that is a break. -/
theorem positions_mirror_offsets (origin : Origin) (id : DocumentId) (calls : List Call) :
    let d := (origin.document id).performAll calls
    (∀ o ≤ d.length, ∃ p, d.positionAt? o = some p ∧ d.isValid p = true ∧ d.offsetOf? p =
      some (if Text.Straddled (d.text.take o) (d.text.drop o) then o - 1 else o)) ∧
    (∀ o, d.length < o → d.positionAt? o = none) ∧
    (∀ p, d.isValid p = true → ∃ o, d.offsetOf? p = some o ∧ d.positionAt? o = some p ∧
      d.charAt? p = d.text[o]?.filter (!Text.isBreak ·)) ∧
    ∀ p q i j, d.offsetOf? p = some i → d.offsetOf? q = some j →
      d.compare? p q = some (compare i j) ∧ (d.compare? p q = some .eq ↔ p = q) := by
  intro d
  have formed : d.WellFormed := (performAll_run (origin.wellFormed id) calls).1
  refine ⟨?_, ?_, ?_, ?_⟩
  · intro o inside
    obtain ⟨p, found, offset⟩ := formed.positionAt?_of_le inside
    refine ⟨p, found, ?_, offset⟩
    obtain ⟨line, column, place, -⟩ := offsetOf?_eq_some.mp offset
    rw [isValid, place, Option.isSome_some]
  · intro o outside
    rw [positionAt?, if_neg (Nat.not_le.mpr outside)]
  · intro p valid
    obtain ⟨⟨line, column⟩, place⟩ := Option.isSome_iff_exists.mp valid
    have offset : d.offsetOf? p = some (d.lineStart line + column) :=
      offsetOf?_eq_some.mpr ⟨line, column, place, rfl⟩
    exact ⟨_, offset, formed.positionAt?_offsetOf? offset, formed.charAt?_eq offset⟩
  · intro p q i j offset_p offset_q
    obtain ⟨line, column, hp, rfl⟩ := offsetOf?_eq_some.mp offset_p
    obtain ⟨line', column', hq, rfl⟩ := offsetOf?_eq_some.mp offset_q
    have order : d.compare? p q = some (comparePlaces (line, column) (line', column')) := by
      simp only [compare?, hp, hq]
    refine ⟨by rw [order, formed.comparePlaces_eq_compare hp hq], ?_⟩
    rw [order, Option.some.injEq, comparePlaces_eq_eq]
    constructor
    · intro same
      exact position_unique hp (same ▸ hq)
    · rintro rfl
      exact Option.some.inj (hp.symm.trans hq)

end Highlight
