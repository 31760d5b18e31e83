import Highlight.Proofs.Worker.Keyword

/-! # Styling from scratch

A line carries what it should if its spans are those that the active language gives to its content.
Documents of one text whose lines all carry what they should show the same styles, and a document
that was styled from scratch is one of them.
-/

namespace Highlight

/-- A keyword worker that has just been started for a language. -/
def KeywordWorker.launch (language : Option Language) : KeywordWorker :=
  { control := { started := true, running := true }, job := { language } }

/-- The document of a text, styled from scratch by one pass over all of it. -/
def Document.styledFromScratch (language : Option Language) (id : DocumentId) (text : List Char)
    (geometry : Geometry) : Document :=
  let d := Document.ofText id text geometry
  (((KeywordWorker.launch language).push d.whole).settle d).2

/-! ## Lines that carry what they should -/

namespace Document

/-- The line of an index carries what a language gives to its content. -/
def StyledAt (d : Document) (language : Option Language) (line : Nat) : Prop :=
  ∀ row, d.rows[line]? = some row → row.1.spans = spansFor language (Text.lineContent row.2)

def Styled (d : Document) (language : Option Language) : Prop :=
  ∀ line, d.StyledAt language line

theorem WellFormed.styledAt_outside {d : Document} (h : d.WellFormed)
    {language : Option Language} {line : Nat} (outside : ¬line ≤ d.blocks.length - 1) :
    d.StyledAt language line := by
  intro row found
  have inside := (List.getElem?_eq_some_iff.mp found).1
  rw [h.length_rows] at inside
  omega

/-- Lines that carry what they should, or nothing, are tidy. -/
theorem tidy_of_rows {d : Document} (h : d.WellFormed) {language : Option Language}
    (rows : ∀ (line : Nat) (row : Row), d.rows[line]? = some row →
      row.1.spans = spansFor language (Text.lineContent row.2) ∨ row.1.spans = []) : d.Tidy := by
  intro line b found s hs
  obtain ⟨text, row⟩ := h.row_of_block found
  rw [width_eq_length, content_of_row row]
  rcases rows line (b, text) row with styled | bare
  · exact spansFor_within language _ s (styled ▸ hs)
  · exact absurd (bare ▸ hs) (List.not_mem_nil)

theorem Styled.tidy {d : Document} (h : d.WellFormed) {language : Option Language}
    (styled : d.Styled language) : d.Tidy :=
  tidy_of_rows h fun line row found => .inl (styled line row found)

/-- After a pass over some lines, all lines carry what they should if the others did before. -/
theorem styled_restyled {d : Document} {language : Option Language} {first last : Nat}
    (others : ∀ line, ¬(first ≤ line ∧ line ≤ last) → d.StyledAt language line) :
    (d.restyled first last (spansFor language)).Styled language := by
  intro line row found
  obtain ⟨block, text⟩ := rows_getElem? found
  simp only [restyled, List.getElem?_mapIdx] at block
  cases before : d.blocks[line]? with
  | none => simp [before] at block
  | some b =>
      have row_before : d.rows[line]? = some (b, row.2) :=
        List.getElem?_zip_eq_some.mpr ⟨before, text⟩
      rw [before, Option.map_some, Option.some.injEq] at block
      split at block
      · rw [← block, content_of_row row_before]
      · rename_i outside
        rw [← block]
        exact others line outside _ row_before

theorem Styled.spans_eq {d : Document} (h : d.WellFormed) {language : Option Language}
    (styled : d.Styled language) : d.blocks.map (·.spans) =
      d.lines.map fun line => spansFor language (Text.lineContent line) := by
  apply List.ext_getElem
  · rw [List.length_map, List.length_map, h.count]
  · intro line inside inside'
    rw [List.length_map] at inside inside'
    have row : d.rows[line]? = some (d.blocks[line], d.lines[line]) :=
      List.getElem?_zip_eq_some.mpr
        ⟨List.getElem?_eq_getElem inside, List.getElem?_eq_getElem inside'⟩
    rw [List.getElem_map, List.getElem_map]
    exact styled line _ row

theorem rangesFrom_congr {start : Nat} {blocks blocks' : List Block} {lines : List (List Char)}
    (spans : blocks'.map (·.spans) = blocks.map (·.spans)) :
    rangesFrom start blocks' lines = rangesFrom start blocks lines := by
  induction blocks generalizing start blocks' lines with
  | nil =>
      rw [List.map_nil, List.map_eq_nil_iff] at spans
      rw [spans]
  | cons b blocks ih =>
      cases blocks' with
      | nil => simp at spans
      | cons b' blocks' =>
          rw [List.map_cons, List.map_cons, List.cons.injEq] at spans
          cases lines with
          | nil => rfl
          | cons line lines => rw [rangesFrom, rangesFrom, spans.1, ih spans.2]

/-- Two documents of one text whose lines all carry what they should have the same ranges. -/
theorem styledRanges_congr {d d' : Document} (h : d.WellFormed) (h' : d'.WellFormed)
    {language : Option Language} (styled : d.Styled language) (styled' : d'.Styled language)
    (text : d'.text = d.text) : d'.styledRanges = d.styledRanges := by
  have lines : d'.lines = d.lines := by rw [d.lines_eq, d'.lines_eq, text]
  have spans : d'.blocks.map (·.spans) = d.blocks.map (·.spans) := by
    rw [styled.spans_eq h, styled'.spans_eq h', lines]
  rw [styledRanges, styledRanges, lines, rangesFrom_congr spans]

end Document

/-! ## From scratch -/

namespace Document

theorem Tidy.of_bare {d : Document} (bare : ∀ b ∈ d.blocks, b.spans = []) : d.Tidy := by
  intro line b found s hs
  rw [bare b (List.mem_of_getElem? found)] at hs
  exact absurd hs List.not_mem_nil

theorem tidy_setText (d : Document) (text : List Char) : (d.setText text).1.Tidy :=
  .of_bare fun _ member => Block.spans_fresh member

/-- The lines of a document styled from scratch carry what they should. -/
theorem styledFromScratch_styled {language : Option Language} (idle : ∀ l ∈ language, l.Idle)
    (id : DocumentId) (text : List Char) (geometry : Geometry) :
    let d := styledFromScratch language id text geometry
    d.WellFormed ∧ d.Styled language ∧ d.text = text := by
  let source := Document.ofText id text geometry
  have formed : source.WellFormed := .setText _ text
  have inside : source.blocks.length - 1 < source.blocks.length :=
    Nat.sub_lt formed.blocks_pos Nat.one_pos
  have settled := KeywordWorker.settle_single
    (w := (KeywordWorker.launch language).push source.whole) ⟨rfl, rfl, rfl, rfl⟩ rfl source
  have styled := KeywordJob.restyle_stretch formed (tidy_setText _ text) (Nat.zero_le _) inside idle
  rw [← whole_eq_stretch] at styled
  have result : styledFromScratch language id text geometry =
      source.restyled 0 (source.blocks.length - 1) (spansFor language) := by
    change (((KeywordWorker.launch language).push source.whole).settle source).2 = _
    rw [settled]
    exact congrArg Prod.snd styled
  intro d
  have d_eq : d = source.restyled 0 (source.blocks.length - 1) (spansFor language) := result
  rw [d_eq]
  exact ⟨formed.restyled _ _ _, styled_restyled fun line outside => formed.styledAt_outside
    fun inside => outside ⟨Nat.zero_le _, inside⟩, rfl⟩

end Document

end Highlight
