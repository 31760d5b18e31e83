import Highlight.Proofs.Document.Splice

/-! # What insertions and deletions leave alone

An insertion touches the block of its line and no other, wherever line breaks come to stand. A
deletion, and the replacement of one block, leave the blocks outside of the edited lines alone as
long as they put no pair of carriage return and line feed together; if they do, the block behind
the edited lines is lost.
-/

namespace Highlight

open Document

namespace Document

theorem resolve?_of_offsetOf? {d : Document} {p : Position} {line offset : Nat}
    (index : d.blockIndex? p.block = some line) (found : d.offsetOf? p = some offset) :
    ∃ column, d.resolve? p = some (line, column) ∧ d.lineStart line + column = offset := by
  obtain ⟨⟨line', column⟩, place, offset_eq⟩ := Option.map_eq_some_iff.mp found
  obtain ⟨-, index', -⟩ := resolve?_eq_some.mp place
  obtain rfl : line = line' := Option.some.inj (index.symm.trans index')
  exact ⟨column, place, offset_eq⟩

theorem insert_of_le {d : Document} {offset : Nat} (inside : offset ≤ d.length)
    (text : List Char) : ∃ d' c, d.insert offset text = .ok (d', c) := by
  simp [insert, inside]

theorem delete_of_le {d : Document} {start stop : Nat} (ordered : start ≤ stop)
    (inside : stop ≤ d.length) : ∃ d' c, d.delete start stop = .ok (d', c) := by
  simp [delete, Nat.not_lt.mpr ordered, Nat.not_lt.mpr inside]

theorem length_insert {d d' : Document} {offset : Nat} {text : List Char} {c : Change}
    (ok : d.insert offset text = .ok (d', c)) : d'.length = d.length + text.length := by
  obtain ⟨inside, rfl, -⟩ := insert_ok ok
  change offset ≤ d.text.length at inside
  simp only [length, withText, List.length_append, List.length_take, List.length_drop]
  omega

theorem length_delete {d d' : Document} {start stop : Nat} {c : Change}
    (ok : d.delete start stop = .ok (d', c)) : d'.length + (stop - start) = d.length := by
  obtain ⟨ordered, inside, rfl, -⟩ := delete_ok ok
  change stop ≤ d.text.length at inside
  simp only [length, withText, List.length_append, List.length_take, List.length_drop]
  omega

/-- An identity that is not handed out yet has never been in the document. -/
theorem not_mem_ids_performAll {d : Document} (formed : d.WellFormed) {b : BlockId}
    {early late : List Call} (unused : (d.performAll (early ++ late)).nextBlock ≤ b) :
    b ∉ (d.performAll early).ids := by
  obtain ⟨formed', -⟩ := performAll_run formed early
  obtain ⟨-, evolved⟩ := performAll_run formed' late
  intro member
  rw [performAll_append] at unused
  exact Nat.not_le.mpr (Nat.lt_of_lt_of_le (formed'.issued b member) evolved.next) unused

end Document

/-- Wherever a text is put in, every other block stays, with its text and its styles: those in front
    of the line of the insertion at their indices, those behind it as many further back as there are
    new blocks. The block on the line keeps its identity and loses its styles; all new blocks have
    none and identities that the document has never had. Positions in front of the insertion keep
    their offsets, and those in later blocks move by the length of the text. -/
theorem insert_leaves_other_blocks (origin : Origin) (id : DocumentId) (calls : List Call)
    (offset : Nat) (text : List Char) :
    let d := (origin.document id).performAll calls
    let anchor := d.lineAt offset
    offset ≤ d.length → ∃ d' c grown, d.insert offset text = .ok (d', c) ∧
      d'.blocks.length = d.blocks.length + grown ∧
      (∀ line < anchor, d'.blocks[line]? = d.blocks[line]? ∧
        d'.blockText line = d.blockText line) ∧
      (∃ block, d.blocks[anchor]? = some block ∧
        d'.blocks[anchor]? = some { block with spans := [] }) ∧
      (∀ k < grown, ∃ block, d'.blocks[anchor + 1 + k]? = some block ∧ block.spans = [] ∧
        ∀ early late, calls = early ++ late →
          block.id ∉ ((origin.document id).performAll early).ids) ∧
      (∀ line, anchor < line → line < d.blocks.length →
        d'.blocks[line + grown]? = d.blocks[line]? ∧
          d'.blockText (line + grown) = d.blockText line) ∧
      ∀ p line i, d.blockIndex? p.block = some line → d.offsetOf? p = some i →
        (line < anchor ∨ line = anchor ∧ i < offset → d'.offsetOf? p = some i) ∧
        (anchor < line → d'.offsetOf? p = some (i + text.length) ∧ d'.charAt? p = d.charAt? p) := by
  intro d anchor inside
  have formed : d.WellFormed := (performAll_run (origin.wellFormed id) calls).1
  obtain ⟨d', c, ok⟩ := insert_of_le inside text
  obtain ⟨grown, spliced, in_front⟩ : ∃ grown, Spliced d d' anchor grown (anchor + 1) 0 ∧
      ∀ column, d.lineStart anchor + column < offset → column ≤ d.width anchor →
        column ≤ d'.width anchor ∧ d'.lineStart anchor = d.lineStart anchor :=
    insert_spliced formed ok
  have formed' : d'.WellFormed := (Edit.apply_step formed (e := .insert offset text) ok).1
  have anchored : anchor < d.blocks.length := spliced.inside
  -- The index behind the anchor, as the splice counts it.
  have behind {line : Nat} (later : anchor < line) : ∃ k, line = anchor + 1 + k ∧
      line + grown = anchor + 1 + grown + k := ⟨line - (anchor + 1), by omega, by omega⟩
  refine ⟨d', c, grown, ok, ?_, ?_, ?_, ?_, ?_, ?_⟩
  · have := spliced.length_blocks
    omega
  · intro line before
    exact ⟨spliced.block_front before,
      (spliced.moved_front before).blockText_eq (Nat.lt_trans before anchored)⟩
  · refine ⟨d.blocks[anchor], List.getElem?_eq_getElem anchored, ?_⟩
    rw [spliced.block_anchor, List.getElem?_eq_getElem anchored, Option.map_some]
  · intro k new
    refine ⟨_, spliced.block_fresh new, rfl, fun early late split => ?_⟩
    have unused : ((origin.document id).performAll (early ++ late)).nextBlock ≤
        d.nextBlock + k := by
      rw [← split]
      exact Nat.le_add_right _ _
    exact not_mem_ids_performAll (origin.wellFormed id) unused
  · intro line later inside
    obtain ⟨k, rfl, index⟩ := behind later
    rw [index]
    have moved := spliced.moved_back (Nat.zero_le k)
    exact ⟨moved.block, moved.blockText_eq inside⟩
  · intro p line i index found
    obtain ⟨column, place, at_line⟩ := resolve?_of_offsetOf? index found
    refine ⟨?_, fun later => ?_⟩
    · rintro (before | ⟨rfl, before⟩)
      · rw [spliced.offsetOf?_front formed formed' place before, found]
      · obtain ⟨own, -, column_eq, fits⟩ := resolve?_eq_some.mp place
        obtain ⟨fits', start⟩ := in_front column (by omega) fits
        have index' : d'.blockIndex? p.block = some anchor := by
          rw [formed'.blockIndex?_eq_some_iff, blockId?, spliced.block_anchor, Option.map_map]
          exact formed.blockIndex?_eq_some_iff.mp index
        have place' : d'.resolve? p = some (anchor, column) :=
          resolve?_eq_some.mpr ⟨own.trans spliced.id_eq.symm, index', column_eq, fits'⟩
        rw [offsetOf?, place', Option.map_some, ← at_line, ← start]
    · obtain ⟨k, rfl, -⟩ := behind later
      obtain ⟨i', j, found', moved, shift⟩ :=
        spliced.offsetOf?_back formed formed' (Nat.zero_le k) place
      obtain rfl : i = i' := Option.some.inj (found.symm.trans found')
      have length := length_insert ok
      refine ⟨moved.trans (congrArg some (by omega)), ?_⟩
      exact (spliced.moved_back (Nat.zero_le k)).charAt? formed formed' place

/-- A letter put into a pair: the block behind it keeps its identity. -/
theorem insert_into_pair_leaves_next_block :
    let d := Document.ofText 0 ['a', '\r', '\n', 'b', 'c']
    2 ≤ d.length ∧ ∃ d' c, d.insert 2 ['x'] = .ok (d', c) ∧
      d.offsetOf? ⟨0, 2, 1⟩ = some 4 ∧ d'.offsetOf? ⟨0, 2, 1⟩ = some 5 := by
  intro d
  have inside : 2 ≤ d.length := by decide
  obtain ⟨d', c, _, ok, -, -, -, -, -, positions⟩ :=
    insert_leaves_other_blocks (.ofText ['a', '\r', '\n', 'b', 'c'] {}) 0 [] 2 ['x'] inside
  exact ⟨inside, d', c, ok, rfl, ((positions ⟨0, 2, 1⟩ 1 4 rfl rfl).2 (by decide)).1⟩

/-! ## Deletions -/

namespace Document

/-- A line that has moved up in the text by `shift` characters, with its block and its text. -/
structure MovedUp (d d' : Document) (shift line line' : Nat) : Prop where
  block : d'.blockId? line' = d.blockId? line
  text : d'.blockText line' = d.blockText line
  positions : ∀ p i, d.blockIndex? p.block = some line → d.offsetOf? p = some i →
    d'.charAt? p = d.charAt? p ∧ ∃ j, d'.offsetOf? p = some j ∧ j + shift = i

/-- What a deletion leaves alone: every block in front of its first line and every one behind its
    last line, but for one. Where the deletion puts a pair together, the block next to its last line
    is lost. -/
structure DeletesOnly (d d' : Document) (start stop : Nat) : Prop where
  front : ∀ line < d.lineAt start, d'.blockId? line = d.blockId? line ∧
    d'.blockText line = d.blockText line
  back : ∀ line, d.lineAt stop < line → line < d.blocks.length →
    ¬(d.MakesPair start stop ∧ line = d.lineAt stop + 1) →
      ∃ line', MovedUp d d' (stop - start) line line'
  lost : d.MakesPair start stop → ∃ b, d.blockId? (d.lineAt stop + 1) = some b ∧ b ∉ d'.ids

namespace Spliced

variable {d d' : Document} {first fresh kept changed shift : Nat}

theorem movedUp (h : Spliced d d' first fresh kept changed) (formed : d.WellFormed)
    (formed' : d'.WellFormed) (length : d'.length + shift = d.length) {k : Nat}
    (same : changed ≤ k) (inside : kept + k < d.blocks.length) :
    MovedUp d d' shift (kept + k) (first + 1 + fresh + k) := by
  have moved := h.moved_back same
  refine ⟨moved.blockId?_eq, moved.blockText_eq inside, fun p i index found => ?_⟩
  obtain ⟨column, place, -⟩ := resolve?_of_offsetOf? index found
  obtain ⟨i', j, found', later, apart⟩ := h.offsetOf?_back formed formed' same place
  obtain rfl : i = i' := Option.some.inj (found.symm.trans found')
  exact ⟨moved.charAt? formed formed' place, j, later, by omega⟩

theorem gone (h : Spliced d d' first 0 kept changed) (formed : d.WellFormed) {line : Nat}
    {b : BlockId} (behind : first < line) (short : line < kept)
    (was_there : d.blockId? line = some b) : b ∉ d'.ids := by
  intro member
  obtain ⟨i, found⟩ := List.mem_iff_getElem?.mp member
  rw [← blockId?_eq] at found
  have index := formed.blockIndex?_eq_some_iff.mpr was_there
  have unique {j : Nat} (there : d.blockId? j = some b) : j = line :=
    Option.some.inj ((formed.blockIndex?_eq_some_iff.mpr there).symm.trans index)
  rcases Nat.lt_trichotomy i first with before | rfl | later
  · rw [blockId?, h.block_front before] at found
    have := unique found
    omega
  · rw [blockId?, h.block_anchor, Option.map_map] at found
    have := unique found
    omega
  · obtain ⟨k, rfl⟩ : ∃ k, i = first + 1 + 0 + k := ⟨i - (first + 1), by omega⟩
    rw [blockId?, h.block_back k] at found
    have := unique found
    omega

end Spliced

theorem WellFormed.delete_deletesOnly {d d' : Document} {start stop : Nat} {c : Change}
    (formed : d.WellFormed) (ok : d.delete start stop = .ok (d', c)) :
    DeletesOnly d d' start stop := by
  have formed' : d'.WellFormed := (Edit.apply_step formed (e := .delete start stop) ok).1
  have length := length_delete ok
  obtain ⟨normal, made, parted⟩ := delete_spliced formed ok
  have front {fresh kept changed : Nat}
      (spliced : Spliced d d' (d.lineAt start) fresh kept changed) (line : Nat)
      (before : line < d.lineAt start) :
      d'.blockId? line = d.blockId? line ∧ d'.blockText line = d.blockText line := by
    have moved := spliced.moved_front before
    have := spliced.behind
    have := spliced.inside
    exact ⟨moved.blockId?_eq, moved.blockText_eq (by omega)⟩
  have back {kept changed : Nat} (spliced : Spliced d d' (d.lineAt start) 0 kept changed)
      {line : Nat} (later : kept + changed ≤ line) (inside : line < d.blocks.length) :
      ∃ line', MovedUp d d' (stop - start) line line' := by
    obtain ⟨k, rfl⟩ : ∃ k, line = kept + k := ⟨line - kept, by omega⟩
    exact ⟨_, spliced.movedUp formed formed' length (by omega) inside⟩
  by_cases makes : d.MakesPair start stop
  · have spliced := made makes
    refine ⟨front spliced, fun line later inside other => ?_, fun _ => ?_⟩
    · have : line ≠ d.lineAt stop + 1 := fun same => other ⟨makes, same⟩
      exact back spliced (by omega) inside
    · have inside : d.lineAt stop + 1 < d.ids.length := by
        rw [length_ids]
        exact spliced.inside
      have ordered : d.lineAt start ≤ d.lineAt stop := Text.lineAt_mono _ (delete_ok ok).1
      have found := (d.blockId?_eq (d.lineAt stop + 1)).trans (List.getElem?_eq_getElem inside)
      exact ⟨_, found, spliced.gone formed (by omega) (by omega) found⟩
  · by_cases parts : d.PartsPair start stop
    · have spliced := (parted parts).1
      exact ⟨front spliced, fun line later inside _ => back spliced later inside,
        fun made => absurd made makes⟩
    · have spliced := normal parts makes
      exact ⟨front spliced, fun line later inside _ => back spliced later inside,
        fun made => absurd made makes⟩

/-! ## The replacement of a block -/

/-- A block in its text: the lines around it, and its break. -/
structure Framed (d : Document) (index : Nat) (before : List (List Char)) (brk : List Char)
    (rest : List (List Char)) : Prop where
  lines : d.lines = before ++ (d.content index ++ brk) :: rest
  index_eq : before.length = index
  bare : Text.lineContent brk = []

theorem WellFormed.exists_framed {d : Document} (formed : d.WellFormed) {index : Nat}
    (inside : index < d.blocks.length) : ∃ before brk rest, Framed d index before brk rest := by
  rw [formed.count] at inside
  obtain ⟨brk, line, bare⟩ := Text.exists_break d.lines[index]
  have content : d.content index = Text.lineContent d.lines[index] := by
    rw [Document.content, List.getD_eq_getElem?_getD, List.getElem?_eq_getElem inside,
      Option.getD_some]
  refine ⟨d.lines.take index, brk, d.lines.drop (index + 1), ?_, ?_, bare⟩
  · rw [content, ← line, List.getElem_cons_drop, List.take_append_drop]
  · exact List.length_take_of_le (Nat.le_of_lt inside)

namespace Framed

variable {d d' : Document} {index : Nat} {before rest : List (List Char)} {brk new : List Char}

theorem lineStart_eq (h : Framed d index before brk rest) :
    d.lineStart index = before.flatten.length := by
  rw [← h.index_eq]
  exact lineStart_of_lines h.lines

theorem text_eq (h : Framed d index before brk rest) :
    d.text = before.flatten ++ (d.content index ++ (brk ++ rest.flatten)) := by
  rw [← Text.flatten_lines d.text, ← d.lines_eq, h.lines]
  simp

theorem take_text (h : Framed d index before brk rest) :
    d.text.take (d.lineStart index) = before.flatten := by
  rw [h.lineStart_eq, h.text_eq]
  exact List.take_left

theorem drop_text (h : Framed d index before brk rest) :
    d.text.drop (d.lineStart index + d.width index) = brk ++ rest.flatten := by
  rw [h.lineStart_eq, width_eq_length, ← List.drop_drop, h.text_eq, List.drop_left, List.drop_left]

theorem stop_le (h : Framed d index before brk rest) :
    d.lineStart index + d.width index ≤ d.length := by
  rw [h.lineStart_eq, width_eq_length, length, h.text_eq]
  simp only [List.length_append]
  omega

theorem apart (h : Framed d index before brk rest) :
    ¬Text.Straddled (d.text.take (d.lineStart index)) (d.text.drop (d.lineStart index)) := by
  have cut := (Text.lines_cut (d.lines_eq.symm.trans h.lines) (List.cons_ne_nil _ _)).2.2
  rw [h.take_text, h.lineStart_eq, h.text_eq, List.drop_left]
  rwa [List.flatten_cons, List.append_assoc] at cut

theorem makesPair_iff (h : Framed d index before brk rest) :
    d.MakesPair (d.lineStart index) (d.lineStart index + d.width index) ↔
      Text.Straddled before.flatten (brk ++ rest.flatten) := by
  rw [MakesPair, h.drop_text]
  exact (and_iff_right h.apart).trans (by rw [h.take_text])

theorem not_partsPair (h : Framed d index before brk rest) (stop : Nat) :
    ¬d.PartsPair (d.lineStart index) stop :=
  fun parted => h.apart parted.1

/-- Another content of the block, that makes no pair, changes its line and no other. -/
theorem refilled (h : Framed d index before brk rest)
    (text : d'.text = before.flatten ++ (new ++ (brk ++ rest.flatten)))
    (plain : ∀ c ∈ new, Text.isBreak c = false)
    (apart : ¬Text.Straddled before.flatten (new ++ (brk ++ rest.flatten))) :
    d'.lines = d.lines.set index (new ++ brk) := by
  have lines := d.lines_eq.symm.trans h.lines
  rw [d'.lines_eq, text, h.lines, ← h.index_eq,
    Text.lines_refilled lines (Text.plain_lineContent _) plain apart]
  simp

end Framed

theorem WellFormed.ids_withText_same {d : Document} (formed : d.WellFormed) {text : List Char}
    (count : (Text.lines text).length = d.lines.length) (anchor : Nat) :
    (d.withText text anchor).ids = d.ids := by
  have same := count.trans formed.count.symm
  rw [ids_withText, alignBlocks, if_neg (by omega), if_neg (by omega)]
  rfl

/-- What the replacement of a block leaves alone: the texts of all other blocks and, unless a
    carriage return in front of the block and a line feed behind its content come together when the
    content is taken out, every identity. -/
structure ReplacesOnly (d d' : Document) (index : Nat) (text : List Char) : Prop where
  ids : d'.ids = d.ids ↔
    ¬d.MakesPair (d.lineStart index) (d.lineStart index + d.width index)
  texts : text ≠ [] ∨ ¬d.MakesPair (d.lineStart index) (d.lineStart index + d.width index) →
    d'.blockText index = .ok text ∧ ∀ other ≠ index, d'.blockText other = d.blockText other

theorem WellFormed.replaceBlock_of_lt {d : Document} (formed : d.WellFormed) {index : Nat}
    (inside : index < d.blocks.length) (text : List Char) :
    ∃ d' c, d.replaceBlock index text = .ok (d', c) := by
  obtain ⟨_, _, _, framed⟩ := formed.exists_framed inside
  obtain ⟨cleared, removed, deleted⟩ := delete_of_le (Nat.le_add_right _ _) framed.stop_le
  have start_le : d.lineStart index ≤ cleared.length := by
    have := length_delete deleted
    have := framed.stop_le
    omega
  obtain ⟨filled, added, inserted⟩ := insert_of_le start_le text
  refine ⟨filled, ⟨d.lineStart index, added.added, removed.removed⟩, ?_⟩
  simp only [replaceBlock, if_neg (Nat.not_le.mpr inside), deleted, inserted, bind, Except.bind,
    pure, Except.pure]

theorem WellFormed.replaceBlock_replacesOnly {d d' : Document} {index : Nat} {text : List Char}
    {c : Change} (formed : d.WellFormed) (plain : ∀ c ∈ text, Text.isBreak c = false)
    (ok : d.replaceBlock index text = .ok (d', c)) : ReplacesOnly d d' index text := by
  obtain ⟨inside, cleared, _, _, deleted, inserted, -⟩ := replaceBlock_ok ok
  obtain ⟨before, brk, rest, framed⟩ := formed.exists_framed inside
  have formed_cleared : cleared.WellFormed := (Edit.apply_step formed (e := .delete _ _) deleted).1
  have cleared_text : cleared.text = before.flatten ++ (brk ++ rest.flatten) := by
    obtain ⟨-, -, rfl, -⟩ := delete_ok deleted
    change d.text.take _ ++ d.text.drop _ = _
    rw [framed.take_text, framed.drop_text]
  have filled_text : d'.text = before.flatten ++ (text ++ (brk ++ rest.flatten)) := by
    obtain ⟨-, rfl, -⟩ := insert_ok inserted
    change cleared.text.take _ ++ text ++ cleared.text.drop _ = _
    rw [framed.lineStart_eq, cleared_text, List.take_left, List.drop_left, List.append_assoc]
  have lines (whole : text ≠ [] ∨ ¬Text.Straddled before.flatten (brk ++ rest.flatten)) :
      d'.lines = d.lines.set index (text ++ brk) := by
    apply framed.refilled filled_text plain
    intro straddled
    cases text with
    | nil => exact whole.elim (fun some_text => some_text rfl) fun apart => apart straddled
    | cons c text =>
        -- The text would have to start with the line feed.
        obtain rfl : c = '\n' := by simpa [Text.Straddled] using straddled.2
        exact absurd (plain _ List.mem_cons_self) (by decide)
  refine ⟨⟨fun same made => ?_, fun apart => ?_⟩, fun whole => ?_⟩
  · obtain ⟨b, found, lost⟩ := (formed.delete_deletesOnly deleted).lost made
    rw [blockId?_eq] at found
    have live := List.mem_of_getElem? found
    obtain ⟨-, evolved⟩ := Edit.apply_step formed (e := .delete _ _) deleted
    obtain ⟨-, evolved'⟩ := Edit.apply_step formed_cleared (e := .insert _ _) inserted
    -- A block that is lost when the content is taken out does not come back with the text.
    exact evolved.gone_of_gone formed evolved' live lost (same ▸ live)
  · rw [framed.makesPair_iff] at apart
    have cleared_lines : cleared.lines = d.lines.set index ([] ++ brk) :=
      framed.refilled (by simpa using cleared_text) (by simp) (by simpa using apart)
    have count : cleared.lines.length = d.lines.length := by
      rw [cleared_lines, List.length_set]
    have count' : d'.lines.length = cleared.lines.length := by
      rw [lines (.inr apart), List.length_set, count]
    obtain ⟨-, -, rfl, -⟩ := delete_ok deleted
    obtain ⟨-, rfl, -⟩ := insert_ok inserted
    rw [formed_cleared.ids_withText_same count', formed.ids_withText_same count]
  · rw [framed.makesPair_iff] at whole
    have lines := lines whole
    have formed' : d'.WellFormed := (Edit.apply_step formed_cleared (e := .insert _ _) inserted).1
    have count : d'.blocks.length = d.blocks.length := by
      rw [formed'.count, lines, List.length_set, formed.count]
    have in_lines : index < d.lines.length := formed.count ▸ inside
    refine ⟨?_, fun other apart => ?_⟩
    · rw [blockText, if_pos (by omega), content, lines, List.getD_eq_getElem?_getD,
        List.getElem?_set_self in_lines, Option.getD_some, Text.lineContent_plain plain,
        framed.bare, List.append_nil]
    · have content : d'.content other = d.content other := by
        rw [Document.content, Document.content, lines, List.getD_eq_getElem?_getD,
          List.getD_eq_getElem?_getD, List.getElem?_set_ne (Ne.symm apart)]
      simp only [blockText, count, content]

end Document

/-- A deletion keeps every block in front of its first line and behind its last one, with the text,
    and moves the positions in the latter by what it takes out. There is one exception: if a
    carriage return and a line feed come together, the block next to the last line is lost. The
    replacement of a block keeps all other texts, and all identities but for the same exception. -/
theorem deletions_leave_other_blocks (origin : Origin) (id : DocumentId) (calls : List Call) :
    let d := (origin.document id).performAll calls
    (∀ start stop, start ≤ stop → stop ≤ d.length →
      ∃ d' c, d.delete start stop = .ok (d', c) ∧ DeletesOnly d d' start stop) ∧
    ∀ index text, index < d.blocks.length → (∀ c ∈ text, Text.isBreak c = false) →
      ∃ d' c, d.replaceBlock index text = .ok (d', c) ∧ ReplacesOnly d d' index text := by
  intro d
  have formed : d.WellFormed := (performAll_run (origin.wellFormed id) calls).1
  refine ⟨fun start stop ordered inside => ?_, fun index text inside plain => ?_⟩
  · obtain ⟨d', c, ok⟩ := delete_of_le ordered inside
    exact ⟨d', c, ok, formed.delete_deletesOnly ok⟩
  · obtain ⟨d', c, ok⟩ := formed.replaceBlock_of_lt inside text
    exact ⟨d', c, ok, formed.replaceBlock_replacesOnly plain ok⟩

/-- A letter alone on its line, between a carriage return and a line feed: the block behind it is
    lost when the letter is deleted, and when it is replaced. -/
theorem deletions_lose_next_block :
    let d := Document.ofText 0 ['a', '\r', 'x', '\n', 'b']
    (∃ d' c, d.delete 2 3 = .ok (d', c) ∧ d.blockId? 2 = some 3 ∧ 3 ∉ d'.ids) ∧
      ∃ d' c, d.replaceBlock 1 ['y'] = .ok (d', c) ∧ d'.ids ≠ d.ids := by
  intro d
  obtain ⟨delete, replace⟩ := deletions_leave_other_blocks
    (.ofText ['a', '\r', 'x', '\n', 'b'] {}) 0 []
  obtain ⟨d', c, ok, only⟩ := delete 2 3 (by decide) (by decide)
  obtain ⟨b, found, lost⟩ := only.lost (by decide)
  obtain rfl : 3 = b := Option.some.inj found
  have plain : ∀ c ∈ ['y'], Text.isBreak c = false := by
    intro c member
    obtain rfl := List.mem_singleton.mp member
    decide
  obtain ⟨d'', c', ok', only'⟩ := replace 1 ['y'] (by decide) plain
  exact ⟨⟨d', c, ok, rfl, lost⟩, d'', c', ok', fun same => only'.ids.mp same (by decide)⟩

end Highlight
