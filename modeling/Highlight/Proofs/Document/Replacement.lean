import Highlight.Highlighter
import Highlight.Proofs.Document.Blocks

/-! # What an edit leaves alone

A row is a block together with its line. An edit that does not start directly behind a carriage
return puts new rows in place of one stretch of rows: the rows before and behind it stay as they
are, the new ones carry no styles, and the region that the change is widened to is exactly theirs.
Behind a carriage return this fails, because the edit can move the end of the line before.
-/

namespace Highlight

/-- A block and its line. -/
abbrev Row := Block × List Char

/-- The character offset at which an edit starts. -/
def Edit.start (d : Document) : Edit → Nat
  | .insert offset _ => offset
  | .delete start _ => start
  | .replaceBlock index _ => d.lineStart index
  | .setText _ => 0

/-- The edit starts directly behind a carriage return. -/
def Edit.BehindReturn (d : Document) (e : Edit) : Prop :=
  ∃ k, e.start d = k + 1 ∧ d.text[k]? = some '\r'

theorem Block.spans_fresh {first count : Nat} {b : Block} (h : b ∈ Block.fresh first count) :
    b.spans = [] := by
  simp only [Block.fresh, List.mem_map] at h
  obtain ⟨_, -, rfl⟩ := h
  rfl

namespace Document

def rows (d : Document) : List Row :=
  d.blocks.zip d.lines

theorem rows_getElem? {d : Document} {line : Nat} {row : Row} (h : d.rows[line]? = some row) :
    d.blocks[line]? = some row.1 ∧ d.lines[line]? = some row.2 :=
  List.getElem?_zip_eq_some.mp h

theorem content_of_row {d : Document} {line : Nat} {row : Row} (h : d.rows[line]? = some row) :
    d.content line = Text.lineContent row.2 := by
  rw [content, List.getD_eq_getElem?_getD, (rows_getElem? h).2, Option.getD_some]

theorem WellFormed.row_of_block {d : Document} (h : d.WellFormed) {line : Nat} {b : Block}
    (found : d.blocks[line]? = some b) : ∃ text, d.rows[line]? = some (b, text) := by
  obtain ⟨inside, -⟩ := List.getElem?_eq_some_iff.mp found
  rw [h.count] at inside
  exact ⟨d.lines[line], List.getElem?_zip_eq_some.mpr
    ⟨found, List.getElem?_eq_getElem inside⟩⟩

theorem WellFormed.length_rows {d : Document} (h : d.WellFormed) :
    d.rows.length = d.blocks.length := by
  rw [rows, List.length_zip, ← h.count, Nat.min_self]

theorem WellFormed.index_of_row {d : Document} (h : d.WellFormed) {line : Nat} {row : Row}
    (found : d.rows[line]? = some row) : d.blockIndex? row.1.id = some line := by
  rw [h.blockIndex?_eq_some_iff, blockId?, (rows_getElem? found).1, Option.map_some]

theorem place_of_row {d : Document} {line : Nat} {row : Row} (found : d.rows[line]? = some row)
    (column : Nat) : d.place line column = ⟨d.id, row.1.id, column⟩ := by
  rw [place, blockId?, (rows_getElem? found).1, Option.map_some, Option.getD_some]

theorem WellFormed.issued_of_row {d : Document} (h : d.WellFormed) {row : Row}
    (member : row ∈ d.rows) : row.1.id < d.nextBlock :=
  h.issued _ (List.mem_map_of_mem (List.of_mem_zip member).1)

/-- The region of whole blocks from one line to another. -/
def stretch (d : Document) (first last : Nat) : Interval :=
  ⟨d.place first 0, d.place last (d.width last)⟩

/-- `d'` has the rows `new`, all without styles, where `d` has the rows `old`. -/
structure Replaces (before old new after : List Row) (d d' : Document) : Prop where
  source : d.rows = before ++ old ++ after
  target : d'.rows = before ++ new ++ after
  plain : ∀ row ∈ new, row.1.spans = []
  some_new : new ≠ []

theorem whole_eq_stretch (d : Document) : d.whole = d.stretch 0 (d.blocks.length - 1) :=
  rfl

theorem region_eq {d : Document} {c : Change} (h : c.stop ≤ d.length) :
    d.region c = d.stretch (d.lineAt c.offset) (d.lineAt c.stop) := by
  have offset : c.offset ≤ d.length := Nat.le_trans (Nat.le_add_right _ _) h
  simp only [region, stretch, blockBounds?, if_pos offset, if_pos h, Option.map_some,
    Option.getD_some]

/-! ## Blocks around an anchor -/

theorem take_anchor (front back : List Block) (anchor : Block) :
    (front ++ anchor :: back).take (front.length + 1) = front ++ [anchor] := by
  rw [List.append_cons]
  exact List.take_left' (by simp)

theorem drop_anchor (front gone back : List Block) (anchor : Block) :
    (front ++ anchor :: (gone ++ back)).drop (front.length + 1 + gone.length) = back := by
  rw [List.append_cons, ← List.append_assoc]
  exact List.drop_left' (by simp only [List.length_append, List.length_singleton])

theorem alignBlocks_grow (front back : List Block) (anchor : Block) (more next : Nat) :
    alignBlocks (front ++ anchor :: back) front.length (front.length + 1 + more + back.length)
      next = front ++ anchor :: (Block.fresh next more ++ back) := by
  have drop : (front ++ anchor :: back).drop (front.length + 1) = back :=
    drop_anchor front [] back anchor
  cases more with
  | zero =>
      simp only [alignBlocks, List.length_append, List.length_cons]
      rw [if_neg (by omega), if_neg (by omega)]
      rfl
  | succ more =>
      have count : front.length + 1 + (more + 1) + back.length -
          (front ++ anchor :: back).length = more + 1 := by
        simp only [List.length_append, List.length_cons]
        omega
      rw [alignBlocks_of_lt (by simp only [List.length_append, List.length_cons]; omega),
        take_anchor, drop, count]
      simp

theorem alignBlocks_shrink (front gone back : List Block) (anchor : Block) (next : Nat) :
    alignBlocks (front ++ anchor :: (gone ++ back)) front.length
      (front.length + 1 + back.length) next = front ++ anchor :: back := by
  have count : (front ++ anchor :: (gone ++ back)).length - (front.length + 1 + back.length) =
      gone.length := by
    simp only [List.length_append, List.length_cons]
    omega
  cases gone with
  | nil =>
      simp only [alignBlocks, List.length_append, List.length_cons, List.nil_append]
      rw [if_neg (by omega), if_neg (by omega)]
  | cons b gone =>
      rw [alignBlocks, if_neg (by simp only [List.length_append, List.length_cons]; omega),
        if_pos (by simp only [List.length_append, List.length_cons]; omega), count, take_anchor,
        drop_anchor, ← List.append_cons]
      apply List.take_of_length_le
      simp only [List.length_append, List.length_cons]
      omega

theorem modify_append (front back : List Block) (anchor : Block) (f : Block → Block) :
    (front ++ anchor :: back).modify front.length f = front ++ f anchor :: back := by
  rw [List.modify_eq_take_cons_drop (by simp)]
  simp [List.drop_append]

/-! ## Insertion and deletion -/

/-- The blocks of a document, cut where its lines are cut. -/
theorem WellFormed.split_blocks {d : Document} (h : d.WellFormed)
    {before mid after : List (List Char)} (lines : d.lines = before ++ mid ++ after) :
    ∃ front inner back, d.blocks = front ++ inner ++ back ∧ front.length = before.length ∧
      inner.length = mid.length ∧ back.length = after.length := by
  have count : d.blocks.length = before.length + mid.length + after.length := by
    rw [h.count, lines, List.length_append, List.length_append]
  refine ⟨d.blocks.take before.length, (d.blocks.drop before.length).take mid.length,
    (d.blocks.drop before.length).drop mid.length, ?_, ?_, ?_, ?_⟩
  · rw [List.append_assoc, List.take_append_drop, List.take_append_drop]
  · rw [List.length_take]
    omega
  · rw [List.length_take, List.length_drop]
    omega
  · rw [List.length_drop, List.length_drop]
    omega

theorem rows_of_split {d : Document} {before mid after : List (List Char)}
    {front inner back : List Block} (lines : d.lines = before ++ mid ++ after)
    (blocks : d.blocks = front ++ inner ++ back) (hf : front.length = before.length)
    (hi : inner.length = mid.length) :
    d.rows = front.zip before ++ inner.zip mid ++ back.zip after := by
  rw [rows, lines, blocks, List.zip_append (by simp [hf, hi]), List.zip_append hf]

theorem blocks_withText {d : Document} {text : List Char} {before mid after : List (List Char)}
    {front gone back : List Block} {anchor : Block}
    (lines : Text.lines text = before ++ mid ++ after) (some_mid : mid ≠ [])
    (blocks : d.blocks = front ++ anchor :: (gone ++ back)) (hf : front.length = before.length)
    (hb : back.length = after.length) (one : gone = [] ∨ mid.length = 1) :
    (d.withText text before.length).blocks =
      front ++ { anchor with spans := [] } :: (Block.fresh d.nextBlock (mid.length - 1) ++
        back) := by
  have pos := List.length_pos_iff.mpr some_mid
  have count : (Text.lines text).length = front.length + 1 + (mid.length - 1) + back.length := by
    rw [lines, List.length_append, List.length_append]
    omega
  have anchored : min before.length (d.blocks.length - 1) = front.length := by
    rw [blocks]
    simp only [List.length_append, List.length_cons]
    omega
  simp only [withText, count, anchored]
  rw [blocks]
  rcases one with rfl | single
  · rw [List.nil_append, alignBlocks_grow, modify_append]
  · rw [single, alignBlocks_shrink, modify_append]
    rfl

/-- A text put in, or taken out, behind anything but a carriage return. -/
theorem splice_replaces {d : Document} (h : d.WellFormed) {pre mid post : List Char}
    (source : d.text = pre ++ mid ++ post) (open_end : pre.getLast? ≠ some '\r')
    (text : List Char) (one : mid = [] ∨ text = []) :
    let d' := d.withText (pre ++ text ++ post) (d.lineAt pre.length)
    ∃ before old new after, Replaces before old new after d d' ∧ old ≠ [] ∧
      (mid = [] → old.length = 1) ∧ (text = [] → new.length = 1) ∧
      before.length = d.lineAt pre.length ∧ d'.lineAt pre.length = before.length ∧
      d'.lineAt (pre.length + text.length) + 1 = before.length + new.length := by
  intro d'
  obtain ⟨before, after, spliced⟩ := Text.lines_splice open_end post
  obtain ⟨old, some_old, single, lines, anchored, -⟩ := spliced mid
  obtain ⟨new, some_new, single', lines', anchored', stop⟩ := spliced text
  rw [← source, ← d.lines_eq] at lines anchored
  obtain ⟨front, inner, back, blocks, hf, hi, hb⟩ := h.split_blocks lines
  obtain ⟨anchor, gone, rfl⟩ := List.exists_cons_of_length_pos
    (hi ▸ List.length_pos_iff.mpr some_old)
  have kept : gone = [] ∨ new.length = 1 := by
    refine one.imp (fun none => ?_) single'
    have := hi.trans (single none)
    exact List.length_eq_zero_iff.mp (Nat.succ_inj.mp this)
  have blocks' : d'.blocks = front ++ ({ anchor with spans := [] } ::
      Block.fresh d.nextBlock (new.length - 1)) ++ back := by
    have at_anchor : d.lineAt pre.length = before.length := anchored
    simp only [d', at_anchor]
    rw [blocks_withText lines' some_new (by simpa using blocks) hf hb kept]
    simp
  have hn : ({ anchor with spans := [] } :: Block.fresh d.nextBlock (new.length - 1)).length =
      new.length := by
    have := List.length_pos_iff.mpr some_new
    rw [List.length_cons, Block.length_fresh]
    omega
  refine ⟨front.zip before, (anchor :: gone).zip old, _, back.zip after,
    ⟨rows_of_split lines blocks hf hi, rows_of_split (d := d') lines' blocks' hf hn, ?_, ?_⟩,
    ?_, ?_, ?_, ?_, ?_, ?_⟩
  · intro row hrow
    rcases List.mem_cons.mp (List.of_mem_zip hrow).1 with same | fresh
    · rw [same]
    · exact Block.spans_fresh fresh
  · rw [← List.length_pos_iff, List.length_zip, hn, Nat.min_self]
    exact List.length_pos_iff.mpr some_new
  · rw [← List.length_pos_iff, List.length_zip, hi, Nat.min_self]
    exact List.length_pos_iff.mpr some_old
  · intro none
    rw [List.length_zip, hi, Nat.min_self]
    exact single none
  · intro none
    rw [List.length_zip, hn, Nat.min_self]
    exact single' none
  · rw [List.length_zip, hf, Nat.min_self]
    exact anchored.symm
  · rw [List.length_zip, hf, Nat.min_self]
    exact anchored'
  · rw [List.length_zip, List.length_zip, hf, hn, Nat.min_self, Nat.min_self]
    exact stop

theorem insert_replaces {d d' : Document} {offset : Nat} {text : List Char} {c : Change}
    (h : d.WellFormed) (open_end : (d.text.take offset).getLast? ≠ some '\r')
    (ok : d.insert offset text = .ok (d', c)) :
    ∃ before old new after, Replaces before old new after d d' ∧ old.length = 1 ∧
      before.length = d.lineAt offset ∧
      d'.region c = d'.stretch before.length (before.length + new.length - 1) := by
  obtain ⟨inside, rfl, rfl⟩ := insert_ok ok
  have offset_eq : (d.text.take offset).length = offset := List.length_take_of_le inside
  have source : d.text = d.text.take offset ++ [] ++ d.text.drop offset := by simp
  obtain ⟨before, old, new, after, replaces, -, single, -, anchored, first, last⟩ :=
    splice_replaces h source open_end text (.inl rfl)
  rw [offset_eq] at replaces anchored first last
  refine ⟨before, old, new, after, replaces, single rfl, anchored, ?_⟩
  rw [region_eq, first]
  · congr 1
    change lineAt _ (offset + text.length) = _
    omega
  · simp only [Change.stop, length, withText, List.length_append, List.length_drop, offset_eq]
    change offset ≤ d.text.length at inside
    omega

theorem delete_replaces {d d' : Document} {start stop : Nat} {c : Change} (h : d.WellFormed)
    (open_end : (d.text.take start).getLast? ≠ some '\r') (ok : d.delete start stop = .ok (d', c)) :
    ∃ before old new after, Replaces before old new after d d' ∧ old ≠ [] ∧ new.length = 1 ∧
      before.length = d.lineAt start ∧ before.length = d'.lineAt start ∧
      d'.region c = d'.stretch before.length (before.length + new.length - 1) := by
  obtain ⟨ordered, inside, rfl, rfl⟩ := delete_ok ok
  change stop ≤ d.text.length at inside
  have start_eq : (d.text.take start).length = start := List.length_take_of_le (by omega)
  have source : d.text =
      d.text.take start ++ (d.text.drop start).take (stop - start) ++ d.text.drop stop := by
    have behind : d.text.drop stop = (d.text.drop start).drop (stop - start) := by
      rw [List.drop_drop]
      congr 1
      omega
    rw [behind, List.append_assoc, List.take_append_drop, List.take_append_drop]
  obtain ⟨before, old, new, after, replaces, some_old, -, single, anchored, first, last⟩ :=
    splice_replaces h source open_end [] (.inr rfl)
  rw [start_eq, List.append_nil] at replaces first last
  rw [start_eq] at anchored
  refine ⟨before, old, new, after, replaces, some_old, single rfl, anchored, first.symm, ?_⟩
  rw [region_eq, first]
  · congr 1
    change lineAt _ (start + ([] : List Char).length) = _
    have := single rfl
    omega
  · simp only [Change.stop, length, withText, List.length_append, start_eq]
    omega

theorem setText_replaces (d : Document) (text : List Char) :
    let d' := (d.setText text).1
    Replaces [] d.rows d'.rows [] d d' ∧
      d'.region (d.setText text).2 = d'.stretch 0 (d'.rows.length - 1) := by
  intro d'
  have count : d'.rows.length = (Text.lines text).length := by
    rw [rows, List.length_zip, (WellFormed.setText d text).count, Nat.min_self]
    rfl
  refine ⟨⟨by simp, by simp, ?_, ?_⟩, ?_⟩
  · intro row hrow
    exact Block.spans_fresh (List.of_mem_zip hrow).1
  · rw [← List.length_pos_iff, count]
    exact List.length_pos_iff.mpr (Text.lines_ne_nil text)
  · have first : d'.lineAt 0 = 0 := Text.lineAt_zero text
    have last : d'.lineAt (0 + text.length) + 1 = (Text.lines text).length := by
      rw [Nat.zero_add]
      exact Text.lineAt_length text
    rw [region_eq]
    · change stretch _ (d'.lineAt 0) (d'.lineAt (0 + text.length)) = _
      rw [first, count, ← last, Nat.add_sub_cancel]
    · change 0 + text.length ≤ text.length
      omega

namespace Replaces

variable {d d' : Document} {before old new after : List Row}

theorem count (h : Replaces before old new after d d') (formed : d'.WellFormed) :
    d'.blocks.length = before.length + new.length + after.length := by
  rw [← formed.length_rows, h.target, List.length_append, List.length_append]

/-- A row outside of the new ones was there before: at its index if it is in front of them, and
    behind the old ones otherwise. -/
theorem kept_at (h : Replaces before old new after d d') {line : Nat} {row : Row}
    (outside : ¬(before.length ≤ line ∧ line ≤ before.length + new.length - 1))
    (found : d'.rows[line]? = some row) : d.rows[line]? = some row ∧ line < before.length ∨
      ∃ line', before.length + old.length ≤ line' ∧ d.rows[line']? = some row := by
  have new_pos := List.length_pos_iff.mpr h.some_new
  rw [h.target] at found
  by_cases front : line < before.length
  · refine .inl ⟨?_, front⟩
    rw [List.append_assoc, List.getElem?_append_left front] at found
    rw [h.source, List.append_assoc, List.getElem?_append_left front]
    exact found
  · refine .inr ⟨before.length + old.length + (line - (before.length + new.length)),
      Nat.le_add_right _ _, ?_⟩
    rw [List.getElem?_append_right (by rw [List.length_append]; omega)] at found
    rw [h.source, List.getElem?_append_right (by rw [List.length_append]; omega)]
    rw [List.length_append] at found ⊢
    rwa [Nat.add_sub_cancel_left]

/-- A row outside of the new ones was there before, at another index if it is behind them. -/
theorem kept (h : Replaces before old new after d d') {line : Nat} {row : Row}
    (outside : ¬(before.length ≤ line ∧ line ≤ before.length + new.length - 1))
    (found : d'.rows[line]? = some row) : ∃ line' : Nat, d.rows[line']? = some row := by
  rcases h.kept_at outside found with ⟨same, -⟩ | ⟨line', -, moved⟩
  · exact ⟨line, same⟩
  · exact ⟨line', moved⟩

theorem fresh (h : Replaces before old new after d d') {line : Nat} {row : Row}
    (inside : before.length ≤ line ∧ line ≤ before.length + new.length - 1)
    (found : d'.rows[line]? = some row) : row ∈ new := by
  have new_pos := List.length_pos_iff.mpr h.some_new
  rw [h.target, List.append_assoc, List.getElem?_append_right inside.1,
    List.getElem?_append_left (by omega)] at found
  exact List.mem_of_getElem? found

end Replaces

/-- A second edit of exactly the rows that the first one left. -/
theorem Replaces.trans {d d' d'' : Document}
    {before old mid after before' mid' new after' : List Row}
    (first : Replaces before old mid after d d')
    (second : Replaces before' mid' new after' d' d'')
    (anchor : before'.length = before.length) (size : mid'.length = mid.length) :
    Replaces before old new after d d'' ∧ before' = before := by
  have same := second.source.symm.trans first.target
  obtain ⟨front, rfl⟩ := List.append_inj same (by simp [anchor, size])
  obtain ⟨rfl, rfl⟩ := List.append_inj front anchor
  exact ⟨⟨first.source, second.target, second.plain, second.some_new⟩, rfl⟩

end Document

open Document

theorem Edit.getLast?_take_start {d : Document} {e : Edit} (clear : ¬e.BehindReturn d)
    (inside : e.start d ≤ d.length) : (d.text.take (e.start d)).getLast? ≠ some '\r' := by
  intro behind
  apply clear
  change e.start d ≤ d.text.length at inside
  rw [List.getLast?_take] at behind
  cases start : e.start d with
  | zero => simp [start] at behind
  | succ k =>
      rw [start, if_neg (Nat.succ_ne_zero k), Nat.add_sub_cancel,
        List.getElem?_eq_getElem (by omega), Option.some_or] at behind
      exact ⟨k, start, by rw [List.getElem?_eq_getElem (by omega), behind]⟩

/-- An edit that does not start behind a carriage return replaces rows from its line on, at least
    one, and the region that its change is widened to is that of the new ones. -/
theorem Edit.replaces_at {d d' : Document} {e : Edit} {c : Change} (h : d.WellFormed)
    (clear : ¬e.BehindReturn d) (ok : e.apply d = .ok (d', c)) :
    ∃ before old new after, Replaces before old new after d d' ∧
      d'.region c = d'.stretch before.length (before.length + new.length - 1) ∧ old ≠ [] ∧
      before.length = d.lineAt (e.start d) := by
  cases e with
  | insert offset text =>
      have open_end := getLast?_take_start clear (insert_ok ok).1
      obtain ⟨before, old, new, after, replaces, single, anchored, region⟩ :=
        insert_replaces h open_end ok
      exact ⟨before, old, new, after, replaces, region,
        List.ne_nil_of_length_eq_add_one single, anchored⟩
  | delete start stop =>
      obtain ⟨ordered, inside, -, -⟩ := delete_ok ok
      have open_end := getLast?_take_start clear (Nat.le_trans ordered inside)
      obtain ⟨before, old, new, after, replaces, some_old, -, anchored, -, region⟩ :=
        delete_replaces h open_end ok
      exact ⟨before, old, new, after, replaces, region, some_old, anchored⟩
  | replaceBlock index text =>
      obtain ⟨-, cleared, removed, added, deleted, inserted, rfl⟩ := replaceBlock_ok ok
      obtain ⟨ordered, inside, cleared_eq, -⟩ := delete_ok deleted
      have start_le := Nat.le_trans ordered inside
      have open_end := getLast?_take_start clear start_le
      have same_front : cleared.text.take (d.lineStart index) =
          d.text.take (d.lineStart index) := by
        rw [cleared_eq]
        exact List.take_left' (List.length_take_of_le start_le)
      have formed : cleared.WellFormed := cleared_eq ▸ h.withText _ _
      obtain ⟨before, old, mid, after, first, some_old, single, at_line, anchored, -⟩ :=
        delete_replaces h open_end deleted
      obtain ⟨before', mid', new, after', second, single', anchored', region⟩ :=
        insert_replaces formed (same_front ▸ open_end) inserted
      obtain ⟨both, rfl⟩ := first.trans second (anchored'.trans anchored.symm)
        (single'.trans single.symm)
      refine ⟨before', old, new, after, both, ?_, some_old, at_line⟩
      rw [← region, (insert_ok inserted).2.2]
      rfl
  | setText text =>
      obtain ⟨rfl, rfl⟩ := setText_ok ok
      obtain ⟨replaces, region⟩ := setText_replaces d text
      refine ⟨[], d.rows, _, [], replaces, by simpa using region, ?_, ?_⟩
      · rw [← List.length_pos_iff, h.length_rows]
        exact h.blocks_pos
      · change 0 = Text.lineAt d.lines 0
        rw [d.lines_eq, Text.lineAt_zero]

/-- An edit that does not start behind a carriage return replaces the rows of its region and no
    others. -/
theorem Edit.replaces {d d' : Document} {e : Edit} {c : Change} (h : d.WellFormed)
    (clear : ¬e.BehindReturn d) (ok : e.apply d = .ok (d', c)) :
    ∃ before old new after, Replaces before old new after d d' ∧
      d'.region c = d'.stretch before.length (before.length + new.length - 1) := by
  obtain ⟨before, old, new, after, replaces, region, -⟩ := replaces_at h clear ok
  exact ⟨before, old, new, after, replaces, region⟩

/-! ## In front of an edit -/

theorem Document.insert_front {d d' : Document} {offset : Nat} {text : List Char} {c : Change}
    (ok : d.insert offset text = .ok (d', c)) :
    c.stop ≤ d'.length ∧ d'.text.take offset = d.text.take offset := by
  obtain ⟨inside, rfl, rfl⟩ := insert_ok ok
  have front : (d.text.take offset).length = offset := List.length_take_of_le inside
  constructor
  · simp only [Change.stop, length, withText, List.length_append, front]
    omega
  · simp only [withText, List.append_assoc]
    exact List.take_left' front

theorem Document.delete_front {d d' : Document} {start stop : Nat} {c : Change}
    (ok : d.delete start stop = .ok (d', c)) :
    c.stop ≤ d'.length ∧ d'.text.take start = d.text.take start := by
  obtain ⟨ordered, inside, rfl, rfl⟩ := delete_ok ok
  have front : (d.text.take start).length = start :=
    List.length_take_of_le (Nat.le_trans ordered inside)
  constructor
  · simp only [Change.stop, length, withText, List.length_append, front]
    omega
  · exact List.take_left' front

/-- An edit leaves the text in front of it alone, and its change ends inside the new text. -/
theorem Edit.apply_front {d d' : Document} {e : Edit} {c : Change} (ok : e.apply d = .ok (d', c)) :
    c.offset = e.start d ∧ e.start d ≤ d.length ∧ c.stop ≤ d'.length ∧
      d'.text.take (e.start d) = d.text.take (e.start d) := by
  cases e with
  | insert offset text =>
      obtain ⟨inside, -, change⟩ := insert_ok ok
      exact ⟨congrArg Change.offset change, inside, insert_front ok⟩
  | delete start stop =>
      obtain ⟨ordered, inside, -, change⟩ := delete_ok ok
      exact ⟨congrArg Change.offset change, Nat.le_trans ordered inside, delete_front ok⟩
  | replaceBlock index text =>
      obtain ⟨-, cleared, removed, added, deleted, inserted, rfl⟩ := replaceBlock_ok ok
      obtain ⟨ordered, inside, -, -⟩ := delete_ok deleted
      obtain ⟨-, -, rfl⟩ := insert_ok inserted
      obtain ⟨short, front⟩ := insert_front inserted
      exact ⟨rfl, Nat.le_trans ordered inside, short, front.trans (delete_front deleted).2⟩
  | setText text =>
      obtain ⟨rfl, rfl⟩ := setText_ok ok
      refine ⟨rfl, Nat.zero_le _, ?_, rfl⟩
      change 0 + text.length ≤ text.length
      omega

/-- Lines in front of an edit keep their numbers, up to the one where it starts. -/
theorem Edit.lineAt_front {d d' : Document} {e : Edit} {c : Change} (clear : ¬e.BehindReturn d)
    (ok : e.apply d = .ok (d', c)) {i : Nat} (before : i ≤ e.start d) :
    d'.lineAt i = d.lineAt i := by
  obtain ⟨-, inside, -, front⟩ := apply_front ok
  have open_end := getLast?_take_start clear inside
  have short : i ≤ (d.text.take (e.start d)).length := by
    rw [List.length_take_of_le inside]
    exact before
  have old := Text.lineAt_front open_end (d.text.drop (e.start d)) short
  have new := Text.lineAt_front open_end (d'.text.drop (e.start d)) short
  rw [List.take_append_drop] at old
  rw [← front, List.take_append_drop, front] at new
  rw [lineAt, lineAt, d.lines_eq, d'.lines_eq, old, new]

end Highlight
