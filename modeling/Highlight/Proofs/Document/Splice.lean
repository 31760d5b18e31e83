import Highlight.Proofs.Bracket.Order
import Highlight.Proofs.Document.Replacement
import Highlight.Proofs.Text.Pairs

/-! # Blocks around an edit

An edit keeps the blocks in front of its line, takes the styles off the block on that line, puts new
blocks behind it or takes some away, and keeps the blocks that follow. `Document.Spliced` says so
for every edit, wherever it starts. A line that is kept has its text, with two exceptions that both
come from pairs: a deletion that takes a pair apart changes the line it ends on, and one that puts a
pair together takes a block too many away.
-/

namespace Highlight.Document

/-- A line of one document stands in another one, block and content. -/
structure Moved (d d' : Document) (line line' : Nat) : Prop where
  id_eq : d'.id = d.id
  block : d'.blocks[line']? = d.blocks[line]?
  content : d'.content line' = d.content line

/-- The blocks behind an edit: those in front of line `first` stay, the one there loses its styles,
    `fresh` new ones come behind it, and then those from `kept` on follow, the first `changed` of
    them with another text. -/
structure Spliced (d d' : Document) (first fresh kept changed : Nat) : Prop where
  id_eq : d'.id = d.id
  behind : first < kept
  inside : kept ≤ d.blocks.length
  blocks : ∃ anchor, d.blocks[first]? = some anchor ∧ d'.blocks = d.blocks.take first ++
    { anchor with spans := [] } :: (Block.fresh d.nextBlock fresh ++ d.blocks.drop kept)
  front : Text.Fed (d.lines.take first) (d'.lines.take first)
  back : d'.lines.drop (first + 1 + fresh + changed) = d.lines.drop (kept + changed)

namespace Moved

variable {d d' : Document} {line line' : Nat}

theorem blockId?_eq (h : Moved d d' line line') : d'.blockId? line' = d.blockId? line := by
  simp only [blockId?, h.block]

theorem blockText_eq (h : Moved d d' line line') (inside : line < d.blocks.length) :
    d'.blockText line' = d.blockText line := by
  have inside' : line' < d'.blocks.length := by
    have block := h.block
    rw [List.getElem?_eq_getElem inside] at block
    exact (List.getElem?_eq_some_iff.mp block).1
  simp only [blockText, if_pos inside, if_pos inside', h.content]

theorem resolve? (h : Moved d d' line line') (formed : d.WellFormed) (formed' : d'.WellFormed)
    {p : Position} {column : Nat} (found : d.resolve? p = some (line, column)) :
    d'.resolve? p = some (line', column) := by
  obtain ⟨own, index, column_eq, fits⟩ := resolve?_eq_some.mp found
  refine resolve?_eq_some.mpr ⟨own.trans h.id_eq.symm, ?_, column_eq, ?_⟩
  · rw [formed'.blockIndex?_eq_some_iff, h.blockId?_eq]
    exact formed.blockIndex?_eq_some_iff.mp index
  · rwa [width_eq_length, h.content, ← width_eq_length]

theorem charAt? (h : Moved d d' line line') (formed : d.WellFormed) (formed' : d'.WellFormed)
    {p : Position} {column : Nat} (found : d.resolve? p = some (line, column)) :
    d'.charAt? p = d.charAt? p := by
  simp only [Document.charAt?, found, h.resolve? formed formed' found, Option.bind_some, h.content]

end Moved

namespace Spliced

variable {d d' : Document} {first fresh kept changed : Nat}

theorem length_take (h : Spliced d d' first fresh kept changed) :
    (d.blocks.take first).length = first := by
  have := h.behind
  have := h.inside
  rw [List.length_take]
  omega

theorem block_front (h : Spliced d d' first fresh kept changed) {line : Nat}
    (before : line < first) : d'.blocks[line]? = d.blocks[line]? := by
  obtain ⟨anchor, -, blocks⟩ := h.blocks
  rw [blocks, List.getElem?_append_left (by rwa [h.length_take]), List.getElem?_take_of_lt before]

theorem block_anchor (h : Spliced d d' first fresh kept changed) :
    d'.blocks[first]? = d.blocks[first]?.map ({ · with spans := [] }) := by
  obtain ⟨anchor, found, blocks⟩ := h.blocks
  rw [blocks, List.getElem?_append_right (by rw [h.length_take]), h.length_take, Nat.sub_self,
    found]
  rfl

theorem block_fresh (h : Spliced d d' first fresh kept changed) {k : Nat} (inside : k < fresh) :
    d'.blocks[first + 1 + k]? = some { id := d.nextBlock + k } := by
  obtain ⟨anchor, -, blocks⟩ := h.blocks
  have index : first + 1 + k - first = k + 1 := by omega
  rw [blocks, List.getElem?_append_right (by rw [h.length_take]; omega), h.length_take, index,
    List.getElem?_cons_succ, List.getElem?_append_left (by rwa [Block.length_fresh])]
  simp [Block.fresh, inside]

theorem block_back (h : Spliced d d' first fresh kept changed) (k : Nat) :
    d'.blocks[first + 1 + fresh + k]? = d.blocks[kept + k]? := by
  obtain ⟨anchor, -, blocks⟩ := h.blocks
  have index : first + 1 + fresh + k - first = fresh + k + 1 := by omega
  rw [blocks, List.getElem?_append_right (by rw [h.length_take]; omega), h.length_take, index,
    List.getElem?_cons_succ, List.getElem?_append_right (by rw [Block.length_fresh]; omega),
    Block.length_fresh, Nat.add_sub_cancel_left, List.getElem?_drop]

theorem length_blocks (h : Spliced d d' first fresh kept changed) :
    d'.blocks.length + kept = d.blocks.length + first + 1 + fresh := by
  obtain ⟨anchor, -, blocks⟩ := h.blocks
  have := h.inside
  rw [blocks, List.length_append, h.length_take, List.length_cons, List.length_append,
    Block.length_fresh, List.length_drop]
  omega

theorem moved_front (h : Spliced d d' first fresh kept changed) {line : Nat}
    (before : line < first) : Moved d d' line line := by
  refine ⟨h.id_eq, h.block_front before, ?_⟩
  have same := congrArg (·[line]?) h.front.map_lineContent
  simp only [List.map_take, List.getElem?_take_of_lt before, List.getElem?_map] at same
  rw [content, content, List.getD_eq_getElem?_getD, List.getD_eq_getElem?_getD]
  cases found : d.lines[line]? <;> cases found' : d'.lines[line]? <;> simp_all

theorem moved_back (h : Spliced d d' first fresh kept changed) {k : Nat} (same : changed ≤ k) :
    Moved d d' (kept + k) (first + 1 + fresh + k) := by
  refine ⟨h.id_eq, h.block_back k, ?_⟩
  have lines := congrArg (·[k - changed]?) h.back
  simp only [List.getElem?_drop] at lines
  have index : first + 1 + fresh + changed + (k - changed) = first + 1 + fresh + k := by omega
  have index' : kept + changed + (k - changed) = kept + k := by omega
  rw [index, index'] at lines
  rw [content, content, List.getD_eq_getElem?_getD, List.getD_eq_getElem?_getD, lines]

theorem lineStart_front (h : Spliced d d' first fresh kept changed) (formed : d.WellFormed)
    {line : Nat} (before : line < first) : d'.lineStart line = d.lineStart line := by
  have inside : line < (d.lines.take first).length := by
    have := h.behind
    have := h.inside
    rw [List.length_take, ← formed.count]
    omega
  have start := h.front.lineStart_eq (d.lines.drop first) (d'.lines.drop first) inside
  rwa [List.take_append_drop, List.take_append_drop] at start

theorem lineStart_back (h : Spliced d d' first fresh kept changed) {k : Nat} (same : changed ≤ k) :
    d'.lineStart (first + 1 + fresh + k) + d.length = d.lineStart (kept + k) + d'.length := by
  have lines := congrArg (List.drop (k - changed)) h.back
  rw [List.drop_drop, List.drop_drop] at lines
  have index : first + 1 + fresh + changed + (k - changed) = first + 1 + fresh + k := by omega
  have index' : kept + changed + (k - changed) = kept + k := by omega
  rw [index, index'] at lines
  have start := Text.lineStart_add d.lines (kept + k)
  have start' := Text.lineStart_add d'.lines (first + 1 + fresh + k)
  have whole : d.lines.flatten.length = d.length := by rw [d.lines_eq, Text.flatten_lines]; rfl
  have whole' : d'.lines.flatten.length = d'.length := by rw [d'.lines_eq, Text.flatten_lines]; rfl
  rw [lines] at start'
  change d.lineStart (kept + k) + _ = _ at start
  change d'.lineStart (first + 1 + fresh + k) + _ = _ at start'
  omega

theorem offsetOf?_front (h : Spliced d d' first fresh kept changed) (formed : d.WellFormed)
    (formed' : d'.WellFormed) {p : Position} {line column : Nat}
    (found : d.resolve? p = some (line, column)) (before : line < first) :
    d'.offsetOf? p = d.offsetOf? p := by
  have found' := (h.moved_front before).resolve? formed formed' found
  simp only [offsetOf?, found, found', Option.map_some, h.lineStart_front formed before]

theorem offsetOf?_back (h : Spliced d d' first fresh kept changed) (formed : d.WellFormed)
    (formed' : d'.WellFormed) {p : Position} {k column : Nat} (same : changed ≤ k)
    (found : d.resolve? p = some (kept + k, column)) : ∃ offset offset',
      d.offsetOf? p = some offset ∧ d'.offsetOf? p = some offset' ∧
        offset' + d.length = offset + d'.length := by
  have found' := (h.moved_back same).resolve? formed formed' found
  have shift := h.lineStart_back same
  refine ⟨d.lineStart (kept + k) + column, d'.lineStart (first + 1 + fresh + k) + column,
    ?_, ?_, ?_⟩
  · rw [offsetOf?, found, Option.map_some]
  · rw [offsetOf?, found', Option.map_some]
  · omega

end Spliced

/-! ## Edits are splices -/

/-- A new text with other lines in one stretch; all but the first of them are new, or all but the
    first of the old ones are gone. -/
theorem withText_spliced {d : Document} (formed : d.WellFormed) {text : List Char}
    {before before' old new after : List (List Char)} {fresh gone changed : Nat}
    (source : d.lines = before ++ old ++ after)
    (target : Text.lines text = before' ++ new ++ after) (fed : Text.Fed before before')
    (old_length : old.length = 1 + gone + changed) (new_length : new.length = 1 + fresh + changed)
    (one : gone = 0 ∨ fresh = 0) :
    Spliced d (d.withText text before.length) before.length fresh (before.length + 1 + gone)
      changed := by
  have same := fed.length_eq
  have split (n : Nat) (ls before after : List (List Char)) :
      before ++ ls ++ after = before ++ ls.take n ++ (ls.drop n ++ after) := by
    rw [List.append_assoc, List.append_assoc, ← List.append_assoc (ls.take n),
      List.take_append_drop]
  have source' := source.trans (split (1 + gone) old before after)
  have target' := target.trans (split (1 + fresh) new before' after)
  -- The changed lines keep their blocks, so they belong to the back; what is left of the old
  -- stretch is the anchor and the blocks that go.
  obtain ⟨front, inner, back, blocks, hf, hi, hb⟩ := formed.split_blocks source'
  rw [List.length_take] at hi
  obtain ⟨anchor, lost, rfl⟩ := List.exists_cons_of_length_pos (by omega : 0 < inner.length)
  rw [List.length_cons] at hi
  rw [List.length_append, List.length_drop] at hb
  have mid_length : (new.take (1 + fresh)).length = 1 + fresh := by
    rw [List.length_take]
    omega
  have some_mid : new.take (1 + fresh) ≠ [] := by
    rw [← List.length_pos_iff]
    omega
  have blocks' := blocks_withText target' some_mid (by simpa using blocks) (hf.trans same.symm)
    (by rw [List.length_append, List.length_drop]; omega)
    (one.imp (fun none => List.length_eq_zero_iff.mp (by omega)) (fun none => by omega))
  rw [same, mid_length, Nat.add_sub_cancel_left] at blocks'
  have take : d.blocks.take before.length = front := by
    rw [blocks, List.append_assoc]
    exact List.take_left' hf
  have drop : d.blocks.drop (before.length + 1 + gone) = back := by
    rw [blocks]
    exact List.drop_left' (by rw [List.length_append, List.length_cons]; omega)
  refine ⟨rfl, by omega, ?_, ⟨anchor, ?_, ?_⟩, ?_, ?_⟩
  · rw [blocks, List.length_append, List.length_append, List.length_cons]
    omega
  · rw [blocks, ← hf, List.append_assoc, List.getElem?_append_right (Nat.le_refl _), Nat.sub_self]
    rfl
  · rw [blocks', take, drop]
  · rw [source, List.append_assoc, List.take_left' rfl]
    change Text.Fed before ((Text.lines text).take before.length)
    rw [target, List.append_assoc, List.take_left' same]
    exact fed
  · change (Text.lines text).drop _ = d.lines.drop _
    rw [source, target, List.drop_left' (by rw [List.length_append]; omega),
      List.drop_left' (by rw [List.length_append]; omega)]

theorem exists_place {d : Document} {offset : Nat} (inside : offset ≤ d.length) :
    ∃ before start line rest,
      Text.Place (d.text.take offset) (d.text.drop offset) before start line rest ∧
        d.lines = before ++ (start ++ line) :: rest ∧ d.lineAt offset = before.length ∧
          before.flatten.length + start.length = offset := by
  obtain ⟨before, start, line, rest, place⟩ :=
    Text.exists_place (d.text.take offset) (d.text.drop offset)
  have length : (d.text.take offset).length = offset := List.length_take_of_le inside
  have lines : d.lines = Text.lines (d.text.take offset ++ d.text.drop offset) := by
    rw [List.take_append_drop]
    exact d.lines_eq
  refine ⟨before, start, line, rest, place, lines.trans place.whole, ?_, ?_⟩
  · rw [← place.lineAt_eq, ← lines, length]
    rfl
  · rw [← List.length_append, place.front, length]

theorem content_of_lines {d : Document} {before rest : List (List Char)} {line : List Char}
    (lines : d.lines = before ++ line :: rest) :
    d.content before.length = Text.lineContent line := by
  simp [content, lines]

theorem lineStart_of_lines {d : Document} {before after : List (List Char)}
    (lines : d.lines = before ++ after) : d.lineStart before.length = before.flatten.length := by
  rw [lineStart, lines, Text.lineStart_eq_length, List.take_left' rfl]

/-- A text put in anywhere. In front of it, positions on its line stay where they are. -/
theorem insert_spliced {d d' : Document} {offset : Nat} {text : List Char} {c : Change}
    (formed : d.WellFormed) (ok : d.insert offset text = .ok (d', c)) :
    ∃ fresh, Spliced d d' (d.lineAt offset) fresh (d.lineAt offset + 1) 0 ∧
      ∀ column, d.lineStart (d.lineAt offset) + column < offset →
        column ≤ d.width (d.lineAt offset) →
          column ≤ d'.width (d.lineAt offset) ∧
            d'.lineStart (d.lineAt offset) = d.lineStart (d.lineAt offset) := by
  obtain ⟨inside, rfl, -⟩ := insert_ok ok
  obtain ⟨before, start, line, rest, place, source, anchored, front⟩ := exists_place inside
  obtain ⟨before', new, fed, some_new, target, open_start⟩ := place.inserted text
  have source' : d.lines = before ++ [start ++ line] ++ rest := by
    rw [source]
    simp
  rw [← List.append_assoc] at target
  have new_pos := List.length_pos_iff.mpr some_new
  rw [anchored]
  refine ⟨new.length - 1, withText_spliced formed source' target fed rfl (by omega) (.inl rfl), ?_⟩
  intro column before_offset fits
  rw [lineStart_of_lines source] at before_offset ⊢
  have some_start : start ≠ [] := by
    rw [← List.length_pos_iff]
    omega
  obtain ⟨rfl, behind⟩ := open_start some_start
  obtain ⟨head, more, rfl⟩ := List.exists_cons_of_ne_nil some_new
  have target' := target.trans (List.append_assoc _ _ _)
  have content : d.content before'.length = Text.lineContent (start ++ d.text.drop offset) := by
    rw [content_of_lines source]
    exact Text.lineContent_head place.one
  have content' := content_of_lines
    (d := d.withText (d.text.take offset ++ text ++ d.text.drop offset) before'.length) target'
  rw [width_eq_length, content] at fits
  refine ⟨?_, lineStart_of_lines target'⟩
  rw [width_eq_length, content', Text.lineContent_head behind]
  exact Text.le_lineContent (by omega) fits

/-- A deletion takes a pair apart: it starts inside of it and leaves the carriage return without a
    line feed. -/
def PartsPair (d : Document) (start stop : Nat) : Prop :=
  Text.Straddled (d.text.take start) (d.text.drop start) ∧
    ¬Text.Straddled (d.text.take start) (d.text.drop stop)

/-- A deletion puts a pair together: it starts behind a carriage return that ends its line alone and
    stops in front of a line feed. -/
def MakesPair (d : Document) (start stop : Nat) : Prop :=
  ¬Text.Straddled (d.text.take start) (d.text.drop start) ∧
    Text.Straddled (d.text.take start) (d.text.drop stop)

instance (d : Document) (start stop : Nat) : Decidable (d.PartsPair start stop) :=
  inferInstanceAs (Decidable (_ ∧ ¬_))

instance (d : Document) (start stop : Nat) : Decidable (d.MakesPair start stop) :=
  inferInstanceAs (Decidable (¬_ ∧ _))

/-- A stretch of a text: it goes from behind `front` on the line `front ++ line` to behind `front'`
    on the line `front' ++ line'`, and `between` are the lines from the one up to the other. -/
structure Stretch (d : Document) (start stop : Nat) (before between : List (List Char))
    (front line : List Char) (rest : List (List Char)) (front' line' : List Char)
    (rest' : List (List Char)) : Prop where
  first : Text.Place (d.text.take start) (d.text.drop start) before front line rest
  last : Text.Place (d.text.take stop) (d.text.drop stop) (before ++ between) front' line' rest'
  lines : d.lines = before ++ (between ++ [front' ++ line']) ++ rest'
  tail : (front ++ line) :: rest = between ++ (front' ++ line') :: rest'
  lineAt_start : d.lineAt start = before.length
  lineAt_stop : d.lineAt stop = before.length + between.length
  offset : (before ++ between).flatten.length + front'.length = stop

theorem exists_stretch {d : Document} {start stop : Nat} (ordered : start ≤ stop)
    (inside : stop ≤ d.length) : ∃ before between front line rest front' line' rest',
      Stretch d start stop before between front line rest front' line' rest' := by
  obtain ⟨before, front, line, rest, first, source, lineAt_start, -⟩ :=
    exists_place (Nat.le_trans ordered inside)
  obtain ⟨before', front', line', rest', last, source', lineAt_stop, offset⟩ := exists_place inside
  have lines_ordered : d.lineAt start ≤ d.lineAt stop := Text.lineAt_mono _ ordered
  obtain ⟨between, rfl, tail⟩ : ∃ between, before' = before ++ between ∧
      (front ++ line) :: rest = between ++ (front' ++ line') :: rest' := by
    rcases List.append_eq_append_iff.mp (source.symm.trans source') with
      ⟨between, split, tail⟩ | ⟨between, split, tail⟩
    · exact ⟨between, split, tail⟩
    · have length := congrArg List.length split
      rw [List.length_append] at length
      obtain rfl : between = [] := List.length_eq_zero_iff.mp (by omega)
      exact ⟨[], by simpa using split.symm, by simpa using tail.symm⟩
  rw [List.length_append] at lineAt_stop
  exact ⟨before, between, front, line, rest, front', line', rest', first, last, by simp [source'],
    tail, lineAt_start, lineAt_stop, offset⟩

namespace Stretch

variable {d : Document} {start stop : Nat} {before between rest rest' : List (List Char)}
  {front line front' line' : List Char}

theorem deleted (h : Stretch d start stop before between front line rest front' line' rest')
    (formed : d.WellFormed) (not_parted : ¬d.PartsPair start stop)
    (not_made : ¬d.MakesPair start stop) :
    Spliced d (d.withText (d.text.take start ++ d.text.drop stop) (d.lineAt start))
      (d.lineAt start) 0 (d.lineAt stop + 1) 0 := by
  have alike : Text.Straddled (d.text.take start) (d.text.drop start) ↔
      Text.Straddled (d.text.take start) (d.text.drop stop) := by
    by_cases straddled : Text.Straddled (d.text.take start) (d.text.drop start)
    · exact iff_of_true straddled (by_contra fun apart => not_parted ⟨straddled, apart⟩)
    · exact iff_of_false straddled fun together => not_made ⟨straddled, together⟩
  have target : Text.lines (d.text.take start ++ d.text.drop stop) =
      before ++ [front ++ line'] ++ rest' := by
    rw [h.first.deleted h.last.behind alike]
    simp
  have gone : (between ++ [front' ++ line']).length = 1 + between.length + 0 := by
    simp [Nat.add_comm]
  rw [h.lineAt_start, h.lineAt_stop, Nat.add_right_comm]
  exact withText_spliced formed h.lines target (.same before) gone rfl (.inr rfl)

/-- The line feed goes to the line before the anchor, so one line more vanishes than was deleted,
    and the block that goes for it is the one behind the last line. -/
theorem deleted_paired (h : Stretch d start stop before between front line rest front' line' rest')
    (formed : d.WellFormed) (made : d.MakesPair start stop) :
    Spliced d (d.withText (d.text.take start ++ d.text.drop stop) (d.lineAt start))
      (d.lineAt start) 0 (d.lineAt stop + 2) 0 := by
  obtain ⟨-, tail, before', post_eq, fed, target⟩ := h.first.deleted_paired made.1 made.2
  -- The last line of the stretch ends with the line feed; the block to go belongs to the next one.
  have behind := h.last.behind
  rw [post_eq, Text.lines_feed, List.cons.injEq] at behind
  obtain ⟨rfl, tail_lines⟩ := behind
  obtain ⟨next, after, rfl⟩ := List.exists_cons_of_ne_nil (tail_lines ▸ Text.lines_ne_nil tail)
  have source : d.lines = before ++ (between ++ [front' ++ ['\n'], next]) ++ after := by
    rw [h.lines]
    simp
  rw [tail_lines] at target
  have target' : Text.lines (d.text.take start ++ d.text.drop stop) =
      before' ++ [next] ++ after := by
    rw [target]
    simp
  have gone : (between ++ [front' ++ ['\n'], next]).length = 1 + (between.length + 1) + 0 := by
    rw [List.length_append, List.length_cons, List.length_singleton]
    omega
  have kept : before.length + between.length + 2 = before.length + 1 + (between.length + 1) := by
    omega
  rw [h.lineAt_start, h.lineAt_stop, kept]
  exact withText_spliced formed source target' fed gone rfl (.inr rfl)

/-- A stretch that starts inside a pair and takes the line feed ends on another line. -/
theorem between_ne_nil (h : Stretch d start stop before between front line rest front' line' rest')
    (ordered : start ≤ stop) (parted : d.PartsPair start stop) : between ≠ [] := by
  rintro rfl
  -- On one line, the same lines would follow the line feed and the end of the stretch.
  obtain ⟨-, rest_eq⟩ := List.cons.inj h.tail
  obtain ⟨-, tail, -, start_eq⟩ := Text.straddled_iff.mp parted.1
  have behind := h.first.behind
  rw [start_eq, Text.lines_feed, List.cons.injEq] at behind
  have later : start < stop := by
    by_contra not_later
    obtain rfl : start = stop := by omega
    exact parted.2 parted.1
  have stop_eq : d.text.drop stop = tail.drop (stop - start - 1) := by
    have index : stop = start + (stop - start - 1 + 1) := by omega
    rw [index, ← List.drop_drop, start_eq, List.drop_succ_cons]
    congr 1
    omega
  obtain ⟨heads, last, lines_eq, -⟩ :=
    Text.lines_append_left (tail.take (stop - start - 1)) h.last.behind
  rw [stop_eq, List.take_append_drop, behind.2, rest_eq] at lines_eq
  have length := congrArg List.length lines_eq
  simp only [List.length_append, List.length_cons] at length
  omega

theorem deleted_parted (h : Stretch d start stop before between front line rest front' line' rest')
    (formed : d.WellFormed) (ordered : start ≤ stop) (parted : d.PartsPair start stop) :
    Spliced d (d.withText (d.text.take start ++ d.text.drop stop) (d.lineAt start))
      (d.lineAt start) 0 (d.lineAt stop) 1 := by
  have some_between := List.length_pos_iff.mpr (h.between_ne_nil ordered parted)
  have target : Text.lines (d.text.take start ++ d.text.drop stop) =
      before ++ [front, line'] ++ rest' := by
    rw [h.first.deleted_parted parted.1 parted.2, h.last.behind]
    simp
  have gone : (between ++ [front' ++ line']).length = 1 + (between.length - 1) + 1 := by
    rw [List.length_append, List.length_singleton]
    omega
  have kept : before.length + between.length = before.length + 1 + (between.length - 1) := by omega
  rw [h.lineAt_start, h.lineAt_stop, kept]
  exact withText_spliced formed h.lines target (.same before) gone rfl (.inr rfl)

/-- The line a parted pair leaves behind is what follows the deleted stretch on its last line. -/
theorem width_parted (h : Stretch d start stop before between front line rest front' line' rest')
    (parted : d.PartsPair start stop) :
    (d.withText (d.text.take start ++ d.text.drop stop) (d.lineAt start)).width
      (d.lineAt start + 1) + stop = d.lineStart (d.lineAt stop) + d.width (d.lineAt stop) := by
  have target : Text.lines (d.text.take start ++ d.text.drop stop) =
      (before ++ [front]) ++ line' :: rest' := by
    rw [h.first.deleted_parted parted.1 parted.2, h.last.behind]
    simp
  have source : d.lines = (before ++ between) ++ (front' ++ line') :: rest' := by
    rw [h.lines]
    simp
  have apart : ¬Text.Straddled front' (d.text.drop stop) := fun straddled =>
    parted.2 ⟨parted.1.1, straddled.2⟩
  have plain : Text.lineContent front' = front' :=
    Text.lineContent_open (Text.lines_start h.last.one h.last.behind apart)
  have content : Text.lineContent (front' ++ line') = front' ++ Text.lineContent line' :=
    Text.lineContent_plain (plain ▸ Text.plain_lineContent front') line'
  have width : (d.withText (d.text.take start ++ d.text.drop stop) before.length).width
      (before ++ [front]).length = (Text.lineContent line').length := by
    rw [width_eq_length]
    exact congrArg List.length (content_of_lines target)
  have index : before.length + 1 = (before ++ [front]).length := by simp
  rw [h.lineAt_start, h.lineAt_stop, index, width, ← List.length_append, lineStart_of_lines source,
    width_eq_length, content_of_lines source, content, List.length_append]
  have := h.offset
  omega

end Stretch

/-- A text taken out anywhere. Where it puts a pair together, the block behind the last line goes
    too; where it takes one apart, the block of the last line stays and loses the front of its
    text. -/
theorem delete_spliced {d d' : Document} {start stop : Nat} {c : Change} (formed : d.WellFormed)
    (ok : d.delete start stop = .ok (d', c)) :
    (¬d.PartsPair start stop → ¬d.MakesPair start stop →
      Spliced d d' (d.lineAt start) 0 (d.lineAt stop + 1) 0) ∧
    (d.MakesPair start stop → Spliced d d' (d.lineAt start) 0 (d.lineAt stop + 2) 0) ∧
    (d.PartsPair start stop → Spliced d d' (d.lineAt start) 0 (d.lineAt stop) 1 ∧
      d'.width (d.lineAt start + 1) + stop =
        d.lineStart (d.lineAt stop) + d.width (d.lineAt stop)) := by
  obtain ⟨ordered, inside, rfl, -⟩ := delete_ok ok
  obtain ⟨_, _, _, _, _, _, _, _, stretch⟩ := exists_stretch ordered inside
  exact ⟨stretch.deleted formed, stretch.deleted_paired formed, fun parted =>
    ⟨stretch.deleted_parted formed ordered parted, stretch.width_parted parted⟩⟩

end Highlight.Document
