import Highlight.Report
import Highlight.Proofs.Document.Frame
import Highlight.Proofs.Worker.Spans

/-! # Styles stay inside their lines

Edits take the styles off the block on their line and leave those of all other blocks alone, so it
matters that no other line gets shorter. One kind of edit breaks this: a deletion that starts inside
a pair of carriage return and line feed and takes the line feed, because the block of the line that
it ends on stays. Every other call keeps all styles inside of their lines.
-/

namespace Highlight

open Document

namespace Document

theorem mem_blockSpans {d : Document} {line : Nat} {s : Span} :
    s ∈ d.blockSpans line ↔ ∃ b, d.blocks[line]? = some b ∧ s ∈ b.spans := by
  rw [blockSpans]
  cases d.blocks[line]? <;> simp

theorem tidy_iff {d : Document} :
    d.Tidy ↔ ∀ line, ∀ s ∈ d.blockSpans line, s.Within (d.width line) := by
  simp only [Tidy, mem_blockSpans]
  exact ⟨fun tidy line s ⟨b, found, hs⟩ => tidy line b found s hs,
    fun all line b found s hs => all line s ⟨b, found, hs⟩⟩

theorem blockSpans_congr {d d' : Document} {line line' : Nat}
    (same : d'.blocks[line']? = d.blocks[line]?) : d'.blockSpans line' = d.blockSpans line := by
  rw [blockSpans, blockSpans, same]

theorem tidy_of_plain {d : Document} (plain : ∀ b ∈ d.blocks, b.spans = []) : d.Tidy := by
  intro line b found s hs
  rw [plain b (List.mem_of_getElem? found)] at hs
  cases hs

/-! ## Edits -/

/-- Behind an edit of a tidy document only the lines with another text can be untidy. -/
theorem Spliced.tidy_iff {d d' : Document} {first fresh kept changed : Nat}
    (h : Spliced d d' first fresh kept changed) (tidy : d.Tidy) :
    d'.Tidy ↔ ∀ k < changed, ∀ s ∈ d.blockSpans (kept + k),
      s.Within (d'.width (first + 1 + fresh + k)) := by
  rw [Document.tidy_iff] at tidy ⊢
  have moved {line line' : Nat} (same : Moved d d' line line') :
      ∀ s ∈ d'.blockSpans line', s.Within (d'.width line') := by
    rw [blockSpans_congr same.block, width_eq_length, same.content, ← width_eq_length]
    exact tidy line
  have bare {line : Nat} {b : Block} (found : d'.blocks[line]? = some b) (none : b.spans = []) :
      ∀ s ∈ d'.blockSpans line, s.Within (d'.width line) := by
    simp [blockSpans, found, none]
  constructor
  · intro all k _
    rw [← blockSpans_congr (h.block_back k)]
    exact all _
  · intro all line
    rcases Nat.lt_trichotomy line first with before | rfl | later
    · exact moved (h.moved_front before)
    · obtain ⟨anchor, found, -⟩ := h.blocks
      exact bare (b := { anchor with spans := [] }) (by rw [h.block_anchor, found]; rfl) rfl
    · obtain ⟨k, rfl⟩ : ∃ k, line = first + 1 + k := ⟨line - (first + 1), by omega⟩
      by_cases new : k < fresh
      · exact bare (h.block_fresh new) rfl
      · obtain ⟨k, rfl⟩ : ∃ k', k = fresh + k' := ⟨k - fresh, by omega⟩
        rw [← Nat.add_assoc]
        by_cases cut : k < changed
        · rw [blockSpans_congr (h.block_back k)]
          exact all k cut
        · exact moved (h.moved_back (by omega))

theorem Tidy.insert {d d' : Document} {offset : Nat} {text : List Char} {c : Change}
    (tidy : d.Tidy) (formed : d.WellFormed) (ok : d.insert offset text = .ok (d', c)) :
    d'.Tidy := by
  obtain ⟨_, spliced, -⟩ := insert_spliced formed ok
  exact (spliced.tidy_iff tidy).mpr (by simp)

/-- A deletion that takes a pair apart and shortens the line it ends on below a style there. -/
def Strands (d : Document) (start stop : Nat) : Prop :=
  start ≤ stop ∧ stop ≤ d.length ∧ d.PartsPair start stop ∧
    ∃ s ∈ d.blockSpans (d.lineAt stop),
      d.lineStart (d.lineAt stop) + d.width (d.lineAt stop) < stop + s.stop

theorem Tidy.delete_iff {d d' : Document} {start stop : Nat} {c : Change} (tidy : d.Tidy)
    (formed : d.WellFormed) (ok : d.delete start stop = .ok (d', c)) :
    d'.Tidy ↔ ¬d.Strands start stop := by
  obtain ⟨ordered, inside, -⟩ := delete_ok ok
  obtain ⟨normal, made, parted⟩ := delete_spliced formed ok
  by_cases parts : d.PartsPair start stop
  · obtain ⟨spliced, width⟩ := parted parts
    rw [spliced.tidy_iff tidy]
    constructor
    · rintro all ⟨-, -, -, s, hs, short⟩
      have fits := (all 0 Nat.one_pos s hs).2
      rw [Nat.add_zero] at fits
      omega
    · intro fits k one s hs
      obtain rfl : k = 0 := by omega
      refine ⟨(Document.tidy_iff.mp tidy _ s hs).1, ?_⟩
      by_contra short
      exact fits ⟨ordered, inside, parts, s, hs, by rw [Nat.add_zero] at short; omega⟩
  · refine iff_of_true ?_ fun strands => parts strands.2.2.1
    by_cases makes : d.MakesPair start stop
    · exact ((made makes).tidy_iff tidy).mpr (by simp)
    · exact ((normal parts makes).tidy_iff tidy).mpr (by simp)

/-- The content of a block starts with its line, so taking it out takes no pair apart. -/
theorem Tidy.replaceBlock {d d' : Document} {index : Nat} {text : List Char} {c : Change}
    (tidy : d.Tidy) (formed : d.WellFormed) (ok : d.replaceBlock index text = .ok (d', c)) :
    d'.Tidy := by
  obtain ⟨inside, cleared, _, _, deleted, inserted, -⟩ := replaceBlock_ok ok
  obtain ⟨_, _, _, framed⟩ := formed.exists_framed inside
  have formed' : cleared.WellFormed := (Edit.apply_step formed (e := .delete _ _) deleted).1
  have tidy' : cleared.Tidy :=
    (tidy.delete_iff formed deleted).mpr fun strands => framed.not_partsPair _ strands.2.2.1
  exact tidy'.insert formed' inserted

theorem setText_tidy (d : Document) (text : List Char) : (d.setText text).1.Tidy :=
  tidy_of_plain fun _ => Block.spans_fresh

end Document

/-! ## Calls -/

/-- A call that leaves a style behind the end of its line. -/
def Call.Strands (d : Document) : Call → Prop
  | .edit (.delete start stop) => d.Strands start stop
  | _ => False

theorem Edit.apply_tidy_iff {d d' : Document} {e : Edit} {c : Change} (tidy : d.Tidy)
    (formed : d.WellFormed) (ok : e.apply d = .ok (d', c)) :
    d'.Tidy ↔ ¬(Call.edit e).Strands d := by
  cases e with
  | insert offset text => exact iff_of_true (tidy.insert formed ok) id
  | delete start stop => exact tidy.delete_iff formed ok
  | replaceBlock index text => exact iff_of_true (tidy.replaceBlock formed ok) id
  | setText text =>
      obtain ⟨rfl, -⟩ := setText_ok ok
      exact iff_of_true (setText_tidy d text) id

theorem Call.apply_tidy_iff {d d' : Document} {call : Call} (tidy : d.Tidy) (formed : d.WellFormed)
    (ok : call.apply d = .ok d') : d'.Tidy ↔ ¬call.Strands d := by
  cases call with
  | edit e =>
      obtain ⟨c, applied⟩ := Call.apply_edit_ok ok
      exact Edit.apply_tidy_iff tidy formed applied
  | applyStyle start stop style => exact iff_of_true ((applyStyle_restyles ok).tidy tidy) id
  | clearStyles start stop => exact iff_of_true ((clearStyles_restyles ok).tidy tidy) id

theorem Call.Strands.apply_ok {d : Document} {call : Call} (h : call.Strands d) :
    ∃ d', call.apply d = .ok d' := by
  cases call with
  | edit e =>
      cases e with
      | delete start stop =>
          obtain ⟨d', c, ok⟩ := delete_of_le h.1 h.2.1
          exact ⟨d', by simp only [Call.apply, Edit.apply, ok, Except.map]⟩
      | insert offset text => exact h.elim
      | replaceBlock index text => exact h.elim
      | setText text => exact h.elim
  | applyStyle start stop style => exact h.elim
  | clearStyles start stop => exact h.elim

theorem Document.perform_tidy_iff {d : Document} (tidy : d.Tidy) (formed : d.WellFormed)
    (call : Call) : (d.perform call).Tidy ↔ ¬call.Strands d := by
  simp only [perform]
  cases applied : call.apply d with
  | error e =>
      refine iff_of_true tidy fun strands => ?_
      obtain ⟨d', ok⟩ := strands.apply_ok
      rw [applied] at ok
      cases ok
  | ok d' => exact Call.apply_tidy_iff tidy formed applied

theorem Document.performAll_tidy {d : Document} (tidy : d.Tidy) (formed : d.WellFormed)
    {calls : List Call} (kept : ∀ early call late, calls = early ++ call :: late →
      ¬call.Strands (d.performAll early)) : (d.performAll calls).Tidy := by
  induction calls generalizing d with
  | nil => exact tidy
  | cons call calls ih =>
      have tidy' := (perform_tidy_iff tidy formed call).mpr (kept [] call calls rfl)
      refine ih tidy' (perform_step formed call).1 fun early later late split => ?_
      exact kept (call :: early) later late (by rw [split, List.cons_append])

theorem Origin.tidy (origin : Origin) (id : DocumentId) : (origin.document id).Tidy := by
  cases origin with
  | new geometry => exact tidy_of_plain fun _ => Block.spans_fresh
  | ofText text geometry => exact setText_tidy _ text

/-! ## Styled stretches of the text -/

namespace Document

theorem mem_rangesFrom {start : Nat} {blocks : List Block} {lines : List (List Char)}
    {r : StyledRange} (member : r ∈ rangesFrom start blocks lines) :
    ∃ (i : Nat) (b : Block), blocks[i]? = some b ∧ ∃ s ∈ b.spans,
      r.start = start + Text.lineStart lines i + s.start ∧
        r.stop = start + Text.lineStart lines i + s.stop := by
  fun_induction rangesFrom start blocks lines with
  | case1 start block blocks line lines ih =>
      rcases List.mem_append.mp member with here | later
      · obtain ⟨s, hs, rfl⟩ := List.mem_map.mp here
        exact ⟨0, block, rfl, s, hs, rfl, rfl⟩
      · obtain ⟨i, b, found, s, hs, first, last⟩ := ih later
        refine ⟨i + 1, b, found, s, hs, ?_, ?_⟩
        · rw [first, Text.lineStart, ← Nat.add_assoc]
        · rw [last, Text.lineStart, ← Nat.add_assoc]
  | case2 => cases member

/-- The styled stretches of a tidy document lie in its text, each on one line. -/
theorem Tidy.styledRanges {d : Document} (tidy : d.Tidy) (formed : d.WellFormed) {r : StyledRange}
    (member : r ∈ d.styledRanges) : r.start < r.stop ∧ r.stop ≤ d.length ∧
      ∀ c ∈ (d.text.drop r.start).take (r.stop - r.start), Text.isBreak c = false := by
  obtain ⟨i, b, found, s, hs, first, last⟩ :=
    mem_rangesFrom ((List.mergeSort_perm _ _).mem_iff.mp member)
  obtain ⟨ordered, fits⟩ := tidy i b found s hs
  obtain ⟨before, brk, rest, framed⟩ :=
    formed.exists_framed (List.getElem?_eq_some_iff.mp found).1
  have start : Text.lineStart d.lines i = before.flatten.length := framed.lineStart_eq
  have stop_le := framed.stop_le
  rw [framed.lineStart_eq] at stop_le
  rw [Nat.zero_add, start] at first last
  refine ⟨by omega, by omega, ?_⟩
  rw [width_eq_length] at fits
  have slice : (d.text.drop r.start).take (r.stop - r.start) =
      ((d.content i).drop s.start).take (s.stop - s.start) := by
    have length : r.stop - r.start = s.stop - s.start := by omega
    rw [length, first, ← List.drop_drop, framed.text_eq, List.drop_left,
      List.drop_append_of_le_length (by omega),
      List.take_append_of_le_length (by rw [List.length_drop]; omega)]
  rw [slice]
  intro c hc
  exact Text.plain_lineContent _ c (List.mem_of_mem_drop (List.mem_of_mem_take hc))

end Document

/-- As long as no deletion strands a style, every style lies inside its line, every styled stretch
    of the text in the text and on one line, and reports show each of them in full. A call on a
    document whose styles lie inside their lines keeps them so exactly if it strands none. -/
theorem spans_stay_inside_lines (origin : Origin) (id : DocumentId) (calls : List Call) :
    let d := (origin.document id).performAll calls
    ((∀ early call late, calls = early ++ call :: late →
        ¬call.Strands ((origin.document id).performAll early)) →
      d.Tidy ∧
      (∀ r ∈ d.styledRanges, r.start < r.stop ∧ r.stop ≤ d.length ∧
        ∀ c ∈ (d.text.drop r.start).take (r.stop - r.start), Text.isBreak c = false) ∧
      ∀ language, ∀ s ∈ (Report.ofDocument language d).spans, s.start + s.text.length = s.stop) ∧
    (d.Tidy → ∀ call, (d.perform call).Tidy ↔ ¬call.Strands d) := by
  intro d
  have formed : d.WellFormed := (performAll_run (origin.wellFormed id) calls).1
  refine ⟨fun kept => ?_, fun tidy call => perform_tidy_iff tidy formed call⟩
  have tidy : d.Tidy := performAll_tidy (origin.tidy id) (origin.wellFormed id) kept
  refine ⟨tidy, fun r member => tidy.styledRanges formed member, fun language s shown => ?_⟩
  obtain ⟨r, member, rfl⟩ := List.mem_map.mp shown
  obtain ⟨ordered, inside, -⟩ := tidy.styledRanges formed member
  change r.stop ≤ d.text.length at inside
  simp only [List.length_take, List.length_drop]
  omega

/-- The line feed of a pair and the bold line behind it are deleted: the block of that line stays,
    empty and bold. -/
theorem deletion_inside_pair_strands_style :
    let d := ((Origin.ofText ['a', '\r', '\n', 'b', 'c'] {}).document 0).performAll
      [.applyStyle ⟨0, 2, 0⟩ ⟨0, 2, 2⟩ (.weight 700)]
    d.Tidy ∧ ¬(d.perform (.edit (.delete 2 5))).Tidy := by
  intro d
  obtain ⟨kept, step⟩ := spans_stay_inside_lines (.ofText ['a', '\r', '\n', 'b', 'c'] {}) 0
    [.applyStyle ⟨0, 2, 0⟩ ⟨0, 2, 2⟩ (.weight 700)]
  have tidy : d.Tidy := by
    refine (kept fun early call late split => ?_).1
    rcases List.singleton_eq_append_iff.mp split with ⟨-, one⟩ | ⟨-, none⟩
    · obtain ⟨rfl, -⟩ := List.cons.inj one
      exact id
    · cases none
  refine ⟨tidy, (step tidy _).not.mpr (not_not.mpr ?_)⟩
  exact ⟨by decide, by decide, by decide, ⟨0, 2, .weight 700⟩, by decide, by decide⟩

end Highlight
