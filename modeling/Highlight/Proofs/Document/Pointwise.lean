import Highlight.Proofs.Bracket.Order
import Highlight.Proofs.Document.Replacement

/-! # Styles point by point

Spans are cut, trimmed and dropped when styles change, but what counts is which styles a column
carries. Seen that way, applying a style changes one thing: the columns in the range have it in the
place of the style of its kind. No column ever carries two styles of one kind, because spans of one
kind never overlap, whatever is done to a document.
-/

namespace Highlight

namespace Style

/-- Styles with one more in the place of those of its kind. -/
def replaceKind (style : Style) (styles : List Style) : List Style :=
  styles.filter (!·.sameKind style) ++ [style]

theorem sameKind_of_common {a b kind : Style} (ha : a.sameKind kind = true)
    (hb : b.sameKind kind = true) : a.sameKind b = true := by
  cases a <;> cases b <;> cases kind <;> simp_all [sameKind]

theorem find?_replaceKind (style : Style) (styles : List Style) :
    (style.replaceKind styles).find? (·.sameKind style) = some style := by
  have self : style.sameKind style = true := by cases style <;> rfl
  have gone : (styles.filter (!·.sameKind style)).find? (·.sameKind style) = none := by simp
  rw [replaceKind, List.find?_append, gone]
  simp [self]

theorem find?_replaceKind_other {style other : Style} (different : other.sameKind style = false)
    (styles : List Style) :
    (style.replaceKind styles).find? (·.sameKind other) = styles.find? (·.sameKind other) := by
  have apart (s : Style) : (!s.sameKind style && s.sameKind other) = s.sameKind other := by
    cases s <;> cases style <;> cases other <;> simp_all [sameKind]
  have new : style.sameKind other = false := by
    cases style <;> cases other <;> simp_all [sameKind]
  rw [replaceKind, List.find?_append, List.find?_filter]
  simp [apart, new]

end Style

namespace Span

/-- Two spans share no column, unless their styles are of different kinds. -/
def Exclusive (a b : Span) : Prop :=
  a.style.sameKind b.style = true → a.stop ≤ b.start ∨ b.stop ≤ a.start

/-- The styles that a column carries, in the order of their spans. -/
def stylesOver (spans : List Span) (column : Nat) : List Style :=
  (spans.filter fun s => s.start ≤ column && column < s.stop).map (·.style)

/-! ## What a column carries -/

theorem stylesOver_append (first second : List Span) (column : Nat) :
    stylesOver (first ++ second) column = stylesOver first column ++ stylesOver second column := by
  simp [stylesOver]

theorem stylesOver_cons (s : Span) (spans : List Span) (column : Nat) :
    stylesOver (s :: spans) column = stylesOver [s] column ++ stylesOver spans column :=
  stylesOver_append [s] spans column

theorem stylesOver_single (s : Span) (column : Nat) :
    stylesOver [s] column = if s.start ≤ column ∧ column < s.stop then [s.style] else [] := by
  by_cases covers : s.start ≤ column ∧ column < s.stop <;> simp [stylesOver, covers]

theorem stylesOver_without {first last : Nat} (ordered : first < last) (s : Span) (column : Nat) :
    stylesOver (s.without first last) column =
      if first ≤ column ∧ column < last then [] else stylesOver [s] column := by
  grind [without, stylesOver]

theorem stylesOver_carve {first last : Nat} (ordered : first < last) (affects : Style → Bool)
    (spans : List Span) (column : Nat) :
    stylesOver (carve first last affects spans) column =
      if first ≤ column ∧ column < last then (stylesOver spans column).filter (!affects ·)
      else stylesOver spans column := by
  have one (s : Span) : stylesOver (if affects s.style then s.without first last else [s]) column =
      if first ≤ column ∧ column < last then (stylesOver [s] column).filter (!affects ·)
      else stylesOver [s] column := by
    cases hit : affects s.style with
    | true => grind [stylesOver_without, stylesOver_single]
    | false => grind [stylesOver_single]
  induction spans with
  | nil => simp [carve, stylesOver]
  | cons s spans ih =>
      rw [carve, List.flatMap_cons, stylesOver_append, one, ← carve, ih,
        stylesOver_cons s spans]
      split
      · rw [List.filter_append]
      · rfl

theorem stylesOver_paint {first last : Nat} (ordered : first < last) (style : Style)
    (spans : List Span) (column : Nat) :
    stylesOver (paint style first last spans) column =
      if first ≤ column ∧ column < last then style.replaceKind (stylesOver spans column)
      else stylesOver spans column := by
  rw [paint, stylesOver_append, stylesOver_carve ordered, stylesOver_single]
  split <;> simp [Style.replaceKind]

theorem stylesOver_clear {first last : Nat} (ordered : first < last) (spans : List Span)
    (column : Nat) :
    stylesOver (clear first last spans) column =
      if first ≤ column ∧ column < last then [] else stylesOver spans column := by
  rw [clear, stylesOver_carve ordered]
  simp

/-! ## Spans of one kind -/

/-- What is left of a span lies in it, outside of the columns taken out if it is affected. -/
theorem mem_part (affects : Style → Bool) {first last : Nat} {s part : Span}
    (left : part ∈ if affects s.style then s.without first last else [s]) :
    part.style = s.style ∧ s.start ≤ part.start ∧ part.stop ≤ s.stop ∧
      (affects part.style = true → part.stop ≤ first ∨ last ≤ part.start) := by
  grind [without]

theorem carve_exclusive {first last : Nat} (ordered : first < last) (affects : Style → Bool)
    {spans : List Span} (h : spans.Pairwise Exclusive) :
    (carve first last affects spans).Pairwise Exclusive := by
  refine List.pairwise_flatMap.mpr ⟨fun s _ => ?_, h.imp fun apart part hp part' hp' same => ?_⟩
  · -- The ends that can be left of one span stand on both sides of the columns taken out.
    grind [without, Exclusive]
  · obtain ⟨style, start, stop, -⟩ := mem_part affects hp
    obtain ⟨style', start', stop', -⟩ := mem_part affects hp'
    rw [style, style'] at same
    have := apart same
    omega

theorem paint_exclusive {first last : Nat} (ordered : first < last) (style : Style)
    {spans : List Span} (h : spans.Pairwise Exclusive) :
    (paint style first last spans).Pairwise Exclusive := by
  refine List.pairwise_append.mpr
    ⟨carve_exclusive ordered _ h, List.pairwise_singleton _ _, fun part hp new hn same => ?_⟩
  obtain ⟨s, -, left⟩ := List.mem_flatMap.mp hp
  rw [List.mem_singleton.mp hn] at same ⊢
  exact (mem_part (·.sameKind style) left).2.2.2 same

/-- Where spans of one kind share no column, a column carries at most one style of a kind. -/
theorem length_filter_stylesOver {spans : List Span} (h : spans.Pairwise Exclusive) (column : Nat)
    (kind : Style) : ((stylesOver spans column).filter (·.sameKind kind)).length ≤ 1 := by
  induction spans with
  | nil => simp [stylesOver]
  | cons s spans ih =>
      obtain ⟨first, rest⟩ := List.pairwise_cons.mp h
      rw [stylesOver_cons, List.filter_append, List.length_append]
      by_cases hit : (s.start ≤ column ∧ column < s.stop) ∧ s.style.sameKind kind = true
      · have others : (stylesOver spans column).filter (·.sameKind kind) = [] := by
          rw [List.filter_eq_nil_iff]
          intro style member same
          obtain ⟨s', held, rfl⟩ := List.mem_map.mp member
          obtain ⟨member', covers⟩ := List.mem_filter.mp held
          have := first s' member' (Style.sameKind_of_common hit.2 same)
          simp only [Bool.and_eq_true, decide_eq_true_eq] at covers
          omega
        rw [others, stylesOver_single]
        grind
      · have none : (stylesOver [s] column).filter (·.sameKind kind) = [] := by
          grind [stylesOver_single]
        rw [none]
        simpa using ih rest

end Span

/-! ## Runs -/

namespace Document

/-- In no block do two spans of one kind share a column. -/
def Exclusive (d : Document) : Prop :=
  ∀ b ∈ d.blocks, b.spans.Pairwise Span.Exclusive

/-- Edits make no spans: a block of the edited document has none, or it was there before. -/
theorem mem_blocks_withText {d : Document} {text : List Char} {anchor : Nat} {b : Block}
    (member : b ∈ (d.withText text anchor).blocks) : b.spans = [] ∨ b ∈ d.blocks := by
  obtain ⟨i, found⟩ := List.mem_iff_getElem?.mp member
  simp only [withText, List.getElem?_modify] at found
  obtain ⟨source, there, rfl⟩ := Option.map_eq_some_iff.mp found
  split
  · exact .inl rfl
  · have aligned := List.mem_of_getElem? there
    by_cases grows : d.blocks.length < (Text.lines text).length
    · rw [alignBlocks_of_lt grows, List.mem_append, List.mem_append] at aligned
      rcases aligned with (front | fresh) | back
      · exact .inr (List.mem_of_mem_take front)
      · exact .inl (Block.spans_fresh fresh)
      · exact .inr (List.mem_of_mem_drop back)
    · exact .inr ((alignBlocks_sublist (Nat.not_lt.mp grows)).subset aligned)

theorem Exclusive.withText {d : Document} (h : d.Exclusive) (text : List Char) (anchor : Nat) :
    (d.withText text anchor).Exclusive := by
  intro b member
  rcases mem_blocks_withText member with bare | old
  · exact bare ▸ .nil
  · exact h b old

theorem setText_exclusive (d : Document) (text : List Char) : (d.setText text).1.Exclusive :=
  fun _ member => Block.spans_fresh member ▸ .nil

theorem mapSpans_exclusive {d d' : Document} {start stop : Position}
    {f : Nat → Nat → List Span → List Span}
    (keeps : ∀ {left right : Nat} {spans : List Span}, left < right →
      spans.Pairwise Span.Exclusive → (f left right spans).Pairwise Span.Exclusive)
    (h : d.Exclusive) (ok : d.mapSpans start stop f = .ok d') : d'.Exclusive := by
  simp only [mapSpans] at ok
  split at ok
  · split at ok
    · cases ok
    · cases ok
      intro b member
      obtain ⟨line, inside, rfl⟩ := List.mem_mapIdx.mp member
      have before := h _ (List.getElem_mem inside)
      split
      · split
        · exact keeps (by assumption) before
        · exact before
      · exact before
  · cases ok

end Document

open Document

theorem Edit.apply_exclusive {d d' : Document} {e : Edit} {c : Change} (h : d.Exclusive)
    (ok : e.apply d = .ok (d', c)) : d'.Exclusive := by
  cases e with
  | insert offset text =>
      obtain ⟨-, rfl, -⟩ := insert_ok ok
      exact h.withText _ _
  | delete start stop =>
      obtain ⟨-, -, rfl, -⟩ := delete_ok ok
      exact h.withText _ _
  | replaceBlock index text =>
      obtain ⟨-, cleared, removed, added, deleted, inserted, -⟩ := replaceBlock_ok ok
      obtain ⟨-, -, rfl, -⟩ := delete_ok deleted
      obtain ⟨-, rfl, -⟩ := insert_ok inserted
      exact (h.withText _ _).withText _ _
  | setText text =>
      obtain ⟨rfl, -⟩ := setText_ok ok
      exact setText_exclusive d text

theorem Call.apply_exclusive {d d' : Document} {call : Call} (h : d.Exclusive)
    (ok : call.apply d = .ok d') : d'.Exclusive := by
  cases call with
  | edit e =>
      obtain ⟨c, applied⟩ := Call.apply_edit_ok ok
      exact Edit.apply_exclusive h applied
  | applyStyle start stop style =>
      exact mapSpans_exclusive (fun ordered => Span.paint_exclusive ordered style) h ok
  | clearStyles start stop =>
      exact mapSpans_exclusive (fun ordered => Span.carve_exclusive ordered _) h ok

namespace Document

theorem Exclusive.performAll {d : Document} (h : d.Exclusive) (calls : List Call) :
    (d.performAll calls).Exclusive := by
  induction calls generalizing d with
  | nil => exact h
  | cons call calls ih =>
      apply ih
      simp only [perform]
      cases applied : call.apply d with
      | error e => exact h
      | ok d' => exact Call.apply_exclusive h applied

theorem exclusive_origin (origin : Origin) (id : DocumentId) : (origin.document id).Exclusive := by
  cases origin with
  | new geometry => exact fun _ member => Block.spans_fresh member ▸ .nil
  | ofText text geometry => exact setText_exclusive _ text

/-! ## Calls -/

/-- The styles over a column of a line. -/
def stylesOver (d : Document) (line column : Nat) : List Style :=
  Span.stylesOver (d.blockSpans line) column

/-- The style of a kind over a column of a line. -/
def styleOf? (d : Document) (kind : Style) (line column : Nat) : Option Style :=
  (d.stylesOver line column).find? (·.sameKind kind)

/-- A position in a range: not before its start, and before its end. -/
def Between (d : Document) (start stop p : Position) : Prop :=
  d.compare? p start ≠ some .lt ∧ d.compare? p stop = some .lt

instance (d : Document) (start stop p : Position) : Decidable (d.Between start stop p) :=
  inferInstanceAs (Decidable (_ ∧ _))

/-- A column of a line between two places. -/
def Spanned (d : Document) (first last : Nat × Nat) (line column : Nat) : Prop :=
  (first.1 ≤ line ∧ line ≤ last.1) ∧ (d.columnsBetween first last line).1 ≤ column ∧
    column < (d.columnsBetween first last line).2

instance (d : Document) (first last : Nat × Nat) (line column : Nat) :
    Decidable (d.Spanned first last line column) :=
  inferInstanceAs (Decidable (_ ∧ _))

theorem WellFormed.between_iff {d : Document} (formed : d.WellFormed) {start stop : Position}
    {first last : Nat × Nat} (hstart : d.resolve? start = some first)
    (hstop : d.resolve? stop = some last) {line column : Nat} (inside : line < d.blocks.length)
    (fits : column < d.width line) :
    d.Between start stop (d.place line column) ↔ d.Spanned first last line column := by
  have here := formed.resolve?_place inside (Nat.le_of_lt fits)
  simp only [Between, compare?, here, hstart, hstop, ne_eq, Option.some.injEq, comparePlaces_eq_lt,
    Spanned, columnsBetween]
  grind

/-- What a change of spans does to columns, where it does the same to all columns it is made for. -/
theorem mapSpans_ok_of_resolved {d : Document} {start stop : Position} {first last : Nat × Nat}
    (hstart : d.resolve? start = some first) (hstop : d.resolve? stop = some last)
    (ordered : comparePlaces first last ≠ .gt) (f : Nat → Nat → List Span → List Span)
    (g : List Style → List Style)
    (acts : ∀ {left right : Nat}, left < right → ∀ spans column,
      Span.stylesOver (f left right spans) column =
        if left ≤ column ∧ column < right then g (Span.stylesOver spans column)
        else Span.stylesOver spans column) :
    ∃ d', d.mapSpans start stop f = .ok d' ∧ ∀ line < d.blocks.length, ∀ column,
      d'.stylesOver line column =
        if d.Spanned first last line column then g (d.stylesOver line column)
        else d.stylesOver line column := by
  simp only [mapSpans, hstart, hstop, if_neg ordered]
  refine ⟨_, rfl, fun line inside column => ?_⟩
  simp only [stylesOver, blockSpans, List.getElem?_mapIdx, List.getElem?_eq_getElem inside,
    Option.map_some, Option.getD_some, Spanned]
  by_cases row : first.1 ≤ line ∧ line ≤ last.1
  · by_cases wide : (d.columnsBetween first last line).1 < (d.columnsBetween first last line).2
    · simp only [row, wide, and_self, if_true, true_and]
      exact acts wide _ _
    · rw [if_pos row, if_neg wide, if_neg (by omega)]
  · rw [if_neg row, if_neg (by tauto)]

theorem mapSpans_stale {d : Document} {start stop : Position}
    (stale : d.isValid start = false ∨ d.isValid stop = false)
    (f : Nat → Nat → List Span → List Span) :
    d.mapSpans start stop f = .error .stalePosition := by
  simp only [isValid, Option.isSome_eq_false_iff, Option.isNone_iff_eq_none] at stale
  rw [mapSpans]
  split
  · simp_all
  · rfl

theorem mapSpans_reversed {d : Document} {start stop : Position}
    (reversed : d.compare? start stop = some .gt) (f : Nat → Nat → List Span → List Span) :
    d.mapSpans start stop f = .error .invalidRange := by
  rw [compare?] at reversed
  split at reversed
  · simp_all [mapSpans]
  · cases reversed

/-- Neither a style is applied nor are styles cleared: both calls fail and leave the document. -/
def Refuses (d : Document) (start stop : Position) (style : Style) (e : EditError) : Prop :=
  d.applyStyle start stop style = .error e ∧ d.clearStyles start stop = .error e ∧
    d.perform (.applyStyle start stop style) = d ∧ d.perform (.clearStyles start stop) = d

theorem refuses_of_mapSpans {d : Document} {start stop : Position} {e : EditError}
    (refused : ∀ f, d.mapSpans start stop f = .error e) (style : Style) :
    d.Refuses start stop style e := by
  refine ⟨refused _, refused _, ?_, ?_⟩ <;>
    simp only [perform, Call.apply, applyStyle, clearStyles, refused]

theorem mapSpans_frame {d d' : Document} {start stop : Position}
    {f : Nat → Nat → List Span → List Span} (ok : d.mapSpans start stop f = .ok d') :
    d'.text = d.text ∧ d'.ids = d.ids := by
  obtain ⟨blocks, rfl, same⟩ := mapSpans_ok ok
  exact ⟨rfl, same⟩

end Document

/-- Styles act point by point. In a document that anything has been done to, spans of one kind in a
    block share no column, so a column has at most one style of a kind. Applying or clearing styles
    is refused for a stale position and for a start behind the end, and then nothing changes.
    Otherwise the text and the blocks stay; every column in the range has the style in the place of
    the one of its kind, or no style if they are cleared; and nothing else changes. -/
theorem styles_act_pointwise (origin : Origin) (id : DocumentId) (calls : List Call) :
    let d := (origin.document id).performAll calls
    (∀ line, (d.blockSpans line).Pairwise Span.Exclusive ∧ ∀ column kind,
      ((d.stylesOver line column).filter (·.sameKind kind)).length ≤ 1) ∧
    ∀ start stop style,
      (d.isValid start = false ∨ d.isValid stop = false →
        d.Refuses start stop style .stalePosition) ∧
      (d.compare? start stop = some .gt → d.Refuses start stop style .invalidRange) ∧
      (d.isValid start = true → d.isValid stop = true → d.compare? start stop ≠ some .gt →
        ∃ painted cleared, d.applyStyle start stop style = .ok painted ∧
          d.clearStyles start stop = .ok cleared ∧
          (painted.text = d.text ∧ painted.ids = d.ids) ∧
          (cleared.text = d.text ∧ cleared.ids = d.ids) ∧
          ∀ line < d.blocks.length,
            (∀ column < d.width line, painted.styleOf? style line column =
              if d.Between start stop (d.place line column) then some style
              else d.styleOf? style line column) ∧
            (∀ column other, other.sameKind style = false →
              painted.styleOf? other line column = d.styleOf? other line column) ∧
            ∀ column < d.width line, cleared.stylesOver line column =
              if d.Between start stop (d.place line column) then []
              else d.stylesOver line column) := by
  intro d
  have formed : d.WellFormed := (performAll_run (origin.wellFormed id) calls).1
  have exclusive : d.Exclusive := (exclusive_origin origin id).performAll calls
  refine ⟨fun line => ?_, fun start stop style => ⟨?_, ?_, ?_⟩⟩
  · have apart : (d.blockSpans line).Pairwise Span.Exclusive := by
      rw [blockSpans]
      cases found : d.blocks[line]? with
      | none => exact .nil
      | some b => exact exclusive b (List.mem_of_getElem? found)
    exact ⟨apart, fun column kind => Span.length_filter_stylesOver apart column kind⟩
  · exact fun stale => refuses_of_mapSpans (mapSpans_stale stale) style
  · exact fun reversed => refuses_of_mapSpans (mapSpans_reversed reversed) style
  · intro start_valid stop_valid ordered
    obtain ⟨first, hstart⟩ := Option.isSome_iff_exists.mp start_valid
    obtain ⟨last, hstop⟩ := Option.isSome_iff_exists.mp stop_valid
    have order : comparePlaces first last ≠ .gt := by
      simpa only [compare?, hstart, hstop, ne_eq, Option.some.injEq] using ordered
    obtain ⟨painted, applied, paints⟩ := mapSpans_ok_of_resolved hstart hstop order
      (Span.paint style) style.replaceKind fun wide => Span.stylesOver_paint wide style
    obtain ⟨cleared, clears, bare⟩ := mapSpans_ok_of_resolved hstart hstop order
      Span.clear (fun _ => []) fun wide => Span.stylesOver_clear wide
    refine ⟨painted, cleared, applied, clears, mapSpans_frame applied, mapSpans_frame clears,
      fun line inside => ⟨fun column fits => ?_, fun column other different => ?_,
        fun column fits => ?_⟩⟩
    · simp only [styleOf?, paints line inside column, formed.between_iff hstart hstop inside fits]
      split
      · exact Style.find?_replaceKind style _
      · rfl
    · simp only [styleOf?, paints line inside column]
      split
      · exact Style.find?_replaceKind_other different _
      · rfl
    · simp only [bare line inside column, formed.between_iff hstart hstop inside fits]

end Highlight
