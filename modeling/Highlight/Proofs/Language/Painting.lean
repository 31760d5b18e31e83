import Highlight.Worker.Keyword
import Highlight.Proofs.Document.Blocks

/-! # Styling as painting

Styling the matches of a language paints spans over lines, one after the other. Painting treats
every line on its own: what a line ends up with depends only on its own tokens, however many lines
are styled in one go. `Language.lineSpans` is what one line gets.
-/

namespace Highlight

/-- A span to be painted on the line of an index. -/
abbrev Paint := Nat × Span

/-- A token on the line of an index. -/
abbrev Located := Nat × Token

namespace Span

/-- Paint several spans, one over the other. -/
def paintAll (spans paints : List Span) : List Span :=
  paints.foldl (fun spans p => paint p.style p.start p.stop spans) spans

end Span

/-- What is meant for one line. -/
def onLine {α : Type} (line : Nat) (items : List (Nat × α)) : List α :=
  items.filterMap fun item => if item.1 = line then some item.2 else none

theorem onLine_append {α : Type} (line : Nat) (first second : List (Nat × α)) :
    onLine line (first ++ second) = onLine line first ++ onLine line second :=
  List.filterMap_append

theorem onLine_flatMap {α β : Type} (line : Nat) (items : List α) (f : α → List (Nat × β)) :
    onLine line (items.flatMap f) = items.flatMap fun item => onLine line (f item) :=
  List.filterMap_flatMap

theorem onLine_map_pair {α : Type} (line at_line : Nat) (items : List α) :
    onLine line (items.map (at_line, ·)) = if at_line = line then items else [] := by
  by_cases here : at_line = line <;> simp [onLine, List.filterMap_map, here]

/-- One style over a token. -/
def Located.paint (t : Located) (style : Style) : Paint :=
  (t.1, ⟨t.2.start, t.2.stop, style⟩)

namespace Document

def paintAll (d : Document) (paints : List Paint) : Document :=
  { d with blocks := d.blocks.mapIdx fun line b =>
      { b with spans := Span.paintAll b.spans (onLine line paints) } }

@[simp] theorem paintAll_nil (d : Document) : d.paintAll [] = d := by
  have unchanged : (d.blocks.mapIdx fun line b =>
      { b with spans := Span.paintAll b.spans (onLine line []) }) = d.blocks := by
    apply List.ext_getElem?
    intro line
    rw [List.getElem?_mapIdx]
    cases d.blocks[line]? <;> rfl
  simp only [paintAll, unchanged]

theorem paintAll_append (d : Document) (first second : List Paint) :
    d.paintAll (first ++ second) = (d.paintAll first).paintAll second := by
  have joined : ∀ line (b : Block),
      Span.paintAll b.spans (onLine line (first ++ second)) =
        Span.paintAll (Span.paintAll b.spans (onLine line first))
          (onLine line second) := by
    intro line b
    rw [onLine_append, Span.paintAll, List.foldl_append]
    rfl
  simp only [paintAll, List.mapIdx_mapIdx, Function.comp_def, joined]

@[simp] theorem ids_paintAll (d : Document) (paints : List Paint) :
    (d.paintAll paints).ids = d.ids := by
  apply List.ext_getElem?
  intro line
  simp only [ids, paintAll, List.getElem?_map, List.getElem?_mapIdx]
  cases d.blocks[line]? <;> rfl

@[simp] theorem place_paintAll (d : Document) (paints : List Paint) (line column : Nat) :
    (d.paintAll paints).place line column = d.place line column := by
  simp only [place, blockId?_eq, ids_paintAll]
  rfl

theorem WellFormed.paintAll {d : Document} (h : d.WellFormed) (paints : List Paint) :
    (d.paintAll paints).WellFormed :=
  h.withBlocks (ids_paintAll d paints)

/-- A token that its line has room for. -/
structure Fits (d : Document) (t : Located) : Prop where
  line : t.1 < d.blocks.length
  ordered : t.2.start < t.2.stop
  width : t.2.stop ≤ d.width t.1

theorem Fits.paintAll {d : Document} {t : Located} (h : d.Fits t) (paints : List Paint) :
    (d.paintAll paints).Fits t := by
  refine ⟨?_, h.ordered, h.width⟩
  rw [← length_ids, ids_paintAll, length_ids]
  exact h.line

/-- The match of a token in the document. -/
def matchOf (d : Document) (t : Located) : Match :=
  ⟨d.place t.1 t.2.start, d.place t.1 t.2.stop, t.2.text⟩

@[simp] theorem matchOf_paintAll (d : Document) (paints : List Paint) (t : Located) :
    (d.paintAll paints).matchOf t = d.matchOf t := by
  simp only [matchOf, place_paintAll]

theorem applyStyle_matchOf {d : Document} (h : d.WellFormed) {t : Located} (fits : d.Fits t)
    (style : Style) :
    d.applyStyle (d.matchOf t).start (d.matchOf t).stop style =
      .ok (d.paintAll [t.paint style]) := by
  have start := h.resolve?_place fits.line (Nat.le_trans (Nat.le_of_lt fits.ordered) fits.width)
  have stop := h.resolve?_place fits.line fits.width
  have ordered : comparePlaces (t.1, t.2.start) (t.1, t.2.stop) ≠ .gt := by
    have := Nat.compare_eq_lt.mpr fits.ordered
    simp [comparePlaces, this]
  simp only [applyStyle, mapSpans, matchOf, start, stop, if_neg ordered, paintAll]
  congr 2
  apply List.ext_getElem?
  intro line
  rw [List.getElem?_mapIdx, List.getElem?_mapIdx]
  cases d.blocks[line]? with
  | none => rfl
  | some b =>
      by_cases here : t.1 = line
      · subst here
        simp [columnsBetween, onLine, Located.paint, Span.paintAll, fits.ordered]
      · have outside : ¬(t.1 ≤ line ∧ line ≤ t.1) := by omega
        simp [outside, here, onLine, Located.paint, Span.paintAll]

/-- All styles of a group over one of its matches. -/
theorem foldl_styleMatch {d : Document} (h : d.WellFormed) {t : Located} (fits : d.Fits t)
    (styles : List Style) (written : Nat) :
    (styles.foldl (Group.styleMatch (d.matchOf t)) (d, written)).1 =
      d.paintAll (styles.map t.paint) := by
  induction styles generalizing d written with
  | nil => rw [List.map_nil, paintAll_nil, List.foldl_nil]
  | cons style styles ih =>
      have painted := ih (h.paintAll [t.paint style]) (fits.paintAll _) (written + 1)
      rw [matchOf_paintAll] at painted
      have split : d.paintAll ((style :: styles).map t.paint) =
          (d.paintAll [t.paint style]).paintAll (styles.map t.paint) :=
        paintAll_append d [t.paint style] _
      rw [split, ← painted]
      simp only [List.foldl_cons, Group.styleMatch, applyStyle_matchOf h fits]

/-- All styles of a group over all its matches. -/
theorem foldl_styleMatches {d : Document} (h : d.WellFormed) (styles : List Style)
    {tokens : List Located} (fits : ∀ t ∈ tokens, d.Fits t) (written : Nat) :
    ((tokens.map d.matchOf).foldl (fun acc m => styles.foldl (Group.styleMatch m) acc)
        (d, written)).1 = d.paintAll (tokens.flatMap fun t => styles.map t.paint) := by
  induction tokens generalizing d written with
  | nil => rw [List.flatMap_nil, paintAll_nil, List.map_nil, List.foldl_nil]
  | cons t tokens ih =>
      have first := foldl_styleMatch h (fits t List.mem_cons_self) styles written
      have rest := ih (h.paintAll (styles.map t.paint))
        (fun u hu => (fits u (List.mem_cons_of_mem t hu)).paintAll _)
        (styles.foldl (Group.styleMatch (d.matchOf t)) (d, written)).2
      have matches_eq : (d.paintAll (styles.map t.paint)).matchOf = d.matchOf :=
        funext (matchOf_paintAll d _)
      rw [matches_eq, ← first] at rest
      rw [List.flatMap_cons, paintAll_append, ← first, ← rest]
      rfl

end Document

/-! ## Which group takes a word -/

namespace Language

/-- The index of the first group that holds a word. -/
def taker? (l : Language) (word : List Char) : Option Nat :=
  l.groups.findIdx? (·.contains word)

theorem offer_eq (m : Match) (groups : List Group) :
    (offer m groups).1 = groups.mapIdx fun k g =>
      if groups.findIdx? (·.contains m.word) = some k then
        { g with pending := g.pending ++ [m] } else g := by
  induction groups with
  | nil => rfl
  | cons g groups ih =>
      rw [offer, List.findIdx?_cons]
      cases held : g.contains m.word with
      | true =>
          have unchanged : groups.mapIdx (fun _ g => g) = groups := by
            apply List.ext_getElem?
            intro i
            rw [List.getElem?_mapIdx, Option.map_id']
          simp [Group.tryPut, held, List.mapIdx_cons, unchanged]
      | false =>
          simp [ih, List.mapIdx_cons]

theorem taker?_eq (l : Language) (word : List Char) :
    l.taker? word = (l.groups.map (·.lexicon)).findIdx? (·.contains word) := by
  rw [taker?, List.findIdx?_map]
  rfl

theorem taker?_tryPut (l : Language) (m : Match) (word : List Char) :
    (l.tryPut m).1.taker? word = l.taker? word := by
  have lexicons : (l.tryPut m).1.groups.map (·.lexicon) = l.groups.map (·.lexicon) := by
    change (offer m l.groups).1.map (·.lexicon) = _
    rw [offer_eq]
    apply List.ext_getElem?
    intro i
    rw [List.getElem?_map, List.getElem?_map, List.getElem?_mapIdx]
    cases l.groups[i]? with
    | none => rfl
    | some g => simp [apply_ite Group.lexicon]
  rw [taker?_eq, taker?_eq, lexicons]

/-- Every group gets the matches whose words it takes, in the order in which they are offered. -/
theorem groups_offerAll (l : Language) (candidates : List Match) :
    (KeywordJob.offerAll l candidates).groups = l.groups.mapIdx fun k g =>
      { g with pending := g.pending ++ candidates.filter (l.taker? ·.word = some k) } := by
  induction candidates generalizing l with
  | nil =>
      apply List.ext_getElem?
      intro i
      rw [List.getElem?_mapIdx]
      simp [KeywordJob.offerAll]
  | cons m candidates ih =>
      have step : KeywordJob.offerAll l (m :: candidates) =
          KeywordJob.offerAll (l.tryPut m).1 candidates := rfl
      have groups : (l.tryPut m).1.groups = (offer m l.groups).1 := rfl
      rw [step, ih, groups, offer_eq, List.mapIdx_mapIdx]
      apply List.ext_getElem?
      intro i
      rw [List.getElem?_mapIdx, List.getElem?_mapIdx]
      cases l.groups[i]? with
      | none => rfl
      | some g =>
          have takes : l.groups.findIdx? (·.contains m.word) = l.taker? m.word := rfl
          simp only [Option.map_some, Function.comp_apply, taker?_tryPut, takes]
          by_cases taken : l.taker? m.word = some i
          · simp [taken]
          · simp [taken]

theorem offerAll_name (l : Language) (candidates : List Match) :
    KeywordJob.offerAll l candidates =
      { l with groups := (KeywordJob.offerAll l candidates).groups } := by
  induction candidates generalizing l with
  | nil => rfl
  | cons m candidates ih => exact ih (l.tryPut m).1

/-! ## What a line gets -/

/-- No match waits for its styles. -/
def Idle (l : Language) : Prop :=
  ∀ g ∈ l.groups, g.pending = []

/-- The paints for tokens, group by group. -/
def paints (l : Language) (tokens : List Located) : List Paint :=
  l.groups.zipIdx.flatMap fun (g, k) =>
    (tokens.filter fun t => l.taker? t.2.text = some k).flatMap fun t => g.styles.map t.paint

/-- The spans for the tokens of one line, group by group. -/
def spansOf (l : Language) (tokens : List Token) : List Span :=
  l.groups.zipIdx.flatMap fun (g, k) =>
    (tokens.filter fun t => l.taker? t.text = some k).flatMap fun t =>
      g.styles.map fun style => ⟨t.start, t.stop, style⟩

/-- What a line of the given content ends up with when it is styled from nothing. -/
def lineSpans (l : Language) (content : List Char) : List Span :=
  Span.paintAll [] (l.spansOf (tokenize (isSeparator (some l)) content))

theorem onLine_styles (line : Nat) (styles : List Style) (takes : List Char → Bool)
    (tokens : List Located) :
    onLine line ((tokens.filter fun t => takes t.2.text).flatMap fun t => styles.map t.paint) =
      ((onLine line tokens).filter fun t => takes t.text).flatMap fun t =>
        styles.map fun style => ⟨t.start, t.stop, style⟩ := by
  induction tokens with
  | nil => rfl
  | cons t tokens ih =>
      have paints_eq : styles.map t.paint =
          (styles.map fun style => (⟨t.2.start, t.2.stop, style⟩ : Span)).map (t.1, ·) := by
        rw [List.map_map]
        rfl
      have tokens_eq : onLine line (t :: tokens) =
          (if t.1 = line then [t.2] else []) ++ onLine line tokens := by
        by_cases here : t.1 = line <;> simp [onLine, here]
      rw [tokens_eq, List.filter_append, List.flatMap_append, ← ih, List.filter_cons]
      cases taken : takes t.2.text with
      | true =>
          rw [if_pos rfl, List.flatMap_cons, onLine_append, paints_eq, onLine_map_pair]
          by_cases here : t.1 = line <;> simp [here, taken]
      | false => by_cases here : t.1 = line <;> simp [here, taken]

theorem onLine_paints (l : Language) (line : Nat) (tokens : List Located) :
    onLine line (l.paints tokens) = l.spansOf (onLine line tokens) := by
  rw [paints, spansOf, onLine_flatMap]
  congr 1
  funext ⟨g, k⟩
  exact onLine_styles line g.styles (fun word => l.taker? word = some k) tokens

open Document in
/-- Groups with their tokens waiting are styled by painting all of them, and end up idle. -/
theorem styleGroups_eq {d : Document} (h : d.WellFormed) (groups : List (Group × List Located))
    (fits : ∀ g ∈ groups, ∀ t ∈ g.2, d.Fits t) :
    let done := styleGroups (groups.map fun g => { g.1 with pending := g.2.map d.matchOf }) d
    done.1 = (groups.map fun g => { g.1 with pending := [] }) ∧
      done.2.1 = d.paintAll (groups.flatMap fun g => g.2.flatMap fun t =>
        g.1.styles.map t.paint) := by
  induction groups generalizing d with
  | nil => exact ⟨rfl, (paintAll_nil d).symm⟩
  | cons g groups ih =>
      have first := foldl_styleMatches h g.1.styles (fits g List.mem_cons_self) 0
      have rest := ih (h.paintAll (g.2.flatMap fun t => g.1.styles.map t.paint))
        (fun g' hg t ht => (fits g' (List.mem_cons_of_mem g hg) t ht).paintAll _)
      have matches_eq : (d.paintAll (g.2.flatMap fun t => g.1.styles.map t.paint)).matchOf =
          d.matchOf := funext (matchOf_paintAll d _)
      rw [matches_eq, ← first] at rest
      refine ⟨congrArg (List.cons ({ g.1 with pending := [] } : Group)) rest.1, ?_⟩
      rw [List.flatMap_cons, paintAll_append, ← first, ← rest.2]
      rfl

theorem applyStyling_offerAll {d : Document} (h : d.WellFormed) {l : Language} (idle : l.Idle)
    {tokens : List Located} (fits : ∀ t ∈ tokens, d.Fits t) :
    let done := (KeywordJob.offerAll l (tokens.map d.matchOf)).applyStyling d
    done.1 = l ∧ done.2.1 = d.paintAll (l.paints tokens) := by
  let waiting : List (Group × List Located) := l.groups.zipIdx.map fun (g, k) =>
    (g, tokens.filter fun t => l.taker? t.2.text = some k)
  have groups : (KeywordJob.offerAll l (tokens.map d.matchOf)).groups =
      waiting.map fun g => { g.1 with pending := g.2.map d.matchOf } := by
    rw [groups_offerAll, List.mapIdx_eq_zipIdx_map, List.map_map]
    apply List.map_congr_left
    rintro ⟨g, k⟩ member
    have empty := idle g (List.fst_mem_of_mem_zipIdx member)
    simp only [Function.comp_apply, empty, List.nil_append, List.filter_map]
    rfl
  have all_fit : ∀ g ∈ waiting, ∀ t ∈ g.2, d.Fits t := by
    intro g hg t ht
    obtain ⟨⟨g', k⟩, -, rfl⟩ := List.mem_map.mp hg
    exact fits t (List.mem_of_mem_filter ht)
  have cleared : (waiting.map fun g => { g.1 with pending := [] }) = l.groups := by
    rw [List.map_map]
    conv_rhs => rw [← List.zipIdx_map_fst 0 l.groups]
    apply List.map_congr_left
    rintro ⟨g, k⟩ member
    have empty := idle g (List.fst_mem_of_mem_zipIdx member)
    simp only [Function.comp_apply, ← empty]
  have painted : (waiting.flatMap fun g => g.2.flatMap fun t => g.1.styles.map t.paint) =
      l.paints tokens := by
    rw [List.flatMap_map]
    rfl
  obtain ⟨first, second⟩ := styleGroups_eq h waiting all_fit
  rw [← groups, cleared] at first
  rw [← groups, painted] at second
  refine ⟨?_, second⟩
  rw [applyStyling, offerAll_name]
  exact congrArg (fun groups => { l with groups }) first

end Language

/-! ## Tokens and spans stay on their line -/

theorem Token.close_bounds {pending : List Char} {offset : Nat} (held : pending.length ≤ offset)
    {t : Token} (h : t ∈ close pending offset) : t.start < t.stop ∧ t.stop ≤ offset := by
  rw [close] at h
  split at h
  · simp at h
  · rename_i some_pending
    have pos := List.length_pos_iff.mpr (by simpa using some_pending)
    rw [List.mem_singleton] at h
    subst h
    exact ⟨by change offset - _ < offset; omega, Nat.le_refl _⟩

theorem Token.scan_bounds {isSeparator : Char → Bool} {offset : Nat} {pending text : List Char}
    (held : pending.length ≤ offset) {t : Token} (h : t ∈ scan isSeparator offset pending text) :
    t.start < t.stop ∧ t.stop ≤ offset + text.length := by
  induction text generalizing offset pending with
  | nil => exact close_bounds held h
  | cons c text ih =>
      rw [scan] at h
      rw [List.length_cons]
      split at h
      · rcases List.mem_append.mp h with first | rest
        · have := close_bounds held first
          omega
        · have := ih (Nat.zero_le _) rest
          omega
      · split at h
        · rcases List.mem_append.mp h with first | rest
          · have := close_bounds held first
            omega
          · rcases List.mem_cons.mp rest with rfl | rest
            · exact ⟨Nat.lt_succ_self _, by change offset + 1 ≤ _; omega⟩
            · have := ih (Nat.zero_le _) rest
              omega
        · have := ih (by rw [List.length_cons]; omega) h
          omega

theorem tokenize_bounds {isSeparator : Char → Bool} {text : List Char} {t : Token}
    (h : t ∈ tokenize isSeparator text) : t.start < t.stop ∧ t.stop ≤ text.length := by
  have := Token.scan_bounds (Nat.zero_le _) h
  omega

namespace Span

/-- The span covers columns of a line of the given width. -/
def Within (width : Nat) (s : Span) : Prop :=
  s.start < s.stop ∧ s.stop ≤ width

theorem carve_within {width first last : Nat} {affects : Style → Bool} {spans : List Span}
    (h : ∀ s ∈ spans, s.Within width) : ∀ s ∈ carve first last affects spans, s.Within width := by
  intro s hs
  obtain ⟨source, member, hs⟩ := List.mem_flatMap.mp hs
  have inside := h source member
  split at hs
  · rw [without] at hs
    split at hs
    · rw [List.mem_singleton] at hs
      exact hs ▸ inside
    · rename_i overlap
      simp only [Bool.or_eq_true, decide_eq_true_eq, not_or, Nat.not_le] at overlap
      rcases List.mem_append.mp hs with left | right
      · split at left
        · rw [List.mem_singleton] at left
          subst left
          exact ⟨by assumption, Nat.le_trans (Nat.le_of_lt overlap.1) inside.2⟩
        · simp at left
      · split at right
        · rw [List.mem_singleton] at right
          subst right
          exact ⟨by assumption, inside.2⟩
        · simp at right
  · rw [List.mem_singleton] at hs
    exact hs ▸ inside

theorem paintAll_within {width : Nat} {spans paints : List Span}
    (h : ∀ s ∈ spans, s.Within width) (hp : ∀ s ∈ paints, s.Within width) :
    ∀ s ∈ paintAll spans paints, s.Within width := by
  induction paints generalizing spans with
  | nil => exact h
  | cons p paints ih =>
      refine ih ?_ (fun s hs => hp s (List.mem_cons_of_mem p hs))
      intro s hs
      rcases List.mem_append.mp hs with carved | new
      · exact carve_within h s carved
      · rw [List.mem_singleton] at new
        exact new ▸ hp p List.mem_cons_self

/-- Clearing a whole line leaves nothing. -/
theorem clear_eq_nil {width : Nat} {spans : List Span} (h : ∀ s ∈ spans, s.Within width) :
    clear 0 width spans = [] := by
  apply List.flatMap_eq_nil_iff.mpr
  intro s hs
  obtain ⟨ordered, fits⟩ := h s hs
  have covered : ¬width < s.stop := by omega
  have overlap : s.stop ≠ 0 ∧ s.start < width := by omega
  simpa [without, covered] using overlap

end Span

theorem Language.lineSpans_within (l : Language) (content : List Char) :
    ∀ s ∈ l.lineSpans content, s.Within content.length := by
  apply Span.paintAll_within (by simp)
  intro s hs
  obtain ⟨⟨g, k⟩, -, hs⟩ := List.mem_flatMap.mp hs
  obtain ⟨t, ht, hs⟩ := List.mem_flatMap.mp hs
  obtain ⟨style, -, rfl⟩ := List.mem_map.mp hs
  exact tokenize_bounds (List.mem_of_mem_filter ht)

end Highlight
