import Highlight.Proofs.Bracket.Insertion

/-! # What a tracker knows

A bracket of a document is a delimiter character at a live position, with the kind that the
character stands for. Bringing a tracker up to date with a region leaves exactly those of its
entries that are brackets of the document, adds every bracket on the lines that the region still
reaches, and keeps the list in document order.
-/

namespace Highlight

open Document

theorem BracketPair.eq_delimiter {pair : BracketPair} {c : Char} {kind : BracketKind}
    (h : pair.kindOf? c = some kind) : c = pair.delimiter kind := by
  simp only [kindOf?] at h
  split at h
  · cases h
    assumption
  · split at h
    · cases h
      assumption
    · cases h

/-! ## The brackets of a document -/

namespace Document

/-- The brackets on the line of an index. -/
def bracketsOn (d : Document) (pair : BracketPair) (line : Nat) : List Bracket :=
  (d.content line).zipIdx.filterMap fun (c, i) =>
    (pair.kindOf? c).map fun kind => ⟨d.place line i, kind⟩

/-- All brackets, in document order. -/
def brackets (d : Document) (pair : BracketPair) : List Bracket :=
  (List.range d.blocks.length).flatMap (d.bracketsOn pair)

/-- A delimiter stands at the position of the bracket and is of its kind. -/
def Holds (d : Document) (pair : BracketPair) (b : Bracket) : Prop :=
  ∃ c, d.charAt? b.position = some c ∧ pair.kindOf? c = some b.kind

theorem charAt?_eq_some {d : Document} {p : Position} {c : Char} :
    d.charAt? p = some c ↔ ∃ line column, d.resolve? p = some (line, column) ∧
      (d.content line)[column]? = some c := by
  simp [charAt?, Option.bind_eq_some_iff]

theorem Holds.resolves {d : Document} {pair : BracketPair} {b : Bracket} (h : d.Holds pair b) :
    ∃ line column, d.resolve? b.position = some (line, column) := by
  obtain ⟨c, found, -⟩ := h
  obtain ⟨line, column, resolved, -⟩ := charAt?_eq_some.mp found
  exact ⟨line, column, resolved⟩

theorem Holds.isValid {d : Document} {pair : BracketPair} {b : Bracket} (h : d.Holds pair b) :
    d.isValid b.position = true := by
  obtain ⟨line, column, resolved⟩ := h.resolves
  rw [Document.isValid, resolved]
  rfl

theorem Holds.on_line {d : Document} {pair : BracketPair} {b : Bracket} (h : d.Holds pair b)
    (formed : d.WellFormed) :
    ∃ line < d.blocks.length, d.blockIndex? b.position.block = some line := by
  obtain ⟨line, column, resolved⟩ := h.resolves
  have index := (resolve?_eq_some.mp resolved).2.1
  exact ⟨line, formed.line_lt index, index⟩

theorem Holds.isCurrent {d : Document} {pair : BracketPair} {b : Bracket} (h : d.Holds pair b) :
    Tracker.isCurrent pair d b = true := by
  obtain ⟨c, found, kind⟩ := h
  rw [BracketPair.eq_delimiter kind] at found
  simp [Tracker.isCurrent, found]

/-- The position decides about the kind. -/
theorem Holds.eq_of_position {d : Document} {pair : BracketPair} {b b' : Bracket}
    (h : d.Holds pair b) (h' : d.Holds pair b') (same : b.position = b'.position) : b = b' := by
  obtain ⟨c, found, kind⟩ := h
  obtain ⟨c', found', kind'⟩ := h'
  rw [same, found'] at found
  obtain rfl := Option.some.inj found
  have : b.kind = b'.kind := Option.some.inj (kind.symm.trans kind')
  cases b
  cases b'
  simp_all

theorem WellFormed.mem_bracketsOn {d : Document} (h : d.WellFormed) {pair : BracketPair}
    {line : Nat} (inside : line < d.blocks.length) {b : Bracket} :
    b ∈ d.bracketsOn pair line ↔
      d.Holds pair b ∧ d.blockIndex? b.position.block = some line := by
  simp only [bracketsOn, List.mem_filterMap, Option.map_eq_some_iff]
  constructor
  · rintro ⟨⟨c, column⟩, member, kind, found, rfl⟩
    have at_column := List.mem_zipIdx_iff_getElem?.mp member
    have fits : column ≤ d.width line := by
      rw [width_eq_length]
      exact Nat.le_of_lt (List.getElem?_eq_some_iff.mp at_column).1
    have resolved := h.resolve?_place inside fits
    exact ⟨⟨c, charAt?_eq_some.mpr ⟨line, column, resolved, at_column⟩, found⟩,
      (resolve?_eq_some.mp resolved).2.1⟩
  · rintro ⟨⟨c, found, kind⟩, index⟩
    obtain ⟨line', column, resolved, at_column⟩ := charAt?_eq_some.mp found
    obtain rfl := Option.some.inj (index.symm.trans (resolve?_eq_some.mp resolved).2.1)
    refine ⟨(c, column), List.mem_zipIdx_iff_getElem?.mpr at_column, b.kind, kind, ?_⟩
    rw [← h.eq_place resolved]

/-- The scan finds one bracket for every delimiter. -/
theorem WellFormed.mem_brackets {d : Document} (h : d.WellFormed) {pair : BracketPair}
    {b : Bracket} : b ∈ d.brackets pair ↔ d.Holds pair b := by
  simp only [brackets, List.mem_flatMap, List.mem_range]
  constructor
  · rintro ⟨line, inside, member⟩
    exact ((h.mem_bracketsOn inside).mp member).1
  · intro holds
    obtain ⟨line, inside, index⟩ := holds.on_line h
    exact ⟨line, inside, (h.mem_bracketsOn inside).mpr ⟨holds, index⟩⟩

theorem brackets_run? (d : Document) (pair : BracketPair) (line : Nat) :
    ((d.run? line).toList.flatMap fun r => r.brackets pair) = d.bracketsOn pair line := by
  rw [run?, bracketsOn]
  cases content : d.content line with
  | nil => rfl
  | cons c rest => simp [Run.brackets, Run.positionAt, Position.advance, place]

theorem flatMap_brackets (d : Document) (pair : BracketPair) (lines : List Nat) :
    ((lines.filterMap d.run?).flatMap fun r => r.brackets pair) =
      lines.flatMap (d.bracketsOn pair) := by
  rw [List.filterMap_eq_flatMap_toList, List.flatMap_assoc]
  simp only [brackets_run?]

end Document

namespace Tracker

/-! ## Tracking one bracket after the other -/

/-- What tracking goes through: brackets of the document, each with its place, in order. -/
structure Scanning (pair : BracketPair) (d : Document) (s : List PlacedBracket × List BlockId) :
    Prop where
  placed : ∀ p ∈ s.1, p.1 = d.resolve? p.2.position
  held : ∀ p ∈ s.1, d.Holds pair p.2
  sorted : s.1.Pairwise PlacedBracket.Before
  known : ∀ id, id ∈ s.2 ↔ ∃ p ∈ s.1, p.2.position.block = id

theorem mem_listed {known : List BlockId} {block id : BlockId} :
    id ∈ (if known.contains block then known else known ++ [block]) ↔
      id ∈ known ∨ id = block := by
  split
  · rename_i listed
    rw [List.contains_iff_mem] at listed
    constructor
    · exact .inl
    · rintro (member | rfl)
      · exact member
      · exact listed
  · rw [List.mem_append, List.mem_singleton]

theorem Scanning.placed_isSome {pair : BracketPair} {d : Document}
    {s : List PlacedBracket × List BlockId} (h : Scanning pair d s) :
    ∀ p ∈ s.1, p.1.isSome := by
  intro p member
  obtain ⟨line, column, resolved⟩ := (h.held p member).resolves
  rw [h.placed p member, resolved]
  rfl

theorem Scanning.inserted {pair : BracketPair} {d : Document}
    {s : List PlacedBracket × List BlockId} (h : Scanning pair d s) {b : Bracket}
    (holds : d.Holds pair b) {place : Nat × Nat} (resolved : d.resolve? b.position = some place)
    {list : List PlacedBracket} (inserted : insertAt? place b s.1 = some list) :
    Scanning pair d (list, if s.2.contains b.position.block then s.2
      else s.2 ++ [b.position.block]) := by
  have members {p : PlacedBracket} : p ∈ list ↔ p = (some place, b) ∨ p ∈ s.1 :=
    (insertAt?_perm inserted).mem_iff.trans List.mem_cons
  have placed : ∀ p ∈ list, p.1.isSome := by
    intro p member
    rcases members.mp member with rfl | member
    · rfl
    · exact h.placed_isSome p member
  have sorted := insertAt?_sorted (h.sorted.filter _) inserted
  rw [PlacedBracket.live_eq_self placed] at sorted
  refine ⟨?_, ?_, sorted, ?_⟩
  · intro p member
    rcases members.mp member with rfl | member
    · exact resolved.symm
    · exact h.placed p member
  · intro p member
    rcases members.mp member with rfl | member
    · exact holds
    · exact h.held p member
  · intro id
    simp only [mem_listed, h.known, members]
    constructor
    · rintro (⟨p, member, block⟩ | rfl)
      · exact ⟨p, .inr member, block⟩
      · exact ⟨_, .inl rfl, rfl⟩
    · rintro ⟨p, rfl | member, block⟩
      · exact .inr block.symm
      · exact .inl ⟨p, member, block⟩

theorem track_step {pair : BracketPair} {d : Document}
    {s : List PlacedBracket × List BlockId} (h : Scanning pair d s) {b : Bracket}
    (holds : d.Holds pair b) :
    Scanning pair d (track d s b) ∧
      ∀ q, q ∈ (track d s b).1.map (·.2) ↔ q = b ∨ q ∈ s.1.map (·.2) := by
  obtain ⟨line, column, resolved⟩ := holds.resolves
  have looked_up : insertPlaced? d b s.1 = insertAt? (line, column) b s.1 := by
    rw [insertPlaced?, resolved, Option.bind_some]
  rw [track, looked_up]
  cases inserted : insertAt? (line, column) b s.1 with
  | none =>
      -- What is tracked at the place is the bracket itself.
      obtain ⟨p, member, here⟩ := (insertAt?_eq_none_iff (h.sorted.filter _)).mp inserted
      have same := position_unique ((h.placed p member).symm.trans here) resolved
      have tracked : b ∈ s.1.map (·.2) :=
        List.mem_map.mpr ⟨p, member, (h.held p member).eq_of_position holds same⟩
      refine ⟨h, fun q => ⟨.inr, ?_⟩⟩
      rintro (rfl | member)
      · exact tracked
      · exact member
  | some list =>
      refine ⟨h.inserted holds resolved inserted, fun q => ?_⟩
      have reordered := (insertAt?_perm inserted).map (·.2)
      rw [reordered.mem_iff, List.map_cons, List.mem_cons]

theorem track_run {pair : BracketPair} {d : Document}
    {brackets : List Bracket} (holds : ∀ b ∈ brackets, d.Holds pair b)
    {s : List PlacedBracket × List BlockId} (h : Scanning pair d s) :
    Scanning pair d (brackets.foldl (track d) s) ∧
      ∀ q, q ∈ (brackets.foldl (track d) s).1.map (·.2) ↔ q ∈ brackets ∨ q ∈ s.1.map (·.2) := by
  induction brackets generalizing s with
  | nil => simpa using h
  | cons b brackets ih =>
      obtain ⟨scanning, members⟩ := track_step h (holds b List.mem_cons_self)
      obtain ⟨scanning', members'⟩ :=
        ih (fun b' member => holds b' (List.mem_cons_of_mem b member)) scanning
      refine ⟨scanning', fun q => ?_⟩
      rw [List.foldl_cons, members', members, List.mem_cons, or_left_comm, or_assoc]

/-! ## Consistent trackers -/

/-- What holds of a tracker at any time, with stale entries among its brackets. -/
structure Consistent (pair : BracketPair) (d : Document) (t : Tracker) : Prop where
  issued : ∀ b ∈ t.brackets, b.position.block < d.nextBlock
  /-- The kinds are those that the scan gives. -/
  told : ∀ b ∈ t.brackets, pair.kindOf? (pair.delimiter b.kind) = some b.kind
  ordered : t.brackets.Pairwise fun a b => d.Ahead a.position b.position
  known : ∀ id, id ∈ t.known ↔ ∃ b ∈ t.brackets, b.position.block = id

theorem Consistent.empty (pair : BracketPair) (d : Document) : Consistent pair d {} := by
  constructor <;> simp

/-- Edits leave a tracker consistent. -/
theorem Consistent.evolves {pair : BracketPair} {d d' : Document} {t : Tracker}
    (h : Consistent pair d t) (evolved : Evolves d d') : Consistent pair d' t := by
  refine ⟨fun b member => Nat.lt_of_lt_of_le (h.issued b member) evolved.next, h.told, ?_, h.known⟩
  refine h.ordered.imp_of_mem ?_
  intro a b ha hb ahead
  exact ahead.evolves evolved (h.issued a ha) (h.issued b hb)

theorem Consistent.filter {pair : BracketPair} {d : Document} {t : Tracker}
    (h : Consistent pair d t) (keep : Bracket → Bool) (keepBlock : BlockId → Bool)
    (blocks : ∀ id ∈ t.known, keepBlock id = true ↔
      ∃ b ∈ t.brackets, keep b = true ∧ b.position.block = id) :
    Consistent pair d ⟨t.brackets.filter keep, t.known.filter keepBlock⟩ := by
  refine ⟨?_, ?_, h.ordered.filter _, ?_⟩
  · intro b member
    exact h.issued b (List.mem_of_mem_filter member)
  · intro b member
    exact h.told b (List.mem_of_mem_filter member)
  · intro id
    simp only [List.mem_filter]
    constructor
    · rintro ⟨listed, kept⟩
      obtain ⟨b, member, kept, block⟩ := (blocks id listed).mp kept
      exact ⟨b, ⟨member, kept⟩, block⟩
    · rintro ⟨b, ⟨member, kept⟩, block⟩
      have listed := (h.known id).mpr ⟨b, member, block⟩
      exact ⟨listed, (blocks id listed).mpr ⟨b, member, kept, block⟩⟩

theorem Consistent.invalidate {pair : BracketPair} {d : Document} {t : Tracker}
    (h : Consistent pair d t) : Consistent pair d (t.invalidate pair d) := by
  apply h.filter
  intro id _
  simp [List.any_filter]

theorem Consistent.forget {pair : BracketPair} {d : Document} {t : Tracker}
    (h : Consistent pair d t) (blocks : List BlockId) : Consistent pair d (t.forget blocks) := by
  apply h.filter
  intro id listed
  obtain ⟨b, member, rfl⟩ := (h.known id).mp listed
  constructor
  · intro kept
    exact ⟨b, member, kept, rfl⟩
  · rintro ⟨b', -, kept, same⟩
    rwa [same] at kept

/-- What the scan tells is a bracket of the document as long as it is current. -/
theorem Consistent.holds {pair : BracketPair} {d : Document} {t : Tracker}
    (h : Consistent pair d t) {b : Bracket} (member : b ∈ t.brackets)
    (current : isCurrent pair d b = true) : d.Holds pair b := by
  refine ⟨pair.delimiter b.kind, ?_, h.told b member⟩
  simpa [isCurrent] using current

theorem Consistent.mem_invalidate {pair : BracketPair} {d : Document} {t : Tracker}
    (h : Consistent pair d t) {b : Bracket} :
    b ∈ (t.invalidate pair d).brackets ↔ b ∈ t.brackets ∧ d.Holds pair b := by
  simp only [Tracker.invalidate, List.mem_filter]
  constructor
  · rintro ⟨member, current⟩
    exact ⟨member, h.holds member current⟩
  · rintro ⟨member, holds⟩
    exact ⟨member, holds.isCurrent⟩

theorem Consistent.scanning {pair : BracketPair} {d : Document} (formed : d.WellFormed)
    {t : Tracker} (h : Consistent pair d t) (held : ∀ b ∈ t.brackets, d.Holds pair b) :
    Scanning pair d (t.brackets.map (·.placeIn d), t.known) := by
  refine ⟨?_, ?_, ?_, ?_⟩
  · intro p member
    obtain ⟨b, -, rfl⟩ := List.mem_map.mp member
    rfl
  · intro p member
    obtain ⟨b, tracked, rfl⟩ := List.mem_map.mp member
    exact held b tracked
  · rw [List.pairwise_map]
    refine h.ordered.imp_of_mem ?_
    intro a b ha hb ahead
    obtain ⟨line, column, resolved⟩ := (held a ha).resolves
    obtain ⟨line', column', resolved'⟩ := (held b hb).resolves
    exact ⟨_, _, resolved, resolved', (formed.ahead_iff resolved resolved').mp ahead⟩
  · intro id
    simp [h.known, Bracket.placeIn]

theorem Scanning.consistent {pair : BracketPair} {d : Document} (formed : d.WellFormed)
    {s : List PlacedBracket × List BlockId} (h : Scanning pair d s) :
    Consistent pair d ⟨s.1.map (·.2), s.2⟩ := by
  have held : ∀ b ∈ s.1.map (·.2), d.Holds pair b := by
    intro b member
    obtain ⟨p, tracked, rfl⟩ := List.mem_map.mp member
    exact h.held p tracked
  refine ⟨?_, ?_, ?_, ?_⟩
  · intro b member
    obtain ⟨line, -, index⟩ := (held b member).on_line formed
    exact formed.issued_of_index index
  · intro b member
    obtain ⟨c, -, kind⟩ := held b member
    rw [← BracketPair.eq_delimiter kind]
    exact kind
  · refine List.pairwise_map.mpr (h.sorted.imp_of_mem ?_)
    rintro p q hp hq ⟨x, y, at_x, at_y, before⟩
    rw [h.placed p hp] at at_x
    rw [h.placed q hq] at at_y
    exact (formed.ahead_iff at_x at_y).mpr before
  · intro id
    simp only [h.known, List.mem_map]
    constructor
    · rintro ⟨p, member, block⟩
      exact ⟨p.2, ⟨p, member, rfl⟩, block⟩
    · rintro ⟨b, ⟨p, member, rfl⟩, block⟩
      exact ⟨p, member, block⟩

/-- Tracking more brackets of the document in a tracker that has no others. -/
theorem Consistent.trackAll {pair : BracketPair} {d : Document} (formed : d.WellFormed)
    {t : Tracker} (h : Consistent pair d t) (held : ∀ b ∈ t.brackets, d.Holds pair b)
    {brackets : List Bracket} (holds : ∀ b ∈ brackets, d.Holds pair b) :
    Consistent pair d (t.trackAll d brackets) ∧
      ∀ q, q ∈ (t.trackAll d brackets).brackets ↔ q ∈ brackets ∨ q ∈ t.brackets := by
  obtain ⟨done, members⟩ := track_run holds (h.scanning formed held)
  refine ⟨done.consistent formed, fun q => ?_⟩
  simp only [Tracker.trackAll, members, map_placeIn]

/-- The live entries of a consistent tracker are in document order. -/
theorem Consistent.live_ordered {pair : BracketPair} {d : Document} (formed : d.WellFormed)
    {t : Tracker} (h : Consistent pair d t) :
    (t.brackets.filter (d.isValid ·.position)).Pairwise
      fun a b => d.compare? a.position b.position = some .lt := by
  refine (h.ordered.filter _).imp_of_mem ?_
  intro a b ha hb ahead
  obtain ⟨x, at_x⟩ := Option.isSome_iff_exists.mp (List.mem_filter.mp ha).2
  obtain ⟨y, at_y⟩ := Option.isSome_iff_exists.mp (List.mem_filter.mp hb).2
  have less := (formed.ahead_iff at_x at_y).mp ahead
  simp only [compare?, at_x, at_y, less]

/-! ## Bringing up to date -/

/-- The lines that a region still reaches. -/
def reach (d : Document) (i : Interval) : List Nat :=
  match scanBounds? d i with
  | none => []
  | some (start, stop) =>
    match d.resolve? start, d.resolve? stop with
    | some (first, _), some (last, _) => (List.range (last + 1)).drop first
    | _, _ => []

/-- A region still reaches a block. -/
def Reaches (d : Document) (i : Interval) (block : BlockId) : Prop :=
  ∃ line ∈ reach d i, d.blockIndex? block = some line

theorem reach_lt {d : Document} (formed : d.WellFormed) {i : Interval} {line : Nat}
    (reached : line ∈ reach d i) : line < d.blocks.length := by
  rw [reach] at reached
  split at reached
  · cases reached
  · split at reached
    · rename_i first _ last _ _ resolved
      have := formed.line_lt (resolve?_eq_some.mp resolved).2.1
      have := List.mem_range.mp (List.mem_of_mem_drop reached)
      omega
    · cases reached

theorem reaches_of_run {d : Document} (formed : d.WellFormed) {i : Interval} {r : Run}
    (run : r ∈ (reach d i).filterMap d.run?) : Reaches d i r.start.block := by
  obtain ⟨line, reached, found⟩ := List.mem_filterMap.mp run
  rw [run?] at found
  split at found
  · cases found
  · cases found
    have resolved := formed.resolve?_place (reach_lt formed reached) (Nat.zero_le _)
    exact ⟨line, reached, (resolve?_eq_some.mp resolved).2.1⟩

/-- Between live ends, a region reaches every line. -/
theorem mem_reach {d : Document} {i : Interval} {first last column column' line : Nat}
    (start : d.resolve? i.start = some (first, column))
    (stop : d.resolve? i.stop = some (last, column')) (behind : first ≤ line)
    (before : line ≤ last) : line ∈ reach d i := by
  have bounds : scanBounds? d i = some (i.start, i.stop) := by
    simp [scanBounds?, isValid, start, stop]
  simp only [reach, bounds, start, stop]
  rw [List.range_eq_range', List.drop_range', Nat.mul_one, Nat.zero_add, List.mem_range'_1]
  omega

theorem forget_nil (t : Tracker) : t.forget [] = t := by
  simp [forget]

theorem trackAll_nil (d : Document) (t : Tracker) : t.trackAll d [] = t := by
  simp only [trackAll, List.foldl_nil, map_placeIn]

/-- An update works on the lines that its region reaches. -/
theorem update_eq (pair : BracketPair) (d : Document) (i : Interval) (t : Tracker) :
    let kept := t.invalidate pair d
    let blocks := ((reach d i).filterMap d.run?).map (·.start.block)
    t.update pair d i = (kept.forget (blocks.filter kept.known.contains)).trackAll d
      ((reach d i).flatMap (d.bracketsOn pair)) := by
  intro kept blocks
  rw [update, ← flatMap_brackets]
  cases bounds : scanBounds? d i with
  | none =>
      have nothing : reach d i = [] := by rw [reach, bounds]
      simp only [blocks, nothing, List.filterMap_nil, List.map_nil, List.filter_nil,
        List.flatMap_nil, forget_nil, trackAll_nil, kept]
  | some ends =>
      have runs : d.runsBetween ends.1 ends.2 = (reach d i).filterMap d.run? := by
        simp only [reach, bounds, runsBetween]
        split <;> simp_all
      simp only [runs]
      rfl

/-- What a tracker holds after an update: the brackets of the document that it had before or that
    the region reaches. -/
theorem Consistent.update {pair : BracketPair} {d : Document} (formed : d.WellFormed)
    {t : Tracker} (h : Consistent pair d t) (i : Interval) :
    Consistent pair d (t.update pair d i) ∧ ∀ b, b ∈ (t.update pair d i).brackets ↔
      d.Holds pair b ∧ (b ∈ t.brackets ∨ Reaches d i b.position.block) := by
  have scanned {b : Bracket} : b ∈ (reach d i).flatMap (d.bracketsOn pair) ↔
      d.Holds pair b ∧ Reaches d i b.position.block := by
    rw [List.mem_flatMap]
    constructor
    · rintro ⟨line, reached, member⟩
      obtain ⟨holds, index⟩ := (formed.mem_bracketsOn (reach_lt formed reached)).mp member
      exact ⟨holds, line, reached, index⟩
    · rintro ⟨holds, line, reached, index⟩
      exact ⟨line, reached, (formed.mem_bracketsOn (reach_lt formed reached)).mpr ⟨holds, index⟩⟩
  obtain ⟨consistent, members⟩ := (h.invalidate.forget ((((reach d i).filterMap d.run?).map
      (·.start.block)).filter (t.invalidate pair d).known.contains)).trackAll formed
    (fun b member => (h.mem_invalidate.mp (List.mem_of_mem_filter member)).2)
    (fun b member => (scanned.mp member).1)
  rw [update_eq]
  refine ⟨consistent, fun b => ?_⟩
  rw [members, scanned]
  constructor
  · rintro (⟨holds, reached⟩ | member)
    · exact ⟨holds, .inr reached⟩
    · obtain ⟨member, holds⟩ := h.mem_invalidate.mp (List.mem_of_mem_filter member)
      exact ⟨holds, .inl member⟩
  · rintro ⟨holds, tracked | reached⟩
    · -- A tracked bracket is forgotten only if it is found again on the same line.
      by_cases reached : Reaches d i b.position.block
      · exact .inl ⟨holds, reached⟩
      · refine .inr (List.mem_filter.mpr ⟨h.mem_invalidate.mpr ⟨tracked, holds⟩, ?_⟩)
        rw [Bool.not_eq_true', ← Bool.not_eq_true, List.contains_iff_mem]
        intro forgotten
        obtain ⟨r, run, block⟩ := List.mem_map.mp (List.mem_of_mem_filter forgotten)
        exact reached (block ▸ reaches_of_run formed run)
    · exact .inl ⟨holds, reached⟩

/-- Several regions, one after the other over the same document. -/
theorem Consistent.updateAll {pair : BracketPair} {d : Document} (formed : d.WellFormed)
    {t : Tracker} (h : Consistent pair d t) (regions : List Interval)
    (held : regions = [] → ∀ b ∈ t.brackets, d.Holds pair b) :
    let t' := regions.foldl (fun t i => t.update pair d i) t
    Consistent pair d t' ∧ ∀ b, b ∈ t'.brackets ↔
      d.Holds pair b ∧ (b ∈ t.brackets ∨ ∃ i ∈ regions, Reaches d i b.position.block) := by
  induction regions generalizing t with
  | nil =>
      refine ⟨h, fun b => ?_⟩
      constructor
      · intro member
        exact ⟨held rfl b member, .inl member⟩
      · rintro ⟨-, member | ⟨i, absent, -⟩⟩
        · exact member
        · cases absent
  | cons i regions ih =>
      obtain ⟨updated, members⟩ := h.update formed i
      obtain ⟨done, members'⟩ := ih updated fun _ b member => ((members b).mp member).1
      refine ⟨done, fun b => ?_⟩
      rw [List.foldl_cons, members', members, List.exists_mem_cons_iff]
      tauto

end Tracker

/-! ## Lists in document order -/

namespace Document

theorem Ahead.ne {d : Document} {p q : Position} (ahead : d.Ahead p q) : p ≠ q := by
  rintro rfl
  exact absurd (ahead.1 rfl) (Nat.lt_irrefl _)

theorem WellFormed.not_ahead {d : Document} (h : d.WellFormed) {pair : BracketPair}
    {a b : Bracket} (ha : d.Holds pair a) (hb : d.Holds pair b)
    (ahead : d.Ahead a.position b.position) : ¬d.Ahead b.position a.position := by
  obtain ⟨line, column, resolved⟩ := ha.resolves
  obtain ⟨line', column', resolved'⟩ := hb.resolves
  rw [h.ahead_iff resolved resolved', comparePlaces_eq_lt] at ahead
  rw [h.ahead_iff resolved' resolved, comparePlaces_eq_lt]
  omega

theorem WellFormed.bracketsOn_ordered {d : Document} (h : d.WellFormed) {pair : BracketPair}
    {line : Nat} (inside : line < d.blocks.length) :
    (d.bracketsOn pair line).Pairwise fun a b => d.Ahead a.position b.position := by
  have columns : (d.content line).zipIdx.Pairwise fun x y => x.2 < y.2 := by
    rw [List.pairwise_iff_getElem]
    intro i j hi hj before
    simpa using before
  refine List.pairwise_filterMap.mpr (columns.imp_of_mem ?_)
  rintro ⟨c, i⟩ ⟨c', j⟩ hc hc' before a found b found'
  obtain ⟨kind, -, rfl⟩ := Option.map_eq_some_iff.mp found
  obtain ⟨kind', -, rfl⟩ := Option.map_eq_some_iff.mp found'
  have fits {c : Char} {i : Nat} (member : (c, i) ∈ (d.content line).zipIdx) :
      i ≤ d.width line := by
    rw [width_eq_length]
    exact Nat.le_of_lt (List.getElem?_eq_some_iff.mp (List.mem_zipIdx_iff_getElem?.mp member)).1
  rw [h.ahead_iff (h.resolve?_place inside (fits hc)) (h.resolve?_place inside (fits hc')),
    comparePlaces_eq_lt]
  exact .inr ⟨rfl, before⟩

/-- Brackets line by line, in the order of the lines. -/
theorem WellFormed.ordered_by_line {d : Document} (h : d.WellFormed) (pair : BracketPair)
    {lines : List Nat} (increasing : lines.Pairwise (· < ·)) {on : Nat → List Bracket}
    (held : ∀ line ∈ lines, ∀ b ∈ on line,
      d.Holds pair b ∧ d.blockIndex? b.position.block = some line)
    (ordered : ∀ line ∈ lines, (on line).Pairwise fun a b => d.Ahead a.position b.position) :
    (lines.flatMap on).Pairwise fun a b => d.Ahead a.position b.position := by
  refine List.pairwise_flatMap.mpr ⟨ordered, increasing.imp_of_mem ?_⟩
  intro line line' member member' before a ha b hb
  obtain ⟨held_a, index_a⟩ := held line member a ha
  obtain ⟨held_b, index_b⟩ := held line' member' b hb
  obtain ⟨i, column, resolved⟩ := held_a.resolves
  obtain ⟨j, column', resolved'⟩ := held_b.resolves
  obtain rfl := Option.some.inj (index_a.symm.trans (resolve?_eq_some.mp resolved).2.1)
  obtain rfl := Option.some.inj (index_b.symm.trans (resolve?_eq_some.mp resolved').2.1)
  rw [h.ahead_iff resolved resolved', comparePlaces_eq_lt]
  exact .inl before

theorem WellFormed.brackets_ordered {d : Document} (h : d.WellFormed) (pair : BracketPair) :
    (d.brackets pair).Pairwise fun a b => d.Ahead a.position b.position := by
  refine h.ordered_by_line pair List.pairwise_lt_range ?_ ?_
  · intro line inside b member
    exact (h.mem_bracketsOn (List.mem_range.mp inside)).mp member
  · intro line inside
    exact h.bracketsOn_ordered (List.mem_range.mp inside)

/-- Lists of brackets of a document that are in order are equal if they have the same members. -/
theorem WellFormed.eq_of_ordered {d : Document} (h : d.WellFormed) {pair : BracketPair}
    {list list' : List Bracket} (held : ∀ b ∈ list, d.Holds pair b)
    (ordered : list.Pairwise fun a b => d.Ahead a.position b.position)
    (ordered' : list'.Pairwise fun a b => d.Ahead a.position b.position)
    (members : ∀ b, b ∈ list ↔ b ∈ list') : list = list' := by
  have distinct {l : List Bracket}
      (ordered : l.Pairwise fun a b => d.Ahead a.position b.position) : l.Nodup :=
    ordered.imp fun ahead same => ahead.ne (congrArg Bracket.position same)
  have perm := (List.perm_ext_iff_of_nodup (distinct ordered) (distinct ordered')).mpr members
  refine perm.eq_of_pairwise ?_ ordered ordered'
  intro a b ha hb ahead behind
  exact absurd behind (h.not_ahead (held a ha) (held b ((members b).mpr hb)) ahead)

/-- An ordered list of brackets of the document is a part of its scan, and all of it exactly if
    nothing is missing. -/
theorem WellFormed.part_of_scan {d : Document} (h : d.WellFormed) {pair : BracketPair}
    {list : List Bracket} {p : Bracket → Prop}
    (ordered : list.Pairwise fun a b => d.Ahead a.position b.position)
    (members : ∀ b, b ∈ list ↔ d.Holds pair b ∧ p b) :
    list.Sublist (d.brackets pair) ∧ (∀ b ∈ d.brackets pair, b ∈ list ↔ p b) ∧
      (list = d.brackets pair ↔ ∀ b ∈ d.brackets pair, p b) := by
  have held : ∀ b ∈ list, d.Holds pair b := fun b member => ((members b).mp member).1
  have in_order := h.brackets_ordered pair
  have part : list = (d.brackets pair).filter (list.contains ·) := by
    apply h.eq_of_ordered held ordered (in_order.filter _)
    intro b
    rw [List.mem_filter, List.contains_iff_mem, h.mem_brackets]
    exact ⟨fun member => ⟨held b member, member⟩, And.right⟩
  have among (b : Bracket) (member : b ∈ d.brackets pair) : b ∈ list ↔ p b := by
    rw [members]
    exact ⟨And.right, fun hp => ⟨h.mem_brackets.mp member, hp⟩⟩
  refine ⟨?_, among, ?_, ?_⟩
  · rw [part]
    exact List.filter_sublist
  · intro same b member
    rw [← among b member, same]
    exact member
  · intro all
    apply h.eq_of_ordered held ordered in_order
    intro b
    exact ⟨fun member => h.mem_brackets.mpr (held b member),
      fun member => (among b member).mpr (all b member)⟩

end Document

end Highlight
