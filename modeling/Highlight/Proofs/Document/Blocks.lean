import Highlight.Document.Paint
import Highlight.Proofs.Text.Lines
import Mathlib.Data.List.Nodup
import Mathlib.Tactic.Common

/-! # Blocks over whole runs

A document answers every call with one block per line, all of them distinct, and a block that has
left it never comes back. Both facts are carried by two notions: `WellFormed` says what holds of one
document, `Evolves` says what holds between a document and a later one. Every call keeps the first
and is an instance of the second, so that runs need no reasoning about lines or anchors.
-/

namespace Highlight

/-- A call that changes the text of a document. -/
inductive Edit where
  | insert (offset : Nat) (text : List Char)
  | delete (start stop : Nat)
  | replaceBlock (index : Nat) (text : List Char)
  | setText (text : List Char)

/-- What an edit makes of a document. -/
def Edit.apply (d : Document) : Edit → Except EditError (Document × Change)
  | .insert offset text => d.insert offset text
  | .delete start stop => d.delete start stop
  | .replaceBlock index text => d.replaceBlock index text
  | .setText text => .ok (d.setText text)

/-- A call that changes a document: its text or its styles. -/
inductive Call where
  | edit (e : Edit)
  | applyStyle (start stop : Position) (style : Style)
  | clearStyles (start stop : Position)

/-- What a call makes of a document. -/
def Call.apply (d : Document) : Call → Except EditError Document
  | .edit e => (e.apply d).map (·.1)
  | .applyStyle start stop style => d.applyStyle start stop style
  | .clearStyles start stop => d.clearStyles start stop

/-- Where a document comes from. -/
inductive Origin where
  | new (geometry : Geometry)
  | ofText (text : List Char) (geometry : Geometry)

/-- The document as it is first handed out. -/
def Origin.document (id : DocumentId) : Origin → Document
  | .new geometry => .empty id geometry
  | .ofText text geometry => .ofText id text geometry

namespace Document

/-- A refused call leaves the document alone. -/
def perform (d : Document) (call : Call) : Document :=
  match call.apply d with
  | .ok d' => d'
  | .error _ => d

/-- The document after a sequence of calls. -/
def performAll (d : Document) (calls : List Call) : Document :=
  calls.foldl perform d

/-- The identities of the blocks, in document order. -/
def ids (d : Document) : List Nat :=
  d.blocks.map (·.id)

/-- One block per line, all of them distinct and handed out before. -/
structure WellFormed (d : Document) : Prop where
  count : d.blocks.length = d.lines.length
  distinct : d.ids.Nodup
  issued : ∀ b ∈ d.ids, b < d.nextBlock

/-- What every later state of a document has in common with it: blocks that were there before stand
    in the order they had, and all others are new. -/
structure Evolves (d d' : Document) : Prop where
  same : d'.id = d.id
  next : d.nextBlock ≤ d'.nextBlock
  survivors : (d'.ids.filter (· < d.nextBlock)).Sublist d.ids

end Document

/-! ## Fresh blocks -/

theorem Block.map_id_fresh (first count : Nat) :
    (Block.fresh first count).map (·.id) = List.range' first count := by
  simp only [Block.fresh, List.map_map, Function.comp_def, List.range'_eq_map_range]

@[simp] theorem Block.length_fresh (first count : Nat) :
    (Block.fresh first count).length = count := by
  simp [Block.fresh]

namespace Document

@[simp] theorem length_ids (d : Document) : d.ids.length = d.blocks.length := by
  simp [ids]

theorem blockId?_eq (d : Document) (line : Nat) : d.blockId? line = d.ids[line]? := by
  simp only [blockId?, ids, List.getElem?_map]

theorem blockIndex?_eq (d : Document) (b : BlockId) : d.blockIndex? b = d.ids.idxOf? b := by
  simp only [blockIndex?, ids, List.idxOf?, List.findIdx?_map, Function.comp_def]

theorem blockIndex?_eq_none {d : Document} {b : BlockId} (gone : b ∉ d.ids) :
    d.blockIndex? b = none := by
  rw [blockIndex?_eq, List.idxOf?_eq_none_iff]
  exact gone

theorem WellFormed.blockIndex?_eq_some_iff {d : Document} (h : d.WellFormed) {b : BlockId}
    {line : Nat} : d.blockIndex? b = some line ↔ d.blockId? line = some b := by
  rw [blockIndex?_eq, blockId?_eq, List.idxOf?_eq_some_iff, List.getElem?_eq_some_iff]
  constructor
  · rintro ⟨inside, found, -⟩
    exact ⟨inside, found⟩
  · rintro ⟨inside, found⟩
    refine ⟨inside, found, ?_⟩
    intro earlier before same
    have := (h.distinct.getElem_inj_iff).mp (same.trans found.symm)
    omega

/-! ## Places -/

theorem place_eq {d : Document} {line : Nat} (inside : line < d.ids.length) (column : Nat) :
    d.place line column = ⟨d.id, d.ids[line], column⟩ := by
  rw [place, blockId?_eq, List.getElem?_eq_getElem inside, Option.getD_some]

theorem WellFormed.resolve?_place {d : Document} (h : d.WellFormed) {line column : Nat}
    (inside : line < d.blocks.length) (fits : column ≤ d.width line) :
    d.resolve? (d.place line column) = some (line, column) := by
  rw [← length_ids] at inside
  have found : d.blockIndex? d.ids[line] = some line := by
    rw [h.blockIndex?_eq_some_iff, blockId?_eq, List.getElem?_eq_getElem inside]
  simp only [place_eq inside, resolve?, if_true, found, if_pos fits]

/-! ## The blocks of an edit -/

theorem alignBlocks_of_lt {blocks : List Block} {anchor count next : Nat}
    (h : blocks.length < count) :
    alignBlocks blocks anchor count next =
      blocks.take (anchor + 1) ++ Block.fresh next (count - blocks.length) ++
        blocks.drop (anchor + 1) := by
  simp only [alignBlocks, if_pos h]

theorem alignBlocks_sublist {blocks : List Block} {anchor count next : Nat}
    (h : count ≤ blocks.length) : (alignBlocks blocks anchor count next).Sublist blocks := by
  simp only [alignBlocks, if_neg (Nat.not_lt.mpr h)]
  split
  · refine (List.take_sublist _ _).trans ?_
    have skipped : (blocks.drop (anchor + 1 + (blocks.length - count))).Sublist
        (blocks.drop (anchor + 1)) := by
      rw [← List.drop_drop]
      exact List.drop_sublist _ _
    have joined := (List.Sublist.refl (blocks.take (anchor + 1))).append skipped
    rwa [List.take_append_drop] at joined
  · exact List.Sublist.refl _

/-- However far the anchor is off, the blocks come out as many as the lines. -/
theorem length_alignBlocks {blocks : List Block} {anchor count next : Nat}
    (ha : anchor < blocks.length) (hc : 0 < count) :
    (alignBlocks blocks anchor count next).length = count := by
  by_cases grows : blocks.length < count
  · rw [alignBlocks_of_lt grows]
    simp only [List.length_append, List.length_take, List.length_drop, Block.length_fresh]
    omega
  · simp only [alignBlocks, if_neg grows]
    split
    · simp only [List.length_append, List.length_take, List.length_drop]
      omega
    · omega

theorem map_id_modify (blocks : List Block) (line : Nat) (f : List Span → List Span) :
    (blocks.modify line fun b => { b with spans := f b.spans }).map (·.id) =
      blocks.map (·.id) := by
  apply List.ext_getElem?
  intro i
  simp only [List.getElem?_map, List.getElem?_modify]
  cases blocks[i]? <;> simp [apply_ite Block.id]

theorem ids_withText (d : Document) (text : List Char) (anchor : Nat) :
    (d.withText text anchor).ids =
      (alignBlocks d.blocks (min anchor (d.blocks.length - 1)) (Text.lines text).length
        d.nextBlock).map (·.id) :=
  map_id_modify _ _ fun _ => []

/-- The identities after an edit: the old ones with fresh ones put in, or some of the old ones. -/
theorem ids_withText_cases (d : Document) (text : List Char) (anchor : Nat) :
    let a := min anchor (d.blocks.length - 1)
    ((d.withText text anchor).ids =
        d.ids.take (a + 1) ++
          List.range' d.nextBlock ((Text.lines text).length - d.blocks.length) ++
          d.ids.drop (a + 1)) ∨
      (d.withText text anchor).ids.Sublist d.ids := by
  intro a
  by_cases grows : d.blocks.length < (Text.lines text).length
  · left
    rw [ids_withText, alignBlocks_of_lt grows]
    simp only [List.map_append, List.map_take, List.map_drop, Block.map_id_fresh, ids, a]
  · right
    rw [ids_withText]
    exact (alignBlocks_sublist (Nat.not_lt.mp grows)).map _

namespace WellFormed

theorem blocks_pos {d : Document} (h : d.WellFormed) : 0 < d.blocks.length := by
  rw [h.count, d.lines_eq]
  exact List.length_pos_iff.mpr (Text.lines_ne_nil _)

theorem withText {d : Document} (h : d.WellFormed) (text : List Char) (anchor : Nat) :
    (d.withText text anchor).WellFormed := by
  have pos := h.blocks_pos
  have lines_pos := List.length_pos_iff.mpr (Text.lines_ne_nil text)
  refine ⟨?_, ?_, ?_⟩
  · rw [← length_ids, ids_withText, List.length_map]
    exact length_alignBlocks (by omega) lines_pos
  · rcases ids_withText_cases d text anchor with grown | shrunk
    · -- Moved behind the old identities, the fresh ones are visibly distinct from them.
      rw [grown]
      have reordered := (List.perm_append_comm_assoc
        (d.ids.take (min anchor (d.blocks.length - 1) + 1))
        (List.range' d.nextBlock ((Text.lines text).length - d.blocks.length))
        (d.ids.drop (min anchor (d.blocks.length - 1) + 1)))
      rw [List.append_assoc, reordered.nodup_iff, List.take_append_drop, List.nodup_append]
      refine ⟨List.nodup_range', h.distinct, ?_⟩
      intro a ha b hb
      have fresh := (List.mem_range'_1.mp ha).1
      have old := h.issued b hb
      omega
    · exact h.distinct.sublist shrunk
  · intro b hb
    have next : (d.withText text anchor).nextBlock =
        d.nextBlock + ((Text.lines text).length - d.blocks.length) := rfl
    rcases ids_withText_cases d text anchor with grown | shrunk
    · rw [grown, List.mem_append, List.mem_append] at hb
      rcases hb with (old | fresh) | old
      · have := h.issued b (List.mem_of_mem_take old)
        omega
      · have := (List.mem_range'_1.mp fresh).2
        omega
      · have := h.issued b (List.mem_of_mem_drop old)
        omega
    · have := h.issued b (shrunk.subset hb)
      omega

end WellFormed

namespace Evolves

theorem refl (d : Document) : Evolves d d :=
  ⟨rfl, Nat.le_refl _, List.filter_sublist⟩

theorem trans {d d' d'' : Document} (first : Evolves d d') (second : Evolves d' d'') :
    Evolves d d'' := by
  refine ⟨second.same.trans first.same, Nat.le_trans first.next second.next, ?_⟩
  -- What was there at the start was there in between, so the second step keeps its order too.
  have between : (d''.ids.filter (· < d.nextBlock)) =
      (d''.ids.filter (· < d'.nextBlock)).filter (· < d.nextBlock) := by
    rw [List.filter_filter]
    apply List.filter_congr
    intro b _
    have := first.next
    simp only [decide_eq_decide, ← Bool.decide_and]
    omega
  rw [between]
  exact (second.survivors.filter _).trans first.survivors

theorem withText (d : Document) (text : List Char) (anchor : Nat) :
    Evolves d (d.withText text anchor) := by
  refine ⟨rfl, Nat.le_add_right _ _, ?_⟩
  rcases ids_withText_cases d text anchor with grown | shrunk
  · have none_fresh : (List.range' d.nextBlock
        ((Text.lines text).length - d.blocks.length)).filter (· < d.nextBlock) = [] := by
      apply List.filter_eq_nil_iff.mpr
      intro b hb
      have := (List.mem_range'_1.mp hb).1
      simpa using this
    rw [grown, List.filter_append, List.filter_append, none_fresh, List.append_nil,
      ← List.filter_append, List.take_append_drop]
    exact List.filter_sublist
  · exact List.filter_sublist.trans shrunk

theorem setText {d : Document} (text : List Char) : Evolves d (d.setText text).1 := by
  refine ⟨rfl, Nat.le_add_right _ _, ?_⟩
  have all_new : ((d.setText text).1.ids.filter (· < d.nextBlock)) = [] := by
    apply List.filter_eq_nil_iff.mpr
    intro b hb
    rw [ids, Document.setText, Block.map_id_fresh] at hb
    have := (List.mem_range'_1.mp hb).1
    simpa using this
  rw [all_new]
  exact List.nil_sublist _

end Evolves

theorem WellFormed.setText (d : Document) (text : List Char) : (d.setText text).1.WellFormed := by
  refine ⟨?_, ?_, ?_⟩
  · simp only [Document.setText, Block.length_fresh]
  · rw [ids, Document.setText, Block.map_id_fresh]
    exact List.nodup_range'
  · intro b hb
    rw [ids, Document.setText, Block.map_id_fresh] at hb
    exact (List.mem_range'_1.mp hb).2

/-! ## What an edit that is not refused does -/

theorem insert_ok {d d' : Document} {offset : Nat} {text : List Char} {c : Change}
    (h : d.insert offset text = .ok (d', c)) :
    offset ≤ d.length ∧
      d' = d.withText (d.text.take offset ++ text ++ d.text.drop offset) (d.lineAt offset) ∧
      c = ⟨offset, text.length, 0⟩ := by
  simp only [insert] at h
  split at h
  · rename_i inside
    simp only [Except.ok.injEq, Prod.mk.injEq] at h
    exact ⟨inside, h.1.symm, h.2.symm⟩
  · cases h

theorem delete_ok {d d' : Document} {start stop : Nat} {c : Change}
    (h : d.delete start stop = .ok (d', c)) :
    start ≤ stop ∧ stop ≤ d.length ∧
      d' = d.withText (d.text.take start ++ d.text.drop stop) (d.lineAt start) ∧
      c = ⟨start, 0, stop - start⟩ := by
  simp only [delete] at h
  split at h
  · cases h
  · split at h
    · cases h
    · simp only [Except.ok.injEq, Prod.mk.injEq] at h
      exact ⟨by omega, by omega, h.1.symm, h.2.symm⟩

theorem replaceBlock_ok {d d' : Document} {index : Nat} {text : List Char} {c : Change}
    (h : d.replaceBlock index text = .ok (d', c)) :
    index < d.blocks.length ∧ ∃ cleared removed added,
      d.delete (d.lineStart index) (d.lineStart index + d.width index) = .ok (cleared, removed) ∧
      cleared.insert (d.lineStart index) text = .ok (d', added) ∧
      c = ⟨d.lineStart index, added.added, removed.removed⟩ := by
  simp only [replaceBlock, bind, Except.bind] at h
  by_cases outside : d.blocks.length ≤ index
  · simp [outside, throw, throwThe, MonadExceptOf.throw] at h
  · simp only [outside, if_false, pure, Except.pure] at h
    split at h
    · cases h
    · rename_i cleared deleted
      split at h
      · cases h
      · rename_i filled inserted
        simp only [Except.ok.injEq, Prod.mk.injEq] at h
        obtain ⟨rfl, rfl⟩ := h
        exact ⟨Nat.not_le.mp outside, cleared.1, cleared.2, filled.2, deleted, inserted, rfl⟩

theorem setText_ok {d d' : Document} {text : List Char} {c : Change}
    (h : (Edit.setText text).apply d = .ok (d', c)) :
    d' = (d.setText text).1 ∧ c = (d.setText text).2 := by
  simp only [Edit.apply, Except.ok.injEq] at h
  rw [h]
  exact ⟨rfl, rfl⟩

/-- Styling changes nothing but spans. -/
theorem mapSpans_ok {d d' : Document} {start stop : Position}
    {f : Nat → Nat → List Span → List Span} (h : d.mapSpans start stop f = .ok d') :
    ∃ blocks, d' = { d with blocks } ∧ blocks.map (·.id) = d.ids := by
  simp only [mapSpans] at h
  split at h
  · split at h
    · cases h
    · simp only [Except.ok.injEq] at h
      refine ⟨_, h.symm, ?_⟩
      apply List.ext_getElem?
      intro line
      rw [ids, List.getElem?_map, List.getElem?_map, List.getElem?_mapIdx]
      cases d.blocks[line]? with
      | none => rfl
      | some b =>
          simp only [Option.map_some, Option.some.injEq]
          split
          · split <;> rfl
          · rfl
  · cases h

theorem WellFormed.withBlocks {d : Document} (h : d.WellFormed) {blocks : List Block}
    (same : blocks.map (·.id) = d.ids) : { d with blocks }.WellFormed := by
  have count : blocks.length = d.blocks.length := by
    rw [← length_ids, ← same, List.length_map]
  refine ⟨count.trans h.count, ?_, ?_⟩
  · simpa only [ids, same] using h.distinct
  · simpa only [ids, same] using h.issued

theorem Evolves.withBlocks {d : Document} {blocks : List Block}
    (same : blocks.map (·.id) = d.ids) : Evolves d { d with blocks } := by
  refine ⟨rfl, Nat.le_refl _, ?_⟩
  simp only [ids, same]
  exact List.filter_sublist

end Document

/-! ## Steps and runs -/

open Document

theorem Edit.apply_step {d d' : Document} {e : Edit} {c : Change} (h : d.WellFormed)
    (ok : e.apply d = .ok (d', c)) : d'.WellFormed ∧ Evolves d d' := by
  cases e with
  | insert offset text =>
      obtain ⟨-, rfl, -⟩ := insert_ok ok
      exact ⟨h.withText _ _, .withText _ _ _⟩
  | delete start stop =>
      obtain ⟨-, -, rfl, -⟩ := delete_ok ok
      exact ⟨h.withText _ _, .withText _ _ _⟩
  | replaceBlock index text =>
      obtain ⟨-, cleared, removed, added, deleted, inserted, -⟩ := replaceBlock_ok ok
      obtain ⟨-, -, rfl, -⟩ := delete_ok deleted
      obtain ⟨-, rfl, -⟩ := insert_ok inserted
      exact ⟨(h.withText _ _).withText _ _, .trans (.withText _ _ _) (.withText _ _ _)⟩
  | setText text =>
      obtain ⟨rfl, -⟩ := setText_ok ok
      exact ⟨.setText d text, .setText text⟩

theorem Call.apply_edit_ok {d d' : Document} {e : Edit} (ok : (Call.edit e).apply d = .ok d') :
    ∃ c, e.apply d = .ok (d', c) := by
  simp only [Call.apply] at ok
  cases applied : e.apply d with
  | error e => simp [applied, Except.map] at ok
  | ok edited =>
      simp only [applied, Except.map, Except.ok.injEq] at ok
      exact ⟨edited.2, by rw [← ok]⟩

theorem Call.apply_step {d d' : Document} {call : Call} (h : d.WellFormed)
    (ok : call.apply d = .ok d') : d'.WellFormed ∧ Evolves d d' := by
  cases call with
  | edit e =>
      obtain ⟨c, applied⟩ := Call.apply_edit_ok ok
      exact Edit.apply_step h applied
  | applyStyle start stop style =>
      obtain ⟨blocks, rfl, same⟩ := mapSpans_ok ok
      exact ⟨h.withBlocks same, .withBlocks same⟩
  | clearStyles start stop =>
      obtain ⟨blocks, rfl, same⟩ := mapSpans_ok ok
      exact ⟨h.withBlocks same, .withBlocks same⟩

theorem Document.perform_step {d : Document} (h : d.WellFormed) (call : Call) :
    (d.perform call).WellFormed ∧ Evolves d (d.perform call) := by
  simp only [perform]
  cases applied : call.apply d with
  | error e => exact ⟨h, .refl d⟩
  | ok d' => exact Call.apply_step h applied

theorem Document.performAll_run {d : Document} (h : d.WellFormed) (calls : List Call) :
    (d.performAll calls).WellFormed ∧ Evolves d (d.performAll calls) := by
  induction calls generalizing d with
  | nil => exact ⟨h, .refl d⟩
  | cons call calls ih =>
      obtain ⟨formed, evolved⟩ := perform_step h call
      obtain ⟨formed', evolved'⟩ := ih formed
      exact ⟨formed', evolved.trans evolved'⟩

theorem Origin.wellFormed (origin : Origin) (id : DocumentId) :
    (origin.document id).WellFormed := by
  cases origin with
  | new geometry =>
      exact ⟨rfl, by simp [document, empty, ids, Block.fresh],
        by simp [document, empty, ids, Block.fresh]⟩
  | ofText text geometry => exact .setText _ text

theorem Document.performAll_append (d : Document) (calls later : List Call) :
    d.performAll (calls ++ later) = (d.performAll calls).performAll later :=
  List.foldl_append

/-- A block that has left the document does not come back. -/
theorem Document.Evolves.gone_of_gone {d d' d'' : Document} {b : BlockId} (h : d.WellFormed)
    (first : Evolves d d') (second : Evolves d' d'') (live : b ∈ d.ids) (gone : b ∉ d'.ids) :
    b ∉ d''.ids := by
  intro back
  have old : b < d'.nextBlock := Nat.lt_of_lt_of_le (h.issued b live) first.next
  exact gone (second.survivors.subset (List.mem_filter.mpr ⟨back, by simpa using old⟩))

theorem Document.isValid_eq_false {d : Document} {p : Position} (gone : p.block ∉ d.ids) :
    d.isValid p = false := by
  simp only [isValid, resolve?, blockIndex?_eq_none gone]
  split <;> rfl

theorem Document.setText_gone {d d' : Document} (h : d.WellFormed) (evolved : Evolves d d')
    {b : BlockId} (live : b ∈ d.ids) (text : List Char) : b ∉ (d'.setText text).1.ids := by
  intro back
  rw [ids, Document.setText, Block.map_id_fresh] at back
  have fresh := (List.mem_range'_1.mp back).1
  have old := Nat.lt_of_lt_of_le (h.issued b live) evolved.next
  exact Nat.not_le.mpr old fresh

/-- Whatever is done to a document, it has one block per line and an index of exactly the live
    blocks. A block that has left never appears again; in particular a new text makes every position
    from before it stale for good. -/
theorem blocks_track_lines (origin : Origin) (id : DocumentId) (calls : List Call) :
    let d := (origin.document id).performAll calls
    d.blocks.length = (Text.lines d.text).length ∧ 1 ≤ d.blocks.length ∧
      d.ids.Nodup ∧ (∀ b ∈ d.ids, b < d.nextBlock) ∧
      (∀ b line, d.blockIndex? b = some line ↔ d.blockId? line = some b) ∧
      (∀ b, b ∉ d.ids → d.blockIndex? b = none) ∧
      (∀ later further b, b ∈ d.ids → b ∉ (d.performAll later).ids →
        b ∉ (d.performAll (later ++ further)).ids) ∧
      (∀ later text further p, p.block ∈ d.ids →
        (d.performAll (later ++ .edit (.setText text) :: further)).isValid p = false) := by
  intro d
  obtain ⟨formed, -⟩ := performAll_run (origin.wellFormed id) calls
  refine ⟨d.lines_eq ▸ formed.count, formed.blocks_pos, formed.distinct, formed.issued,
    fun b line => formed.blockIndex?_eq_some_iff, fun b gone => blockIndex?_eq_none gone, ?_, ?_⟩
  · intro later further b live gone
    obtain ⟨formed', evolved⟩ := performAll_run formed later
    rw [performAll_append]
    exact evolved.gone_of_gone formed (performAll_run formed' further).2 live gone
  · intro later text further p live
    obtain ⟨formed', evolved⟩ := performAll_run formed later
    apply isValid_eq_false
    rw [performAll_append]
    exact (evolved.trans (.setText text)).gone_of_gone formed
      (performAll_run (.setText _ text) further).2 live (setText_gone formed evolved live text)

end Highlight
