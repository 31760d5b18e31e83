import Highlight.Bracket
import Highlight.Proofs.Document.Blocks

/-! # The order of positions

Positions are ordered by the lines of their blocks and then by their offsets. Edits move lines, but
two blocks that live on never change places, so the order of two positions outlives every edit: it
can be lost only when one of them becomes stale. `Document.Ahead` states the part of the order that
survives without asking whether the blocks live.
-/

namespace Highlight

namespace Document

theorem comparePlaces_eq_lt {a b : Nat × Nat} :
    comparePlaces a b = .lt ↔ a.1 < b.1 ∨ a.1 = b.1 ∧ a.2 < b.2 := by
  simp only [comparePlaces, Ordering.then_eq_lt, Nat.compare_eq_lt, Nat.compare_eq_eq]

theorem comparePlaces_eq_eq {a b : Nat × Nat} : comparePlaces a b = .eq ↔ a = b := by
  simp only [comparePlaces, Ordering.then_eq_eq, Nat.compare_eq_eq, Prod.ext_iff]

theorem comparePlaces_eq_gt {a b : Nat × Nat} :
    comparePlaces a b = .gt ↔ comparePlaces b a = .lt := by
  rw [comparePlaces_eq_lt]
  simp only [comparePlaces, Ordering.then_eq_gt, Nat.compare_eq_gt, Nat.compare_eq_eq]
  omega

theorem comparePlaces_of_not {a b : Nat × Nat} (not_less : comparePlaces a b ≠ .lt)
    (not_equal : comparePlaces a b ≠ .eq) : comparePlaces b a = .lt := by
  rw [← comparePlaces_eq_gt]
  cases order : comparePlaces a b with
  | lt => exact absurd order not_less
  | eq => exact absurd order not_equal
  | gt => rfl

theorem comparePlaces_trans {a b c : Nat × Nat} (first : comparePlaces a b = .lt)
    (second : comparePlaces b c = .lt) : comparePlaces a c = .lt := by
  rw [comparePlaces_eq_lt] at *
  omega

theorem compare?_self {d : Document} (p : Position) : d.compare? p p ≠ some .lt := by
  intro less
  rw [compare?] at less
  split at less
  · simp_all [comparePlaces_eq_lt]
  · cases less

/-! ## Resolved positions -/

theorem resolve?_eq_some {d : Document} {p : Position} {line column : Nat} :
    d.resolve? p = some (line, column) ↔ p.document = d.id ∧ d.blockIndex? p.block = some line ∧
      p.offset = column ∧ column ≤ d.width line := by
  rw [resolve?]
  split
  · rename_i own
    split
    · rename_i index found
      split
      · rename_i fits
        simp only [own, found, Option.some.injEq, Prod.mk.injEq, true_and]
        constructor
        · rintro ⟨rfl, rfl⟩
          exact ⟨rfl, rfl, fits⟩
        · rintro ⟨rfl, rfl, -⟩
          exact ⟨rfl, rfl⟩
      · rename_i short
        simp only [own, found, Option.some.injEq, reduceCtorEq, true_and, false_iff, not_and]
        rintro rfl rfl fits
        exact short fits
    · rename_i gone
      simp [gone]
  · rename_i foreign
    simp [foreign]

theorem WellFormed.eq_place {d : Document} (h : d.WellFormed) {p : Position} {line column : Nat}
    (found : d.resolve? p = some (line, column)) : p = d.place line column := by
  obtain ⟨own, index, rfl, -⟩ := resolve?_eq_some.mp found
  rw [place, h.blockIndex?_eq_some_iff.mp index, Option.getD_some, ← own]

/-- Different blocks have different indices, so a place tells the position, in any document. -/
theorem position_unique {d : Document} {p q : Position} {place : Nat × Nat}
    (hp : d.resolve? p = some place) (hq : d.resolve? q = some place) : p = q := by
  obtain ⟨own, index, offset, -⟩ := resolve?_eq_some.mp hp
  obtain ⟨own', index', offset', -⟩ := resolve?_eq_some.mp hq
  rw [blockIndex?_eq, List.idxOf?_eq_some_iff] at index index'
  obtain ⟨_, block, -⟩ := index
  obtain ⟨_, block', -⟩ := index'
  cases p
  cases q
  rw [Position.mk.injEq]
  exact ⟨own.trans own'.symm, block.symm.trans block', offset.trans offset'.symm⟩

theorem WellFormed.line_lt {d : Document} (h : d.WellFormed) {b : BlockId} {line : Nat}
    (found : d.blockIndex? b = some line) : line < d.blocks.length := by
  rw [h.blockIndex?_eq_some_iff, blockId?_eq] at found
  rw [← length_ids]
  exact (List.getElem?_eq_some_iff.mp found).1

theorem WellFormed.issued_of_index {d : Document} (h : d.WellFormed) {b : BlockId} {line : Nat}
    (found : d.blockIndex? b = some line) : b < d.nextBlock := by
  rw [h.blockIndex?_eq_some_iff, blockId?_eq] at found
  exact h.issued b (List.mem_of_getElem? found)

/-! ## Blocks in document order -/

/-- In the list of identities, one stands before another exactly if its index is smaller. -/
theorem WellFormed.pair_sublist_iff {d : Document} (h : d.WellFormed) {a b : BlockId} {i j : Nat}
    (ha : d.blockIndex? a = some i) (hb : d.blockIndex? b = some j) :
    ([a, b] : List Nat).Sublist d.ids ↔ i < j := by
  rw [h.blockIndex?_eq_some_iff, blockId?_eq, List.getElem?_eq_some_iff] at ha hb
  obtain ⟨hi, rfl⟩ := ha
  obtain ⟨hj, rfl⟩ := hb
  constructor
  · have increasing : d.ids.Pairwise fun a b => d.ids.idxOf a < d.ids.idxOf b := by
      rw [List.pairwise_iff_getElem]
      intro i j hi hj before
      rwa [h.distinct.idxOf_getElem i hi, h.distinct.idxOf_getElem j hj]
    intro pair
    have := List.pairwise_iff_forall_sublist.mp increasing pair
    rwa [h.distinct.idxOf_getElem i hi, h.distinct.idxOf_getElem j hj] at this
  · intro before
    have sublists : d.ids.Pairwise fun a b => [a, b].Sublist d.ids :=
      List.pairwise_iff_forall_sublist.mpr fun pair => pair
    exact List.pairwise_iff_getElem.mp sublists i j hi hj before

/-- The first position stands before the second, as far as their blocks live. -/
def Ahead (d : Document) (a b : Position) : Prop :=
  (a.block = b.block → a.offset < b.offset) ∧ ¬([b.block, a.block] : List Nat).Sublist d.ids

/-- Two blocks that a document has had do not change places later. -/
theorem Evolves.pair_sublist {d d' : Document} (evolved : Evolves d d') {a b : BlockId}
    (ha : a < d.nextBlock) (hb : b < d.nextBlock) (later : ([a, b] : List Nat).Sublist d'.ids) :
    ([a, b] : List Nat).Sublist d.ids := by
  have both : ([a, b] : List Nat).filter (· < d.nextBlock) = [a, b] := by simp [ha, hb]
  have kept := later.filter (· < d.nextBlock)
  rw [both] at kept
  exact kept.trans evolved.survivors

theorem Ahead.evolves {d d' : Document} (evolved : Evolves d d') {a b : Position}
    (ha : a.block < d.nextBlock) (hb : b.block < d.nextBlock) (ahead : d.Ahead a b) :
    d'.Ahead a b :=
  ⟨ahead.1, fun later => ahead.2 (evolved.pair_sublist hb ha later)⟩

/-- Between live positions the part that survives is the whole order. -/
theorem WellFormed.ahead_iff {d : Document} (h : d.WellFormed) {a b : Position}
    {x y : Nat × Nat} (ha : d.resolve? a = some x) (hb : d.resolve? b = some y) :
    d.Ahead a b ↔ comparePlaces x y = .lt := by
  obtain ⟨i, column⟩ := x
  obtain ⟨j, column'⟩ := y
  obtain ⟨-, index_a, rfl, -⟩ := resolve?_eq_some.mp ha
  obtain ⟨-, index_b, rfl, -⟩ := resolve?_eq_some.mp hb
  have same : a.block = b.block ↔ i = j := by
    constructor
    · intro same
      rw [same, index_b] at index_a
      exact (Option.some.inj index_a).symm
    · rintro rfl
      rw [h.blockIndex?_eq_some_iff] at index_a index_b
      exact Option.some.inj (index_a.symm.trans index_b)
  rw [Ahead, comparePlaces_eq_lt, h.pair_sublist_iff index_b index_a, same]
  omega

end Document

end Highlight
