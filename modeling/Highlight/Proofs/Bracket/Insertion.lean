import Highlight.Proofs.Bracket.Order

/-! # Ordered insertion

A bracket is put into a list by a walk that ends at the first entry behind it. Stale entries have no
place, and the walk passes over them as over those in front. So the live entries alone decide where
it ends; if they are in order, it cannot have passed the place of the bracket or one behind it, and
all that lives behind the end of the walk stands behind the bracket.
-/

namespace Highlight

open Document

namespace PlacedBracket

/-- Both are placed, the first before the second. -/
def Before (p q : PlacedBracket) : Prop :=
  ∃ x y, p.1 = some x ∧ q.1 = some y ∧ comparePlaces x y = .lt

theorem Before.trans {p q r : PlacedBracket} (first : p.Before q) (second : q.Before r) :
    p.Before r := by
  obtain ⟨x, y, hp, hq, before⟩ := first
  obtain ⟨y', z, hq', hr, before'⟩ := second
  obtain rfl : y = y' := Option.some.inj (hq.symm.trans hq')
  exact ⟨x, z, hp, hr, comparePlaces_trans before before'⟩

theorem Before.place_ne {p q : PlacedBracket} (before : p.Before q) : p.1 ≠ q.1 := by
  obtain ⟨x, y, hp, hq, before⟩ := before
  intro same
  obtain rfl : x = y := Option.some.inj (hp.symm.trans (same.trans hq))
  rw [comparePlaces_eq_lt] at before
  omega

/-- The entries that are not stale. -/
def live (list : List PlacedBracket) : List PlacedBracket :=
  list.filter (·.1.isSome)

theorem mem_live {list : List PlacedBracket} {p : PlacedBracket} :
    p ∈ live list ↔ p ∈ list ∧ ∃ x, p.1 = some x := by
  rw [live, List.mem_filter, Option.isSome_iff_exists]

theorem live_eq_self {list : List PlacedBracket} (placed : ∀ p ∈ list, p.1.isSome) :
    live list = list :=
  List.filter_eq_self.mpr placed

theorem live_append (front back : List PlacedBracket) :
    live (front ++ back) = live front ++ live back :=
  List.filter_append ..

theorem live_cons {p : PlacedBracket} {x : Nat × Nat} (placed : p.1 = some x)
    (rest : List PlacedBracket) : live (p :: rest) = p :: live rest := by
  rw [live, List.filter_cons_of_pos (by rw [placed]; rfl), live]

/-- What is before the first of some entries in order is before all that live. -/
theorem before_of_head {p : PlacedBracket} {list : List PlacedBracket}
    (sorted : (live list).Pairwise Before) (head : ∀ q ∈ list.head?, p.Before q) :
    ∀ q ∈ live list, p.Before q := by
  cases list with
  | nil => nofun
  | cons first rest =>
      have before := head first rfl
      obtain ⟨_, _, _, placed, _⟩ := head first rfl
      rw [live_cons placed] at sorted ⊢
      intro q member
      rcases List.mem_cons.mp member with rfl | member
      · exact before
      · exact before.trans ((List.pairwise_cons.mp sorted).1 q member)

end PlacedBracket

open PlacedBracket

/-! ## The walk -/

section

variable {place : Nat × Nat} {b : Bracket} {list list' : List PlacedBracket}

/-- In any list, the walk passes over entries that are stale or before the place. It is refused at
    an entry with the same place, and inserts in front of one behind it or at the end. -/
theorem insertAt?_cases (place : Nat × Nat) (b : Bracket) (list : List PlacedBracket) :
    ∃ front back, list = front ++ back ∧ (∀ p ∈ live front, p.Before (some place, b)) ∧
      (insertAt? place b list = none ∧ (∃ p ∈ back, p.1 = some place) ∨
        insertAt? place b list = some (front ++ (some place, b) :: back) ∧
          ∀ p ∈ back.head?, Before (some place, b) p) := by
  induction list with
  | nil => exact ⟨[], [], rfl, nofun, .inr ⟨rfl, nofun⟩⟩
  | cons other rest ih =>
      obtain ⟨front, back, rfl, passed, walked⟩ := ih
      rw [insertAt?]
      split
      · rename_i less
        obtain ⟨here, found, less⟩ := Option.map_eq_some_iff.mp less
        refine ⟨[], other :: (front ++ back), rfl, nofun, .inr ⟨rfl, ?_⟩⟩
        intro p head
        obtain rfl := Option.some.inj head
        exact ⟨place, here, rfl, found, less⟩
      · rename_i same
        obtain ⟨here, found, same⟩ := Option.map_eq_some_iff.mp same
        rw [comparePlaces_eq_eq] at same
        exact ⟨[], other :: (front ++ back), rfl, nofun,
          .inl ⟨rfl, other, List.mem_cons_self, same ▸ found⟩⟩
      · -- The entry is stale or in front of the place, and the walk goes on.
        rename_i not_less not_equal
        have passed' : ∀ p ∈ live (other :: front), p.Before (some place, b) := by
          intro p member
          obtain ⟨member, x, found⟩ := mem_live.mp member
          rcases List.mem_cons.mp member with rfl | member
          · rw [found, Option.map_some] at not_less not_equal
            exact ⟨x, place, found, rfl, comparePlaces_of_not
              (fun less => not_less (congrArg some less))
              (fun equal => not_equal (congrArg some equal))⟩
          · exact passed p (mem_live.mpr ⟨member, x, found⟩)
        refine ⟨other :: front, back, rfl, passed', ?_⟩
        rcases walked with ⟨refused, tracked⟩ | ⟨inserted, head⟩
        · exact .inl ⟨by rw [refused]; rfl, tracked⟩
        · exact .inr ⟨by rw [inserted]; rfl, head⟩

theorem insertAt?_perm (h : insertAt? place b list = some list') :
    list'.Perm ((some place, b) :: list) := by
  obtain ⟨front, back, rfl, -, ⟨refused, -⟩ | ⟨inserted, -⟩⟩ := insertAt?_cases place b list
  · cases refused.symm.trans h
  · obtain rfl := Option.some.inj (inserted.symm.trans h)
    exact List.perm_middle

theorem insertAt?_eq_none_iff (sorted : (live list).Pairwise Before) :
    insertAt? place b list = none ↔ ∃ p ∈ list, p.1 = some place := by
  obtain ⟨front, back, rfl, passed, ⟨refused, p, member, here⟩ | ⟨inserted, head⟩⟩ :=
    insertAt?_cases place b list
  · simp only [refused, true_iff]
    exact ⟨p, List.mem_append_right front member, here⟩
  · -- What lives in front of the inserted entry is smaller, what lives behind it is larger.
    simp only [inserted, reduceCtorEq, false_iff]
    rintro ⟨p, member, here⟩
    rw [live_append] at sorted
    rcases List.mem_append.mp member with member | member
    · exact (passed p (mem_live.mpr ⟨member, place, here⟩)).place_ne here
    · have before := before_of_head (List.pairwise_append.mp sorted).2.1 head
      exact (before p (mem_live.mpr ⟨member, place, here⟩)).place_ne here.symm

theorem insertAt?_sorted (sorted : (live list).Pairwise Before)
    (h : insertAt? place b list = some list') : (live list').Pairwise Before := by
  obtain ⟨front, back, rfl, passed, ⟨refused, -⟩ | ⟨inserted, head⟩⟩ := insertAt?_cases place b list
  · cases refused.symm.trans h
  · obtain rfl := Option.some.inj (inserted.symm.trans h)
    rw [live_append] at sorted
    obtain ⟨sorted_front, sorted_back, across⟩ := List.pairwise_append.mp sorted
    rw [live_append, live_cons rfl]
    refine List.pairwise_append.mpr ⟨sorted_front,
      List.pairwise_cons.mpr ⟨before_of_head sorted_back head, sorted_back⟩, ?_⟩
    intro p ahead q behind
    rcases List.mem_cons.mp behind with rfl | behind
    · exact passed p ahead
    · exact across p ahead q behind

end

/-! ## Lists of brackets -/

/-- The brackets of a list that are not stale are in document order. -/
def Document.LiveOrdered (d : Document) (list : List Bracket) : Prop :=
  (list.filter (d.isValid ·.position)).Pairwise fun a b =>
    d.compare? a.position b.position = some .lt

instance (d : Document) (list : List Bracket) : Decidable (d.LiveOrdered list) :=
  inferInstanceAs (Decidable (List.Pairwise _ _))

/-- A bracket does not go into a list: its position is stale, or that of an entry that is not. -/
def Bracket.RefusedBy (b : Bracket) (d : Document) (list : List Bracket) : Prop :=
  d.isValid b.position = false ∨ ∃ e ∈ list, d.isValid e.position = true ∧ e.position = b.position

instance (b : Bracket) (d : Document) (list : List Bracket) : Decidable (b.RefusedBy d list) :=
  inferInstanceAs (Decidable (_ ∨ _))

section

variable {d : Document} {b : Bracket} {list list' : List Bracket}

theorem Bracket.placeIn_fst (d : Document) (b : Bracket) :
    (b.placeIn d).1 = d.resolve? b.position :=
  rfl

theorem before_placeIn {a b : Bracket} :
    (a.placeIn d).Before (b.placeIn d) ↔ d.compare? a.position b.position = some .lt := by
  rw [Before, compare?]
  cases ha : d.resolve? a.position <;> cases hb : d.resolve? b.position <;>
    simp [Bracket.placeIn, ha, hb]

theorem liveOrdered_iff :
    d.LiveOrdered list ↔ (live (list.map (·.placeIn d))).Pairwise Before := by
  rw [live, List.filter_map, List.pairwise_map]
  simp only [before_placeIn]
  rfl

theorem map_placeIn (list : List Bracket) : (list.map (·.placeIn d)).map (·.2) = list := by
  simp [Bracket.placeIn, Function.comp_def]

/-- What is placed where a position is has that position. -/
theorem exists_placed_iff {p : Position} {place : Nat × Nat} (resolved : d.resolve? p = some place) :
    (∃ q ∈ list.map (·.placeIn d), q.1 = some place) ↔
      ∃ e ∈ list, d.isValid e.position = true ∧ e.position = p := by
  constructor
  · rintro ⟨q, member, here⟩
    obtain ⟨e, tracked, rfl⟩ := List.mem_map.mp member
    rw [Bracket.placeIn_fst] at here
    exact ⟨e, tracked, by rw [isValid, here]; rfl, position_unique here resolved⟩
  · rintro ⟨e, member, -, rfl⟩
    exact ⟨_, List.mem_map_of_mem member, resolved⟩

theorem insertOrdered?_eq_none_iff (ordered : d.LiveOrdered list) :
    insertOrdered? d b list = none ↔ b.RefusedBy d list := by
  rw [insertOrdered?, insertPlaced?, Option.map_eq_none_iff, Bracket.RefusedBy, isValid]
  cases resolved : d.resolve? b.position with
  | none => simp
  | some place =>
      rw [Option.bind_some, insertAt?_eq_none_iff (liveOrdered_iff.mp ordered),
        exists_placed_iff resolved]
      simp

/-- An insertion puts the bracket between two parts of the list, right in front of an entry behind
    it or at the end. The list of placed brackets gets it at the same point. -/
theorem insertOrdered?_eq_some (h : insertOrdered? d b list = some list') :
    insertPlaced? d b (list.map (·.placeIn d)) = some (list'.map (·.placeIn d)) ∧
      ∃ front back, list = front ++ back ∧ list' = front ++ b :: back ∧
        ∀ e ∈ back.head?, d.compare? b.position e.position = some .lt := by
  obtain ⟨placed, inserted, rfl⟩ := Option.map_eq_some_iff.mp h
  obtain ⟨place, resolved, inserted_at⟩ := Option.bind_eq_some_iff.mp inserted
  obtain ⟨front, back, split, -, ⟨refused, -⟩ | ⟨walked, head⟩⟩ :=
    insertAt?_cases place b (list.map (·.placeIn d))
  · cases refused.symm.trans inserted_at
  · obtain rfl := Option.some.inj (walked.symm.trans inserted_at)
    obtain ⟨front, back, rfl, rfl, rfl⟩ := List.map_eq_append_iff.mp split
    have here : (some place, b) = b.placeIn d := by rw [Bracket.placeIn, resolved]
    have whole : front.map (·.placeIn d) ++ (some place, b) :: back.map (·.placeIn d) =
        (front ++ b :: back).map (·.placeIn d) := by
      rw [here, List.map_append, List.map_cons]
    rw [whole, map_placeIn]
    refine ⟨whole ▸ inserted, front, back, rfl, rfl, ?_⟩
    intro e first
    have before := head (e.placeIn d) (by rw [List.head?_map, first]; rfl)
    exact before_placeIn.mp (here ▸ before)

theorem insertOrdered?_liveOrdered (ordered : d.LiveOrdered list)
    (h : insertOrdered? d b list = some list') : d.LiveOrdered list' := by
  obtain ⟨place, -, inserted⟩ := Option.bind_eq_some_iff.mp (insertOrdered?_eq_some h).1
  exact liveOrdered_iff.mpr (insertAt?_sorted (liveOrdered_iff.mp ordered) inserted)

end

/-- Stale entries do not disturb an insertion. If the entries that are not stale are in order, a
    bracket is refused exactly if it is stale itself or stands where one of them stands. Otherwise
    it goes in at one point, in front of the first entry behind it or at the end; all others stay as
    they are, in the order that they had, and those that are not stale are in order again. -/
theorem insertion_passes_stale_entries (d : Document) (list : List Bracket) (b : Bracket)
    (ordered : d.LiveOrdered list) :
    (insertOrdered? d b list = none ↔ b.RefusedBy d list) ∧
      (¬b.RefusedBy d list → ∃ front back, list = front ++ back ∧
        insertOrdered? d b list = some (front ++ b :: back) ∧
        (∀ e ∈ back.head?, d.compare? b.position e.position = some .lt) ∧
        d.LiveOrdered (front ++ b :: back)) := by
  refine ⟨insertOrdered?_eq_none_iff ordered, fun fits => ?_⟩
  rw [← insertOrdered?_eq_none_iff ordered] at fits
  obtain ⟨list', inserted⟩ := Option.ne_none_iff_exists'.mp fits
  obtain ⟨-, front, back, rfl, rfl, head⟩ := insertOrdered?_eq_some inserted
  exact ⟨front, back, rfl, inserted, head, insertOrdered?_liveOrdered ordered inserted⟩

/-- Two lines of brackets, and stale entries in front of, between and behind those that are tracked.
    The missing one goes in behind a stale entry, a tracked one is refused. -/
theorem insertion_between_stale_entries :
    let d := Document.ofText 0 ['\x7b', '\n', '\x7d', '\x7b']
    let bracket := fun block offset kind => Bracket.mk ⟨0, block, offset⟩ kind
    let list := [bracket 0 0 .opening, bracket 1 0 .opening, bracket 2 7 .closing,
      bracket 2 1 .opening, bracket 0 3 .closing]
    let list' := [bracket 0 0 .opening, bracket 1 0 .opening, bracket 2 7 .closing,
      bracket 2 0 .closing, bracket 2 1 .opening, bracket 0 3 .closing]
    d.LiveOrdered list ∧ ¬(bracket 2 0 .closing).RefusedBy d list ∧
      insertOrdered? d (bracket 2 0 .closing) list = some list' ∧ d.LiveOrdered list' ∧
      insertOrdered? d (bracket 2 1 .opening) list = none := by
  intro d bracket list list'
  have ordered : d.LiveOrdered list := by decide
  have missing : ¬(bracket 2 0 .closing).RefusedBy d list := by decide
  have tracked : (bracket 2 1 .opening).RefusedBy d list := by decide
  have walked : insertOrdered? d (bracket 2 0 .closing) list = some list' := by decide
  obtain ⟨front, back, -, inserted, -, ordered'⟩ :=
    (insertion_passes_stale_entries d list (bracket 2 0 .closing) ordered).2 missing
  rw [Option.some.inj (inserted.symm.trans walked)] at ordered'
  exact ⟨ordered, missing, walked, ordered',
    (insertion_passes_stale_entries d list (bracket 2 1 .opening) ordered).1.mpr tracked⟩

end Highlight
