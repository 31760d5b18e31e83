import Highlight.Bracket
import Highlight.Document.Edit
import Mathlib.Data.List.Forall2
import Mathlib.Tactic.Common

/-! # Connectors join matched pairs

Which brackets of a list belong together can be said without a stack: an opening bracket and a later
closing one match if what stands between them is balanced. The stack holds exactly the opening
brackets behind which the list never falls below their level, the one at depth `n` with `n` levels
above it. So a closing bracket finds its partner on top of the stack, if it has one, and a pair
whose line is not drawn takes its opening bracket off the stack like any other.
-/

namespace Highlight

def BracketKind.count (kind : BracketKind) (bs : List Bracket) : Nat :=
  bs.countP (·.kind = kind)

/-- There are `n` more opening brackets than closing ones, and no front of the list has more closing
    ones than opening ones. For `n = 0` the list is balanced. -/
structure Rises (n : Nat) (bs : List Bracket) : Prop where
  total : BracketKind.opening.count bs = BracketKind.closing.count bs + n
  above : ∀ front, front <+: bs → BracketKind.closing.count front ≤ BracketKind.opening.count front

/-- The brackets at two indices belong together. -/
structure Matched (bs : List Bracket) (i j : Nat) : Prop where
  before : i < j
  opening : bs[i]?.map (·.kind) = some .opening
  closing : bs[j]?.map (·.kind) = some .closing
  between : Rises 0 ((bs.take j).drop (i + 1))

/-- Two pairs of indices do not cross: they lie side by side, or one lies inside the other. -/
def Apart (p q : Nat × Nat) : Prop :=
  p.2 < q.1 ∨ q.2 < p.1 ∨ (p.1 < q.1 ∧ q.2 < p.2) ∨ (q.1 < p.1 ∧ p.2 < q.2)

/-! ## Levels -/

theorem BracketKind.count_append (kind : BracketKind) (first second : List Bracket) :
    kind.count (first ++ second) = kind.count first + kind.count second :=
  List.countP_append

theorem BracketKind.count_cons (kind : BracketKind) (b : Bracket) (bs : List Bracket) :
    kind.count (b :: bs) = kind.count bs + if b.kind = kind then 1 else 0 := by
  simp [count, List.countP_cons]

theorem BracketKind.count_nil (kind : BracketKind) : kind.count [] = 0 :=
  rfl

namespace Rises

theorem nil_iff {n : Nat} : Rises n [] ↔ n = 0 := by
  constructor
  · intro h
    simpa [BracketKind.count_nil] using h.total.symm
  · rintro rfl
    exact ⟨rfl, fun front h => by simp [List.prefix_nil.mp h, BracketKind.count_nil]⟩

/-- With one bracket more, only the sum has to be checked again. -/
theorem concat_iff {n : Nat} {bs : List Bracket} {b : Bracket} : Rises n (bs ++ [b]) ↔
    BracketKind.opening.count (bs ++ [b]) = BracketKind.closing.count (bs ++ [b]) + n ∧
      ∀ front, front <+: bs →
        BracketKind.closing.count front ≤ BracketKind.opening.count front := by
  constructor
  · intro h
    exact ⟨h.total, fun front inside => h.above front (inside.trans (List.prefix_append _ _))⟩
  · rintro ⟨total, above⟩
    refine ⟨total, fun front inside => ?_⟩
    rcases List.prefix_concat_iff.mp inside with rfl | inside
    · omega
    · exact above front inside

theorem concat_opening {n : Nat} {bs : List Bracket} {b : Bracket} (kind : b.kind = .opening) :
    Rises n (bs ++ [b]) ↔ ∃ m, n = m + 1 ∧ Rises m bs := by
  simp only [concat_iff, BracketKind.count_append, BracketKind.count_cons, BracketKind.count_nil,
    kind, if_true, reduceCtorEq, if_false]
  constructor
  · rintro ⟨total, above⟩
    have whole := above bs (List.prefix_refl _)
    exact ⟨n - 1, by omega, by omega, above⟩
  · rintro ⟨m, rfl, total, above⟩
    exact ⟨by omega, above⟩

theorem concat_closing {n : Nat} {bs : List Bracket} {b : Bracket} (kind : b.kind = .closing) :
    Rises n (bs ++ [b]) ↔ Rises (n + 1) bs := by
  simp only [concat_iff, BracketKind.count_append, BracketKind.count_cons, BracketKind.count_nil,
    kind, if_true, reduceCtorEq, if_false]
  constructor
  · rintro ⟨total, above⟩
    exact ⟨by omega, above⟩
  · rintro ⟨total, above⟩
    exact ⟨by omega, above⟩

end Rises

/-! ## Matched pairs do not cross -/

/-- How many brackets are open in front of an index, less the closing ones without a partner. -/
def levelAt (bs : List Bracket) (n : Nat) : Int :=
  BracketKind.opening.count (bs.take n) - BracketKind.closing.count (bs.take n)

theorem levelAt_succ {bs : List Bracket} {n : Nat} {b : Bracket} (found : bs[n]? = some b) :
    levelAt bs (n + 1) = levelAt bs n + match b.kind with
      | .opening => 1
      | .closing => -1 := by
  obtain ⟨inside, rfl⟩ := List.getElem?_eq_some_iff.mp found
  simp only [levelAt, List.take_succ_eq_append_getElem inside, BracketKind.count_append,
    BracketKind.count_cons, BracketKind.count_nil]
  cases bs[n].kind <;> simp <;> omega

theorem levelAt_between {bs : List Bracket} {i k : Nat} (h : i < k) :
    levelAt bs k = levelAt bs (i + 1) + BracketKind.opening.count ((bs.take k).drop (i + 1)) -
      BracketKind.closing.count ((bs.take k).drop (i + 1)) := by
  have split := List.take_append_drop (i + 1) (bs.take k)
  rw [List.take_take, Nat.min_eq_left h] at split
  have opens := BracketKind.count_append .opening (bs.take (i + 1)) ((bs.take k).drop (i + 1))
  have closes := BracketKind.count_append .closing (bs.take (i + 1)) ((bs.take k).drop (i + 1))
  rw [split] at opens closes
  simp only [levelAt, opens, closes]
  omega

namespace Matched

variable {bs : List Bracket} {i j k l : Nat}

theorem level_opening (m : Matched bs i j) : levelAt bs (i + 1) = levelAt bs i + 1 := by
  obtain ⟨b, found, kind⟩ := Option.map_eq_some_iff.mp m.opening
  rw [levelAt_succ found, kind]

theorem level_closing (m : Matched bs i j) : levelAt bs (j + 1) = levelAt bs j - 1 := by
  obtain ⟨b, found, kind⟩ := Option.map_eq_some_iff.mp m.closing
  rw [levelAt_succ found, kind]
  rfl

theorem level_le (m : Matched bs i j) (from_start : i < k) (to_stop : k ≤ j) :
    levelAt bs (i + 1) ≤ levelAt bs k := by
  have front : (bs.take k).drop (i + 1) <+: (bs.take j).drop (i + 1) := by
    rw [List.drop_take, List.drop_take]
    exact List.take_prefix_take_left (by omega)
  have above := m.between.above _ front
  rw [levelAt_between from_start]
  omega

theorem level_eq (m : Matched bs i j) : levelAt bs j = levelAt bs (i + 1) := by
  have total := m.between.total
  rw [levelAt_between m.before]
  omega

/-- A pair that starts inside of another one ends there. -/
theorem nested (outer : Matched bs i j) (inner : Matched bs k l) (behind : i < k)
    (inside : k < j) : l < j := by
  by_contra beyond
  have outer_start := outer.level_le behind (Nat.le_of_lt inside)
  have inner_start := inner.level_opening
  have outer_stop := outer.level_eq
  have inner_stop := inner.level_le inside (Nat.not_lt.mp beyond)
  omega

theorem le_of_same_start (m : Matched bs i j) (m' : Matched bs i l) : l ≤ j := by
  by_contra beyond
  have stop := m.level_eq
  have below := m.level_closing
  have above := m'.level_le (k := j + 1) (Nat.lt_succ_of_lt m.before) (Nat.not_le.mp beyond)
  omega

theorem opening_ne_closing (m : Matched bs i j) (m' : Matched bs k l) : i ≠ l := by
  rintro rfl
  exact absurd (m.opening.symm.trans m'.closing) (by simp)

theorem apart_of_lt (m : Matched bs i j) (m' : Matched bs k l) (behind : i < k) :
    Apart (i, j) (k, l) := by
  rcases Nat.lt_trichotomy j k with before | same | inside
  · exact .inl before
  · exact absurd same.symm (m'.opening_ne_closing m)
  · exact .inr (.inr (.inl ⟨behind, m.nested m' behind inside⟩))

theorem apart (m : Matched bs i j) (m' : Matched bs k l) (other : (i, j) ≠ (k, l)) :
    Apart (i, j) (k, l) := by
  rcases Nat.lt_trichotomy i k with behind | rfl | before
  · exact m.apart_of_lt m' behind
  · have same := Nat.le_antisymm (m'.le_of_same_start m) (m.le_of_same_start m')
    exact absurd (congrArg (i, ·) same) other
  · have apart := m'.apart_of_lt m before
    simp only [Apart] at apart ⊢
    omega

end Matched

/-! ## The stack -/

/-- The pairs of a list by their indices; `stack` holds those of the open brackets, and the list
    starts at the index `next`. -/
def matchIndices (stack : List Nat) (next : Nat) : List Bracket → List (Nat × Nat)
  | [] => []
  | b :: rest =>
    match b.kind, stack with
    | .opening, _ => matchIndices (next :: stack) (next + 1) rest
    | .closing, [] => matchIndices [] (next + 1) rest
    | .closing, first :: stack => (first, next) :: matchIndices stack (next + 1) rest

/-- The stack behind some brackets: at depth `n` the opening one with `n` levels above it. -/
def Standing (done : List Bracket) (stack : List Nat) : Prop :=
  ∀ n i, stack[n]? = some i ↔
    done[i]?.map (·.kind) = some .opening ∧ Rises n (done.drop (i + 1))

namespace Standing

variable {done : List Bracket} {stack : List Nat} {b : Bracket}

theorem empty : Standing [] [] := by
  intro n i
  simp

theorem lt_length (h : Standing done stack) {n i : Nat} (held : stack[n]? = some i) :
    i < done.length := by
  obtain ⟨b, found, -⟩ := Option.map_eq_some_iff.mp ((h n i).mp held).1
  exact (List.getElem?_eq_some_iff.mp found).1

theorem opened (h : Standing done stack) (kind : b.kind = .opening) :
    Standing (done ++ [b]) (done.length :: stack) := by
  intro n i
  rcases Nat.lt_trichotomy i done.length with inside | rfl | outside
  · rw [List.getElem?_append_left inside, List.drop_append_of_le_length inside,
      Rises.concat_opening kind]
    cases n with
    | zero =>
        have other : done.length ≠ i := by omega
        simp [other]
    | succ n =>
        have held := h n i
        simp only [List.getElem?_cons_succ, held, Nat.add_right_cancel_iff]
        simp
  · have behind : (done ++ [b]).drop (done.length + 1) = [] := by simp
    rw [behind, Rises.nil_iff]
    cases n with
    | zero => simp [kind]
    | succ n =>
        have not_held : stack[n]? ≠ some done.length :=
          fun held => Nat.lt_irrefl _ (h.lt_length held)
        simp [not_held]
  · have none : (done ++ [b])[i]? = none := by
      rw [List.getElem?_eq_none_iff, List.length_append, List.length_singleton]
      omega
    cases n with
    | zero =>
        have other : done.length ≠ i := by omega
        simp [other, none]
    | succ n =>
        have not_held : stack[n]? ≠ some i := fun held => by
          have := h.lt_length held
          omega
        simp [not_held, none]

theorem closed (h : Standing done stack) (kind : b.kind = .closing) :
    Standing (done ++ [b]) stack.tail := by
  intro n i
  rw [List.getElem?_tail]
  by_cases inside : i < done.length
  · rw [List.getElem?_append_left inside, List.drop_append_of_le_length inside,
      Rises.concat_closing kind]
    exact h (n + 1) i
  · have not_held : stack[n + 1]? ≠ some i := fun held => inside (h.lt_length held)
    have not_open : (done ++ [b])[i]?.map (·.kind) ≠ some .opening := by
      intro opening
      obtain ⟨c, found, c_kind⟩ := Option.map_eq_some_iff.mp opening
      rw [List.getElem?_append_right (by omega), List.getElem?_singleton] at found
      split at found
      · cases found
        simp [kind] at c_kind
      · cases found
    simp [not_held, not_open]

end Standing

/-- A bracket can match the one at the end of `done` only if it is on top of the stack. -/
theorem Standing.matched_iff {done rest : List Bracket} {stack : List Nat} {b : Bracket} {i : Nat}
    (h : Standing done stack) (kind : b.kind = .closing) :
    Matched (done ++ b :: rest) i done.length ↔ stack[0]? = some i := by
  rw [h 0 i]
  constructor
  · intro m
    refine ⟨?_, by simpa using m.between⟩
    rw [← m.opening, List.getElem?_append_left m.before]
  · rintro ⟨opening, level⟩
    have inside : i < done.length := h.lt_length ((h 0 i).mpr ⟨opening, level⟩)
    exact ⟨inside, by rw [List.getElem?_append_left inside, opening], by simp [kind],
      by simpa using level⟩

theorem mem_matchIndices {bs done rest : List Bracket} {stack : List Nat}
    (split : bs = done ++ rest) (h : Standing done stack) {i j : Nat} :
    (i, j) ∈ matchIndices stack done.length rest ↔ done.length ≤ j ∧ Matched bs i j := by
  induction rest generalizing done stack with
  | nil =>
      simp only [matchIndices, List.not_mem_nil, false_iff, not_and]
      intro behind m
      have none : bs[j]? = none := by
        rw [split, List.append_nil, List.getElem?_eq_none_iff]
        exact behind
      simpa [none] using m.closing
  | cons b rest ih =>
      have split' : bs = (done ++ [b]) ++ rest := by simpa using split
      have length : (done ++ [b]).length = done.length + 1 := by simp
      have here : bs[done.length]?.map (·.kind) = some b.kind := by simp [split]
      -- Only the bracket read now can be the last of a pair that does not come later.
      have now_or_later : done.length ≤ j ↔ j = done.length ∨ done.length + 1 ≤ j := by omega
      rw [now_or_later, or_and_right]
      cases kind : b.kind with
      | opening =>
          have not_now : ¬(j = done.length ∧ Matched bs i j) := by
            rintro ⟨rfl, m⟩
            rw [m.closing, kind] at here
            cases here
          have later := ih split' (h.opened kind)
          rw [length] at later
          simp only [matchIndices, kind, later, not_now, false_or]
      | closing =>
          have now : Matched bs i done.length ↔ stack[0]? = some i := split ▸ h.matched_iff kind
          have later := ih split' (h.closed kind)
          rw [length] at later
          cases stack with
          | nil =>
              have not_now : ¬(j = done.length ∧ Matched bs i j) := by
                rintro ⟨rfl, m⟩
                simpa using now.mp m
              simp only [matchIndices, kind, not_now, false_or]
              exact later
          | cons first stack =>
              simp only [matchIndices, kind, List.mem_cons, Prod.mk.injEq]
              refine or_congr ?_ later
              constructor
              · rintro ⟨rfl, rfl⟩
                exact ⟨rfl, now.mpr rfl⟩
              · rintro ⟨rfl, m⟩
                exact ⟨(Option.some.inj (now.mp m)).symm, rfl⟩

theorem matchIndices_ordered (stack : List Nat) (next : Nat) (bs : List Bracket) :
    (matchIndices stack next bs).Pairwise (·.2 < ·.2) ∧
      ∀ p ∈ matchIndices stack next bs, next ≤ p.2 := by
  fun_induction matchIndices stack next bs with
  | case1 => simp
  | case2 stack next b rest _ ih => exact ⟨ih.1, fun p hp => Nat.le_of_succ_le (ih.2 p hp)⟩
  | case3 next b rest _ ih => exact ⟨ih.1, fun p hp => Nat.le_of_succ_le (ih.2 p hp)⟩
  | case4 next b rest first stack _ ih =>
      refine ⟨List.pairwise_cons.mpr ⟨fun p hp => ih.2 p hp, ih.1⟩, ?_⟩
      rintro p (_ | ⟨_, hp⟩)
      · exact Nat.le_refl _
      · exact Nat.le_of_succ_le (ih.2 p hp)

/-! ## Lines -/

/-- The brackets at a pair of indices. -/
def pairAt? (bs : List Bracket) (p : Nat × Nat) : Option (Bracket × Bracket) :=
  bs[p.1]?.bind fun first => bs[p.2]?.map (first, ·)

theorem pairAt?_eq_some {bs : List Bracket} {p : Nat × Nat} {first last : Bracket} :
    pairAt? bs p = some (first, last) ↔ bs[p.1]? = some first ∧ bs[p.2]? = some last := by
  simp only [pairAt?, Option.bind_eq_some_iff, Option.map_eq_some_iff, Prod.mk.injEq]
  constructor
  · rintro ⟨a, ha, b, hb, rfl, rfl⟩
    exact ⟨ha, hb⟩
  · rintro ⟨ha, hb⟩
    exact ⟨first, ha, last, hb, rfl, rfl⟩

/-- Pairing by brackets is pairing by indices. -/
theorem matchPairs_eq {bs done rest held : List Bracket} {stack : List Nat}
    (split : bs = done ++ rest) (same : stack.map (bs[·]?) = held.map some) :
    matchPairs held rest = (matchIndices stack done.length rest).filterMap (pairAt? bs) := by
  induction rest generalizing done held stack with
  | nil => rfl
  | cons b rest ih =>
      have split' : bs = (done ++ [b]) ++ rest := by simpa using split
      have length : (done ++ [b]).length = done.length + 1 := by simp
      have here : bs[done.length]? = some b := by simp [split]
      have later {held : List Bracket} {stack : List Nat}
          (same : stack.map (bs[·]?) = held.map some) : matchPairs held rest =
            (matchIndices stack (done.length + 1) rest).filterMap (pairAt? bs) :=
        length ▸ ih split' same
      cases kind : b.kind with
      | opening =>
          simp only [matchPairs, matchIndices, kind]
          exact later (by simp [here, same])
      | closing =>
          cases stack with
          | nil =>
              obtain rfl : held = [] := by simpa using same.symm
              simp only [matchPairs, matchIndices, kind]
              exact later rfl
          | cons top stack =>
              cases held with
              | nil => simp at same
              | cons first held =>
                  simp only [List.map_cons, List.cons.injEq] at same
                  have pair := pairAt?_eq_some (p := (top, done.length)).mpr ⟨same.1, here⟩
                  simp only [matchPairs, matchIndices, kind, List.filterMap_cons_some pair]
                  rw [later same.2]

/-- The line between two brackets is not out of view. -/
def InView (d : Document) (first last : Bracket) : Prop :=
  ∃ upper lower, d.rectOf? first.position = some upper ∧ d.rectOf? last.position = some lower ∧
    ¬(lower.y < 0 ∨ upper.y > d.geometry.viewportHeight)

/-- The line between two brackets, from below the first one down to the last. -/
def Joins (d : Document) (stroke : Stroke) (first last : Bracket) (line : Connector) : Prop :=
  ∃ upper lower, d.rectOf? first.position = some upper ∧ d.rectOf? last.position = some lower ∧
    line = ⟨upper.x + upper.width / 2, upper.bottom, lower.y - upper.bottom, stroke⟩

theorem connector?_eq_some {d : Document} {stroke : Stroke} {first last : Bracket}
    (hf : d.isValid first.position = true) (hl : d.isValid last.position = true)
    {line : Connector} : connector? d stroke first last = some line ↔
      first.position.block ≠ last.position.block ∧ InView d first last ∧
        Joins d stroke first last line := by
  obtain ⟨place, resolved⟩ := Option.isSome_iff_exists.mp hf
  obtain ⟨place', resolved'⟩ := Option.isSome_iff_exists.mp hl
  have block : d.blockOf? first.position = some first.position.block := by
    simp [Document.blockOf?, resolved]
  have block' : d.blockOf? last.position = some last.position.block := by
    simp [Document.blockOf?, resolved']
  obtain ⟨upper, rect⟩ : ∃ upper, d.rectOf? first.position = some upper := by
    simp [Document.rectOf?, resolved]
  obtain ⟨lower, rect'⟩ : ∃ lower, d.rectOf? last.position = some lower := by
    simp [Document.rectOf?, resolved']
  have in_view : InView d first last ↔
      ¬(lower.y < 0 ∨ upper.y > d.geometry.viewportHeight) := by
    simp [InView, rect, rect']
  have joins : Joins d stroke first last line ↔
      line = ⟨upper.x + upper.width / 2, upper.bottom, lower.y - upper.bottom, stroke⟩ := by
    simp [Joins, rect, rect']
  rw [in_view, joins]
  simp only [connector?, block, block', rect, rect', bind, Option.bind_some, pure]
  by_cases same : first.position.block = last.position.block
  · simp [same]
  · by_cases out : lower.y < 0 ∨ upper.y > d.geometry.viewportHeight
    · simp only [same, out, if_false, if_true, Option.bind_none, not_true, false_and, and_false,
        reduceCtorEq]
    · simp only [same, out, if_false, not_false_eq_true, true_and, ne_eq, Option.some.injEq]
      exact eq_comm

theorem forall₂_filter_filterMap {α β : Type} (f : α → Option β) (xs : List α) :
    List.Forall₂ (fun x y => f x = some y) (xs.filter fun x => (f x).isSome) (xs.filterMap f) := by
  induction xs with
  | nil => exact .nil
  | cons x xs ih =>
      cases value : f x with
      | none => simpa [value] using ih
      | some y => simpa [value] using ih

/-- The lines drawn for a list of brackets join exactly the matched pairs over several blocks that
    are in view, one line for a pair, by their closing brackets. No bracket has two lines, and the
    pairs never cross. -/
theorem connectors_join_matched_pairs {d : Document} {bs : List Bracket}
    (valid : ∀ b ∈ bs, d.isValid b.position = true) (stroke : Stroke) :
    ∃ drawn : List (Nat × Nat),
      (∀ i j, (i, j) ∈ drawn ↔ Matched bs i j ∧ ∃ first last, bs[i]? = some first ∧
        bs[j]? = some last ∧ first.position.block ≠ last.position.block ∧ InView d first last) ∧
      drawn.Pairwise (·.2 < ·.2) ∧
      List.Forall₂ (fun p line => ∃ first last, bs[p.1]? = some first ∧ bs[p.2]? = some last ∧
        Joins d stroke first last line) drawn (connectorLines d stroke bs) ∧
      (∀ p ∈ drawn, ∀ q ∈ drawn, p ≠ q →
        Apart p q ∧ p.1 ≠ q.1 ∧ p.1 ≠ q.2 ∧ p.2 ≠ q.1 ∧ p.2 ≠ q.2) := by
  let line (p : Nat × Nat) : Option Connector :=
    (pairAt? bs p).bind fun pair => connector? d stroke pair.1 pair.2
  have all : bs = [] ++ bs := rfl
  have lines_eq : connectorLines d stroke bs = (matchIndices [] 0 bs).filterMap line := by
    have pairs : matchPairs [] bs = (matchIndices [] 0 bs).filterMap (pairAt? bs) :=
      matchPairs_eq all rfl
    rw [connectorLines, pairs, List.filterMap_filterMap]
  have line_eq_some {p : Nat × Nat} {c : Connector} : line p = some c ↔ ∃ first last,
      bs[p.1]? = some first ∧ bs[p.2]? = some last ∧
        first.position.block ≠ last.position.block ∧ InView d first last ∧
          Joins d stroke first last c := by
    simp only [line, Option.bind_eq_some_iff, Prod.exists, pairAt?_eq_some, and_assoc]
    refine exists_congr fun first => exists_congr fun last => and_congr_right fun hf =>
      and_congr_right fun hl => ?_
    exact connector?_eq_some (valid _ (List.mem_of_getElem? hf)) (valid _ (List.mem_of_getElem? hl))
  let drawn := (matchIndices [] 0 bs).filter fun p => (line p).isSome
  have mem_drawn (i j : Nat) : (i, j) ∈ drawn ↔ Matched bs i j ∧ (line (i, j)).isSome = true := by
    have pairs : (i, j) ∈ matchIndices [] 0 bs ↔ 0 ≤ j ∧ Matched bs i j :=
      mem_matchIndices all .empty
    rw [List.mem_filter, pairs]
    simp
  have matched {p : Nat × Nat} (member : p ∈ drawn) : Matched bs p.1 p.2 :=
    ((mem_drawn p.1 p.2).mp member).1
  refine ⟨drawn, fun i j => ?_, (matchIndices_ordered [] 0 bs).1.filter _, ?_,
    fun p hp q hq other => ?_⟩
  · rw [mem_drawn, Option.isSome_iff_exists]
    refine and_congr_right fun _ => ?_
    constructor
    · rintro ⟨c, found⟩
      obtain ⟨first, last, hf, hl, blocks, in_view, -⟩ := line_eq_some.mp found
      exact ⟨first, last, hf, hl, blocks, in_view⟩
    · rintro ⟨first, last, hf, hl, blocks, in_view⟩
      obtain ⟨upper, lower, rect, rect', shown⟩ := in_view
      exact ⟨_, line_eq_some.mpr ⟨first, last, hf, hl, blocks, ⟨upper, lower, rect, rect', shown⟩,
        ⟨upper, lower, rect, rect', rfl⟩⟩⟩
  · rw [lines_eq]
    refine (forall₂_filter_filterMap line _).imp fun p c found => ?_
    obtain ⟨first, last, hf, hl, -, -, joins⟩ := line_eq_some.mp found
    exact ⟨first, last, hf, hl, joins⟩
  · have apart := (matched hp).apart (matched hq) other
    have order := (matched hp).before
    have order' := (matched hq).before
    refine ⟨apart, ?_⟩
    simp only [Apart] at apart
    omega

/-- A closing bracket without a partner, and a pair over three lines with another one on the line
    between: the outer pair is drawn. -/
theorem connectors_join_outer_pair :
    let d := Document.ofText 0 ['\x7d', '\x7b', '\n', '\x7b', '\x7d', '\n', '\x7d']
    let bs : List Bracket := [⟨d.place 0 0, .closing⟩, ⟨d.place 0 1, .opening⟩,
      ⟨d.place 1 0, .opening⟩, ⟨d.place 1 1, .closing⟩, ⟨d.place 2 0, .closing⟩]
    (∀ b ∈ bs, d.isValid b.position = true) ∧ ∃ drawn : List (Nat × Nat), (1, 4) ∈ drawn ∧
      List.Forall₂ (fun p line => ∃ first last, bs[p.1]? = some first ∧ bs[p.2]? = some last ∧
        Joins d {} first last line) drawn (connectorLines d {} bs) := by
  intro d bs
  have valid : ∀ b ∈ bs, d.isValid b.position = true := by decide
  obtain ⟨drawn, pairs, -, lines, -⟩ := connectors_join_matched_pairs valid {}
  have balanced : Rises 0 ([] ++ [⟨d.place 1 0, .opening⟩] ++ [⟨d.place 1 1, .closing⟩]) := by
    rw [Rises.concat_closing rfl, Rises.concat_opening rfl]
    exact ⟨0, rfl, Rises.nil_iff.mpr rfl⟩
  have shown : InView d ⟨d.place 0 1, .opening⟩ ⟨d.place 2 0, .closing⟩ :=
    ⟨_, _, rfl, rfl, by decide⟩
  have apart : (d.place 0 1).block ≠ (d.place 2 0).block := by decide
  exact ⟨valid, drawn,
    (pairs 1 4).mpr ⟨⟨by decide, rfl, rfl, balanced⟩, _, _, rfl, rfl, apart, shown⟩, lines⟩

end Highlight
