import Highlight.Text.Blank
import Highlight.Text.Cut
import Mathlib.Data.List.TakeWhile
import Mathlib.Tactic.Common

/-! # Cutting and trimming

What is cut off a text is determined by how the pieces go together again, with the pieces free of
the mark they are cut at. The blanks that trimming takes away are determined likewise, by what
stands between them having none at its ends.
-/

namespace Highlight.Text

variable {mark : Char} {s t before after : List Char}

/-! ## All pieces -/

theorem splitOn_ne_nil (mark : Char) (s : List Char) : splitOn mark s ≠ [] := by
  cases s with
  | nil => simp [splitOn]
  | cons c s =>
      unfold splitOn
      split
      · simp
      · split <;> simp

/-- A mark separates what stands before it from what stands behind it. -/
theorem splitOn_append (mark : Char) (s t : List Char) :
    splitOn mark (s ++ mark :: t) = splitOn mark s ++ splitOn mark t := by
  induction s with
  | nil => simp [splitOn]
  | cons c s ih =>
      by_cases here : c = mark
      · simp [splitOn, here, ih]
      · cases pieces : splitOn mark s with
        | nil => exact absurd pieces (splitOn_ne_nil mark s)
        | cons piece rest => simp [splitOn, here, ih, pieces]

theorem splitOn_of_not_mem (free : mark ∉ s) : splitOn mark s = [s] := by
  induction s with
  | nil => rfl
  | cons c s ih =>
      obtain ⟨here, later⟩ := not_or.mp (mt List.mem_cons.mpr free)
      simp [splitOn, Ne.symm here, ih later]

theorem not_mem_of_mem_splitOn {piece : List Char} (member : piece ∈ splitOn mark s) :
    mark ∉ piece := by
  induction s generalizing piece with
  | nil => simp_all [splitOn]
  | cons c s ih =>
      by_cases here : c = mark
      · rw [splitOn, if_pos here] at member
        cases member with
        | head => exact List.not_mem_nil
        | tail _ later => exact ih later
      · cases pieces : splitOn mark s with
        | nil => exact absurd pieces (splitOn_ne_nil mark s)
        | cons first rest =>
            rw [pieces] at ih
            simp only [splitOn, if_neg here, pieces] at member
            cases member with
            | head => simp [Ne.symm here, ih List.mem_cons_self]
            | tail _ later => exact ih (List.mem_cons_of_mem _ later)

/-- The first piece is the whole text, or it ends at a mark that the other pieces stand behind. -/
theorem splitOn_eq_cons {piece : List Char} {pieces : List (List Char)}
    (split : splitOn mark s = piece :: pieces) :
    s = piece ∧ pieces = [] ∨ ∃ rest, s = piece ++ mark :: rest ∧ splitOn mark rest = pieces := by
  induction s generalizing piece with
  | nil =>
      obtain ⟨rfl, rfl⟩ := List.cons.inj split
      exact .inl ⟨rfl, rfl⟩
  | cons c s ih =>
      by_cases here : c = mark
      · rw [splitOn, if_pos here] at split
        obtain ⟨rfl, others⟩ := List.cons.inj split
        exact .inr ⟨s, by rw [here, List.nil_append], others⟩
      · cases first : splitOn mark s with
        | nil => exact absurd first (splitOn_ne_nil mark s)
        | cons front others =>
            simp only [splitOn, if_neg here, first] at split
            obtain ⟨rfl, rfl⟩ := List.cons.inj split
            rcases ih first with ⟨rfl, none⟩ | ⟨rest, rfl, split⟩
            · exact .inl ⟨rfl, none⟩
            · exact .inr ⟨rest, rfl, split⟩

/-! ## One cut -/

/-- The cut is at the mark that has no other in front of it. -/
theorem splitAtFirst?_eq_some_iff : splitAtFirst? mark s = some (before, after) ↔
    s = before ++ mark :: after ∧ mark ∉ before := by
  constructor
  · intro split
    induction s generalizing before with
    | nil => cases split
    | cons c s ih =>
        rw [splitAtFirst?] at split
        by_cases here : c = mark
        · rw [if_pos here] at split
          obtain ⟨rfl, rfl⟩ := Prod.mk.inj (Option.some.inj split)
          exact ⟨by rw [here, List.nil_append], List.not_mem_nil⟩
        · rw [if_neg here] at split
          obtain ⟨parts, later, same⟩ := Option.map_eq_some_iff.mp split
          obtain ⟨rfl, rfl⟩ := Prod.mk.inj same
          obtain ⟨rfl, free⟩ := ih later
          exact ⟨rfl, by simp [Ne.symm here, free]⟩
  · rintro ⟨rfl, free⟩
    induction before with
    | nil => simp [splitAtFirst?]
    | cons c before ih =>
        obtain ⟨here, later⟩ := not_or.mp (mt List.mem_cons.mpr free)
        simp [splitAtFirst?, Ne.symm here, ih later]

/-- The last mark is not in a front part without marks. -/
theorem splitAtLast?_append {front : List Char} (free : mark ∉ front) (s : List Char) :
    splitAtLast? mark (front ++ s) =
      (splitAtLast? mark s).map fun (before, after) => (front ++ before, after) := by
  induction front with
  | nil => simp
  | cons c front ih =>
      obtain ⟨here, later⟩ := not_or.mp (mt List.mem_cons.mpr free)
      rw [List.cons_append, splitAtLast?, ih later]
      cases splitAtLast? mark s with
      | none => simp [Ne.symm here]
      | some parts => rfl

theorem splitAtLast?_eq_none_iff : splitAtLast? mark s = none ↔ mark ∉ s := by
  induction s with
  | nil => simp [splitAtLast?]
  | cons c s ih =>
      rw [splitAtLast?, List.mem_cons, not_or, ← ih]
      cases splitAtLast? mark s with
      | some parts => simp
      | none => simp [eq_comm]

/-- The cut is at the mark that has no other behind it. -/
theorem splitAtLast?_eq_some_iff : splitAtLast? mark s = some (before, after) ↔
    s = before ++ mark :: after ∧ mark ∉ after := by
  constructor
  · intro split
    induction s generalizing before after with
    | nil => cases split
    | cons c s ih =>
        rw [splitAtLast?] at split
        cases later : splitAtLast? mark s with
        | some parts =>
            rw [later] at split
            obtain ⟨rfl, rfl⟩ := Prod.mk.inj (Option.some.inj split)
            obtain ⟨rfl, free⟩ := ih later
            exact ⟨rfl, free⟩
        | none =>
            simp only [later, Option.ite_none_right_eq_some, Option.some.injEq,
              Prod.mk.injEq] at split
            obtain ⟨rfl, rfl, rfl⟩ := split
            exact ⟨rfl, splitAtLast?_eq_none_iff.mp later⟩
  · rintro ⟨rfl, free⟩
    rw [← splitAtLast?_eq_none_iff] at free
    induction before with
    | nil => simp [splitAtLast?, free]
    | cons c before ih => simp [splitAtLast?, ih]

theorem dropFirst?_eq_some_iff : dropFirst? mark s = some t ↔ s = mark :: t := by
  cases s with
  | nil => simp [dropFirst?]
  | cons c s => simp [dropFirst?]

theorem dropLast?_eq_some_iff : dropLast? mark s = some t ↔ s = t ++ [mark] := by
  simp only [dropLast?, Option.ite_none_right_eq_some, Option.some.injEq]
  constructor
  · rintro ⟨last, rfl⟩
    obtain ⟨front, rfl⟩ := List.getLast?_eq_some_iff.mp last
    rw [List.dropLast_concat]
  · rintro rfl
    exact ⟨List.getLast?_concat, List.dropLast_concat⟩

/-! ## Blanks at the ends -/

/-- Nothing but blanks. -/
def Blank (s : List Char) : Prop :=
  ∀ c ∈ s, isBlank c = true

/-- A text with blanks around it, or none. -/
def Padded (inner s : List Char) : Prop :=
  ∃ left right, Blank left ∧ Blank right ∧ s = left ++ inner ++ right

/-- A text that starts and ends with something other than a blank. -/
structure Tight (s : List Char) : Prop where
  front : ∃ c, s.head? = some c ∧ isBlank c = false
  back : ∃ c, s.getLast? = some c ∧ isBlank c = false

theorem Blank.nil : Blank [] := by
  simp [Blank]

theorem Blank.append (left : Blank s) (right : Blank t) : Blank (s ++ t) :=
  List.forall_mem_append.mpr ⟨left, right⟩

theorem Blank.reverse (blank : Blank s) : Blank s.reverse :=
  fun c member => blank c (List.mem_reverse.mp member)

theorem Tight.of_solid (filled : s ≠ []) (solid : ∀ c ∈ s, isBlank c = false) : Tight s :=
  ⟨⟨_, List.head?_eq_some_head filled, solid _ (List.head_mem filled)⟩,
    ⟨_, List.getLast?_eq_some_getLast filled, solid _ (List.getLast_mem filled)⟩⟩

theorem Tight.around (left : Tight s) (right : Tight t) (between : List Char) :
    Tight (s ++ (between ++ t)) := by
  obtain ⟨first, head, solid⟩ := left.front
  obtain ⟨last, tail, solid'⟩ := right.back
  exact ⟨⟨first, by simp [List.head?_append, head], solid⟩,
    ⟨last, by simp [List.getLast?_append, tail], solid'⟩⟩

theorem exists_trimStart (s : List Char) : ∃ left, Blank left ∧ s = left ++ trimStart s :=
  ⟨s.takeWhile isBlank, fun _ => List.mem_takeWhile_imp, List.takeWhile_append_dropWhile.symm⟩

theorem trimStart_append {left : List Char} (blank : Blank left)
    (solid : ∀ c ∈ s.head?, isBlank c = false) : trimStart (left ++ s) = s := by
  rw [trimStart, List.dropWhile_append_of_pos blank]
  cases s with
  | nil => rfl
  | cons c s => rw [List.dropWhile_cons_of_neg]; simpa using solid

theorem trimStart_eq_cons_iff (solid : isBlank mark = false) :
    trimStart s = mark :: t ↔ ∃ gap, Blank gap ∧ s = gap ++ mark :: t := by
  constructor
  · intro trimmed
    obtain ⟨gap, blank, same⟩ := exists_trimStart s
    exact ⟨gap, blank, trimmed ▸ same⟩
  · rintro ⟨gap, blank, rfl⟩
    exact trimStart_append blank (by simpa using solid)

theorem trimEnd_eq (s : List Char) : trimEnd s = (trimStart s.reverse).reverse :=
  rfl

theorem padded_trim (s : List Char) : Padded (trim s) s := by
  obtain ⟨left, blank, same⟩ := exists_trimStart s
  obtain ⟨right, blank', same'⟩ := exists_trimStart (trimStart s).reverse
  refine ⟨left, right.reverse, blank, blank'.reverse, ?_⟩
  have front : trimStart s = trim s ++ right.reverse := by
    rw [trim, trimEnd_eq, ← List.reverse_append, ← same', List.reverse_reverse]
  rwa [List.append_assoc, ← front]

theorem trim_of_padded {inner : List Char} (tight : Tight inner) (padded : Padded inner s) :
    trim s = inner := by
  obtain ⟨left, right, blank, blank', rfl⟩ := padded
  obtain ⟨first, head, solid⟩ := tight.front
  obtain ⟨last, tail, solid'⟩ := tight.back
  have start : trimStart (left ++ (inner ++ right)) = inner ++ right :=
    trimStart_append blank (by simp [List.head?_append, head, solid])
  have stop : trimStart (right.reverse ++ inner.reverse) = inner.reverse :=
    trimStart_append blank'.reverse (by simp [tail, solid'])
  rw [trim, List.append_assoc, start, trimEnd_eq, List.reverse_append, stop, List.reverse_reverse]

end Highlight.Text
