import Highlight.Text.Line
import Mathlib.Tactic.Common

/-! # How lines change with the text

The lines of a text and of the same text with something put in or taken out agree outside of one
stretch. Two facts carry this: lines in front of a place depend only on what stands there, unless a
carriage return stands directly before it, and lines behind the line of a place never depend on
what stands in front.
-/

namespace Highlight.Text

/-- Whether a pair of carriage return and line feed begins at `c`. -/
def Paired (c : Char) (rest : List Char) : Prop :=
  ∃ tail, c = '\r' ∧ rest = '\n' :: tail

theorem lines_pair (rest : List Char) :
    lines ('\r' :: '\n' :: rest) = ['\r', '\n'] :: lines rest :=
  rfl

theorem lines_break {c : Char} {rest : List Char} (alone : ¬Paired c rest)
    (broken : isBreak c = true) : lines (c :: rest) = [c] :: lines rest := by
  rw [lines, if_pos broken]
  exact fun tail hc hr => alone ⟨tail, hc, hr⟩

theorem lines_other {c : Char} (rest : List Char) (other : isBreak c = false) :
    lines (c :: rest) = consLine c (lines rest) := by
  rw [lines, if_neg (by simp [other])]
  rintro tail rfl -
  exact absurd other (by decide)

theorem consLine_ne_nil (c : Char) (ls : List (List Char)) : consLine c ls ≠ [] := by
  cases ls <;> simp [consLine]

/-- Even the empty text has a line. -/
theorem lines_ne_nil (text : List Char) : lines text ≠ [] := by
  fun_cases lines text with
  | case1 => simp
  | case2 rest => simp
  | case3 c rest => simp
  | case4 c rest => exact consLine_ne_nil c _

theorem flatten_consLine (c : Char) (ls : List (List Char)) :
    (consLine c ls).flatten = c :: ls.flatten := by
  cases ls <;> simp [consLine]

/-- No character is lost. -/
theorem flatten_lines (text : List Char) : (lines text).flatten = text := by
  fun_induction lines text with
  | case1 => rfl
  | case2 rest ih => simp [ih]
  | case3 c rest _ _ ih => simp [ih]
  | case4 c rest _ _ ih => rw [flatten_consLine, ih]

/-- A line that is not the last has at least its break. -/
theorem ne_nil_of_lines_eq {text first : List Char} {rest : List (List Char)}
    (h : lines text = first :: rest) (more : rest ≠ []) : first ≠ [] := by
  fun_cases lines text with
  | case1 => simp_all [lines]
  | case2 tail =>
      rw [lines_pair, List.cons.injEq] at h
      exact h.1 ▸ List.cons_ne_nil _ _
  | case3 c tail pair broken =>
      rw [lines_break (fun ⟨t, hc, ht⟩ => pair t hc ht) broken, List.cons.injEq] at h
      exact h.1 ▸ List.cons_ne_nil _ _
  | case4 c tail pair broken =>
      rw [lines_other tail (by simpa using broken)] at h
      cases split : lines tail with
      | nil => exact absurd split (lines_ne_nil tail)
      | cons line lines =>
          rw [split, consLine, List.cons.injEq] at h
          exact h.1 ▸ List.cons_ne_nil _ _

/-! ## Texts put together -/

/-- A pair of carriage return and line feed stands across the boundary of two texts. -/
def Straddled (pre post : List Char) : Prop :=
  pre.getLast? = some '\r' ∧ post.head? = some '\n'

instance (pre post : List Char) : Decidable (Straddled pre post) :=
  inferInstanceAs (Decidable (_ ∧ _))

theorem Straddled.cons {rest post : List Char} (h : Straddled rest post) (c : Char) :
    Straddled (c :: rest) post := by
  cases rest with
  | nil => simp [Straddled] at h
  | cons d rest => simpa [Straddled, List.getLast?_cons_cons] using h

/-- The lines of a text stay when a text is put behind it, unless a pair stands across the boundary;
    only the last line runs on. -/
theorem lines_append_apart (pre : List Char) :
    ∃ heads last, lines pre = heads ++ [last] ∧ ∀ post line rest, ¬Straddled pre post →
      lines post = line :: rest → lines (pre ++ post) = heads ++ (last ++ line) :: rest := by
  fun_induction lines pre with
  | case1 => exact ⟨[], [], rfl, fun post line rest _ h => h⟩
  | case2 tail ih =>
      obtain ⟨heads, last, split, joined⟩ := ih
      refine ⟨['\r', '\n'] :: heads, last, by rw [split]; rfl, ?_⟩
      intro post line rest apart h
      have apart_tail : ¬Straddled tail post := fun s => apart ((s.cons '\n').cons '\r')
      rw [List.cons_append, List.cons_append, lines_pair, joined post line rest apart_tail h]
      rfl
  | case3 c tail pair broken ih =>
      obtain ⟨heads, last, split, joined⟩ := ih
      refine ⟨[c] :: heads, last, by rw [split]; rfl, ?_⟩
      intro post line rest apart h
      have alone : ¬Paired c (tail ++ post) := by
        rintro ⟨t, rfl, ht⟩
        cases tail with
        | nil => exact apart ⟨rfl, by rw [← List.nil_append post, ht]; rfl⟩
        | cons d tail =>
            rw [List.cons_append, List.cons.injEq] at ht
            exact pair tail rfl (by rw [ht.1])
      rw [List.cons_append, lines_break alone broken,
        joined post line rest (fun s => apart (s.cons c)) h]
      rfl
  | case4 c tail pair broken ih =>
      obtain ⟨heads, last, split, joined⟩ := ih
      have other : isBreak c = false := by simpa using broken
      cases heads with
      | nil =>
          refine ⟨[], c :: last, by rw [split]; rfl, ?_⟩
          intro post line rest apart h
          rw [List.cons_append, lines_other _ other,
            joined post line rest (fun s => apart (s.cons c)) h]
          rfl
      | cons head heads =>
          refine ⟨(c :: head) :: heads, last, by rw [split]; rfl, ?_⟩
          intro post line rest apart h
          rw [List.cons_append, lines_other _ other,
            joined post line rest (fun s => apart (s.cons c)) h]
          rfl

/-- The lines of a text that does not end in a carriage return stay, whatever is put behind it. -/
theorem lines_append {pre : List Char} (open_end : pre.getLast? ≠ some '\r') :
    ∃ heads last, lines pre = heads ++ [last] ∧ ∀ post line rest, lines post = line :: rest →
      lines (pre ++ post) = heads ++ (last ++ line) :: rest := by
  obtain ⟨heads, last, split, joined⟩ := lines_append_apart pre
  exact ⟨heads, last, split, fun post line rest => joined post line rest fun s => open_end s.1⟩

/-- Whatever is put in front of a text, its lines but the first stay, and the first only gets
    longer at its front. -/
theorem lines_append_left (text : List Char) {post line : List Char} {rest : List (List Char)}
    (h : lines post = line :: rest) :
    ∃ heads front, lines (text ++ post) = heads ++ (front ++ line) :: rest ∧
      heads.flatten ++ front = text := by
  fun_induction lines text with
  | case1 => exact ⟨[], [], h, rfl⟩
  | case2 tail ih =>
      obtain ⟨heads, front, joined, kept⟩ := ih
      refine ⟨['\r', '\n'] :: heads, front, ?_, by rw [← kept]; rfl⟩
      rw [List.cons_append, List.cons_append, lines_pair, joined]
      rfl
  | case3 c tail pair broken ih =>
      by_cases paired : Paired c (tail ++ post)
      · -- The break at the end of `text` becomes one with the line feed at the front of `post`.
        obtain ⟨t, rfl, ht⟩ := paired
        cases tail with
        | cons d tail =>
            rw [List.cons_append, List.cons.injEq] at ht
            exact (pair tail rfl (by rw [ht.1])).elim
        | nil =>
            rw [List.nil_append] at ht
            subst ht
            have feed : lines ('\n' :: t) = ['\n'] :: lines t :=
              lines_break (by rintro ⟨_, same, -⟩; exact absurd same (by decide)) (by decide)
            rw [feed, List.cons.injEq] at h
            obtain ⟨rfl, rfl⟩ := h
            exact ⟨[], ['\r'], lines_pair t, rfl⟩
      · obtain ⟨heads, front, joined, kept⟩ := ih
        refine ⟨[c] :: heads, front, ?_, by rw [← kept]; rfl⟩
        rw [List.cons_append, lines_break paired broken, joined]
        rfl
  | case4 c tail pair broken ih =>
      obtain ⟨heads, front, joined, kept⟩ := ih
      have other : isBreak c = false := by simpa using broken
      cases heads with
      | nil =>
          refine ⟨[], c :: front, ?_, by rw [← kept]; rfl⟩
          rw [List.cons_append, lines_other _ other, joined]
          rfl
      | cons head heads =>
          refine ⟨(c :: head) :: heads, front, ?_, by rw [← kept]; rfl⟩
          rw [List.cons_append, lines_other _ other, joined]
          rfl

/-! ## Places in the lines -/

/-- An offset inside a line, or behind all lines, is on that line. -/
theorem lineAt_append {heads : List (List Char)} {line : List Char} {rest : List (List Char)}
    {i : Nat} (from_start : heads.flatten.length ≤ i)
    (to_stop : rest = [] ∨ i < heads.flatten.length + line.length) :
    lineAt (heads ++ line :: rest) i = heads.length := by
  induction heads generalizing i with
  | nil =>
      cases rest with
      | nil => rfl
      | cons next rest =>
          have inside : i < line.length := by simpa using to_stop
          rw [List.nil_append, lineAt, if_pos inside]
          · rfl
          · simp
  | cons head heads ih =>
      rw [List.flatten_cons, List.length_append] at from_start to_stop
      have outside : ¬i < head.length := by omega
      have inside := ih (i := i - head.length) (by omega) (to_stop.imp_right fun h => by omega)
      rw [List.cons_append, lineAt, if_neg outside, inside, List.length_cons]
      simp

theorem lineAt_boundary (heads : List (List Char)) (last : List Char) {post line : List Char}
    {rest : List (List Char)} (h : lines post = line :: rest) :
    lineAt (heads ++ (last ++ line) :: rest) (heads.flatten.length + last.length) =
      heads.length := by
  apply lineAt_append (Nat.le_add_right _ _)
  by_cases more : rest = []
  · exact .inl more
  · right
    have := List.length_pos_iff.mpr (ne_nil_of_lines_eq h more)
    rw [List.length_append]
    omega

theorem lineAt_zero (text : List Char) : lineAt (lines text) 0 = 0 := by
  obtain ⟨line, rest, split⟩ := List.exists_cons_of_ne_nil (lines_ne_nil text)
  rw [split]
  exact lineAt_boundary [] [] split

theorem lineAt_length (text : List Char) :
    lineAt (lines text) text.length + 1 = (lines text).length := by
  obtain ⟨heads, last, split⟩ := List.eq_nil_or_concat (lines text) |>.resolve_left
    (lines_ne_nil text)
  rw [List.concat_eq_append] at split
  have text_eq := flatten_lines text
  rw [split, List.flatten_append, List.flatten_singleton] at text_eq
  rw [split, lineAt_append (by rw [← text_eq, List.length_append]; omega) (.inl rfl),
    List.length_append, List.length_singleton]

theorem lineAt_lt {ls : List (List Char)} (some_line : ls ≠ []) (i : Nat) :
    lineAt ls i < ls.length := by
  fun_induction lineAt ls i with
  | case1 => exact absurd rfl some_line
  | case2 => simp
  | case3 line rest => simp
  | case4 line rest i more _ ih =>
      have := ih more
      rw [List.length_cons]
      omega

theorem lineAt_mono (ls : List (List Char)) {i j : Nat} (h : i ≤ j) :
    lineAt ls i ≤ lineAt ls j := by
  fun_induction lineAt ls i generalizing j with
  | case1 => exact Nat.zero_le _
  | case2 => exact Nat.zero_le _
  | case3 => exact Nat.zero_le _
  | case4 line rest i more outside ih =>
      rw [lineAt, if_neg (by omega)]
      · exact Nat.succ_le_succ (ih (by omega))
      · exact more

theorem lineAt_heads {heads : List (List Char)} {last line : List Char} {rest : List (List Char)}
    (open_line : rest = [] ∨ line ≠ []) {i : Nat}
    (inside : i ≤ heads.flatten.length + last.length) :
    lineAt (heads ++ (last ++ line) :: rest) i = lineAt (heads ++ [last]) i := by
  induction heads generalizing i with
  | nil =>
      cases rest with
      | nil => rfl
      | cons next rest =>
          have longer := List.length_pos_iff.mpr (open_line.resolve_left (by simp))
          have short : i < (last ++ line).length := by
            rw [List.flatten_nil, List.length_nil] at inside
            rw [List.length_append]
            omega
          rw [List.nil_append, lineAt, if_pos short]
          · rfl
          · simp
  | cons head heads ih =>
      rw [List.flatten_cons, List.length_append] at inside
      rw [List.cons_append, List.cons_append, lineAt, lineAt]
      · split
        · rfl
        · rw [ih (by omega)]
      · simp
      · simp

/-- The lines up to a place depend only on what stands in front of it. -/
theorem lineAt_front {pre : List Char} (open_end : pre.getLast? ≠ some '\r') (post : List Char)
    {i : Nat} (inside : i ≤ pre.length) :
    lineAt (lines (pre ++ post)) i = lineAt (lines pre) i := by
  obtain ⟨heads, last, split, joined⟩ := lines_append open_end
  obtain ⟨line, rest, post_eq⟩ := List.exists_cons_of_ne_nil (lines_ne_nil post)
  have pre_eq := flatten_lines pre
  rw [split, List.flatten_append, List.flatten_singleton] at pre_eq
  rw [← pre_eq, List.length_append] at inside
  rw [joined post line rest post_eq, split]
  apply lineAt_heads _ inside
  by_cases more : rest = []
  · exact .inl more
  · exact .inr (ne_nil_of_lines_eq post_eq more)

/-- Whatever text stands between `pre` and `post`, the lines around it are the same. The stretch of
    lines in between starts at the end of `pre` and stops at the start of `post`; it is one line if
    there is no text. -/
theorem lines_splice {pre : List Char} (open_end : pre.getLast? ≠ some '\r') (post : List Char) :
    ∃ before after, ∀ text, ∃ stretch, stretch ≠ [] ∧ (text = [] → stretch.length = 1) ∧
      lines (pre ++ text ++ post) = before ++ stretch ++ after ∧
      lineAt (lines (pre ++ text ++ post)) pre.length = before.length ∧
      lineAt (lines (pre ++ text ++ post)) (pre.length + text.length) + 1 =
        before.length + stretch.length := by
  obtain ⟨before, last, split, joined⟩ := lines_append open_end
  have pre_eq : before.flatten ++ last = pre := by
    rw [← flatten_lines pre, split, List.flatten_append, List.flatten_singleton]
  obtain ⟨line, after, post_eq⟩ := List.exists_cons_of_ne_nil (lines_ne_nil post)
  refine ⟨before, after, ?_⟩
  intro text
  obtain ⟨heads, front, behind, text_eq⟩ := lines_append_left text post_eq
  cases heads with
  | nil =>
      have whole := joined (text ++ post) _ _ behind
      rw [← List.append_assoc] at whole
      have front_eq : front = text := text_eq
      subst front_eq
      refine ⟨[last ++ (front ++ line)], by simp, by simp, by simpa using whole, ?_, ?_⟩
      · rw [whole, ← pre_eq, List.length_append]
        exact lineAt_boundary before last behind
      · have stop := lineAt_boundary before (last ++ front) post_eq
        rw [whole, ← pre_eq, List.length_append, Nat.add_assoc, ← List.length_append,
          ← List.append_assoc, stop]
        rfl
  | cons head heads =>
      rw [List.cons_append] at behind
      have whole := joined (text ++ post) _ _ behind
      rw [← List.append_assoc] at whole
      refine ⟨(last ++ head) :: heads ++ [front ++ line], by simp, ?_, by simpa using whole, ?_, ?_⟩
      · -- Without a text the lines behind `pre` are those of `post`, and no head is left over.
        rintro rfl
        rw [List.nil_append, post_eq] at behind
        have := congrArg List.length behind
        simp only [List.length_cons, List.length_append] at this
        omega
      · rw [whole, ← pre_eq, List.length_append]
        exact lineAt_boundary before last behind
      · have stop := lineAt_boundary (before ++ (last ++ head) :: heads) front post_eq
        have offset : (before ++ (last ++ head) :: heads).flatten.length + front.length =
            pre.length + text.length := by
          rw [← pre_eq, ← text_eq]
          simp only [List.flatten_append, List.flatten_cons, List.length_append]
          omega
        rw [offset, List.append_assoc, List.cons_append] at stop
        rw [whole, stop]
        simp only [List.length_append, List.length_cons, List.length_nil]
        omega

end Highlight.Text
