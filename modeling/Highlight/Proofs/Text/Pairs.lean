import Highlight.Proofs.Text.Lines
import Mathlib.Data.List.TakeWhile

/-! # Pairs at the edge of a change

Where a carriage return and a line feed come together they are one break, and where they are parted
they are two. So a change of a text can reach into the line before it: a line feed that comes to
stand behind the carriage return in front of the change becomes part of that line's break. These
are the lines around a change in every case; the lines around one that does not start behind a
carriage return are `lines_splice`.
-/

namespace Highlight.Text

theorem straddled_iff {pre post : List Char} :
    Straddled pre post ↔ ∃ front tail, pre = front ++ ['\r'] ∧ post = '\n' :: tail := by
  constructor
  · rintro ⟨last, head⟩
    obtain ⟨front, rfl⟩ := List.getLast?_eq_some_iff.mp last
    obtain ⟨tail, rfl⟩ := List.head?_eq_some_iff.mp head
    exact ⟨front, tail, rfl, rfl⟩
  · rintro ⟨front, tail, rfl, rfl⟩
    simp [Straddled]

theorem straddled_cons {c : Char} {rest post : List Char} : Straddled (c :: rest) post ↔
    (rest = [] ∧ c = '\r' ∧ post.head? = some '\n') ∨ Straddled rest post := by
  cases rest with
  | nil => simp [Straddled]
  | cons d rest => simp [Straddled, List.getLast?_cons_cons]

theorem straddled_append_left {front pre post : List Char} (some_pre : pre ≠ []) :
    Straddled (front ++ pre) post ↔ Straddled pre post := by
  obtain ⟨init, last, rfl⟩ := List.eq_nil_or_concat pre |>.resolve_left some_pre
  simp [Straddled, ← List.append_assoc]

theorem straddled_append_right {pre post tail : List Char} (some_post : post ≠ []) :
    Straddled pre (post ++ tail) ↔ Straddled pre post := by
  obtain ⟨c, rest, rfl⟩ := List.exists_cons_of_ne_nil some_post
  rfl

theorem lines_feed (tail : List Char) : lines ('\n' :: tail) = ['\n'] :: lines tail :=
  lines_break (by rintro ⟨_, same, -⟩; exact absurd same (by decide)) (by decide)

theorem lines_append_of {pre post last line : List Char} {heads rest : List (List Char)}
    (apart : ¬Straddled pre post) (hpre : lines pre = heads ++ [last])
    (hpost : lines post = line :: rest) :
    lines (pre ++ post) = heads ++ (last ++ line) :: rest := by
  obtain ⟨heads', last', split, joined⟩ := lines_append_apart pre
  obtain ⟨rfl, same⟩ := List.append_inj' (hpre.symm.trans split) rfl
  cases same
  exact joined post line rest apart hpost

/-! ## Cutting between lines -/

/-- Between any two of its lines a text can be cut into two. -/
theorem lines_cut {text : List Char} {before after : List (List Char)}
    (split : lines text = before ++ after) (more : after ≠ []) :
    lines before.flatten = before ++ [[]] ∧ lines after.flatten = after ∧
      ¬Straddled before.flatten after.flatten := by
  have in_front {text : List Char} (split : lines text = [] ++ after) :
      lines ([] : List (List Char)).flatten = [] ++ [[]] ∧ lines after.flatten = after ∧
        ¬Straddled ([] : List (List Char)).flatten after.flatten := by
    rw [List.nil_append] at split
    exact ⟨rfl, by rw [← split, flatten_lines], by simp [Straddled]⟩
  fun_induction lines text generalizing before with
  | case1 =>
      obtain rfl : before = [] := by
        have := congrArg List.length split
        have := List.length_pos_iff.mpr more
        simp only [List.length_append, List.length_singleton] at *
        exact List.length_eq_zero_iff.mp (by omega)
      exact in_front (show lines [] = [] ++ after from split)
  | case2 tail ih =>
      cases before with
      | nil => exact in_front ((lines_pair tail).trans split)
      | cons head before =>
          simp only [List.cons_append, List.cons.injEq] at split
          obtain ⟨rfl, split⟩ := split
          obtain ⟨front, back, apart⟩ := ih split
          refine ⟨(lines_pair _).trans (congrArg _ front), back, ?_⟩
          simp [straddled_cons, apart]
  | case3 c tail pair broken ih =>
      have alone : ¬Paired c tail := by
        rintro ⟨t, hc, ht⟩
        exact pair t hc ht
      cases before with
      | nil => exact in_front ((lines_break alone broken).trans split)
      | cons head before =>
          simp only [List.cons_append, List.cons.injEq] at split
          obtain ⟨rfl, split⟩ := split
          obtain ⟨front, back, apart⟩ := ih split
          have tail_eq : before.flatten ++ after.flatten = tail := by
            rw [← List.flatten_append, ← split, flatten_lines]
          refine ⟨?_, back, ?_⟩
          · have alone' : ¬Paired c before.flatten := by
              rintro ⟨t, hc, ht⟩
              exact pair _ hc (by rw [← tail_eq, ht, List.cons_append])
            exact (lines_break alone' broken).trans (congrArg _ front)
          · rw [List.flatten_cons, List.singleton_append, straddled_cons]
            rintro (⟨none, rfl, feed⟩ | straddled)
            · obtain ⟨t, ht⟩ := List.head?_eq_some_iff.mp feed
              exact pair t rfl (by rw [← tail_eq, none, List.nil_append, ht])
            · exact apart straddled
  | case4 c tail pair broken ih =>
      have other : isBreak c = false := by simpa using broken
      cases before with
      | nil => exact in_front ((lines_other tail other).trans split)
      | cons head before =>
          obtain ⟨line, rest, tail_lines⟩ := List.exists_cons_of_ne_nil (lines_ne_nil tail)
          rw [tail_lines] at split
          simp only [consLine, List.cons_append, List.cons.injEq] at split
          obtain ⟨rfl, rfl⟩ := split
          obtain ⟨front, back, apart⟩ := ih (show _ = (line :: before) ++ after from tail_lines)
          refine ⟨?_, back, ?_⟩
          · rw [List.flatten_cons, List.cons_append, lines_other _ other, ← List.flatten_cons,
              front]
            rfl
          · rw [List.flatten_cons, List.cons_append, straddled_cons]
            rintro (⟨-, rfl, -⟩ | straddled)
            · exact absurd other (by decide)
            · exact apart straddled

/-- Behind a cut another text has its own lines, unless a pair comes to stand across the cut. -/
theorem lines_behind_cut {text : List Char} {before after : List (List Char)}
    (split : lines text = before ++ after) (more : after ≠ []) {post : List Char}
    (apart : ¬Straddled before.flatten post) :
    lines (before.flatten ++ post) = before ++ lines post := by
  obtain ⟨line, rest, post_lines⟩ := List.exists_cons_of_ne_nil (lines_ne_nil post)
  rw [lines_append_of apart (lines_cut split more).1 post_lines, post_lines, List.nil_append]

theorem lineStart_eq_length (ls : List (List Char)) (k : Nat) :
    lineStart ls k = (ls.take k).flatten.length := by
  fun_induction lineStart ls k with
  | case1 line rest k ih => simp [ih]
  | case2 ls k other =>
      cases ls with
      | nil => simp
      | cons line rest =>
          cases k with
          | zero => rfl
          | succ k => exact (other line rest k rfl rfl).elim

theorem lineStart_add (ls : List (List Char)) (k : Nat) :
    lineStart ls k + (ls.drop k).flatten.length = ls.flatten.length := by
  rw [lineStart_eq_length, ← List.length_append, ← List.flatten_append, List.take_append_drop]

theorem lineContent_append {line : List Char} (broken : ∃ c ∈ line, isBreak c = true)
    (tail : List Char) : lineContent (line ++ tail) = lineContent line := by
  obtain ⟨c, member, broken⟩ := broken
  rw [lineContent, lineContent, List.takeWhile_append, if_neg]
  intro all
  have whole := (List.takeWhile_prefix _).eq_of_length all
  rw [← whole] at member
  simpa [broken] using List.mem_takeWhile_imp member

/-- The content of the first line is what stands before the first break of the text. -/
theorem lineContent_head {text line : List Char} {rest : List (List Char)}
    (h : lines text = line :: rest) : lineContent line = lineContent text := by
  fun_induction lines text generalizing line rest with
  | case1 =>
      cases h
      rfl
  | case2 tail ih =>
      cases h
      rfl
  | case3 c tail pair broken ih =>
      cases h
      simp [lineContent, broken]
  | case4 c tail pair broken ih =>
      obtain ⟨head, more, tail_lines⟩ := List.exists_cons_of_ne_nil (lines_ne_nil tail)
      rw [tail_lines] at h
      cases h
      have other : isBreak c = false := by simpa using broken
      have tail_content := ih tail_lines
      rw [lineContent, lineContent] at tail_content
      simp [lineContent, other, tail_content]

/-- A place inside of `start` that is inside of the content stays so, whatever follows. -/
theorem le_lineContent {start post post' : List Char} {k : Nat} (inside : k ≤ start.length)
    (fits : k ≤ (lineContent (start ++ post)).length) :
    k ≤ (lineContent (start ++ post')).length := by
  rw [lineContent, List.takeWhile_append] at fits ⊢
  split
  · rw [List.length_append]
    omega
  · rename_i broken
    rwa [if_neg broken] at fits

/-! ## Plain text -/

theorem lines_plain {front post line : List Char} {rest : List (List Char)}
    (plain : ∀ c ∈ front, isBreak c = false) (h : lines post = line :: rest) :
    lines (front ++ post) = (front ++ line) :: rest := by
  induction front with
  | nil => exact h
  | cons c front ih =>
      have tail := ih fun c member => plain c (List.mem_cons_of_mem _ member)
      rw [List.cons_append, lines_other _ (plain c List.mem_cons_self), tail]
      rfl

theorem lineContent_plain {front : List Char} (plain : ∀ c ∈ front, isBreak c = false)
    (tail : List Char) : lineContent (front ++ tail) = front ++ lineContent tail :=
  List.takeWhile_append_of_pos fun c member => by simp [plain c member]

theorem plain_lineContent (line : List Char) : ∀ c ∈ lineContent line, isBreak c = false :=
  fun _ member => by simpa using List.mem_takeWhile_imp member

/-- A line is its content and then its break. -/
theorem exists_break (line : List Char) :
    ∃ brk, line = lineContent line ++ brk ∧ lineContent brk = [] := by
  refine ⟨line.dropWhile (!isBreak ·), List.takeWhile_append_dropWhile.symm, ?_⟩
  rw [lineContent, List.takeWhile_eq_nil_iff]
  exact List.dropWhile_get_zero_not _ line

/-- A line with another content, behind the same lines. -/
theorem lines_refilled {text content brk new : List Char} {before rest : List (List Char)}
    (split : lines text = before ++ (content ++ brk) :: rest)
    (plain : ∀ c ∈ content, isBreak c = false) (plain_new : ∀ c ∈ new, isBreak c = false)
    (apart : ¬Straddled before.flatten (new ++ (brk ++ rest.flatten))) :
    lines (before.flatten ++ (new ++ (brk ++ rest.flatten))) = before ++ (new ++ brk) :: rest := by
  have whole := (lines_cut split (List.cons_ne_nil _ _)).2.1
  rw [List.flatten_cons, List.append_assoc] at whole
  obtain ⟨line, rest', post_lines⟩ :=
    List.exists_cons_of_ne_nil (lines_ne_nil (brk ++ rest.flatten))
  have same := (lines_plain plain post_lines).symm.trans whole
  obtain ⟨line_eq, rfl⟩ := List.cons.inj same
  obtain rfl := List.append_cancel_left line_eq
  rw [lines_behind_cut split (List.cons_ne_nil _ _) apart, lines_plain plain_new post_lines]

theorem lineContent_open {line : List Char} (alone : lines line = [line]) :
    lineContent line = line := by
  fun_induction lines line with
  | case1 => rfl
  | case2 tail ih => simp [lines_ne_nil] at alone
  | case3 c tail pair broken ih => simp [lines_ne_nil] at alone
  | case4 c tail pair broken ih =>
      obtain ⟨head, more, tail_lines⟩ := List.exists_cons_of_ne_nil (lines_ne_nil tail)
      rw [tail_lines, consLine] at alone
      simp only [List.cons.injEq, true_and] at alone
      obtain ⟨rfl, rfl⟩ := alone
      have other : isBreak c = false := by simpa using broken
      have tail_content := ih tail_lines
      rw [lineContent] at tail_content
      simp [lineContent, other, tail_content]

/-- The same lines, but that a line feed may have come to the carriage return at the end of the
    last one. -/
inductive Fed : List (List Char) → List (List Char) → Prop where
  | same (ls : List (List Char)) : Fed ls ls
  | feed (ls : List (List Char)) (line : List Char) (ended : line.getLast? = some '\r') :
      Fed (ls ++ [line]) (ls ++ [line ++ ['\n']])

namespace Fed

variable {ls ls' : List (List Char)}

theorem length_eq (h : Fed ls ls') : ls'.length = ls.length := by
  cases h with
  | same => rfl
  | feed ls line ended => simp

theorem map_lineContent (h : Fed ls ls') : ls'.map lineContent = ls.map lineContent := by
  cases h with
  | same => rfl
  | feed ls line ended =>
      have broken : ∃ c ∈ line, isBreak c = true := ⟨_, List.mem_of_getLast? ended, by decide⟩
      simp [lineContent_append broken]

theorem lineStart_eq (h : Fed ls ls') (after after' : List (List Char)) {k : Nat}
    (inside : k < ls.length) : lineStart (ls' ++ after') k = lineStart (ls ++ after) k := by
  cases h with
  | same =>
      rw [lineStart_eq_length, lineStart_eq_length, List.take_append_of_le_length (by omega),
        List.take_append_of_le_length (by omega)]
  | feed ls line ended =>
      rw [List.length_append, List.length_singleton] at inside
      rw [lineStart_eq_length, lineStart_eq_length, List.append_assoc, List.append_assoc,
        List.take_append_of_le_length (by omega), List.take_append_of_le_length (by omega)]

end Fed

/-- What stands in front of a place on its line has no break of its own, unless the place lies
    inside a pair. -/
theorem lines_start {start post line : List Char} {rest : List (List Char)}
    (one : lines (start ++ post) = (start ++ line) :: rest) (hpost : lines post = line :: rest)
    (apart : ¬Straddled start post) : lines start = [start] := by
  obtain ⟨heads, last, start_lines, joined⟩ := lines_append_apart start
  have same := (joined post line rest apart hpost).symm.trans one
  obtain rfl : heads = [] := by
    have := congrArg List.length same
    simp only [List.length_append, List.length_cons] at this
    exact List.length_eq_zero_iff.mp (by omega)
  have whole := flatten_lines start
  rw [start_lines] at whole ⊢
  simpa using whole

/-- A pair that ends an open line. -/
theorem lines_open_pair {front : List Char} (alone : lines front = [front]) (tail : List Char) :
    lines (front ++ '\r' :: '\n' :: tail) = (front ++ ['\r', '\n']) :: lines tail :=
  lines_append_of (by simp [Straddled]) (show lines front = [] ++ [front] from alone)
    (lines_pair tail)

/-- A line feed that comes to stand behind a cut becomes part of the break in front of it. -/
theorem lines_fed {text : List Char} {before after : List (List Char)}
    (split : lines text = before ++ after) (more : after ≠ []) {tail : List Char}
    (straddled : Straddled before.flatten ('\n' :: tail)) :
    ∃ before', Fed before before' ∧
      lines (before.flatten ++ '\n' :: tail) = before' ++ lines tail := by
  obtain ⟨ls, line, rfl⟩ : ∃ ls line, before = ls ++ [line] := by
    rcases List.eq_nil_or_concat before with rfl | ⟨ls, line, rfl⟩
    · simp [Straddled] at straddled
    · exact ⟨ls, line, by simp⟩
  rw [List.append_assoc, List.singleton_append] at split
  obtain ⟨-, whole, apart⟩ := lines_cut split (List.cons_ne_nil _ _)
  have some_line : line ≠ [] := ne_nil_of_lines_eq whole more
  rw [List.flatten_append, List.flatten_singleton, straddled_append_left some_line] at straddled
  obtain ⟨front, -, rfl, -⟩ := straddled_iff.mp straddled
  refine ⟨_, .feed ls _ straddled.1, ?_⟩
  have alone : lines front = [front] := by
    have cut := (lines_cut (show lines _ = [front ++ ['\r']] ++ after from whole) more).1
    rw [List.flatten_singleton] at cut
    exact lines_start cut rfl (by simp [Straddled])
  rw [List.flatten_cons, straddled_append_right some_line] at apart
  have apart' : ¬Straddled ls.flatten (front ++ ['\r'] ++ '\n' :: tail) := by
    rwa [straddled_append_right some_line]
  rw [List.flatten_append, List.flatten_singleton, List.append_assoc,
    lines_behind_cut split (List.cons_ne_nil _ _) apart', List.append_assoc, List.singleton_append,
    lines_open_pair alone]
  simp

/-! ## The line of an edit -/

/-- The part of a line in front of a place goes on with whatever follows, as long as no pair is
    taken apart or put together there. -/
theorem lines_resume {start post post' line line' : List Char} {rest rest' : List (List Char)}
    (one : lines (start ++ post) = (start ++ line) :: rest) (hpost : lines post = line :: rest)
    (hpost' : lines post' = line' :: rest') (alike : Straddled start post ↔ Straddled start post') :
    lines (start ++ post') = (start ++ line') :: rest' := by
  by_cases straddled : Straddled start post
  · obtain ⟨front, tail, rfl, rfl⟩ := straddled_iff.mp straddled
    obtain ⟨-, tail', -, rfl⟩ := straddled_iff.mp (alike.mp straddled)
    rw [lines_feed, List.cons.injEq] at hpost hpost'
    obtain ⟨⟨rfl, rfl⟩, rfl, rfl⟩ := And.intro hpost hpost'
    rw [List.append_assoc, List.append_assoc] at one
    have alone := lines_start one (lines_pair tail) (by simp [Straddled])
    rw [List.append_assoc, List.append_assoc]
    exact lines_open_pair alone tail'
  · have alone : lines start = [] ++ [start] := lines_start one hpost straddled
    exact lines_append_of (alike.not.mp straddled) alone hpost'

/-- A pair that is taken apart leaves a line of its own. -/
theorem lines_parted {start post post' line : List Char} {rest : List (List Char)}
    (one : lines (start ++ post) = (start ++ line) :: rest) (hpost : lines post = line :: rest)
    (straddled : Straddled start post) (apart : ¬Straddled start post') :
    lines (start ++ post') = start :: lines post' := by
  obtain ⟨front, tail, rfl, rfl⟩ := straddled_iff.mp straddled
  rw [lines_feed, List.cons.injEq] at hpost
  obtain ⟨rfl, rfl⟩ := hpost
  rw [List.append_assoc, List.append_assoc] at one
  have alone : lines front = [] ++ [front] :=
    lines_start one (lines_pair tail) (by simp [Straddled])
  have single : ¬Paired '\r' post' := by
    rintro ⟨t, -, rfl⟩
    exact apart (straddled_iff.mpr ⟨front, t, rfl, rfl⟩)
  rw [List.append_assoc]
  exact lines_append_of (by simp [Straddled]) alone (lines_break single (by decide))

/-! ## Places -/

/-- A place in a text: it stands behind `start` on the line that goes on with `line`, and the lines
    around that one are `before` and `rest`. -/
structure Place (pre post : List Char) (before : List (List Char)) (start line : List Char)
    (rest : List (List Char)) : Prop where
  front : before.flatten ++ start = pre
  behind : lines post = line :: rest
  whole : lines (pre ++ post) = before ++ (start ++ line) :: rest

theorem exists_place (pre post : List Char) :
    ∃ before start line rest, Place pre post before start line rest := by
  obtain ⟨line, rest, behind⟩ := List.exists_cons_of_ne_nil (lines_ne_nil post)
  obtain ⟨before, start, whole, front⟩ := lines_append_left pre behind
  exact ⟨before, start, line, rest, front, behind, whole⟩

namespace Place

variable {pre post post' start line line' : List Char} {before rest rest' : List (List Char)}

theorem lineAt_eq (h : Place pre post before start line rest) :
    lineAt (lines (pre ++ post)) pre.length = before.length := by
  rw [h.whole, ← h.front, List.length_append]
  exact lineAt_boundary before start h.behind

theorem rest_flatten (h : Place pre post before start line rest) :
    ((start ++ line) :: rest).flatten = start ++ post := by
  rw [List.flatten_cons, List.append_assoc, ← List.flatten_cons, ← h.behind, flatten_lines]

theorem one (h : Place pre post before start line rest) :
    lines (start ++ post) = (start ++ line) :: rest := by
  rw [← h.rest_flatten]
  exact (lines_cut h.whole (List.cons_ne_nil _ _)).2.1

theorem apart (h : Place pre post before start line rest) :
    ¬Straddled before.flatten (start ++ post) := by
  rw [← h.rest_flatten]
  exact (lines_cut h.whole (List.cons_ne_nil _ _)).2.2

theorem straddled_iff_start (h : Place pre post before start line rest) (some_start : start ≠ []) :
    Straddled pre post' ↔ Straddled start post' := by
  rw [← h.front, straddled_append_left some_start]

/-- With another text behind a place the lines in front of its line stay, unless a pair comes to
    stand at the front of that line. -/
theorem lines_apart (h : Place pre post before start line rest)
    (apart : ¬Straddled before.flatten (start ++ post')) :
    lines (pre ++ post') = before ++ lines (start ++ post') := by
  rw [← h.front, List.append_assoc]
  exact lines_behind_cut h.whole (List.cons_ne_nil _ _) apart

/-- A pair that comes to stand at the front of a line takes the line feed from the text behind. -/
theorem lines_straddled (h : Place pre post before start line rest)
    (straddled : Straddled before.flatten (start ++ post')) :
    start = [] ∧ ∃ tail before', post' = '\n' :: tail ∧ Fed before before' ∧
      lines (pre ++ post') = before' ++ lines tail := by
  have no_start : start = [] := by
    by_contra some_start
    apply h.apart
    rw [straddled_append_right some_start] at straddled ⊢
    exact straddled
  refine ⟨no_start, ?_⟩
  rw [no_start, List.nil_append] at straddled
  obtain ⟨-, tail, -, rfl⟩ := straddled_iff.mp straddled
  obtain ⟨before', fed, lines_eq⟩ := lines_fed h.whole (List.cons_ne_nil _ _) straddled
  refine ⟨tail, before', rfl, fed, ?_⟩
  rw [← h.front, no_start, List.append_nil, lines_eq]

/-! ## Insertion and deletion -/

/-- Text put in at a place. -/
theorem inserted (h : Place pre post before start line rest) (text : List Char) :
    ∃ before' new, Fed before before' ∧ new ≠ [] ∧
      lines (pre ++ (text ++ post)) = before' ++ new ++ rest ∧
      (start ≠ [] → before' = before ∧ lines (start ++ (text ++ post)) = new ++ rest) := by
  by_cases straddled : Straddled before.flatten (start ++ (text ++ post))
  · obtain ⟨rfl, tail, before', feed, fed, lines_eq⟩ := h.lines_straddled straddled
    -- The line feed is in the text: in front of what stood there before, there is no pair.
    obtain ⟨text, rfl⟩ : ∃ text', text = '\n' :: text' := by
      cases text with
      | nil => exact absurd straddled h.apart
      | cons c text => exact ⟨text, by rw [(List.cons.inj feed).1]⟩
    obtain rfl : text ++ post = tail := (List.cons.inj feed).2
    obtain ⟨heads, front, behind, -⟩ := lines_append_left text h.behind
    refine ⟨before', heads ++ [front ++ line], fed, by simp, ?_, by simp⟩
    rw [lines_eq, behind]
    simp
  · obtain ⟨heads, front, behind, -⟩ := lines_append_left (start ++ text) h.behind
    rw [List.append_assoc] at behind
    exact ⟨before, heads ++ [front ++ line], .same before, by simp,
      by simp [h.lines_apart straddled, behind], fun _ => ⟨rfl, by simp [behind]⟩⟩

/-- Text taken out behind a place, without a pair taken apart or put together there. -/
theorem deleted (h : Place pre post before start line rest) (behind : lines post' = line' :: rest')
    (alike : Straddled pre post ↔ Straddled pre post') :
    lines (pre ++ post') = before ++ (start ++ line') :: rest' := by
  have apart : ¬Straddled before.flatten (start ++ post') := by
    intro straddled
    apply h.apart
    obtain ⟨rfl, -⟩ := h.lines_straddled straddled
    rw [← h.front, List.append_nil] at alike
    exact alike.mpr straddled
  rw [h.lines_apart apart, lines_resume h.one h.behind behind ?_]
  by_cases some_start : start = []
  · simp [some_start, Straddled]
  · rwa [← h.straddled_iff_start some_start, ← h.straddled_iff_start some_start]

/-- Text taken out between a carriage return and its line feed, and the line feed with it. -/
theorem deleted_parted (h : Place pre post before start line rest)
    (straddled : Straddled pre post) (parted : ¬Straddled pre post') :
    lines (pre ++ post') = before ++ start :: lines post' := by
  have some_start : start ≠ [] := by
    rintro rfl
    apply h.apart
    rwa [← h.front, List.append_nil] at straddled
  have apart : ¬Straddled before.flatten (start ++ post') := fun straddled =>
    some_start (h.lines_straddled straddled).1
  rw [h.straddled_iff_start some_start] at straddled parted
  rw [h.lines_apart apart, lines_parted h.one h.behind straddled parted]

/-- Text taken out between a carriage return and a line feed behind it. -/
theorem deleted_paired (h : Place pre post before start line rest)
    (apart : ¬Straddled pre post) (straddled : Straddled pre post') :
    start = [] ∧ ∃ tail before', post' = '\n' :: tail ∧ Fed before before' ∧
      lines (pre ++ post') = before' ++ lines tail := by
  apply h.lines_straddled
  have no_start : start = [] := by
    by_contra some_start
    rw [h.straddled_iff_start some_start] at apart straddled
    have alone := lines_start h.one h.behind apart
    obtain ⟨front, tail, rfl, rfl⟩ := straddled_iff.mp straddled
    obtain ⟨heads, last, -, joined⟩ := lines_append_apart front
    rw [joined ['\r'] ['\r'] [[]] (by simp [Straddled]) rfl] at alone
    have := congrArg List.length alone
    simp at this
  rw [← h.front, no_start, List.append_nil] at straddled
  rwa [no_start]

end Place

end Highlight.Text
