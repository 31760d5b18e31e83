import Highlight.Toml.Printer
import Highlight.Toml.Reader
import Mathlib.Data.List.TakeDrop
import Mathlib.Tactic.Common

/-! # Quoted texts read back

A text is written between the plainest marks that it allows, and each of the four readers of strings
gives it back: escapes are undone one by one, a break behind the opening marks is the one that was
put there, and at most two marks stand together before three closing ones, so that no reader takes
a mark of the text for the end.
-/

namespace Highlight.Toml

open Json (hexValue?)

/-! ## Characters -/

theorem hexValue?_hexChar : ∀ n < 128,
    hexValue? ['0', '0', hexChar (n / 16), hexChar (n % 16)] = some n := by
  decide +kernel

theorem lt_of_isControl {c : Char} (control : isControl c = true) : c.toNat < 128 := by
  simp only [isControl, Bool.or_eq_true, Bool.and_eq_true, decide_eq_true_eq, beq_iff_eq] at control
  rcases control with ⟨⟨low, -⟩, -⟩ | rfl
  · have : c.toNat < 32 := UInt32.lt_iff_toNat_lt.mp low
    omega
  · decide

/-- Whether a character may stand for itself in a text over several lines. -/
def MayStand (c : Char) : Prop :=
  isPlain c = true ∨ c = '\n'

theorem mayStand_of_not_isControl {c : Char} (printable : isControl c = false) : MayStand c := by
  simp only [MayStand, isControl, isPlain, Bool.or_eq_false_iff, Bool.and_eq_false_iff,
    Bool.or_eq_true, Bool.and_eq_true, decide_eq_false_iff_not, bne_eq_false_iff_eq, beq_iff_eq,
    beq_eq_false_iff_ne, decide_eq_true_eq, bne_iff_ne, Char.not_lt] at *
  tauto

theorem MayStand.ne_carriage {c : Char} (stands : MayStand c) : c ≠ '\r' := by
  rintro rfl
  rcases stands with plain | line
  · exact absurd plain (by decide)
  · exact absurd line (by decide)

/-- What is written for a character where escapes are allowed. -/
inductive Written (multi : Bool) (c : Char) : List Char → Prop
  | plain (quote : c ≠ '"') (backslash : c ≠ '\\')
      (stands : isPlain c = true ∨ multi = true ∧ c = '\n') : Written multi c [c]
  | letter {e : Char} (short : shortEscape? e = some c) : Written multi c ['\\', e]
  | number {a b : Char} (value : hexValue? ['0', '0', a, b] = some c.toNat)
      (scalar : scalar? c.toNat = some c) : Written multi c ['\\', 'u', '0', '0', a, b]

theorem written_escape (multi : Bool) {c : Char} (quote : c ≠ '"') :
    Written multi c (escape multi c) := by
  rw [escape]
  split
  · subst c
    exact .letter rfl
  split
  · subst c
    exact .letter rfl
  split
  · subst c
    split
    · rename_i several
      exact .plain quote (by decide) (.inr ⟨several, rfl⟩)
    · exact .letter rfl
  split
  · subst c
    exact .letter rfl
  split
  · subst c
    exact .letter rfl
  split
  · subst c
    exact .letter rfl
  rename_i line _ _ backslash
  split
  · rename_i control
    have small := lt_of_isControl control
    refine .number (hexValue?_hexChar c.toNat small) ?_
    rw [scalar?, if_pos (.inl (by omega)), Char.ofNat_toNat]
  · rename_i printable
    have stands := mayStand_of_not_isControl (Bool.eq_false_iff.mpr printable)
    exact .plain quote backslash (.inl (stands.resolve_right line))

/-- What is written for a character starts with no quote and with no break of its own. -/
theorem Written.start {multi : Bool} {c : Char} {written : List Char}
    (h : Written multi c written) : ∃ first rest, written = first :: rest ∧ first ≠ '"' ∧
      (first = '\n' → c = '\n') ∧ first ≠ '\r' := by
  cases h with
  | plain quote backslash stands =>
      have stands : MayStand c := stands.imp_right And.right
      exact ⟨c, [], rfl, quote, id, stands.ne_carriage⟩
  | letter => exact ⟨_, _, rfl, by decide, by simp, by decide⟩
  | number => exact ⟨_, _, rfl, by decide, by simp, by decide⟩

theorem shortEscape?_eq_some {e c : Char} (short : shortEscape? e = some c) :
    e ∈ ['"', '\\', 'b', 'f', 'n', 'r', 't'] := by
  simp only [shortEscape?] at short
  split at short <;> simp_all

/-! ## On one line -/

theorem basic?_written {c : Char} {written : List Char} (h : Written false c written)
    (rest : List Char) : basic? (written ++ rest) = prepend c (basic? rest) := by
  cases h with
  | plain quote backslash stands =>
      have plain : isPlain c = true := by simpa using stands
      rw [List.singleton_append, basic?, if_pos plain]
      all_goals simp_all
  | letter short =>
      have letters := shortEscape?_eq_some short
      rw [List.cons_append, List.singleton_append, basic?, short]
      · rfl
      all_goals
        intros
        simp_all
  | number value scalar =>
      simp only [List.cons_append, List.nil_append, basic?, value, Option.bind_eq_bind,
        Option.bind_some, scalar]

theorem basic?_escapeText (run : Nat) (s rest : List Char) :
    basic? (escapeText false run s ++ '"' :: rest) = some (s, rest) := by
  induction s generalizing run with
  | nil => rfl
  | cons c s ih =>
      rw [escapeText]
      split
      · rename_i mark
        subst c
        rw [if_neg (by simp)]
        exact (basic?_written (.letter rfl) _).trans (congrArg (prepend '"') (ih 0))
      · rename_i quote
        rw [List.append_assoc, basic?_written (written_escape false quote), ih]
        rfl

theorem span_stop {p : Char → Bool} {s : List Char} (all : ∀ c ∈ s, p c = true) {c : Char}
    (stop : p c = false) (rest : List Char) : (s ++ c :: rest).span p = (s, c :: rest) := by
  rw [List.span_eq_takeWhile_dropWhile, List.takeWhile_append_of_pos all,
    List.dropWhile_append_of_pos all]
  simp [stop]

theorem literal?_literal {s : List Char} (all : ∀ c ∈ s, isLiteral c = true) (rest : List Char) :
    literal? (s ++ '\'' :: rest) = some (s, rest) := by
  rw [literal?, span_stop all (by decide)]
  rfl

/-! ## Over several lines -/

/-- A reader of a text that three marks close. -/
structure Tripled (mark : Char) (read : List Char → Option (List Char × List Char)) : Prop where
  /-- A mark that two others do not follow belongs to the text. -/
  single : ∀ rest, (∀ after, rest ≠ mark :: mark :: after) →
    read (mark :: rest) = prepend mark (read rest)
  /-- Up to two marks before three closing ones belong to the text. -/
  close : ∀ run ≤ 2, ∀ rest, rest.head? ≠ some mark →
    read (List.replicate run mark ++ (triple mark ++ rest)) = some (List.replicate run mark, rest)

/-- A short run of marks before something else belongs to the text. -/
theorem Tripled.marks {mark : Char} {read : List Char → Option (List Char × List Char)}
    (h : Tripled mark read) {run : Nat} (few : run ≤ 2) {s text rest : List Char}
    (other : ∃ c tail, s = c :: tail ∧ c ≠ mark) (done : read s = some (text, rest)) :
    read (List.replicate run mark ++ s) = some (List.replicate run mark ++ text, rest) := by
  obtain ⟨c, tail, rfl, other⟩ := other
  have one : read (mark :: c :: tail) = some (mark :: text, rest) := by
    rw [h.single _ (by simp [other]), done]
    rfl
  match run, few with
  | 0, _ => exact done
  | 1, _ => exact one
  | 2, _ =>
      have two := h.single (mark :: c :: tail) (by simp [other])
      rw [one] at two
      exact two

theorem multiBasic?_char {c : Char} (stands : MayStand c) (backslash : c ≠ '\\') {rest : List Char}
    (mark : c = '"' → ∀ after, rest ≠ '"' :: '"' :: after) :
    multiBasic? .keep (c :: rest) = prepend c (multiBasic? .keep rest) := by
  have carriage := stands.ne_carriage
  rw [multiBasic?, if_pos (show isPlain c = true ∨ c = '\n' from stands)]
  -- no earlier pattern of the reader applies
  all_goals
    intros
    simp_all

theorem multiBasic?_tripled : Tripled '"' (multiBasic? .keep) where
  single rest alone := multiBasic?_char (.inl rfl) (by decide) fun _ => alone
  close run few rest behind := by
    match run, few with
    | 0, _ =>
        change multiBasic? .keep ('"' :: '"' :: '"' :: rest) = some ([], rest)
        rw [multiBasic?]
        all_goals
          intros
          simp_all
    | 1, _ =>
        change multiBasic? .keep ('"' :: '"' :: '"' :: '"' :: rest) = some (['"'], rest)
        rw [multiBasic?]
        all_goals
          intros
          simp_all
    | 2, _ =>
        change multiBasic? .keep ('"' :: '"' :: '"' :: '"' :: '"' :: rest) = some (['"', '"'], rest)
        rw [multiBasic?]
        all_goals simp

theorem multiBasic?_written {c : Char} {written : List Char} (h : Written true c written)
    (rest : List Char) :
    multiBasic? .keep (written ++ rest) = prepend c (multiBasic? .keep rest) := by
  cases h with
  | plain quote backslash stands =>
      have stands : MayStand c := stands.imp_right And.right
      exact multiBasic?_char stands backslash fun mark => absurd mark quote
  | @letter e short =>
      have letters := shortEscape?_eq_some short
      have solid : ¬(e = ' ' ∨ e = '\t') := by
        rintro (rfl | rfl) <;> simp at letters
      rw [List.cons_append, List.singleton_append, multiBasic?, short, if_neg solid]
      · rfl
      all_goals
        intros
        simp_all
  | number value scalar =>
      simp only [List.cons_append, List.nil_append, multiBasic?, value, Option.bind_eq_bind,
        Option.bind_some, scalar]

theorem multiBasic?_escapeText {run : Nat} (few : run ≤ 2) (s : List Char) {rest : List Char}
    (behind : rest.head? ≠ some '"') :
    multiBasic? .keep
      (List.replicate run '"' ++ (escapeText true run s ++ (triple '"' ++ rest))) =
        some (List.replicate run '"' ++ s, rest) := by
  induction s generalizing run with
  | nil =>
      rw [List.append_nil]
      exact multiBasic?_tripled.close run few rest behind
  | cons c s ih =>
      rw [escapeText]
      split
      · rename_i mark
        subst c
        split
        · -- the mark joins the run before it
          rename_i short
          have longer := @ih (run + 1) (by omega)
          rwa [List.replicate_succ', List.append_assoc, List.append_assoc] at longer
        · have mark : Written true '"' ['\\', '"'] := .letter rfl
          have read := (multiBasic?_written mark _).trans
            (congrArg (prepend '"') (ih (Nat.zero_le 2)))
          exact multiBasic?_tripled.marks few ⟨_, _, rfl, by decide⟩ read
      · rename_i quote
        have written := written_escape true quote
        have read := (multiBasic?_written written _).trans
          (congrArg (prepend c) (ih (Nat.zero_le 2)))
        obtain ⟨first, tail, start, other, -⟩ := written.start
        rw [List.append_assoc]
        exact multiBasic?_tripled.marks few ⟨first, _, by rw [start, List.cons_append], other⟩ read

theorem multiLiteral?_char {c : Char} (stands : MayStand c) {rest : List Char}
    (mark : c = '\'' → ∀ after, rest ≠ '\'' :: '\'' :: after) :
    multiLiteral? (c :: rest) = prepend c (multiLiteral? rest) := by
  have carriage := stands.ne_carriage
  rw [multiLiteral?, if_pos (show isPlain c = true ∨ c = '\n' from stands)]
  all_goals
    intros
    simp_all

theorem multiLiteral?_tripled : Tripled '\'' multiLiteral? where
  single rest alone := multiLiteral?_char (.inl rfl) fun _ => alone
  close run few rest behind := by
    match run, few with
    | 0, _ =>
        change multiLiteral? ('\'' :: '\'' :: '\'' :: rest) = some ([], rest)
        rw [multiLiteral?]
        all_goals
          intros
          simp_all
    | 1, _ =>
        change multiLiteral? ('\'' :: '\'' :: '\'' :: '\'' :: rest) = some (['\''], rest)
        rw [multiLiteral?]
        intros
        simp_all
    | 2, _ => rfl

theorem multiLiteral?_literal {run : Nat} {s : List Char} (stands : ∀ c ∈ s, MayStand c)
    (few : longestRun '\'' run s ≤ 2) {rest : List Char} (behind : rest.head? ≠ some '\'') :
    multiLiteral? (List.replicate run '\'' ++ (s ++ (triple '\'' ++ rest))) =
      some (List.replicate run '\'' ++ s, rest) := by
  induction s generalizing run with
  | nil =>
      rw [List.append_nil]
      exact multiLiteral?_tripled.close run few rest behind
  | cons c s ih =>
      obtain ⟨here, later⟩ := List.forall_mem_cons.mp stands
      rw [longestRun] at few
      split at few
      · rename_i mark
        subst c
        have longer := ih later few
        rwa [List.replicate_succ', List.append_assoc, List.append_assoc] at longer
      · rename_i other
        obtain ⟨short, few⟩ := Nat.max_le.mp few
        have read := (multiLiteral?_char here fun mark => absurd mark other).trans
          (congrArg (prepend c) (ih later few))
        exact multiLiteral?_tripled.marks short ⟨c, _, rfl, other⟩ read

/-! ## Any text -/

theorem le_longestRun (mark : Char) (run : Nat) (s : List Char) : run ≤ longestRun mark run s := by
  induction s generalizing run with
  | nil => exact Nat.le_refl run
  | cons c s ih =>
      rw [longestRun]
      split
      · exact Nat.le_of_succ_le (ih (run + 1))
      · exact Nat.le_max_left _ _

theorem not_mem_of_longestRun {mark : Char} {run : Nat} {s : List Char}
    (none : longestRun mark run s = 0) : mark ∉ s := by
  induction s generalizing run with
  | nil => exact List.not_mem_nil
  | cons c s ih =>
      rw [longestRun] at none
      split at none
      · have := le_longestRun mark (run + 1) s
        omega
      · rename_i other
        rw [List.mem_cons, not_or]
        exact ⟨Ne.symm other, ih (Nat.max_eq_zero_iff.mp none).2⟩

/-- What follows a string cannot be taken for a mark of it. -/
def Unmarked (rest : List Char) : Prop :=
  rest.head? ≠ some '"' ∧ rest.head? ≠ some '\''

/-- The break behind the opening marks is the only one that is dropped. -/
theorem dropBreak_openingBreak {s t : List Char} (line : t.head? = some '\n' → '\n' ∈ s)
    (carriage : t.head? ≠ some '\r') : dropBreak (openingBreak s ++ t) = t := by
  rw [openingBreak]
  split
  · rfl
  · rename_i flat
    rw [List.contains_iff_mem] at flat
    rw [List.nil_append, dropBreak]
    · rintro rest rfl
      exact flat (line rfl)
    · rintro rest rfl
      exact carriage rfl

theorem head?_escapeText (multi : Bool) {c : Char} (s rest : List Char) :
    ∃ first tail, escapeText multi 0 (c :: s) ++ rest = first :: tail ∧
      (first = '"' → multi = true) ∧ (first = '\n' → c = '\n') ∧ first ≠ '\r' := by
  rw [escapeText]
  split
  · rename_i mark
    subst c
    split
    · rename_i several
      exact ⟨_, _, rfl, fun _ => several.1, by decide, by decide⟩
    · exact ⟨_, _, rfl, by simp, by decide, by decide⟩
  · rename_i quote
    obtain ⟨first, tail, start, other, line, carriage⟩ := (written_escape multi quote).start
    refine ⟨first, _, by rw [start, List.cons_append, List.cons_append], ?_, line, carriage⟩
    exact fun mark => absurd mark other

theorem string?_basic (s : List Char) {rest : List Char} (behind : Unmarked rest) :
    string? ('"' :: escapeText false 0 s ++ ['"'] ++ rest) = some (s, rest) := by
  have read := basic?_escapeText 0 s rest
  rw [List.append_assoc, List.singleton_append, List.cons_append, string?]
  · exact read
  · intro after three
    cases s with
    | nil => exact behind.1 (congrArg List.head? (List.cons.inj three).2)
    | cons c s =>
        obtain ⟨first, tail, start, mark, -⟩ := head?_escapeText false (c := c) s ('"' :: rest)
        rw [start] at three
        exact absurd (mark (List.cons.inj three).1) (by decide)

theorem string?_literal {s : List Char} (all : ∀ c ∈ s, isLiteral c = true) {rest : List Char}
    (behind : Unmarked rest) : string? ('\'' :: s ++ ['\''] ++ rest) = some (s, rest) := by
  rw [List.append_assoc, List.singleton_append, List.cons_append, string?]
  · exact literal?_literal all rest
  · intro after three
    cases s with
    | nil => exact behind.2 (congrArg List.head? (List.cons.inj three).2)
    | cons c s =>
        obtain rfl : c = '\'' := (List.cons.inj three).1
        exact absurd (all _ List.mem_cons_self) (by decide)

theorem string?_multiBasic (s : List Char) {rest : List Char} (behind : Unmarked rest) :
    string? (triple '"' ++ openingBreak s ++ escapeText true 0 s ++ triple '"' ++ rest) =
      some (s, rest) := by
  have dropped : dropBreak (openingBreak s ++ (escapeText true 0 s ++ (triple '"' ++ rest))) =
      escapeText true 0 s ++ (triple '"' ++ rest) := by
    cases s with
    | nil => rfl
    | cons c s =>
        obtain ⟨first, tail, start, -, line, carriage⟩ :=
          head?_escapeText true (c := c) s (triple '"' ++ rest)
        apply dropBreak_openingBreak
        · intro break_
          rw [start] at break_
          rw [line (Option.some.inj break_)]
          exact List.mem_cons_self
        · rw [start]
          exact fun same => carriage (Option.some.inj same)
  calc string? (triple '"' ++ openingBreak s ++ escapeText true 0 s ++ triple '"' ++ rest)
    _ = multiBasic? .keep
        (dropBreak (openingBreak s ++ (escapeText true 0 s ++ (triple '"' ++ rest)))) := by
      simp only [List.append_assoc]
      rfl
    _ = some (s, rest) := by
      rw [dropped]
      exact multiBasic?_escapeText (Nat.zero_le 2) s behind.1

theorem string?_multiLiteral {s : List Char} (stands : ∀ c ∈ s, MayStand c)
    (few : longestRun '\'' 0 s ≤ 2) {rest : List Char} (behind : Unmarked rest) :
    string? (triple '\'' ++ openingBreak s ++ s ++ triple '\'' ++ rest) = some (s, rest) := by
  have dropped : dropBreak (openingBreak s ++ (s ++ (triple '\'' ++ rest))) =
      s ++ (triple '\'' ++ rest) := by
    cases s with
    | nil => rfl
    | cons c s =>
        apply dropBreak_openingBreak
        · intro break_
          rw [← Option.some.inj break_]
          exact List.mem_cons_self
        · exact fun same => (stands c List.mem_cons_self).ne_carriage (Option.some.inj same)
  calc string? (triple '\'' ++ openingBreak s ++ s ++ triple '\'' ++ rest)
    _ = multiLiteral? (dropBreak (openingBreak s ++ (s ++ (triple '\'' ++ rest)))) := by
      simp only [List.append_assoc]
      rfl
    _ = some (s, rest) := by
      rw [dropped]
      exact @multiLiteral?_literal 0 s stands few rest behind.2

/-- Every text is read back from between its marks. -/
theorem string?_quote (s : List Char) {rest : List Char} (behind : Unmarked rest) :
    string? (quote s ++ rest) = some (s, rest) := by
  have stands (printable : ¬s.any isControl = true) : ∀ c ∈ s, MayStand c := by
    intro c member
    apply mayStand_of_not_isControl
    rw [Bool.eq_false_iff]
    exact fun control => printable (List.any_eq_true.mpr ⟨c, member, control⟩)
  simp only [quote]
  split
  · exact string?_basic s behind
  split
  · rename_i literal
    obtain ⟨printable, flat, apostrophes⟩ := literal
    refine string?_literal ?_ behind
    intro c member
    have line : c ≠ '\n' := by
      rintro rfl
      exact flat (List.contains_iff_mem.mpr member)
    have mark : c ≠ '\'' := by
      rintro rfl
      exact not_mem_of_longestRun apostrophes member
    simp [isLiteral, (stands printable c member).resolve_right line, mark]
  split
  · exact string?_multiBasic s behind
  split
  · rename_i literal
    exact string?_multiLiteral (stands literal.1) literal.2 behind
  split
  · exact string?_multiBasic s behind
  · exact string?_basic s behind

end Highlight.Toml
