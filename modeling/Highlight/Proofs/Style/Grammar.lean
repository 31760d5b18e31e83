import Highlight.Proofs.Text.Cutting
import Highlight.Style.Descriptor
import Mathlib.Data.List.Induction
import Mathlib.Data.Nat.Digits.Defs

/-! # The grammar of brush descriptors

A brush is read by trimming, cutting and splitting, each step on what the one before has left. What
texts are accepted that way is written down here as a grammar, from the digits of a channel up to
the two forms of a brush, and every reader is shown to accept exactly its part of it.
-/

namespace Highlight

open Text

namespace Descriptor

/-! ## The grammar -/

/-- One or more decimal digits with their value, which is at most 255. -/
structure Digits (value : Nat) (s : List Char) : Prop where
  filled : s ≠ []
  decimal : ∀ c ∈ s, c.isDigit = true
  value_eq : value = Nat.ofDigits 10 (s.reverse.map fun c => c.toNat - '0'.toNat)
  small : value ≤ 255

/-- A channel: digits, with or without a plus sign, and blanks around them. -/
inductive Channel (value : Nat) (s : List Char) : Prop where
  | plain {digits : List Char} (read : Digits value digits) (padded : Padded digits s)
  | signed {digits : List Char} (read : Digits value digits) (padded : Padded ('+' :: digits) s)

/-- One or more channels with commas between them. -/
inductive Channels : List Nat → List Char → Prop where
  | single {value : Nat} {s : List Char} (only : Channel value s) : Channels [value] s
  | cons {value : Nat} {values : List Nat} {s t : List Char} (first : Channel value s)
      (rest : Channels values t) : Channels (value :: values) (s ++ ',' :: t)

/-- The three channels of a colour that lets nothing shine through. -/
def Triple (color : Color) (s : List Char) : Prop :=
  color.alpha = 255 ∧ Channels [color.red, color.green, color.blue] s

/-- The four channels of a colour. -/
def Quadruple (color : Color) (s : List Char) : Prop :=
  Channels [color.red, color.green, color.blue, color.alpha] s

/-- A text in parentheses. -/
def parens (inside : List Char) : List Char :=
  '(' :: (inside ++ [')'])

/-- A word in any ASCII case, blanks or none, and a text in parentheses. -/
def Form (name inside s : List Char) : Prop :=
  ∃ word gap, word.map Char.toLower = name ∧ Blank gap ∧ s = word ++ (gap ++ parens inside)

/-- Two texts in parentheses with a comma between them and blanks around each. -/
def Pair (first second s : List Char) : Prop :=
  ∃ left right, Padded (parens first) left ∧ Padded (parens second) right ∧
    s = left ++ ',' :: right

/-- The text of a single colour. -/
def Solid (color : Color) (s : List Char) : Prop :=
  ∃ form inside, Padded form s ∧ Form "solid".toList inside form ∧
    (Triple color inside ∨ Quadruple color inside)

/-- The text of a gradient between two colours. -/
def Gradient (start stop : Color) (s : List Char) : Prop :=
  ∃ form inside first second, Padded form s ∧ Form "lingrad".toList inside form ∧
    Pair first second inside ∧ Triple start first ∧ Triple stop second

/-! ## Channels -/

variable {value : Nat} {values : List Nat} {color : Color} {s name inside first second : List Char}

theorem digitsValue_eq_ofDigits (digits : List Char) : digitsValue digits =
    Nat.ofDigits 10 (digits.reverse.map fun c => c.toNat - '0'.toNat) := by
  induction digits using List.reverseRecOn with
  | nil => rfl
  | append_singleton digits c ih =>
      have last :
          digitsValue (digits ++ [c]) = digitsValue digits * 10 + (c.toNat - '0'.toNat) := by
        rw [digitsValue, List.foldl_append]
        rfl
      rw [last, List.reverse_concat, List.map_cons, Nat.ofDigits_cons, ← ih, Nat.mul_comm,
        Nat.add_comm]

theorem isBlank_of_isDigit {c : Char} (digit : c.isDigit = true) : isBlank c = false := by
  simp only [Char.isDigit, Bool.and_eq_true, decide_eq_true_eq, ge_iff_le,
    UInt32.le_iff_toNat_le] at digit
  change 48 ≤ c.toNat ∧ c.toNat ≤ 57 at digit
  simp only [isBlank, Bool.or_eq_false_iff, Bool.and_eq_false_iff, decide_eq_false_iff_not,
    beq_eq_false_iff_ne]
  omega

theorem channel?_eq_some_iff : channel? s = some value ↔
    Digits value s ∨ ∃ digits, s = '+' :: digits ∧ Digits value digits := by
  have digits_iff (digits : List Char) :
      (if digits ≠ [] ∧ digits.all isDigit ∧ digitsValue digits ≤ 255 then
        some (digitsValue digits) else none) = some value ↔ Digits value digits := by
    rw [digitsValue_eq_ofDigits, Option.ite_none_right_eq_some, Option.some.injEq]
    constructor
    · rintro ⟨⟨filled, decimal, small⟩, rfl⟩
      exact ⟨filled, List.all_eq_true.mp decimal, rfl, small⟩
    · rintro ⟨filled, decimal, rfl, small⟩
      exact ⟨⟨filled, List.all_eq_true.mpr decimal, small⟩, rfl⟩
  unfold channel?
  simp only [digits_iff]
  split
  · rename_i digits
    constructor
    · exact fun read => .inr ⟨digits, rfl, read⟩
    · rintro (unsigned | ⟨_, same, read⟩)
      · exact absurd (unsigned.decimal '+' List.mem_cons_self) (by decide)
      · exact (List.cons.inj same).2 ▸ read
  · rename_i unsigned
    constructor
    · exact .inl
    · rintro (read | ⟨digits, rfl, -⟩)
      · exact read
      · exact absurd rfl (unsigned digits)

theorem Digits.tight (read : Digits value s) : Tight s :=
  .of_solid read.filled fun c member => isBlank_of_isDigit (read.decimal c member)

theorem Digits.tight_signed (read : Digits value s) : Tight ('+' :: s) := by
  refine .of_solid (List.cons_ne_nil _ _) (List.forall_mem_cons.mpr ⟨by decide, ?_⟩)
  exact fun c member => isBlank_of_isDigit (read.decimal c member)

theorem channel?_trim_eq_some_iff : channel? (trim s) = some value ↔ Channel value s := by
  rw [channel?_eq_some_iff]
  constructor
  · rintro (read | ⟨digits, signed, read⟩)
    · exact .plain read (padded_trim s)
    · exact .signed read (signed ▸ padded_trim s)
  · rintro (⟨read, padded⟩ | ⟨read, padded⟩)
    · rw [trim_of_padded read.tight padded]
      exact .inl read
    · rw [trim_of_padded read.tight_signed padded]
      exact .inr ⟨_, rfl, read⟩

/-- What a channel is written with. -/
theorem Channel.chars (read : Channel value s) :
    ∀ c ∈ s, isBlank c = true ∨ c = '+' ∨ c.isDigit = true := by
  have padded_chars {inner : List Char} (inside : ∀ c ∈ inner, c = '+' ∨ c.isDigit = true)
      (padded : Padded inner s) : ∀ c ∈ s, isBlank c = true ∨ c = '+' ∨ c.isDigit = true := by
    obtain ⟨left, right, blank, blank', rfl⟩ := padded
    intro c member
    rcases List.mem_append.mp member with member | member
    · rcases List.mem_append.mp member with member | member
      · exact .inl (blank c member)
      · exact .inr (inside c member)
    · exact .inl (blank' c member)
  cases read with
  | plain read padded => exact padded_chars (fun c member => .inr (read.decimal c member)) padded
  | signed read padded =>
      refine padded_chars (fun c member => ?_) padded
      rcases List.mem_cons.mp member with rfl | member
      · exact .inl rfl
      · exact .inr (read.decimal c member)

theorem Channel.comma_not_mem (read : Channel value s) : ',' ∉ s :=
  fun member => absurd (read.chars ',' member) (by decide)

theorem Channels.close_not_mem (read : Channels values s) : ')' ∉ s := by
  induction read with
  | single only => exact fun member => absurd (only.chars ')' member) (by decide)
  | cons first _ ih =>
      rw [List.mem_append, List.mem_cons]
      rintro (member | same | member)
      · exact absurd (first.chars ')' member) (by decide)
      · exact absurd same (by decide)
      · exact ih member

theorem Channels.read (h : Channels values s) : channels? s = some values := by
  induction h with
  | single only =>
      rw [channels?, splitOn_of_not_mem only.comma_not_mem, List.mapM_cons, List.mapM_nil,
        channel?_trim_eq_some_iff.mpr only]
      rfl
  | cons first _ ih =>
      rw [channels?] at ih
      rw [channels?, splitOn_append, splitOn_of_not_mem first.comma_not_mem, List.singleton_append,
        List.mapM_cons, channel?_trim_eq_some_iff.mpr first, ih]
      rfl

theorem channels_of_read (read : channels? s = some values) : Channels values s := by
  obtain ⟨pieces, split⟩ : ∃ pieces, splitOn ',' s = pieces := ⟨_, rfl⟩
  rw [channels?, split] at read
  -- The readers follow the pieces, so the derivation is put together along them.
  induction pieces generalizing s values with
  | nil => exact absurd split (splitOn_ne_nil _ _)
  | cons piece pieces ih =>
      rw [List.mapM_cons] at read
      obtain ⟨value, first, read⟩ := Option.bind_eq_some_iff.mp read
      obtain ⟨later, rest, same⟩ := Option.bind_eq_some_iff.mp read
      obtain rfl := Option.some.inj same
      rw [channel?_trim_eq_some_iff] at first
      rcases splitOn_eq_cons split with ⟨rfl, rfl⟩ | ⟨others, rfl, behind⟩
      · obtain rfl := Option.some.inj rest
        exact .single first
      · exact .cons first (ih rest behind)

theorem channels?_eq_some_iff : channels? s = some values ↔ Channels values s :=
  ⟨channels_of_read, Channels.read⟩

theorem rgb?_eq_some_iff : rgb? s = some color ↔ Triple color s := by
  rw [rgb?, Triple, ← channels?_eq_some_iff]
  obtain ⟨red, green, blue, alpha⟩ := color
  constructor
  · intro read
    split at read
    · rename_i channels
      obtain ⟨rfl, rfl, rfl, rfl⟩ := Color.mk.inj (Option.some.inj read)
      exact ⟨rfl, channels⟩
    · cases read
  · rintro ⟨rfl, channels⟩
    rw [channels]

theorem rgba?_eq_some_iff : rgba? s = some color ↔ Triple color s ∨ Quadruple color s := by
  rw [rgba?, Triple, Quadruple, ← channels?_eq_some_iff, ← channels?_eq_some_iff]
  obtain ⟨red, green, blue, alpha⟩ := color
  constructor
  · intro read
    split at read
    · rename_i channels
      obtain ⟨rfl, rfl, rfl, rfl⟩ := Color.mk.inj (Option.some.inj read)
      exact .inl ⟨rfl, channels⟩
    · rename_i channels
      obtain ⟨rfl, rfl, rfl, rfl⟩ := Color.mk.inj (Option.some.inj read)
      exact .inr channels
    · cases read
  · rintro (⟨rfl, channels⟩ | channels) <;> rw [channels]

/-! ## Parentheses -/

theorem drop_parens_iff :
    (dropFirst? '(' s).bind (dropLast? ')') = some inside ↔ s = parens inside := by
  simp only [Option.bind_eq_some_iff, dropFirst?_eq_some_iff, dropLast?_eq_some_iff]
  constructor
  · rintro ⟨_, rfl, rfl⟩
    rfl
  · rintro rfl
    exact ⟨_, rfl, rfl⟩

theorem parens_tight (inside : List Char) : Tight (parens inside) := by
  refine ⟨⟨'(', rfl, by decide⟩, ')', ?_, by decide⟩
  rw [parens, ← List.cons_append, List.getLast?_concat]

theorem arguments?_eq_some_iff : arguments? name s = some inside ↔ Form name inside s := by
  rw [arguments?, Option.ite_none_right_eq_some, drop_parens_iff]
  constructor
  · rintro ⟨word, rest⟩
    obtain ⟨gap, blank, rest⟩ := (trimStart_eq_cons_iff (by decide)).mp rest
    refine ⟨s.take name.length, gap, word, blank, ?_⟩
    rw [parens, ← rest, List.take_append_drop]
  · rintro ⟨word, gap, rfl, blank, rfl⟩
    rw [List.length_map, List.take_left, List.drop_left]
    exact ⟨rfl, (trimStart_eq_cons_iff (by decide)).mpr ⟨gap, blank, rfl⟩⟩

theorem tuples?_eq_some_iff :
    tuples? s = some (first, second) ↔ ')' ∉ first ∧ Pair first second s := by
  simp only [tuples?, Option.bind_eq_bind, Option.bind_eq_some_iff, Option.pure_def,
    Option.some.injEq, Prod.exists, Prod.mk.injEq, dropFirst?_eq_some_iff, dropLast?_eq_some_iff,
    splitAtFirst?_eq_some_iff, trimStart_eq_cons_iff (show isBlank ',' = false by decide)]
  constructor
  · rintro ⟨opened, trimmed, _, rest, ⟨rfl, free⟩, behind, ⟨gap, blank, rfl⟩, _, trimmed', _, rfl,
      rfl, rfl⟩
    obtain ⟨left, right, front, back, whole⟩ := padded_trim s
    obtain ⟨left', right', front', back', rest⟩ := padded_trim behind
    refine ⟨free, _, _, ⟨left, gap, front, blank, rfl⟩,
      ⟨left', right' ++ right, front', back'.append back, rfl⟩, ?_⟩
    rw [trimmed'] at rest
    rw [trimmed, rest] at whole
    simp [whole, parens]
  · rintro ⟨free, _, _, ⟨left, gap, front, blank, rfl⟩, ⟨left', right, front', back, rfl⟩, rfl⟩
    have tight : Tight (parens first ++ ((gap ++ ',' :: left') ++ parens second)) :=
      (parens_tight first).around (parens_tight second) _
    have trimmed := trim_of_padded tight ⟨left, right, front, back, rfl⟩
    have trimmed' : trim (left' ++ parens second) = parens second :=
      trim_of_padded (parens_tight second) ⟨left', [], front', .nil, (List.append_nil _).symm⟩
    refine ⟨first ++ ')' :: (gap ++ ',' :: (left' ++ parens second)), ?_, first, _, ⟨rfl, free⟩,
      _, ⟨gap, blank, rfl⟩, second ++ [')'], trimmed', second, rfl, rfl, rfl⟩
    simpa [parens] using trimmed

/-- A text that a gradient's colours are read from is two triples in parentheses. -/
theorem gradient?_eq_some_iff {brush : Brush} : gradient? s = some brush ↔
    ∃ start stop first second, brush = .gradient start stop 45 ∧ Pair first second s ∧
      Triple start first ∧ Triple stop second := by
  simp only [gradient?, Option.bind_eq_bind, Option.bind_eq_some_iff, Option.pure_def,
    Option.some.injEq, Prod.exists, tuples?_eq_some_iff, rgb?_eq_some_iff]
  constructor
  · rintro ⟨first, second, ⟨-, pair⟩, start, read, stop, read', rfl⟩
    exact ⟨start, stop, first, second, rfl, pair, read, read'⟩
  · rintro ⟨start, stop, first, second, rfl, pair, read, read'⟩
    exact ⟨first, second, ⟨read.2.close_not_mem, pair⟩, start, read, stop, read', rfl⟩

/-! ## Forms -/

theorem toLower_of_isBlank {c : Char} (blank : isBlank c = true) : c.toLower = c := by
  refine dif_neg ?_
  rintro ⟨low, high⟩
  rw [ge_iff_le, UInt32.le_iff_toNat_le] at low
  rw [UInt32.le_iff_toNat_le] at high
  change 65 ≤ c.toNat at low
  change c.toNat ≤ 90 at high
  simp only [isBlank, Bool.or_eq_true, Bool.and_eq_true, decide_eq_true_eq, beq_iff_eq] at blank
  omega

theorem Form.head? {letter : Char} (form : Form name inside s) (starts : name.head? = some letter) :
    ∃ c, s.head? = some c ∧ c.toLower = letter := by
  obtain ⟨word, gap, rfl, -, rfl⟩ := form
  cases word with
  | nil => simp at starts
  | cons c word =>
      exact ⟨c, rfl, by simpa using starts⟩

theorem Form.tight (form : Form name inside s) {letter : Char} (starts : name.head? = some letter)
    (solid : isBlank letter = false) : Tight s := by
  refine ⟨?_, ?_⟩
  · obtain ⟨c, head, rfl⟩ := form.head? starts
    refine ⟨c, head, Bool.eq_false_iff.mpr fun blank => ?_⟩
    rw [toLower_of_isBlank blank, blank] at solid
    cases solid
  · obtain ⟨word, gap, -, -, rfl⟩ := form
    obtain ⟨c, last, solid'⟩ := (parens_tight inside).back
    exact ⟨c, by simp [List.getLast?_append, last], solid'⟩

/-- No text has both forms. -/
theorem not_solid_of_lingrad {inside' : List Char} (form : Form "lingrad".toList inside s) :
    ¬Form "solid".toList inside' s := by
  intro other
  obtain ⟨c, head, lower⟩ := form.head? rfl
  obtain ⟨c', head', lower'⟩ := other.head? rfl
  obtain rfl := Option.some.inj (head.symm.trans head')
  exact absurd (lower.symm.trans lower') (by decide)

theorem brush?_eq_solid_iff : brush? s = some (.solid color) ↔
    ∃ inside, Form "solid".toList inside s ∧ (Triple color inside ∨ Quadruple color inside) := by
  simp only [← arguments?_eq_some_iff, ← rgba?_eq_some_iff]
  rw [brush?]
  constructor
  · intro read
    split at read
    · rename_i inside form
      obtain ⟨_, colors, same⟩ := Option.map_eq_some_iff.mp read
      obtain rfl := Brush.solid.inj same
      exact ⟨inside, form, colors⟩
    · obtain ⟨inside, -, read⟩ := Option.bind_eq_some_iff.mp read
      obtain ⟨_, _, _, _, same, -⟩ := gradient?_eq_some_iff.mp read
      cases same
  · rintro ⟨inside, form, colors⟩
    simp only [form, colors, Option.map_some]

theorem brush?_eq_gradient_iff {start stop : Color} {angle : Nat} :
    brush? s = some (.gradient start stop angle) ↔ angle = 45 ∧
      ∃ inside first second, Form "lingrad".toList inside s ∧ Pair first second inside ∧
        Triple start first ∧ Triple stop second := by
  rw [brush?]
  constructor
  · intro read
    split at read
    · obtain ⟨_, -, same⟩ := Option.map_eq_some_iff.mp read
      cases same
    · obtain ⟨inside, form, read⟩ := Option.bind_eq_some_iff.mp read
      obtain ⟨_, _, first, second, same, grammar⟩ := gradient?_eq_some_iff.mp read
      obtain ⟨rfl, rfl, rfl⟩ := Brush.gradient.inj same
      exact ⟨rfl, inside, first, second, arguments?_eq_some_iff.mp form, grammar⟩
  · rintro ⟨rfl, inside, first, second, form, grammar⟩
    have other : arguments? "solid".toList s = none := by
      rw [Option.eq_none_iff_forall_ne_some]
      intro inside' found
      exact not_solid_of_lingrad form (arguments?_eq_some_iff.mp found)
    rw [other, arguments?_eq_some_iff.mpr form]
    exact gradient?_eq_some_iff.mpr ⟨start, stop, first, second, rfl, grammar⟩

theorem brush?_trim_eq_solid_iff : brush? (trim s) = some (.solid color) ↔ Solid color s := by
  rw [brush?_eq_solid_iff]
  constructor
  · rintro ⟨inside, form, colors⟩
    exact ⟨_, inside, padded_trim s, form, colors⟩
  · rintro ⟨core, inside, padded, form, colors⟩
    rw [trim_of_padded (form.tight rfl (by decide)) padded]
    exact ⟨inside, form, colors⟩

theorem brush?_trim_eq_gradient_iff {start stop : Color} {angle : Nat} :
    brush? (trim s) = some (.gradient start stop angle) ↔ angle = 45 ∧ Gradient start stop s := by
  rw [brush?_eq_gradient_iff]
  apply and_congr_right'
  constructor
  · rintro ⟨inside, first, second, form, grammar⟩
    exact ⟨_, inside, first, second, padded_trim s, form, grammar⟩
  · rintro ⟨core, inside, first, second, padded, form, grammar⟩
    rw [trim_of_padded (form.tight rfl (by decide)) padded]
    exact ⟨inside, first, second, form, grammar⟩

theorem brush?_trim_eq_none_iff : brush? (trim s) = none ↔
    (∀ color, ¬Solid color s) ∧ ∀ start stop, ¬Gradient start stop s := by
  rw [Option.eq_none_iff_forall_ne_some]
  constructor
  · intro none
    exact ⟨fun color solid => none _ (brush?_trim_eq_solid_iff.mpr solid),
      fun start stop gradient => none _ (brush?_trim_eq_gradient_iff.mpr ⟨rfl, gradient⟩)⟩
  · rintro ⟨solid, gradient⟩ brush read
    cases brush with
    | solid color => exact solid color (brush?_trim_eq_solid_iff.mp read)
    | gradient start stop angle => exact gradient start stop (brush?_trim_eq_gradient_iff.mp read).2

end Descriptor

open Descriptor

/-- A brush is read from exactly the texts of the grammar: a single colour from the texts of that
    colour, a gradient, always at the same angle, from the texts of its two colours. Every other
    text is refused as malformed, without its outer blanks. -/
theorem brush_read_iff_grammar (text : String) :
    (∀ color, Brush.parse text = .ok (.solid color) ↔ Solid color text.toList) ∧
      (∀ start stop angle, Brush.parse text = .ok (.gradient start stop angle) ↔
        angle = 45 ∧ Gradient start stop text.toList) ∧
      ∀ e, Brush.parse text = .error e ↔
        ((∀ color, ¬Solid color text.toList) ∧ ∀ start stop, ¬Gradient start stop text.toList) ∧
          e = .malformedColor (String.ofList (trim text.toList)) := by
  have ok_iff (brush : Brush) :
      Brush.parse text = .ok brush ↔ brush? (trim text.toList) = some brush := by
    rw [Brush.parse]
    cases brush? (trim text.toList) <;> simp
  have error_iff (e : DescriptorError) : Brush.parse text = .error e ↔
      brush? (trim text.toList) = none ∧
        e = .malformedColor (String.ofList (trim text.toList)) := by
    rw [Brush.parse]
    cases brush? (trim text.toList) <;> simp [eq_comm]
  refine ⟨fun color => ?_, fun start stop angle => ?_, fun e => ?_⟩
  · rw [ok_iff, brush?_trim_eq_solid_iff]
  · rw [ok_iff, brush?_trim_eq_gradient_iff]
  · rw [error_iff, brush?_trim_eq_none_iff]

end Highlight
