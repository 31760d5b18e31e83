import Highlight.Json.Printer
import Highlight.Json.Reader
import Mathlib.Tactic.Common

/-! # Written JSON reads back

A value without numbers is read back from its text exactly, whatever characters its texts hold and
however deep it is nested. Such a text ends by itself, so whatever follows it is left over.
-/

namespace Highlight.Json

/-! ## Strings -/

/-- The part of a string that a written character is read as. -/
def piece (c : Char) : Piece :=
  if c < ' ' ∧ c ∉ ['\x08', '\x0c', '\n', '\r', '\t'] then .unit c.toNat else .char c

theorem hexValue?_control : ∀ n < 32,
    hexValue? ['0', '0', hexChar (n / 16), hexChar (n % 16)] = some n := by
  decide

theorem pieces?_plain {c : Char} (quote : c ≠ '"') (backslash : c ≠ '\\') (printable : ¬c < ' ')
    {rest after : List Char} {pieces : List Piece} (read : pieces? rest = some (pieces, after)) :
    pieces? (c :: rest) = some (.char c :: pieces, after) := by
  rw [pieces?]
  · simp only [if_neg printable, read]
    rfl
  · exact quote
  · intro a b c d rest same
    cases same
    exact absurd rfl backslash
  · intro a rest same
    cases same
    exact absurd rfl backslash

/-- A written character is read as one part of the string. -/
theorem pieces?_escape (c : Char) {rest after : List Char} {pieces : List Piece}
    (read : pieces? rest = some (pieces, after)) :
    pieces? (escape c ++ rest) = some (piece c :: pieces, after) := by
  rw [escape]
  repeat' split
  -- quotes, backslashes and the control characters with a letter of their own
  iterate 7
    subst c
    simp [pieces?, shortEscape?, read, piece]
  · rename_i backspace feed line carriage tab control
    have value := hexValue?_control c.toNat (UInt32.lt_iff_toNat_lt.mp control)
    have unit : piece c = .unit c.toNat := by
      rw [piece, if_pos]
      exact ⟨control, by simp [backspace, feed, line, carriage, tab]⟩
    simp only [List.cons_append, List.nil_append, pieces?, value, read, unit]
    rfl
  · rename_i quote backslash backspace feed line carriage tab printable
    have char : piece c = .char c := by
      rw [piece, if_neg fun both => printable both.1]
    rw [char]
    exact pieces?_plain quote backslash printable read

theorem pieces?_quoted (s rest : List Char) :
    pieces? (s.flatMap escape ++ '"' :: rest) = some (s.map piece, rest) := by
  induction s with
  | nil => rfl
  | cons c s ih =>
      rw [List.flatMap_cons, List.append_assoc]
      exact pieces?_escape c ih

theorem join?_piece (c : Char) (pieces : List Piece) :
    join? (piece c :: pieces) = (join? pieces).map (c :: ·) := by
  rw [piece]
  split
  · rename_i control
    have small : c.toNat < 32 := UInt32.lt_iff_toNat_lt.mp control.1
    have lead : isLead c.toNat = false := by
      simp only [isLead, Bool.and_eq_false_iff, decide_eq_false_iff_not]
      omega
    have trail : isTrail c.toNat = false := by
      simp only [isTrail, Bool.and_eq_false_iff, decide_eq_false_iff_not]
      omega
    rw [join?.eq_def]
    simp [lead, trail, Char.ofNat_toNat]
  · rfl

theorem join?_pieces (s : List Char) : join? (s.map piece) = some s := by
  induction s with
  | nil => rfl
  | cons c s ih => rw [List.map_cons, join?_piece, ih, Option.map_some]

/-! ## Space -/

theorem skipSpace_solid {c : Char} (solid : isSpace c = false) (s : List Char) :
    skipSpace (c :: s) = c :: s := by
  rw [skipSpace, List.dropWhile_cons_of_neg (by simp [solid])]

theorem skipSpace_newLine (level : Nat) (s : List Char) :
    skipSpace (newLine level ++ s) = skipSpace s := by
  have blanks (n : Nat) : skipSpace (List.replicate n ' ' ++ s) = skipSpace s := by
    induction n with
    | zero => rfl
    | succ n ih => exact ih
  exact blanks (2 * level)

theorem value?_newLine (fuel level : Nat) (s : List Char) :
    value? fuel (newLine level ++ s) = value? fuel s := by
  cases fuel with
  | zero => rfl
  | succ fuel => rw [value?, value?, skipSpace_newLine]

theorem fields?_newLine (fuel level : Nat) (s : List Char) :
    fields? fuel (newLine level ++ s) = fields? fuel s := by
  cases fuel with
  | zero => rfl
  | succ fuel => rw [fields?, fields?, skipSpace_newLine]

/-! ## Values -/

/-- A value without numbers, all of whose names and texts can be written. -/
inductive Plain : Data → Prop
  | null : Plain .null
  | flag (value : Bool) : Plain (.flag value)
  | text (value : String) : Plain (.text value)
  | list {items : List Data} (all : ∀ d ∈ items, Plain d) : Plain (.list items)
  | record {fields : List (String × Data)} (all : ∀ f ∈ fields, Plain f.2) : Plain (.record fields)

/-- The value is read back at the front of any text, with fuel for its own length. -/
def ReadsBack (d : Data) : Prop :=
  ∀ (level fuel : Nat) (rest : List Char), (render level d).length ≤ fuel →
    value? fuel (render level d ++ rest) = some (d, rest)

theorem render_start {d : Data} (plain : Plain d) (level : Nat) :
    ∃ c rest, render level d = c :: rest ∧ isSpace c = false ∧ c ≠ ']' := by
  cases plain with
  | null => exact ⟨_, _, rfl, rfl, by decide⟩
  | flag value => cases value <;> exact ⟨_, _, rfl, rfl, by decide⟩
  | text value => exact ⟨_, _, rfl, rfl, by decide⟩
  | @list items _ => cases items <;> exact ⟨_, _, rfl, rfl, by decide⟩
  | @record fields _ => cases fields <;> exact ⟨_, _, rfl, rfl, by decide⟩

theorem skipSpace_close (level : Nat) {c : Char} (solid : isSpace c = false) (rest : List Char) :
    skipSpace (newLine level ++ c :: rest) = c :: rest :=
  (skipSpace_newLine level _).trans (skipSpace_solid solid rest)

theorem items?_render {items : List Data} {item : Data} (level : Nat)
    (all : ∀ d ∈ item :: items, ReadsBack d) {fuel : Nat}
    (enough : (render level item).length + (renderItems level items).length < fuel)
    (after : Nat) (rest : List Char) :
    items? fuel (newLine level ++ (render level item ++ (renderItems level items ++
      (newLine after ++ ']' :: rest)))) = some (item :: items, rest) := by
  induction items generalizing item fuel with
  | nil =>
      cases fuel with
      | zero => cases enough
      | succ fuel =>
          have first := all item List.mem_cons_self level fuel (newLine after ++ ']' :: rest)
            (by omega)
          have close := skipSpace_close after (c := ']') rfl rest
          simp only [renderItems, List.nil_append, items?, value?_newLine, first,
            Option.bind_eq_bind, Option.bind_some, close]
          rfl
  | cons next items ih =>
      cases fuel with
      | zero => cases enough
      | succ fuel =>
          simp only [renderItems, List.cons_append, List.append_assoc, List.length_cons,
            List.length_append] at enough ⊢
          have first := all item List.mem_cons_self level fuel (',' :: (newLine level ++
            (render level next ++ (renderItems level items ++ (newLine after ++ ']' :: rest)))))
            (by omega)
          have comma := skipSpace_solid (c := ',') rfl
          have later := @ih next (fun d member => all d (List.mem_cons_of_mem _ member)) fuel
            (by omega)
          simp only [items?, value?_newLine, first, Option.bind_eq_bind, Option.bind_some, comma,
            later]
          rfl

/-- One field is read, and what follows decides how it goes on. -/
theorem fields?_field {fuel : Nat} {name : String} {value : Data} {s after : List Char}
    (read : value? fuel s = some (value, after)) (level : Nat) :
    fields? (fuel + 1) (newLine level ++ (quote name.toList ++ ':' :: ' ' :: s)) =
      match skipSpace after with
      | ',' :: rest => do
        let (fields, rest) ← fields? fuel rest
        return ((some name, value) :: fields, rest)
      | '\x7d' :: rest => some ([(some name, value)], rest)
      | _ => none := by
  have quoted : quote name.toList ++ ':' :: ' ' :: s =
      '"' :: (name.toList.flatMap escape ++ '"' :: ':' :: ' ' :: s) := by
    simp [quote]
  have colon := skipSpace_solid (c := ':') rfl
  have blank : value? fuel (' ' :: s) = value? fuel s := by
    cases fuel with
    | zero => rfl
    | succ fuel => rw [value?, value?]; rfl
  rw [fields?_newLine, quoted, fields?, skipSpace_solid rfl]
  simp only [pieces?_quoted, Option.bind_eq_bind, Option.bind_some, colon, blank, read,
    join?_pieces, Option.map_some, String.ofList_toList]
  rfl

theorem fields?_render {fields : List (String × Data)} {name : String} {value : Data} (level : Nat)
    (all : ∀ f ∈ (name, value) :: fields, ReadsBack f.2) {fuel : Nat}
    (enough : (render level value).length + (renderFields level fields).length < fuel)
    (after : Nat) (rest : List Char) :
    fields? fuel (newLine level ++ (quote name.toList ++ ':' :: ' ' :: (render level value ++
      (renderFields level fields ++ (newLine after ++ '\x7d' :: rest))))) =
        some (((name, value) :: fields).map fun f => (some f.1, f.2), rest) := by
  induction fields generalizing name value fuel with
  | nil =>
      cases fuel with
      | zero => cases enough
      | succ fuel =>
          have back : ReadsBack value := all _ List.mem_cons_self
          have first := back level fuel (newLine after ++ '\x7d' :: rest) (by omega)
          have close := skipSpace_close after (c := '\x7d') rfl rest
          rw [renderFields, List.nil_append, fields?_field first, close]
          rfl
  | cons next fields ih =>
      cases fuel with
      | zero => cases enough
      | succ fuel =>
          simp only [renderFields, List.cons_append, List.nil_append, List.append_assoc,
            List.length_cons, List.length_append] at enough ⊢
          have back : ReadsBack value := all _ List.mem_cons_self
          have first := back level fuel (',' :: (newLine level ++ (quote next.1.toList ++
            ':' :: ' ' :: (render level next.2 ++ (renderFields level fields ++
              (newLine after ++ '\x7d' :: rest)))))) (by omega)
          have comma := skipSpace_solid (c := ',') rfl
          have later := @ih next.1 next.2 (fun f member => all f (List.mem_cons_of_mem _ member))
            fuel (by omega)
          rw [fields?_field first, comma]
          simp only [later, Option.bind_eq_bind, Option.bind_some]
          rfl

theorem record_named (fields : List (String × Data)) :
    record (fields.map fun f => (some f.1, f.2)) = .record fields := by
  have named : (fields.map fun f => (some f.1, f.2)).mapM
      (fun f : Option String × Data => f.1.map (·, f.2)) = some fields := by
    induction fields with
    | nil => rfl
    | cons f fields ih =>
        rw [List.map_cons, List.mapM_cons, ih]
        rfl
  rw [record, named]

theorem value?_list {s : List Char} (filled : ∀ rest, skipSpace s ≠ ']' :: rest) (fuel : Nat) :
    value? (fuel + 1) ('[' :: s) = (items? fuel s).map fun (items, rest) => (.list items, rest) := by
  rw [value?, skipSpace_solid rfl]
  simp only

theorem value?_record {s : List Char} (filled : ∀ rest, skipSpace s ≠ '\x7d' :: rest)
    (fuel : Nat) :
    value? (fuel + 1) ('\x7b' :: s) =
      (fields? fuel s).map fun (fields, rest) => (record fields, rest) := by
  rw [value?, skipSpace_solid rfl]
  simp only

theorem readsBack {d : Data} (plain : Plain d) : ReadsBack d := by
  induction plain with
  | null =>
      intro level fuel rest enough
      cases fuel with
      | zero => cases enough
      | succ fuel => rfl
  | flag value =>
      intro level fuel rest enough
      cases fuel with
      | zero => cases value <;> cases enough
      | succ fuel => cases value <;> rfl
  | text value =>
      intro level fuel rest enough
      cases fuel with
      | zero => cases enough
      | succ fuel =>
          have solid : skipSpace (quote value.toList ++ rest) =
              '"' :: (value.toList.flatMap escape ++ '"' :: rest) := by
            rw [quote, List.append_assoc]
            exact skipSpace_solid rfl _
          rw [render, value?, solid]
          simp only [pieces?_quoted, Option.bind_eq_bind, Option.bind_some, join?_pieces,
            String.ofList_toList]
          rfl
  | @list items all ih =>
      intro level fuel rest enough
      cases fuel with
      | zero => cases items <;> cases enough
      | succ fuel =>
          cases items with
          | nil => rfl
          | cons item items =>
              simp only [render, List.cons_append, List.append_assoc, List.nil_append,
                List.length_cons, List.length_append] at enough ⊢
              have read := @items?_render items item (level + 1) ih fuel (by omega) level rest
              obtain ⟨c, tail, start, solid, unclosed⟩ :=
                render_start (all item List.mem_cons_self) (level + 1)
              rw [value?_list _ fuel, read]
              · rfl
              · intro rest
                rw [skipSpace_newLine, start, List.cons_append, skipSpace_solid solid]
                exact fun same => unclosed (List.cons.inj same).1
  | @record fields all ih =>
      intro level fuel rest enough
      cases fuel with
      | zero => cases fields <;> cases enough
      | succ fuel =>
          cases fields with
          | nil => rfl
          | cons field fields =>
              simp only [render, List.cons_append, List.append_assoc, List.nil_append,
                List.length_cons, List.length_append] at enough ⊢
              have read := @fields?_render fields field.1 field.2 (level + 1) ih fuel (by omega)
                level rest
              have named := record_named (field :: fields)
              rw [value?_record _ fuel, read, Option.map_some]
              · exact congrArg (fun d => some (d, rest)) named
              · intro rest
                rw [skipSpace_newLine, quote, List.cons_append, List.cons_append,
                  skipSpace_solid rfl]
                exact fun same => absurd (List.cons.inj same).1 (by decide)

/-- What is written without numbers is read back. -/
theorem parse?_print {d : Data} (plain : Plain d) : parse? (print d) = some d := by
  have read := readsBack plain 0 (2 * (print d).length + 2) [] (by rw [print]; omega)
  rw [List.append_nil, ← print] at read
  rw [parse?, read]
  rfl

end Highlight.Json
