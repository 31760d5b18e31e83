import Highlight.Proofs.Toml.Quoting

/-! # Written lines read back

Texts and lists of them are read back from the right of an equals sign, and the headers and entries
of a document from their lines. A piece of a document is read as its own lines whatever follows it,
so pieces can be put together.
-/

namespace Highlight.Toml

/-! ## Values -/

/-- Texts and lists of them, nested no deeper than the given depth. -/
inductive Inline : Nat → Data → Prop
  | text {depth : Nat} (value : String) : Inline depth (.text value)
  | list {depth : Nat} {items : List Data} (all : ∀ d ∈ items, Inline depth d) :
    Inline (depth + 1) (.list items)

/-- The value is read back at the front of any text that does not add to it. -/
def ReadsBack (read : List Char → Option (Data × List Char)) (d : Data) : Prop :=
  ∀ rest, Unmarked rest → read (renderValue d ++ rest) = some (d, rest)

theorem renderValue_text (value : String) : renderValue (.text value) = quote value.toList :=
  rfl

theorem renderValue_single (item : Data) :
    renderValue (.list [item]) = '[' :: renderValue item ++ [']'] :=
  rfl

theorem renderValue_several (item next : Data) (items : List Data) :
    renderValue (.list (item :: next :: items)) =
      '[' :: renderItems (item :: next :: items) ++ ['\n', ']'] :=
  rfl

theorem renderItems_cons (item : Data) (items : List Data) : renderItems (item :: items) =
    "\n    ".toList ++ renderValue item ++ ',' :: renderItems items :=
  rfl

theorem unmarked_cons {c : Char} (other : c ∉ ['"', '\'']) (rest : List Char) :
    Unmarked (c :: rest) := by
  simp only [List.mem_cons, List.not_mem_nil, or_false, not_or] at other
  exact ⟨fun same => other.1 (Option.some.inj same), fun same => other.2 (Option.some.inj same)⟩

theorem quote_start (s : List Char) : ∃ c rest, quote s = c :: rest ∧ c ∈ ['"', '\''] := by
  simp only [quote]
  repeat' split
  all_goals exact ⟨_, _, rfl, by decide⟩

theorem renderValue_start {depth : Nat} {d : Data} (inline : Inline depth d) :
    ∃ c rest, renderValue d = c :: rest ∧ c ∈ ['"', '\'', '['] := by
  cases inline with
  | text value =>
      obtain ⟨c, rest, start, mark⟩ := quote_start value.toList
      exact ⟨c, rest, start, List.mem_append_left ['['] mark⟩
  | @list _ items =>
      match items with
      | [] => exact ⟨_, _, rfl, by decide⟩
      | [item] => exact ⟨_, _, rfl, by decide⟩
      | item :: next :: items => exact ⟨_, _, rfl, by decide⟩

theorem skipTrivia?_solid {c : Char} (solid : c ∈ ['"', '\'', '[', ']', ',']) (rest : List Char) :
    skipTrivia? false (c :: rest) = some (c :: rest) := by
  simp only [List.mem_cons, List.not_mem_nil, or_false] at solid
  rcases solid with rfl | rfl | rfl | rfl | rfl <;> rfl

theorem skipTrivia?_renderValue {depth : Nat} {d : Data} (inline : Inline depth d)
    (rest : List Char) :
    skipTrivia? false (renderValue d ++ rest) = some (renderValue d ++ rest) := by
  obtain ⟨c, tail, start, solid⟩ := renderValue_start inline
  rw [start, List.cons_append]
  exact skipTrivia?_solid (List.mem_append_left [']', ','] solid) _

theorem value?_text (depth : Nat) (value : String) : ReadsBack (value? depth) (.text value) := by
  intro rest behind
  have read := string?_quote value.toList behind
  rw [renderValue_text]
  obtain ⟨c, tail, start, mark⟩ := quote_start value.toList
  rw [start] at read ⊢
  simp only [List.mem_cons, List.not_mem_nil, or_false] at mark
  rcases mark with rfl | rfl
  all_goals
    rw [List.cons_append] at read ⊢
    rw [value?, read]
    simp only [Option.map_some, String.ofList_toList]

theorem value?_list (depth : Nat) (s : List Char) : value? (depth + 1) ('[' :: s) =
    (items? (value? depth) (s.length + 1) s).map fun (items, rest) => (.list items, rest) := by
  rw [value?]
  cases items? (value? depth) (s.length + 1) s <;> rfl

section Items

variable {read : List Char → Option (Data × List Char)} {depth : Nat}

/-- One item is read, and what follows decides how it goes on. -/
theorem items?_item {d : Data} (inline : Inline depth d) (back : ReadsBack read d)
    {s rest : List Char} (ahead : skipTrivia? false s = some (renderValue d ++ rest))
    (behind : Unmarked rest) (fuel : Nat) :
    items? read (fuel + 1) s = (skipTrivia? false rest).bind fun
      | ',' :: rest => (items? read fuel rest).map fun (items, rest) => (d :: items, rest)
      | ']' :: rest => some ([d], rest)
      | _ => none := by
  have value := back rest behind
  obtain ⟨c, tail, start, solid⟩ := renderValue_start inline
  rw [start, List.cons_append] at ahead value
  -- a value is not taken for the end of the list
  have filled : c ≠ ']' := by
    rintro rfl
    simp at solid
  rw [items?, ahead]
  simp only [Option.bind_eq_bind, Option.bind_some]
  split
  · rename_i same
    exact absurd (List.cons.inj same).1 filled
  · rw [value, Option.bind_some]
    refine Option.bind_congr fun after _ => ?_
    split
    · simp only
      cases items? read fuel _ <;> rfl
    · rfl
    · simp only

theorem length_le_renderItems (items : List Data) : items.length ≤ (renderItems items).length := by
  induction items with
  | nil => exact Nat.le_refl 0
  | cons d items ih =>
      simp only [renderItems_cons, List.length_append, List.length_cons]
      omega

theorem items?_renderItems {items : List Data} (inline : ∀ d ∈ items, Inline depth d)
    (back : ∀ d ∈ items, ReadsBack read d) {fuel : Nat} (enough : items.length < fuel)
    (rest : List Char) :
    items? read fuel (renderItems items ++ '\n' :: ']' :: rest) = some (items, rest) := by
  induction items generalizing fuel with
  | nil =>
      cases fuel with
      | zero => cases enough
      | succ fuel => rfl
  | cons d items ih =>
      cases fuel with
      | zero => cases enough
      | succ fuel =>
          obtain ⟨first, later⟩ := List.forall_mem_cons.mp inline
          obtain ⟨back_first, back_later⟩ := List.forall_mem_cons.mp back
          have read_later := ih later back_later (Nat.lt_of_succ_lt_succ enough)
          have ahead : skipTrivia? false (renderItems (d :: items) ++ '\n' :: ']' :: rest) =
              some (renderValue d ++ ',' :: (renderItems items ++ '\n' :: ']' :: rest)) := by
            rw [renderItems_cons, List.append_assoc, List.append_assoc]
            exact skipTrivia?_renderValue first _
          rw [items?_item first back_first ahead (unmarked_cons (by decide) _),
            skipTrivia?_solid (by decide)]
          exact congrArg (Option.map _) read_later

end Items

theorem readsBack {depth : Nat} {d : Data} (inline : Inline depth d) :
    ReadsBack (value? depth) d := by
  induction inline with
  | text value => exact value?_text _ value
  | @list depth items all ih =>
      intro rest behind
      match items with
      | [] => rfl
      | [item] =>
          have first := all item List.mem_cons_self
          have written : renderValue (.list [item]) ++ rest =
              '[' :: (renderValue item ++ ']' :: rest) := by
            simp [renderValue_single]
          rw [written, value?_list, items?_item first (ih item List.mem_cons_self)
            (skipTrivia?_renderValue first _) (unmarked_cons (by decide) _),
            skipTrivia?_solid (by decide)]
          rfl
      | item :: next :: items =>
          have written : renderValue (.list (item :: next :: items)) ++ rest =
              '[' :: (renderItems (item :: next :: items) ++ '\n' :: ']' :: rest) := by
            simp [renderValue_several]
          rw [written, value?_list, items?_renderItems all ih]
          · rfl
          · have := length_le_renderItems (item :: next :: items)
            rw [List.length_append]
            omega

/-! ## Keys -/

/-- Whether a name may stand as a key without quotes. -/
def Bare (name : String) : Prop :=
  name.toList ≠ [] ∧ ∀ c ∈ name.toList, isBare c = true

instance (name : String) : Decidable (Bare name) :=
  decidable_of_iff ((!name.toList.isEmpty && name.toList.all isBare) = true) (by simp [Bare])

theorem skipSpace_solid {c : Char} (solid : isSpace c = false) (rest : List Char) :
    skipSpace (c :: rest) = c :: rest := by
  rw [skipSpace, List.dropWhile_cons_of_neg (by simp [solid])]

/-- A name without quotes starts with none of the characters that mean something else. -/
theorem Bare.start {name : String} (bare : Bare name) : ∃ c rest, name.toList = c :: rest ∧
    isSpace c = false ∧ c ∉ ['"', '\'', '[', '\n', '\r', '#'] := by
  obtain ⟨filled, all⟩ := bare
  cases start : name.toList with
  | nil => exact absurd start filled
  | cons c rest =>
      have plain : isBare c = true := all c (by rw [start]; exact List.mem_cons_self)
      refine ⟨c, rest, rfl, ?_, ?_⟩
      · rw [Bool.eq_false_iff]
        intro space
        simp only [isSpace, Bool.or_eq_true, beq_iff_eq] at space
        rcases space with rfl | rfl <;> cases plain
      · intro special
        simp only [List.mem_cons, List.not_mem_nil, or_false] at special
        rcases special with rfl | rfl | rfl | rfl | rfl | rfl <;> cases plain

theorem skipSpace_bare {name : String} (bare : Bare name) (rest : List Char) :
    skipSpace (name.toList ++ rest) = name.toList ++ rest := by
  obtain ⟨c, tail, start, solid, -⟩ := bare.start
  rw [start, List.cons_append, skipSpace_solid solid]

theorem simpleKey?_bare {name : String} (bare : Bare name) {c : Char} (stop : isBare c = false)
    (rest : List Char) : simpleKey? (name.toList ++ c :: rest) = some (name, c :: rest) := by
  have read := span_stop bare.2 stop rest
  obtain ⟨first, tail, start, -, special⟩ := bare.start
  rw [start, List.cons_append] at read ⊢
  rw [simpleKey?, read]
  · simp only [← start, String.ofList_toList]
  all_goals
    rintro after same
    rw [(List.cons.inj same).1] at special
    simp at special

/-- The parts of a path are read back before anything that ends the last of them. -/
theorem keyParts?_renderPath {path : List String} (filled : path ≠ [])
    (bare : ∀ key ∈ path, Bare key) {c e : Char} {rest after : List Char} (stop : isBare c = false)
    (behind : skipSpace (c :: rest) = e :: after) (dot : e ≠ '.') {fuel : Nat}
    (enough : (renderPath path).length < fuel) :
    keyParts? fuel (renderPath path ++ c :: rest) = some (path, e :: after) := by
  induction path generalizing fuel with
  | nil => exact absurd rfl filled
  | cons key path ih =>
      obtain ⟨first, later⟩ := List.forall_mem_cons.mp bare
      cases fuel with
      | zero => cases enough
      | succ fuel =>
          cases path with
          | nil =>
              have whole : renderPath [key] = key.toList := by simp [renderPath]
              rw [whole, keyParts?, skipSpace_bare first, simpleKey?_bare first stop]
              simp only [Option.bind_eq_bind, Option.bind_some, behind]
              split
              · rename_i same
                exact absurd (List.cons.inj same).1 dot
              · rfl
          | cons next path =>
              have joined : renderPath (key :: next :: path) =
                  key.toList ++ '.' :: renderPath (next :: path) := by
                simp [renderPath]
              rw [joined, List.length_append, List.length_cons] at enough
              have parts := @ih (by simp) later fuel (by omega)
              rw [joined, List.append_assoc, keyParts?, skipSpace_bare first, List.cons_append,
                simpleKey?_bare first (by decide)]
              have dotted := skipSpace_solid (c := '.') rfl
              simp only [Option.bind_eq_bind, Option.bind_some, dotted, parts]
              rfl

theorem key?_renderPath {path : List String} {name : String}
    (bare : ∀ key ∈ path ++ [name], Bare key) (short : path.length + 1 < depthLimit) {c e : Char}
    {rest after : List Char} (stop : isBare c = false)
    (behind : skipSpace (c :: rest) = e :: after) (dot : e ≠ '.') :
    key? (renderPath (path ++ [name]) ++ c :: rest) = some (path, name, e :: after) := by
  have enough : (renderPath (path ++ [name])).length <
      (renderPath (path ++ [name]) ++ c :: rest).length + 1 := by
    rw [List.length_append]
    omega
  rw [key?, keyParts?_renderPath (by simp) bare stop behind dot enough]
  simp [short]

/-! ## Lines -/

theorem line?_row {path : List String} {name : String} (bare : ∀ key ∈ path ++ [name], Bare key)
    (short : path.length + 1 < depthLimit) (rest : List Char) :
    line? ('[' :: '[' :: renderPath (path ++ [name]) ++ [']', ']', '\n'] ++ rest) =
      some (.row path name, rest) := by
  have close : skipSpace (']' :: ']' :: '\n' :: rest) = ']' :: ']' :: '\n' :: rest := rfl
  have key := key?_renderPath bare short (by decide) close (by decide)
  have written : renderPath (path ++ [name]) ++ [']', ']', '\n'] ++ rest =
      renderPath (path ++ [name]) ++ ']' :: ']' :: '\n' :: rest := by
    simp
  rw [List.cons_append, List.cons_append, List.cons_append, List.cons_append, written, line?, key]
  rfl

theorem skipSpace_renderValue {depth : Nat} {d : Data} (inline : Inline depth d)
    (rest : List Char) : skipSpace (renderValue d ++ rest) = renderValue d ++ rest := by
  obtain ⟨c, tail, start, mark⟩ := renderValue_start inline
  simp only [List.mem_cons, List.not_mem_nil, or_false] at mark
  rw [start, List.cons_append]
  rcases mark with rfl | rfl | rfl <;> rfl

theorem entry?_field {name : String} (bare : Bare name) {depth : Nat} {value : Data}
    (inline : Inline depth value) (rest : List Char) :
    entry? (value? depth)
      (name.toList ++ ' ' :: '=' :: ' ' :: (renderValue value ++ '\n' :: rest)) =
        some (([], name, value), '\n' :: rest) := by
  have whole : renderPath ([] ++ [name]) = name.toList := by simp [renderPath]
  have equals : skipSpace (' ' :: '=' :: ' ' :: (renderValue value ++ '\n' :: rest)) =
      '=' :: ' ' :: (renderValue value ++ '\n' :: rest) := rfl
  have key := @key?_renderPath [] name (by simpa using bare) (by decide) _ _ _ _ rfl equals
    (by decide)
  have blank : skipSpace (' ' :: (renderValue value ++ '\n' :: rest)) =
      renderValue value ++ '\n' :: rest :=
    skipSpace_renderValue inline _
  have back := readsBack inline ('\n' :: rest) (unmarked_cons (by decide) rest)
  rw [whole] at key
  unfold entry?
  rw [key]
  simp only [Option.bind_eq_bind, Option.bind_some, blank, back]
  rfl

theorem line?_entry {name : String} (bare : Bare name) {value : Data}
    (inline : Inline (depthLimit - 1) value) (rest : List Char) :
    line? (name.toList ++ " = ".toList ++ renderValue value ++ ['\n'] ++ rest) =
      some (.entry [] name value, rest) := by
  have entry := entry?_field bare inline rest
  have written : name.toList ++ " = ".toList ++ renderValue value ++ ['\n'] ++ rest =
      name.toList ++ ' ' :: '=' :: ' ' :: (renderValue value ++ '\n' :: rest) := by
    simp
  obtain ⟨c, tail, start, -, special⟩ := bare.start
  rw [written, start, List.cons_append]
  rw [start, List.cons_append] at entry
  rw [line?, entry]
  · rfl
  all_goals
    rintro after same
    rw [(List.cons.inj same).1] at special
    simp at special

/-- The text is a document of these lines. -/
def ReadsAs (s : List Char) (lines : List Line) : Prop :=
  ∀ fuel, s.length < fuel → lines? fuel s = some lines

/-- The text adds these lines to whatever document follows it. -/
def Piece (t : List Char) (lines : List Line) : Prop :=
  ∀ s later, ReadsAs s later → ReadsAs (t ++ s) (lines ++ later)

theorem readsAs_nil : ReadsAs [] [] := by
  intro fuel enough
  cases fuel with
  | zero => cases enough
  | succ fuel => rfl

theorem readsAs_break {s : List Char} {lines : List Line} :
    ReadsAs ('\n' :: s) lines ↔ ReadsAs s lines := by
  constructor
  · intro read fuel enough
    exact read (fuel + 1) (Nat.succ_lt_succ enough)
  · intro read fuel enough
    cases fuel with
    | zero => cases enough
    | succ fuel => exact read fuel (Nat.lt_of_succ_lt_succ enough)

theorem piece_nil : Piece [] [] :=
  fun _ _ read => read

theorem piece_break : Piece ['\n'] [] :=
  fun _ _ read => readsAs_break.mpr read

theorem Piece.append {t u : List Char} {lines more : List Line} (first : Piece t lines)
    (second : Piece u more) : Piece (t ++ u) (lines ++ more) := by
  intro s later read
  rw [List.append_assoc, List.append_assoc]
  exact first _ _ (second _ _ read)

/-- A piece of one line, which is neither empty nor a comment. -/
theorem piece_line {t : List Char} {line : Line} {c : Char} {tail : List Char}
    (start : t = c :: tail) (solid : isSpace c = false) (visible : c ∉ ['\n', '\r', '#'])
    (read : ∀ rest, line? (t ++ rest) = some (line, rest)) : Piece t [line] := by
  intro s later document fuel enough
  subst t
  cases fuel with
  | zero => cases enough
  | succ fuel =>
      have rest : lines? fuel s = some later := document fuel (by simp at enough; omega)
      simp only [List.cons_append] at read ⊢
      rw [lines?, skipSpace_solid solid]
      simp only [List.mem_cons, List.not_mem_nil, or_false, not_or] at visible
      split
      all_goals simp_all

theorem piece_row {path : List String} {name : String} (bare : ∀ key ∈ path ++ [name], Bare key)
    (short : path.length + 1 < depthLimit) :
    Piece ('[' :: '[' :: renderPath (path ++ [name]) ++ [']', ']', '\n']) [.row path name] :=
  piece_line rfl rfl (by decide) (line?_row bare short)

theorem piece_entry {name : String} (bare : Bare name) {value : Data}
    (inline : Inline (depthLimit - 1) value) :
    Piece (name.toList ++ " = ".toList ++ renderValue value ++ ['\n']) [.entry [] name value] := by
  obtain ⟨c, tail, start, solid, special⟩ := bare.start
  refine piece_line (c := c) (by rw [start]; rfl) solid ?_ (line?_entry bare inline)
  exact fun visible => special (List.mem_append_right ['"', '\'', '['] visible)

/-- The plain fields of a record: names without quotes before texts and lists. -/
def Flat (fields : List (String × Data)) : Prop :=
  ∀ f ∈ fields, Bare f.1 ∧ Inline (depthLimit - 1) f.2

theorem Inline.isInline {depth : Nat} {d : Data} (inline : Inline depth d) : isInline d = true := by
  cases inline with
  | text value => rfl
  | @list _ items all =>
      cases items with
      | nil => rfl
      | cons item items =>
          cases all item List.mem_cons_self <;> rfl

/-- The lines of plain fields. -/
def entriesOf (fields : List (String × Data)) : List Line :=
  fields.map fun f => .entry [] f.1 f.2

theorem piece_fields {fields : List (String × Data)} (flat : Flat fields) :
    Piece (renderFields fields) (entriesOf fields) := by
  induction fields with
  | nil => exact piece_nil
  | cons f fields ih =>
      obtain ⟨⟨bare, inline⟩, later⟩ := List.forall_mem_cons.mp flat
      have first : renderFields (f :: fields) =
          f.1.toList ++ " = ".toList ++ renderValue f.2 ++ ['\n'] ++ renderFields fields := by
        rw [renderFields, List.filter_cons_of_pos (by exact inline.isInline), List.flatMap_cons]
        rfl
      rw [first]
      exact (piece_entry bare inline).append (ih later)

end Highlight.Toml
