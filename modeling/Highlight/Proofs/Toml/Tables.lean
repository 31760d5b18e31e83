import Highlight.Proofs.Toml.Lines

/-! # Written tables read back

A record whose plain fields may be followed by a list of such records is written with a header for
each of them. The lines below a header build the last table of that header the way they would build
a document of their own, so a document is put together again table by table, however deep they lie.
-/

namespace Highlight.Toml

/-! ## Lines below a header -/

/-- A line of a table as it stands in the whole document. Entries go to the table that is open and
    name no path. -/
def Line.under (path : List String) : Line → Line
  | .table below key => .table (path ++ below) key
  | .row below key => .row (path ++ below) key
  | .entry below key value => .entry below key value

theorem map_under (path below : List String) (lines : List Line) :
    (lines.map (Line.under below)).map (Line.under path) =
      lines.map (Line.under (path ++ below)) := by
  rw [List.map_map]
  apply List.map_congr_left
  intro line _
  cases line <;> simp [Line.under]

/-- A document that ends with the tables of a repeated header, the last of them still a draft. -/
def Draft.behind (base : Entries) (key : String) (tables : List Entries) (draft : Draft) : Draft :=
  ⟨base ++ [(key, .rows (tables ++ [draft.root]))], key :: draft.current⟩

section

variable {base : Entries} {key : String} (fresh : key ∉ base.map Prod.fst)

include fresh

theorem lookup_fresh : base.lookup key = none := by
  rw [List.lookup_eq_none_iff]
  intro entry member
  rw [bne_iff_ne]
  rintro rfl
  exact fresh (List.mem_map_of_mem member)

theorem lookup_last (item : Item) : (base ++ [(key, item)]).lookup key = some item := by
  rw [List.lookup_append, lookup_fresh fresh]
  simp

theorem replace_last (old new : Item) :
    Entries.replace key new (base ++ [(key, old)]) = base ++ [(key, new)] := by
  have kept : Entries.replace key new base = base.map id := by
    refine List.map_congr_left fun entry member => if_neg ?_
    rintro rfl
    exact fresh (List.mem_map_of_mem member)
  rw [Entries.replace, List.map_append, ← Entries.replace, kept, List.map_id]
  simp

theorem update?_last (change : Bool → Entries → Option Entries) (path : List String) (here : Bool)
    (tables : List Entries) (last : Entries) :
    Entries.update? false change (key :: path) here (base ++ [(key, .rows (tables ++ [last]))]) =
      (Entries.update? false change path false last).map fun last =>
        base ++ [(key, .rows (tables ++ [last]))] := by
  rw [Entries.update?, lookup_last fresh]
  simp only [List.getLast?_concat, Option.getD_some, List.dropLast_concat, replace_last fresh]
  cases Entries.update? false change path false last <;> rfl

/-- What a line does to a document, the same line below a header does to its last table. -/
theorem add?_under (tables : List Entries) (draft : Draft) (line : Line) :
    (draft.behind base key tables).add? (line.under [key]) =
      (draft.add? line).map (Draft.behind base key tables) := by
  cases line with
  | table path name =>
      simp only [Line.under, Draft.add?, Draft.behind, List.singleton_append, update?_last fresh]
      cases Entries.update? false _ path false draft.root <;> rfl
  | row path name =>
      simp only [Line.under, Draft.add?, Draft.behind, List.singleton_append, update?_last fresh]
      cases Entries.update? false _ path false draft.root <;> rfl
  | entry path name value =>
      simp only [Line.under, Draft.add?, Draft.behind, update?_last fresh]
      cases Entries.update? false _ draft.current false draft.root <;> rfl

theorem foldlM_under (tables : List Entries) (draft : Draft) (lines : List Line) :
    (lines.map (Line.under [key])).foldlM Draft.add? (draft.behind base key tables) =
      (lines.foldlM Draft.add? draft).map (Draft.behind base key tables) := by
  induction lines generalizing draft with
  | nil => rfl
  | cons line lines ih =>
      rw [List.map_cons, List.foldlM_cons, List.foldlM_cons, add?_under fresh]
      cases draft.add? line with
      | none => rfl
      | some next => exact ih next

end

/-! ## Entries and tables put together -/

/-- The entries of plain fields. -/
def values (fields : List (String × Data)) : Entries :=
  fields.map fun f => (f.1, .value f.2)

theorem map_fst_values (fields : List (String × Data)) :
    (values fields).map Prod.fst = fields.map Prod.fst := by
  rw [values, List.map_map]
  rfl

theorem foldlM_entries {fields : List (String × Data)} {root : Entries}
    (distinct : (root.map Prod.fst ++ fields.map Prod.fst).Nodup) :
    (entriesOf fields).foldlM Draft.add? ⟨root, []⟩ = some ⟨root ++ values fields, []⟩ := by
  induction fields generalizing root with
  | nil => simp [entriesOf, values]
  | cons f fields ih =>
      have fresh : f.1 ∉ root.map Prod.fst := by
        intro member
        exact (List.nodup_append.mp distinct).2.2 f.1 member f.1 List.mem_cons_self rfl
      have added : Draft.add? ⟨root, []⟩ (.entry [] f.1 f.2) =
          some ⟨root ++ [(f.1, .value f.2)], []⟩ := by
        simp [Draft.add?, Entries.update?, Entries.addDotted?, Entries.add?, lookup_fresh fresh]
      have rest := @ih (root ++ [(f.1, .value f.2)]) (by simpa using distinct)
      rw [List.append_assoc] at rest
      rw [entriesOf, List.map_cons, List.foldlM_cons, added]
      exact rest

/-- Entries with the tables of a repeated header behind them, if there are any. -/
def Entries.withRows (base : Entries) (key : String) : List Entries → Entries
  | [] => base
  | tables => base ++ [(key, .rows tables)]

theorem withRows_of_ne_nil (base : Entries) (key : String) {tables : List Entries}
    (several : tables ≠ []) : base.withRows key tables = base ++ [(key, .rows tables)] := by
  cases tables with
  | nil => exact absurd rfl several
  | cons table tables => rfl

theorem add?_row {base : Entries} {key : String} (fresh : key ∉ base.map Prod.fst)
    (tables : List Entries) (current : List String) :
    Draft.add? ⟨base.withRows key tables, current⟩ (.row [] key) =
      some (Draft.behind base key tables {}) := by
  cases tables with
  | nil =>
      simp [Entries.withRows, Draft.add?, Entries.update?, Entries.openRow?, lookup_fresh fresh,
        Draft.behind]
  | cons table tables =>
      simp [Entries.withRows, Draft.add?, Entries.update?, Entries.openRow?, lookup_last fresh,
        replace_last fresh, Draft.behind]

theorem fieldsOf_append (entries more : Entries) :
    fieldsOf (entries ++ more) = fieldsOf entries ++ fieldsOf more := by
  induction entries with
  | nil => rfl
  | cons entry entries ih => exact congrArg _ ih

theorem fieldsOf_values (fields : List (String × Data)) : fieldsOf (values fields) = fields := by
  induction fields with
  | nil => rfl
  | cons f fields ih => exact congrArg _ ih

/-! ## Records of tables -/

/-- A record of plain fields, with a list of such records behind them in all but the innermost; the
    number bounds how deep these lists lie. -/
inductive Tabular : Nat → List (String × Data) → Prop
  | plain {depth : Nat} {fields : List (String × Data)} (flat : Flat fields)
      (distinct : (fields.map Prod.fst).Nodup) : Tabular depth fields
  | rows {depth : Nat} {fields : List (String × Data)} {key : String}
      {records : List (List (String × Data))} (flat : Flat fields) (bare : Bare key)
      (distinct : (fields.map Prod.fst ++ [key]).Nodup)
      (all : ∀ record ∈ records, Tabular depth record) :
    Tabular (depth + 1) (fields ++ [(key, .list (records.map .record))])

/-- The lines make up the record. -/
def Makes (lines : List Line) (fields : List (String × Data)) : Prop :=
  ∃ draft, lines.foldlM Draft.add? {} = some draft ∧ fieldsOf draft.root = fields

/-- The lines add the records to the tables of a repeated header. -/
def MakesRows (key : String) (lines : List Line) (records : List (List (String × Data))) : Prop :=
  ∀ (base : Entries) (tables : List Entries) (current : List String), key ∉ base.map Prod.fst →
    ∃ draft more, lines.foldlM Draft.add? ⟨base.withRows key tables, current⟩ = some draft ∧
      draft.root = base.withRows key (tables ++ more) ∧ recordsOf more = records.map .record

theorem makes_entries {fields : List (String × Data)} (distinct : (fields.map Prod.fst).Nodup) :
    Makes (entriesOf fields) fields :=
  ⟨_, @foldlM_entries fields [] distinct, fieldsOf_values fields⟩

theorem MakesRows.nil (key : String) : MakesRows key [] [] := by
  intro base tables current fresh
  exact ⟨_, [], rfl, by rw [List.append_nil], rfl⟩

theorem MakesRows.cons {key : String} {own rest : List Line} {record : List (String × Data)}
    {records : List (List (String × Data))} (first : Makes own record)
    (later : MakesRows key rest records) :
    MakesRows key (.row [] key :: own.map (Line.under [key]) ++ rest) (record :: records) := by
  obtain ⟨table, run_own, fields_own⟩ := first
  intro base tables current fresh
  obtain ⟨draft, more, run, root, records_more⟩ :=
    later base (tables ++ [table.root]) (key :: table.current) fresh
  -- below its header the table grows as it would alone
  have opened : (own.map (Line.under [key])).foldlM Draft.add? (Draft.behind base key tables {}) =
      some (table.behind base key tables) := by
    rw [foldlM_under fresh, run_own, Option.map_some]
  rw [withRows_of_ne_nil _ _ (by simp)] at run
  refine ⟨draft, table.root :: more, ?_, ?_, ?_⟩
  · rw [List.cons_append, List.foldlM_cons, add?_row fresh]
    simp only [Option.bind_eq_bind, Option.bind_some, List.foldlM_append, opened]
    exact run
  · rw [root, List.append_assoc, List.singleton_append]
  · rw [recordsOf, fields_own, records_more, List.map_cons]

theorem MakesRows.makes {key : String} {lines : List Line} {records : List (List (String × Data))}
    (h : MakesRows key lines records) (filled : records ≠ []) {fields : List (String × Data)}
    (distinct : (fields.map Prod.fst ++ [key]).Nodup) :
    Makes (entriesOf fields ++ lines) (fields ++ [(key, .list (records.map .record))]) := by
  obtain ⟨distinct_fields, -, new⟩ := List.nodup_append.mp distinct
  have fresh : key ∉ (values fields).map Prod.fst := by
    intro member
    rw [map_fst_values] at member
    exact new key member key (List.mem_singleton_self key) rfl
  obtain ⟨draft, tables, run, root, records_tables⟩ := h (values fields) [] [] fresh
  have several : tables ≠ [] := by
    rintro rfl
    exact filled (List.map_eq_nil_iff.mp records_tables.symm)
  refine ⟨draft, ?_, ?_⟩
  · rw [List.foldlM_append, @foldlM_entries fields [] distinct_fields]
    exact run
  · rw [root, List.nil_append, withRows_of_ne_nil _ _ several, fieldsOf_append, fieldsOf_values,
      ← records_tables]
    rfl

/-! ## Texts of tables -/

/-- The text of a record below its header, with an empty line before each further one. -/
def body (fields : List (String × Data)) (path : List String) : List Char :=
  renderFields fields ++ (sections path fields).flatMap ('\n' :: ·)

/-- The text of the tables of a repeated header below a path. -/
def rowsText (key : String) (records : List (List (String × Data))) (path : List String) :
    List Char :=
  (rows (path ++ [key]) (records.map .record)).flatMap ('\n' :: ·)

theorem rowsText_cons (key : String) (record : List (String × Data))
    (records : List (List (String × Data))) (path : List String) :
    rowsText key (record :: records) path =
      ['\n'] ++ (('[' :: '[' :: renderPath (path ++ [key]) ++ [']', ']', '\n']) ++
        (body record (path ++ [key]) ++ rowsText key records path)) := by
  simp [rowsText, rows, body]

theorem Inline.sectionsOf {depth : Nat} {d : Data} (inline : Inline depth d) (path : List String) :
    sectionsOf path d = [] := by
  cases inline with
  | text value => simp [Toml.sectionsOf]
  | @list _ items all =>
      cases items with
      | nil => rfl
      | cons item items =>
          cases all item List.mem_cons_self <;> simp [Toml.sectionsOf, isRecord]

theorem sections_flat {fields : List (String × Data)} (flat : Flat fields) (path : List String)
    (rest : List (String × Data)) : sections path (fields ++ rest) = sections path rest := by
  induction fields with
  | nil => rfl
  | cons f fields ih =>
      obtain ⟨⟨-, inline⟩, later⟩ := List.forall_mem_cons.mp flat
      rw [List.cons_append, sections, inline.sectionsOf]
      exact ih later

theorem body_plain {fields : List (String × Data)} (flat : Flat fields) (path : List String) :
    body fields path = renderFields fields := by
  have none := sections_flat flat path []
  rw [List.append_nil] at none
  rw [body, none]
  exact List.append_nil _

theorem body_rows {fields : List (String × Data)} (flat : Flat fields) {path : List String}
    {key : String} {records : List (List (String × Data))} (filled : records ≠ []) :
    body (fields ++ [(key, .list (records.map .record))]) path =
      renderFields fields ++ rowsText key records path := by
  obtain ⟨record, records, rfl⟩ := List.exists_cons_of_ne_nil filled
  have all : ((record :: records).map Data.record).all isRecord = true := by
    simp [isRecord]
  have headed : renderFields (fields ++ [(key, .list ((record :: records).map .record))]) =
      renderFields fields := by
    simp [renderFields, isInline, isRecord]
  rw [body, headed, sections_flat flat, sections, sectionsOf, if_pos all, sections, List.append_nil,
    rowsText]

/-- Below any path that leaves room for the tables within it, the text is read as the lines. -/
def WrittenAs (depth : Nat) (text : List String → List Char) (lines : List Line) : Prop :=
  ∀ path, (∀ key ∈ path, Bare key) → path.length + depth < depthLimit →
    Piece (text path) (lines.map (Line.under path))

theorem entries_under (fields : List (String × Data)) (path : List String) :
    (entriesOf fields).map (Line.under path) = entriesOf fields := by
  rw [entriesOf, List.map_map]
  rfl

theorem written_rows {depth : Nat} {key : String} (bare : Bare key) {own rest : List Line}
    {record : List (String × Data)} {records : List (List (String × Data))}
    (first : WrittenAs depth (body record) own)
    (later : WrittenAs (depth + 1) (rowsText key records) rest) :
    WrittenAs (depth + 1) (rowsText key (record :: records))
      (.row [] key :: own.map (Line.under [key]) ++ rest) := by
  intro path bare_path short
  have bare_keys : ∀ k ∈ path ++ [key], Bare k :=
    List.forall_mem_append.mpr ⟨bare_path, List.forall_mem_singleton.mpr bare⟩
  have header := piece_row bare_keys (by omega)
  have table := first (path ++ [key]) bare_keys (by simp; omega)
  have below := later path bare_path short
  have lines : (.row [] key :: own.map (Line.under [key]) ++ rest).map (Line.under path) =
      [] ++ ([.row path key] ++
        (own.map (Line.under (path ++ [key])) ++ rest.map (Line.under path))) := by
    rw [List.map_append, List.map_cons, map_under, Line.under, List.append_nil]
    rfl
  rw [rowsText_cons, lines]
  exact piece_break.append (header.append (table.append below))

/-! ## Tables read back -/

/-- There are lines that make up the record and that its text is read as. -/
def ReadsTable (depth : Nat) (fields : List (String × Data)) : Prop :=
  ∃ lines, Makes lines fields ∧ WrittenAs depth (body fields) lines

theorem Flat.reads {fields : List (String × Data)} (flat : Flat fields)
    (distinct : (fields.map Prod.fst).Nodup) (depth : Nat) : ReadsTable depth fields := by
  refine ⟨_, makes_entries distinct, ?_⟩
  intro path bare short
  rw [body_plain flat, entries_under]
  exact piece_fields flat

theorem rows_read {depth : Nat} {key : String} (bare : Bare key)
    {records : List (List (String × Data))} (all : ∀ record ∈ records, ReadsTable depth record) :
    ∃ lines, MakesRows key lines records ∧
      WrittenAs (depth + 1) (rowsText key records) lines := by
  induction records with
  | nil => exact ⟨[], .nil key, fun _ _ _ => piece_nil⟩
  | cons record records ih =>
      obtain ⟨first, later⟩ := List.forall_mem_cons.mp all
      obtain ⟨own, makes_own, written_own⟩ := first
      obtain ⟨rest, makes_rest, written_rest⟩ := ih later
      exact ⟨_, .cons makes_own makes_rest, written_rows bare written_own written_rest⟩

theorem Tabular.reads {depth : Nat} {fields : List (String × Data)} (h : Tabular depth fields) :
    ReadsTable depth fields := by
  induction h with
  | plain flat distinct => exact flat.reads distinct _
  | @rows depth fields key records flat bare distinct all ih =>
      by_cases filled : records = []
      · -- an empty list has no header and is a plain value
        subst records
        have empty : Inline (depthLimit - 1) (.list []) :=
          @Inline.list (depthLimit - 2) [] (by simp)
        refine Flat.reads ?_ (by simpa using distinct) _
        exact List.forall_mem_append.mpr ⟨flat, List.forall_mem_singleton.mpr ⟨bare, empty⟩⟩
      · obtain ⟨lines, makes, written⟩ := rows_read bare ih
        refine ⟨_, makes.makes filled distinct, ?_⟩
        intro path bare_path short
        rw [body_rows flat filled, List.map_append, entries_under]
        exact (piece_fields flat).append (written path bare_path short)

/-! ## Documents -/

theorem flatten_intersperse (part : List Char) (parts : List (List Char)) :
    ((part :: parts).intersperse ['\n']).flatten = part ++ parts.flatMap ('\n' :: ·) := by
  induction parts generalizing part with
  | nil => simp
  | cons next parts ih =>
      rw [List.intersperse_cons_cons, List.flatten_cons, List.flatten_cons, ih]
      rfl

/-- A document is the text of a record without a header, less the break at the front if there are
    no plain fields. -/
theorem body_print (fields : List (String × Data)) :
    body fields [] = print fields ∨ body fields [] = '\n' :: print fields := by
  rw [body, print]
  cases top : renderFields fields with
  | cons c rest =>
      left
      exact (flatten_intersperse (c :: rest) (sections [] fields)).symm
  | nil =>
      cases sections [] fields with
      | nil => exact .inl rfl
      | cons part parts => exact .inr (congrArg ('\n' :: ·) (flatten_intersperse part parts).symm)

/-- No line starts with the mark of a byte order. -/
theorem dropMark_of_readsAs {s : List Char} {lines : List Line} (read : ReadsAs s lines) :
    dropMark s = s := by
  rw [dropMark.eq_def]
  split
  · rename_i rest
    have refused : lines? (rest.length + 2) ('\ufeff' :: rest) = none := rfl
    have := read (rest.length + 2) (by simp)
    rw [refused] at this
    cases this
  · rfl

/-- Every record of tables is read back from its document. -/
theorem parse?_print {depth : Nat} {fields : List (String × Data)} (tabular : Tabular depth fields)
    (short : depth < depthLimit) : parse? (print fields) = some (.record fields) := by
  obtain ⟨lines, ⟨draft, run, made⟩, written⟩ := tabular.reads
  have written := written [] (by simp) (by simpa using short) [] [] readsAs_nil
  rw [List.append_nil, List.append_nil] at written
  have read : ReadsAs (print fields) (lines.map (Line.under [])) := by
    rcases body_print fields with same | broken
    · rwa [same] at written
    · rw [broken] at written
      exact readsAs_break.mp written
  have same : lines.map (Line.under []) = lines := by
    refine List.map_id'' ?_ lines
    intro line
    cases line <;> rfl
  rw [same] at read
  rw [parse?, dropMark_of_readsAs read, read _ (Nat.lt_succ_self _)]
  simp [assemble?, run, made]

end Highlight.Toml
