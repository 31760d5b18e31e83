import Highlight.Data

/-! # Tables of TOML

A document is a row of headers and entries; this module puts them together into one record. It
keeps track of how each table came to be, because a table may be opened by one header only and
may not be extended by dotted keys from outside.
-/

namespace Highlight.Toml

/-- What stands under a key while a document is being put together. -/
inductive Item where
  /-- A finished value. -/
  | value (data : Data)
  /-- A table. It is implicit until a header names it, and dotted if dotted keys brought it up. -/
  | table (implicit dotted : Bool) (entries : List (String × Item))
  /-- The tables of a repeated header. -/
  | rows (tables : List (List (String × Item)))

/-- The entries of a table. -/
abbrev Entries := List (String × Item)

namespace Entries

/-- Put an item under a key in place of the one that is there. -/
def replace (key : String) (item : Item) (entries : Entries) : Entries :=
  entries.map fun (other, old) => if other = key then (other, item) else (other, old)

/-- Go down a path and change the entries of the table there. Missing tables come up on the way as
    implicit ones; a repeated header leads into its last table. Dotted keys do not enter a table
    that a header names. The change learns whether it reached a dotted table. -/
def update? (dotted : Bool) (change : Bool → Entries → Option Entries) :
    List String → Bool → Entries → Option Entries
  | [], here, entries => change here entries
  | key :: path, _, entries =>
    match entries.lookup key with
    | none => do
      let below ← update? dotted change path dotted []
      return entries ++ [(key, .table true dotted below)]
    | some (.value _) => none
    | some (.table implicit here below) =>
      if dotted ∧ ¬implicit then none
      else do
        let below ← update? dotted change path here below
        return entries.replace key (.table implicit here below)
    | some (.rows tables) => do
      let last ← update? dotted change path false (tables.getLast?.getD [])
      return entries.replace key (.rows (tables.dropLast ++ [last]))

/-- Add a value under a new key. -/
def add? (key : String) (value : Data) (entries : Entries) : Option Entries :=
  if (entries.lookup key).isSome then none else some (entries ++ [(key, .value value)])

/-- Add a value under a key that may be dotted. All tables on the way have to be dotted ones. -/
def addDotted? (path : List String) (key : String) (value : Data) (entries : Entries) :
    Option Entries :=
  update? true (fun here entries => if here = path.isEmpty then none else entries.add? key value)
    path false entries

/-- Open the table that a header names: a new one, or one that is only implicit so far. -/
def openTable? (key : String) (entries : Entries) : Option Entries :=
  match entries.lookup key with
  | none => some (entries ++ [(key, .table false false [])])
  | some (.table true false below) => some (entries.replace key (.table false false below))
  | _ => none

/-- Open one more table of a repeated header. -/
def openRow? (key : String) (entries : Entries) : Option Entries :=
  match entries.lookup key with
  | none => some (entries ++ [(key, .rows [[]])])
  | some (.rows tables) => some (entries.replace key (.rows (tables ++ [[]])))
  | _ => none

end Entries

mutual

/-- The value of an item. -/
def Item.toData : Item → Data
  | .value data => data
  | .table _ _ entries => .record (fieldsOf entries)
  | .rows tables => .list (recordsOf tables)

/-- The fields of a table. -/
def fieldsOf : List (String × Item) → List (String × Data)
  | [] => []
  | (key, item) :: rest => (key, item.toData) :: fieldsOf rest

/-- The records of a repeated header. -/
def recordsOf : List (List (String × Item)) → List Data
  | [] => []
  | entries :: rest => .record (fieldsOf entries) :: recordsOf rest

end

/-- One line of a document: a header or an entry. A path leads to the last key, which stands
    apart. -/
inductive Line where
  /-- A header that opens a table. -/
  | table (path : List String) (key : String)
  /-- A header that opens one more table of its name. -/
  | row (path : List String) (key : String)
  /-- A value under a key. -/
  | entry (path : List String) (key : String) (value : Data)

/-- A document being put together: its entries, and the path of the table that takes the next
    entry. -/
structure Draft where
  root : Entries := []
  current : List String := []

/-- Add one line to a document. -/
def Draft.add? (draft : Draft) : Line → Option Draft
  | .table path key => do
    let root ← Entries.update? false (fun _ => Entries.openTable? key) path false draft.root
    return ⟨root, path ++ [key]⟩
  | .row path key => do
    let root ← Entries.update? false (fun _ => Entries.openRow? key) path false draft.root
    return ⟨root, path ++ [key]⟩
  | .entry path key value => do
    let root ← Entries.update? false (fun _ => Entries.addDotted? path key value) draft.current
      false draft.root
    return { draft with root }

/-- The record that the lines of a document make up. -/
def assemble? (lines : List Line) : Option Data :=
  (lines.foldlM Draft.add? {}).map fun draft => .record (fieldsOf draft.root)

/-- The record between two braces: its entries, each under a key that may be dotted. -/
def inlineTable? (entries : List (List String × String × Data)) : Option Data :=
  (entries.foldlM (fun table (path, key, value) => Entries.addDotted? path key value table)
    []).map fun table => .record (fieldsOf table)

end Highlight.Toml
