import Highlight.Language.Definition
import Highlight.Proofs.Files.Tree
import Highlight.Proofs.Json.RoundTrip
import Highlight.Proofs.Toml.Tables

/-! # Written definitions read back

A definition holds texts, lists of texts and lists of records, so its data is plain for JSON and
tabular for TOML, and both formats give the data back. From the data the definition is taken under
the rules of either format.
-/

namespace Highlight

/-! ## Through the data -/

theorem Data.asList?_map {α : Type} {read : Data → Option α} {write : α → Data}
    (back : ∀ a, read (write a) = some a) (items : List α) :
    Data.asList? read (.list (items.map write)) = some items := by
  rw [asList?]
  induction items with
  | nil => rfl
  | cons a items ih => simp [back, ih]

theorem Data.asList?_texts (items : List String) :
    Data.asList? Data.asText? (.list (items.map .text)) = some items :=
  @asList?_map String asText? .text (fun _ => rfl) items

theorem GroupKind.ofName?_name (kind : GroupKind) : ofName? kind.name = some kind := by
  cases kind <;> rfl

section

variable (rules : Data.Rules)

theorem StyleDefinition.ofData?_toData (s : StyleDefinition) : ofData? rules s.toData = some s := by
  simp [ofData?, toData, Data.members?, Data.required, Data.asText?, List.lookup_cons]

theorem GroupDefinition.ofData?_toData (g : GroupDefinition) : ofData? rules g.toData = some g := by
  have keywords := Data.asList?_texts g.keywords
  have styles := Data.asList?_map (StyleDefinition.ofData?_toData rules) g.styles
  simp [ofData?, toData, Data.members?, Data.optional, List.lookup_cons, Data.choice?,
    GroupKind.ofName?_name, keywords, styles]

theorem Definition.ofData?_fields (d : Definition) : ofData? rules (.record d.fields) = some d := by
  have extensions := Data.asList?_texts d.extensions
  have groups := Data.asList?_map (GroupDefinition.ofData?_toData rules) d.groups
  simp [ofData?, fields, Data.members?, Data.required, Data.optional, List.lookup_cons,
    Data.asText?, extensions, groups]

end

/-! ## Through JSON -/

theorem Json.plain_map {α : Type} {write : α → Data} (plain : ∀ a, Json.Plain (write a))
    (items : List α) : Json.Plain (.list (items.map write)) := by
  refine .list ?_
  intro d member
  obtain ⟨a, -, rfl⟩ := List.mem_map.mp member
  exact plain a

theorem StyleDefinition.plain (s : StyleDefinition) : Json.Plain s.toData := by
  refine .record ?_
  simp only [List.forall_mem_cons]
  exact ⟨.text _, .text _, by simp⟩

theorem GroupDefinition.plain (g : GroupDefinition) : Json.Plain g.toData := by
  refine .record ?_
  simp only [List.forall_mem_cons]
  exact ⟨.text _, Json.plain_map .text _, Json.plain_map StyleDefinition.plain _, by simp⟩

theorem Definition.plain (d : Definition) : Json.Plain (.record d.fields) := by
  refine .record ?_
  simp only [Definition.fields, List.forall_mem_cons]
  exact ⟨.text _, Json.plain_map .text _, Json.plain_map GroupDefinition.plain _, by simp⟩

theorem Definition.parse_json (d : Definition) : parse .json (d.print .json) = .ok d := by
  rw [parse, print, String.toList_ofList, Json.parse?_print d.plain]
  simp only [Option.bind_some, ofData?_fields]

/-! ## Through TOML -/

open Toml (Tabular Flat Inline Bare)

theorem Toml.inline_texts (items : List String) :
    Inline (depthLimit - 1) (.list (items.map .text)) := by
  refine @Inline.list (depthLimit - 2) _ ?_
  intro d member
  obtain ⟨value, -, rfl⟩ := List.mem_map.mp member
  exact .text value

/-- The fields of a style. -/
def StyleDefinition.fields (s : StyleDefinition) : List (String × Data) :=
  [("propertyName", .text s.property), ("valueDescriptor", .text s.descriptor)]

/-- The fields of a group, its styles last. -/
def GroupDefinition.fields (g : GroupDefinition) : List (String × Data) :=
  [("kind", .text g.kind.name), ("keywords", .list (g.keywords.map .text))] ++
    [("styles", .list ((g.styles.map StyleDefinition.fields).map .record))]

theorem GroupDefinition.toData_eq (g : GroupDefinition) : g.toData = .record g.fields := by
  rw [toData, fields, List.map_map]
  rfl

theorem Definition.fields_eq (d : Definition) : d.fields =
    [("languageName", .text d.name), ("fileExtensions", .list (d.extensions.map .text))] ++
      [("keywordGroups", .list ((d.groups.map GroupDefinition.fields).map .record))] := by
  rw [fields, List.map_map]
  simp [GroupDefinition.toData_eq]

theorem StyleDefinition.tabular (s : StyleDefinition) : Tabular 0 s.fields := by
  refine .plain ?_ (by simp [fields])
  simp only [Flat, fields, List.forall_mem_cons]
  exact ⟨⟨by decide, .text _⟩, ⟨by decide, .text _⟩, by simp⟩

theorem GroupDefinition.tabular (g : GroupDefinition) : Tabular 1 g.fields := by
  refine .rows ?_ (by decide) (by simp) ?_
  · simp only [Flat, List.forall_mem_cons]
    exact ⟨⟨by decide, .text _⟩, ⟨by decide, Toml.inline_texts _⟩, by simp⟩
  · intro record member
    obtain ⟨s, -, rfl⟩ := List.mem_map.mp member
    exact s.tabular

theorem Definition.tabular (d : Definition) : Tabular 2 d.fields := by
  rw [fields_eq]
  refine .rows ?_ (by decide) (by simp) ?_
  · simp only [Flat, List.forall_mem_cons]
    exact ⟨⟨by decide, .text _⟩, ⟨by decide, Toml.inline_texts _⟩, by simp⟩
  · intro record member
    obtain ⟨g, -, rfl⟩ := List.mem_map.mp member
    exact g.tabular

theorem Definition.parse_toml (d : Definition) : parse .toml (d.print .toml) = .ok d := by
  rw [parse, print, String.toList_ofList, Toml.parse?_print d.tabular (by decide)]
  simp only [Option.bind_some, ofData?_fields]

/-! ## Through files -/

theorem Format.ofPath_json {path extension : String} (named : Path.extension? path = some extension)
    (json : extension.toList.map Char.toLower = "json".toList) : ofPath path = .json := by
  rw [ofPath, named]
  exact if_pos json

theorem Format.ofPath_toml {path : String} (other : ∀ extension ∈ Path.extension? path,
    extension.toList.map Char.toLower ≠ "json".toList) : ofPath path = .toml := by
  rw [ofPath]
  split
  · rename_i extension named
    exact if_neg (other extension named)
  · rfl

theorem Definition.write_eq_ok {files files' : FileTree} {path : String} {d : Definition} :
    d.write files path = .ok files' ↔
      files.writeText path (d.print (.ofPath path)) = .ok files' := by
  rw [write]
  cases files.writeText path (d.print (.ofPath path)) <;> simp [Except.mapError]

/-- A definition is written wherever a file can stand, and read back from there. -/
theorem Definition.read_written {path : String} {format : Format} (kind : .ofPath path = format)
    {d : Definition} (back : parse format (d.print format) = .ok d) (files : FileTree) :
    (files.TakesFile path ↔ ∃ files', d.write files path = .ok files') ∧
      ∀ files', d.write files path = .ok files' →
        files'.readText path = .ok (d.print format) ∧ Definition.read files' path = .ok d := by
  subst kind
  constructor
  · rw [FileTree.takesFile_iff (.text (d.print (.ofPath path)))]
    exact exists_congr fun files' => write_eq_ok.symm
  · intro files' written
    have found := FileTree.find_writeContent (write_eq_ok.mp written)
    have text := FileTree.readText_of_find found
    refine ⟨text, ?_⟩
    rw [read, if_pos (FileTree.isFile_iff.mpr ⟨_, found⟩), text]
    exact back

/-- A definition whose texts are hard to write: runs of both marks, a backslash, breaks, control
    characters and nothing at all, next to empty lists. -/
def Definition.awkward : Definition where
  name := "\"\"\"'''\\"
  extensions := ["", "\n.x", "\r\n"]
  groups := [⟨.special, ["\x00", "''''\"", "\ufeff"], [⟨"", "\t\x7f"⟩]⟩, ⟨.commentaries, [], []⟩]

/-- Below an extension that is `json` in any ASCII case, every definition is kept as JSON and read
    back unchanged. -/
theorem Definition.json_read_back {path extension : String}
    (named : Path.extension? path = some extension)
    (json : extension.toList.map Char.toLower = "json".toList) (files : FileTree)
    (d : Definition) :
    (files.TakesFile path ↔ ∃ files', d.write files path = .ok files') ∧
      ∀ files', d.write files path = .ok files' →
        files'.readText path = .ok (String.ofList (Json.print (.record d.fields))) ∧
          Definition.read files' path = .ok d := by
  have format := Format.ofPath_json named json
  exact read_written format d.parse_json files

/-- The extension may be written in capitals, and the file may have held something else. -/
theorem Definition.json_read_back_awkward :
    Path.extension? "lang/a.b.JsOn" = some "JsOn" ∧ ∃ files files' : FileTree,
      files.isFile "lang/a.b.JsOn" = true ∧ awkward.write files "lang/a.b.JsOn" = .ok files' ∧
        Definition.read files' "lang/a.b.JsOn" = .ok awkward := by
  let files : FileTree :=
    { entries := [(["lang"], .directory), (["lang", "a.b.JsOn"], .file (.text "old"))] }
  have named : Path.extension? "lang/a.b.JsOn" = some "JsOn" := by decide
  have takes : files.TakesFile "lang/a.b.JsOn" :=
    ⟨["lang", "a.b.JsOn"], by rfl, by simp [files, FileTree.get?, List.lookup_cons], by decide⟩
  obtain ⟨writes, reads⟩ := json_read_back named (by decide) files awkward
  obtain ⟨files', written⟩ := writes.mp takes
  exact ⟨named, files, files', by decide, written, (reads files' written).2⟩

/-- Below any other extension and without one, every definition is kept as TOML and read back
    unchanged. -/
theorem Definition.toml_read_back {path : String} (other : ∀ extension ∈ Path.extension? path,
    extension.toList.map Char.toLower ≠ "json".toList) (files : FileTree) (d : Definition) :
    (files.TakesFile path ↔ ∃ files', d.write files path = .ok files') ∧
      ∀ files', d.write files path = .ok files' →
        files'.readText path = .ok (String.ofList (Toml.print d.fields)) ∧
          Definition.read files' path = .ok d := by
  have format := Format.ofPath_toml other
  exact read_written format d.parse_toml files

/-- An extension further in does not count. -/
theorem Definition.toml_read_back_awkward :
    Path.extension? "lang/a.json.c" = some "c" ∧ ∃ files files' : FileTree,
      awkward.write files "lang/a.json.c" = .ok files' ∧
        Definition.read files' "lang/a.json.c" = .ok awkward := by
  let files : FileTree := { entries := [(["lang"], .directory)] }
  have named : Path.extension? "lang/a.json.c" = some "c" := by decide
  have takes : files.TakesFile "lang/a.json.c" :=
    ⟨["lang", "a.json.c"], by rfl, by simp [files, FileTree.get?, List.lookup_cons], by decide⟩
  obtain ⟨writes, reads⟩ := @toml_read_back "lang/a.json.c" (by simp [named]) files awkward
  obtain ⟨files', written⟩ := writes.mp takes
  exact ⟨named, files, files', written, (reads files' written).2⟩

end Highlight
