import Highlight.Json.Printer
import Highlight.Json.Reader
import Highlight.Language
import Highlight.Language.Error
import Highlight.Toml.Printer
import Highlight.Toml.Reader

/-! # Language definitions

A definition is a language as it stands in a file: groups of keywords with styles written as
descriptors. Files whose extension is `json` are JSON, all others TOML.
-/

namespace Highlight

/-- A style as it is written. -/
structure StyleDefinition where
  property : String
  descriptor : String
  deriving Repr, DecidableEq

/-- A group as it is written. -/
structure GroupDefinition where
  kind : GroupKind := .normal
  keywords : List String := []
  styles : List StyleDefinition := []
  deriving Repr, DecidableEq

/-- A language as it is written. -/
structure Definition where
  name : String
  extensions : List String := []
  groups : List GroupDefinition := []
  deriving Repr, DecidableEq

/-- The name of a kind in a file. -/
def GroupKind.name : GroupKind → String
  | .normal => "Normal"
  | .special => "Special"
  | .commentaries => "Commentaries"

/-- The kind of a name. -/
def GroupKind.ofName? : String → Option GroupKind
  | "Normal" => some .normal
  | "Special" => some .special
  | "Commentaries" => some .commentaries
  | _ => none

/-- The two formats of a definition file. -/
inductive Format where
  | json
  | toml
  deriving Repr, DecidableEq

/-- The format of a file, by its extension in any ASCII case. -/
def Format.ofPath (path : String) : Format :=
  match Path.extension? path with
  | some extension => if extension.toList.map Char.toLower = "json".toList then .json else .toml
  | none => .toml

/-- The fields of a style, as data. -/
def StyleDefinition.toData (s : StyleDefinition) : Data :=
  .record [("propertyName", .text s.property), ("valueDescriptor", .text s.descriptor)]

/-- A style from data; both fields have to be there. -/
def StyleDefinition.ofData? (rules : Data.Rules) (data : Data) : Option StyleDefinition :=
  match data.members? rules ["propertyName", "valueDescriptor"] with
  | some [property, descriptor] => do
    return ⟨← Data.required Data.asText? property, ← Data.required Data.asText? descriptor⟩
  | _ => none

/-- The fields of a group, as data. -/
def GroupDefinition.toData (g : GroupDefinition) : Data :=
  .record [("kind", .text g.kind.name), ("keywords", .list (g.keywords.map .text)),
    ("styles", .list (g.styles.map (·.toData)))]

/-- A group from data; absent fields are empty and the kind is then normal. -/
def GroupDefinition.ofData? (rules : Data.Rules) (data : Data) : Option GroupDefinition :=
  match data.members? rules ["kind", "keywords", "styles"] with
  | some [kind, keywords, styles] => do
    return ⟨← Data.optional (fun d => (d.choice? rules).bind GroupKind.ofName?) .normal kind,
      ← Data.optional (Data.asList? Data.asText?) [] keywords,
      ← Data.optional (Data.asList? (StyleDefinition.ofData? rules)) [] styles⟩
  | _ => none

namespace Definition

/-- The fields of a definition, in the order in which they are written. -/
def fields (d : Definition) : List (String × Data) :=
  [("languageName", .text d.name), ("fileExtensions", .list (d.extensions.map .text)),
    ("keywordGroups", .list (d.groups.map (·.toData)))]

/-- A definition from data; only the name has to be there. -/
def ofData? (rules : Data.Rules) (data : Data) : Option Definition :=
  match data.members? rules ["languageName", "fileExtensions", "keywordGroups"] with
  | some [name, extensions, groups] => do
    return ⟨← Data.required Data.asText? name,
      ← Data.optional (Data.asList? Data.asText?) [] extensions,
      ← Data.optional (Data.asList? (GroupDefinition.ofData? rules)) [] groups⟩
  | _ => none

/-- The text of a definition in a format. -/
def print (format : Format) (d : Definition) : String :=
  match format with
  | .json => String.ofList (Json.print (.record d.fields))
  | .toml => String.ofList (Toml.print d.fields)

/-- The definition that a text in a format holds. -/
def parse (format : Format) (text : String) : Except LanguageError Definition :=
  match format with
  | .json =>
    match (Json.parse? text.toList).bind (ofData? Json.rules) with
    | some d => .ok d
    | none => .error .malformedJson
  | .toml =>
    match (Toml.parse? text.toList).bind (ofData? Toml.rules) with
    | some d => .ok d
    | none => .error .malformedToml

/-- Read a definition file. -/
def read (files : FileTree) (path : String) : Except LanguageError Definition :=
  if files.isFile path then
    match files.readText path with
    | .ok text => parse (.ofPath path) text
    | .error e => .error (.file e)
  else .error (.notFound path)

/-- Write a definition file. -/
def write (files : FileTree) (path : String) (d : Definition) : Except LanguageError FileTree :=
  (files.writeText path (d.print (.ofPath path))).mapError .file

/-- Read the styles of a group and set up its lexicon. -/
def buildGroup (converters : Converters) (g : GroupDefinition) : Except LanguageError Group := do
  let styles ← g.styles.mapM fun s =>
    (converters.convert s.property s.descriptor).mapError .style
  return .ofWords g.kind (g.keywords.map String.toList) styles

/-- The language of a definition; the first style that cannot be read is the failure. -/
def build (converters : Converters) (d : Definition) : Except LanguageError Language := do
  return ⟨d.name, d.extensions, ← d.groups.mapM (buildGroup converters)⟩

end Definition

/-- Load the language of a definition file. -/
def Language.load (converters : Converters) (files : FileTree) (path : String) :
    Except LanguageError Language := do
  (← Definition.read files path).build converters

end Highlight
