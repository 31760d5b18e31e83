import Highlight.Config
import Highlight.Language.Definition
import Highlight.Text.WordChar

/-! # The language registry

The registry keeps definition files in a directory and maps file extensions and language names to
them. The mapping is itself a file. An upload checks a definition, copies it and then writes the
mapping, so that no entry of the mapping is ever without its file.
-/

namespace Highlight

/-- A table of texts, in ascending order of its keys. -/
abbrev TextMap := List (String × String)

/-- Put a value under a key, in its place in the order. -/
def TextMap.insert (key value : String) : TextMap → TextMap
  | [] => [(key, value)]
  | (other, old) :: rest =>
    if key = other then (key, value) :: rest
    else if key < other then (key, value) :: (other, old) :: rest
    else (other, old) :: TextMap.insert key value rest

/-- Where the definitions of extensions and names are, below the registry's directory. -/
structure Mapping where
  extensions : TextMap := []
  languages : TextMap := []
  deriving Repr, DecidableEq

namespace Mapping

/-- A table as data. -/
def tableData (table : TextMap) : Data :=
  .record (table.map fun (key, value) => (key, .text value))

/-- A table from data; the last value of a key counts. -/
def tableOfData? : Data → Option TextMap
  | .record fields => fields.foldlM
    (fun table (key, value) => value.asText?.map fun text => TextMap.insert key text table) []
  | _ => none

/-- The text of the mapping file. -/
def print (m : Mapping) : String :=
  String.ofList (Json.print
    (.record [("extensions", tableData m.extensions), ("languages", tableData m.languages)]))

/-- The mapping from data. -/
def ofData? (data : Data) : Option Mapping :=
  match data.members? Json.rules ["extensions", "languages"] with
  | some [extensions, languages] => do
    return ⟨← Data.optional tableOfData? [] extensions,
      ← Data.optional tableOfData? [] languages⟩
  | _ => none

/-- The mapping that a text holds. -/
def parse (text : String) : Except LanguageError Mapping :=
  match (Json.parse? text.toList).bind ofData? with
  | some m => .ok m
  | none => .error .malformedJson

/-- The mapping with a language and its extensions, all led to one definition. -/
def add (m : Mapping) (name : String) (extensions : List String) (definition : String) :
    Mapping :=
  { extensions := extensions.foldl
      (fun table extension => TextMap.insert extension definition table) m.extensions
    languages := TextMap.insert name definition m.languages }

end Mapping

/-- Whether a text is a file extension: a dot followed by one or more word characters. -/
def isExtension (text : String) : Bool :=
  match text.toList with
  | '.' :: rest => !rest.isEmpty && rest.all Text.isWordChar
  | _ => false

/-- An open registry. -/
structure Registry where
  root : String
  mappingPath : String
  definitionsDirectory : String
  mapping : Mapping
  converters : Converters := .standard

namespace Registry

/-- Open the registry in a directory. A missing mapping file is created empty. -/
def openAt (files : FileTree) (root mappingFile definitionsDirectory : String) :
    FileTree × Except LanguageError Registry :=
  let mappingPath := Path.join root mappingFile
  if files.isFile mappingPath then
    (files, do
      let text ← (files.readText mappingPath).mapError .file
      return { root, mappingPath, definitionsDirectory, mapping := ← Mapping.parse text })
  else
    match files.makeDirectories root with
    | (files, .error e) => (files, .error (.file e))
    | (files, .ok ()) => match files.writeText mappingPath ({} : Mapping).print with
      | .error e => (files, .error (.file e))
      | .ok files => (files, .ok { root, mappingPath, definitionsDirectory, mapping := {} })

/-- Open the registry that the settings name. -/
def ofConfig (files : FileTree) (env : Environment) (config : RegistryConfig) :
    FileTree × Except LanguageError Registry :=
  match config.rootDirectory env with
  | .ok root => openAt files root config.mappingFile config.definitionsDirectory
  | .error e => (files, .error (.config e))

/-- The names of all languages, in order. -/
def names (r : Registry) : List String :=
  r.mapping.languages.map (·.1)

/-- Load the language that a table leads to. -/
def load (r : Registry) (files : FileTree) (table : TextMap) (key : String) :
    Except LanguageError (Option Language) :=
  match table.lookup key with
  | some definition => (Language.load r.converters files (Path.join r.root definition)).map some
  | none => .ok none

/-- The language of a file extension, dot included. -/
def forExtension (r : Registry) (files : FileTree) (extension : String) :
    Except LanguageError (Option Language) :=
  r.load files r.mapping.extensions extension

/-- The language of a name. -/
def byName (r : Registry) (files : FileTree) (name : String) :
    Except LanguageError (Option Language) :=
  r.load files r.mapping.languages name

/-- The language of a file, by its extension. -/
def forPath (r : Registry) (files : FileTree) (path : String) :
    Except LanguageError (Option Language) :=
  match Path.extension? path with
  | some extension => r.forExtension files ("." ++ extension)
  | none => .ok none

/-- Whether a language may be registered: its name and its extensions have to be free, and the
    extensions well formed. -/
def check (r : Registry) (language : Language) : Except LanguageError Unit := do
  if (r.mapping.languages.lookup language.name).isSome then throw (.nameTaken language.name)
  for extension in language.extensions do
    if !isExtension extension then throw (.badExtension extension)
    if (r.mapping.extensions.lookup extension).isSome then throw (.extensionTaken extension)

/-- Copy a definition into the registry's directory. If the name of its file is taken, `tag` is put
    before it. Gives the path of the copy below the root. -/
def store (r : Registry) (files : FileTree) (tag path : String) :
    FileTree × Except LanguageError String :=
  match Path.fileName? path with
  | none => (files, .error (.badFileName path))
  | some name =>
    let directory := Path.join r.root r.definitionsDirectory
    match files.makeDirectories directory with
    | (files, .error e) => (files, .error (.file e))
    | (files, .ok ()) =>
      let stored := if files.has (Path.join directory name) then tag ++ name else name
      match files.copy path (Path.join directory stored) with
      | .error e => (files, .error (.file e))
      | .ok files => (files, .ok (r.definitionsDirectory ++ "/" ++ stored))

/-- Register the definition in a file: check it, copy it, write the mapping and only then take the
    mapping over. `tag` makes the name of the copy unique. Gives the name of the language. -/
def upload (r : Registry) (files : FileTree) (tag path : String) :
    Registry × FileTree × Except LanguageError String :=
  match Language.load r.converters files path with
  | .error e => (r, files, .error e)
  | .ok language =>
    match r.check language with
    | .error e => (r, files, .error e)
    | .ok () =>
      match r.store files tag path with
      | (files, .error e) => (r, files, .error e)
      | (files, .ok stored) =>
        let mapping := r.mapping.add language.name language.extensions stored
        match files.writeText r.mappingPath mapping.print with
        | .error e => (r, files, .error (.file e))
        | .ok files => ({ r with mapping }, files, .ok language.name)

end Registry

end Highlight
