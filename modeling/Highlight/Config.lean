import Highlight.Document.Basic
import Highlight.Language.Error
import Highlight.Toml.Printer
import Highlight.Toml.Reader

/-! # Configuration

The settings of the highlighters, read from and written to TOML. Every section and every field has
a default, so any part of a configuration file may be missing.
-/

namespace Highlight

/-- How brackets are found and joined. -/
structure BracketConfig where
  opening : Char := '\x7b'
  closing : Char := '\x7d'
  /-- The descriptor of the connector's brush. -/
  stroke : String := "solid(211,211,211)"
  dash : Float := 4
  gap : Float := 3

/-- Where language definitions live. -/
structure RegistryConfig where
  /-- The directory of the registry; by default one below the user's data directory. -/
  root : Option String := none
  mappingFile : String := "languages.json"
  definitionsDirectory : String := "languages"
  deriving Repr, DecidableEq

/-- All settings. -/
structure Config where
  keywordsEnabled : Bool := true
  bracketsEnabled : Bool := true
  brackets : BracketConfig := {}
  /-- How long an idle worker sleeps, in milliseconds. -/
  idlePollMs : Nat := 25
  registry : RegistryConfig := {}
  view : Geometry := {}

/-- The user's directories, as far as the system names them. -/
structure Environment where
  configDirectory : Option String := none
  dataDirectory : Option String := none
  deriving Repr, DecidableEq

/-- The name under which this program keeps its files in the user's directories. -/
def applicationName : String :=
  "synergy"

/-- The directory of the registry. -/
def RegistryConfig.rootDirectory (r : RegistryConfig) (env : Environment) :
    Except ConfigError String :=
  match r.root, env.dataDirectory with
  | some root, _ => .ok root
  | none, some data => .ok (Path.join data applicationName)
  | none, none => .error .noDirectory

/-- The sleep of an idle worker is at least a millisecond. -/
def Config.idlePoll (c : Config) : Nat :=
  max c.idlePollMs 1

open Data (optional)

/-- A pair of numbers; further items are passed over where the format allows them. -/
def pair? (rules : Data.Rules) : Data → Option (Float × Float)
  | .list (a :: b :: rest) =>
    if rest.isEmpty || rules.surplus then do return (← a.asReal?, ← b.asReal?) else none
  | _ => none

/-- A layout from data. -/
def Geometry.ofData? (rules : Data.Rules) (data : Data) : Option Geometry :=
  match data.members? rules ["char_width", "line_height", "viewport_width", "viewport_height"] with
  | some [charWidth, lineHeight, viewportWidth, viewportHeight] => do
    let default : Geometry := {}
    return ⟨← optional Data.asReal? default.charWidth charWidth,
      ← optional Data.asReal? default.lineHeight lineHeight,
      ← optional Data.asReal? default.viewportWidth viewportWidth,
      ← optional Data.asReal? default.viewportHeight viewportHeight⟩
  | _ => none

/-- The bracket settings from data. -/
def BracketConfig.ofData? (rules : Data.Rules) (data : Data) : Option BracketConfig :=
  match data.members? rules ["open", "close", "stroke", "dash"] with
  | some [opening, closing, stroke, dash] => do
    let default : BracketConfig := {}
    let (dash, gap) ← optional (pair? rules) (default.dash, default.gap) dash
    return ⟨← optional Data.asChar? default.opening opening,
      ← optional Data.asChar? default.closing closing,
      ← optional Data.asText? default.stroke stroke, dash, gap⟩
  | _ => none

/-- The registry settings from data. -/
def RegistryConfig.ofData? (rules : Data.Rules) (data : Data) : Option RegistryConfig :=
  match data.members? rules ["root", "mapping_file", "definitions_dir"] with
  | some [root, mappingFile, definitionsDirectory] => do
    let default : RegistryConfig := {}
    return ⟨← optional (fun d => d.asText?.map some) none root,
      ← optional Data.asText? default.mappingFile mappingFile,
      ← optional Data.asText? default.definitionsDirectory definitionsDirectory⟩
  | _ => none

/-- Which highlighters are on, from data. -/
def switches? (rules : Data.Rules) (data : Data) : Option (Bool × Bool) :=
  match data.members? rules ["keywords_enabled", "brackets_enabled"] with
  | some [keywords, brackets] => do
    return (← optional Data.asFlag? true keywords, ← optional Data.asFlag? true brackets)
  | _ => none

/-- The sleep of an idle worker, from data. -/
def idlePoll? (rules : Data.Rules) (data : Data) : Option Nat :=
  match data.members? rules ["idle_poll_ms"] with
  | some [idle] => optional Data.asNatural? 25 idle
  | _ => none

namespace Config

/-- All settings from data. -/
def ofData? (rules : Data.Rules) (data : Data) : Option Config :=
  match data.members? rules ["highlighting", "brackets", "workers", "registry", "view"] with
  | some [highlighting, brackets, workers, registry, view] => do
    let (keywordsEnabled, bracketsEnabled) ← optional (switches? rules) (true, true) highlighting
    return {
      keywordsEnabled
      bracketsEnabled
      brackets := ← optional (BracketConfig.ofData? rules) {} brackets
      idlePollMs := ← optional (idlePoll? rules) 25 workers
      registry := ← optional (RegistryConfig.ofData? rules) {} registry
      view := ← optional (Geometry.ofData? rules) {} view }
  | _ => none

/-- The sections of the settings, in the order in which they are written. -/
def fields (c : Config) : List (String × Data) :=
  [("highlighting", .record [("keywords_enabled", .flag c.keywordsEnabled),
      ("brackets_enabled", .flag c.bracketsEnabled)]),
    ("brackets", .record [("open", .text (String.singleton c.brackets.opening)),
      ("close", .text (String.singleton c.brackets.closing)),
      ("stroke", .text c.brackets.stroke),
      ("dash", .list [.real c.brackets.dash, .real c.brackets.gap])]),
    ("workers", .record [("idle_poll_ms", .integer c.idlePollMs)]),
    ("registry", .record [
      ("root", match c.registry.root with
        | some root => .text root
        | none => .null),
      ("mapping_file", .text c.registry.mappingFile),
      ("definitions_dir", .text c.registry.definitionsDirectory)]),
    ("view", .record [("char_width", .real c.view.charWidth),
      ("line_height", .real c.view.lineHeight),
      ("viewport_width", .real c.view.viewportWidth),
      ("viewport_height", .real c.view.viewportHeight)])]

/-- The text of the settings. -/
def print (c : Config) : String :=
  String.ofList (Toml.print c.fields)

/-- The settings that a text holds. -/
def parse (text : String) : Except ConfigError Config :=
  match (Toml.parse? text.toList).bind (ofData? Toml.rules) with
  | some config => .ok config
  | none => .error .malformed

/-- Read the settings from a file. -/
def load (files : FileTree) (path : String) : Except ConfigError Config :=
  match files.readText path with
  | .ok text => parse text
  | .error e => .error (.file e)

/-- Where the settings are unless another file is named. -/
def defaultPath? (env : Environment) : Option String :=
  env.configDirectory.map fun directory =>
    Path.join (Path.join directory applicationName) "config.toml"

/-- The settings of the user; the defaults if there are none or they cannot be read. -/
def loadDefault (files : FileTree) (env : Environment) : Config :=
  match defaultPath? env with
  | some path => match load files path with
    | .ok config => config
    | .error _ => {}
  | none => {}

/-- Write the settings to a file and make the directories that lead to it. -/
def save (files : FileTree) (path : String) (c : Config) : FileTree × Except ConfigError Unit :=
  let (files, written) := files.writeBelow path (.text c.print)
  (files, written.mapError .file)

end Config

end Highlight
