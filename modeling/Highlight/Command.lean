import Highlight.Command.Arguments
import Highlight.Editor
import Highlight.Report

/-! # Running a command

A command reads and writes files and ends with a code and two texts. Everything is done on a tree of
files given as a value.
-/

namespace Highlight

/-- How a run ends. -/
structure Outcome where
  code : Nat := 0
  output : String := ""
  errors : String := ""
  deriving Repr, DecidableEq

/-- A failure as it is reported: what failed, and the causes behind it, nearest first. -/
structure Failure where
  message : String
  causes : List String := []
  deriving Repr, DecidableEq

namespace Failure

/-- The failure to do something because of another. -/
def because (context message : String) (causes : List String) : Failure :=
  ⟨context, message :: causes⟩

/-- A cause as a paragraph: its first line behind `lead`, the others as far in. -/
def paragraph (lead : String) (text : String) : String :=
  let indent := String.ofList (List.replicate lead.length ' ')
  lead ++ String.intercalate ("\n" ++ indent) ((Text.splitOn '\n' text.toList).map String.ofList)

/-- The text of a failure. Several causes are numbered. -/
def text (f : Failure) : String :=
  let causes := match f.causes with
    | [] => []
    | [cause] => [paragraph "    " cause]
    | causes => causes.zipIdx.map fun (cause, i) =>
      paragraph (String.ofList (Text.padLeft 5 (toString i).toList) ++ ": ") cause
  "Error: " ++ f.message ++
    (if causes.isEmpty then "" else "\n\nCaused by:\n" ++ String.intercalate "\n" causes) ++ "\n"

end Failure

/-- A failure of languages. -/
def LanguageError.failure (e : LanguageError) : Failure :=
  ⟨e.message, e.causes⟩

namespace Command

/-- The settings in the named file, or those of the user. -/
def baseSettings (c : Command) (env : Environment) (files : FileTree) : Except Failure Config :=
  match c.config with
  | some path =>
    match Config.load files path with
    | .ok config => .ok config
    | .error e => .error (.because ("Cannot read config " ++ path) e.message e.causes)
  | none => .ok (Config.loadDefault files env)

/-- The settings of a run; the directory of the registry can be set apart. -/
def settings (c : Command) (env : Environment) (files : FileTree) : Except Failure Config :=
  (c.baseSettings env files).map fun config =>
    { config with registry := { config.registry with root := c.registry.or config.registry.root } }

/-- Highlight a file in a session of its own: open it, choose the language if one is named, and let
    the highlighter work until it is done. -/
def highlight (registry : Registry) (files : FileTree) (config : Config) (file : String)
    (language : Option String) : Except Failure Report := do
  if let some name := language then
    if (← (registry.byName files name).mapError (·.failure)).isNone then
      throw ⟨"Unknown language '" ++ name ++ "'", []⟩
  let session := Session.new config
  let highlighter ← (Highlighter.new registry config).mapError (·.failure)
  let highlighter := highlighter.start.1
  let reader := session.bus.subscribe
  let session ← (session.openFile files file).mapError fun e =>
    Failure.because ("Cannot open " ++ file) e.message e.causes
  let session := match language with
    | some name => session.selectLanguage name
    | none => session
  let editor : Editor := { session := session.emit .quit, highlighter, files }
  let editor := (editor.listen reader).settle
  return .ofDocument editor.highlighter.languageName editor.document

/-- Do what a command asks for, with an open registry; gives the lines to print. `tag` makes the
    name of an uploaded copy unique. -/
def perform (action : Action) (registry : Registry) (files : FileTree) (config : Config)
    (tag : String) : FileTree × Except Failure (List String) :=
  match action with
  | .highlight file language json =>
    (files, (highlight registry files config file language).map (·.present json))
  | .languages => (files, .ok registry.names)
  | .upload definition =>
    let (_, files, outcome) := registry.upload files tag definition
    (files, match outcome with
      | .ok name => .ok ["Registered language " ++ name]
      | .error e => .error (.because ("Cannot upload " ++ definition) e.message e.causes))

/-- Run a command that was understood. -/
def execute (c : Command) (env : Environment) (files : FileTree) (tag : String) :
    FileTree × Except Failure (List String) :=
  match c.settings env files with
  | .error f => (files, .error f)
  | .ok config =>
    match Registry.ofConfig files env config.registry with
    | (files, .error e) => (files, .error e.failure)
    | (files, .ok registry) => perform c.action registry files config tag

/-- How the program is used. -/
def usage : String :=
  String.join ([
    "Usage: synergy [OPTIONS] <COMMAND>",
    "",
    "Commands:",
    "  highlight <FILE>       Highlight a file and print styled spans and connector lines",
    "  languages              List registered languages",
    "  upload <DEFINITION>    Register a language definition file",
    "  help                   Print this message",
    "",
    "Options:",
    "  -c, --config <FILE>    Config file (defaults to the user config directory)",
    "  -r, --registry <DIR>   Language registry directory",
    "  -v, --verbose          Verbose logging",
    "  -l, --language <NAME>  Language name to use instead of detecting it (highlight)",
    "      --json             Print the report as JSON (highlight)",
    "  -h, --help             Print help",
    "  -V, --version          Print version"].map (· ++ "\n"))

/-- The name and the version of the program. -/
def version : String :=
  applicationName ++ " 0.1.0\n"

/-- Run a command line. -/
def run (arguments : List String) (env : Environment) (files : FileTree) (tag : String) :
    FileTree × Outcome :=
  match Command.parse arguments with
  | .error .help => (files, { output := usage })
  | .error .version => (files, { output := version })
  | .error .misuse => (files, { code := 2, errors := usage })
  | .ok command =>
    match command.execute env files tag with
    | (files, .ok lines) => (files, { output := String.join (lines.map (· ++ "\n")) })
    | (files, .error f) => (files, { code := 1, errors := f.text })

end Command

end Highlight
