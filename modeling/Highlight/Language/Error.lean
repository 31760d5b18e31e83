import Highlight.Files.Tree
import Highlight.Style.Descriptor

/-! # What can go wrong with languages

The causes for which a configuration, a definition file or an upload is refused.
-/

namespace Highlight

/-- Why a configuration cannot be read or written. -/
inductive ConfigError where
  /-- The system names no directory for it. -/
  | noDirectory
  | file (error : FileError)
  /-- The text is no configuration. -/
  | malformed
  deriving Repr, DecidableEq

/-- What is said about a text that breaks the rules of its format or has another shape. -/
def malformedText : String :=
  "TOML parse error: the text is malformed or has another shape"

/-- The wording of a failure. -/
def ConfigError.message : ConfigError → String
  | .noDirectory => "Config directory not found"
  | .file error => "IO error: " ++ error.message
  | .malformed => "Parse error: " ++ malformedText

/-- The causes behind a failure, nearest first. -/
def ConfigError.causes : ConfigError → List String
  | .noDirectory => []
  | .file error => [error.message]
  | .malformed => [malformedText]

/-- Why a language cannot be loaded or registered. -/
inductive LanguageError where
  /-- No file is there. -/
  | notFound (path : String)
  /-- A style cannot be read. -/
  | style (error : DescriptorError)
  /-- The name is registered already. -/
  | nameTaken (name : String)
  /-- An extension is not a dot followed by word characters. -/
  | badExtension (extension : String)
  /-- An extension is registered already. -/
  | extensionTaken (extension : String)
  /-- The path of a definition does not end in a name. -/
  | badFileName (path : String)
  | file (error : FileError)
  | malformedJson
  | malformedToml
  | config (error : ConfigError)
  deriving Repr, DecidableEq

namespace LanguageError

/-- The wording of a failure. -/
def message : LanguageError → String
  | .notFound path => "Not found: " ++ path
  | .style error => "Validation error: " ++ error.message
  | .nameTaken name => "Validation error: Language name '" ++ name ++ "' is already taken"
  | .badExtension extension => "Validation error: Extension '" ++ extension ++ "' is invalid"
  | .extensionTaken extension =>
    "Validation error: Extension '" ++ extension ++ "' is already taken"
  | .badFileName path => "Validation error: Bad file name: " ++ path
  | .file error => "IO error: " ++ error.message
  | .malformedJson => "JSON error: the text is malformed or has another shape"
  | .malformedToml => malformedText
  | .config error => "Config error: " ++ error.message

/-- The causes behind a failure, nearest first. -/
def causes : LanguageError → List String
  | .file error => [error.message]
  | .malformedJson => ["the text is malformed or has another shape"]
  | .malformedToml => [malformedText]
  | .config error => error.message :: error.causes
  | _ => []

end LanguageError

end Highlight
