import Highlight.Text.Cut

/-! # Paths

A path is a text of names separated by slashes. Its components leave out empty names and all dots
but a leading one.
-/

namespace Highlight.Path

/-- Whether a path starts at the root. -/
def isAbsolute (path : String) : Bool :=
  path.toList.head? == some '/'

/-- The names of a path, between its slashes. -/
def names (path : String) : List String :=
  ((Text.splitOn '/' path.toList).filter (!·.isEmpty)).map String.ofList

/-- The names that matter: a dot only does at the front of a relative path. -/
def components (path : String) : List String :=
  match names path with
  | [] => []
  | first :: rest =>
    let rest := rest.filter (· != ".")
    if first == "." && isAbsolute path then rest else first :: rest

/-- A path below another. An absolute path stands for itself, and the empty one only adds a
    slash. -/
def join (base path : String) : String :=
  if isAbsolute path then path
  else if base.isEmpty || base.toList.getLast? == some '/' then base ++ path
  else base ++ "/" ++ path

/-- The name of the file or directory that a path leads to. -/
def fileName? (path : String) : Option String :=
  (components path).getLast?.filter fun name => name != ".." && name != "."

/-- What stands behind the last dot of the file name, unless that dot is its first character. -/
def extension? (path : String) : Option String :=
  match (fileName? path).bind fun name => Text.splitAtLast? '.' name.toList with
  | some ([], _) => none
  | some (_, after) => some (String.ofList after)
  | none => none

/-- The path without its last component; the root and the empty path have none. -/
def parent? (path : String) : Option String :=
  match components path with
  | [] => none
  | parts =>
    some ((if isAbsolute path then "/" else "") ++ String.intercalate "/" parts.dropLast)

end Highlight.Path
