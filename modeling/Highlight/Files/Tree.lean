import Highlight.Files.Path

/-! # File trees

Files and directories as a value. Paths are followed from the working directory or the root; every
name on the way has to be a directory.
-/

namespace Highlight

/-- What a file holds. -/
inductive Content where
  | text (value : String)
  /-- Bytes that are no text. -/
  | binary (bytes : ByteArray)

/-- What stands at a place of the tree. -/
inductive Entry where
  | file (content : Content)
  | directory

/-- Why an operation on files fails. -/
inductive FileError where
  | notFound
  | alreadyExists
  | notDirectory
  | isDirectory
  | notText
  deriving Repr, DecidableEq

/-- The wording of a failure. -/
def FileError.message : FileError → String
  | .notFound => "No such file or directory (os error 2)"
  | .alreadyExists => "File exists (os error 17)"
  | .notDirectory => "Not a directory (os error 20)"
  | .isDirectory => "Is a directory (os error 21)"
  | .notText => "stream did not contain valid UTF-8"

/-- A place in the tree: the names from the root on. -/
abbrev Location := List String

/-- Files and directories by their place. The root is always there. -/
structure FileTree where
  entries : List (Location × Entry) := []
  workingDirectory : Location := []

namespace FileTree

/-- What stands at a place. -/
def get? (t : FileTree) (place : Location) : Option Entry :=
  if place = [] then some .directory else t.entries.lookup place

/-- Put something at a place, instead of what is there. -/
def set (t : FileTree) (place : Location) (entry : Entry) : FileTree :=
  { t with entries := (place, entry) :: t.entries.filter (·.1 ≠ place) }

/-- Take away what stands at a place and below it. -/
def erase (t : FileTree) (place : Location) : FileTree :=
  { t with entries := t.entries.filter fun (other, _) => !place.isPrefixOf other }

/-- Whether a directory stands at a place. -/
def hasDirectory (t : FileTree) (place : Location) : Bool :=
  match t.get? place with
  | some .directory => true
  | _ => false

/-- Follow names from a place. Each is looked up in a directory; the last one need not exist. -/
def walk (t : FileTree) : Location → List String → Except FileError Location
  | place, [] => .ok place
  | place, name :: names =>
    match t.get? place with
    | none => .error .notFound
    | some (.file _) => .error .notDirectory
    | some .directory =>
      if name = "." then t.walk place names
      else if name = ".." then t.walk place.dropLast names
      else t.walk (place ++ [name]) names

/-- The place a path leads to. -/
def locate (t : FileTree) (path : String) : Except FileError Location :=
  if path.isEmpty then .error .notFound
  else t.walk (if Path.isAbsolute path then [] else t.workingDirectory) (Path.names path)

/-- Whether a path insists on a directory by a slash at its end. -/
def wantsDirectory (path : String) : Bool :=
  path.toList.getLast? == some '/'

/-- What a path leads to. -/
def find (t : FileTree) (path : String) : Except FileError Entry := do
  match t.get? (← t.locate path) with
  | none => throw .notFound
  | some .directory => return .directory
  | some (.file content) =>
    if wantsDirectory path then throw .notDirectory else return .file content

/-- Whether a path leads to a file. -/
def isFile (t : FileTree) (path : String) : Bool :=
  match t.find path with
  | .ok (.file _) => true
  | _ => false

/-- Whether a path leads to a directory. -/
def isDirectory (t : FileTree) (path : String) : Bool :=
  match t.find path with
  | .ok .directory => true
  | _ => false

/-- Whether a path leads to anything. -/
def has (t : FileTree) (path : String) : Bool :=
  match t.find path with
  | .ok _ => true
  | .error _ => false

/-- The content of a file. -/
def readContent (t : FileTree) (path : String) : Except FileError Content := do
  match ← t.find path with
  | .directory => throw .isDirectory
  | .file content => return content

/-- The text of a file. -/
def readText (t : FileTree) (path : String) : Except FileError String := do
  match ← t.readContent path with
  | .text value => return value
  | .binary _ => throw .notText

/-- Write a file, new or not; its directory has to be there. A slash at the end of the path asks for
    a directory, whatever stands there. -/
def writeContent (t : FileTree) (path : String) (content : Content) :
    Except FileError FileTree := do
  let place ← t.locate path
  if t.hasDirectory place || wantsDirectory path then throw .isDirectory
  return t.set place (.file content)

/-- Write a text file. -/
def writeText (t : FileTree) (path value : String) : Except FileError FileTree :=
  t.writeContent path (.text value)

/-- Make one directory where there is nothing. -/
def makeDirectory (t : FileTree) (path : String) : Except FileError FileTree := do
  let place ← t.locate path
  match t.get? place with
  | some _ => throw .alreadyExists
  | none => return t.set place .directory

/-- Make a directory, unless one is there already. -/
def ensureDirectory (t : FileTree) (path : String) : Except FileError FileTree :=
  match t.makeDirectory path with
  | .error .alreadyExists => if t.isDirectory path then .ok t else .error .alreadyExists
  | outcome => outcome

/-- Make a directory and all that lead to it; the fuel bounds how many. The tree comes back also
    when a directory cannot be made, with those made before. -/
def makeParents : Nat → String → FileTree → FileTree × Except FileError Unit
  | 0, _, t => (t, .ok ())
  | fuel + 1, path, t =>
    match Path.parent? path with
    | none => (t, .ok ())
    | some parent =>
      match t.ensureDirectory path with
      | .ok t => (t, .ok ())
      | .error .notFound =>
        match makeParents fuel parent t with
        | (t, .ok ()) =>
          match t.ensureDirectory path with
          | .ok t => (t, .ok ())
          | .error e => (t, .error e)
        | failed => failed
      | .error e => (t, .error e)

/-- Make a directory and all that lead to it. -/
def makeDirectories (t : FileTree) (path : String) : FileTree × Except FileError Unit :=
  makeParents (path.length + 1) path t

/-- Write a file and make the directories that lead to it. -/
def writeBelow (t : FileTree) (path : String) (content : Content) :
    FileTree × Except FileError Unit :=
  let (t, made) := match Path.parent? path with
    | some parent => t.makeDirectories parent
    | none => (t, .ok ())
  match made with
  | .error e => (t, .error e)
  | .ok () => match t.writeContent path content with
    | .ok t => (t, .ok ())
    | .error e => (t, .error e)

/-- Take away what a path leads to, if anything. -/
def remove (t : FileTree) (path : String) : FileTree :=
  match t.locate path with
  | .ok place => t.erase place
  | .error _ => t

/-- Copy a file. -/
def copy (t : FileTree) (source target : String) : Except FileError FileTree := do
  t.writeContent target (← t.readContent source)

/-- The names in a directory. -/
def list (t : FileTree) (path : String) : List String :=
  match t.locate path with
  | .error _ => []
  | .ok place => t.entries.filterMap fun (other, _) =>
    if other ≠ [] ∧ other.dropLast = place then other.getLast? else none

end FileTree

end Highlight
