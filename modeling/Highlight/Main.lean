import Highlight.Command

/-! # The program

The outer layer: it fetches the files a command can touch into a tree, runs the command on the tree
and stores what has changed.
-/

namespace Highlight.Main

/-- The place a path names, seen from the working directory. -/
def placeOf (t : FileTree) (path : String) : Location :=
  (Path.names path).foldl
    (fun place name =>
      if name = "." then place else if name = ".." then place.dropLast else place ++ [name])
    (if Path.isAbsolute path then [] else t.workingDirectory)

/-- A place as an absolute path. -/
def absolute (place : Location) : String :=
  "/" ++ String.intercalate "/" place

/-- What a row of bytes is as the content of a file. -/
def contentOf (bytes : ByteArray) : Content :=
  match String.fromUTF8? bytes with
  | some text => .text text
  | none => .binary bytes

/-- The bytes of a file. -/
def bytesOf : Content → ByteArray
  | .text value => value.toUTF8
  | .binary bytes => bytes

/-- The names in a directory; fails if there is none at the place. -/
def namesAt (place : Location) : IO (List String) := do
  let entries ← (← IO.FS.realPath (absolute place)).readDir
  return entries.toList.map (·.fileName)

/-- Fetch what stands at a place, if it can be read. -/
def fetchPlace (t : FileTree) (place : Location) : IO FileTree := do
  try
    let _ ← namesAt place
    return t.set place .directory
  catch _ =>
    try
      return t.set place (.file (contentOf (← IO.FS.readBinFile (absolute place))))
    catch _ => return t

/-- Fetch what a path leads to, and all directories on the way. -/
def fetch (t : FileTree) (path : String) : IO FileTree :=
  let place := placeOf t path
  (List.range (place.length + 1)).foldlM (fun t n => fetchPlace t (place.take n)) t

/-- Fetch a directory with what stands in it. -/
def fetchDirectory (t : FileTree) (path : String) : IO FileTree := do
  let t ← fetch t path
  try
    (← namesAt (placeOf t path)).foldlM (fun t name => fetchPlace t (placeOf t path ++ [name])) t
  catch _ => return t

/-- Fetch the registry of a command: its mapping, its definitions and all that the mapping leads
    to. -/
def fetchRegistry (t : FileTree) (env : Environment) (config : RegistryConfig) : IO FileTree := do
  match config.rootDirectory env with
  | .error _ => return t
  | .ok root =>
    let t ← fetch t (Path.join root config.mappingFile)
    let t ← fetchDirectory t (Path.join root config.definitionsDirectory)
    match (Registry.ofConfig t env config).2 with
    | .error _ => return t
    | .ok registry =>
      (registry.mapping.extensions ++ registry.mapping.languages).foldlM
        (fun t entry => fetch t (Path.join root entry.2)) t

/-- Fetch all that a command can read. -/
def fetchFor (t : FileTree) (env : Environment) (command : Command) : IO FileTree := do
  let t ← match command.config.or (Config.defaultPath? env) with
    | some path => fetch t path
    | none => pure t
  let t ← match command.action with
    | .highlight file _ _ => fetch t file
    | .upload definition => fetch t definition
    | .languages => pure t
  match command.settings env t with
  | .ok config => fetchRegistry t env config.registry
  | .error _ => return t

/-- Whether an entry is what was fetched. -/
def isUnchanged (before : Option Entry) : Entry → Bool
  | .directory => match before with
    | some .directory => true
    | _ => false
  | .file content => match before with
    | some (.file old) => bytesOf old == bytesOf content
    | _ => false

/-- Store what has changed, the oldest entries first. -/
def store (before after : FileTree) : IO Unit :=
  after.entries.reverse.forM fun (place, entry) => do
    if !isUnchanged (before.get? place) entry then
      match entry with
      | .directory => IO.FS.createDirAll (absolute place)
      | .file content => IO.FS.writeBinFile (absolute place) (bytesOf content)

/-- A directory of the user: the one a variable names, or one below the home directory. -/
def userDirectory (key fallback : String) : IO (Option String) := do
  match ← IO.getEnv key with
  | some path => if Path.isAbsolute path then return some path
  | none => pure ()
  return (← IO.getEnv "HOME").map (Path.join · fallback)

/-- A name that no other file has: thirty-two random hexadecimal digits in five groups. -/
def freshTag : IO String := do
  let bytes ← IO.getRandomBytes 16
  let digits := bytes.toList.flatMap fun b =>
    [Json.hexChar (b.toNat / 16), Json.hexChar (b.toNat % 16)]
  let group := fun (start size : Nat) => String.ofList ((digits.drop start).take size)
  return String.intercalate "-" [group 0 8, group 8 4, group 12 4, group 16 4, group 20 12]

end Highlight.Main

open Highlight in
/-- Run the command line of the program. -/
def main (arguments : List String) : IO UInt32 := do
  let env : Environment := {
    configDirectory := ← Main.userDirectory "XDG_CONFIG_HOME" ".config"
    dataDirectory := ← Main.userDirectory "XDG_DATA_HOME" ".local/share" }
  let current ← IO.currentDir
  let empty : FileTree := { workingDirectory := Path.names current.toString }
  let files ← match Command.parse arguments with
    | .ok command => Main.fetchFor empty env command
    | .error _ => pure empty
  let (after, outcome) := Command.run arguments env files (← Main.freshTag)
  Main.store files after
  (← IO.getStdout).putStr outcome.output
  (← IO.getStderr).putStr outcome.errors
  return outcome.code.toUInt32
