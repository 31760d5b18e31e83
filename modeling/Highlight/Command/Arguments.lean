/-! # Command lines

A command line is a list of arguments: options of the whole program, then the name of a command,
then the arguments of that command. The options of the whole program may also stand among those of
the command, where they count more. A long option takes its value behind an equals sign or from the
next argument, a short one also right behind its letter, and short ones may be written together.
Behind two dashes nothing is an option any more.
-/

namespace Highlight

/-- What the program is asked to do. -/
inductive Action where
  /-- Highlight a file and report on it. -/
  | highlight (file : String) (language : Option String) (json : Bool)
  /-- List the registered languages. -/
  | languages
  /-- Register a definition. -/
  | upload (definition : String)
  deriving Repr, DecidableEq

/-- A command line that was understood. -/
structure Command where
  /-- The file with the settings. -/
  config : Option String := none
  /-- The directory of the registry. -/
  registry : Option String := none
  action : Action
  deriving Repr, DecidableEq

/-- Why a command line leads to no action. -/
inductive Refusal where
  /-- Help was asked for. -/
  | help
  /-- The version was asked for. -/
  | version
  /-- The arguments break the rules. -/
  | misuse
  deriving Repr, DecidableEq

namespace Arguments

/-- What can be set by an option that takes a value. -/
inductive Slot where
  | config
  | registry
  | language
  deriving Repr, DecidableEq

/-- An option. -/
inductive Switch where
  | value (slot : Slot)
  | json
  | verbose
  | help
  | version
  deriving Repr, DecidableEq

/-- The commands by name. -/
inductive Verb where
  | highlight
  | languages
  | upload
  deriving Repr, DecidableEq

/-- The command of a name. -/
def Verb.ofName? : String → Option Verb
  | "highlight" => some .highlight
  | "languages" => some .languages
  | "upload" => some .upload
  | _ => none

/-- How many arguments that are no options a command takes; the program itself takes none. -/
def places : Option Verb → Nat
  | some .highlight | some .upload => 1
  | some .languages | none => 0

/-- The options of the program and of each command, by their long names. -/
def longSwitch? (verb : Option Verb) : String → Option Switch
  | "config" => some (.value .config)
  | "registry" => some (.value .registry)
  | "verbose" => some .verbose
  | "help" => some .help
  | "version" => if verb.isNone then some .version else none
  | "language" => if verb = some .highlight then some (.value .language) else none
  | "json" => if verb = some .highlight then some .json else none
  | _ => none

/-- The options of the program and of each command, by their letters. -/
def shortSwitch? (verb : Option Verb) : Char → Option Switch
  | 'c' => some (.value .config)
  | 'r' => some (.value .registry)
  | 'v' => some .verbose
  | 'h' => some .help
  | 'V' => if verb.isNone then some .version else none
  | 'l' => if verb = some .highlight then some (.value .language) else none
  | _ => none

/-- What has been read at one level of a command line. -/
structure Level where
  config : Option String := none
  registry : Option String := none
  language : Option String := none
  json : Bool := false
  /-- The arguments that are no options. -/
  free : List String := []
  deriving Repr, DecidableEq

/-- Fill a slot once. A path must not be empty. -/
def Level.fill (level : Level) (slot : Slot) (value : String) : Except Refusal Level :=
  match slot with
  | .config =>
    if level.config.isSome ∨ value.isEmpty then .error .misuse
    else .ok { level with config := some value }
  | .registry =>
    if level.registry.isSome ∨ value.isEmpty then .error .misuse
    else .ok { level with registry := some value }
  | .language =>
    if level.language.isSome then .error .misuse else .ok { level with language := some value }

/-- Take an option without a value. -/
def Level.flip (level : Level) : Switch → Except Refusal Level
  | .json => if level.json then .error .misuse else .ok { level with json := true }
  | .verbose => .ok level
  | .help => .error .help
  | .version => .error .version
  | .value _ => .error .misuse

/-- A level, and the slot whose value is still to come. -/
abbrev Progress := Level × Option Slot

/-- Take a long option: its name and, behind an equals sign, its value. -/
def longOption (verb : Option Verb) (level : Level) (name : String) (attached : Option String) :
    Except Refusal Progress :=
  match longSwitch? verb name, attached with
  | some (.value slot), some value => (level.fill slot value).map (·, none)
  | some (.value slot), none => .ok (level, some slot)
  | some switch, none => (level.flip switch).map (·, none)
  | _, _ => .error .misuse

/-- Take the letters of short options; what follows an option with a value is its value. -/
def shortOptions (verb : Option Verb) (level : Level) : List Char → Except Refusal Progress
  | [] => .ok (level, none)
  | letter :: rest =>
    match shortSwitch? verb letter with
    | none => .error .misuse
    | some (.value slot) =>
      match rest with
      | [] => .ok (level, some slot)
      | '=' :: value => (level.fill slot (String.ofList value)).map (·, none)
      | value => (level.fill slot (String.ofList value)).map (·, none)
    | some switch => do
      shortOptions verb (← level.flip switch) rest

/-- Take an argument that is no option. -/
def freeArgument (verb : Option Verb) (level : Level) (value : String) : Except Refusal Level :=
  if level.free.length < places verb ∧ ¬value.isEmpty then
    .ok { level with free := level.free ++ [value] }
  else .error .misuse

/-- An argument, as far as it looks like an option. -/
inductive Shape where
  /-- Two dashes. -/
  | divider
  | long (name : String) (attached : Option String)
  | short (letters : List Char)
  | plain

/-- The shape of an argument. A single dash is no option. -/
def Shape.of (argument : String) : Shape :=
  match argument.toList with
  | ['-', '-'] => .divider
  | '-' :: '-' :: rest =>
    let name := rest.takeWhile (· != '=')
    .long (String.ofList name) ((rest.drop name.length).tail?.map String.ofList)
  | '-' :: letter :: rest => .short (letter :: rest)
  | _ => .plain

/-- Read the arguments of a level from its start or, with `pending`, where a value has to come. At
    the level of the program the name of a command ends it, and the rest of the arguments comes back
    with it. -/
def readLevel (verb : Option Verb) (level : Level) (pending : Option Slot) :
    List String → Except Refusal (Level × Option (String × List String))
  | [] => if pending.isSome then .error .misuse else .ok (level, none)
  | argument :: rest =>
    match Shape.of argument, pending with
    | .plain, some slot => do
      readLevel verb (← level.fill slot argument) none rest
    | .plain, none =>
      if verb.isNone then .ok (level, some (argument, rest))
      else do
        readLevel verb (← freeArgument verb level argument) none rest
    | _, some _ => .error .misuse
    | .divider, none => do
      return (← rest.foldlM (freeArgument verb) level, none)
    | .long name attached, none => do
      let (level, pending) ← longOption verb level name attached
      readLevel verb level pending rest
    | .short letters, none => do
      let (level, pending) ← shortOptions verb level letters
      readLevel verb level pending rest

/-- The action of a command whose arguments have been read. -/
def action (verb : Verb) (level : Level) : Except Refusal Action :=
  match verb, level.free with
  | .highlight, [file] => .ok (.highlight file level.language level.json)
  | .upload, [definition] => .ok (.upload definition)
  | .languages, [] => .ok .languages
  | _, _ => .error .misuse

/-- Help on a command, or on the help itself. -/
def helpOn : List String → Refusal
  | [] => .help
  | [name] => if name = "help" ∨ (Verb.ofName? name).isSome then .help else .misuse
  | _ => .misuse

end Arguments

open Arguments in
/-- Read a command line. -/
def Command.parse (arguments : List String) : Except Refusal Command := do
  match ← readLevel none {} none arguments with
  | (_, none) => throw .misuse
  | (outer, some (name, rest)) =>
    if name = "help" then throw (helpOn rest)
    match Verb.ofName? name with
    | none => throw .misuse
    | some verb =>
      let (inner, _) ← readLevel (some verb) {} none rest
      return {
        config := inner.config.or outer.config
        registry := inner.registry.or outer.registry
        action := ← Arguments.action verb inner }

end Highlight
