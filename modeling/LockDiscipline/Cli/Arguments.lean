import LockDiscipline.Files.Path

/-! The command line: commands, their options, and the reasons to reject arguments. -/

namespace LockDiscipline

/-- Why arguments lead to no command. -/
inductive UsageError where
  | helpAsked
  | versionAsked
  /-- No arguments at all, which is answered with help. -/
  | nothingAsked
  | missingCommand
  | unknownCommand
  | unknownArgument
  /-- A flag with a value attached. -/
  | unwantedValue
  /-- An option without its value, or a path that is empty. -/
  | badValue
  /-- An option given twice. -/
  | repeatedOption
deriving DecidableEq, Repr

/-- What both commands that look at files take. -/
structure FileArguments where
  paths : List Path := []
  repoRoot : Option String := none
  output : Option Path := none
  format : Option String := none
deriving DecidableEq, Repr

/-- The commands. -/
inductive Command where
  | check (arguments : FileArguments) (strict fixSuggestions : Bool)
  | analyze (arguments : FileArguments)
  | rules (format : Option String)
  | version
deriving DecidableEq, Repr

/-- A command with the verbosity asked for. -/
structure Invocation where
  verbosity : Nat
  command : Command
deriving DecidableEq, Repr

namespace Cli

/-- The names of the commands. -/
inductive CommandName where
  | check
  | analyze
  | rules
  | version
deriving DecidableEq, Repr

/-- The spelling of a command. -/
def CommandName.spelling : CommandName → String
  | check => "check"
  | analyze => "analyze"
  | rules => "rules"
  | version => "version"

/-- The command with a given spelling. -/
def CommandName.ofSpelling? (text : String) : Option CommandName :=
  [CommandName.check, .analyze, .rules, .version].find? (·.spelling == text)

/-- Options that take a value. -/
inductive ValueOption where
  | repoRoot
  | output
  | format
deriving DecidableEq, Repr

/-- Options that are on or off. -/
inductive Switch where
  | strict
  | fixSuggestions
deriving DecidableEq, Repr

/-- What a long option can be. -/
inductive LongOption where
  | value (option : ValueOption)
  | switch (switch : Switch)
  | verbose
  | help
deriving DecidableEq, Repr

/-- Whether a command takes paths. -/
def takesPaths : CommandName → Bool
  | .check => true
  | .analyze => true
  | _ => false

/-- The long option of a command with a given name. -/
def longOption? (command : CommandName) (name : String) : Option LongOption :=
  match name with
  | "verbose" => some .verbose
  | "help" => some .help
  | "format" => if command = .version then none else some (.value .format)
  | "repo-root" => if takesPaths command then some (.value .repoRoot) else none
  | "output" => if takesPaths command then some (.value .output) else none
  | "strict" => if command = .check then some (.switch .strict) else none
  | "fix-suggestions" => if command = .check then some (.switch .fixSuggestions) else none
  | _ => none

/-- An argument by its shape. -/
inductive Shape where
  /-- Two dashes alone, after which everything is a path. -/
  | escape
  /-- Two dashes, a name and possibly a value after an equals sign. -/
  | long (name : String) (value : Option String)
  /-- One dash and letters. -/
  | short (letters : List Char)
  | value
deriving DecidableEq, Repr

/-- The shape of an argument; a single dash is a value. -/
def shape (argument : String) : Shape :=
  match argument.toList with
  | ['-', '-'] => .escape
  | '-' :: '-' :: rest =>
    .long (String.ofList (rest.takeWhile (· != '=')))
      (if rest.contains '=' then some (String.ofList ((rest.dropWhile (· != '=')).drop 1))
       else none)
  | '-' :: letter :: rest => .short (letter :: rest)
  | _ => .value

/-- An option or a group of paths that is still being collected. -/
inductive Pending where
  | option (option : ValueOption) (value : Option String)
  | paths (values : List String)
deriving DecidableEq, Repr

/-- What has been read of the arguments of a command. -/
structure Reading where
  arguments : FileArguments := {}
  switches : List Switch := []
  verbosity : Nat := 0
  pending : Option Pending := none
deriving DecidableEq, Repr

/-- Verbosity has a highest level. -/
def verbosityLimit : Nat := 255

/-- One level more of verbosity. -/
def raise (verbosity : Nat) : Nat :=
  min (verbosity + 1) verbosityLimit

/-- A path, which cannot be empty. -/
def pathValue (value : String) : Except UsageError Path :=
  if value.isEmpty then .error .badValue else .ok ⟨value⟩

namespace Reading

/-- Sets an option that has not been set before. -/
def setOption (r : Reading) (option : ValueOption) (value : String) :
    Except UsageError Reading := do
  let a := r.arguments
  match option with
  | .repoRoot =>
    if a.repoRoot.isSome then throw .repeatedOption
    return { r with arguments := { a with repoRoot := some value } }
  | .format =>
    if a.format.isSome then throw .repeatedOption
    return { r with arguments := { a with format := some value } }
  | .output =>
    if a.output.isSome then throw .repeatedOption
    return { r with arguments := { a with output := some (← pathValue value) } }

/-- Settles what is still being collected. -/
def settle (r : Reading) : Except UsageError Reading := do
  let done := { r with pending := none }
  match r.pending with
  | none => return done
  | some (.option _ none) => throw .badValue
  | some (.option option (some value)) => done.setOption option value
  | some (.paths values) =>
    let paths ← values.mapM pathValue
    return { done with arguments := { r.arguments with paths := r.arguments.paths ++ paths } }

/-- One more path, in the group under way if there is one. -/
def addPath (r : Reading) (value : String) : Except UsageError Reading := do
  match r.pending with
  | some (.paths values) => return { r with pending := some (.paths (values ++ [value])) }
  | _ => return { ← r.settle with pending := some (.paths [value]) }

/-- Switches a flag on that has not been switched on before. -/
def turnOn (r : Reading) (switch : Switch) : Except UsageError Reading := do
  let r ← r.settle
  if r.switches.contains switch then throw .repeatedOption
  return { r with switches := switch :: r.switches }

/-- One long option. -/
def addLong (r : Reading) (command : CommandName) (name : String) (value : Option String) :
    Except UsageError Reading := do
  match longOption? command name, value with
  | none, _ => throw .unknownArgument
  | some (.value option), some value => (← r.settle).setOption option value
  | some (.value option), none => return { ← r.settle with pending := some (.option option none) }
  | some _, some _ => throw .unwantedValue
  | some (.switch switch), none => r.turnOn switch
  | some .verbose, none =>
    let r ← r.settle
    return { r with verbosity := raise r.verbosity }
  | some .help, none =>
    let _ ← r.settle
    throw .helpAsked

/-- A cluster of short options. -/
def addShort (r : Reading) : List Char → Except UsageError Reading
  | [] => .ok r
  | 'v' :: rest => do
    let r ← r.settle
    addShort { r with verbosity := raise r.verbosity } rest
  | 'h' :: _ => do
    let _ ← r.settle
    throw .helpAsked
  | _ :: _ => .error .unknownArgument

/-- An argument that is no option: the value of the option before it, or a path. -/
def addValue (r : Reading) (command : CommandName) (value : String) : Except UsageError Reading :=
  match r.pending with
  | some (.option option none) => .ok { r with pending := some (.option option (some value)) }
  | _ => if takesPaths command then r.addPath value else .error .unknownArgument

/-- After the escape every argument is a path. -/
def addEscaped (command : CommandName) (r : Reading) (value : String) :
    Except UsageError Reading :=
  if takesPaths command then r.addPath value else .error .unknownArgument

/-- The arguments of a command, one after the other. -/
def addAll (command : CommandName) : Reading → List String → Except UsageError Reading
  | r, [] => r.settle
  | r, argument :: rest => do
    match shape argument with
    | .escape => (← rest.foldlM (addEscaped command) r).settle
    | .long name value => addAll command (← r.addLong command name value) rest
    | .short letters => addAll command (← r.addShort letters) rest
    | .value => addAll command (← r.addValue command argument) rest

/-- The command that has been read. -/
def toCommand (r : Reading) : CommandName → Command
  | .check => .check r.arguments (r.switches.contains .strict) (r.switches.contains .fixSuggestions)
  | .analyze => .analyze r.arguments
  | .rules => .rules r.arguments.format
  | .version => .version

end Reading

/-- What follows the name of a command; a verbosity given here replaces the one before. -/
def readCommand (verbosity : Nat) (command : CommandName) (arguments : List String) :
    Except UsageError Invocation := do
  let r ← Reading.addAll command {} arguments
  return ⟨if 0 < r.verbosity then r.verbosity else verbosity, r.toCommand command⟩

/-- A request for help names at most one command. -/
def readHelp : List String → UsageError
  | [] => .helpAsked
  | [name] =>
    if (CommandName.ofSpelling? name).isSome || name == "help" then .helpAsked else .unknownCommand
  | _ => .unknownCommand

/-- Short options before the command. -/
def leadingShort (verbosity : Nat) : List Char → Except UsageError Nat
  | [] => .ok verbosity
  | 'v' :: rest => leadingShort (raise verbosity) rest
  | 'h' :: _ => .error .helpAsked
  | 'V' :: _ => .error .versionAsked
  | _ :: _ => .error .unknownArgument

/-- A long option before the command. -/
def leadingLong (verbosity : Nat) (name : String) (value : Option String) :
    Except UsageError Nat :=
  if !(["verbose", "help", "version"].contains name) then .error .unknownArgument
  else if value.isSome then .error .unwantedValue
  else if name == "help" then .error .helpAsked
  else if name == "version" then .error .versionAsked
  else .ok (raise verbosity)

/-- The arguments up to the command; `verbosity` counts what was asked for so far. -/
def readFrom (verbosity : Nat) : List String → Except UsageError Invocation
  | [] => .error (if verbosity = 0 then .nothingAsked else .missingCommand)
  | argument :: rest =>
    if argument == "help" then .error (readHelp rest)
    else match CommandName.ofSpelling? argument with
      | some command => readCommand verbosity command rest
      | none =>
        match shape argument with
        | .long name value => do readFrom (← leadingLong verbosity name value) rest
        | .short letters => do readFrom (← leadingShort verbosity letters) rest
        | .value => .error .unknownCommand
        | .escape =>
          -- Nothing after the escape can be a command.
          match rest with
          | [] => .error (if verbosity = 0 then .nothingAsked else .missingCommand)
          | next :: _ =>
            if next == "help" || (CommandName.ofSpelling? next).isSome then .error .unknownArgument
            else .error .unknownCommand

/-- The invocation that arguments ask for. -/
def parse (arguments : List String) : Except UsageError Invocation :=
  readFrom 0 arguments

end Cli

end LockDiscipline
