import LockDiscipline.Config.Configuration
import LockDiscipline.Files.Tree
import LockDiscipline.Report.Format

/-! The settings in effect: the command line before the configuration file before the defaults. -/

namespace LockDiscipline

/-- Settings given on the command line. -/
structure Overrides where
  repoRoot : Option String := none
  strict : Option Bool := none
  fixSuggestions : Option Bool := none
  format : Option String := none
deriving DecidableEq, Repr

/-- The settings in effect. -/
structure Effective where
  repoRoot : Path
  /-- The configuration file that was read. -/
  source : Option Path
  dirs : List String
  extensions : List String
  strict : Bool
  fixSuggestions : Bool
  format : OutputFormat
  stripComments : Bool
  methodWindow : UInt64
  rules : RuleSettings
deriving DecidableEq, Repr

namespace Config

/-- The formats of a configuration file. -/
inductive FileFormat where
  | toml
  | yaml
deriving DecidableEq, Repr

/-- The names of configuration files, the first one found counts. -/
def fileNames : List (String × FileFormat) :=
  [("lockpair.toml", .toml), ("lockpair.yaml", .yaml), ("lockpair.yml", .yaml)]

/-- The names that mark the root of a repository. -/
def rootMarks : List String :=
  fileNames.map (·.1) ++ [".git"]

/-- Whether a directory is marked as the root of a repository. -/
def isRoot (ws : Workspace) (directory : Path) : Bool :=
  rootMarks.any fun name => ws.hasEntry (directory.child name)

/-- A path and the paths above it as written, at most `limit` of them. -/
def lineage : (limit : Nat) → Path → List Path
  | 0, _ => []
  | limit + 1, path =>
    path :: match path.parent? with
      | some above => lineage limit above
      | none => []

/-- A path and all the paths above it as written. -/
def ancestry (start : Path) : List Path :=
  -- Every path above has a piece less, the root apart.
  lineage (start.pieces.length + 1) start

/-- The nearest marked path at or above a start, or the start itself if there is none. -/
def detectRoot (ws : Workspace) (start : Path) : Path :=
  ((ancestry start).find? (isRoot ws)).getD start

/-- Where the search for the root starts by default. -/
def defaultRoot : String := "."

/-- The configuration in a text. -/
def parse (format : FileFormat) (path : Path) (text : List Char) :
    Except ConfigError Configuration :=
  match format with
  | .toml => match Toml.configuration? text with
    | some configuration => .ok configuration
    | none => .error (.invalidToml path.text)
  | .yaml => match Yaml.configuration? text with
    | some configuration => .ok configuration
    | none => .error (.invalidYaml path.text)

/-- The configuration file of a directory, and what it says. -/
def load (ws : Workspace) (root : Path) :
    Except ConfigError (Option Path × Configuration) :=
  match fileNames.find? fun (name, _) => ws.hasEntry (root.child name) with
  | none => .ok (none, {})
  | some (name, format) =>
    let path := root.child name
    match ws.readText path with
    | .error cause => .error (.unreadable path.text cause)
    | .ok text => (parse format path text).map fun configuration => (some path, configuration)

/-- The directories searched by default. -/
def defaultDirs : List String := ["src", "include"]

/-- The extensions searched by default. -/
def defaultExtensions : List String := ["cpp", "cc", "cxx", "h", "hh", "hpp"]

/-- The method window by default. -/
def defaultMethodWindow : UInt64 := 20

/-- The settings in effect in a workspace. -/
def resolve (ws : Workspace) (overrides : Overrides) : Except ConfigError Effective := do
  let repoRoot := detectRoot ws ⟨overrides.repoRoot.getD defaultRoot⟩
  let (source, file) ← load ws repoRoot
  let format ← OutputFormat.parse ((overrides.format <|> file.format).getD OutputFormat.human.name)
  let rules ← RuleSettings.ofEntries file.rules
  return {
    repoRoot
    source
    dirs := file.dirs.getD defaultDirs
    extensions := file.extensions.getD defaultExtensions
    strict := (overrides.strict <|> file.strict).getD false
    fixSuggestions := (overrides.fixSuggestions <|> file.fixSuggestions).getD false
    format
    stripComments := file.stripComments.getD true
    methodWindow := file.methodWindow.getD defaultMethodWindow
    rules }

end Config

end LockDiscipline
