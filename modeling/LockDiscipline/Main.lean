import LockDiscipline.Cli.Execute
import LockDiscipline.Cli.Usage

/-! The program: it loads the files that a command can reach, carries it out and prints. -/

namespace LockDiscipline.Program

/-- Names that lead from the root to a place, as an absolute path. -/
def placeText (place : List String) : String :=
  "/" ++ "/".intercalate place

/-- The names on an absolute path. -/
def placeOf (text : String) : List String :=
  (Path.pieces ⟨text⟩).filter fun piece => !Path.isIdle piece

/-- Enters what the disk holds at a place, a directory without what is below it. -/
def enter (tree : FileTree) (place : List String) : IO FileTree := do
  let found := (← IO.currentDir) / placeText place
  if ← found.isDir then return tree.put place .directory
  else if ← found.pathExists then return tree.put place (.file (← IO.FS.readBinFile found).toList)
  else return tree

/-- Enters what lies on the way along the pieces of a path. -/
def enterAlong (tree : FileTree) (place : List String) : (pieces : List String) → IO FileTree
  | [] => return tree
  | piece :: rest => do
    if Path.isIdle piece then enterAlong tree place rest
    else if piece == ".." then enterAlong tree place.dropLast rest
    else
      let inner := place ++ [piece]
      enterAlong (← enter tree inner) inner rest

/-- Enters everything below a place. -/
partial def enterBelow (tree : FileTree) (place : List String) : IO FileTree := do
  let found := (← IO.currentDir) / placeText place
  if ← found.isDir then
    let mut tree := tree
    for entry in ← found.readDir do
      let inner := place ++ [entry.fileName]
      tree ← enterBelow (← enter tree inner) inner
    return tree
  else return tree

/-- Loads what a path leads to. -/
def load (ws : Workspace) (path : Path) : IO Workspace := do
  return { ws with tree := ← enterAlong ws.tree (ws.origin path) path.pieces }

/-- Loads what a path leads to, with everything below it. -/
def loadBelow (ws : Workspace) (path : Path) : IO Workspace := do
  let ws ← load ws path
  match ws.locate path with
  | .ok place => return { ws with tree := ← enterBelow ws.tree place }
  | .error _ => return ws

/-- Loads the places at which a configuration is looked for. -/
def loadMarks (ws : Workspace) (start : Path) : IO Workspace :=
  (Config.ancestry start).foldlM (fun ws path => do
    Config.rootMarks.foldlM (fun ws name => load ws (path.child name)) (← load ws path)) ws

/-- Loads what a command on files reads and where it writes. -/
def loadFor (ws : Workspace) (arguments : FileArguments) : IO Workspace := do
  let ws ← loadMarks ws ⟨arguments.repoRoot.getD Config.defaultRoot⟩
  let ws ← arguments.output.toList.foldlM load ws
  if arguments.paths.isEmpty then
    match Config.resolve ws (Cli.overridesOf arguments false false) with
    | .ok settings => (settings.dirs.map settings.repoRoot.child).foldlM loadBelow ws
    | .error _ => return ws
  else arguments.paths.foldlM loadBelow ws

/-- The arguments of a command on files. -/
def fileArguments? : Command → Option FileArguments
  | .check arguments _ _ => some arguments
  | .analyze arguments => some arguments
  | _ => none

/-- The working directory with the files that a command can reach. -/
def loadWorkspace (command : Command) : IO Workspace := do
  let directory := placeOf (toString (← IO.currentDir))
  let ws : Workspace := ⟨FileTree.create {} directory .directory, directory⟩
  match fileArguments? command with
  | some arguments => loadFor ws arguments
  | none => return ws

/-- Writes the report that a command has left in a file. -/
def store (command : Command) (outcome : Cli.Outcome) : IO Unit := do
  if outcome.status ≠ .failure then
    if let some path := (fileArguments? command).bind (·.output) then
      if let .ok bytes := outcome.workspace.read path then
        IO.FS.writeBinFile path.text ⟨bytes.toArray⟩

/-- Carries out a command. -/
def carryOut (command : Command) : IO UInt32 := do
  let color := (← IO.getEnv "NO_COLOR").isNone
  let outcome := Cli.execute (← loadWorkspace command) color command
  store command outcome
  for line in outcome.stderr do IO.eprintln line
  IO.print outcome.stdout
  return UInt32.ofNat outcome.status.code

/-- Runs the program on its arguments. -/
def run (arguments : List String) : IO UInt32 := do
  match Cli.parse arguments with
  | .ok invocation => carryOut invocation.command
  | .error e =>
    let text := e.message Cli.versionText
    if e.isRequest then IO.print text else IO.eprint text
    return UInt32.ofNat e.code

end LockDiscipline.Program

/-- The entry point of the program. -/
def main (arguments : List String) : IO UInt32 :=
  LockDiscipline.Program.run arguments
