import LockDiscipline.Files.Glob

/-! The files to check: explicit paths as given, directories expanded by file extension. -/

namespace LockDiscipline.Discovery

open Glob

/-- The pattern for the files with an extension below a directory, unless it is malformed. -/
def pattern? (directory : Path) (extension : String) : Option (List Part) := do
  let bare := String.ofList (extension.toList.dropWhile (· == '.'))
  let wanted ← (Path.pieces ⟨"*." ++ bare⟩).mapM Part.parse?
  let above := if directory.isAbsolute then directory.pieces.drop 1 else directory.pieces
  return above.map .exactly ++ [.anyDepth] ++ wanted

/-- The files with an extension below a directory. -/
def withExtension (ws : Workspace) (directory : Path) (extension : String) : List Path :=
  match pattern? directory extension with
  | some parts =>
    (expand ws parts ⟨if directory.isAbsolute then "/" else "."⟩).filter ws.hasFile
  | none => []

/-- The files below a directory with one of the extensions, sorted and without repetition. -/
def expandDirectory (ws : Workspace) (extensions : List String) (directory : Path) : List Path :=
  ((extensions.flatMap (withExtension ws directory)).mergeSort Path.le).eraseRepsBy Path.sameAs

/-- What an explicit path stands for; a path that leads nowhere is kept. -/
def expandPath (ws : Workspace) (extensions : List String) (path : Path) : List Path :=
  if ws.hasDirectory path then expandDirectory ws extensions path else [path]

/-- The files to check: those of the explicit paths or, without any, of the source directories. -/
def files (ws : Workspace) (root : Path) (paths : List Path) (directories : List String)
    (extensions : List String) : List Path :=
  let found :=
    if paths.isEmpty then
      ((directories.map root.child).filter ws.hasDirectory).flatMap (expandDirectory ws extensions)
    else paths.flatMap (expandPath ws extensions)
  found.eraseDupsBy Path.sameAs

end LockDiscipline.Discovery
