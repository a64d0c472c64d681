import LockDiscipline.CodeView
import LockDiscipline.Rule.Table
import LockDiscipline.Scan

/-! Source files with their code views, and the check of one file. -/

namespace LockDiscipline

open LockDiscipline.Text

/-- A file as the checker sees it. -/
structure SourceFile where
  /-- The name shown in reports. -/
  name : String
  text : List Char
  code : List Char
deriving DecidableEq, Repr

namespace SourceFile

/-- A file from its text; without blanking the text is its own code view. -/
def ofText (name : String) (text : List Char) (blank : Bool) : SourceFile :=
  ⟨name, text, if blank then CodeView.ofText text else text⟩

/-- The phrase that takes a file out of the check. -/
def ignoreDirective : String := "lockpair:ignore"

/-- How many lines from the top may hold the directive. -/
def ignoreLines : Nat := 5

/-- Whether a text asks not to be checked. -/
def isIgnored (text : List Char) : Bool :=
  ((lines text).take ignoreLines).any (hasPhrase ignoreDirective.toList)

end SourceFile

/-- What the check of one file yields. -/
structure FileReport where
  /-- Whether the file was read and not ignored. -/
  scanned : Bool
  classes : List ClassProfile
  issues : List Issue
deriving DecidableEq, Repr

/-- Scans a file and evaluates the rules on it, unless it asks to be ignored. -/
def SourceFile.check (window : LockWindow) (flavor : Flavor) (settings : RuleSettings)
    (file : SourceFile) : FileReport :=
  if isIgnored file.text then ⟨false, [], []⟩
  else
    let classes := Scan.profiles file.name window file.code
    ⟨true, classes,
      Rule.evaluate flavor settings file.name classes (.ofTexts file.text file.code)⟩

end LockDiscipline
