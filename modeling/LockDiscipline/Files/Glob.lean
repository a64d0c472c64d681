import LockDiscipline.Files.Tree

/-! Wildcard patterns for names, and the expansion of patterns of names in a file tree. -/

namespace LockDiscipline.Glob

/-- One member of a character set: a character is a range of its own. -/
structure CharRange where
  low : Char
  high : Char
deriving DecidableEq, Repr

/-- One token of a pattern. -/
inductive Token where
  | char (c : Char)
  | anyChar
  | anySequence
  | within (ranges : List CharRange)
  | except (ranges : List CharRange)
deriving DecidableEq, Repr

/-- Whether a character is in one of the ranges. -/
def inSet (ranges : List CharRange) (c : Char) : Bool :=
  ranges.any fun r => r.low ≤ c && c ≤ r.high

/-- The ranges written between brackets. -/
def charRanges : List Char → List CharRange
  | low :: '-' :: high :: rest => ⟨low, high⟩ :: charRanges rest
  | c :: rest => ⟨c, c⟩ :: charRanges rest
  | [] => []

/-- Splits a bracketed set after its first character, which may itself be a closing bracket. -/
def bracketed? : List Char → Option (List Char × List Char)
  | [] => none
  | first :: rest =>
    if rest.contains ']' then
      some (first :: rest.takeWhile (· != ']'), (rest.dropWhile (· != ']')).drop 1)
    else none

/-- The tokens of a pattern for one name; stars must stand alone and brackets must close. -/
def tokens? (fuel : Nat) (text : List Char) : Option (List Token) :=
  match fuel, text with
  | _, [] => some []
  | 0, _ => none
  | fuel + 1, '?' :: rest => (tokens? fuel rest).map (.anyChar :: ·)
  | _ + 1, '*' :: '*' :: _ => none
  | fuel + 1, '*' :: rest => (tokens? fuel rest).map (.anySequence :: ·)
  | fuel + 1, '[' :: '!' :: rest => do
    let (inside, after) ← bracketed? rest
    return .except (charRanges inside) :: (← tokens? fuel after)
  | fuel + 1, '[' :: rest => do
    let (inside, after) ← bracketed? rest
    return .within (charRanges inside) :: (← tokens? fuel after)
  | fuel + 1, c :: rest => (tokens? fuel rest).map (.char c :: ·)

/-- Whether some end of a list, possibly all of it or nothing, satisfies a condition. -/
def anyEnd (accepts : List Char → Bool) : List Char → Bool
  | [] => accepts []
  | c :: rest => accepts (c :: rest) || anyEnd accepts rest

/-- Whether a name fits the tokens of a pattern. -/
def fits : List Token → List Char → Bool
  | [], name => name.isEmpty
  | .anySequence :: rest, name => anyEnd (fits rest) name
  | _ :: _, [] => false
  | .char c :: rest, d :: name => c == d && fits rest name
  | .anyChar :: rest, _ :: name => fits rest name
  | .within ranges :: rest, d :: name => inSet ranges d && fits rest name
  | .except ranges :: rest, d :: name => !inSet ranges d && fits rest name

/-- One part of a pattern, between two slashes. -/
inductive Part where
  /-- Exactly one name. -/
  | exactly (name : String)
  /-- The names that fit. -/
  | names (tokens : List Token)
  /-- Any number of directories. -/
  | anyDepth
deriving DecidableEq, Repr

namespace Part

/-- Reads a part; one without wildcards is an exact name. -/
def parse? (text : String) : Option Part :=
  if text == "**" then some .anyDepth
  else do
    let tokens ← tokens? text.length text.toList
    if tokens.all fun t => t matches .char _ then return .exactly text else return .names tokens

/-- Whether the part allows a name. -/
def allows : Part → String → Bool
  | exactly expected, name => name == expected
  | names tokens, name => fits tokens name.toList
  | anyDepth, _ => true

/-- Whether the part asks for a leading dot, so that it can mean a directory or its parent. -/
def startsWithDot : Part → Bool
  | names (.char '.' :: _) => true
  | _ => false

end Part

/-- The path of an entry below a directory; below the current directory the name is enough. -/
def childPath (directory : Path) (names : List String) : Path :=
  match names with
  | [] => directory
  | first :: rest =>
    rest.foldl Path.child (if directory.sameAs ⟨"."⟩ then ⟨first⟩ else directory.child first)

/-- The paths of the entries strictly below a directory, each with its own name and entry. -/
def descendants (ws : Workspace) (directory : Path) : List (List String × Path × Entry) :=
  match ws.locate directory with
  | .ok place => (ws.tree.below place).map fun (names, entry) =>
      (names, childPath directory names, entry)
  | .error _ => []

/-- The paths that a pattern leads to from a path. -/
def expand (ws : Workspace) : List Part → Path → List Path
  | [], path => [path]
  | .exactly name :: rest, path =>
    let next := if path.sameAs ⟨"."⟩ then ⟨name⟩ else path.child name
    -- A dot or a pair of dots is taken as it stands, wherever there is a directory.
    if (if name == "." || name == ".." then ws.hasDirectory path else ws.hasEntry next) then
      expand ws rest next
    else []
  | .names tokens :: rest, path =>
    if ws.hasDirectory path then
      ((descendants ws path).flatMap fun (names, found, _) =>
        match names with
        | [name] => if (Part.names tokens).allows name then expand ws rest found else []
        | _ => []) ++
      ([".", ".."].filter fun dots =>
          (Part.names tokens).startsWithDot && (Part.names tokens).allows dots).flatMap
        fun dots => expand ws rest (path.child dots)
    else []
  | .anyDepth :: .anyDepth :: rest, path => expand ws (.anyDepth :: rest) path
  | [.anyDepth], path =>
    ((descendants ws path).filter fun (_, _, entry) => entry == .directory).map fun (_, found, _) =>
      found
  | .anyDepth :: part :: rest, path =>
    (descendants ws path).flatMap fun (names, found, _) =>
      if names.getLast?.any part.allows then expand ws rest found else []

end LockDiscipline.Glob
