import LockDiscipline.Pattern.Search
import LockDiscipline.Text.Lines

/-! Class regions: a class or struct header with the balanced block that follows it. -/

namespace LockDiscipline

open LockDiscipline.Text

/-- The keyword that introduces a class. -/
inductive ClassKind where
  | cls
  | struct
deriving DecidableEq, Repr

/-- The spelling of a class keyword. -/
def ClassKind.keyword : ClassKind → String
  | cls => "class"
  | struct => "struct"

/-- A class found in a text, with the text cut at its borders. -/
structure Region where
  name : List Char
  kind : ClassKind
  /-- The text before the class keyword. -/
  lead : List Char
  /-- The text from the class keyword up to the opening brace. -/
  header : List Char
  /-- The text from the opening brace to the brace that closes it. -/
  block : List Char
deriving DecidableEq, Repr

namespace Region

/-- The text of a region, from the class keyword to the closing brace. -/
def body (r : Region) : List Char :=
  r.header ++ r.block

/-- The byte offset of the class keyword. -/
def start (r : Region) : Nat :=
  byteSize r.lead

/-- The byte offset of the closing brace. -/
def stop (r : Region) : Nat :=
  byteSize r.lead + byteSize r.body - 1

/-- The number of lines before the one with the class keyword. -/
def firstLine (r : Region) : Nat :=
  lineBreaks r.lead

open Pattern in
/-- A class header: keyword, name, and optionally `final` and a list of bases. -/
def headerPattern : Pattern :=
  inOrder [wordEdge, capture .kind (anyWord ["class", "struct"]), gap, capture .name identifier,
    optional (inOrder [gap, word "final"]),
    optional (inOrder [blanks, one (· == ':'), blanks, run1 fun c => c != '\x7b' && c != ';']),
    blanks, one (· == '\x7b')]

/-- Whether a text, last character first, ends in the word `enum` and white space. -/
def endsInEnum (before : List Char) : Bool :=
  match dropOpening? "enum".toList.reverse (before.dropWhile isBlank) with
  | some head => !head.head?.any fun c => isAlphanumeric c || c == '_'
  | none => false

/-- The text up to the brace that closes the block, when `depth` braces are open. -/
def closeBlock? (depth : Nat) : List Char → Option (List Char)
  | [] => none
  | '\x7b' :: rest => (closeBlock? (depth + 1) rest).map ('\x7b' :: ·)
  | '\x7d' :: rest =>
    if depth ≤ 1 then some ['\x7d'] else (closeBlock? (depth - 1) rest).map ('\x7d' :: ·)
  | c :: rest => (closeBlock? depth rest).map (c :: ·)

/-- The region that a header opens, unless it belongs to an enumeration or never closes. -/
def ofHeader? (found : Pattern.Match) : Option Region := do
  let kind ← found.capture? .kind
  let name ← found.capture? .name
  guard (!endsInEnum found.start.before)
  let block ← closeBlock? 1 found.stop.after
  return {
    name := name.text
    kind := if kind.text == ClassKind.struct.keyword.toList then .struct else .cls
    lead := found.start.before.reverse
    header := (found.start.upTo found.stop).dropLast
    block := '\x7b' :: block }

/-- The regions of a text, in the order of their headers. -/
def findAll (code : List Char) : List Region :=
  (headerPattern.findAll code).filterMap ofHeader?

end Region

end LockDiscipline
