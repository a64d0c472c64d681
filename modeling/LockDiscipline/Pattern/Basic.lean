import LockDiscipline.Text.CharClass

/-! Patterns over text: a match tries its alternatives in order, and the first that fits wins. -/

namespace LockDiscipline

open LockDiscipline.Text

/-- A place in a text: what stands before it, last character first, and what stands after it. -/
structure Cursor where
  before : List Char
  after : List Char
deriving DecidableEq, Repr

namespace Cursor

/-- The start of a text. -/
def start (text : List Char) : Cursor := ⟨[], text⟩

/-- Whether a possible neighbour is a word character. -/
def touchesWord (neighbour : Option Char) : Bool :=
  neighbour.any isWordChar

/-- A word edge lies between a word character and anything else, or an end of the text. -/
def atWordEdge (c : Cursor) : Bool :=
  touchesWord c.before.head? != touchesWord c.after.head?

/-- The text from one place up to a later one. -/
def upTo (first last : Cursor) : List Char :=
  first.after.take (first.after.length - last.after.length)

end Cursor

/-- The parts of a match that are asked for by name. -/
inductive Label where
  | kind
  | name
  | finish
deriving DecidableEq, Repr

/-- A named part of a match: where it starts and what it says. -/
structure Capture where
  label : Label
  start : Cursor
  text : List Char
deriving DecidableEq, Repr

/-- How far an attempt has come, with the parts captured on the way, latest first. -/
structure Attempt where
  cursor : Cursor
  captures : List Capture
deriving DecidableEq, Repr

/-- The part captured under a label. -/
def Attempt.capture? (attempt : Attempt) (label : Label) : Option Capture :=
  attempt.captures.find? (·.label == label)

/-- Patterns, with greedy and reluctant repetition. -/
inductive Pattern where
  /-- Nothing at all. -/
  | empty
  /-- One character of a class. -/
  | one (fits : Char → Bool)
  /-- A word edge. -/
  | wordEdge
  /-- The end of the text. -/
  | textEnd
  /-- As many characters of a class as possible. -/
  | run (fits : Char → Bool)
  /-- As few characters of a class as possible. -/
  | shortRun (fits : Char → Bool)
  /-- One pattern, then another. -/
  | seq (first second : Pattern)
  /-- One pattern or, failing that, another. -/
  | or (first second : Pattern)
  /-- As many repetitions of a pattern as possible. -/
  | many (body : Pattern)
  /-- A pattern whose match is captured. -/
  | capture (label : Label) (body : Pattern)

namespace Pattern

/-- An exact phrase. -/
def phrase : List Char → Pattern
  | [] => .empty
  | c :: rest => .seq (.one (· == c)) (phrase rest)

/-- An exact phrase, given as a string. -/
def word (text : String) : Pattern :=
  phrase text.toList

/-- Patterns one after the other. -/
def inOrder : List Pattern → Pattern
  | [] => .empty
  | [p] => p
  | p :: rest => .seq p (inOrder rest)

/-- The first of the words that fits. -/
def anyWord : List String → Pattern
  | [] => .one fun _ => false
  | [text] => word text
  | text :: rest => .or (word text) (anyWord rest)

/-- At least one character of a class, and as many as possible. -/
def run1 (fits : Char → Bool) : Pattern :=
  .seq (.one fits) (.run fits)

/-- At least one character of a class, and as few as possible. -/
def shortRun1 (fits : Char → Bool) : Pattern :=
  .seq (.one fits) (.shortRun fits)

/-- A pattern that may be absent, but is preferred. -/
def optional (body : Pattern) : Pattern :=
  .or body .empty

/-- Any amount of white space. -/
def blanks : Pattern :=
  .run isBlank

/-- White space, at least one character of it. -/
def gap : Pattern :=
  run1 isBlank

/-- A run of word characters. -/
def identifier : Pattern :=
  run1 isWordChar

/-- The outcomes of a greedy run from a place, longer runs first. -/
def runEnds (fits : Char → Bool) (captures : List Capture) :
    (before after : List Char) → List Attempt
  | before, [] => [⟨⟨before, []⟩, captures⟩]
  | before, c :: rest =>
    if fits c then runEnds fits captures (c :: before) rest ++ [⟨⟨before, c :: rest⟩, captures⟩]
    else [⟨⟨before, c :: rest⟩, captures⟩]

/-- The outcomes of a reluctant run from a place, shorter runs first. -/
def shortRunEnds (fits : Char → Bool) (captures : List Capture) :
    (before after : List Char) → List Attempt
  | before, [] => [⟨⟨before, []⟩, captures⟩]
  | before, c :: rest =>
    ⟨⟨before, c :: rest⟩, captures⟩ ::
      if fits c then shortRunEnds fits captures (c :: before) rest else []

/-- Whether an attempt has consumed anything since an earlier one. -/
def advances (earlier later : Attempt) : Bool :=
  later.cursor.after.length < earlier.cursor.after.length

/-- The outcomes of at most `limit` repetitions that each consume something, longer ones first. -/
def manyEnds (body : Attempt → List Attempt) : (limit : Nat) → Attempt → List Attempt
  | 0, a => [a]
  | limit + 1, a => ((body a).filter (advances a)).flatMap (manyEnds body limit) ++ [a]

/-- Every outcome of a pattern, in order of preference. -/
def ends : Pattern → Attempt → List Attempt
  | .empty, a => [a]
  | .one fits, a =>
    match a.cursor.after with
    | [] => []
    | c :: rest => if fits c then [⟨⟨c :: a.cursor.before, rest⟩, a.captures⟩] else []
  | .wordEdge, a => if a.cursor.atWordEdge then [a] else []
  | .textEnd, a => if a.cursor.after.isEmpty then [a] else []
  | .run fits, a => runEnds fits a.captures a.cursor.before a.cursor.after
  | .shortRun fits, a => shortRunEnds fits a.captures a.cursor.before a.cursor.after
  | .seq first second, a => (ends first a).flatMap (ends second)
  | .or first second, a => ends first a ++ ends second a
  | .many body, a => manyEnds (ends body) a.cursor.after.length a
  | .capture label body, a =>
    (ends body a).map fun e =>
      ⟨e.cursor, ⟨label, a.cursor, a.cursor.upTo e.cursor⟩ :: e.captures⟩

end Pattern

end LockDiscipline
