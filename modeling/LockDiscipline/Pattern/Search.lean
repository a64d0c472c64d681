import LockDiscipline.Pattern.Basic

/-! Searching a text for a pattern: the leftmost match, and all matches that do not overlap. -/

namespace LockDiscipline.Pattern

/-- Tries the ends of a greedy run until one lets the continuation succeed. -/
def runFirst? {β : Type} (fits : Char → Bool) (captures : List Capture)
    (andThen : Attempt → Option β) : (before after : List Char) → Option β
  | before, [] => andThen ⟨⟨before, []⟩, captures⟩
  | before, c :: rest =>
    if fits c then
      runFirst? fits captures andThen (c :: before) rest <|> andThen ⟨⟨before, c :: rest⟩, captures⟩
    else andThen ⟨⟨before, c :: rest⟩, captures⟩

/-- Tries the ends of a reluctant run until one lets the continuation succeed. -/
def shortRunFirst? {β : Type} (fits : Char → Bool) (captures : List Capture)
    (andThen : Attempt → Option β) : (before after : List Char) → Option β
  | before, [] => andThen ⟨⟨before, []⟩, captures⟩
  | before, c :: rest =>
    andThen ⟨⟨before, c :: rest⟩, captures⟩ <|>
      if fits c then shortRunFirst? fits captures andThen (c :: before) rest else none

/-- Tries numbers of repetitions, longer ones first, until one lets the continuation succeed. -/
def manyFirst? {β : Type} (body : Attempt → (Attempt → Option β) → Option β)
    (andThen : Attempt → Option β) : (limit : Nat) → Attempt → Option β
  | 0, a => andThen a
  | limit + 1, a =>
    (body a fun e => if advances a e then manyFirst? body andThen limit e else none) <|> andThen a

/-- Tries the outcomes of a pattern in order of preference until the continuation succeeds. -/
def first? {β : Type} : Pattern → Attempt → (Attempt → Option β) → Option β
  | .empty, a, andThen => andThen a
  | .one fits, a, andThen =>
    match a.cursor.after with
    | [] => none
    | c :: rest => if fits c then andThen ⟨⟨c :: a.cursor.before, rest⟩, a.captures⟩ else none
  | .wordEdge, a, andThen => if a.cursor.atWordEdge then andThen a else none
  | .textEnd, a, andThen => if a.cursor.after.isEmpty then andThen a else none
  | .run fits, a, andThen => runFirst? fits a.captures andThen a.cursor.before a.cursor.after
  | .shortRun fits, a, andThen =>
    shortRunFirst? fits a.captures andThen a.cursor.before a.cursor.after
  | .seq first second, a, andThen => first? first a fun e => first? second e andThen
  | .or first second, a, andThen => first? first a andThen <|> first? second a andThen
  | .many body, a, andThen =>
    manyFirst? (fun e k => first? body e k) andThen a.cursor.after.length a
  | .capture label body, a, andThen =>
    first? body a fun e =>
      andThen ⟨e.cursor, ⟨label, a.cursor, a.cursor.upTo e.cursor⟩ :: e.captures⟩

/-- A match: where it starts, where it ends and what it captured. -/
structure Match where
  start : Cursor
  stop : Cursor
  captures : List Capture
deriving DecidableEq, Repr

/-- The part of a match captured under a label. -/
def Match.capture? (found : Match) (label : Label) : Option Capture :=
  found.captures.find? (·.label == label)

/-- The number of characters in a match. -/
def Match.length (found : Match) : Nat :=
  found.start.after.length - found.stop.after.length

/-- The preferred match that starts exactly at a place. -/
def matchAt? (p : Pattern) (place : Cursor) : Option Match :=
  first? p ⟨place, []⟩ fun e => some ⟨place, e.cursor, e.captures⟩

/-- The leftmost match from a place on. -/
def findFrom? (p : Pattern) (before : List Char) : (after : List Char) → Option Match
  | [] => matchAt? p ⟨before, []⟩
  | c :: rest => matchAt? p ⟨before, c :: rest⟩ <|> findFrom? p (c :: before) rest

/-- The leftmost match in a text. -/
def find? (p : Pattern) (text : List Char) : Option Match :=
  findFrom? p [] text

/-- Whether a pattern occurs in a text. -/
def occursIn (p : Pattern) (text : List Char) : Bool :=
  (find? p text).isSome

/-- The matches from a place on, leftmost first, after `skip` characters that are already taken. -/
def findAllFrom (p : Pattern) (before : List Char) (skip : Nat) : (after : List Char) → List Match
  | [] => []
  | c :: rest =>
    match skip with
    | skip + 1 => findAllFrom p (c :: before) skip rest
    | 0 =>
      match matchAt? p ⟨before, c :: rest⟩ with
      | some found => found :: findAllFrom p (c :: before) (found.length - 1) rest
      | none => findAllFrom p (c :: before) 0 rest

/-- All matches in a text that do not overlap; an empty match takes up one character. -/
def findAll (p : Pattern) (text : List Char) : List Match :=
  findAllFrom p [] 0 text

end LockDiscipline.Pattern
