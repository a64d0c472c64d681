/-! YAML tokens, and the state of the scanner that cuts a text into them. -/

namespace LockDiscipline.Yaml

/-- How a scalar is written. -/
inductive ScalarStyle where
  | plain
  | quoted
  | block
deriving DecidableEq, Repr

/-- The tokens of a YAML text. -/
inductive Token where
  /-- A version directive that is supported. -/
  | versionDirective
  /-- A directive that declares a tag handle. -/
  | tagDirective (handle : String)
  | documentStart
  | documentEnd
  | blockSequenceStart
  | blockMappingStart
  | blockEnd
  | flowSequenceStart
  | flowSequenceEnd
  | flowMappingStart
  | flowMappingEnd
  | blockEntry
  | flowEntry
  | key
  | value
  | alias (name : String)
  | anchor (name : String)
  | tag (text : String)
  | scalar (style : ScalarStyle) (text : String)
deriving DecidableEq, Repr

/-- A place where a key without a question mark may have started. -/
structure SimpleKey where
  /-- The number of tokens before it. -/
  tokens : Nat
  /-- Whether nothing but a key can stand there. -/
  required : Bool
  line : Nat
  column : Nat
  index : Nat
deriving DecidableEq, Repr

/-- The state of the scanner. -/
structure Scanner where
  rest : List Char
  line : Nat := 0
  column : Nat := 0
  index : Nat := 0
  /-- How many brackets and braces are open. -/
  flowLevel : Nat := 0
  /-- The column of the innermost block collection, or -1. -/
  indent : Int := -1
  /-- The columns of the collections around it. -/
  indents : List Int := []
  /-- Whether a key may start here. -/
  keyAllowed : Bool := true
  /-- The possible key of each flow level, the innermost first. -/
  keys : List (Option SimpleKey) := [none]
  /-- The tokens found so far, in order. -/
  tokens : Array Token := #[]
deriving Repr

/-- A step of the scanner, which fails on a malformed text. -/
abbrev Scan := StateT Scanner Option

/-- Line breaks. -/
def isBreak (c : Char) : Bool :=
  c == '\n' || c == '\u2028' || c == '\u2029'

/-- Blanks within a line. -/
def isBlank (c : Char) : Bool :=
  c == ' ' || c == '\t'

/-- Whether a blank, a line break or the end of the text comes at a position. -/
def endsWord (text : List Char) : Bool :=
  match text with
  | [] => true
  | c :: _ => isBlank c || isBreak c

/-- Characters that can stand in a YAML text. -/
def isAllowed (c : Char) : Bool :=
  c == '\t' || c == '\n' || c == '\r' || (0x20 ≤ c.toNat && c.toNat ≤ 0x7E) || c.toNat == 0x85 ||
    (0xA0 ≤ c.toNat && c.toNat ≤ 0xFFFD) || 0x10000 ≤ c.toNat

/-- The text with every common line break written as a line feed. -/
def normalizeBreaks : List Char → List Char
  | '\r' :: '\n' :: rest => '\n' :: normalizeBreaks rest
  | '\r' :: rest => '\n' :: normalizeBreaks rest
  | '\u0085' :: rest => '\n' :: normalizeBreaks rest
  | c :: rest => c :: normalizeBreaks rest
  | [] => []

/-- Whether a text starts with a document mark. -/
def startsWithMark (text : List Char) : Bool :=
  match text with
  | '-' :: '-' :: '-' :: rest => endsWord rest
  | '.' :: '.' :: '.' :: rest => endsWord rest
  | _ => false

namespace Scan

/-- A malformed text. -/
def fail {α : Type} : Scan α :=
  fun _ => none

/-- Goes on only under a condition. -/
def require (condition : Bool) : Scan Unit :=
  if condition then pure () else fail

/-- The text that is still to be read. -/
def ahead : Scan (List Char) := do
  return (← get).rest

/-- The next character, if there is one. -/
def peek : Scan (Option Char) := do
  return (← get).rest.head?

/-- Takes one character. -/
def next : Scan Char := do
  let s ← get
  match s.rest with
  | [] => fail
  | c :: rest =>
    if isBreak c then
      set { s with rest, line := s.line + 1, column := 0, index := s.index + 1 }
    else set { s with rest, column := s.column + 1, index := s.index + 1 }
    return c

/-- Takes a number of characters. -/
def skip : (count : Nat) → Scan Unit
  | 0 => pure ()
  | count + 1 => do
    let _ ← next
    skip count

/-- Takes the characters of a class, none of them a line break. -/
def takeWhile (fits : Char → Bool) : Scan (List Char) := do
  let taken := (← get).rest.takeWhile fits
  modify fun s => { s with
    rest := s.rest.drop taken.length
    column := s.column + taken.length
    index := s.index + taken.length }
  return taken

/-- Adds a token. -/
def emit (token : Token) : Scan Unit :=
  modify fun s => { s with tokens := s.tokens.push token }

/-- Adds a token before those that follow the first `position`. -/
def emitAt (position : Nat) (token : Token) : Scan Unit :=
  modify fun s => { s with
    tokens := s.tokens.extract 0 position ++ #[token] ++ s.tokens.extract position s.tokens.size }

/-- Whether the scanner is between brackets or braces. -/
def inFlow : Scan Bool := do
  return 0 < (← get).flowLevel

/-- Says whether a key may start at the next token. -/
def allowKey (allowed : Bool) : Scan Unit :=
  modify fun s => { s with keyAllowed := allowed }

/-- Gives up the possible key of the current level, which must not be a required one. -/
def dropKey : Scan Unit := do
  let s ← get
  match s.keys with
  | some key :: others => do
    require (!key.required)
    set { s with keys := none :: others }
  | _ => pure ()

/-- Notes that a key may start here. -/
def saveKey : Scan Unit := do
  let s ← get
  if s.keyAllowed then
    dropKey
    let key : SimpleKey := {
      tokens := s.tokens.size
      required := s.flowLevel == 0 && s.indent == s.column
      line := s.line
      column := s.column
      index := s.index }
    modify fun s => { s with keys := some key :: s.keys.drop 1 }

/-- The longest key without a question mark. -/
def keyLimit : Nat := 1024

/-- Gives up the possible keys that ended with their line or are too long. -/
def dropStaleKeys : Scan Unit := do
  let s ← get
  let isStale (key : SimpleKey) := key.line < s.line || key.index + keyLimit < s.index
  require (s.keys.all fun key? => key?.all fun key => !(isStale key && key.required))
  set { s with keys := s.keys.map fun (key? : Option SimpleKey) => key?.filter (!isStale ·) }

/-- Opens a block collection if the column is further in than the one around it. -/
def rollIndent (column : Nat) (position : Nat) (token : Token) : Scan Unit := do
  let s ← get
  if s.flowLevel == 0 && s.indent < column then
    set { s with indent := (column : Int), indents := s.indent :: s.indents }
    emitAt position token

/-- Closes the block collections that are further in than a column. -/
def unrollIndent (column : Int) : Scan Unit := do
  let s ← get
  if s.flowLevel == 0 then
    let levels := s.indent :: s.indents
    let closed := levels.takeWhile (column < ·)
    match levels.drop closed.length with
    | indent :: indents =>
      let ends := Array.replicate closed.length Token.blockEnd
      set { s with indent, indents, tokens := s.tokens ++ ends }
    | [] => fail

end Scan

end LockDiscipline.Yaml
