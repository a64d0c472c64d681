import LockDiscipline.Toml.Scalar
import LockDiscipline.Toml.Value

/-! Reading a TOML document: keys, values, headers and comments. -/

namespace LockDiscipline.Toml

/-- The text after blanks within a line. -/
def skipSpace (text : List Char) : List Char :=
  text.dropWhile isSpace

/-- The text after a comment, if there is one; the line break stays. -/
def skipComment? (text : List Char) : Option (List Char) :=
  match text with
  | '#' :: rest =>
    -- A carriage return may only be part of the line break.
    let body := rest.takeWhile fun c => c != '\n' && c != '\r'
    if body.any isControl then none else some (rest.drop body.length)
  | _ => some text

/-- The text after blanks, comments and line breaks. -/
def skipTrivia? : (fuel : Nat) → List Char → Option (List Char)
  | 0, text => some text
  | fuel + 1, text => do
    let rest ← skipComment? (skipSpace text)
    match newline? rest with
    | some rest => skipTrivia? fuel rest
    | none => return rest

/-- Characters of a key without quotes. -/
def isBareKey (c : Char) : Bool :=
  c.isAlphanum || c == '_' || c == '-'

/-- One part of a key. -/
def simpleKey? (text : List Char) : Option (String × List Char) :=
  match text with
  | '"' :: rest => (basicString? (rest.length + 1) rest).map fun (k, rest) => (.ofList k, rest)
  | '\'' :: rest => (literalString? rest).map fun (k, rest) => (.ofList k, rest)
  | _ =>
    let bare := text.takeWhile isBareKey
    if bare.isEmpty then none else some (.ofList bare, text.drop bare.length)

/-- A key, whose parts are divided by dots. -/
def key? : (fuel : Nat) → List Char → Option (List String × List Char)
  | 0, _ => none
  | fuel + 1, text => do
    let (part, rest) ← simpleKey? text
    match skipSpace rest with
    | '.' :: rest =>
      let (parts, rest) ← key? fuel (skipSpace rest)
      return (part :: parts, rest)
    | _ => return ([part], rest)

/-- Characters of a value that is neither quoted nor bracketed. -/
def isAtomChar (c : Char) : Bool :=
  c.isAlphanum || ['_', '-', '+', '.', ':'].contains c

/-- An unquoted value: a date may be followed by a blank and a time. -/
def atomText (text : List Char) : List Char :=
  let first := text.takeWhile isAtomChar
  match text.drop first.length with
  | ' ' :: d :: rest =>
    if d.isDigit && afterDate? first == some [] then
      first ++ ' ' :: (d :: rest).takeWhile isAtomChar
    else first
  | _ => first

/-- The value that an unquoted text denotes. -/
def atom? (text : List Char) : Option Value :=
  if text == "true".toList then some (.boolean true)
  else if text == "false".toList then some (.boolean false)
  else match integer? text with
    | some value => some (.integer value)
    | none =>
      if isFloat text then some .float
      else if isDateTime text then some .dateTime
      else none

mutual

/-- A value. -/
def value? : (fuel : Nat) → List Char → Option (Value × List Char)
  | 0, _ => none
  | fuel + 1, text =>
    match text with
    | '[' :: rest => do
      let (items, rest) ← items? fuel rest
      return (.array false items, rest)
    | '\x7b' :: rest => do
      let (table, rest) ← fields? fuel ⟨.inline, []⟩ rest
      return (table.toValue, rest)
    | '"' :: _ => (string? text).map fun (s, rest) => (.string (.ofList s), rest)
    | '\'' :: _ => (string? text).map fun (s, rest) => (.string (.ofList s), rest)
    | _ => do
      let atom := atomText text
      return (← atom? atom, text.drop atom.length)

/-- The items of an array up to its closing bracket; a comma may follow the last. -/
def items? : (fuel : Nat) → List Char → Option (List Value × List Char)
  | 0, _ => none
  | fuel + 1, text => do
    match ← skipTrivia? text.length text with
    | ']' :: rest => return ([], rest)
    | text =>
      let (item, rest) ← value? fuel text
      match ← skipTrivia? rest.length rest with
      | ',' :: rest =>
        let (items, rest) ← items? fuel rest
        return (item :: items, rest)
      | ']' :: rest => return ([item], rest)
      | _ => none

/-- The fields of an inline table up to its closing brace; a comma may follow the last. -/
def fields? : (fuel : Nat) → Table → List Char → Option (Table × List Char)
  | 0, _, _ => none
  | fuel + 1, table, text => do
    match ← skipTrivia? text.length text with
    | '\x7d' :: rest => return (table, rest)
    | text =>
      let (keys, value, rest) ← assignment? fuel text
      let table ← table.addKey keys value
      match ← skipTrivia? rest.length rest with
      | ',' :: rest => fields? fuel table rest
      | '\x7d' :: rest => return (table, rest)
      | _ => none

/-- A key, an equals sign and a value. -/
def assignment? : (fuel : Nat) → List Char → Option (List String × Value × List Char)
  | 0, _ => none
  | fuel + 1, text => do
    let (keys, rest) ← key? text.length text
    let rest ← expect? '=' (skipSpace rest)
    let (value, rest) ← value? fuel (skipSpace rest)
    return (keys, value, rest)

end

/-- The document read so far, and the header under which it goes on. -/
structure Progress where
  root : Table
  header : List String

/-- A header, after its first bracket. -/
def header? (progress : Progress) (text : List Char) : Option (Progress × List Char) := do
  match text with
  | '[' :: rest =>
    let (keys, rest) ← key? rest.length (skipSpace rest)
    let rest ← expect? ']' (skipSpace rest)
    let rest ← expect? ']' rest
    return (⟨← progress.root.openElement keys, keys⟩, rest)
  | rest =>
    let (keys, rest) ← key? rest.length (skipSpace rest)
    let rest ← expect? ']' (skipSpace rest)
    return (⟨← progress.root.openTable keys, keys⟩, rest)

/-- What a line holds besides blanks and comments. -/
def expression? (progress : Progress) (text : List Char) : Option (Progress × List Char) :=
  match text with
  | '[' :: rest => header? progress rest
  | _ => do
    -- Each level of nesting uses up at least one character.
    let (keys, value, rest) ← assignment? (2 * text.length + 2) text
    return (⟨← progress.root.addUnder progress.header keys value, progress.header⟩, rest)

/-- The lines of a document. -/
def lines? : (fuel : Nat) → Progress → List Char → Option Table
  | 0, _, _ => none
  | fuel + 1, progress, text => do
    match ← skipTrivia? text.length text with
    | [] => return progress.root
    | text =>
      let (progress, rest) ← expression? progress text
      let rest ← skipComment? (skipSpace rest)
      match rest with
      | [] => return progress.root
      | _ => lines? fuel progress (← newline? rest)

/-- The text without a byte order mark. -/
def skipMark (text : List Char) : List Char :=
  if text.head? == some '\uFEFF' then text.drop 1 else text

/-- The table that a TOML document denotes, unless it is malformed. -/
def parse? (text : List Char) : Option Table :=
  let text := skipMark text
  lines? (text.length + 1) ⟨⟨.header, []⟩, []⟩ text

end LockDiscipline.Toml
