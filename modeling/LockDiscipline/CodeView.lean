import LockDiscipline.Text.Lines
import LockDiscipline.Text.Utf8

/-! The code view of a C++ text blanks comments and literal contents, byte for byte in place. -/

namespace LockDiscipline.CodeView

open LockDiscipline.Text

/-- The byte that ends a line. -/
abbrev newline : UInt8 := 0x0A

/-- The byte written in place of what is blanked. -/
abbrev space : UInt8 := 0x20

/-- The byte around strings. -/
abbrev doubleQuote : UInt8 := 0x22

/-- The byte around character literals and between the digits of a number. -/
abbrev singleQuote : UInt8 := 0x27

/-- The byte after the delimiter of a raw string. -/
abbrev openParen : UInt8 := 0x28

/-- The byte that may end the body of a raw string. -/
abbrev closeParen : UInt8 := 0x29

/-- The inner byte of the marks around a block comment. -/
abbrev star : UInt8 := 0x2A

/-- The byte that opens comments. -/
abbrev slash : UInt8 := 0x2F

/-- The byte that starts an escape. -/
abbrev backslash : UInt8 := 0x5C

/-- Bytes of an identifier or number: ASCII letters, digits and the underscore. -/
def isTokenByte (b : UInt8) : Bool :=
  (0x30 ≤ b && b ≤ 0x39) || (0x41 ≤ b && b ≤ 0x5A) || (0x61 ≤ b && b ≤ 0x7A) || b == 0x5F

/-- The token that ends where the text read so far ends; `before` is that text, last byte first. -/
def tokenBefore (before : List UInt8) : List UInt8 :=
  (before.takeWhile isTokenByte).reverse

/-- The encodings a character literal may name: none, `L`, `u`, `U` and `u8`. -/
def literalEncodings : List (List UInt8) :=
  [[], [0x4C], [0x75], [0x55], [0x75, 0x38]]

/-- A single quote opens a character literal unless it separates the digits of a number. -/
def opensCharacter (before : List UInt8) : Bool :=
  literalEncodings.contains (tokenBefore before)

/-- Whether the text before a double quote ends in `R`, alone or after an encoding letter. -/
def endsInRawMark : List UInt8 → Bool
  | 0x52 :: b :: _ => !isTokenByte b || b == 0x4C || b == 0x75 || b == 0x55 || b == 0x38
  | [0x52] => true
  | _ => false

/-- Bytes that cannot stand in the delimiter of a raw string. -/
def endsDelimiter (b : UInt8) : Bool :=
  b == space || b == backslash || b == closeParen || b == newline || b == doubleQuote

/-- The delimiter up to the opening parenthesis, if it has at most `room` bytes. -/
def delimiter? : (room : Nat) → List UInt8 → Option (List UInt8)
  | _, [] => none
  | room, b :: rest =>
    if b == openParen then some []
    else if endsDelimiter b then none
    else match room with
      | 0 => none
      | room + 1 => (delimiter? room rest).map (b :: ·)

/-- The longest delimiter of a raw string. -/
def delimiterLimit : Nat := 16

/-- The delimiter of the raw string that the quote between `before` and `ahead` opens, if any. -/
def rawOpening? (before ahead : List UInt8) : Option (List UInt8) :=
  if endsInRawMark before then delimiter? delimiterLimit ahead else none

/-- What the machine is reading. -/
inductive Mode where
  | code
  | lineComment
  | blockComment
  /-- Inside a string or character literal that `quote` closes. -/
  | quoted (quote : UInt8)
  /-- Inside a raw string that `)delimiter"` closes. -/
  | raw (delimiter : List UInt8)
  /-- At the quote that closes a raw string. -/
  | rawQuote
deriving DecidableEq, Repr

/-- The machine blanks `skip` bytes unseen before it goes on in `mode`. -/
structure State where
  skip : Nat
  mode : Mode
deriving DecidableEq, Repr

/-- The machine starts in code. -/
def State.initial : State := ⟨0, .code⟩

/-- What becomes of a byte, and the state after it. -/
structure Step where
  keep : Bool
  next : State
deriving DecidableEq, Repr

/-- One byte of code. -/
def stepCode (before : List UInt8) (b : UInt8) (ahead : List UInt8) : Step :=
  if b == slash && ahead.head? == some slash then ⟨false, 0, .lineComment⟩
  else if b == slash && ahead.head? == some star then ⟨false, 1, .blockComment⟩
  else if b == doubleQuote then
    match rawOpening? before ahead with
    | some delimiter => ⟨true, delimiter.length + 1, .raw delimiter⟩
    | none => ⟨true, 0, .quoted doubleQuote⟩
  else if b == singleQuote && opensCharacter before then ⟨true, 0, .quoted singleQuote⟩
  else ⟨true, 0, .code⟩

/-- One byte, given the text before it, last byte first, and the text after it. -/
def step (before : List UInt8) (state : State) (b : UInt8) (ahead : List UInt8) : Step :=
  match state with
  | ⟨skip + 1, mode⟩ => ⟨false, skip, mode⟩
  | ⟨0, .code⟩ => stepCode before b ahead
  | ⟨0, .lineComment⟩ => if b == newline then ⟨true, 0, .code⟩ else ⟨false, 0, .lineComment⟩
  | ⟨0, .blockComment⟩ =>
    if b == star && ahead.head? == some slash then ⟨false, 1, .code⟩ else ⟨false, 0, .blockComment⟩
  | ⟨0, .quoted quote⟩ =>
    -- An escape takes the next byte with it, and a literal left open ends with its line.
    if b == backslash then ⟨false, 1, .quoted quote⟩
    else if b == quote || b == newline then ⟨true, 0, .code⟩
    else ⟨false, 0, .quoted quote⟩
  | ⟨0, .raw delimiter⟩ =>
    if (closeParen :: delimiter ++ [doubleQuote]).isPrefixOf (b :: ahead) then
      ⟨false, delimiter.length, .rawQuote⟩
    else ⟨false, 0, .raw delimiter⟩
  | ⟨0, .rawQuote⟩ => ⟨true, 0, .code⟩

/-- A byte that is not kept becomes a space, unless it ends a line. -/
def Step.apply (s : Step) (b : UInt8) : UInt8 :=
  if s.keep || b == newline then b else space

/-- The bytes written from a state on. -/
def blankFrom (before : List UInt8) (state : State) : List UInt8 → List UInt8
  | [] => []
  | b :: ahead =>
    let s := step before state b ahead
    s.apply b :: blankFrom (b :: before) s.next ahead

/-- The state reached after reading `text` when `ahead` follows it. -/
def stateAfter (before : List UInt8) (state : State) : (text ahead : List UInt8) → State
  | [], _ => state
  | b :: rest, ahead =>
    stateAfter (b :: before) (step before state b (rest ++ ahead)).next rest ahead

/-- The bytes of a text with comments and literal contents blanked. -/
def blankBytes (bytes : List UInt8) : List UInt8 :=
  blankFrom [] .initial bytes

/-- The code view of a text. -/
def ofText (text : List Char) : List Char :=
  Utf8.decode (blankBytes (Utf8.encode text))

end LockDiscipline.CodeView
