import LockDiscipline.Text.Table.Alphabetic
import LockDiscipline.Text.Table.Mark
import LockDiscipline.Text.Table.Number

/-! Character classes of the scanner: word characters, alphanumeric characters and white space. -/

namespace LockDiscipline.Text

/-- Membership in sorted ranges; the search ends at the first range that starts too late. -/
def inRanges : List (Nat × Nat) → Nat → Bool
  | [], _ => false
  | (low, high) :: rest, code => low ≤ code && (code ≤ high || inRanges rest code)

/-- Alphabetic characters beyond ASCII. -/
def isAlphabeticBeyondAscii (code : Nat) : Bool :=
  if code < 0x1000 then inRanges alphabeticLow code
  else if code < 0x10000 then inRanges alphabeticMiddle code
  else inRanges alphabeticHigh code

/-- Combining marks beyond ASCII that are not alphabetic. -/
def isMark (code : Nat) : Bool :=
  if code < 0x10000 then inRanges markLow code else inRanges markHigh code

/-- The joiners and the connector punctuation beyond ASCII. -/
def connector : List (Nat × Nat) :=
  [(0x200C, 0x200D), (0x203F, 0x2040), (0x2054, 0x2054), (0xFE33, 0xFE34), (0xFE4D, 0xFE4F),
   (0xFF3F, 0xFF3F)]

/-- A letter or digit of ASCII, or an underscore. -/
def isAsciiWord (c : Char) : Bool :=
  c.isAlphanum || c == '_'

/-- Word characters: letters, marks, decimal digits, connectors and joiners of any script. -/
def isWordChar (c : Char) : Bool :=
  if c.toNat < 0x80 then isAsciiWord c
  else isAlphabeticBeyondAscii c.toNat || isMark c.toNat || inRanges decimalDigit c.toNat ||
    inRanges connector c.toNat

/-- Alphanumeric characters: letters and every kind of number, but no marks or connectors. -/
def isAlphanumeric (c : Char) : Bool :=
  if c.toNat < 0x80 then c.isAlphanum
  else isAlphabeticBeyondAscii c.toNat || inRanges decimalDigit c.toNat ||
    inRanges otherNumber c.toNat

/-- The characters with the `White_Space` property. -/
def blanks : List (Nat × Nat) :=
  [(0x9, 0xD), (0x20, 0x20), (0x85, 0x85), (0xA0, 0xA0), (0x1680, 0x1680), (0x2000, 0x200A),
   (0x2028, 0x2029), (0x202F, 0x202F), (0x205F, 0x205F), (0x3000, 0x3000)]

/-- White space of any script, line breaks included. -/
def isBlank (c : Char) : Bool :=
  inRanges blanks c.toNat

/-- The text without its leading white space. -/
def trimStart (text : List Char) : List Char :=
  text.dropWhile isBlank

/-- The text without its trailing white space. -/
def trimEnd (text : List Char) : List Char :=
  (text.reverse.dropWhile isBlank).reverse

/-- The text without white space at either end. -/
def trim (text : List Char) : List Char :=
  trimEnd (trimStart text)

/-- The text in which every ASCII capital is replaced by its small letter. -/
def lowerAscii (text : List Char) : List Char :=
  text.map Char.toLower

end LockDiscipline.Text
