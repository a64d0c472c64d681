import LockDiscipline.Text.Lines

/-! The scalars of TOML: strings with their escapes, numbers and date-times. -/

namespace LockDiscipline.Toml

/-- The value of a hexadecimal digit. -/
def hexValue? (c : Char) : Option Nat :=
  if '0' ≤ c ∧ c ≤ '9' then some (c.toNat - 0x30)
  else if 'a' ≤ c ∧ c ≤ 'f' then some (c.toNat - 0x57)
  else if 'A' ≤ c ∧ c ≤ 'F' then some (c.toNat - 0x37)
  else none

/-- The value of digits in a base, the most significant first. -/
def digitsValue? (base : Nat) (digits : List Char) : Option Nat :=
  digits.foldlM (fun value c => do
    let d ← hexValue? c
    if d < base then some (value * base + d) else none) 0

/-- The character with a code point given by hexadecimal digits. -/
def codePoint? (digits : List Char) : Option Char := do
  let code ← digitsValue? 16 digits
  if code.isValidChar then some (Char.ofNat code) else none

/-- Control characters other than the tab cannot stand in strings and comments. -/
def isControl (c : Char) : Bool :=
  (c.toNat < 0x20 && c != '\t') || c.toNat == 0x7F

/-- Blanks within a line. -/
def isSpace (c : Char) : Bool :=
  c == ' ' || c == '\t'

/-- Escapes of a fixed number of hexadecimal digits, by their letter. -/
def hexEscapeLength? : Char → Option Nat
  | 'x' => some 2
  | 'u' => some 4
  | 'U' => some 8
  | _ => none

/-- Escapes of one letter. -/
def letterEscape? : Char → Option Char
  | 'b' => some '\x08'
  | 't' => some '\t'
  | 'n' => some '\n'
  | 'f' => some '\x0c'
  | 'r' => some '\r'
  | 'e' => some '\x1b'
  | '"' => some '"'
  | '\\' => some '\\'
  | _ => none

/-- The character that an escape stands for, and the text after it. -/
def escape? : List Char → Option (Char × List Char)
  | [] => none
  | letter :: rest =>
    match hexEscapeLength? letter with
    | some n =>
      if rest.length < n then none else (codePoint? (rest.take n)).map fun c => (c, rest.drop n)
    | none => (letterEscape? letter).map fun c => (c, rest)

/-- The rest of a string after its opening quote; every step uses up some text. -/
def basicString? : (fuel : Nat) → List Char → Option (List Char × List Char)
  | 0, _ => none
  | _ + 1, [] => none
  | fuel + 1, c :: rest =>
    if c == '"' then some ([], rest)
    else if c == '\\' then do
      let (escaped, rest) ← escape? rest
      let (body, rest) ← basicString? fuel rest
      return (escaped :: body, rest)
    else if isControl c then none
    else do
      let (body, rest) ← basicString? fuel rest
      return (c :: body, rest)

/-- The rest of a literal string after its opening quote. -/
def literalString? (text : List Char) : Option (List Char × List Char) :=
  let body := text.takeWhile (· != '\'')
  match text.dropWhile (· != '\'') with
  | [] => none
  | _ :: rest => if body.any isControl then none else some (body, rest)

/-- The text after a line break, if it starts with one. -/
def newline? : List Char → Option (List Char)
  | '\n' :: rest => some rest
  | '\r' :: '\n' :: rest => some rest
  | _ => none

/-- The text after a line break that follows blanks, and after all blanks and lines from there. -/
def lineContinuation? (text : List Char) : Option (List Char) := do
  let rest ← newline? (text.dropWhile isSpace)
  return rest.dropWhile fun c => isSpace c || c == '\n' || c == '\r'

/-- The rest of a string over several lines; `quote` is tripled around it. -/
def longString? (quote : Char) (escapes : Bool) :
    (fuel : Nat) → List Char → Option (List Char × List Char)
  | 0, _ => none
  | _ + 1, [] => none
  | fuel + 1, c :: rest =>
    if c == quote then
      let quotes := (c :: rest).takeWhile (· == quote)
      if 3 ≤ quotes.length then
        -- Up to two quotes may stand right before the closing three.
        if 5 < quotes.length then none
        else some (List.replicate (quotes.length - 3) quote, (c :: rest).drop quotes.length)
      else do
        let (body, rest) ← longString? quote escapes fuel rest
        return (c :: body, rest)
    else match newline? (c :: rest) with
    | some rest => do
      let (body, rest) ← longString? quote escapes fuel rest
      return ('\n' :: body, rest)
    | none =>
      if escapes && c == '\\' then
        match lineContinuation? rest with
        | some rest => longString? quote escapes fuel rest
        | none => do
          let (escaped, rest) ← escape? rest
          let (body, rest) ← longString? quote escapes fuel rest
          return (escaped :: body, rest)
      else if isControl c then none
      else do
        let (body, rest) ← longString? quote escapes fuel rest
        return (c :: body, rest)

/-- A string of any form; the line break right after three opening quotes is not part of it. -/
def string? (text : List Char) : Option (List Char × List Char) :=
  match text with
  | '"' :: '"' :: '"' :: rest =>
    longString? '"' true (rest.length + 1) ((newline? rest).getD rest)
  | '\'' :: '\'' :: '\'' :: rest =>
    longString? '\'' false (rest.length + 1) ((newline? rest).getD rest)
  | '"' :: rest => basicString? (rest.length + 1) rest
  | '\'' :: rest => literalString? rest
  | _ => none

/-- Digits in which underscores stand only between two digits. -/
def plainDigits? (isDigit : Char → Bool) : List Char → Option (List Char)
  | [] => none
  | [c] => if isDigit c then some [c] else none
  | c :: '_' :: rest => if isDigit c then (plainDigits? isDigit rest).map (c :: ·) else none
  | c :: rest => if isDigit c then (plainDigits? isDigit rest).map (c :: ·) else none

/-- A number without its sign, and whether the sign is a minus. -/
def unsigned : List Char → Bool × List Char
  | '+' :: rest => (false, rest)
  | '-' :: rest => (true, rest)
  | text => (false, text)

/-- The digits of a decimal number without needless zeros in front. -/
def decimalDigits? (text : List Char) : Option (List Char) := do
  let digits ← plainDigits? Char.isDigit text
  if digits.head? == some '0' && digits.length != 1 then none else some digits

/-- The digits of a number with a base prefix. -/
def prefixedInteger? (base : Nat) (text : List Char) : Option Int := do
  let digits ← plainDigits? (fun c => (hexValue? c).any (· < base)) text
  (digitsValue? base digits).map Int.ofNat

/-- The integers that can be held at all: those of 128 bits, with a sign or without. -/
def inIntegerRange (value : Int) : Bool :=
  -0x80000000000000000000000000000000 ≤ value && value < 0x100000000000000000000000000000000

/-- An integer in one of the four bases. -/
def integer? (text : List Char) : Option Int := do
  let value ← match text with
    | '0' :: 'x' :: rest => prefixedInteger? 16 rest
    | '0' :: 'o' :: rest => prefixedInteger? 8 rest
    | '0' :: 'b' :: rest => prefixedInteger? 2 rest
    | _ => do
      let (negative, rest) := unsigned text
      let value ← digitsValue? 10 (← decimalDigits? rest)
      pure (if negative then -(value : Int) else value)
  if inIntegerRange value then some value else none

/-- Whether a text is an exponent after its letter. -/
def isExponent (text : List Char) : Bool :=
  (plainDigits? Char.isDigit (unsigned text).2).isSome

/-- Whether a text is a float: a fraction, an exponent, both, or a special value. -/
def isFloat (text : List Char) : Bool :=
  let (_, rest) := unsigned text
  if rest == "inf".toList || rest == "nan".toList then true
  else
    let isMark c := c == 'e' || c == 'E'
    let mantissa := rest.takeWhile fun c => !isMark c
    let exponent := rest.dropWhile fun c => !isMark c
    let whole := mantissa.takeWhile (· != '.')
    let fraction := mantissa.dropWhile (· != '.')
    (decimalDigits? whole).isSome &&
      (fraction.isEmpty || (plainDigits? Char.isDigit (fraction.drop 1)).isSome) &&
      (exponent.isEmpty || isExponent (exponent.drop 1)) &&
      !(fraction.isEmpty && exponent.isEmpty)

/-- A number of exactly `count` digits within bounds, and the text after it. -/
def field? (count low high : Nat) (text : List Char) : Option (Nat × List Char) := do
  let digits := text.take count
  if digits.length == count && digits.all Char.isDigit then
    let value ← digitsValue? 10 digits
    if low ≤ value ∧ value ≤ high then some (value, text.drop count) else none
  else none

/-- The text after one expected character. -/
def expect? (c : Char) : List Char → Option (List Char)
  | d :: rest => if c == d then some rest else none
  | [] => none

/-- The days of a month. -/
def daysInMonth (year month : Nat) : Nat :=
  if month == 2 then
    if (year % 4 == 0 && year % 100 != 0) || year % 400 == 0 then 29 else 28
  else if [4, 6, 9, 11].contains month then 30
  else 31

/-- The text after a date. -/
def afterDate? (text : List Char) : Option (List Char) := do
  let (year, rest) ← field? 4 0 9999 text
  let (month, rest) ← field? 2 1 12 (← expect? '-' rest)
  let (_, rest) ← field? 2 1 (daysInMonth year month) (← expect? '-' rest)
  return rest

/-- The text after the fraction of a second, if there is one. -/
def afterFraction? (text : List Char) : Option (List Char) :=
  match text with
  | '.' :: rest => if (rest.takeWhile Char.isDigit).isEmpty then none
    else some (rest.dropWhile Char.isDigit)
  | _ => some text

/-- The text after a time of day; seconds may be left out. -/
def afterTime? (text : List Char) : Option (List Char) := do
  let (_, rest) ← field? 2 0 23 text
  let (_, rest) ← field? 2 0 59 (← expect? ':' rest)
  match rest with
  | ':' :: rest =>
    let (_, rest) ← field? 2 0 60 rest
    afterFraction? rest
  | _ => return rest

/-- The text after an offset from universal time. -/
def afterOffset? (text : List Char) : Option (List Char) :=
  match text with
  | [] => some []
  | c :: rest =>
    if c == 'Z' || c == 'z' then some rest
    else if c == '+' || c == '-' then do
      let (_, rest) ← field? 2 0 23 rest
      let (_, rest) ← field? 2 0 59 (← expect? ':' rest)
      return rest
    else none

/-- Whether a text is a date, a time, or both with an optional offset. -/
def isDateTime (text : List Char) : Bool :=
  afterTime? text == some [] ||
    match afterDate? text with
    | some [] => true
    | some (c :: rest) =>
      (c == 'T' || c == 't' || c == ' ') && ((afterTime? rest).bind afterOffset?) == some []
    | none => false

end LockDiscipline.Toml
