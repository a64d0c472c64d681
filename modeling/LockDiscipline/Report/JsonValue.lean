/-! JSON values and their printed form, indented by two spaces for each level. -/

namespace LockDiscipline

/-- The JSON values that reports are made of; the fields of an object keep their order. -/
inductive JsonValue where
  | string (text : String)
  | number (value : Nat)
  | array (items : List JsonValue)
  | object (fields : List (String × JsonValue))
deriving Repr

namespace JsonValue

/-- The hexadecimal digit of a value below 16. -/
def hexDigit (value : Nat) : Char :=
  if value < 10 then Char.ofNat (0x30 + value) else Char.ofNat (0x57 + value)

/-- A character inside a string: quotes, backslashes and control characters are escaped. -/
def escapeChar (c : Char) : List Char :=
  if c == '"' then ['\\', '"']
  else if c == '\\' then ['\\', '\\']
  else if c == '\n' then ['\\', 'n']
  else if c == '\r' then ['\\', 'r']
  else if c == '\t' then ['\\', 't']
  else if c == '\x08' then ['\\', 'b']
  else if c == '\x0c' then ['\\', 'f']
  else if c.toNat < 0x20 then
    ['\\', 'u', '0', '0', hexDigit (c.toNat / 16), hexDigit (c.toNat % 16)]
  else [c]

/-- A string in quotes. -/
def quote (text : String) : List Char :=
  '"' :: text.toList.flatMap escapeChar ++ ['"']

/-- A line break and the indentation of a level. -/
def newLine (level : Nat) : List Char :=
  '\n' :: List.replicate (2 * level) ' '

mutual

/-- The printed form of a value at a level of indentation. -/
def print (level : Nat) : JsonValue → List Char
  | .string text => quote text
  | .number value => (toString value).toList
  | .array [] => ['[', ']']
  | .array (item :: rest) =>
    '[' :: newLine (level + 1) ++ print (level + 1) item ++ printItems (level + 1) rest ++
      newLine level ++ [']']
  | .object [] => ['\x7b', '\x7d']
  | .object ((key, value) :: rest) =>
    '\x7b' :: newLine (level + 1) ++ quote key ++ [':', ' '] ++ print (level + 1) value ++
      printFields (level + 1) rest ++ newLine level ++ ['\x7d']

/-- The items of an array after the first. -/
def printItems (level : Nat) : List JsonValue → List Char
  | [] => []
  | item :: rest => ',' :: newLine level ++ print level item ++ printItems level rest

/-- The fields of an object after the first. -/
def printFields (level : Nat) : List (String × JsonValue) → List Char
  | [] => []
  | (key, value) :: rest =>
    ',' :: newLine level ++ quote key ++ [':', ' '] ++ print level value ++ printFields level rest

end

/-- The printed form of a document. -/
def pretty (value : JsonValue) : String :=
  String.ofList (print 0 value)

/-- An array of strings. -/
def strings (items : List String) : JsonValue :=
  .array (items.map .string)

end JsonValue

end LockDiscipline
