/-! Texts as lists of characters: lines, occurrences and sizes in encoded bytes. -/

namespace LockDiscipline.Text

/-- The lines of a text; a text has one line more than it has line breaks. -/
def lines (text : List Char) : List (List Char) :=
  text.splitOn '\n'

/-- Lines put back together with a line break between neighbours. -/
def unlines (parts : List (List Char)) : List Char :=
  ['\n'].intercalate parts

/-- The number of line breaks in a text. -/
def lineBreaks (text : List Char) : Nat :=
  text.count '\n'

/-- The rest of a text after an opening phrase, if it starts with that phrase. -/
def dropOpening? {α : Type} [BEq α] : List α → List α → Option (List α)
  | [], text => some text
  | _ :: _, [] => none
  | c :: phrase, d :: text => if c == d then dropOpening? phrase text else none

/-- The rest of a text from the first occurrence of a phrase on. -/
def findPhrase? {α : Type} [BEq α] (phrase : List α) : List α → Option (List α)
  | [] => if phrase.isEmpty then some [] else none
  | c :: text => if phrase.isPrefixOf (c :: text) then some (c :: text) else findPhrase? phrase text

/-- Whether a phrase occurs in a text. -/
def hasPhrase {α : Type} [BEq α] (phrase text : List α) : Bool :=
  (findPhrase? phrase text).isSome

/-- The number of bytes of a text in UTF-8. -/
def byteSize (text : List Char) : Nat :=
  text.foldr (fun c size => c.utf8Size + size) 0

end LockDiscipline.Text
