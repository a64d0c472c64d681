import LockDiscipline.Proofs.CodeView.Segments
import LockDiscipline.Proofs.CodeView.States

/-! Which quotes open a raw string: the token before them, and the delimiter behind them. -/

namespace LockDiscipline.CodeView

open LockDiscipline.Text

/-- The tokens that make a string raw. -/
def rawMarks : List (List UInt8) :=
  ["R", "LR", "uR", "UR", "u8R"].map fun mark => Utf8.encode mark.toList

/-- The last two letters of the longer marks. -/
def rawMarkEnds : List (List UInt8) :=
  ["LR", "uR", "UR", "8R"].map fun letters => Utf8.encode letters.toList

/-- A token that is no mark, but ends like one. -/
def EndsLikeMark (token : List UInt8) : Prop :=
  token ∉ rawMarks ∧ ∃ letters ∈ rawMarkEnds, letters <:+ token

/-- The token that ends just before a place of a text. -/
def tokenAt (bytes : List UInt8) (place : Nat) : List UInt8 :=
  tokenBefore (bytes.take place).reverse

/-- A delimiter of a given length stands at a place of a text, with its parenthesis behind it. -/
structure DelimiterAt (bytes : List UInt8) (place length : Nat) : Prop where
  fits : length ≤ 16
  inner : ∀ b ∈ (bytes.drop place).take length,
    b ∉ [openParen, space, backslash, closeParen, newline, doubleQuote]
  opens : bytes[place + length]? = some openParen

/-- The length of the delimiter behind a quote that opens a raw string, and what closes it. -/
def rawOpeningAt? (bytes : List UInt8) (quote : Nat) : Option (Nat × List UInt8) :=
  (rawOpening? (bytes.take quote).reverse (bytes.drop (quote + 1))).map fun delimiter =>
    (delimiter.length, closeParen :: delimiter ++ [doubleQuote])

/-- Apart from the `R` alone, every mark ends in two letters that tell it from other tokens. -/
theorem mark_or_endsLikeMark_iff (token : List UInt8) :
    token ∈ rawMarks ∨ EndsLikeMark token ↔
      token = [0x52] ∨ ∃ letters ∈ rawMarkEnds, letters <:+ token := by
  -- The marks are finitely many, so their endings are read off.
  have ends : ∀ mark ∈ rawMarks, mark = [0x52] ∨ ∃ letters ∈ rawMarkEnds, letters <:+ mark := by
    decide
  have alone : [0x52] ∈ rawMarks := by decide
  constructor
  · rintro (mark | ⟨-, alike⟩)
    · exact ends token mark
    · exact .inr alike
  · rintro (rfl | alike)
    · exact .inl alone
    · by_cases mark : token ∈ rawMarks
      · exact .inl mark
      · exact .inr ⟨mark, alike⟩

/-- A token ends like a mark if its last two bytes are a letter of an encoding and an `R`. -/
theorem suffix_tokenBefore_iff (before : List UInt8) :
    (∃ letters ∈ rawMarkEnds, letters <:+ tokenBefore before) ↔
      ∃ letter ∈ [0x4C, 0x75, 0x55, 0x38], [0x52, letter] <+: before.takeWhile isTokenByte := by
  have written : rawMarkEnds = [0x4C, 0x75, 0x55, 0x38].map ([·, 0x52]) := by decide
  -- The text before the quote is kept last byte first.
  have turned (letter : UInt8) : [letter, 0x52] <:+ tokenBefore before ↔
      [0x52, letter] <+: before.takeWhile isTokenByte := by
    rw [tokenBefore, ← List.reverse_prefix, List.reverse_reverse]
    rfl
  simp only [written, List.mem_map, exists_exists_and_eq_and, turned]

/-- A quote is taken to open a raw string by the last two bytes of the token before it. -/
theorem endsInRawMark_iff (before : List UInt8) :
    endsInRawMark before = true ↔
      tokenBefore before = [0x52] ∨ ∃ letters ∈ rawMarkEnds, letters <:+ tokenBefore before := by
  rw [suffix_tokenBefore_iff, tokenBefore, List.reverse_eq_iff]
  have letter : isTokenByte 0x52 = true := by decide
  unfold endsInRawMark
  split
  · -- An R with a byte before it: alone in its token, or behind a letter of an encoding.
    rename_i b rest
    cases token : isTokenByte b with
    | false => simp [letter, token]
    | true => simp [letter, token, @eq_comm _ _ b, or_assoc]
  · simp [letter]
  · -- The text does not end in an R, so neither does its last token.
    rename_i notBehind notAlone
    cases before with
    | nil => simp
    | cons b rest =>
      have other : b ≠ 0x52 := by
        rintro rfl
        cases rest with
        | nil => exact notAlone rfl
        | cons c rest => exact notBehind c rest rfl
      cases token : isTokenByte b <;> simp [token, other, other.symm]

/-- The bytes of a delimiter use up the room for it, and none of them ends it. -/
theorem inner_of_delimiter? {room : Nat} {ahead delimiter : List UInt8}
    (found : delimiter? room ahead = some delimiter) :
    delimiter.length ≤ room ∧ ∀ b ∈ delimiter, b ≠ openParen ∧ endsDelimiter b = false := by
  -- Each byte that is read passed both tests and took one unit of the room.
  fun_induction delimiter? room ahead generalizing delimiter with
  | case1 => simp at found
  | case2 => simp [← Option.some.inj found]
  | case3 => simp at found
  | case4 => simp at found
  | case5 b rest notOpen inner room ih =>
    obtain ⟨others, foundRest, rfl⟩ := Option.map_eq_some_iff.mp found
    obtain ⟨fits, innerRest⟩ := ih foundRest
    refine ⟨by simpa using fits, ?_⟩
    rw [List.forall_mem_cons]
    exact ⟨⟨by simpa using notOpen, by simpa using inner⟩, innerRest⟩

/-- A delimiter is read where one stands: short enough, with nothing in it that would end it. -/
theorem delimiter?_eq_some_iff (bytes : List UInt8) (place : Nat) (delimiter : List UInt8) :
    delimiter? delimiterLimit (bytes.drop place) = some delimiter ↔
      DelimiterAt bytes place delimiter.length ∧
        delimiter = (bytes.drop place).take delimiter.length := by
  -- The search for a delimiter and the description of one are compared both ways.
  constructor
  · intro found
    obtain ⟨-, rest, shape⟩ := delimiter?_eq_some found
    obtain ⟨fits, inner⟩ := inner_of_delimiter? found
    have taken : (bytes.drop place).take delimiter.length = delimiter := by simp [shape]
    refine ⟨⟨fits, fun b member => ?_, ?_⟩, taken.symm⟩
    · obtain ⟨notOpen, notEnd⟩ := inner b (taken ▸ member)
      simpa [endsDelimiter, notOpen, and_assoc] using notEnd
    · rw [← List.getElem?_drop, shape]
      simp
  · rintro ⟨stands, taken⟩
    have inner : ∀ b ∈ delimiter, b ≠ openParen ∧ endsDelimiter b = false := by
      intro b member
      simpa [endsDelimiter, and_assoc] using stands.inner b (taken ▸ member)
    -- What follows the place is the delimiter, its parenthesis and the rest.
    obtain ⟨inside, parenthesis⟩ := List.getElem?_eq_some_iff.mp stands.opens
    have shape : bytes.drop place =
        delimiter ++ openParen :: bytes.drop (place + delimiter.length + 1) := by
      rw [← parenthesis, ← List.drop_eq_getElem_cons inside, ← List.drop_drop]
      exact (List.take_append_drop _ _).symm.trans (congrArg (· ++ _) taken.symm)
    rw [shape]
    exact delimiter?_append stands.fits inner _

/--
A quote opens a raw string behind a mark, and behind a token that merely ends like one.

Behind the quote stands a delimiter of at most 16 bytes with its parenthesis, and the same delimiter
between a closing parenthesis and a quote closes the string.
-/
theorem rawOpeningAt?_eq_some_iff (bytes : List UInt8) (quote length : Nat) (close : List UInt8) :
    rawOpeningAt? bytes quote = some (length, close) ↔
      (tokenAt bytes quote ∈ rawMarks ∨ EndsLikeMark (tokenAt bytes quote)) ∧
        DelimiterAt bytes (quote + 1) length ∧
        close = closeParen :: (bytes.drop (quote + 1)).take length ++ [doubleQuote] := by
  -- The machine looks at two bytes, and the description at the whole token.
  have marked : endsInRawMark (bytes.take quote).reverse = true ↔
      tokenAt bytes quote ∈ rawMarks ∨ EndsLikeMark (tokenAt bytes quote) :=
    (endsInRawMark_iff _).trans (mark_or_endsLikeMark_iff _).symm
  rw [← marked, rawOpeningAt?, rawOpening?]
  constructor
  · intro opens
    obtain ⟨delimiter, found, shown⟩ := Option.map_eq_some_iff.mp opens
    split at found
    · rename_i mark
      obtain ⟨stands, taken⟩ := (delimiter?_eq_some_iff bytes (quote + 1) delimiter).mp found
      obtain ⟨rfl, rfl⟩ := Prod.mk.inj shown
      exact ⟨mark, stands, by rw [← taken]⟩
    · simp at found
  · rintro ⟨mark, stands, rfl⟩
    -- The parenthesis is a byte of the text, so all bytes before it are there.
    have size : ((bytes.drop (quote + 1)).take length).length = length := by
      have inside := (List.getElem?_eq_some_iff.mp stands.opens).1
      simp only [List.length_take, List.length_drop]
      omega
    have found : delimiter? delimiterLimit (bytes.drop (quote + 1)) =
        some ((bytes.drop (quote + 1)).take length) := by
      rw [delimiter?_eq_some_iff, size]
      exact ⟨stands, rfl⟩
    rw [if_pos mark, found, Option.map_some, size]

/-- A quote behind an identifier that ends in `LR` opens a raw string, and hides what follows it. -/
theorem identifier_opens_raw_string :
    let text := "barLR\"(\";\x7b".toList
    let bytes := Utf8.encode text
    bytes[5]? = some doubleQuote ∧ tokenAt bytes 5 = Utf8.encode "barLR".toList ∧
      tokenAt bytes 5 ∉ rawMarks ∧
      rawOpeningAt? bytes 5 = some (0, [closeParen, doubleQuote]) ∧
      ofText text = "barLR\"    ".toList := by
  -- The token before the quote is seen whole here, and the machine sees its last two bytes.
  decide +kernel

end LockDiscipline.CodeView
