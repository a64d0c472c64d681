import LockDiscipline.CodeView

/-! A line break above a text: the machine reads what follows as it would on its own. -/

namespace LockDiscipline.CodeView

open LockDiscipline.Text

/-- No token reaches up across a line break. -/
theorem tokenBefore_append_break (before above : List UInt8) :
    tokenBefore (before ++ newline :: above) = tokenBefore before := by
  -- A line break is no byte of a token, so what is taken up to it is all that is taken.
  have apart : (newline :: above).takeWhile isTokenByte = [] :=
    List.takeWhile_cons_of_neg (by decide)
  rw [tokenBefore, tokenBefore, List.takeWhile_append, apart, List.append_nil]
  split
  case isTrue whole => rw [(List.takeWhile_prefix isTokenByte).eq_of_length whole]
  case isFalse => rfl

/-- A line break above the mark of a raw string is as good as the start of the text. -/
theorem endsInRawMark_append_break (before above : List UInt8) :
    endsInRawMark (before ++ newline :: above) = endsInRawMark before := by
  -- Of the last two bytes, which hold the mark, none, one or both stand below the break.
  cases before with
  | nil => rfl
  | cons b others =>
    by_cases letter : b = 0x52
    · subst letter
      cases others <;> rfl
    · cases others <;> simp [endsInRawMark, letter]

/-- What becomes of a byte does not depend on what stands above a line break. -/
theorem step_append_break (before above : List UInt8) (state : State) (b : UInt8)
    (ahead : List UInt8) :
    step (before ++ newline :: above) state b ahead = step before state b ahead := by
  -- Only code looks back, for the token in front of a quote.
  obtain ⟨skip | skip, mode⟩ := state
  case succ => rfl
  case zero =>
    cases mode with
    | code =>
      have raw : rawOpening? (before ++ newline :: above) ahead = rawOpening? before ahead := by
        rw [rawOpening?, rawOpening?, endsInRawMark_append_break]
      have character : opensCharacter (before ++ newline :: above) = opensCharacter before := by
        rw [opensCharacter, opensCharacter, tokenBefore_append_break]
      rw [step, step, stepCode, stepCode, raw, character]
    | _ => rfl

/-- What is written does not depend on what stands above a line break. -/
theorem blankFrom_append_break (before above : List UInt8) (state : State) (bytes : List UInt8) :
    blankFrom (before ++ newline :: above) state bytes = blankFrom before state bytes := by
  -- Byte by byte; what has been read grows below the break.
  induction bytes generalizing before state with
  | nil => rfl
  | cons b ahead ih =>
    rw [blankFrom, blankFrom, step_append_break, ← List.cons_append, ih]

/-- A line break above a text stays above its code view. -/
theorem ofText_break (text : List Char) : ofText ('\n' :: text) = '\n' :: ofText text := by
  have bytes : Utf8.encode ('\n' :: text) = newline :: Utf8.encode text := rfl
  -- In code a line break is kept, and the machine goes on in code.
  have written : blankBytes (newline :: Utf8.encode text) =
      newline :: blankBytes (Utf8.encode text) :=
    congrArg (newline :: ·) (blankFrom_append_break [] [] .initial (Utf8.encode text))
  rw [ofText, bytes, written]
  rfl

end LockDiscipline.CodeView
