import LockDiscipline.Proofs.CodeView.Layout
import LockDiscipline.Proofs.CodeView.States

/-! Line endings: what a carriage return before every line break changes in the code view. -/

namespace LockDiscipline.CodeView

open LockDiscipline.Text

/-- The byte that comes before a line break where lines end with two bytes. -/
abbrev carriageReturn : UInt8 := 0x0D

/-- A text with a carriage return put before every line break. -/
def withReturns (text : List Char) : List Char :=
  text.flatMap fun c => if c = '\n' then ['\r', c] else [c]

/-- Bytes with a carriage return put before every line break. -/
def returned : List UInt8 → List UInt8
  | [] => []
  | b :: rest => if b = newline then carriageReturn :: b :: returned rest else b :: returned rest

/-- Bytes without the one right before each line break. -/
def dropBeforeBreaks : List UInt8 → List UInt8
  | [] => []
  | b :: rest =>
    if rest.head? = some newline then dropBeforeBreaks rest else b :: dropBeforeBreaks rest

/-- A line break gets a carriage return. -/
theorem returned_break (rest : List UInt8) :
    returned (newline :: rest) = carriageReturn :: newline :: returned rest := rfl

/-- Any other byte stays as it is. -/
theorem returned_cons {b : UInt8} (inLine : b ≠ newline) (rest : List UInt8) :
    returned (b :: rest) = b :: returned rest := by
  rw [returned, if_neg inLine]

/-- Bytes without line breaks stay as they are. -/
theorem returned_append {bytes : List UInt8} (inLine : newline ∉ bytes) (rest : List UInt8) :
    returned (bytes ++ rest) = bytes ++ returned rest := by
  -- Byte by byte, and none of them is a break that would get a carriage return.
  induction bytes with
  | nil => rfl
  | cons b others ih =>
    obtain ⟨notBreak, othersInLine⟩ := not_or.mp (mt List.mem_cons.mpr inLine)
    rw [List.cons_append, returned_cons (Ne.symm notBreak), ih othersInLine, List.cons_append]

/-- The line breaks of a text and of its bytes get their carriage returns alike. -/
theorem encode_withReturns (text : List Char) :
    Utf8.encode (withReturns text) = returned (Utf8.encode text) := by
  induction text with
  | nil => rfl
  | cons c rest ih =>
    have cut : withReturns (c :: rest) =
        (if c = '\n' then ['\r', c] else [c]) ++ withReturns rest := List.flatMap_cons
    rw [cut, Utf8.encode_append, ih, Utf8.encode_cons]
    by_cases atBreak : c = '\n'
    · subst atBreak
      rfl
    · -- No byte of another character is a line break.
      have inLine : newline ∉ String.utf8EncodeChar c := by
        intro member
        exact atBreak (Char.toNat_inj.mp (Utf8.toNat_of_mem_encodeChar (by decide) member))
      rw [if_neg atBreak, returned_append inLine, Utf8.encode_cons, Utf8.encode_nil,
        List.append_nil]

/-- What comes next is the same with carriage returns, line endings aside. -/
theorem head?_returned {b : UInt8} (inLine : b ≠ newline) (noReturn : b ≠ carriageReturn)
    (bytes : List UInt8) : (returned bytes).head? = some b ↔ bytes.head? = some b := by
  -- Only at a break does the first byte change, and neither byte there is the one looked for.
  cases bytes with
  | nil => rfl
  | cons c rest =>
    by_cases atBreak : c = newline
    · subst atBreak
      simp [returned_break, Ne.symm inLine, Ne.symm noReturn]
    · simp [returned_cons atBreak]

/-- No line break stands where another byte belongs before it. -/
theorem head?_returned_ne_break (bytes : List UInt8) :
    (returned bytes).head? ≠ some newline := by
  -- A break would have a carriage return in front, and other bytes are no break.
  cases bytes with
  | nil => simp [returned]
  | cons c rest =>
    by_cases atBreak : c = newline
    · subst atBreak
      exact fun same => absurd (Option.some.inj same) (by decide)
    · simp [returned_cons atBreak, atBreak]

/-- A delimiter is found or missed in the same way, since neither line ending can be in it. -/
theorem delimiter?_returned (room : Nat) (bytes : List UInt8) :
    delimiter? room (returned bytes) = delimiter? room bytes := by
  induction bytes generalizing room with
  | nil => rfl
  | cons b rest ih =>
    by_cases atBreak : b = newline
    · -- The carriage return may use up room, but the search gives up at the line break.
      subst atBreak
      rw [returned_break]
      rcases room with _ | _ | room <;> rfl
    · rw [returned_cons atBreak]
      cases room with
      | zero => rfl
      | succ room => simp only [delimiter?, ih]

/-- A phrase that holds no line break and does not end in a carriage return is found alike. -/
theorem isPrefixOf_returned {phrase : List UInt8} (inLine : newline ∉ phrase)
    (noReturn : phrase.getLast? ≠ some carriageReturn) (bytes : List UInt8) :
    phrase.isPrefixOf (returned bytes) = phrase.isPrefixOf bytes := by
  -- Byte by byte along the phrase; only at a break do the two texts differ.
  induction phrase generalizing bytes with
  | nil => simp
  | cons p others ih =>
    obtain ⟨notBreak, othersInLine⟩ := not_or.mp (mt List.mem_cons.mpr inLine)
    have othersEnd : others.getLast? ≠ some carriageReturn := by
      cases others with
      | nil => simp
      | cons q more => simpa using noReturn
    cases bytes with
    | nil => rfl
    | cons b rest =>
      by_cases atBreak : b = newline
      · -- Behind the carriage return the phrase would have to go on with the line break.
        subst atBreak
        have differs : (p == newline) = false := by simpa using Ne.symm notBreak
        have later : others.isPrefixOf (newline :: returned rest) = false ∨
            (p == carriageReturn) = false := by
          cases others with
          | nil => exact .inr (by simpa using noReturn)
          | cons q more =>
            have notNext : (q == newline) = false := by
              rw [beq_eq_false_iff_ne]
              rintro rfl
              exact othersInLine List.mem_cons_self
            exact .inl (by rw [List.isPrefixOf, notNext, Bool.false_and])
        rw [returned_break, List.isPrefixOf, List.isPrefixOf, differs, Bool.false_and]
        rcases later with none | none
        · rw [none, Bool.and_false]
        · rw [none, Bool.false_and]
      · rw [returned_cons atBreak, List.isPrefixOf, List.isPrefixOf, ih othersInLine othersEnd]

/-- Two texts that look the same from behind, as far as the machine looks back. -/
structure Alike (before other : List UInt8) : Prop where
  last : other.head? = before.head?
  mark : endsInRawMark other = endsInRawMark before
  token : tokenBefore other = tokenBefore before

/-- Whether a text ends in the mark of a raw string depends on its last two bytes. -/
theorem endsInRawMark_cons (b : UInt8) {before other : List UInt8}
    (last : other.head? = before.head?) :
    endsInRawMark (b :: other) = endsInRawMark (b :: before) := by
  -- A mark ends in one letter, and the byte before that letter is the same in both texts.
  cases before with
  | nil =>
    obtain rfl : other = [] := by simpa using last
    rfl
  | cons c rest =>
    obtain ⟨more, rfl⟩ := List.head?_eq_some_iff.mp last
    by_cases letter : b = 0x52
    · subst letter
      rfl
    · simp [endsInRawMark, letter]

/-- Texts that look the same still do so behind another byte. -/
theorem Alike.cons {before other : List UInt8} (alike : Alike before other) (b : UInt8) :
    Alike (b :: before) (b :: other) where
  -- A later byte asks for the last byte, for a mark and for a token, all known from before.
  last := rfl
  mark := endsInRawMark_cons b alike.last
  token := by rw [tokenBefore_cons, tokenBefore_cons, alike.token]

/-- All texts look the same behind a line break. -/
theorem alike_break (before other : List UInt8) : Alike (newline :: before) (newline :: other) where
  -- A break is no token and no letter of a mark, so nothing above it is seen.
  last := rfl
  mark := by
    have noMark : ∀ text, endsInRawMark (newline :: text) = false := by
      intro text
      cases text <;> rfl
    rw [noMark, noMark]
  token := by
    have noToken : isTokenByte newline = false := by decide
    simp [tokenBefore_cons, noToken]

section Steps

variable {before other ahead : List UInt8} {state : State} {b : UInt8}

/-- Within a line, a byte is read in the same way. -/
theorem step_returned (alike : Alike before other) (stands : state.StandsBefore (b :: ahead))
    (inLine : b ≠ newline) :
    step other state b (returned ahead) = step before state b ahead := by
  -- Comment marks, delimiters and closing sequences ahead are found where they were.
  have atSlash := head?_returned (b := slash) (by decide) (by decide) ahead
  have atStar := head?_returned (b := star) (by decide) (by decide) ahead
  cases stands with
  | code =>
    have raw : rawOpening? other (returned ahead) = rawOpening? before ahead := by
      rw [rawOpening?, rawOpening?, alike.mark, delimiter?_returned]
    have character : opensCharacter other = opensCharacter before := by
      rw [opensCharacter, opensCharacter, alike.token]
    -- In code the byte ahead, a delimiter and what stands before are all that is looked at.
    simp only [step, stepCode, Bool.and_eq_true, beq_iff_eq, atSlash, atStar, raw, character]
  | blockComment => simp only [step, Bool.and_eq_true, beq_iff_eq, atSlash]
  | @raw delimiter skip noBreak =>
    cases skip with
    | succ => rfl
    | zero =>
      -- The closing sequence ends in its quote, so no carriage return gets into it.
      have closing : newline ∉ closeParen :: delimiter ++ [doubleQuote] := by
        simp [noBreak, newline, closeParen, doubleQuote]
      have lastQuote : (closeParen :: delimiter ++ [doubleQuote]).getLast? ≠
          some carriageReturn := by
        rw [List.getLast?_concat]
        decide
      have found := isPrefixOf_returned closing lastQuote (b :: ahead)
      rw [returned_cons inLine] at found
      simp only [step, found]
  | @rawQuote skip =>
    cases skip with
    | succ => rfl
    | zero => rfl
  | _ => rfl

/-- A carriage return before a line break leaves the machine where it is. -/
theorem next_at_return (stands : state.StandsBefore (newline :: ahead))
    (unescaped : ¬ state.InEscape) (following : List UInt8) :
    (step other state carriageReturn following).next = state := by
  -- Nothing is skipped here, so each mode meets the carriage return as a byte of its own.
  obtain ⟨noSkip, notClosing⟩ := skip_eq_zero_at_break stands unescaped
  cases stands with
  | code => rfl
  | lineComment => rfl
  | blockComment => rfl
  | quoted isQuote => rcases isQuote with rfl | rfl <;> rfl
  | @raw delimiter skip =>
    obtain rfl : skip = 0 := noSkip
    rfl
  | rawQuote => exact absurd rfl notClosing
  | _ => exact absurd noSkip (by simp)

/-- At a line break the machine looks neither ahead nor back. -/
theorem next_at_break (before other ahead following : List UInt8) (state : State) :
    (step other state newline following).next = (step before state newline ahead).next := by
  -- Each mode decides on a break by itself, and a skip does not even look at it.
  obtain ⟨skip | skip, mode⟩ := state
  · cases mode <;> rfl
  · rfl

end Steps

/-- What was written before a byte stays, unless a line break comes next. -/
theorem dropBeforeBreaks_cons {before : List UInt8} {state : State} (v : UInt8)
    (bytes : List UInt8) :
    dropBeforeBreaks (v :: blankFrom before state (returned bytes)) =
      v :: dropBeforeBreaks (blankFrom before state (returned bytes)) := by
  -- The next byte is written as read or as a space, and neither is a line break.
  rw [dropBeforeBreaks, if_neg]
  intro first
  rcases head?_blankFrom first with same | blank
  · exact head?_returned_ne_break bytes same
  · exact absurd blank (by decide)

/-- With carriage returns the machine writes the same, and one byte more before each line break. -/
theorem dropBeforeBreaks_blankFrom {before other : List UInt8} {state : State}
    {bytes : List UInt8} (alike : Alike before other) (stands : state.StandsBefore bytes)
    (unescaped : AtBreaks (fun s => ¬ s.InEscape) before state bytes) :
    dropBeforeBreaks (blankFrom other state (returned bytes)) = blankFrom before state bytes := by
  -- Both runs are in the same state at every byte of the text without carriage returns.
  induction bytes generalizing before other state with
  | nil => rfl
  | cons b ahead ih =>
    obtain ⟨here, later⟩ := unescaped
    have onward := standsBefore_step before stands
    by_cases atBreak : b = newline
    · subst atBreak
      have kept : ∀ s : Step, s.apply newline = newline := fun s => by simp [Step.apply]
      rw [returned_break, blankFrom_cons, blankFrom_cons, blankFrom_cons,
        next_at_return stands (here rfl), next_at_break before (carriageReturn :: other) ahead,
        kept, kept, dropBeforeBreaks, if_pos List.head?_cons, dropBeforeBreaks_cons,
        ih (alike_break before _) onward later]
    · rw [returned_cons atBreak, blankFrom_cons, blankFrom_cons,
        step_returned alike stands atBreak, dropBeforeBreaks_cons, ih (alike.cons b) onward later]

/--
The code view does not depend on line endings, unless a line break is escaped.

If no literal goes on behind a backslash at the end of a line, carriage returns before the line
breaks add one byte before each line break of the code view and change nothing else.
-/
theorem ofText_withReturns (text : List Char)
    (unescaped : AtBreaks (fun s => ¬ s.InEscape) [] .initial (Utf8.encode text)) :
    dropBeforeBreaks (Utf8.encode (ofText (withReturns text))) = Utf8.encode (ofText text) := by
  -- Both views are runs over bytes, of which one has the carriage returns.
  rw [(ofText_view (withReturns text)).2, (ofText_view text).2, encode_withReturns]
  exact dropBeforeBreaks_blankFrom ⟨rfl, rfl, rfl⟩ .code unescaped

/-- Comments and a raw string over several lines, an escape and an open string. -/
theorem ofText_withReturns_of_raw_string :
    let text := "x;\nR\"a(x\n)a\" /* '\n */ // \"\n'\\'' \"open\n1'0".toList
    AtBreaks (fun s => ¬ s.InEscape) [] .initial (Utf8.encode text) ∧
      ofText (withReturns text) =
        "x;\r\nR\"    \n  \"      \n         \n'  ' \"     \n1'0".toList ∧
      dropBeforeBreaks (Utf8.encode (ofText (withReturns text))) = Utf8.encode (ofText text) := by
  intro text
  -- Line breaks stand in every kind of literal and comment, none behind a backslash.
  have unescaped : AtBreaks (fun s => ¬ s.InEscape) [] .initial (Utf8.encode text) := by
    decide +kernel
  exact ⟨unescaped, by decide +kernel, ofText_withReturns text unescaped⟩

/-- A string that goes on behind an escaped line break ends there if it has a carriage return. -/
theorem escaped_break_depends_on_returns :
    let text := "\"a\\\n\x7b\"".toList
    '\r' ∉ text ∧ ofText text = "\"  \n \"".toList ∧
      ofText (withReturns text) = "\"   \n\x7b\"".toList ∧
      dropBeforeBreaks (Utf8.encode (ofText (withReturns text))) ≠ Utf8.encode (ofText text) := by
  -- Both views are computed; they differ in the brace behind the break.
  decide +kernel

end LockDiscipline.CodeView
