import LockDiscipline.Proofs.CodeView.Layout
import LockDiscipline.Proofs.CodeView.States

/-! A code view blanked again: the second run passes over what the first one left. -/

namespace LockDiscipline.CodeView

open LockDiscipline.Text

/--
How a second run reads what the machine wrote.

Comments are gone by then, so their place reads as code, and a raw string reads as a plain one.
-/
def Mode.again : Mode → Mode
  | .code => .code
  | .lineComment => .code
  | .blockComment => .code
  | .quoted quote => .quoted quote
  | .raw _ => .quoted doubleQuote
  | .rawQuote => .quoted doubleQuote

/-- The state of a second run at the place where the first one is in a given state. -/
def State.again (state : State) : State :=
  ⟨0, state.mode.again⟩

/-- A blank is a line break or a space. -/
theorem blankByte_eq (b : UInt8) : blankByte b = newline ∨ blankByte b = space := by
  -- Line breaks are their own blanks; all else becomes a space.
  unfold blankByte
  split
  · exact .inl ‹_›
  · exact .inr rfl

/-- What was written for a byte is left as it is by a second run. -/
structure Rereads (before shown : List UInt8) (state : State) (b : UInt8) (s : Step)
    (following : List UInt8) : Prop where
  /-- The byte is written again. -/
  same : (step shown state.again (s.apply b) following).apply (s.apply b) = s.apply b
  /-- The second run stays where the first one is. -/
  next : (step shown state.again (s.apply b) following).next = s.next.again
  /-- Where code goes on, both runs look back at the same token. -/
  tokens : s.next = .initial → tokenBefore (s.apply b :: shown) = tokenBefore (b :: before)

section Bytes

variable {before shown : List UInt8} {state next : State} {b quote : UInt8} {s : Step}
  {following : List UInt8}

/-- A blank in the place of a comment is read as code. -/
theorem rereads_comment (inCode : state.mode.again = .code) (stays : s.next.mode.again = .code)
    (blank : s.apply b = blankByte b) (apart : s.next = .initial → isTokenByte b = false) :
    Rereads before shown state b s following := by
  -- Code keeps line breaks and spaces, and neither belongs to a token.
  obtain ⟨kept, noToken⟩ : step shown .initial (blankByte b) following = ⟨true, .initial⟩ ∧
      isTokenByte (blankByte b) = false := by
    rcases blankByte_eq b with same | same
    · rw [same]
      exact ⟨rfl, rfl⟩
    · rw [same]
      exact ⟨rfl, rfl⟩
  have read : step shown state.again (s.apply b) following = ⟨true, .initial⟩ := by
    rw [blank, State.again, inCode]
    exact kept
  refine ⟨by rw [read]; rfl, by rw [read, State.again, stays]; rfl, fun ends => ?_⟩
  simp [tokenBefore_cons, blank, noToken, apart ends]

/-- A blank in a literal leaves it open. -/
theorem rereads_inside (isQuote : quote = doubleQuote ∨ quote = singleQuote)
    (inside : state.mode.again = .quoted quote) (stays : next.mode.again = .quoted quote)
    (inLine : b ≠ newline) : Rereads before shown state b ⟨false, next⟩ following := by
  -- A space is no quote and no escape, so the second run stays in the literal.
  have blank : Step.apply ⟨false, next⟩ b = space := by simp [Step.apply, inLine]
  have apart : space ≠ quote := by
    rcases isQuote with rfl | rfl
    · decide
    · decide
  have read : step shown state.again space following = ⟨false, 0, .quoted quote⟩ := by
    simp [State.again, inside, step, apart, space, backslash, newline]
  refine ⟨by rw [blank, read]; rfl, by rw [blank, read, State.again, stays], ?_⟩
  rintro rfl
  exact absurd stays (by simp [State.initial, Mode.again])

/-- The quote that closes a literal, or the line break that ends it, does so again. -/
theorem rereads_closing (isQuote : quote = doubleQuote ∨ quote = singleQuote)
    (inside : state.mode.again = .quoted quote) (ends : b = quote ∨ b = newline) :
    Rereads before shown state b ⟨true, .initial⟩ following := by
  -- A quote or a line break is neither an escape nor part of a token.
  obtain ⟨noEscape, noToken⟩ : b ≠ backslash ∧ isTokenByte b = false := by
    rcases ends with rfl | rfl
    · rcases isQuote with rfl | rfl
      · decide
      · decide
    · decide
  have read : step shown state.again b following = ⟨true, .initial⟩ := by
    simp [State.again, inside, step, noEscape, ends, State.initial]
  have kept : Step.apply ⟨true, .initial⟩ b = b := rfl
  refine ⟨by rw [kept, read]; rfl, by rw [kept, read]; rfl, fun _ => ?_⟩
  simp [kept, tokenBefore_cons, noToken]

/-- A byte of code that is kept is read in the same way again, if both runs see the same token. -/
theorem rereads_plain (noString : b ≠ doubleQuote)
    (noComment : b = slash → following.head? ≠ some slash ∧ following.head? ≠ some star)
    (noCharacter : b = singleQuote → opensCharacter before = false)
    (tokens : tokenBefore shown = tokenBefore before) :
    Rereads before shown .initial b ⟨true, .initial⟩ following := by
  -- With the same token before it, an apostrophe is still no start of a character literal.
  have read : step shown .initial b following = ⟨true, .initial⟩ := by
    refine step_plain noComment noString fun single => ?_
    rw [opensCharacter, tokens]
    exact noCharacter single
  have kept : Step.apply ⟨true, .initial⟩ b = b := rfl
  exact ⟨by rw [kept]; exact congrArg (Step.apply · b) read,
    by rw [kept]; exact congrArg Step.next read,
    fun _ => by rw [kept, tokenBefore_cons, tokenBefore_cons, tokens]⟩

end Bytes

/-- No raw string opens before a blank, a quote, a line break or the end of the text. -/
theorem rawOpening?_eq_none {before following : List UInt8}
    (stops : ∀ v, following.head? = some v → v = space ∨ v = doubleQuote ∨ v = newline) :
    rawOpening? before following = none := by
  -- Behind a mark, too, a raw string needs a parenthesis ahead, and none of these is one.
  unfold rawOpening?
  split
  · cases following with
    | nil => rfl
    | cons v rest => rcases stops v rfl with rfl | rfl | rfl <;> rfl
  · rfl

/-- What is written first in a literal is a blank, its closing quote or a line break. -/
theorem head?_blankFrom_literal {before bytes : List UInt8} {state : State} {v : UInt8}
    (inLiteral : state = ⟨0, .quoted doubleQuote⟩ ∨ state.skip ≠ 0)
    (first : (blankFrom before state bytes).head? = some v) :
    v = space ∨ v = doubleQuote ∨ v = newline := by
  -- The first byte is blanked, unless it is what ends the literal.
  cases bytes with
  | nil => exact absurd first (by simp [blankFrom])
  | cons b ahead =>
    obtain rfl := Option.some.inj first
    have blank : ∀ next, Step.apply ⟨false, next⟩ b = space ∨
        Step.apply ⟨false, next⟩ b = doubleQuote ∨ Step.apply ⟨false, next⟩ b = newline := by
      intro next
      by_cases atBreak : b = newline
      · exact .inr (.inr (by simp [Step.apply, atBreak]))
      · exact .inl (by simp [Step.apply, atBreak])
    rcases inLiteral with rfl | skips
    · simp only [step]
      split
      · exact blank _
      · split
        · rename_i ends
          simp only [Bool.or_eq_true, beq_iff_eq] at ends
          exact .inr ends
        · exact blank _
    · obtain ⟨skip | skip, mode⟩ := state
      · exact absurd rfl skips
      · exact blank _

/-- A quote that opens a string, raw or not, opens a plain one in the second run. -/
theorem rereads_string {before shown ahead : List UInt8} {next : State}
    (inLiteral : next = ⟨0, .quoted doubleQuote⟩ ∨ next.skip ≠ 0)
    (literal : next.mode.again = .quoted doubleQuote) :
    Rereads before shown .initial doubleQuote ⟨true, next⟩
      (blankFrom (doubleQuote :: before) next ahead) := by
  -- Right behind the quote nothing is left that could start a delimiter.
  have ordinary : rawOpening? shown (blankFrom (doubleQuote :: before) next ahead) = none :=
    rawOpening?_eq_none fun v first => head?_blankFrom_literal inLiteral first
  have read : step shown .initial doubleQuote (blankFrom (doubleQuote :: before) next ahead) =
      ⟨true, 0, .quoted doubleQuote⟩ := by
    simp [step, stepCode, State.initial, ordinary, doubleQuote, slash]
  have kept : Step.apply ⟨true, next⟩ doubleQuote = doubleQuote := rfl
  refine ⟨?_, ?_, ?_⟩
  · rw [kept]
    exact congrArg (Step.apply · doubleQuote) read
  · rw [kept, State.again.eq_def next, literal]
    exact congrArg Step.next read
  · rintro rfl
    exact absurd literal (by simp [State.initial, Mode.again])

/-- The states in which the machine may pass over a line break if literals end on their line. -/
def State.OnLine (state : State) : Prop :=
  ¬ state.InEscape ∧ state.mode.isRaw = false

instance : DecidablePred State.OnLine := fun _ =>
  inferInstanceAs (Decidable (_ ∧ _))

/-- One byte: what the machine writes for it is left as it is by a second run. -/
theorem rereads_step {before shown ahead : List UInt8} {state : State} {b : UInt8}
    (stands : state.StandsBefore (b :: ahead)) (onLine : b = newline → state.OnLine)
    (tokens : state = .initial → tokenBefore shown = tokenBefore before) :
    Rereads before shown state b (step before state b ahead)
      (blankFrom (b :: before) (step before state b ahead).next ahead) := by
  -- One case for each state: a comment leaves blanks, a literal the quotes around blanks.
  cases stands with
  | code =>
    have sameTokens := tokens rfl
    have reads : ReadsCode before ahead b (step before ⟨0, .code⟩ b ahead) :=
      readsCode_step before b ahead
    generalize step before ⟨0, .code⟩ b ahead = s at reads ⊢
    cases reads with
    | lineComment => exact rereads_comment rfl rfl rfl (by simp [State.initial])
    | blockComment => exact rereads_comment rfl rfl rfl (by simp [State.initial])
    | rawString => exact rereads_string (.inr (by simp)) rfl
    | string => exact rereads_string (.inl rfl) rfl
    | character opens =>
      -- The same token stands before the quote, so it opens a literal again.
      have again : opensCharacter shown = true := by
        rw [opensCharacter, sameTokens]
        exact opens
      have read : ∀ following, step shown .initial singleQuote following =
          ⟨true, 0, .quoted singleQuote⟩ := by
        intro following
        simp [step, stepCode, State.initial, again, singleQuote, doubleQuote, slash]
      exact ⟨congrArg (Step.apply · singleQuote) (read _), congrArg Step.next (read _),
        by simp [State.initial]⟩
    | plain noComment noString noCharacter =>
      refine rereads_plain noString (fun opens => ?_) noCharacter sameTokens
      -- The next byte is written as it is or blanked, so it is no comment mark either.
      obtain ⟨noSlash, noStar⟩ := noComment opens
      constructor
      · intro first
        rcases head?_blankFrom first with same | blank
        · exact noSlash same
        · exact absurd blank (by decide)
      · intro first
        rcases head?_blankFrom first with same | blank
        · exact noStar same
        · exact absurd blank (by decide)
  | commentEnd next =>
    obtain rfl : b = slash := Option.some.inj next
    exact rereads_comment rfl rfl rfl fun _ => by decide
  | lineComment =>
    by_cases atBreak : b = newline
    · subst atBreak
      exact rereads_comment rfl rfl rfl fun _ => by decide
    · have stays : step before ⟨0, .lineComment⟩ b ahead = ⟨false, 0, .lineComment⟩ := by
        simp [step, atBreak]
      rw [stays]
      exact rereads_comment rfl rfl (Step.apply_eq _ b) (by simp [State.initial])
  | commentStart =>
    exact rereads_comment rfl rfl (Step.apply_eq _ b) (by simp [step, State.initial])
  | blockComment =>
    simp only [step]
    split
    · exact rereads_comment rfl rfl (Step.apply_eq _ b) (by simp [State.initial])
    · exact rereads_comment rfl rfl (Step.apply_eq _ b) (by simp [State.initial])
  | quoted isQuote =>
    simp only [step, Bool.or_eq_true, beq_iff_eq]
    split
    · rename_i escapes
      exact rereads_inside isQuote rfl rfl (by rw [escapes]; decide)
    · split
      · rename_i ends
        exact rereads_closing isQuote rfl ends
      · rename_i inside
        exact rereads_inside isQuote rfl rfl (not_or.mp inside).2
  | escape isQuote =>
    have inLine : b ≠ newline := fun atBreak => (onLine atBreak).1 ⟨by simp, rfl⟩
    exact rereads_inside isQuote rfl rfl inLine
  | @raw _ skip =>
    have inLine : b ≠ newline := fun atBreak => absurd (onLine atBreak).2 (by simp [Mode.isRaw])
    cases skip with
    | succ skip => exact rereads_inside (.inl rfl) rfl rfl inLine
    | zero =>
      simp only [step]
      split
      · exact rereads_inside (.inl rfl) rfl rfl inLine
      · exact rereads_inside (.inl rfl) rfl rfl inLine
  | @rawQuote skip seen closes =>
    cases skip with
    | succ skip =>
      have inLine : b ≠ newline := fun atBreak => seen (by simp [atBreak])
      exact rereads_inside (.inl rfl) rfl rfl inLine
    | zero =>
      obtain rfl : b = doubleQuote := Option.some.inj closes
      exact rereads_closing (.inl rfl) rfl (.inl rfl)

/-- What the machine writes from a state on is left as it is by a second run. -/
theorem blankFrom_again {before shown : List UInt8} {state : State} {bytes : List UInt8}
    (stands : state.StandsBefore bytes) (onLine : AtBreaks State.OnLine before state bytes)
    (tokens : state = .initial → tokenBefore shown = tokenBefore before) :
    blankFrom shown state.again (blankFrom before state bytes) = blankFrom before state bytes := by
  -- The state of the first run fixes that of the second, and in code both see the same token.
  induction bytes generalizing before shown state with
  | nil => rfl
  | cons b ahead ih =>
    obtain ⟨here, later⟩ := onLine
    have reread := rereads_step stands here tokens
    rw [blankFrom_cons before, blankFrom_cons shown, reread.same, reread.next,
      ih (standsBefore_step before stands) later reread.tokens]

/--
A code view has nothing left to blank.

If every literal of a text ends on its line, the code view of its code view is that view: no line
break is passed over inside a raw string or by an escape.
-/
theorem ofText_idempotent (text : List Char)
    (onLine : AtBreaks State.OnLine [] .initial (Utf8.encode text)) :
    ofText (ofText text) = ofText text := by
  -- The first run starts in code with nothing above, and so does the second.
  have again : blankBytes (blankBytes (Utf8.encode text)) = blankBytes (Utf8.encode text) :=
    blankFrom_again .code onLine fun _ => rfl
  rw [ofText, (ofText_view text).2, again]
  rfl

/-- A raw string with quotes and comment marks in it, a number, an escape and an open string. -/
theorem ofText_idempotent_of_raw_string :
    let text := "x = R\"a(\"/*')a\" + 1'0; // \"\ny = '\\''; /* \n */ \"open \\\" //\nz/2;".toList
    AtBreaks State.OnLine [] .initial (Utf8.encode text) ∧
      ofText text =
        "x = R\"        \" + 1'0;     \ny = '  ';    \n    \"          \nz/2;".toList ∧
      ofText (ofText text) = ofText text := by
  intro text
  -- The condition on line breaks is checked by running the machine.
  have onLine : AtBreaks State.OnLine [] .initial (Utf8.encode text) := by decide +kernel
  exact ⟨onLine, by decide +kernel, ofText_idempotent text onLine⟩

end LockDiscipline.CodeView
