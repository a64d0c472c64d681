import LockDiscipline.CodeView

/-! The states of the machine: what each of them says about the bytes ahead, step by step. -/

namespace LockDiscipline.CodeView

/-- Tokens grow by bytes that belong to tokens and end at any other byte. -/
theorem tokenBefore_cons (b : UInt8) (before : List UInt8) :
    tokenBefore (b :: before) = if isTokenByte b then tokenBefore before ++ [b] else [] := by
  -- A token is taken from the end of what was read, byte by byte.
  cases token : isTokenByte b <;> simp [tokenBefore, token]

/-- A byte that is written is the byte that was read, or a space. -/
theorem head?_blankFrom {before : List UInt8} {state : State} {bytes : List UInt8} {v : UInt8}
    (first : (blankFrom before state bytes).head? = some v) :
    bytes.head? = some v ∨ v = space := by
  -- Only the first step matters, and it either keeps or blanks its byte.
  cases bytes with
  | nil => exact absurd first (by simp [blankFrom])
  | cons b ahead =>
    obtain rfl := Option.some.inj first
    unfold Step.apply
    split
    · exact .inl rfl
    · exact .inr rfl

/-- What a byte of code can do: one case for each way to go on. -/
inductive ReadsCode (before ahead : List UInt8) : UInt8 → Step → Prop where
  | lineComment (next : ahead.head? = some slash) :
      ReadsCode before ahead slash ⟨false, 0, .lineComment⟩
  | blockComment (next : ahead.head? = some star) :
      ReadsCode before ahead slash ⟨false, 1, .blockComment⟩
  | rawString {delimiter : List UInt8} (opens : rawOpening? before ahead = some delimiter) :
      ReadsCode before ahead doubleQuote ⟨true, delimiter.length + 1, .raw delimiter⟩
  | string (ordinary : rawOpening? before ahead = none) :
      ReadsCode before ahead doubleQuote ⟨true, 0, .quoted doubleQuote⟩
  | character (opens : opensCharacter before = true) :
      ReadsCode before ahead singleQuote ⟨true, 0, .quoted singleQuote⟩
  | plain {b : UInt8}
      (noComment : b = slash → ahead.head? ≠ some slash ∧ ahead.head? ≠ some star)
      (noString : b ≠ doubleQuote) (noCharacter : b = singleQuote → opensCharacter before = false) :
      ReadsCode before ahead b ⟨true, .initial⟩

/-- In code the machine does one of the things that a byte of code can do. -/
theorem readsCode_step (before : List UInt8) (b : UInt8) (ahead : List UInt8) :
    ReadsCode before ahead b (step before .initial b ahead) := by
  simp only [step, State.initial, stepCode, Bool.and_eq_true, beq_iff_eq]
  -- The tests are made in this order, and each later one knows that the earlier ones failed.
  split
  · rename_i opens
    obtain ⟨rfl, next⟩ := opens
    exact .lineComment next
  · rename_i noLine
    split
    · rename_i opens
      obtain ⟨rfl, next⟩ := opens
      exact .blockComment next
    · rename_i noBlock
      split
      · rename_i quote
        subst quote
        cases opens : rawOpening? before ahead with
        | none => exact .string opens
        | some delimiter => exact .rawString opens
      · rename_i noString
        split
        · rename_i opens
          obtain ⟨rfl, character⟩ := opens
          exact .character character
        · rename_i noCharacter
          refine .plain ?_ noString ?_
          · rintro rfl
            exact ⟨fun next => noLine ⟨rfl, next⟩, fun next => noBlock ⟨rfl, next⟩⟩
          · rintro rfl
            simpa using noCharacter

/-- A byte that opens nothing is kept, and the machine stays in code. -/
theorem step_plain {before ahead : List UInt8} {b : UInt8}
    (noComment : b = slash → ahead.head? ≠ some slash ∧ ahead.head? ≠ some star)
    (noString : b ≠ doubleQuote) (noCharacter : b = singleQuote → opensCharacter before = false) :
    step before .initial b ahead = ⟨true, .initial⟩ := by
  -- What opens a comment or a literal is excluded by one hypothesis each.
  have noLine : ¬ (b = slash ∧ ahead.head? = some slash) := fun ⟨opens, next⟩ =>
    (noComment opens).1 next
  have noBlock : ¬ (b = slash ∧ ahead.head? = some star) := fun ⟨opens, next⟩ =>
    (noComment opens).2 next
  have noLiteral : ¬ (b = singleQuote ∧ opensCharacter before = true) := by
    rintro ⟨opens, character⟩
    simp [noCharacter opens] at character
  simp only [step, State.initial, stepCode, Bool.and_eq_true, beq_iff_eq, if_neg noLine,
    if_neg noBlock, if_neg noString, if_neg noLiteral]

/-- The delimiter of a raw string stands before its parenthesis and holds no line break. -/
theorem delimiter?_eq_some {room : Nat} {ahead delimiter : List UInt8}
    (found : delimiter? room ahead = some delimiter) :
    newline ∉ delimiter ∧ ∃ rest, ahead = delimiter ++ openParen :: rest := by
  -- Byte by byte, the search stops at the parenthesis and gives up at a line break.
  fun_induction delimiter? room ahead generalizing delimiter with
  | case1 => simp at found
  | case2 room b rest opens =>
    obtain rfl : b = openParen := by simpa using opens
    obtain rfl := Option.some.inj found
    exact ⟨List.not_mem_nil, rest, rfl⟩
  | case3 => simp at found
  | case4 => simp at found
  | case5 b rest notOpen inner room ih =>
    obtain ⟨others, foundRest, rfl⟩ := Option.map_eq_some_iff.mp found
    obtain ⟨inLine, tail, rfl⟩ := ih foundRest
    have notBreak : newline ≠ b := by
      rintro rfl
      exact absurd inner (by decide)
    exact ⟨by simp [notBreak, inLine], tail, rfl⟩

/-- A quote that opens a raw string has the delimiter ahead, up to its parenthesis. -/
theorem rawOpening?_eq_some {before ahead delimiter : List UInt8}
    (opens : rawOpening? before ahead = some delimiter) :
    newline ∉ delimiter ∧ ∃ rest, ahead = delimiter ++ openParen :: rest := by
  -- A delimiter is looked for only behind the mark of a raw string.
  unfold rawOpening? at opens
  split at opens
  · exact delimiter?_eq_some opens
  · exact absurd opens (by simp)

/--
The states in which the machine can stand before given bytes.

Bytes that are skipped have been seen before, and only an escape may skip a line break.
-/
inductive State.StandsBefore (ahead : List UInt8) : State → Prop where
  | code : StandsBefore ahead ⟨0, .code⟩
  | commentEnd (next : ahead.head? = some slash) : StandsBefore ahead ⟨1, .code⟩
  | lineComment : StandsBefore ahead ⟨0, .lineComment⟩
  | commentStart (next : ahead.head? = some star) : StandsBefore ahead ⟨1, .blockComment⟩
  | blockComment : StandsBefore ahead ⟨0, .blockComment⟩
  | quoted {quote : UInt8} (isQuote : quote = doubleQuote ∨ quote = singleQuote) :
      StandsBefore ahead ⟨0, .quoted quote⟩
  | escape {quote : UInt8} (isQuote : quote = doubleQuote ∨ quote = singleQuote) :
      StandsBefore ahead ⟨1, .quoted quote⟩
  | raw {delimiter : List UInt8} {skip : Nat} (inLine : newline ∉ delimiter)
      (seen : newline ∉ ahead.take skip) : StandsBefore ahead ⟨skip, .raw delimiter⟩
  | rawQuote {skip : Nat} (seen : newline ∉ ahead.take skip)
      (closes : ahead[skip]? = some doubleQuote) : StandsBefore ahead ⟨skip, .rawQuote⟩

/-- Every step leads to a state in which the machine can stand before the rest. -/
theorem standsBefore_step {state : State} {b : UInt8} {ahead : List UInt8} (before : List UInt8)
    (stands : state.StandsBefore (b :: ahead)) :
    (step before state b ahead).next.StandsBefore ahead := by
  -- In each state, the step either stays or goes to one whose promise was just checked.
  cases stands with
  | code =>
    -- What opens a comment or a raw string is ahead.
    have reads : ReadsCode before ahead b (step before ⟨0, .code⟩ b ahead) :=
      readsCode_step before b ahead
    generalize step before ⟨0, .code⟩ b ahead = s at reads ⊢
    cases reads with
    | lineComment => exact .lineComment
    | blockComment next => exact .commentStart next
    | @rawString delimiter opens =>
      obtain ⟨inLine, rest, rfl⟩ := rawOpening?_eq_some opens
      have notParen : newline ≠ openParen := by decide
      exact .raw inLine (by simp [List.take_length_add_append, inLine, notParen])
    | string => exact .quoted (.inl rfl)
    | character => exact .quoted (.inr rfl)
    | plain => exact .code
  | commentEnd => exact .code
  | commentStart => exact .blockComment
  | lineComment =>
    -- A line comment is left at its break for code.
    simp only [step]
    split
    · exact .code
    · exact .lineComment
  | blockComment =>
    -- The slash that closes the comment was seen ahead, so it is there for the next state.
    simp only [step, Bool.and_eq_true, beq_iff_eq]
    split
    · rename_i closes
      exact .commentEnd closes.2
    · exact .blockComment
  | quoted isQuote =>
    simp only [step]
    split
    · exact .escape isQuote
    · split
      · exact .code
      · exact .quoted isQuote
  | escape isQuote => exact .quoted isQuote
  | @raw delimiter skip inLine seen =>
    cases skip with
    -- One byte fewer is skipped, and no break was among those that were.
    | succ skip => exact .raw inLine (by simpa using (not_or.mp (by simpa using seen)).2)
    | zero =>
      simp only [step]
      split
      · -- The closing sequence is ahead; its delimiter is skipped, and its quote comes next.
        rename_i closes
        obtain ⟨rest, shape⟩ := List.isPrefixOf_iff_prefix.mp closes
        have tail : ahead = delimiter ++ doubleQuote :: rest := by
          simpa using (List.cons.inj shape).2.symm
        exact .rawQuote (by simp [tail, inLine]) (by simp [tail])
      · exact .raw inLine (by simp)
  | @rawQuote skip seen closes =>
    cases skip with
    | succ skip =>
      exact .rawQuote (by simpa using (not_or.mp (by simpa using seen)).2) (by simpa using closes)
    | zero => exact .code

/-- Every run leads to a state in which the machine can stand before the rest. -/
theorem standsBefore_stateAfter {state : State} {text ahead : List UInt8} (before : List UInt8)
    (stands : state.StandsBefore (text ++ ahead)) :
    (stateAfter before state text ahead).StandsBefore ahead := by
  -- Along the text, one step at a time.
  induction text generalizing before state with
  | nil => exact stands
  | cons b rest ih => exact ih (b :: before) (standsBefore_step before stands)

/-- Whether the machine reads a string or character literal that is not raw. -/
def Mode.isQuoted : Mode → Bool
  | .quoted _ => true
  | _ => false

/-- Whether the machine reads a raw string. -/
def Mode.isRaw : Mode → Bool
  | .raw _ => true
  | _ => false

/-- A backslash in a literal is about to take the next byte with it. -/
def State.InEscape (state : State) : Prop :=
  state.skip ≠ 0 ∧ state.mode.isQuoted = true

instance (state : State) : Decidable state.InEscape :=
  inferInstanceAs (Decidable (_ ∧ _))

/-- Whenever the machine passes over a line break, its state is one of those allowed. -/
def AtBreaks (allowed : State → Prop) (before : List UInt8) (state : State) : List UInt8 → Prop
  | [] => True
  | b :: ahead =>
    (b = newline → allowed state) ∧
      AtBreaks allowed (b :: before) (step before state b ahead).next ahead

instance decidableAtBreaks {allowed : State → Prop} [DecidablePred allowed] :
    (before : List UInt8) → (state : State) → (bytes : List UInt8) →
      Decidable (AtBreaks allowed before state bytes)
  | _, _, [] => inferInstanceAs (Decidable True)
  | before, state, b :: ahead =>
    have : Decidable (AtBreaks allowed (b :: before) (step before state b ahead).next ahead) :=
      decidableAtBreaks _ _ ahead
    inferInstanceAs (Decidable (_ ∧ _))

/-- Before a line break nothing is skipped, unless by an escape. -/
theorem skip_eq_zero_at_break {state : State} {ahead : List UInt8}
    (stands : state.StandsBefore (newline :: ahead)) (unescaped : ¬ state.InEscape) :
    state.skip = 0 ∧ state.mode ≠ .rawQuote := by
  -- A break is not what a closing state waits for, and no break is among skipped bytes.
  cases stands with
  | code => exact ⟨rfl, by simp⟩
  | commentEnd next => exact absurd (Option.some.inj next) (by decide)
  | lineComment => exact ⟨rfl, by simp⟩
  | commentStart next => exact absurd (Option.some.inj next) (by decide)
  | blockComment => exact ⟨rfl, by simp⟩
  | quoted => exact ⟨rfl, by simp⟩
  | escape => exact absurd ⟨by simp, rfl⟩ unescaped
  | @raw delimiter skip inLine seen =>
    cases skip with
    | zero => exact ⟨rfl, by simp⟩
    | succ skip => simp at seen
  | @rawQuote skip seen closes =>
    cases skip with
    | zero => exact absurd (Option.some.inj closes) (by decide)
    | succ skip => simp at seen

end LockDiscipline.CodeView
