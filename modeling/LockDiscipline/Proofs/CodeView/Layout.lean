import LockDiscipline.CodeView
import LockDiscipline.Proofs.Text.Lines
import LockDiscipline.Proofs.Text.Utf8
import LockDiscipline.Rule.Trigger
import Mathlib.Data.List.Forall2

/-! The code view has the layout of its text: bytes are kept or blanked, and lines stay lines. -/

namespace LockDiscipline.CodeView

open LockDiscipline.Text

/-- A blanked byte: a space, unless the byte ends a line. -/
def blankByte (b : UInt8) : UInt8 :=
  if b = newline then b else space

/-- A blanked character: a space for each of its bytes, unless it ends a line. -/
def blankChar (c : Char) : List Char :=
  if c = '\n' then [c] else List.replicate c.utf8Size ' '

/-- A blanked text. -/
def blankText (text : List Char) : List Char :=
  text.flatMap blankChar

/-- A byte that is not kept is blanked. -/
theorem Step.apply_eq (s : Step) (b : UInt8) : s.apply b = if s.keep then b else blankByte b := by
  -- The two definitions test for the line break in a different place only.
  unfold Step.apply blankByte
  by_cases kept : s.keep <;> simp [kept]

/-- Blanking a character blanks each of its bytes. -/
theorem encode_blankChar (c : Char) :
    Utf8.encode (blankChar c) = (String.utf8EncodeChar c).map blankByte := by
  -- A line break is kept; the blank of another character is as many spaces as it has bytes.
  unfold blankChar
  split
  · rename_i atBreak
    subst atBreak
    decide
  · -- No byte of another character ends a line, so each becomes a space.
    rename_i inLine
    have noBreak : ∀ b ∈ String.utf8EncodeChar c, blankByte b = space := by
      intro b member
      have : b ≠ newline := by
        intro same
        subst same
        have number := Utf8.toNat_of_mem_encodeChar (by decide) member
        exact inLine (Char.toNat_inj.mp number)
      simp [blankByte, this]
    have spaces : ∀ n, Utf8.encode (List.replicate n ' ') = List.replicate n space := by
      intro n
      induction n with
      | zero => rfl
      | succ n ih => rw [List.replicate_succ, Utf8.encode_cons, ih]; rfl
    rw [List.map_congr_left noBreak, List.map_const', spaces, String.length_utf8EncodeChar]

/-- Blanking a text blanks each of its bytes. -/
theorem encode_blankText (text : List Char) :
    Utf8.encode (blankText text) = (Utf8.encode text).map blankByte := by
  -- Characters are blanked one by one, and so are their bytes.
  unfold blankText
  induction text with
  | nil => rfl
  | cons c rest ih =>
    rw [List.flatMap_cons, Utf8.encode_append, encode_blankChar, ih, Utf8.encode_cons,
      List.map_append]

/--
What a state relies on about the bytes ahead.

A skip that ends in code or at the quote of a raw string ends between characters, because the byte
it leads to, or the last byte it covers, is one of ASCII.
-/
def State.Expects (ahead : List UInt8) (state : State) : Prop :=
  match state.mode with
  | .code => state.skip = 0 ∨ state.skip = 1 ∧ ahead.head? = some slash
  | .rawQuote => ahead[state.skip]? = some doubleQuote
  | .quoted quote => quote < 0x80
  | _ => True

/-- Every step keeps to what the state relied on. -/
theorem expects_step {state : State} {b : UInt8} {ahead : List UInt8} (before : List UInt8)
    (expects : state.Expects (b :: ahead)) : (step before state b ahead).next.Expects ahead := by
  -- One case for each state; a skip counts down, and a new skip is set only where its end is seen.
  obtain ⟨skip, mode⟩ := state
  cases skip with
  | succ skip =>
    -- A skipped byte brings the state one byte nearer to what it expects.
    cases mode with
    | code =>
      obtain none | ⟨last, -⟩ := expects
      · exact absurd none (Nat.succ_ne_zero skip)
      · exact .inl (Nat.succ.inj last)
    | rawQuote => simpa [State.Expects, step] using expects
    | quoted quote => simpa [State.Expects, step] using expects
    | lineComment => trivial
    | blockComment => trivial
    | raw delimiter => trivial
  | zero =>
    cases mode with
    | code =>
      -- In code the machine opens a comment, opens a literal or keeps the byte.
      simp only [step, stepCode]
      split
      · trivial
      · split
        · trivial
        · split
          · cases rawOpening? before ahead with
            | none => exact (by decide : doubleQuote < 0x80)
            | some delimiter => trivial
          · split
            · exact (by decide : singleQuote < 0x80)
            · exact .inl rfl
    | lineComment =>
      -- A line comment is left at its line break.
      simp only [step]
      split
      · exact .inl rfl
      · trivial
    | blockComment =>
      -- A block comment is left on its star only when the slash is there.
      simp only [step]
      split
      · rename_i closes
        simp only [Bool.and_eq_true, beq_iff_eq] at closes
        exact .inr ⟨rfl, closes.2⟩
      · trivial
    | quoted quote =>
      have ascii : quote < 0x80 := expects
      -- A literal keeps its quote, whose code is known, until it is closed.
      simp only [step]
      split
      · exact ascii
      · split
        · exact .inl rfl
        · exact ascii
    | raw delimiter =>
      simp only [step]
      split
      · -- The closing sequence is ahead, and its last byte is the quote.
        rename_i closes
        obtain ⟨rest, shape⟩ := List.isPrefixOf_iff_prefix.mp closes
        have tail : ahead = delimiter ++ doubleQuote :: rest := by
          simpa using (List.cons.inj shape).2.symm
        simp [State.Expects, tail]
      · trivial
    | rawQuote => exact .inl rfl

/-- A byte beyond ASCII is kept exactly in code, and the machine stays in or out of code. -/
theorem step_beyond {state : State} {b : UInt8} {ahead : List UInt8} (before : List UInt8)
    (beyond : 0x80 ≤ b) (expects : state.Expects (b :: ahead)) :
    ((step before state b ahead).keep = true ↔ state = .initial) ∧
      ((step before state b ahead).next = .initial ↔ state = .initial) := by
  -- Every byte that the machine looks for is one of ASCII, so this byte is none of them.
  have notSlash : b ≠ slash := by grind
  have notStar : b ≠ star := by grind
  have notDouble : b ≠ doubleQuote := by grind
  have notSingle : b ≠ singleQuote := by grind
  have notBackslash : b ≠ backslash := by grind
  have notNewline : b ≠ newline := by grind
  have notClose : b ≠ closeParen := by grind
  obtain ⟨skip, mode⟩ := state
  cases skip with
  | succ skip =>
    -- A skip into code would cover a slash here, which no byte beyond ASCII is.
    cases mode with
    | code =>
      obtain none | ⟨-, opens⟩ := expects
      · exact absurd none (Nat.succ_ne_zero skip)
      simp only [List.head?_cons, Option.some.injEq] at opens
      exact absurd opens notSlash
    | _ => simp [step, State.initial]
  | zero =>
    cases mode with
    -- Outside code the byte is blanked, and nothing ends there.
    | code => simp [step, stepCode, State.initial, notSlash, notDouble, notSingle]
    | lineComment => simp [step, State.initial, notNewline]
    | blockComment => simp [step, State.initial, notStar]
    | quoted quote =>
      have ascii : quote < 0x80 := expects
      have notQuote : b ≠ quote := by grind
      simp [step, State.initial, notBackslash, notQuote, notNewline]
    | raw delimiter =>
      simp [step, State.initial, notClose.symm]
    | rawQuote =>
      have quoteAhead : some b = some doubleQuote := expects
      exact absurd (Option.some.inj quoteAhead) notDouble

/-- One byte is written, and the machine goes on behind it. -/
theorem blankFrom_cons (before : List UInt8) (state : State) (b : UInt8) (ahead : List UInt8) :
    -- This is how the machine is written; as a lemma it rewrites one byte only.
    blankFrom before state (b :: ahead) =
      (step before state b ahead).apply b ::
        blankFrom (b :: before) (step before state b ahead).next ahead := rfl

/-- Bytes beyond ASCII are all kept in code and all blanked anywhere else. -/
theorem blankFrom_beyond {bytes : List UInt8} (beyond : ∀ b ∈ bytes, 0x80 ≤ b) {state : State}
    {ahead : List UInt8} (before : List UInt8) (expects : state.Expects (bytes ++ ahead)) :
    ∃ next : State, next.Expects ahead ∧ (next = .initial ↔ state = .initial) ∧
      blankFrom before state (bytes ++ ahead) =
        (if state = .initial then bytes else bytes.map blankByte) ++
          blankFrom (bytes.reverse ++ before) next ahead := by
  -- Being in code is carried along the bytes, since none of them can change it.
  induction bytes generalizing before state with
  | nil => exact ⟨state, expects, Iff.rfl, by simp⟩
  | cons b rest ih =>
    rw [List.cons_append] at expects
    have first := step_beyond before (beyond b (by simp)) expects
    -- The state behind this byte is in code exactly if this one is, so the rest goes the same way.
    obtain ⟨next, onward, stays, written⟩ :=
      ih (fun c member => beyond c (by simp [member])) (b :: before) (expects_step before expects)
    refine ⟨next, onward, stays.trans first.2, ?_⟩
    rw [List.cons_append, blankFrom_cons, written, Step.apply_eq]
    by_cases inCode : state = .initial
    · rw [if_pos (first.1.mpr inCode), if_pos (first.2.mpr inCode), if_pos inCode]
      simp
    · rw [if_neg (mt first.1.mp inCode), if_neg (mt first.2.mp inCode), if_neg inCode]
      simp

/-- The bytes of one character are all kept or all blanked. -/
theorem blankFrom_char (before : List UInt8) {state : State} (c : Char) {ahead : List UInt8}
    (expects : state.Expects (String.utf8EncodeChar c ++ ahead)) :
    ∃ next : State, next.Expects ahead ∧ ∃ view, (view = [c] ∨ view = blankChar c) ∧
      blankFrom before state (String.utf8EncodeChar c ++ ahead) =
        Utf8.encode view ++ blankFrom ((String.utf8EncodeChar c).reverse ++ before) next ahead := by
  by_cases ascii : c.toNat < 0x80
  · -- A character of ASCII is one byte, and the machine decides about it at once.
    have blanked := encode_blankChar c
    rw [Utf8.encodeChar_ascii ascii] at blanked expects ⊢
    refine ⟨_, expects_step before expects, ?_⟩
    rw [List.singleton_append, blankFrom_cons, Step.apply_eq]
    by_cases kept : (step before state (UInt8.ofNat c.toNat) ahead).keep
    · exact ⟨[c], .inl rfl, by simp [kept, Utf8.encodeChar_ascii ascii]⟩
    · exact ⟨blankChar c, .inr rfl, by simp [kept, blanked]⟩
  · -- Of any other character, every byte goes the way of the first.
    have beyond : ∀ b ∈ String.utf8EncodeChar c, 0x80 ≤ b :=
      fun b member => Utf8.le_of_mem_encodeChar (by omega) member
    obtain ⟨next, onward, -, written⟩ := blankFrom_beyond beyond before expects
    refine ⟨next, onward, ?_⟩
    by_cases inCode : state = .initial
    · exact ⟨[c], .inl rfl, by rw [written, if_pos inCode]; simp⟩
    · exact ⟨blankChar c, .inr rfl, by rw [written, if_neg inCode, encode_blankChar]⟩

/-- A view of a text: each character is kept or blanked in place. -/
inductive ViewOf : (text view : List Char) → Prop where
  | nil : ViewOf [] []
  | keep (c : Char) {text view : List Char} : ViewOf text view → ViewOf (c :: text) (c :: view)
  | blank (c : Char) {text view : List Char} :
      ViewOf text view → ViewOf (c :: text) (blankChar c ++ view)

/-- From a state that meets its expectations, the machine writes the bytes of a view. -/
theorem blankFrom_view (before : List UInt8) {state : State} (text : List Char)
    (expects : state.Expects (Utf8.encode text)) :
    ∃ view, ViewOf text view ∧ blankFrom before state (Utf8.encode text) = Utf8.encode view := by
  -- What the machine expects is kept from character to character, and fixes the view of each.
  induction text generalizing before state with
  | nil => exact ⟨[], .nil, rfl⟩
  | cons c rest ih =>
    rw [Utf8.encode_cons] at expects
    obtain ⟨next, onward, first, choice, written⟩ := blankFrom_char before c expects
    obtain ⟨view, isView, others⟩ := ih _ onward
    rw [Utf8.encode_cons, written, others]
    rcases choice with kept | blanked
    · exact ⟨c :: view, .keep c isView, by simp [kept]⟩
    · exact ⟨blankChar c ++ view, .blank c isView, by simp [blanked]⟩

/-- The code view is a view of its text, and its bytes are the ones that the machine wrote. -/
theorem ofText_view (text : List Char) :
    ViewOf text (ofText text) ∧ Utf8.encode (ofText text) = blankBytes (Utf8.encode text) := by
  -- The bytes are those of a text, so decoding them gives that text back.
  have start : State.initial.Expects (Utf8.encode text) := .inl rfl
  obtain ⟨view, isView, written⟩ := blankFrom_view [] text start
  have same : ofText text = view := by
    rw [ofText, blankBytes, written, Utf8.decode_encode]
  rw [same]
  exact ⟨isView, written.symm⟩

/-- Byte by byte, a view keeps or blanks its text. -/
theorem ViewOf.bytes {text view : List Char} (isView : ViewOf text view) :
    List.Forall₂ (fun b v => v = b ∨ v = blankByte b) (Utf8.encode text) (Utf8.encode view) := by
  -- A kept character has its own bytes, and a blanked one has each of them blanked.
  induction isView with
  | nil => exact .nil
  | keep c rest ih => exact List.rel_append (List.forall₂_same.mpr fun b _ => .inl rfl) ih
  | blank c rest ih =>
    rw [Utf8.encode_append, encode_blankChar]
    have first : List.Forall₂ (fun b v => v = b ∨ v = blankByte b) (String.utf8EncodeChar c)
        ((String.utf8EncodeChar c).map blankByte) :=
      List.forall₂_map_right_iff.mpr (List.forall₂_same.mpr fun b _ => .inr rfl)
    exact List.rel_append first ih

/-- Related lists stay related when their first items change in step. -/
theorem forall₂_modifyHead {α β : Type} {R : α → β → Prop} {f : α → α} {g : β → β}
    (preserves : ∀ x y, R x y → R (f x) (g y)) {xs : List α} {ys : List β}
    (related : List.Forall₂ R xs ys) : List.Forall₂ R (xs.modifyHead f) (ys.modifyHead g) := by
  -- Only the heads differ, and the tails are related as they were.
  cases related with
  | nil => exact .nil
  | cons first others => exact .cons (preserves _ _ first) others

/-- The lines of a view are views of the lines of its text. -/
theorem ViewOf.lines {text view : List Char} (isView : ViewOf text view) :
    List.Forall₂ ViewOf (Text.lines text) (Text.lines view) := by
  -- Character by character: one that is kept or blanked changes the first line, or opens a new one.
  induction isView with
  | nil => exact .cons .nil .nil
  | keep c rest ih =>
    by_cases atBreak : c = '\n'
    · subst atBreak
      rw [lines_break, lines_break]
      exact .cons .nil ih
    · rw [lines_cons atBreak, lines_cons atBreak]
      exact forall₂_modifyHead (fun _ _ => .keep c) ih
  | @blank c text view rest ih =>
    by_cases atBreak : c = '\n'
    · -- A line break is its own blank.
      subst atBreak
      have same : blankChar '\n' ++ view = '\n' :: view := rfl
      rw [same, lines_break, lines_break]
      exact .cons .nil ih
    · have inLine : '\n' ∉ blankChar c := by simp [blankChar, atBreak]
      rw [lines_cons atBreak, lines_append_inLine inLine]
      exact forall₂_modifyHead (fun _ _ => .blank c) ih

/-- A text and its view have the same size in bytes. -/
theorem ViewOf.byteSize {text view : List Char} (isView : ViewOf text view) :
    Text.byteSize view = Text.byteSize text := by
  -- The size is the number of bytes, and the bytes correspond one to one.
  rw [← Utf8.length_encode, ← Utf8.length_encode, isView.bytes.length_eq]

/-- A text and another one laid out over it, byte for byte and line for line. -/
structure SameLayout (text view : List Char) : Prop where
  /-- They have equally many bytes. -/
  byteCount : (Utf8.encode view).length = (Utf8.encode text).length
  /-- Each byte is the one at the same offset of the text, or a space. -/
  keptOrSpace : ∀ (offset : Nat) (b : UInt8), (Utf8.encode text)[offset]? = some b →
    (Utf8.encode view)[offset]? = some b ∨ (Utf8.encode view)[offset]? = some space
  /-- Line breaks stand at the same offsets. -/
  newlines : ∀ offset : Nat,
    (Utf8.encode view)[offset]? = some newline ↔ (Utf8.encode text)[offset]? = some newline
  /-- They have equally many lines. -/
  lineCount : (FileLines.ofTexts text view).code.length = (FileLines.ofTexts text view).raw.length
  /-- Lines with the same number have the same size in bytes. -/
  lineSizes : ∀ index : Nat, (FileLines.ofTexts text view).code[index]?.map byteSize =
    (FileLines.ofTexts text view).raw[index]?.map byteSize

/-- Related lists are related at every index, and end at the same one. -/
theorem forall₂_getElem? {α β : Type} {R : α → β → Prop} {xs : List α} {ys : List β}
    (related : List.Forall₂ R xs ys) (index : Nat) :
    (xs[index]? = none ∧ ys[index]? = none) ∨
      ∃ x y, xs[index]? = some x ∧ ys[index]? = some y ∧ R x y := by
  -- Both lists are walked together, one step for each unit of the index.
  induction related generalizing index with
  | nil => simp
  | cons first others ih =>
    cases index with
    | zero => exact .inr ⟨_, _, rfl, rfl, first⟩
    | succ index => simpa using ih index

/-- A view is laid out as its text. -/
theorem ViewOf.sameLayout {text view : List Char} (isView : ViewOf text view) :
    SameLayout text view where
  -- The bytes of text and view are related one by one, so offsets can be compared.
  byteCount := isView.bytes.length_eq.symm
  keptOrSpace := by
    intro offset b found
    obtain ⟨past, -⟩ | ⟨x, v, atText, atView, choice⟩ := forall₂_getElem? isView.bytes offset
    · rw [past] at found
      exact absurd found (by simp)
    · obtain rfl : x = b := Option.some.inj (atText.symm.trans found)
      rw [atView]
      rcases choice with kept | blanked
      · exact .inl (by rw [kept])
      · by_cases atBreak : x = newline
        · exact .inl (by rw [blanked, blankByte, if_pos atBreak])
        · exact .inr (by rw [blanked, blankByte, if_neg atBreak])
  newlines := by
    intro offset
    obtain ⟨past, alsoPast⟩ | ⟨b, v, atText, atView, choice⟩ :=
      forall₂_getElem? isView.bytes offset
    · simp [past, alsoPast]
    · -- A space is no line break, so a blanked byte is one exactly if it was one.
      rw [atText, atView, Option.some.injEq, Option.some.injEq]
      rcases choice with kept | blanked
      · rw [kept]
      · by_cases atBreak : b = newline
        · simp [blanked, blankByte, atBreak]
        · have : space ≠ newline := by decide
          simp [blanked, blankByte, atBreak, this]
  -- Lines correspond in order, and each is as long as the one it shows.
  lineCount := isView.lines.length_eq.symm
  lineSizes := by
    intro index
    show (Text.lines view)[index]?.map Text.byteSize = (Text.lines text)[index]?.map Text.byteSize
    obtain ⟨past, alsoPast⟩ | ⟨line, shown, atText, atView, lineView⟩ :=
      forall₂_getElem? isView.lines index
    · simp [past, alsoPast]
    · simp [atText, atView, lineView.byteSize]

/--
The code view of any text is laid out as the text.

The machine writes the bytes of the view itself, so reading them back replaces nothing.
-/
theorem ofText_sameLayout (text : List Char) :
    Utf8.encode (ofText text) = blankBytes (Utf8.encode text) ∧ SameLayout text (ofText text) :=
  -- The view is built along the text, which tells its layout and its bytes at once.
  ⟨(ofText_view text).2, (ofText_view text).1.sameLayout⟩

end LockDiscipline.CodeView
