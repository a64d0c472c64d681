import LockDiscipline.Proofs.CodeView.Layout
import LockDiscipline.Proofs.Text.CharClass
import Mathlib.Data.List.Infix

/-! Of a well-formed text, the code view blanks exactly the comments and the literal contents. -/

namespace LockDiscipline.CodeView

open LockDiscipline.Text

/-- One item of a literal: a character that stands for itself, or a backslash and a character. -/
inductive Item where
  | plain (c : Char)
  | escaped (c : Char)
deriving DecidableEq, Repr

/-- The text of an item. -/
def Item.source : Item → List Char
  | plain c => [c]
  | escaped c => ['\\', c]

/-- Items that may stand in a literal that `quote` closes. -/
def Item.WellFormed (quote : Char) : Item → Prop
  | plain c => c ≠ quote ∧ c ≠ '\\' ∧ c ≠ '\n'
  | escaped _ => True

/-- The text of the items of a literal. -/
def itemsSource (items : List Item) : List Char :=
  items.flatMap Item.source

/-- The encodings that a literal may name. -/
inductive Encoding where
  | ordinary
  | wide
  | utf16
  | utf32
  | utf8
deriving DecidableEq, Repr

/-- The mark of an encoding in front of a literal. -/
def Encoding.mark : Encoding → List Char
  | ordinary => []
  | wide => ['L']
  | utf16 => ['u']
  | utf32 => ['U']
  | utf8 => ['u', '8']

/-- The pieces that a text is made of. -/
inductive Segment where
  /-- Code without quotes, in which no slash opens a comment. -/
  | code (text : List Char)
  /-- A comment up to the end of its line. -/
  | lineComment (body : List Char)
  | blockComment (body : List Char)
  /-- A number whose groups of digits are separated by single quotes. -/
  | number (first : List Char) (groups : List (List Char))
  | string (items : List Item)
  | character (encoding : Encoding) (items : List Item)
  | rawString (encoding : Encoding) (delimiter body : List Char)
deriving DecidableEq, Repr

namespace Segment

/-- The text of a segment. -/
def source : Segment → List Char
  | code text => text
  | lineComment body => ['/', '/'] ++ body ++ ['\n']
  | blockComment body => ['/', '*'] ++ body ++ ['*', '/']
  | number first groups => first ++ groups.flatMap ('\'' :: ·)
  | string items => ['"'] ++ itemsSource items ++ ['"']
  | character encoding items => encoding.mark ++ ['\''] ++ itemsSource items ++ ['\'']
  | rawString encoding delimiter body =>
    encoding.mark ++ ['R', '"'] ++ (delimiter ++ ['('] ++ body ++ [')'] ++ delimiter) ++ ['"']

/-- What the code view shows of a segment: the marks of a comment are blanked, quotes are not. -/
def view : Segment → List Char
  | code text => text
  | lineComment body => blankText (['/', '/'] ++ body) ++ ['\n']
  | blockComment body => blankText (['/', '*'] ++ body ++ ['*', '/'])
  | number first groups => first ++ groups.flatMap ('\'' :: ·)
  | string items => ['"'] ++ blankText (itemsSource items) ++ ['"']
  | character encoding items =>
    encoding.mark ++ ['\''] ++ blankText (itemsSource items) ++ ['\'']
  | rawString encoding delimiter body =>
    encoding.mark ++ ['R', '"'] ++ blankText (delimiter ++ ['('] ++ body ++ [')'] ++ delimiter) ++
      ['"']

/-- Digits in base sixteen. -/
def isHexDigit (c : Char) : Bool :=
  c.isDigit || ('a' ≤ c && c ≤ 'f') || ('A' ≤ c && c ≤ 'F')

/-- Characters that cannot stand in the delimiter of a raw string. -/
def delimiterStops : List Char :=
  [' ', '\\', '(', ')', '\n', '"']

/-- What a segment must be by itself. -/
def WellFormed : Segment → Prop
  | code text => '"' ∉ text ∧ '\'' ∉ text ∧
    ∀ rest ∈ text.tails, rest.head? = some '/' → ∃ c ∈ rest.tail.head?, c ≠ '/' ∧ c ≠ '*'
  | lineComment body => '\n' ∉ body
  | blockComment body => ¬ ['*', '/'] <:+: body
  | number first groups =>
    (∃ d ∈ first.head?, d.isDigit) ∧ (∀ c ∈ first, c.isAlphanum) ∧
      ∀ group ∈ groups, group ≠ [] ∧ ∀ c ∈ group, isHexDigit c
  | string items => ∀ item ∈ items, item.WellFormed '"'
  | character _ items => ∀ item ∈ items, item.WellFormed '\''
  | rawString _ delimiter body =>
    byteSize delimiter ≤ 16 ∧ (∀ c ∈ delimiter, c ∉ delimiterStops) ∧
      ¬ (')' :: delimiter ++ ['"']) <:+: body

instance (quote : Char) (item : Item) : Decidable (item.WellFormed quote) :=
  match item with
  | .plain _ => inferInstanceAs (Decidable (_ ∧ _ ∧ _))
  | .escaped _ => inferInstanceAs (Decidable True)

-- The quantifiers are decided along the lists they range over, not over all characters.
instance (segment : Segment) : Decidable segment.WellFormed :=
  match segment with
  | code _ =>
    have (rest : List Char) : Decidable (∃ c ∈ rest.tail.head?, c ≠ '/' ∧ c ≠ '*') :=
      Option.decidableExistsMem _
    inferInstanceAs (Decidable (_ ∧ _ ∧ _))
  | lineComment _ => inferInstanceAs (Decidable (¬ _))
  | blockComment _ => inferInstanceAs (Decidable (¬ _))
  | number first _ =>
    have : Decidable (∃ d ∈ first.head?, d.isDigit) := Option.decidableExistsMem _
    have : Decidable (∀ c ∈ first, c.isAlphanum) := List.decidableBAll _ _
    have (group : List Char) : Decidable (∀ c ∈ group, isHexDigit c) := List.decidableBAll _ _
    inferInstanceAs (Decidable (_ ∧ _ ∧ _))
  | string _ => inferInstanceAs (Decidable (∀ item ∈ _, Item.WellFormed _ item))
  | character _ _ => inferInstanceAs (Decidable (∀ item ∈ _, Item.WellFormed _ item))
  | rawString _ delimiter _ =>
    have : Decidable (∀ c ∈ delimiter, c ∉ delimiterStops) := List.decidableBAll _ _
    inferInstanceAs (Decidable (_ ∧ _ ∧ _))

/-- Which bytes a segment may stand right behind; `none` is the start of the text. -/
def MayFollow (last : Option UInt8) : Segment → Prop
  | number _ _ => last.all fun b => !isTokenByte b
  | character _ _ => last.all fun b => !isTokenByte b
  -- The mark of an encoding sets the `R` of a raw string off from any token before it.
  | rawString encoding _ _ => encoding = .ordinary → last.all fun b => !isTokenByte b
  | string _ => last ≠ some 0x52
  | _ => True

instance (last : Option UInt8) (segment : Segment) : Decidable (segment.MayFollow last) :=
  match segment with
  | number _ _ => inferInstanceAs (Decidable (_ = true))
  | character _ _ => inferInstanceAs (Decidable (_ = true))
  | rawString _ _ _ => inferInstanceAs (Decidable (_ → _ = true))
  | string _ => inferInstanceAs (Decidable (_ ≠ _))
  | code _ => inferInstanceAs (Decidable True)
  | lineComment _ => inferInstanceAs (Decidable True)
  | blockComment _ => inferInstanceAs (Decidable True)

end Segment

/-- Segments that form a text behind given bytes, last byte first. -/
def WellFormedFrom (before : List UInt8) : List Segment → Prop
  | [] => True
  | segment :: rest =>
    segment.WellFormed ∧ segment.MayFollow before.head? ∧
      WellFormedFrom ((Utf8.encode segment.source).reverse ++ before) rest

instance decidableWellFormedFrom :
    (before : List UInt8) → (segments : List Segment) → Decidable (WellFormedFrom before segments)
  | _, [] => inferInstanceAs (Decidable True)
  | before, segment :: rest =>
    have := decidableWellFormedFrom ((Utf8.encode segment.source).reverse ++ before) rest
    inferInstanceAs (Decidable (_ ∧ _ ∧ _))

/-- From a state, with `ahead` still to come, the machine writes `written` for `text`. -/
def Writes (before : List UInt8) (state : State) (text written : List UInt8) (next : State)
    (ahead : List UInt8) : Prop :=
  blankFrom before state (text ++ ahead) =
    written ++ blankFrom (text.reverse ++ before) next ahead

namespace Writes

/-- Stretches that follow one another are written one after the other. -/
theorem append {before : List UInt8} {state middle next : State}
    {first firstWritten second secondWritten ahead : List UInt8}
    (one : Writes before state first firstWritten middle (second ++ ahead))
    (other : Writes (first.reverse ++ before) middle second secondWritten next ahead) :
    Writes before state (first ++ second) (firstWritten ++ secondWritten) next ahead := by
  -- The second stretch is what comes ahead of the first.
  unfold Writes at *
  rw [List.append_assoc, one, other]
  simp

/-- A kept byte is written as it is. -/
theorem kept {before : List UInt8} {state next : State} {b : UInt8} {ahead : List UInt8}
    (reads : step before state b ahead = ⟨true, next⟩) :
    Writes before state [b] [b] next ahead := by
  -- One step and an empty rest.
  unfold Writes
  rw [List.singleton_append, blankFrom_cons, reads]
  rfl

/-- Any other byte is blanked. -/
theorem blanked {before : List UInt8} {state next : State} {b : UInt8} {ahead : List UInt8}
    (reads : step before state b ahead = ⟨false, next⟩) :
    Writes before state [b] [blankByte b] next ahead := by
  -- One step and an empty rest, with the blank of the byte in its place.
  unfold Writes
  rw [List.singleton_append, blankFrom_cons, reads, Step.apply_eq]
  rfl

/-- Where the machine stays in one state and keeps every byte, it keeps the whole stretch. -/
theorem stays {state : State} {text : List UInt8} (before ahead : List UInt8)
    (reads : ∀ front b back, text = front ++ b :: back →
      step (front.reverse ++ before) state b (back ++ ahead) = ⟨true, state⟩) :
    Writes before state text text state ahead := by
  -- The state before each byte is the same, so one step lemma serves for all of them.
  induction text generalizing before with
  | nil => rfl
  | cons b rest ih =>
    have first : Writes before state [b] [b] state (rest ++ ahead) := kept (reads [] b rest rfl)
    have others := ih (b :: before) (by
      intro front c back shape
      simpa using reads (b :: front) c back (by simp [shape]))
    exact first.append others

/-- Where the machine stays in one state and keeps no byte, it blanks the whole stretch. -/
theorem staysBlank {state : State} {text : List UInt8} (before ahead : List UInt8)
    (reads : ∀ front b back, text = front ++ b :: back →
      step (front.reverse ++ before) state b (back ++ ahead) = ⟨false, state⟩) :
    Writes before state text (text.map blankByte) state ahead := by
  -- As for kept bytes, with every byte blanked on the way.
  induction text generalizing before with
  | nil => rfl
  | cons b rest ih =>
    have first : Writes before state [b] [blankByte b] state (rest ++ ahead) :=
      blanked (reads [] b rest rfl)
    have others := ih (b :: before) (by
      intro front c back shape
      simpa using reads (b :: front) c back (by simp [shape]))
    exact first.append others

/-- Skipped bytes are blanked unseen. -/
theorem skip (mode : Mode) (text before ahead : List UInt8) :
    Writes before ⟨text.length, mode⟩ text (text.map blankByte) ⟨0, mode⟩ ahead := by
  -- The count of bytes to skip is the length of the stretch, and goes down with it.
  induction text generalizing before with
  | nil => rfl
  | cons b rest ih =>
    have first : Writes before ⟨rest.length + 1, mode⟩ [b] [blankByte b] ⟨rest.length, mode⟩
        (rest ++ ahead) := blanked rfl
    exact first.append (ih (b :: before))

end Writes

/-- Behind given bytes, the machine shows a piece of text as a view and is back in code. -/
def Shows (before : List UInt8) (source view : List Char) : Prop :=
  ∀ ahead, Writes before .initial (Utf8.encode source) (Utf8.encode view) .initial ahead

/-- Pieces that follow one another are shown one after the other. -/
theorem Shows.append {before : List UInt8} {first firstView second secondView : List Char}
    (one : Shows before first firstView)
    (other : Shows ((Utf8.encode first).reverse ++ before) second secondView) :
    Shows before (first ++ second) (firstView ++ secondView) := by
  -- The machine is back in code at the seam, whatever follows.
  intro ahead
  rw [Utf8.encode_append, Utf8.encode_append]
  exact (one _).append (other ahead)

/-- A byte that opens nothing is kept in code. -/
theorem step_code_plain {b : UInt8} (notSlash : b ≠ slash) (notDouble : b ≠ doubleQuote)
    (notSingle : b ≠ singleQuote) (before ahead : List UInt8) :
    step before .initial b ahead = ⟨true, .initial⟩ := by
  -- The three bytes are all that a step in code reacts to.
  simp [step, stepCode, State.initial, notSlash, notDouble, notSingle]

/-- A segment of code is kept as it is. -/
theorem shows_code {text : List Char} (wellFormed : (Segment.code text).WellFormed)
    (before : List UInt8) : Shows before text text := by
  -- In code only slashes and quotes matter, and quotes are absent.
  obtain ⟨noDouble, noSingle, apart⟩ := wellFormed
  intro ahead
  refine .stays before ahead ?_
  intro front b back shape
  have member : b ∈ Utf8.encode text := by simp [shape]
  by_cases atSlash : b = slash
  · -- The character behind the slash makes it no comment, and it stands in the same segment.
    subst atSlash
    obtain ⟨lead, c, trail, cut, -, number, rest⟩ := Utf8.encode_eq_append_cons (by decide) shape
    obtain rfl : c = '/' := Char.toNat_inj.mp number
    have slashTail : '/' :: trail ∈ text.tails := (List.mem_tails _ _).mpr ⟨lead, cut.symm⟩
    obtain ⟨d, next, notSlash, notStar⟩ := apart _ slashTail rfl
    obtain ⟨others, rfl⟩ := List.head?_eq_some_iff.mp next
    have aheadSlash := Utf8.head?_encode_cons_ne (by decide : slash < 0x80) (by decide)
      notSlash others ahead
    have aheadStar := Utf8.head?_encode_cons_ne (by decide : star < 0x80) (by decide)
      notStar others ahead
    rw [rest]
    simp only [step, stepCode, State.initial]
    generalize Utf8.encode (d :: others) ++ ahead = following at aheadSlash aheadStar
    have notDouble : slash ≠ doubleQuote := by decide
    have notSingle : slash ≠ singleQuote := by decide
    simp [aheadSlash, aheadStar, notDouble, notSingle]
  · refine step_code_plain atSlash ?_ ?_ _ _
    · rintro rfl
      exact Utf8.not_mem_encode (by decide) (by decide) noDouble member
    · rintro rfl
      exact Utf8.not_mem_encode (by decide) (by decide) noSingle member

/-- A line comment is blanked up to the line break. -/
theorem shows_lineComment {body : List Char} (inLine : '\n' ∉ body) (before : List UInt8) :
    Shows before (Segment.lineComment body).source (Segment.lineComment body).view := by
  -- The comment is opened by its first slash and closed by the first line break.
  intro ahead
  have noBreak : newline ∉ slash :: Utf8.encode body := by
    have outside := Utf8.not_mem_encode (by decide : newline < 0x80) (by decide) inLine
    simp [outside, newline, slash]
  have opens : Writes before .initial [slash] [space] ⟨0, .lineComment⟩
      (((slash :: Utf8.encode body) ++ [newline]) ++ ahead) := .blanked rfl
  -- The second slash is already read as part of the comment.
  have inside : Writes (slash :: before) ⟨0, .lineComment⟩ (slash :: Utf8.encode body)
      ((slash :: Utf8.encode body).map blankByte) ⟨0, .lineComment⟩ ([newline] ++ ahead) := by
    refine .staysBlank _ _ ?_
    intro front b back shape
    have other : b ≠ newline := fun same => noBreak (by simp [shape, same])
    simp [step, other]
  have closes : Writes ((slash :: Utf8.encode body).reverse ++ slash :: before) ⟨0, .lineComment⟩
      [newline] [newline] .initial ahead := .kept rfl
  have whole := opens.append (inside.append closes)
  simp only [Segment.source, Segment.view, Utf8.encode_append, encode_blankText, List.map_append,
    List.append_assoc]
  exact whole

/-- A closing sequence whose first item does not recur is not found before its own place. -/
theorem not_prefix_before_close {α : Type} {opener : α} {rest body : List α}
    (once : opener ∉ rest) (absent : ¬ (opener :: rest) <:+: body) {front back : List α}
    (cut : body = front ++ back) (inside : back ≠ []) (ahead : List α) :
    ¬ (opener :: rest) <+: back ++ (opener :: rest ++ ahead) := by
  intro early
  -- Either the sequence fits into the body, or it reaches over to where it starts again.
  rcases List.prefix_or_prefix_of_prefix early (List.prefix_append back _) with fits | reaches
  · exact absent (fits.isInfix.trans (cut ▸ List.infix_append_right))
  · obtain ⟨beyond, shape⟩ := reaches
    obtain ⟨first, others, rfl⟩ := List.exists_cons_of_ne_nil inside
    obtain ⟨rfl, tail⟩ := List.cons.inj shape
    rw [← shape, List.prefix_append_right_inj] at early
    cases beyond with
    | nil =>
      rw [List.append_nil] at shape
      exact absent (shape ▸ cut ▸ List.infix_append_right)
    | cons again more =>
      obtain rfl : again = first := (List.cons_prefix_cons.mp early).1
      exact once (by simp [← tail])

/-- The mark that closes a block comment is a sequence of two bytes. -/
theorem closesBlock_iff {b : UInt8} {ahead : List UInt8} :
    (b == star && ahead.head? == some slash) = true ↔ [star, slash] <+: b :: ahead := by
  -- Two tests on the next bytes are one test for a prefix.
  rw [Bool.and_eq_true, beq_iff_eq, beq_iff_eq, List.cons_prefix_cons]
  cases ahead with
  | nil => simp
  | cons next rest => simp [eq_comm]

/-- A block comment is blanked from mark to mark. -/
theorem shows_blockComment {body : List Char} (unclosed : ¬ ['*', '/'] <:+: body)
    (before : List UInt8) :
    Shows before (Segment.blockComment body).source (Segment.blockComment body).view := by
  -- Five stretches: two for the opening mark, the body, and two for the closing mark.
  intro ahead
  have absent : ¬ [star, slash] <:+: Utf8.encode body :=
    fun occurs => unclosed (Utf8.infix_of_encode (by decide) occurs)
  have opens : Writes before .initial [slash] [space] ⟨1, .blockComment⟩
      (([star] ++ (Utf8.encode body ++ ([star] ++ [slash]))) ++ ahead) := .blanked rfl
  have mark : Writes (slash :: before) ⟨1, .blockComment⟩ [star] [space] ⟨0, .blockComment⟩
      ((Utf8.encode body ++ ([star] ++ [slash])) ++ ahead) := .blanked rfl
  have inside : Writes (star :: slash :: before) ⟨0, .blockComment⟩ (Utf8.encode body)
      ((Utf8.encode body).map blankByte) ⟨0, .blockComment⟩ (([star] ++ [slash]) ++ ahead) := by
    refine .staysBlank _ _ ?_
    intro front b back shape
    have early := not_prefix_before_close (by decide) absent shape (by simp) ahead
    have goesOn := mt closesBlock_iff.mp early
    exact if_neg goesOn
  have closes : Writes ((Utf8.encode body).reverse ++ star :: slash :: before) ⟨0, .blockComment⟩
      [star] [space] ⟨1, .code⟩ ([slash] ++ ahead) := .blanked rfl
  have last : Writes (star :: ((Utf8.encode body).reverse ++ star :: slash :: before)) ⟨1, .code⟩
      [slash] [space] .initial ahead := .blanked rfl
  -- The stretches are put together in the order of the text.
  have whole := opens.append (mark.append (inside.append (closes.append last)))
  simp only [Segment.source, Segment.view, Utf8.encode_append, encode_blankText, List.map_append,
    List.append_assoc]
  exact whole

/-- What can be part of a token is kept. -/
theorem shows_token {text : List Char} (token : ∀ b ∈ Utf8.encode text, isTokenByte b = true)
    (before : List UInt8) : Shows before text text := by
  -- No byte of a token is a slash or a quote.
  intro ahead
  refine .stays before ahead ?_
  intro front b back shape
  have member := token b (by simp [shape])
  refine step_code_plain ?_ ?_ ?_ _ _
  · rintro rfl
    exact absurd member (by decide)
  · rintro rfl
    exact absurd member (by decide)
  · rintro rfl
    exact absurd member (by decide)

/-- Letters and digits of ASCII by their codes. -/
theorem isAlphanum_iff {c : Char} : c.isAlphanum = true ↔
    0x30 ≤ c.toNat ∧ c.toNat ≤ 0x39 ∨ 0x41 ≤ c.toNat ∧ c.toNat ≤ 0x5A ∨
      0x61 ≤ c.toNat ∧ c.toNat ≤ 0x7A := by
  -- The three classes are given by ranges of codes, in another order.
  have classes : c.isAlphanum = ((decide (c.val ≥ 'A'.val ∧ c.val ≤ 'Z'.val) ||
      (c.val ≥ 'a'.val && c.val ≤ 'z'.val)) || (c.val ≥ '0'.val && c.val ≤ '9'.val)) := rfl
  rw [classes]
  simp only [Bool.or_eq_true, Bool.and_eq_true, decide_eq_true_eq, ge_iff_le,
    UInt32.le_iff_toNat_le]
  show ((0x41 ≤ c.toNat ∧ c.toNat ≤ 0x5A) ∨ 0x61 ≤ c.toNat ∧ c.toNat ≤ 0x7A) ∨
    0x30 ≤ c.toNat ∧ c.toNat ≤ 0x39 ↔ _
  omega

/-- The bytes of letters and digits of ASCII are bytes of tokens. -/
theorem isTokenByte_of_isAlphanum {c : Char} (alphanumeric : c.isAlphanum = true) {b : UInt8}
    (member : b ∈ String.utf8EncodeChar c) : isTokenByte b = true := by
  -- Such a character is one byte with the same number, and the ranges agree.
  have ranges := isAlphanum_iff.mp alphanumeric
  rw [Utf8.encodeChar_ascii (by omega), List.mem_singleton] at member
  have value : b.toNat = c.toNat := by
    rw [member, UInt8.toNat_ofNat']
    omega
  simp [isTokenByte, UInt8.le_iff_toNat_le, value]
  omega

/-- Digits in base sixteen are letters and digits of ASCII. -/
theorem isAlphanum_of_isHexDigit {c : Char} (hex : Segment.isHexDigit c = true) :
    c.isAlphanum = true := by
  -- The letters up to F are among all letters.
  simp [Segment.isHexDigit, Char.isDigit, Char.le_def, UInt32.le_iff_toNat_le] at hex
  rw [isAlphanum_iff]
  omega

/-- Bytes of a token that start behind anything else are the token before what follows them. -/
theorem tokenBefore_append {token before : List UInt8} (all : ∀ b ∈ token, isTokenByte b = true)
    (edge : before.head?.all fun b => !isTokenByte b) :
    tokenBefore (token.reverse ++ before) = token := by
  -- The token is read backwards up to the byte that is none of its own.
  have inside : ∀ b ∈ token.reverse, isTokenByte b = true := by simpa using all
  have outside : ∀ b ∈ before.head?, isTokenByte b = false := by
    simpa [Option.all_eq_true] using edge
  rw [tokenBefore, takeWhile_run inside outside, List.reverse_reverse]

/-- No encoding starts with a digit in base sixteen. -/
theorem not_literalEncoding {c : Char} (hex : Segment.isHexDigit c = true) (rest : List Char) :
    literalEncodings.contains (Utf8.encode (c :: rest)) = false := by
  -- The marks of encodings start with L, u or U, which are no digits in base sixteen.
  have ranges : 0x30 ≤ c.toNat ∧ c.toNat ≤ 0x39 ∨ 0x61 ≤ c.toNat ∧ c.toNat ≤ 0x66 ∨
      0x41 ≤ c.toNat ∧ c.toNat ≤ 0x46 := by
    simp [Segment.isHexDigit, Char.isDigit, Char.le_def, UInt32.le_iff_toNat_le] at hex
    omega
  have value : (UInt8.ofNat c.toNat).toNat = c.toNat := by
    rw [UInt8.toNat_ofNat']
    omega
  have others : UInt8.ofNat c.toNat ≠ 0x4C ∧ UInt8.ofNat c.toNat ≠ 0x75 ∧
      UInt8.ofNat c.toNat ≠ 0x55 := by
    simp only [ne_eq, ← UInt8.toNat_inj, value, UInt8.reduceToNat]
    omega
  simp [literalEncodings, Utf8.encodeChar_ascii (show c.toNat < 0x80 by omega), others]

/-- Behind a digit group no single quote opens a literal. -/
theorem opensCharacter_group {c : Char} {rest : List Char} {before : List UInt8}
    (hex : Segment.isHexDigit c = true) (all : ∀ d ∈ c :: rest, d.isAlphanum = true)
    (edge : before.head?.all fun b => !isTokenByte b) :
    opensCharacter ((Utf8.encode (c :: rest)).reverse ++ before) = false := by
  -- The token before the quote is the group, and no encoding is spelled like it.
  have token : ∀ b ∈ Utf8.encode (c :: rest), isTokenByte b = true := by
    intro b member
    obtain ⟨d, inGroup, inChar⟩ := List.mem_flatMap.mp member
    exact isTokenByte_of_isAlphanum (all d inGroup) inChar
  rw [opensCharacter, tokenBefore_append token edge]
  exact not_literalEncoding hex rest

/-- Letters and digits of ASCII are kept. -/
theorem shows_alphanumeric {text : List Char} (all : ∀ c ∈ text, c.isAlphanum = true)
    (before : List UInt8) : Shows before text text := by
  -- All these characters are bytes of tokens, which code keeps wherever they stand.
  refine shows_token ?_ before
  intro b member
  obtain ⟨c, inText, inChar⟩ := List.mem_flatMap.mp member
  exact isTokenByte_of_isAlphanum (all c inText) inChar

/-- Digit groups are kept, and so are the quotes between them. -/
theorem shows_groups {groups : List (List Char)}
    (wellFormed : ∀ group ∈ groups, group ≠ [] ∧ ∀ c ∈ group, Segment.isHexDigit c = true)
    {before : List UInt8} (separates : opensCharacter before = false) :
    Shows before (groups.flatMap ('\'' :: ·)) (groups.flatMap ('\'' :: ·)) := by
  -- The invariant along the groups is that a quote at this place would open nothing.
  induction groups generalizing before with
  | nil => exact fun ahead => rfl
  | cons group rest ih =>
    obtain ⟨inhabited, hex⟩ := wellFormed group (by simp)
    have all : ∀ c ∈ group, c.isAlphanum = true := fun c member =>
      isAlphanum_of_isHexDigit (hex c member)
    have quote : Shows before ['\''] ['\''] := fun ahead => .kept (by
      simp [step, stepCode, State.initial, separates, doubleQuote, singleQuote, slash])
    -- The quote ends the token before it, so the next token is this group alone.
    have next :
        opensCharacter ((Utf8.encode group).reverse ++ (singleQuote :: before)) = false := by
      obtain ⟨c, others, rfl⟩ := List.exists_cons_of_ne_nil inhabited
      exact opensCharacter_group (hex c (by simp)) all rfl
    have others := ih (fun g member => wellFormed g (by simp [member])) next
    exact quote.append ((shows_alphanumeric all _).append others)

/-- A number is kept whole: none of its quotes opens a literal. -/
theorem shows_number {first : List Char} {groups : List (List Char)}
    (wellFormed : (Segment.number first groups).WellFormed) {before : List UInt8}
    (edge : (Segment.number first groups).MayFollow before.head?) :
    Shows before (Segment.number first groups).source (Segment.number first groups).view := by
  -- The first group starts with a digit, so it is no encoding either.
  obtain ⟨⟨d, opens, digit⟩, all, hex⟩ := wellFormed
  obtain ⟨rest, rfl⟩ := List.head?_eq_some_iff.mp opens
  have firstHex : Segment.isHexDigit d = true := by simp [Segment.isHexDigit, digit]
  have separates := opensCharacter_group firstHex all edge
  exact (shows_alphanumeric all before).append (shows_groups hex separates)

/-- Bytes that neither end nor escape anything are blanked inside quotes. -/
theorem writes_quoted {quote : UInt8} {text : List UInt8}
    (inner : ∀ b ∈ text, b ≠ backslash ∧ b ≠ quote ∧ b ≠ newline) (before ahead : List UInt8) :
    Writes before ⟨0, .quoted quote⟩ text (text.map blankByte) ⟨0, .quoted quote⟩ ahead := by
  -- The machine leaves the literal only at the bytes that are excluded here.
  refine .staysBlank before ahead ?_
  intro front b back shape
  obtain ⟨notBackslash, notQuote, notNewline⟩ := inner b (by simp [shape])
  simp [step, notBackslash, notQuote, notNewline]

/-- An item is blanked inside quotes, and the literal goes on behind it. -/
theorem writes_item {quoteChar : Char} {quote : UInt8} (ascii : quote < 0x80)
    (number : quoteChar.toNat = quote.toNat) {item : Item}
    (wellFormed : item.WellFormed quoteChar) (before ahead : List UInt8) :
    Writes before ⟨0, .quoted quote⟩ (Utf8.encode item.source)
      ((Utf8.encode item.source).map blankByte) ⟨0, .quoted quote⟩ ahead := by
  -- An escaped character of several bytes is skipped by its first byte and blanked by the rest.
  cases item with
  | plain c =>
    obtain ⟨notQuote, notBackslash, notNewline⟩ := wellFormed
    refine writes_quoted ?_ before ahead
    have single : Utf8.encode (Item.plain c).source = String.utf8EncodeChar c := List.append_nil _
    intro b member
    rw [single] at member
    -- Each of these bytes is one of ASCII, so it would be the character itself.
    refine ⟨?_, ?_, ?_⟩
    · rintro rfl
      exact notBackslash (Char.toNat_inj.mp (Utf8.toNat_of_mem_encodeChar (by decide) member))
    · rintro rfl
      have same := Utf8.toNat_of_mem_encodeChar ascii member
      exact notQuote (Char.toNat_inj.mp (same.trans number.symm))
    · rintro rfl
      exact notNewline (Char.toNat_inj.mp (Utf8.toNat_of_mem_encodeChar (by decide) member))
  | escaped c =>
    have inhabited : String.utf8EncodeChar c ≠ [] := String.utf8EncodeChar_ne_nil
    obtain ⟨first, others, shape⟩ := List.exists_cons_of_ne_nil inhabited
    have source : Utf8.encode (Item.escaped c).source = [backslash] ++ ([first] ++ others) := by
      have : Utf8.encode (Item.escaped c).source = [backslash] ++ String.utf8EncodeChar c :=
        congrArg (backslash :: ·) (List.append_nil _)
      rw [this, shape]
      rfl
    -- Bytes behind the first are there only in characters beyond ASCII.
    have beyond : ∀ b ∈ others, 0x80 ≤ b := by
      by_cases small : c.toNat < 0x80
      · rw [Utf8.encodeChar_ascii small] at shape
        simp [(List.cons.inj shape).2.symm]
      · intro b member
        exact Utf8.le_of_mem_encodeChar (c := c) (by omega) (by simp [shape, member])
    -- Backslash, the byte it escapes and the bytes that belong to the same character.
    have escape : Writes before ⟨0, .quoted quote⟩ [backslash] [blankByte backslash]
        ⟨1, .quoted quote⟩ (([first] ++ others) ++ ahead) := .blanked rfl
    have skipped : Writes (backslash :: before) ⟨1, .quoted quote⟩ [first] [blankByte first]
        ⟨0, .quoted quote⟩ (others ++ ahead) := .skip (.quoted quote) [first] _ _
    have rest : Writes (first :: backslash :: before) ⟨0, .quoted quote⟩ others
        (others.map blankByte) ⟨0, .quoted quote⟩ ahead := by
      refine writes_quoted ?_ _ _
      intro b member
      have := beyond b member
      exact ⟨by grind, by grind, by grind⟩
    rw [source]
    simpa using escape.append (skipped.append rest)

/-- The items of a literal are blanked one after the other. -/
theorem writes_items {quoteChar : Char} {quote : UInt8} (ascii : quote < 0x80)
    (number : quoteChar.toNat = quote.toNat) {items : List Item}
    (wellFormed : ∀ item ∈ items, item.WellFormed quoteChar) (before ahead : List UInt8) :
    Writes before ⟨0, .quoted quote⟩ (Utf8.encode (itemsSource items))
      ((Utf8.encode (itemsSource items)).map blankByte) ⟨0, .quoted quote⟩ ahead := by
  -- Behind each item the machine is inside the same literal again.
  induction items generalizing before with
  | nil => rfl
  | cons item rest ih =>
    have shape : Utf8.encode (itemsSource (item :: rest)) =
        Utf8.encode item.source ++ Utf8.encode (itemsSource rest) := Utf8.encode_append ..
    rw [shape, List.map_append]
    exact (writes_item ascii number (wellFormed item (by simp)) before _).append
      (ih (fun other member => wellFormed other (by simp [member])) _)

/-- A closing quote is kept and ends its literal. -/
theorem step_closing {quote : UInt8} (notBackslash : quote ≠ backslash)
    (before ahead : List UInt8) :
    step before ⟨0, .quoted quote⟩ quote ahead = ⟨true, .initial⟩ := by
  -- The quote is no escape, so it is tested as the end of the literal.
  simp [step, notBackslash, State.initial]

/-- A literal is blanked between its quotes, once its first quote is read as one. -/
theorem shows_quoted {quoteChar : Char} {quote : UInt8} (single : Utf8.encode [quoteChar] = [quote])
    (ascii : quote < 0x80) (number : quoteChar.toNat = quote.toNat)
    (notBackslash : quote ≠ backslash) {items : List Item}
    (wellFormed : ∀ item ∈ items, item.WellFormed quoteChar) {before : List UInt8}
    (opening : ∀ ahead, step before .initial quote ahead = ⟨true, 0, .quoted quote⟩) :
    Shows before ([quoteChar] ++ itemsSource items ++ [quoteChar])
      ([quoteChar] ++ blankText (itemsSource items) ++ [quoteChar]) := by
  -- Opening quote, items and closing quote are written one after the other.
  intro ahead
  have opens : Writes before .initial [quote] [quote] ⟨0, .quoted quote⟩
      ((Utf8.encode (itemsSource items) ++ [quote]) ++ ahead) := .kept (opening _)
  have inside := writes_items ascii number wellFormed (quote :: before) ([quote] ++ ahead)
  have closes := Writes.kept (step_closing notBackslash
    ((Utf8.encode (itemsSource items)).reverse ++ quote :: before) ahead)
  have whole := opens.append (inside.append closes)
  simp only [Utf8.encode_append, encode_blankText, single, List.append_assoc]
  exact whole

/-- A string is blanked between its quotes. -/
theorem shows_string {items : List Item} (wellFormed : (Segment.string items).WellFormed)
    {before : List UInt8} (edge : (Segment.string items).MayFollow before.head?) :
    Shows before (Segment.string items).source (Segment.string items).view := by
  -- Only an `R` right before the quote could make the string a raw one.
  have noMark : endsInRawMark before = false := by
    cases before with
    | nil => rfl
    | cons b rest =>
      have other : b ≠ 0x52 := by simpa [Segment.MayFollow] using edge
      unfold endsInRawMark
      split <;> simp_all
  have opening : ∀ ahead, step before .initial doubleQuote ahead =
      ⟨true, 0, .quoted doubleQuote⟩ := by
    intro ahead
    simp [step, stepCode, State.initial, rawOpening?, noMark, doubleQuote, slash]
  exact shows_quoted rfl (by decide) rfl (by decide) wellFormed opening

/-- The mark of an encoding is one of the encodings that the machine knows. -/
theorem mark_mem_literalEncodings (encoding : Encoding) :
    Utf8.encode encoding.mark ∈ literalEncodings := by
  -- Each mark is a row of the table.
  cases encoding <;> decide

/-- The mark of an encoding consists of bytes of tokens. -/
theorem isTokenByte_of_mem_mark (encoding : Encoding) :
    ∀ b ∈ Utf8.encode encoding.mark, isTokenByte b = true := by
  -- There are few encodings, so their marks are listed.
  have all : (Utf8.encode encoding.mark).all isTokenByte = true := by
    cases encoding <;> decide
  exact List.all_eq_true.mp all

/-- A character literal is blanked between its quotes. -/
theorem shows_character {encoding : Encoding} {items : List Item}
    (wellFormed : (Segment.character encoding items).WellFormed) {before : List UInt8}
    (edge : (Segment.character encoding items).MayFollow before.head?) :
    Shows before (Segment.character encoding items).source
      (Segment.character encoding items).view := by
  -- The mark stands alone before the quote, so the quote opens a literal.
  have named : opensCharacter ((Utf8.encode encoding.mark).reverse ++ before) = true := by
    rw [opensCharacter, tokenBefore_append (isTokenByte_of_mem_mark encoding) edge]
    exact List.contains_iff_mem.mpr (mark_mem_literalEncodings encoding)
  have opening : ∀ ahead, step ((Utf8.encode encoding.mark).reverse ++ before) .initial
      singleQuote ahead = ⟨true, 0, .quoted singleQuote⟩ := by
    intro ahead
    simp [step, stepCode, State.initial, named, singleQuote, doubleQuote, slash]
  have literal := shows_quoted rfl (by decide) rfl (by decide) wellFormed opening
  have whole := (shows_token (isTokenByte_of_mem_mark encoding) before).append literal
  simpa only [Segment.source, Segment.view, List.append_assoc] using whole

/-- A delimiter that fits is read up to its parenthesis. -/
theorem delimiter?_append {room : Nat} {delimiter : List UInt8} (fits : delimiter.length ≤ room)
    (inner : ∀ b ∈ delimiter, b ≠ openParen ∧ endsDelimiter b = false) (ahead : List UInt8) :
    delimiter? room (delimiter ++ openParen :: ahead) = some delimiter := by
  -- Each byte of the delimiter uses up one unit of the room that is left.
  induction delimiter generalizing room with
  | nil => cases room <;> rfl
  | cons b rest ih =>
    obtain ⟨notOpen, notStop⟩ := inner b (by simp)
    cases room with
    | zero => simp at fits
    | succ room =>
      have roomLeft : rest.length ≤ room := by simpa using fits
      have others := ih roomLeft (fun c member => inner c (by simp [member]))
      simp [delimiter?, notOpen, notStop, others]

/-- Behind an encoding and an `R`, a double quote opens a raw string. -/
theorem endsInRawMark_mark {encoding : Encoding} {before : List UInt8}
    (edge : encoding = .ordinary → before.head?.all fun b => !isTokenByte b) :
    endsInRawMark (0x52 :: ((Utf8.encode encoding.mark).reverse ++ before)) = true := by
  -- Without a mark the byte before the R must not belong to a token; a mark ends in a known byte.
  cases encoding with
  | ordinary =>
    have apart := edge rfl
    cases before with
    | nil => rfl
    | cons b rest =>
      have : isTokenByte b = false := by simpa using apart
      simp [Encoding.mark, endsInRawMark, this]
  | wide => rfl
  | utf16 => rfl
  | utf32 => rfl
  | utf8 => rfl

/-- The bytes of a delimiter do not end it. -/
theorem delimiter_inner {delimiter : List Char}
    (inner : ∀ c ∈ delimiter, c ∉ Segment.delimiterStops) {b : UInt8}
    (member : b ∈ Utf8.encode delimiter) : b ≠ openParen ∧ endsDelimiter b = false := by
  -- All bytes that end a delimiter are of ASCII, so each would be one of the excluded characters.
  have ascii : ∀ c ∈ Segment.delimiterStops,
      UInt8.ofNat c.toNat < 0x80 ∧ c.toNat = (UInt8.ofNat c.toNat).toNat := by
    intro c stops
    simp only [Segment.delimiterStops, List.mem_cons, List.not_mem_nil, or_false] at stops
    rcases stops with rfl | rfl | rfl | rfl | rfl | rfl <;> decide
  have other : ∀ c ∈ Segment.delimiterStops, b ≠ UInt8.ofNat c.toNat := by
    intro c stops same
    subst same
    exact Utf8.not_mem_encode (ascii c stops).1 (ascii c stops).2
      (fun inside => inner c inside stops) member
  simp only [Segment.delimiterStops, List.forall_mem_cons] at other
  obtain ⟨notSpace, notBackslash, notOpen, notClose, notNewline, notQuote, -⟩ := other
  refine ⟨notOpen, ?_⟩
  simp only [endsDelimiter, Bool.or_eq_false_iff, beq_eq_false_iff_ne]
  exact ⟨⟨⟨⟨notSpace, notBackslash⟩, notClose⟩, notNewline⟩, notQuote⟩

/-- Inside a raw string, everything up to the closing quote is blanked. -/
theorem writes_raw {delimiter body : List UInt8}
    (once : closeParen ∉ delimiter ++ [doubleQuote])
    (absent : ¬ (closeParen :: (delimiter ++ [doubleQuote])) <:+: body)
    (before ahead : List UInt8) :
    Writes before ⟨0, .raw delimiter⟩ (body ++ ([closeParen] ++ (delimiter ++ [doubleQuote])))
      (body.map blankByte ++ ([blankByte closeParen] ++ (delimiter.map blankByte ++ [doubleQuote])))
      .initial ahead := by
  -- The body is blanked because the closing sequence cannot start inside it.
  have inside : Writes before ⟨0, .raw delimiter⟩ body (body.map blankByte) ⟨0, .raw delimiter⟩
      (([closeParen] ++ (delimiter ++ [doubleQuote])) ++ ahead) := by
    refine .staysBlank _ _ ?_
    intro front b back shape
    have early := not_prefix_before_close once absent shape (by simp) ahead
    exact if_neg (mt List.isPrefixOf_iff_prefix.mp early)
  -- At the parenthesis the closing sequence is ahead; it is skipped up to its quote.
  have closes : Writes (body.reverse ++ before) ⟨0, .raw delimiter⟩ [closeParen]
      [blankByte closeParen] ⟨delimiter.length, .rawQuote⟩
      ((delimiter ++ [doubleQuote]) ++ ahead) := by
    have found : (closeParen :: delimiter ++ [doubleQuote]).isPrefixOf
        (closeParen :: ((delimiter ++ [doubleQuote]) ++ ahead)) = true :=
      List.isPrefixOf_iff_prefix.mpr
        (List.prefix_append (closeParen :: delimiter ++ [doubleQuote]) _)
    exact .blanked (if_pos found)
  have skipped := Writes.skip .rawQuote delimiter (closeParen :: (body.reverse ++ before))
    ([doubleQuote] ++ ahead)
  have last : Writes (delimiter.reverse ++ closeParen :: (body.reverse ++ before)) ⟨0, .rawQuote⟩
      [doubleQuote] [doubleQuote] .initial ahead := .kept rfl
  exact inside.append (closes.append (skipped.append last))

/-- The quote of a raw string is kept, and its delimiter is skipped. -/
theorem step_rawOpening {before ahead delimiter : List UInt8}
    (opens : rawOpening? before ahead = some delimiter) :
    step before .initial doubleQuote ahead = ⟨true, delimiter.length + 1, .raw delimiter⟩ := by
  -- A double quote is tested for a raw string before it opens a plain one.
  simp [step, stepCode, State.initial, opens, doubleQuote, slash]

/-- A raw string is blanked between its quotes, delimiters included. -/
theorem shows_rawQuoted {delimiter body : List Char} (short : byteSize delimiter ≤ 16)
    (inner : ∀ c ∈ delimiter, c ∉ Segment.delimiterStops)
    (unclosed : ¬ (')' :: delimiter ++ ['"']) <:+: body) {before : List UInt8}
    (marked : endsInRawMark before = true) :
    Shows before (['"'] ++ (delimiter ++ ['('] ++ body ++ [')'] ++ delimiter) ++ ['"'])
      (['"'] ++ blankText (delimiter ++ ['('] ++ body ++ [')'] ++ delimiter) ++ ['"']) := by
  -- The side conditions on characters are moved to bytes before the machine runs over them.
  intro ahead
  have fits : (Utf8.encode delimiter).length ≤ delimiterLimit := by
    rw [Utf8.length_encode]
    exact short
  have absent : ¬ (closeParen :: (Utf8.encode delimiter ++ [doubleQuote])) <:+:
      Utf8.encode body := by
    intro occurs
    refine unclosed (Utf8.infix_of_encode (by decide) ?_)
    rw [List.append_eq, Utf8.encode_cons, Utf8.encode_append]
    exact occurs
  have once : closeParen ∉ Utf8.encode delimiter ++ [doubleQuote] := by
    intro member
    rcases List.mem_append.mp member with inside | last
    · exact absurd (delimiter_inner inner inside).2 (by decide)
    · exact absurd last (by decide)
  have read : rawOpening? before (((Utf8.encode delimiter ++ [openParen]) ++ (Utf8.encode body ++
      ([closeParen] ++ (Utf8.encode delimiter ++ [doubleQuote])))) ++ ahead) =
      some (Utf8.encode delimiter) := by
    rw [rawOpening?, if_pos marked, List.append_assoc, List.append_assoc]
    exact delimiter?_append fits (fun b => delimiter_inner inner) _
  -- From the opening quote over the delimiter and its parenthesis to the closing quote.
  have opens := Writes.kept (step_rawOpening read)
  have skipped := Writes.skip (.raw (Utf8.encode delimiter)) (Utf8.encode delimiter ++ [openParen])
    (doubleQuote :: before) ((Utf8.encode body ++
      ([closeParen] ++ (Utf8.encode delimiter ++ [doubleQuote]))) ++ ahead)
  rw [List.length_append] at skipped
  have rest := writes_raw once absent
    ((Utf8.encode delimiter ++ [openParen]).reverse ++ doubleQuote :: before) ahead
  have whole := opens.append (skipped.append rest)
  simp only [Utf8.encode_append, encode_blankText, List.map_append, List.append_assoc] at whole ⊢
  exact whole

/-- A raw string is blanked between its quotes, whatever its encoding. -/
theorem shows_rawString {encoding : Encoding} {delimiter body : List Char}
    (wellFormed : (Segment.rawString encoding delimiter body).WellFormed) {before : List UInt8}
    (edge : (Segment.rawString encoding delimiter body).MayFollow before.head?) :
    Shows before (Segment.rawString encoding delimiter body).source
      (Segment.rawString encoding delimiter body).view := by
  -- Mark and letter are a token in front of the quoted part.
  obtain ⟨short, inner, unclosed⟩ := wellFormed
  have mark := shows_token (isTokenByte_of_mem_mark encoding) before
  have letter : Shows ((Utf8.encode encoding.mark).reverse ++ before) ['R'] ['R'] :=
    shows_token (List.all_eq_true.mp (by decide)) _
  have literal := shows_rawQuoted short inner unclosed (endsInRawMark_mark edge)
  have whole := mark.append (letter.append literal)
  simp only [Segment.source, Segment.view, List.append_assoc] at whole ⊢
  exact whole

/-- Every well-formed segment in its place is shown as its view. -/
theorem shows_segment {segment : Segment} (wellFormed : segment.WellFormed) {before : List UInt8}
    (edge : segment.MayFollow before.head?) : Shows before segment.source segment.view := by
  -- One lemma for each kind of segment; numbers and literals also need the edge before them.
  cases segment with
  | code text => exact shows_code wellFormed before
  | lineComment body => exact shows_lineComment wellFormed before
  | blockComment body => exact shows_blockComment wellFormed before
  | number first groups => exact shows_number wellFormed edge
  | string items => exact shows_string wellFormed edge
  | character encoding items => exact shows_character wellFormed edge
  | rawString encoding delimiter body => exact shows_rawString wellFormed edge

/-- Well-formed segments are shown one after the other. -/
theorem shows_segments {segments : List Segment} {before : List UInt8}
    (wellFormed : WellFormedFrom before segments) :
    Shows before (segments.flatMap Segment.source) (segments.flatMap Segment.view) := by
  -- Each segment leaves the machine in code, which is where the next one starts.
  induction segments generalizing before with
  | nil => exact fun ahead => rfl
  | cons segment rest ih =>
    obtain ⟨first, edge, others⟩ := wellFormed
    exact (shows_segment first edge).append (ih others)

/-- The code view of a text made of segments blanks their comments and literal contents only. -/
theorem ofText_segments (segments : List Segment) (wellFormed : WellFormedFrom [] segments) :
    ofText (segments.flatMap Segment.source) = segments.flatMap Segment.view := by
  -- With nothing ahead the machine stops, and what it wrote is read back as text.
  have written := shows_segments wellFormed []
  rw [Writes, List.append_nil, List.append_nil] at written
  rw [ofText, blankBytes, written, blankFrom, List.append_nil, Utf8.decode_encode]

/-- Every kind of segment at once, each holding marks of the others. -/
theorem ofText_segments_mixed :
    let segments : List Segment :=
      [.code "x/y=".toList, .number "0x1F".toList ["fF".toList, "7".toList],
        .lineComment "don't \"é".toList, .blockComment "'\n\"*".toList,
        .rawString .utf8 "é".toList "a)\"//\n".toList, .code ",".toList,
        .character .wide [.escaped '\'', .plain '"'],
        .string [.plain '\'', .escaped '\n', .escaped '"', .plain '/', .plain '*'],
        .code ";".toList]
    segments.flatMap Segment.source =
        "x/y=0x1F'fF'7//don't \"é\n/*'\n\"**/u8R\"é(a)\"//\n)é\",L'\\'\"'\"'\\\n\\\"/*\";".toList ∧
      WellFormedFrom [] segments ∧
      ofText (segments.flatMap Segment.source) = segments.flatMap Segment.view := by
  intro segments
  exact ⟨by decide, by decide, ofText_segments segments (by decide)⟩

end LockDiscipline.CodeView
