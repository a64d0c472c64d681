import LockDiscipline.Proofs.CodeView.Segments
import LockDiscipline.Proofs.CodeView.States
import LockDiscipline.Proofs.Rule.Surroundings

/-! Words in the code view: each is shown or blanked as a whole, with its edges in the text. -/

namespace LockDiscipline.CodeView

open LockDiscipline.Text

/-- Bytes of words: those of tokens, and all beyond ASCII. -/
def isWordByte (b : UInt8) : Bool :=
  isTokenByte b || 0x80 ≤ b

/-- The bytes at which the machine may go on in another state. -/
def marks : List UInt8 :=
  [slash, star, doubleQuote, singleQuote, backslash, newline, closeParen]

/-- No mark is a byte of a word. -/
theorem ne_of_mem_marks {b mark : UInt8} (word : isWordByte b = true) (known : mark ∈ marks) :
    b ≠ mark := by
  -- The marks are a finite table, so they are gone through.
  rintro rfl
  have table : marks.all (!isWordByte ·) = true := by decide
  have apart := List.all_eq_true.mp table b known
  simp [word] at apart

/-- A byte of a word is kept exactly in code, and the machine stays in or out of code. -/
theorem step_wordByte {state : State} {b : UInt8} {ahead : List UInt8} (before : List UInt8)
    (word : isWordByte b = true) (stands : state.StandsBefore (b :: ahead)) :
    ((step before state b ahead).keep = true ↔ state = .initial) ∧
      ((step before state b ahead).next = .initial ↔ state = .initial) := by
  -- A byte of a word is none of the bytes that the machine reacts to.
  have other : ∀ mark ∈ marks, b ≠ mark := fun _ => ne_of_mem_marks word
  simp only [marks, List.forall_mem_cons] at other
  obtain ⟨notSlash, notStar, notDouble, notSingle, notBackslash, notNewline, notClose, -⟩ := other
  -- Where a comment or a raw string is about to end, a mark is ahead and no byte of a word.
  cases stands with
  | code => simp [step, stepCode, State.initial, notSlash, notDouble, notSingle]
  | commentEnd next => exact absurd (Option.some.inj next) notSlash
  | lineComment => simp [step, State.initial, notNewline]
  | commentStart => simp [step, State.initial]
  | blockComment => simp [step, State.initial, notStar]
  | @quoted quote isQuote =>
    have notQuote : b ≠ quote := by
      rcases isQuote with rfl | rfl
      · exact notDouble
      · exact notSingle
    simp [step, State.initial, notBackslash, notQuote, notNewline]
  | escape => simp [step, State.initial]
  | @raw delimiter skip =>
    cases skip with
    | succ skip => simp [step, State.initial]
    | zero => simp [step, State.initial, notClose.symm]
  | @rawQuote skip seen closes =>
    cases skip with
    | succ skip => simp [step, State.initial]
    | zero => exact absurd (Option.some.inj closes) notDouble

/-- Bytes of words are all kept in code and all blanked anywhere else. -/
theorem writes_wordBytes {bytes : List UInt8} (word : ∀ b ∈ bytes, isWordByte b = true)
    {state : State} {ahead : List UInt8} (before : List UInt8)
    (stands : state.StandsBefore (bytes ++ ahead)) :
    ∃ next : State, next.StandsBefore ahead ∧ (next = .initial ↔ state = .initial) ∧
      Writes before state bytes (if state = .initial then bytes else bytes.map blankByte) next
        ahead := by
  -- Being in code is carried along the bytes, since none of them can change it.
  induction bytes generalizing before state with
  | nil => exact ⟨state, stands, Iff.rfl, by simp [Writes]⟩
  | cons b rest ih =>
    obtain ⟨here, others⟩ := List.forall_mem_cons.mp word
    obtain ⟨kept, onward⟩ := step_wordByte before here stands
    obtain ⟨next, standsNext, stays, written⟩ :=
      ih others (b :: before) (standsBefore_step before stands)
    refine ⟨next, standsNext, stays.trans onward, ?_⟩
    generalize reads : step before state b (rest ++ ahead) = s at kept onward written
    obtain ⟨keep, middle⟩ := s
    -- All of the bytes are kept or all are blanked, as the first one is.
    by_cases inCode : state = .initial
    · obtain rfl : keep = true := kept.mpr inCode
      rw [if_pos (onward.mpr inCode)] at written
      rw [if_pos inCode]
      exact (Writes.kept reads).append written
    · obtain rfl : keep = false := Bool.eq_false_iff.mpr (mt kept.mp inCode)
      rw [if_neg (mt onward.mp inCode)] at written
      rw [if_neg inCode]
      exact (Writes.blanked reads).append written

/-- The bytes of a word character are bytes of words, and so are all bytes beyond ASCII. -/
theorem isWordByte_of_mem_encodeChar {c : Char} (word : isWordChar c = true ∨ 0x80 ≤ c.toNat)
    {b : UInt8} (member : b ∈ String.utf8EncodeChar c) : isWordByte b = true := by
  rw [isWordByte, Bool.or_eq_true]
  -- Within ASCII, the word characters are those of tokens.
  by_cases beyond : 0x80 ≤ c.toNat
  · exact .inr (decide_eq_true (Utf8.le_of_mem_encodeChar beyond member))
  · have ascii : isAsciiWord c = true := by
      have isWord := word.resolve_right beyond
      rwa [isWordChar, if_pos (by omega)] at isWord
    rcases Bool.or_eq_true_iff.mp ascii with alphanumeric | underscore
    · exact .inl (isTokenByte_of_isAlphanum alphanumeric member)
    · obtain rfl := beq_iff_eq.mp underscore
      rw [Utf8.encodeChar_ascii (by decide), List.mem_singleton] at member
      subst member
      exact .inl rfl

/-- How a character shows in a view: as it is, or blanked. -/
def showChar (keep : Bool) (c : Char) : List Char :=
  if keep then [c] else blankChar c

/-- A character is shown by its bytes, all of them kept or all of them blanked. -/
theorem encode_showChar (keep : Bool) (c : Char) :
    Utf8.encode (showChar keep c) =
      if keep then String.utf8EncodeChar c else (String.utf8EncodeChar c).map blankByte := by
  -- A kept character is itself, and the blank of one was computed above.
  cases keep with
  | true => simp [showChar]
  | false => exact encode_blankChar c

/-- A blanked character leaves nothing of a word. -/
theorem isWordChar_of_mem_blankChar {c d : Char} (member : d ∈ blankChar c) :
    isWordChar d = false := by
  -- What it leaves is white space: a line break or spaces.
  apply isWordChar_of_isBlank
  unfold blankChar at member
  split at member
  · rename_i atBreak
    obtain rfl := List.mem_singleton.mp member
    rw [atBreak]
    decide
  · obtain rfl := List.eq_of_mem_replicate member
    decide

/-- Every character leaves at least one in the view. -/
theorem showChar_ne_nil (keep : Bool) (c : Char) : showChar keep c ≠ [] := by
  -- A kept character is there itself, and a blank has one space for each byte.
  unfold showChar blankChar
  split
  · simp
  · split
    · simp
    · simpa using c.utf8Size_pos.ne'

/-- Only a word character that is kept shows as one. -/
theorem touchesWord_showChar (keep : Bool) (c : Char) (view : List Char) :
    Cursor.touchesWord (showChar keep c ++ view).head? = (keep && isWordChar c) := by
  cases keep with
  | true => rfl
  -- A blank consists of spaces and line breaks, neither of which touches a word.
  | false =>
    obtain ⟨d, others, shape⟩ := List.exists_cons_of_ne_nil (showChar_ne_nil false c)
    have inside : d ∈ blankChar c := by
      rw [show blankChar c = d :: others from shape]
      exact List.mem_cons_self
    rw [shape]
    exact isWordChar_of_mem_blankChar inside

/-- What shows a character other than a line break stays on its line. -/
theorem break_not_mem_showChar {c : Char} (inLine : c ≠ '\n') (keep : Bool) :
    '\n' ∉ showChar keep c := by
  -- A blank holds a break only for a break.
  cases keep with
  | true => simpa [showChar] using inLine.symm
  | false => simp [showChar, blankChar, inLine]

/-- A cut in front of a word does not divide what shows a character. -/
theorem cut_showChar {keep : Bool} {c : Char} {view before tail : List Char}
    (shape : showChar keep c ++ view = before ++ tail)
    (starts : Cursor.touchesWord tail.head? = true) :
    before = [] ∨ ∃ rest, before = showChar keep c ++ rest ∧ view = rest ++ tail := by
  -- Either the cut lies behind the first character, or it falls inside what shows it.
  rcases List.append_eq_append_iff.mp shape with ⟨rest, front, back⟩ | ⟨rest, front, back⟩
  · exact .inr ⟨rest, front, back⟩
  · cases rest with
    | nil => exact .inr ⟨[], by simpa using front.symm, by simpa using back.symm⟩
    | cons d more =>
      -- The word starts inside, so the character is kept and is the first of the word.
      have isWord : isWordChar d = true := by simpa [back, Cursor.touchesWord] using starts
      cases keep with
      | true =>
        cases before with
        | nil => exact .inl rfl
        | cons e others => exact absurd front (by simp [showChar])
      | false =>
        have inside : d ∈ blankChar c := by
          rw [show blankChar c = before ++ d :: more from front]
          simp
        simp [isWordChar_of_mem_blankChar inside] at isWord

/--
A view that shows every word as a whole or blanks it as a whole.

Words are shown in code and blanked elsewhere; only a character that belongs to no word may change
which of the two comes next.
-/
inductive WordView : (inCode : Bool) → (text view : List Char) → Prop where
  | nil (inCode : Bool) : WordView inCode [] []
  | cons {c : Char} {inCode keep next : Bool} {text view : List Char}
      (whole : isWordChar c = true → keep = inCode ∧ next = inCode) :
      WordView next text view → WordView inCode (c :: text) (showChar keep c ++ view)

/-- From a state in which it can stand, the machine writes a view that shows words as a whole. -/
theorem blankFrom_wordView (before : List UInt8) {state : State} (text : List Char)
    (stands : state.StandsBefore (Utf8.encode text)) :
    ∃ view, WordView (state = .initial) text view ∧
      blankFrom before state (Utf8.encode text) = Utf8.encode view := by
  -- Whether the machine is in code is all that the view of the next word depends on.
  induction text generalizing before state with
  | nil => exact ⟨[], .nil _, rfl⟩
  | cons c rest ih =>
    rw [Utf8.encode_cons] at stands ⊢
    by_cases plain : isWordChar c = true ∨ 0x80 ≤ c.toNat
    · -- The machine keeps all bytes of the character or none, and stays in or out of code.
      obtain ⟨next, standsNext, stays, written⟩ :=
        writes_wordBytes (fun _ => isWordByte_of_mem_encodeChar plain) before stands
      obtain ⟨view, wordwise, others⟩ := ih _ standsNext
      refine ⟨showChar (state = .initial) c ++ view, .cons (fun _ => ⟨rfl, ?_⟩) wordwise, ?_⟩
      · simp only [stays]
      · rw [written, others, Utf8.encode_append, encode_showChar]
        simp
    · -- Any other character is one byte, behind which the machine may be in another state.
      obtain ⟨noWord, ascii⟩ := not_or.mp plain
      have single := Utf8.encodeChar_ascii (c := c) (by omega)
      rw [single, List.singleton_append] at stands ⊢
      have standsNext := standsBefore_step before stands
      generalize reads : step before state (UInt8.ofNat c.toNat) (Utf8.encode rest) = s
        at standsNext
      obtain ⟨keep, next⟩ := s
      obtain ⟨view, wordwise, others⟩ := ih (UInt8.ofNat c.toNat :: before) standsNext
      refine ⟨showChar keep c ++ view, .cons (absurd · noWord) wordwise, ?_⟩
      rw [blankFrom_cons, reads, others, Utf8.encode_append, encode_showChar, single, Step.apply_eq]
      cases keep <;> rfl

/-- The code view shows every word as a whole or blanks it as a whole. -/
theorem ofText_wordView (text : List Char) : WordView true text (ofText text) := by
  -- The machine starts in code, so its run over bytes is a view word by word.
  have stands : State.initial.StandsBefore (Utf8.encode text) := .code
  obtain ⟨view, wordwise, written⟩ := blankFrom_wordView [] text stands
  rw [ofText, blankBytes, written, Utf8.decode_encode]
  simpa using wordwise

namespace WordView

variable {inCode : Bool} {text view : List Char}

/-- A view starts with a word exactly if its text does and the word is in code. -/
theorem touchesWord_head? (wordwise : WordView inCode text view) :
    Cursor.touchesWord view.head? = (inCode && Cursor.touchesWord text.head?) := by
  -- The first character decides: a word is shown as a whole or not at all.
  cases wordwise with
  | nil => simp [Cursor.touchesWord]
  | @cons c _ keep _ _ _ whole =>
    rw [touchesWord_showChar]
    cases isWord : isWordChar c with
    | true => simp [Cursor.touchesWord, isWord, (whole isWord).1]
    | false => simp [Cursor.touchesWord, isWord]

/-- A view that starts with a word starts in code. -/
theorem inCode_of_touchesWord (wordwise : WordView inCode text view)
    (starts : Cursor.touchesWord view.head? = true) : inCode = true := by
  -- A view shows a word at its start only for text that is in code.
  rw [wordwise.touchesWord_head?] at starts
  exact (Bool.and_eq_true_iff.mp starts).1

/-- A word at the start of a view stands at the start of the text, and ends there as well. -/
theorem exists_rest {word after : List Char} (isWord : ∀ c ∈ word, isWordChar c = true)
    (wordwise : WordView true text (word ++ after))
    (edge : Cursor.touchesWord after.head? = false) :
    ∃ rest, text = word ++ rest ∧ Cursor.touchesWord rest.head? = false := by
  -- Along the word the view stays in code, so behind it the text goes on as the view does.
  induction word generalizing text with
  | nil => exact ⟨text, rfl, by simpa [edge] using wordwise.touchesWord_head?.symm⟩
  | cons c others ih =>
    obtain ⟨starts, more⟩ := List.forall_mem_cons.mp isWord
    rw [List.cons_append] at wordwise
    generalize shape : c :: (others ++ after) = view at wordwise
    cases wordwise with
    | nil => exact absurd shape (by simp)
    | @cons d _ keep _ _ shown whole behind =>
      -- The view starts with a word character, so the one of the text is kept.
      have head := touchesWord_showChar keep d shown
      rw [← shape, List.head?_cons] at head
      obtain ⟨rfl, inside⟩ : keep = true ∧ isWordChar d = true := by
        simpa [Cursor.touchesWord, starts] using head
      obtain rfl := (whole inside).2
      obtain ⟨rfl, rfl⟩ := List.cons.inj shape
      obtain ⟨rest, rfl, restEdge⟩ := ih more behind
      exact ⟨rest, rfl, restEdge⟩

/--
A word with its edges in a view is a word with its edges in the text.

The word opens the text only if it opens the view, which fixes what may stand in front of it.
-/
theorem exists_word {word before after : List Char} (isName : IsName word)
    (wordwise : WordView inCode text view) (shape : view = before ++ (word ++ after))
    (left : Cursor.touchesWord before.getLast? = false)
    (right : Cursor.touchesWord after.head? = false) :
    ∃ lead rest, text = lead ++ (word ++ rest) ∧ Cursor.touchesWord lead.getLast? = false ∧
      Cursor.touchesWord rest.head? = false ∧ (lead = [] → before = []) := by
  have starts := isName.touchesWord after
  -- Along the view; the word lies behind the first character or starts with it.
  induction wordwise generalizing before with
  | nil => simp [isName.inhabited] at shape
  | @cons c inCode keep next text view whole behind ih =>
    rcases cut_showChar shape starts with rfl | ⟨between, rfl, cut⟩
    · -- The word opens the view, so it is in code and opens the text.
      have opening : WordView inCode (c :: text) (word ++ after) := shape ▸ .cons whole behind
      obtain rfl := opening.inCode_of_touchesWord starts
      obtain ⟨rest, opens, edge⟩ := opening.exists_rest isName.word right
      exact ⟨[], rest, opens, rfl, edge, fun _ => rfl⟩
    · have edge : Cursor.touchesWord between.getLast? = false := by
        cases last : between.getLast? with
        | none => rfl
        | some d => simpa [List.getLast?_append, last] using left
      obtain ⟨lead, rest, rfl, leadEdge, restEdge, first⟩ := ih cut edge
      refine ⟨c :: lead, rest, rfl, ?_, restEdge, by simp⟩
      cases lead with
      | cons d others => simpa [List.getLast?_cons] using leadEdge
      | nil =>
        -- The word follows at once; were the character part of a word, it would be shown too.
        obtain rfl := first rfl
        cases isWord : isWordChar c with
        | false => simp [Cursor.touchesWord, isWord]
        | true =>
          obtain ⟨rfl, rfl⟩ := whole isWord
          obtain rfl := behind.inCode_of_touchesWord (by rw [cut]; exact starts)
          simp [showChar, Cursor.touchesWord, isWord] at left

/-- A word that a view shows is shown by the text. -/
theorem showsWord {word : List Char} (wordwise : WordView inCode text view) (isName : IsName word)
    (shows : ShowsWord word view) : ShowsWord word text := by
  -- The edges of the word are not word characters in the view, and then none in the text.
  obtain ⟨before, after, shape, left, right⟩ := shows
  rw [List.append_assoc] at shape
  obtain ⟨lead, rest, placed, leadEdge, restEdge, -⟩ := wordwise.exists_word isName shape left right
  exact ⟨lead, rest, by simpa using placed, leadEdge, restEdge⟩

/-- Line by line, words show as a whole, and the first line starts in or out of code as the view. -/
theorem exists_lines (wordwise : WordView inCode text view) :
    ∃ line others shown later, lines text = line :: others ∧ lines view = shown :: later ∧
      WordView inCode line shown ∧
      List.Forall₂ (fun line shown => ∃ inCode, WordView inCode line shown) others later := by
  -- The first line is kept apart, because the next character to the left is put in front of it.
  induction wordwise with
  | nil inCode => exact ⟨[], [], [], [], rfl, rfl, .nil inCode, .nil⟩
  | @cons c inCode keep next text view whole behind ih =>
    obtain ⟨line, others, shown, later, textLines, viewLines, first, rest⟩ := ih
    by_cases atBreak : c = '\n'
    · -- A line break shows as one in any case, and the next line starts where it leads.
      subst atBreak
      have same : showChar keep '\n' = ['\n'] := by cases keep <;> rfl
      rw [same, List.singleton_append, lines_break, lines_break, textLines, viewLines]
      exact ⟨[], _, [], _, rfl, rfl, .nil inCode, .cons ⟨next, first⟩ rest⟩
    · rw [lines_cons atBreak, lines_append_inLine (break_not_mem_showChar atBreak keep), textLines,
        viewLines]
      exact ⟨_, _, _, _, rfl, rfl, .cons whole first, rest⟩

end WordView

/-- A word that a line of the code view shows is shown by that line of the text. -/
theorem showsWord_of_numbered? {text word shown : List Char} {number : Nat} (isName : IsName word)
    (found : numbered? (ofText text) number = some shown) (shows : ShowsWord word shown) :
    ∃ line ∈ numbered? text number, ShowsWord word line := by
  obtain ⟨positive, inView⟩ := numbered?_eq_some_iff.mp found
  obtain ⟨line, others, first, later, textLines, viewLines, top, below⟩ :=
    (ofText_wordView text).exists_lines
  -- The lines of text and view are related one by one, the first one starting in code.
  have related : List.Forall₂ (fun line shown => ∃ inCode, WordView inCode line shown)
      (lines text) (lines (ofText text)) := by
    rw [textLines, viewLines]
    exact .cons ⟨true, top⟩ below
  obtain ⟨-, past⟩ | ⟨line, same, inText, alsoInView, inCode, wordwise⟩ :=
    forall₂_getElem? related (number - 1)
  · rw [past] at inView
    exact absurd inView (by simp)
  · obtain rfl : shown = same := Option.some.inj (inView.symm.trans alsoInView)
    exact ⟨line, numbered?_eq_some_iff.mpr ⟨positive, inText⟩, wordwise.showsWord isName shows⟩

end LockDiscipline.CodeView
