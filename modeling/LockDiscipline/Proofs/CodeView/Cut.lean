import LockDiscipline.Proofs.CodeView.Break
import LockDiscipline.Proofs.CodeView.Layout
import LockDiscipline.Proofs.CodeView.States

/-! Texts cut at a line break: the machine looks neither ahead nor back across it. -/

namespace LockDiscipline.CodeView

open LockDiscipline.Text

/-- No delimiter is looked for behind a line break. -/
theorem delimiter?_append_of_break {text : List UInt8} (broken : newline ∈ text) (room : Nat)
    (ahead : List UInt8) : delimiter? room (text ++ ahead) = delimiter? room text := by
  -- The search gives up at the line break, if it has not ended before.
  induction text generalizing room with
  | nil => exact absurd broken List.not_mem_nil
  | cons b rest ih =>
    by_cases atBreak : b = newline
    · subst atBreak
      cases room <;> rfl
    · have later : newline ∈ rest := (List.mem_cons.mp broken).resolve_left (Ne.symm atBreak)
      cases room with
      | zero => rfl
      | succ room => simp only [List.cons_append, delimiter?, ih later room]

/-- A phrase without a line break is not looked for behind one. -/
theorem isPrefixOf_append_of_break {phrase text : List UInt8} (inLine : newline ∉ phrase)
    (broken : newline ∈ text) (ahead : List UInt8) :
    phrase.isPrefixOf (text ++ ahead) = phrase.isPrefixOf text := by
  induction phrase generalizing text with
  | nil => rfl
  | cons p others ih =>
    obtain ⟨notBreak, othersInLine⟩ := not_or.mp (mt List.mem_cons.mpr inLine)
    cases text with
    | nil => exact absurd broken List.not_mem_nil
    | cons b rest =>
      rw [List.cons_append, List.isPrefixOf, List.isPrefixOf]
      by_cases atBreak : b = newline
      · -- The phrase differs from the text at the break at the latest.
        have differs : (p == b) = false := by simpa [atBreak] using Ne.symm notBreak
        rw [differs, Bool.false_and, Bool.false_and]
      · rw [ih othersInLine ((List.mem_cons.mp broken).resolve_left (Ne.symm atBreak))]

/-- What becomes of a byte does not depend on what stands below a line break. -/
theorem step_append_of_break {state : State} {b : UInt8} {text : List UInt8}
    (stands : state.StandsBefore (b :: text)) (broken : newline ∈ b :: text)
    (before ahead : List UInt8) :
    step before state b (text ++ ahead) = step before state b text := by
  -- At the break itself nothing is looked at; before it, the next byte is part of the text.
  have next : b = newline ∨ newline ∈ text ∧ (text ++ ahead).head? = text.head? := by
    rcases List.mem_cons.mp broken with atBreak | later
    · exact .inl atBreak.symm
    · obtain ⟨c, rest, rfl⟩ := List.exists_cons_of_ne_nil (List.ne_nil_of_mem later)
      exact .inr ⟨later, rfl⟩
  -- Only these states look further than at the byte itself.
  cases stands with
  | code =>
    rcases next with rfl | ⟨later, head⟩
    · rfl
    · have raw : rawOpening? before (text ++ ahead) = rawOpening? before text := by
        rw [rawOpening?, rawOpening?, delimiter?_append_of_break later]
      simp only [step, stepCode, head, raw]
  | blockComment =>
    rcases next with rfl | ⟨-, head⟩
    · rfl
    · simp only [step, head]
  | @raw delimiter skip inLine =>
    cases skip with
    | succ => rfl
    | zero =>
      -- The closing sequence is on one line, so it is found before the break or not at all.
      have closing : newline ∉ closeParen :: delimiter ++ [doubleQuote] := by
        simp [inLine, newline, closeParen, doubleQuote]
      have found : (closeParen :: delimiter ++ [doubleQuote]).isPrefixOf (b :: (text ++ ahead)) =
          (closeParen :: delimiter ++ [doubleQuote]).isPrefixOf (b :: text) :=
        isPrefixOf_append_of_break closing broken ahead
      simp only [step, found]
  | @rawQuote skip =>
    cases skip with
    | succ => rfl
    | zero => rfl
  | _ => rfl

/-- A text that ends with a line break is blanked as if nothing followed it. -/
theorem blankFrom_append_of_break {state : State} {first : List UInt8}
    (stands : state.StandsBefore first) (ended : first.getLast? = some newline)
    (before second : List UInt8) :
    blankFrom before state (first ++ second) =
      blankFrom before state first ++
        blankFrom (first.reverse ++ before) (stateAfter before state first []) second := by
  -- The last line break is ahead, or is the byte that is read, until the text is over.
  induction first generalizing before state with
  | nil => exact absurd ended (by simp)
  | cons b rest ih =>
    have here := step_append_of_break stands (List.mem_of_getLast? ended) before second
    rw [List.cons_append, blankFrom_cons, blankFrom_cons, here, stateAfter, List.append_nil]
    by_cases done : rest = []
    · subst done
      rfl
    · rw [List.getLast?_cons_of_ne_nil done] at ended
      rw [ih (standsBefore_step before stands) ended]
      simp

/-- A machine that is in code after a whole text stands where it started. -/
theorem stateAfter_eq_initial {bytes : List UInt8}
    (inCode : (stateAfter [] .initial bytes []).mode = .code) :
    stateAfter [] .initial bytes [] = .initial := by
  have stands : (stateAfter [] .initial bytes []).StandsBefore [] :=
    standsBefore_stateAfter [] .code
  generalize stateAfter [] .initial bytes [] = state at inCode stands ⊢
  -- With nothing ahead, the end of a comment cannot be ahead either.
  cases stands with
  | code => rfl
  | commentEnd next => exact absurd next (by simp)
  | _ => exact absurd inCode (by simp)

/--
The code view is put together line by line.

A text that ends with a line break and leaves the machine in code does not affect the view of what
follows: whatever was left open in it has ended by then.
-/
theorem ofText_append_at_break (first second : List Char)
    (ended : first = [] ∨ first.getLast? = some '\n')
    (inCode : (stateAfter [] .initial (Utf8.encode first) []).mode = .code) :
    ofText (first ++ second) = ofText first ++ ofText second := by
  -- Without a first part there is nothing to join; any other one ends in a line break.
  rcases ended with rfl | ended
  · rfl
  obtain ⟨front, rfl⟩ := List.getLast?_eq_some_iff.mp ended
  have bytes : Utf8.encode (front ++ ['\n']) = Utf8.encode front ++ [newline] :=
    Utf8.encode_append front ['\n']
  -- The first part is written as on its own, and what is above the break is not seen from below.
  have written : blankBytes (Utf8.encode (front ++ ['\n'] ++ second)) =
      blankBytes (Utf8.encode (front ++ ['\n'])) ++ blankBytes (Utf8.encode second) := by
    have stands : State.initial.StandsBefore (Utf8.encode (front ++ ['\n'])) := .code
    have below : blankFrom ((Utf8.encode (front ++ ['\n'])).reverse ++ []) .initial
        (Utf8.encode second) = blankBytes (Utf8.encode second) := by
      rw [bytes, List.append_nil, List.reverse_append]
      exact blankFrom_append_break [] (Utf8.encode front).reverse .initial (Utf8.encode second)
    rw [Utf8.encode_append, blankBytes, blankFrom_append_of_break stands (by simp [bytes]),
      stateAfter_eq_initial inCode, below]
    rfl
  rw [ofText, written, ← (ofText_view (front ++ ['\n'])).2, ← (ofText_view second).2,
    ← Utf8.encode_append, Utf8.decode_encode]

/-- A string that is left open, with a comment mark in it, above a character literal. -/
theorem ofText_append_at_break_of_open_string :
    let first := "/* ' */ s = u8R\"/*\x7b\n".toList
    let second := "'\x7b' + 1'000; // \"".toList
    first.getLast? = some '\n' ∧
      (stateAfter [] .initial (Utf8.encode first) []).mode = .code ∧
      ofText (first ++ second) = ofText first ++ ofText second ∧
      ofText second = "' ' + 1'000;     ".toList := by
  intro first second
  -- Both conditions are computed: the break ends the string that was left open.
  have ended : first.getLast? = some '\n' := by decide +kernel
  have inCode : (stateAfter [] .initial (Utf8.encode first) []).mode = .code := by decide +kernel
  exact ⟨ended, inCode, ofText_append_at_break first second (.inr ended) inCode, by decide +kernel⟩

end LockDiscipline.CodeView
