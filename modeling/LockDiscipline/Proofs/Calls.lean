import LockDiscipline.Proofs.Pattern.Context
import LockDiscipline.Rule.Trigger
import LockDiscipline.Signature

/-! Names with a parenthesis after them: how signatures and calls show in a line. -/

namespace LockDiscipline

open LockDiscipline.Text
open Pattern

/-- A name: word characters, and at least one of them. -/
structure IsName (name : List Char) : Prop where
  inhabited : name ≠ []
  word : ∀ c ∈ name, isWordChar c = true

/-- A text shows a name as a whole word, then optional white space and a parenthesis. -/
def ShowsCall (name text : List Char) : Prop :=
  ∃ before gap after, text = before ++ name ++ gap ++ '(' :: after ∧ IsName name ∧
    Cursor.touchesWord before.getLast? = false ∧ ∀ c ∈ gap, isBlank c = true

/-- The first character of a name touches a word. -/
theorem IsName.touchesWord {name : List Char} (isName : IsName name) (rest : List Char) :
    Cursor.touchesWord (name ++ rest).head? = true := by
  -- The name has a first character, and every character of a name is a word character.
  obtain ⟨c, others, rfl⟩ := List.exists_cons_of_ne_nil isName.inhabited
  exact isName.word c (by simp)

/-- A name read backwards is a name. -/
theorem IsName.reverse {name : List Char} (isName : IsName name) : IsName name.reverse :=
  -- Both conditions are about the characters, wherever they stand.
  ⟨by simpa using isName.inhabited, by simpa using isName.word⟩

/-- Only names show as calls. -/
theorem ShowsCall.isName {name text : List Char} (shown : ShowsCall name text) : IsName name := by
  -- To show as a call is, among other things, to be a name.
  obtain ⟨-, -, -, -, isName, -, -⟩ := shown
  exact isName

/-- A call that a text shows is shown by a larger text, unless a word is added in front of it. -/
theorem ShowsCall.within {name text : List Char} (shown : ShowsCall name text)
    {lead : List Char} (leadEdge : Cursor.touchesWord lead.getLast? = false) (trail : List Char) :
    ShowsCall name (lead ++ text ++ trail) := by
  -- The neighbour of the name changes only if the name stood at the very start.
  obtain ⟨before, gap, after, rfl, isName, edge, blank⟩ := shown
  refine ⟨lead ++ before, gap, after ++ trail, by simp, isName, ?_, blank⟩
  rw [List.getLast?_append]
  cases last : before.getLast? with
  | none => exact leadEdge
  | some c =>
    rw [last] at edge
    exact edge

/-- A call that a trimmed line shows is shown by the line. -/
theorem ShowsCall.of_trim {name line : List Char} (shown : ShowsCall name (trim line)) :
    ShowsCall name line := by
  -- Trimming takes white space from both sides, and white space extends no word.
  obtain ⟨lead, trail, shape, leading, -⟩ := exists_trim line
  rw [shape]
  exact shown.within
    (Cursor.touchesWord_of_isBlank fun c edge => leading c (List.mem_of_getLast? edge)) trail

/-- Reading a name at a word edge, then white space and a parenthesis, shows a call. -/
theorem ShowsCall.of_reads {name gap : List Char} (isName : IsName name)
    (blank : ∀ c ∈ gap, isBlank c = true) {a m n e : Attempt}
    (edge : a.cursor.atWordEdge = true) (atName : a.Reads name m) (atGap : m.Reads gap n)
    (atParen : n.Reads ['('] e) : ShowsCall name (a.cursor.before.reverse ++ a.cursor.after) := by
  -- The three readings, one behind the other, are the name, the white space and the parenthesis.
  have ahead : a.cursor.after = name ++ (gap ++ '(' :: e.cursor.after) := by
    rw [atName.1, atGap.1, atParen.1, List.singleton_append]
  refine ⟨a.cursor.before.reverse, gap, e.cursor.after, by simp [ahead], isName, ?_, blank⟩
  -- The name starts at the edge, so no word can end there.
  rw [Cursor.atWordEdge, ahead, isName.touchesWord] at edge
  rw [List.getLast?_reverse]
  simpa using edge

namespace Signature

/-- A line with a signature holds a match of it that captures the name. -/
theorem exists_match {line name : List Char} {next : Option (List Char)}
    (named : name? line next = some name) :
    ∃ found : Match, found.FoundIn pattern line ∧
      (found.capture? .name).map (·.text) = some name := by
  -- The name is one that the signature pattern captures, and is returned as it is.
  unfold name? at named
  obtain ⟨found, matched, named⟩ := Option.bind_eq_some_iff.mp named
  obtain ⟨capture, captured, named⟩ := Option.bind_eq_some_iff.mp named
  obtain ⟨finish, -, named⟩ := Option.bind_eq_some_iff.mp named
  obtain ⟨-, -, kept⟩ := Option.bind_eq_some_iff.mp named
  refine ⟨found, foundIn_of_find? matched, ?_⟩
  rw [captured, Option.map_some]
  -- The tests on the name either drop the match or leave the name as it is.
  by_cases tilde : (capture.text.head? == some '~') = true
  · rw [if_pos tilde] at kept
    exact kept
  · rw [if_neg tilde] at kept
    obtain ⟨-, -, kept⟩ := Option.bind_eq_some_iff.mp kept
    obtain ⟨-, -, kept⟩ := Option.bind_eq_some_iff.mp kept
    exact kept

/-- The declared name is a name at a word edge, or a tilde and more. -/
theorem reads_of_mem_declaredName {a e : Attempt} (outcome : e ∈ ends declaredName a) :
    ∃ name, a.Reads name e ∧ e.captures = ⟨.name, a.cursor, name⟩ :: a.captures ∧
      (name.head? = some '~' ∨ IsName name ∧ a.cursor.atWordEdge = true) := by
  -- Without the tilde, the edge is where the name itself starts.
  obtain ⟨m, inner, rfl⟩ := mem_ends_capture.mp outcome
  obtain ⟨t, tilde, rest⟩ := mem_ends_inOrder_cons.mp inner
  obtain ⟨_, edge, letters⟩ := mem_ends_inOrder_cons.mp rest
  obtain ⟨rfl, atEdge⟩ := mem_ends_wordEdge.mp edge
  obtain ⟨name, inhabited, word, reads, same⟩ := reads_of_mem_run1 letters
  -- With a tilde, the name that is captured starts with it; without one, it is the word itself.
  rcases mem_ends_or.mp tilde with present | absent
  · obtain ⟨c, fit, atTilde, sameToo⟩ := mem_ends_one.mp present
    obtain rfl : c = '~' := by simpa using fit
    have whole := atTilde.trans reads
    exact ⟨'~' :: name, whole, by rw [whole.upTo, same, sameToo]; rfl, .inl rfl⟩
  · obtain rfl := mem_ends_empty.mp absent
    exact ⟨name, reads, by rw [reads.upTo, same], .inr ⟨⟨inhabited, word⟩, atEdge⟩⟩

/-- Every outcome of a signature starts with a declared name, and that is the name it captures. -/
theorem exists_declared_of_outcome {a e : Attempt} (outcome : e ∈ ends pattern a) :
    ∃ m read, m ∈ ends declaredName a ∧ a.Reads read m ∧
      (read.head? = some '~' ∨ IsName read ∧ a.cursor.atWordEdge = true) ∧
      e.captures.find? (·.label == .name) = some ⟨.name, a.cursor, read⟩ ∧
      e ∈ ends (inOrder [blanks, parameters, blanks, qualifierList, optional trailingReturn,
        optional specialDefinition, terminator]) m := by
  obtain ⟨m, declared, rest⟩ := mem_ends_inOrder_cons.mp outcome
  obtain ⟨read, reads, captured, shape⟩ := reads_of_mem_declaredName declared
  refine ⟨m, read, declared, reads, shape, ?_, rest⟩
  -- Nothing after the declared name is captured as a name.
  have kept := (grows_of_mem_ends rest).find? (show Label.name ∉ _ by decide)
  rw [kept, captured]
  rfl

/-- A line with the signature of a method that is no destructor shows the method. -/
theorem showsCall_of_name? {line name : List Char} {next : Option (List Char)}
    (named : name? line next = some name) (ordinary : name.head? ≠ some '~') :
    ShowsCall name line := by
  -- Of the signature, only its start up to the parenthesis is needed.
  obtain ⟨found, inside, captured⟩ := exists_match named
  -- The match captures what was read at its start, so the name is what was read.
  obtain ⟨m, read, -, atName, shape, name, rest⟩ := exists_declared_of_outcome inside.outcome
  rw [Match.capture?, name] at captured
  obtain rfl : read = _ := Option.some.inj captured
  obtain ⟨isName, edge⟩ := shape.resolve_left ordinary
  obtain ⟨n, blank, rest⟩ := mem_ends_inOrder_cons.mp rest
  obtain ⟨gap, isGap, atGap, -⟩ := mem_ends_run.mp blank
  obtain ⟨q, params, -⟩ := mem_ends_inOrder_cons.mp rest
  obtain ⟨o, paren, -⟩ := mem_ends_inOrder_cons.mp params
  obtain ⟨c, fit, atParen, -⟩ := mem_ends_one.mp paren
  obtain rfl : c = '(' := by simpa using fit
  rw [← inside.place]
  exact ShowsCall.of_reads isName isGap edge atName atGap atParen

end Signature

namespace Trigger

/-- A line in which the pattern of a call occurs shows the call. -/
theorem showsCall_of_occursIn {callee : String} (isName : IsName callee.toList)
    {line : List Char} (occurs : (callPattern callee).occursIn line = true) :
    ShowsCall callee.toList line := by
  -- The pattern of a call spells out what it means to show one.
  obtain ⟨front, back, e, rfl, outcome⟩ := occursIn_iff.mp occurs
  obtain ⟨m, edge, rest⟩ := mem_ends_inOrder_cons.mp outcome
  obtain ⟨rfl, atEdge⟩ := mem_ends_wordEdge.mp edge
  obtain ⟨n, callee, rest⟩ := mem_ends_inOrder_cons.mp rest
  obtain ⟨atName, -⟩ := reads_of_mem_phrase callee
  obtain ⟨q, blank, last⟩ := mem_ends_inOrder_cons.mp rest
  obtain ⟨gap, isGap, atGap, -⟩ := mem_ends_run.mp blank
  obtain ⟨c, fit, atParen, -⟩ := mem_ends_one.mp last
  obtain rfl : c = '(' := by simpa using fit
  -- What was read at the place is the name, the white space and the parenthesis in turn.
  simpa using ShowsCall.of_reads isName isGap atEdge atName atGap atParen

/-- A phrase that is found is found in the text. -/
theorem findPhrase?_suffix {phrase text rest : List Char}
    (found : findPhrase? phrase text = some rest) : rest <:+ text := by
  -- The search gives up one character at a time.
  induction text with
  | nil =>
    rw [findPhrase?] at found
    split at found
    · exact Option.some.inj found ▸ List.suffix_refl _
    · exact absurd found (by simp)
  | cons c others ih =>
    rw [findPhrase?] at found
    split at found
    · exact Option.some.inj found ▸ List.suffix_refl _
    · exact (ih found).trans (List.suffix_cons c others)

/-- A call that shows after a parameter list shows in the whole line. -/
theorem showsCall_of_afterSignature {method : String} {name line : List Char}
    (shown : ShowsCall name (afterSignature method line)) : ShowsCall name line := by
  -- What follows the parameters follows a parenthesis, which ends every word.
  unfold afterSignature at shown
  split at shown
  · rename_i rest found
    obtain ⟨lead, shape⟩ := findPhrase?_suffix found
    obtain ⟨skipped, split, -⟩ := exists_dropWhile (· != ')') rest
    cases after : rest.dropWhile (· != ')') with
    | nil =>
      -- Nothing follows the parameter list, so no call shows there.
      obtain ⟨before, gap, rest, empty, -⟩ := shown
      simp [after] at empty
    | cons c others =>
      obtain rfl : c = ')' := by
        have stops := List.head?_dropWhile_not (· != ')') rest
        rw [after] at stops
        simpa using stops
      rw [after] at shown split
      have edge : Cursor.touchesWord (lead ++ skipped ++ [')']).getLast? = false := by
        rw [List.getLast?_concat]
        decide
      have whole := shown.within edge []
      rw [← shape, split]
      simpa using whole
  · exact shown

end Trigger

end LockDiscipline
