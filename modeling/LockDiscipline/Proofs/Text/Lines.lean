import LockDiscipline.Text.Lines

/-! Laws of lines: their number, their numbering across a cut, and windows of whole lines. -/

namespace LockDiscipline.Text

/-- The empty text has one line, and that line is empty. -/
@[simp] theorem lines_nil : lines [] = [[]] := List.splitOn_nil '\n'

/-- Every text has a line. -/
@[simp] theorem lines_ne_nil (text : List Char) : lines text ≠ [] := List.splitOn_ne_nil '\n' text

/-- A line break ends an empty line. -/
@[simp] theorem lines_break (text : List Char) : lines ('\n' :: text) = [] :: lines text := by
  -- The break separates nothing from what follows.
  simp [lines, List.splitOn_cons_eq_if_modifyHead]

/-- Any other character belongs to the first line of what follows it. -/
theorem lines_cons {c : Char} (inLine : c ≠ '\n') (text : List Char) :
    lines (c :: text) = (lines text).modifyHead (c :: ·) := by
  -- The character is no separator, so it joins the piece behind it.
  simp [lines, List.splitOn_cons_eq_if_modifyHead, inLine]

/-- A stretch without line breaks belongs to the first line of what follows it. -/
theorem lines_append_inLine {opening : List Char} (inLine : '\n' ∉ opening) (text : List Char) :
    lines (opening ++ text) = (lines text).modifyHead (opening ++ ·) := by
  -- Character by character, each joins the same first line.
  induction opening with
  | nil => cases shape : lines text <;> simp [shape]
  | cons c rest ih =>
    have head : c ≠ '\n' := fun same => inLine (by simp [same])
    have tail : '\n' ∉ rest := fun member => inLine (List.mem_cons_of_mem c member)
    rw [List.cons_append, lines_cons head, ih tail, List.modifyHead_modifyHead]
    rfl

/-- A text that is split at a character has that character in none of its pieces. -/
theorem not_mem_of_mem_splitOn {c : Char} {text piece : List Char}
    (member : piece ∈ text.splitOn c) : c ∉ piece := by
  -- Character by character, the separator starts a new piece and anything else joins the first.
  induction text generalizing piece with
  | nil => simp_all
  | cons d rest ih =>
    rw [List.splitOn_cons_eq_if_modifyHead] at member
    split at member
    · rcases List.mem_cons.mp member with rfl | later
      · exact List.not_mem_nil
      · exact ih later
    · rename_i inPiece
      obtain ⟨first, others, shape⟩ := List.exists_cons_of_ne_nil (List.splitOn_ne_nil c rest)
      rw [shape, List.modifyHead_cons] at member
      rcases List.mem_cons.mp member with rfl | later
      · have clear : c ∉ first := ih (by simp [shape])
        have other : c ≠ d := fun same => inPiece (by simp [same])
        simp [other, clear]
      · exact ih (by simp [shape, later])

/-- An opening phrase is dropped exactly from a text that starts with it. -/
theorem dropOpening?_eq_some_iff {α : Type} [BEq α] [LawfulBEq α] {phrase text rest : List α} :
    dropOpening? phrase text = some rest ↔ text = phrase ++ rest := by
  -- Phrase and text are compared item by item.
  induction phrase generalizing text with
  | nil => simp [dropOpening?, eq_comm]
  | cons c others ih =>
    cases text with
    | nil => simp [dropOpening?]
    | cons d text =>
      by_cases same : c = d
      · simp [dropOpening?, same, ih]
      · simp [dropOpening?, same, Ne.symm same]

/-- A text has one line more than it has line breaks. -/
theorem length_lines (text : List Char) : (lines text).length = lineBreaks text + 1 := by
  -- Only a line break opens another line.
  unfold lineBreaks
  induction text with
  | nil => rfl
  | cons c rest ih =>
    by_cases atBreak : c = '\n'
    · subst atBreak
      simp [ih]
    · simp [lines_cons atBreak, ih, atBreak]

/-- The last line of a text: what stands after its last line break. -/
def lastLine (text : List Char) : List Char :=
  (lines text).getLast (lines_ne_nil text)

/-- The last line has as many lines above it as the text has line breaks. -/
theorem getElem?_lastLine (text : List Char) :
    (lines text)[lineBreaks text]? = some (lastLine text) := by
  -- The last line is at the last place.
  rw [lastLine, ← List.getLast?_eq_some_getLast, List.getLast?_eq_getElem?, length_lines,
    Nat.add_sub_cancel]

/-- The lines of two texts put together: the last of the one and the first of the other join. -/
theorem lines_append (first second : List Char) :
    lines (first ++ second) =
      (lines first).dropLast ++ (lines second).modifyHead (lastLine first ++ ·) := by
  -- The induction is on the first text; its last line changes with its first only if alone.
  induction first with
  | nil => cases shape : lines second <;> simp [lastLine, shape]
  | cons c rest ih =>
    by_cases atBreak : c = '\n'
    · -- The line that the break ends stays in front of all the others.
      subst atBreak
      have last : lastLine ('\n' :: rest) = lastLine rest := by
        simp only [lastLine, lines_break, List.getLast_cons (lines_ne_nil rest)]
      rw [List.cons_append, lines_break, lines_break, ih, last,
        List.dropLast_cons_of_ne_nil (lines_ne_nil rest), List.cons_append]
    · -- The character joins the first line, which is also the last if there is no other.
      rw [List.cons_append, lines_cons atBreak, ih]
      unfold lastLine
      simp only [lines_cons atBreak]
      obtain ⟨line, more, shape⟩ := List.exists_cons_of_ne_nil (lines_ne_nil rest)
      obtain ⟨next, others, joined⟩ := List.exists_cons_of_ne_nil (lines_ne_nil second)
      simp only [shape, joined, List.modifyHead_cons]
      cases more with
      | nil => simp
      | cons _ _ => simp

/-- All lines but the last are as many as the line breaks. -/
theorem length_dropLast_lines (text : List Char) :
    (lines text).dropLast.length = lineBreaks text := by
  -- There is one line more than there are breaks.
  rw [List.length_dropLast, length_lines, Nat.add_sub_cancel]

/-- After a cut, the first line of the second part continues the last line of the first. -/
theorem lines_append_joined (first second : List Char) :
    (lines (first ++ second))[lineBreaks first]? =
      (lines second).head?.map (lastLine first ++ ·) := by
  -- All lines before the joined one come from the first text, one for each of its breaks.
  have past := Nat.le_of_eq (length_dropLast_lines first)
  rw [lines_append, List.getElem?_append_right past, length_dropLast_lines, Nat.sub_self]
  cases lines second <;> simp

/-- After a cut, the later lines of the second part are whole lines of the text. -/
theorem lines_append_later (first second : List Char) (k : Nat) :
    (lines (first ++ second))[lineBreaks first + (k + 1)]? = (lines second)[k + 1]? := by
  -- Behind the joined line, only lines of the second text are left.
  rw [lines_append, List.getElem?_append_right (by rw [length_dropLast_lines]; omega),
    length_dropLast_lines, Nat.add_sub_cancel_left]
  cases lines second <;> simp

/-- A text and its last line end in the same character, unless that is a line break. -/
theorem getLast?_lastLine {text : List Char} {c : Char} (last : text.getLast? = some c)
    (inLine : c ≠ '\n') : (lastLine text).getLast? = some c := by
  -- The character is put on the last line, which does not end before it.
  obtain ⟨front, rfl⟩ := List.getLast?_eq_some_iff.mp last
  simp [lastLine, lines_append, lines_cons inLine]

/-- Before a cut, every line is the opening of the line with the same number. -/
theorem lines_append_opening (first second : List Char) {k : Nat} {line : List Char}
    (found : (lines first)[k]? = some line) :
    ∃ rest, (lines (first ++ second))[k]? = some (line ++ rest) := by
  -- Every line but the last is there unchanged.
  have bound := (List.getElem?_eq_some_iff.mp found).1
  rw [length_lines] at bound
  by_cases last : k = lineBreaks first
  · -- The last line goes on with the first line of the second part.
    subst last
    have same : line = lastLine first :=
      Option.some.inj (found.symm.trans (getElem?_lastLine first))
    rw [lines_append_joined, same]
    obtain ⟨next, others, shape⟩ := List.exists_cons_of_ne_nil (lines_ne_nil second)
    exact ⟨next, by simp [shape]⟩
  · refine ⟨[], ?_⟩
    rw [lines_append, List.getElem?_append_left (by rw [length_dropLast_lines]; omega),
      List.getElem?_dropLast, if_pos (by rw [length_lines]; omega), found, List.append_nil]

/-- Lines put back together are the text they came from. -/
theorem unlines_lines (text : List Char) : unlines (lines text) = text :=
  -- Splitting and joining use the same separator.
  List.intercalate_splitOn '\n'

/-- Lines put back together have a line break between any two groups. -/
theorem unlines_append {first second : List (List Char)} (inhabited : first ≠ [])
    (more : second ≠ []) :
    unlines (first ++ second) = unlines first ++ '\n' :: unlines second := by
  -- A break is put between neighbours, so the groups meet at exactly one.
  unfold unlines
  induction first with
  | nil => exact absurd rfl inhabited
  | cons line rest ih =>
    cases rest with
    | nil =>
      obtain ⟨next, others, shape⟩ := List.exists_cons_of_ne_nil more
      subst shape
      simp [List.intercalate_cons_cons]
    | cons next others =>
      have tail := ih (by simp)
      simp only [List.cons_append, List.intercalate_cons_cons] at tail ⊢
      simp [tail]

/-- Lines without line breaks are the lines of the text that they make. -/
theorem lines_unlines {parts : List (List Char)} (inhabited : parts ≠ [])
    (inLine : ∀ line ∈ parts, '\n' ∉ line) : lines (unlines parts) = parts :=
  -- No line has a separator in it to be split at.
  List.splitOn_intercalate '\n' inLine inhabited

/-- A window of whole lines stands in the text between line breaks or the ends of the text. -/
theorem unlines_window {window : List (List Char)} (inhabited : window ≠ [])
    (above below : List (List Char)) :
    ∃ lead trail, unlines (above ++ window ++ below) = lead ++ unlines window ++ trail ∧
      (∀ c ∈ lead.getLast?, c = '\n') ∧ (∀ c ∈ trail.head?, c = '\n') := by
  -- Each side adds a line break exactly if it has lines.
  have left : ∃ lead, unlines (above ++ window) = lead ++ unlines window ∧
      ∀ c ∈ lead.getLast?, c = '\n' := by
    by_cases none : above = []
    · exact ⟨[], by simp [none], by simp⟩
    · exact ⟨unlines above ++ ['\n'], by simp [unlines_append none inhabited], by simp⟩
  obtain ⟨lead, joined, edge⟩ := left
  by_cases none : below = []
  · exact ⟨lead, [], by simp [none, joined], edge, by simp⟩
  · refine ⟨lead, '\n' :: unlines below, ?_, edge, by simp⟩
    rw [unlines_append (by simp [inhabited]) none, joined]

/-- The text before a line, which ends behind as many line breaks as there are lines above. -/
def beforeLine : List Char → Nat → List Char
  | _, 0 => []
  | [], _ + 1 => []
  | c :: rest, i + 1 => c :: if c = '\n' then beforeLine rest i else beforeLine rest (i + 1)

/-- Nothing stands before the first line. -/
@[simp] theorem beforeLine_zero (text : List Char) : beforeLine text 0 = [] := by
  cases text <;> rfl

/-- The text before a line is the start of the text. -/
theorem beforeLine_opens (text : List Char) (i : Nat) : beforeLine text i <+: text := by
  -- Along the text, until the line is reached or the text ends.
  induction text generalizing i with
  | nil => cases i <;> exact List.prefix_refl []
  | cons c rest ih =>
    cases i with
    | zero => exact List.nil_prefix
    | succ i =>
      rw [beforeLine]
      split
      · exact List.cons_prefix_cons.mpr ⟨rfl, ih i⟩
      · exact List.cons_prefix_cons.mpr ⟨rfl, ih (i + 1)⟩

/-- The last line of a text starts in that text, whatever follows. -/
theorem beforeLine_append_joined (first second : List Char) :
    beforeLine (first ++ second) (lineBreaks first) <+: first := by
  -- Each line break of the first text brings the line one nearer.
  induction first with
  | nil => simp [lineBreaks]
  | cons c rest ih =>
    cases breaks : lineBreaks (c :: rest) with
    | zero =>
      rw [beforeLine_zero]
      exact List.nil_prefix
    | succ i =>
      rw [List.cons_append, beforeLine]
      split
      · rename_i atBreak
        have fewer : lineBreaks rest = i := by
          simpa [lineBreaks, atBreak] using breaks
        exact List.cons_prefix_cons.mpr ⟨rfl, fewer ▸ ih⟩
      · rename_i inLine
        have same : lineBreaks rest = i + 1 := by
          simpa [lineBreaks, inLine] using breaks
        exact List.cons_prefix_cons.mpr ⟨rfl, same ▸ ih⟩

/-- After a cut, the later lines start where they start in the second part. -/
theorem beforeLine_append_later (first second : List Char) (k : Nat) :
    beforeLine (first ++ second) (lineBreaks first + (k + 1)) =
      first ++ beforeLine second (k + 1) := by
  -- Each character of the first text is in front, and each break of it is one line less.
  induction first with
  | nil => simp [lineBreaks]
  | cons c rest ih =>
    by_cases atBreak : c = '\n'
    · have breaks : lineBreaks (c :: rest) + (k + 1) = lineBreaks rest + (k + 1) + 1 := by
        simp only [lineBreaks, atBreak, List.count_cons_self]
        omega
      rw [breaks, List.cons_append, beforeLine, if_pos atBreak, ih, List.cons_append]
    · have breaks : lineBreaks (c :: rest) = lineBreaks rest := by
        simp [lineBreaks, atBreak]
      rw [breaks, List.cons_append, ← Nat.add_assoc, beforeLine, if_neg atBreak, Nat.add_assoc, ih,
        List.cons_append]

/-- Before a cut, every line starts where it starts in the first part. -/
theorem beforeLine_append_opening {first : List Char} (second : List Char) {k : Nat}
    (inside : k < (lines first).length) :
    beforeLine (first ++ second) k = beforeLine first k := by
  rw [length_lines] at inside
  -- Line and text are followed together, as the function does.
  induction first generalizing k with
  | nil =>
    have none : k = 0 := by
      simpa [lineBreaks] using inside
    simp [none]
  | cons c rest ih =>
    cases k with
    | zero => simp
    | succ i =>
      rw [List.cons_append, beforeLine, beforeLine]
      split
      · rename_i atBreak
        rw [ih (by simpa [lineBreaks, atBreak] using inside)]
      · rename_i inLine
        rw [ih (by simpa [lineBreaks, inLine] using inside)]

/-- The text before a later line ends in a line break. -/
theorem getLast?_beforeLine {text : List Char} {k : Nat} (inside : k + 1 < (lines text).length) :
    (beforeLine text (k + 1)).getLast? = some '\n' := by
  -- The text is read up to the break that ends the line above.
  rw [length_lines] at inside
  induction text generalizing k with
  | nil => simp [lineBreaks] at inside
  | cons c rest ih =>
    rw [beforeLine]
    split
    · rename_i atBreak
      subst atBreak
      cases k with
      | zero => simp
      | succ k =>
        rw [List.getLast?_cons, ih (by simpa [lineBreaks] using inside)]
        rfl
    · rename_i inLine
      rw [List.getLast?_cons, ih (by simpa [lineBreaks, inLine] using inside)]
      rfl

/-- A text with one more line, which takes the number of a line and moves that one down. -/
def insertLine (text : List Char) (number : Nat) (line : List Char) : List Char :=
  unlines ((lines text).insertIdx number line)

/-- A line stands before a line break if others follow it. -/
theorem unlines_cons (line : List Char) {others : List (List Char)} (more : others ≠ []) :
    unlines (line :: others) = line ++ '\n' :: unlines others := by
  -- One line is joined to the others by a break.
  rw [← List.singleton_append, unlines_append (List.cons_ne_nil _ _) more]
  simp [unlines]

/-- A character in front of a line is in front of the text. -/
theorem unlines_cons_cons (c : Char) (line : List Char) (others : List (List Char)) :
    unlines ((c :: line) :: others) = c :: unlines (line :: others) := by
  -- Only a further line would put a break in between.
  cases others with
  | nil => simp [unlines]
  | cons next others => simp [unlines, List.intercalate_cons_cons]

/-- A line is inserted between the text before a line and the rest. -/
theorem exists_insertLine {text : List Char} {number : Nat} (inside : number < (lines text).length)
    (line : List Char) :
    ∃ rest, text = beforeLine text number ++ rest ∧
      insertLine text number line = beforeLine text number ++ (line ++ '\n' :: rest) := by
  -- Each line break of the text brings the line one nearer.
  unfold insertLine
  induction text generalizing number with
  | nil =>
    obtain rfl : number = 0 := by simpa using inside
    exact ⟨[], by simp, by simp [unlines]⟩
  | cons c rest ih =>
    cases number with
    | zero =>
      refine ⟨c :: rest, by simp, ?_⟩
      rw [List.insertIdx_zero, unlines_cons line (lines_ne_nil _), unlines_lines]
      simp
    | succ number =>
      rw [beforeLine]
      split
      · -- The line that the break ends stays in front of all the others.
        rename_i atBreak
        subst atBreak
        rw [lines_break] at inside ⊢
        have nearer : number < (lines rest).length := Nat.lt_of_succ_lt_succ inside
        obtain ⟨below, shape, inserted⟩ := ih nearer
        have more : (lines rest).insertIdx number line ≠ [] :=
          List.ne_nil_of_length_pos
            (Nat.lt_of_lt_of_le (Nat.zero_lt_of_lt nearer) List.length_le_length_insertIdx)
        refine ⟨below, by rw [List.cons_append, ← shape], ?_⟩
        rw [List.insertIdx_succ_cons, unlines_cons [] more, inserted]
        simp
      · -- The character joins the first line, which is above the inserted one.
        rename_i inLine
        obtain ⟨first, others, split⟩ := List.exists_cons_of_ne_nil (lines_ne_nil rest)
        rw [lines_cons inLine, List.length_modifyHead] at inside
        obtain ⟨below, shape, inserted⟩ := ih inside
        refine ⟨below, by rw [List.cons_append, ← shape], ?_⟩
        rw [split, List.insertIdx_succ_cons] at inserted
        rw [lines_cons inLine, split, List.modifyHead_cons, List.insertIdx_succ_cons,
          unlines_cons_cons, inserted, List.cons_append]

/-- The inserted line is one more line of the text. -/
theorem lines_insertLine {text line : List Char} {number : Nat}
    (inside : number ≤ (lines text).length) (inLine : '\n' ∉ line) :
    lines (insertLine text number line) = (lines text).insertIdx number line := by
  -- No line holds a line break, neither the new one nor those that were there.
  apply lines_unlines
  · apply List.ne_nil_of_length_pos
    rw [List.length_insertIdx_of_le_length inside]
    exact Nat.succ_pos _
  · intro other member
    rcases (List.mem_insertIdx inside).mp member with rfl | old
    · exact inLine
    · exact not_mem_of_mem_splitOn old

/-- A later line is inserted into the middle of three texts if it is inserted into them all. -/
theorem insertLine_append_later (lead trail : List Char) {body line : List Char} {k : Nat}
    (inside : k + 1 < (lines body).length) :
    insertLine (lead ++ (body ++ trail)) (lineBreaks lead + (k + 1)) line =
      lead ++ (insertLine body (k + 1) line ++ trail) := by
  have outside : lineBreaks lead + (k + 1) < (lines (lead ++ (body ++ trail))).length := by
    rw [length_lines] at inside ⊢
    simp only [lineBreaks, List.count_append] at inside ⊢
    omega
  -- The line starts at the same place in both texts, so the same stands before and behind it.
  obtain ⟨rest, cut, inserted⟩ := exists_insertLine inside line
  obtain ⟨more, cutToo, insertedToo⟩ := exists_insertLine outside line
  rw [beforeLine_append_later, beforeLine_append_opening trail inside] at cutToo insertedToo
  have same : more = rest ++ trail := by
    have whole := cutToo.symm.trans (congrArg (fun text => lead ++ (text ++ trail)) cut)
    simpa using whole
  rw [insertedToo, inserted, same]
  simp

end LockDiscipline.Text
