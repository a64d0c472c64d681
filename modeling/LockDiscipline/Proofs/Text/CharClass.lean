import LockDiscipline.Text.CharClass

/-! Laws of runs and of white space, which is apart from words and all that trimming takes away. -/

namespace LockDiscipline.Text

/-- The codes of all white space. -/
private def blankCodes : List Nat :=
  [0x9, 0xA, 0xB, 0xC, 0xD, 0x20, 0x85, 0xA0, 0x1680, 0x2000, 0x2001, 0x2002, 0x2003, 0x2004,
   0x2005, 0x2006, 0x2007, 0x2008, 0x2009, 0x200A, 0x2028, 0x2029, 0x202F, 0x205F, 0x3000]

private theorem mem_blankCodes {c : Char} (blank : isBlank c = true) : c.toNat ∈ blankCodes := by
  -- The ranges of the table and the codes of the list name the same numbers.
  simp only [isBlank, inRanges, blanks, Bool.and_eq_true, Bool.or_eq_true, decide_eq_true_eq,
    Bool.false_eq_true, or_false] at blank
  simp only [blankCodes, List.mem_cons, List.not_mem_nil, or_false]
  omega

/-- White space is not part of a word. -/
theorem isWordChar_of_isBlank {c : Char} (blank : isBlank c = true) : isWordChar c = false := by
  -- There are few enough blank characters to look each of them up in the tables of words.
  have table : ∀ code ∈ blankCodes, isWordChar (Char.ofNat code) = false := by decide +kernel
  simpa only [Char.ofNat_toNat] using table c.toNat (mem_blankCodes blank)

/-- A word character is not white space. -/
theorem isBlank_of_isWordChar {c : Char} (word : isWordChar c = true) : isBlank c = false := by
  -- White space would be no word character.
  cases blank : isBlank c with
  | false => rfl
  | true => simp [isWordChar_of_isBlank blank] at word

/-- White space is neither a letter nor a number. -/
theorem isAlphanumeric_of_isBlank {c : Char} (blank : isBlank c = true) :
    isAlphanumeric c = false := by
  -- White space is a finite table of codes.
  have table : ∀ code ∈ blankCodes, isAlphanumeric (Char.ofNat code) = false := by decide +kernel
  simpa only [Char.ofNat_toNat] using table c.toNat (mem_blankCodes blank)

/-- Dropping from the front of a text cuts off a stretch of the dropped class. -/
theorem exists_dropWhile (fits : Char → Bool) (text : List Char) :
    ∃ lead, text = lead ++ text.dropWhile fits ∧ ∀ c ∈ lead, fits c = true :=
  -- What is dropped is what would be taken.
  ⟨text.takeWhile fits, List.takeWhile_append_dropWhile.symm,
    List.all_eq_true.mp List.all_takeWhile⟩

section Runs

variable {α : Type} {fits : α → Bool} {first rest : List α}

/-- A class is taken from the front of a list up to where it is left. -/
theorem takeWhile_run (firstFits : ∀ c ∈ first, fits c = true)
    (restStops : ∀ c ∈ rest.head?, fits c = false) : (first ++ rest).takeWhile fits = first := by
  rw [List.takeWhile_append_of_pos firstFits]
  -- The rest is empty or stops at once.
  cases rest with
  | nil => simp
  | cons c more => simp [restStops c rfl]

/-- A class is dropped from the front of a list up to where it is left. -/
theorem dropWhile_run (firstFits : ∀ c ∈ first, fits c = true)
    (restStops : ∀ c ∈ rest.head?, fits c = false) : (first ++ rest).dropWhile fits = rest := by
  -- The list is what is taken and what is dropped, and what is taken is known.
  have whole := List.takeWhile_append_dropWhile (p := fits) (l := first ++ rest)
  rw [takeWhile_run firstFits restStops] at whole
  exact List.append_cancel_left whole

end Runs

/-- A text is cut in one way only into characters of a class and a rest that starts with none. -/
theorem run_unique {fits : Char → Bool} {first second rest others : List Char}
    (same : first ++ rest = second ++ others) (firstFits : ∀ c ∈ first, fits c = true)
    (secondFits : ∀ c ∈ second, fits c = true) (restStops : ∀ c ∈ rest.head?, fits c = false)
    (othersStop : ∀ c ∈ others.head?, fits c = false) : first = second ∧ rest = others := by
  -- Both first parts are what is taken from the front of the same text.
  have equal : first = second := by
    rw [← takeWhile_run firstFits restStops, same, takeWhile_run secondFits othersStop]
  subst equal
  exact ⟨rfl, List.append_cancel_left same⟩

/-- All characters of a text differ from one that is not in it. -/
theorem bne_of_not_mem {c : Char} {text : List Char} (missing : c ∉ text) :
    ∀ d ∈ text, (d != c) = true := by
  intro d member
  rw [bne_iff_ne]
  intro same
  exact missing (same ▸ member)

/-- A text is cut in one way only at the first occurrence of a character. -/
theorem cut_unique {c : Char} {first second rest others : List Char}
    (same : first ++ c :: rest = second ++ c :: others) (notFirst : c ∉ first)
    (notSecond : c ∉ second) : first = second ∧ rest = others := by
  -- Up to the first such character, all others are of the class that differs from it.
  obtain ⟨front, back⟩ :=
    run_unique same (bne_of_not_mem notFirst) (bne_of_not_mem notSecond) (by simp) (by simp)
  exact ⟨front, (List.cons.inj back).2⟩

/-- Trimming the end of a text cuts off white space. -/
theorem exists_trimEnd (text : List Char) :
    ∃ trail, text = trimEnd text ++ trail ∧ ∀ c ∈ trail, isBlank c = true := by
  -- The end of a text is trimmed at the front of the text reversed.
  obtain ⟨trail, shape, blank⟩ := exists_dropWhile isBlank text.reverse
  refine ⟨trail.reverse, ?_, by simpa using blank⟩
  have back := congrArg List.reverse shape
  simpa [trimEnd] using back

/-- Trimming cuts off white space at either end. -/
theorem exists_trim (text : List Char) :
    ∃ lead trail, text = lead ++ trim text ++ trail ∧ (∀ c ∈ lead, isBlank c = true) ∧
      ∀ c ∈ trail, isBlank c = true := by
  -- Trimming drops from the front, and then from the end of what is left.
  obtain ⟨lead, front, leading⟩ := exists_dropWhile isBlank text
  obtain ⟨trail, back, trailing⟩ := exists_trimEnd (trimStart text)
  refine ⟨lead, trail, ?_, leading, trailing⟩
  have rest : trimStart text = trim text ++ trail := back
  rw [List.append_assoc, ← rest]
  exact front

/-- Nothing is dropped from the front of a text that starts with none of the class. -/
theorem dropWhile_of_stops {fits : Char → Bool} {text : List Char}
    (stops : ∀ c ∈ text.head?, fits c = false) : text.dropWhile fits = text :=
  -- The run in front of it is empty.
  dropWhile_run (List.forall_mem_nil _) stops

/-- Trimming changes nothing where a text has no white space at its ends. -/
theorem trim_eq_self {text : List Char} (first : ∀ c ∈ text.head?, isBlank c = false)
    (last : ∀ c ∈ text.getLast?, isBlank c = false) : trim text = text := by
  -- At the end the same is said of the reversed text.
  have noTrail : ∀ c ∈ text.reverse.head?, isBlank c = false := by
    rwa [List.head?_reverse]
  rw [trim, trimStart, dropWhile_of_stops first, trimEnd, dropWhile_of_stops noTrail,
    List.reverse_reverse]

/-- Trimming takes white space from around a text that has none at its own ends. -/
theorem trim_padded {lead core trail : List Char} (leading : ∀ c ∈ lead, isBlank c = true)
    (trailing : ∀ c ∈ trail, isBlank c = true) (inhabited : core ≠ [])
    (first : ∀ c ∈ core.head?, isBlank c = false) (last : ∀ c ∈ core.getLast?, isBlank c = false) :
    trim (lead ++ core ++ trail) = core := by
  have opens : (core ++ trail).head? = core.head? := by
    obtain ⟨c, rest, rfl⟩ := List.exists_cons_of_ne_nil inhabited
    rfl
  have front : trimStart (lead ++ core ++ trail) = core ++ trail := by
    rw [trimStart, List.append_assoc, List.dropWhile_append_of_pos leading]
    exact dropWhile_of_stops (by rwa [opens])
  -- The end is trimmed like the front, in the reversed text.
  have back : (trail.reverse ++ core.reverse).dropWhile isBlank = core.reverse := by
    rw [List.dropWhile_append_of_pos (by simpa using trailing)]
    exact dropWhile_of_stops (by rwa [List.head?_reverse])
  rw [trim, front, trimEnd, List.reverse_append, back, List.reverse_reverse]

/-- A letter in either case is no white space, so case does not matter for white space. -/
theorem isBlank_toLower (c : Char) : isBlank c.toLower = isBlank c := by
  by_cases capital : 0x41 ≤ c.toNat ∧ c.toNat ≤ 0x5A
  · have table : ∀ code < 0x5B, 0x41 ≤ code →
        isBlank (Char.ofNat code).toLower = isBlank (Char.ofNat code) := by decide +kernel
    simpa only [Char.ofNat_toNat] using table c.toNat (by omega) capital.1
  · -- Only capitals have another small letter.
    have same : c.toLower = c := dif_neg capital
    rw [same]

end LockDiscipline.Text
