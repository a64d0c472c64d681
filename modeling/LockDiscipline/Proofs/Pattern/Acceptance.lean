import LockDiscipline.Proofs.Pattern.Border

/-! What patterns accept, one rule for each way to build a pattern. -/

namespace LockDiscipline.Pattern

/-- From every place with `text` ahead, a pattern can read on until `rest` is ahead. -/
def Accepts (p : Pattern) (text rest : List Char) : Prop :=
  ∀ a : Attempt, a.cursor.after = text → ∃ e ∈ ends p a, e.cursor.after = rest

namespace Accepts

variable {p q : Pattern} {text middle rest : List Char}

/-- Nothing is accepted everywhere. -/
theorem empty (text : List Char) : Accepts .empty text text := by
  -- The attempt itself is the outcome.
  intro a ahead
  exact ⟨a, mem_ends_empty.mpr rfl, ahead⟩

/-- A character of the class is accepted. -/
theorem one {fits : Char → Bool} {c : Char} (fit : fits c = true) (rest : List Char) :
    Accepts (.one fits) (c :: rest) rest := by
  -- The place moves over the character, from ahead to behind.
  intro a ahead
  exact ⟨⟨⟨c :: a.cursor.before, rest⟩, a.captures⟩,
    mem_ends_one.mpr ⟨c, fit, ⟨ahead, rfl⟩, rfl⟩, rfl⟩

/-- The end of the text is accepted there. -/
theorem textEnd : Accepts .textEnd [] [] := by
  intro a ahead
  exact ⟨a, mem_ends_textEnd.mpr ⟨rfl, ahead⟩, ahead⟩

/-- A run accepts any number of characters of the class. -/
theorem run {fits : Char → Bool} {taken : List Char} (all : ∀ c ∈ taken, fits c = true)
    (rest : List Char) : Accepts (.run fits) (taken ++ rest) rest := by
  -- The place moves over the whole run at once.
  intro a ahead
  exact ⟨⟨⟨taken.reverse ++ a.cursor.before, rest⟩, a.captures⟩,
    mem_ends_run.mpr ⟨taken, all, ⟨ahead, rfl⟩, rfl⟩, rfl⟩

/-- A reluctant run accepts what a greedy run accepts. -/
theorem shortRun {fits : Char → Bool} {taken : List Char} (all : ∀ c ∈ taken, fits c = true)
    (rest : List Char) : Accepts (.shortRun fits) (taken ++ rest) rest := by
  intro a ahead
  -- Both runs have the same ends; they only list them in another order.
  obtain ⟨e, outcome, left⟩ := run all rest a ahead
  exact ⟨e, mem_shortRunEnds.mpr outcome, left⟩

/-- What one pattern leaves is accepted by the next. -/
theorem seq (first : Accepts p text middle) (second : Accepts q middle rest) :
    Accepts (.seq p q) text rest := by
  intro a ahead
  -- The first pattern gets to a place from where the second one goes on.
  obtain ⟨m, outcome, between⟩ := first a ahead
  obtain ⟨e, last, left⟩ := second m between
  exact ⟨e, mem_ends_seq.mpr ⟨m, outcome, last⟩, left⟩

/-- What the first of two patterns accepts is accepted. -/
theorem orFirst (first : Accepts p text rest) : Accepts (.or p q) text rest := by
  -- The outcomes of a choice are those of both patterns.
  intro a ahead
  obtain ⟨e, outcome, left⟩ := first a ahead
  exact ⟨e, mem_ends_or.mpr (.inl outcome), left⟩

/-- What the second of two patterns accepts is accepted. -/
theorem orSecond (second : Accepts q text rest) : Accepts (.or p q) text rest := by
  intro a ahead
  obtain ⟨e, outcome, left⟩ := second a ahead
  exact ⟨e, mem_ends_or.mpr (.inr outcome), left⟩

/-- No repetition is accepted everywhere. -/
theorem many_none (text : List Char) : Accepts (.many p) text text := by
  intro a ahead
  refine ⟨a, ?_, ahead⟩
  rw [ends]
  -- Stopping at once is an outcome under every bound on repetitions.
  cases a.cursor.after.length <;> simp [manyEnds]

/-- A repetition that takes something is accepted in front of others. -/
theorem many_more (first : Accepts p text middle) (shorter : middle.length < text.length)
    (others : Accepts (.many p) middle rest) : Accepts (.many p) text rest := by
  intro a ahead
  obtain ⟨m, outcome, between⟩ := first a ahead
  obtain ⟨e, later, left⟩ := others m between
  refine ⟨e, ?_, left⟩
  -- There is a character ahead for each repetition, so the bound on them does not matter.
  obtain ⟨limit, enough⟩ : ∃ limit, a.cursor.after.length = limit + 1 :=
    ⟨text.length - 1, by rw [ahead]; omega⟩
  rw [ends, enough, manyEnds]
  refine List.mem_append_left _ (List.mem_flatMap.mpr ⟨m, ?_, ?_⟩)
  · exact List.mem_filter.mpr ⟨outcome, by simpa [advances, ahead, between] using shorter⟩
  · rw [ends] at later
    rwa [manyEnds_of_le (Nat.le_refl _) (by rw [between]; rw [ahead] at enough; omega)]

/-- Capturing changes nothing about what is accepted. -/
theorem capture (label : Label) (body : Accepts p text rest) :
    Accepts (.capture label p) text rest := by
  -- A capture adds to what is remembered and leaves the place as it is.
  intro a ahead
  obtain ⟨e, outcome, left⟩ := body a ahead
  exact ⟨_, mem_ends_capture.mpr ⟨e, outcome, rfl⟩, left⟩

/-- What the first of several patterns leaves is accepted by the others. -/
theorem inOrder_cons {others : List Pattern} (first : Accepts p text middle)
    (second : Accepts (inOrder others) middle rest) :
    Accepts (inOrder (p :: others)) text rest := by
  intro a ahead
  -- Patterns in order are one pattern followed by the others.
  obtain ⟨e, outcome, left⟩ := first.seq second a ahead
  exact ⟨e, mem_ends_inOrder_cons.mpr (mem_ends_seq.mp outcome), left⟩

/-- What several patterns leave is accepted by those that follow them. -/
theorem inOrder_append {patterns others : List Pattern}
    (first : Accepts (inOrder patterns) text middle)
    (second : Accepts (inOrder others) middle rest) :
    Accepts (inOrder (patterns ++ others)) text rest := by
  -- Several patterns in order are read one behind the other.
  intro a ahead
  obtain ⟨e, outcome, left⟩ := first.seq second a ahead
  exact ⟨e, mem_ends_inOrder_append.mpr (mem_ends_seq.mp outcome), left⟩

/-- Behind a word that a pattern accepts there is a word edge, unless the text goes on with it. -/
theorem inOrder_edge {taken : List Char} {others : List Pattern}
    (first : Accepts p (taken ++ middle) middle)
    (inside : Cursor.touchesWord taken.getLast? = true)
    (outside : Cursor.touchesWord middle.head? = false)
    (second : Accepts (inOrder others) middle rest) :
    Accepts (inOrder (p :: wordEdge :: others)) (taken ++ middle) rest := by
  intro a ahead
  obtain ⟨m, outcome, between⟩ := first a ahead
  -- What was read is the word, so its last character is the one behind the place.
  obtain ⟨read, reads⟩ := exists_reads outcome
  obtain rfl : taken = read := by
    have shape := reads.1
    rw [ahead, between] at shape
    exact List.append_cancel_right shape
  -- The word touches the place from behind, and nothing of a word stands ahead.
  have edge : m.cursor.atWordEdge = true := by
    have behind : m.cursor.before.head? = taken.getLast? := by
      rw [reads.2, List.head?_append, List.head?_reverse]
      cases last : taken.getLast? with
      | none => simp [last, Cursor.touchesWord] at inside
      | some c => rfl
    rw [Cursor.atWordEdge, behind, between, inside, outside]
    rfl
  obtain ⟨e, later, left⟩ := second m between
  refine ⟨e, mem_ends_inOrder_cons.mpr ⟨m, outcome, ?_⟩, left⟩
  exact mem_ends_inOrder_cons.mpr ⟨m, mem_ends_wordEdge.mpr ⟨rfl, edge⟩, later⟩

/-- A pattern that may be absent accepts what it accepts. -/
theorem optional_some (body : Accepts p text rest) : Accepts (optional p) text rest :=
  -- An optional pattern is the choice between it and nothing.
  body.orFirst

/-- A pattern that may be absent accepts nothing as well. -/
theorem optional_none (text : List Char) : Accepts (optional p) text text :=
  (empty text).orSecond

section AtLeastOne

variable {fits : Char → Bool} {taken : List Char} (inhabited : taken ≠ [])
  (all : ∀ c ∈ taken, fits c = true)

include inhabited all

/-- One character and then any number accept at least one character. -/
theorem atLeastOne
    (others : ∀ more : List Char, (∀ c ∈ more, fits c = true) → Accepts p (more ++ rest) rest) :
    Accepts (.seq (.one fits) p) (taken ++ rest) rest := by
  -- The first character is read on its own, and the rest as any number of them.
  obtain ⟨c, more, rfl⟩ := List.exists_cons_of_ne_nil inhabited
  rw [List.forall_mem_cons] at all
  exact (one all.1 (more ++ rest)).seq (others more all.2)

/-- A run of at least one character accepts such a run. -/
theorem run1 (rest : List Char) : Accepts (run1 fits) (taken ++ rest) rest :=
  -- Such a run is one character and then a run of any length.
  atLeastOne inhabited all fun _ fit => run fit rest

/-- A reluctant run of at least one character accepts such a run. -/
theorem shortRun1 (rest : List Char) : Accepts (shortRun1 fits) (taken ++ rest) rest :=
  atLeastOne inhabited all fun _ fit => shortRun fit rest

end AtLeastOne

/-- A phrase accepts itself. -/
theorem phrase (text rest : List Char) : Accepts (phrase text) (text ++ rest) rest := by
  -- The phrase is accepted character by character.
  induction text with
  | nil => exact empty rest
  | cons c others ih =>
    have here : Accepts (.one (· == c)) (c :: (others ++ rest)) (others ++ rest) :=
      one (by simp) _
    exact here.seq ih

/-- Each of several words is accepted. -/
theorem anyWord {words : List String} {word : String} (known : word ∈ words) (rest : List Char) :
    Accepts (anyWord words) (word.toList ++ rest) rest := by
  -- The alternatives are tried in order, and the last one has no other behind it.
  induction words with
  | nil => exact absurd known List.not_mem_nil
  | cons first others ih =>
    cases others with
    | nil =>
      obtain rfl := List.mem_singleton.mp known
      exact phrase word.toList rest
    | cons second more =>
      -- The word is the first one, or it is among the others.
      rcases List.mem_cons.mp known with rfl | later
      · exact (phrase word.toList rest).orFirst
      · exact (ih later).orSecond

end Accepts

end LockDiscipline.Pattern
