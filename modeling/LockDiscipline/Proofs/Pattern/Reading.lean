import LockDiscipline.Pattern.Outcomes

/-! What the outcomes of a pattern read: the stretch of text between two places. -/

namespace LockDiscipline

/-- From one place in a text to a later one, `taken` is read. -/
def Attempt.Reads (a : Attempt) (taken : List Char) (e : Attempt) : Prop :=
  a.cursor.after = taken ++ e.cursor.after ∧ e.cursor.before = taken.reverse ++ a.cursor.before

namespace Attempt.Reads

/-- A place is reached from itself by reading nothing. -/
theorem refl (a : Attempt) : a.Reads [] a := ⟨rfl, rfl⟩

/-- Readings that follow one another make one reading. -/
theorem trans {a m e : Attempt} {first second : List Char} (one : a.Reads first m)
    (other : m.Reads second e) : a.Reads (first ++ second) e := by
  -- Both sides of the place are put together, the text before it in reverse.
  constructor
  · rw [one.1, other.1, List.append_assoc]
  · rw [other.2, one.2, List.reverse_append, List.append_assoc]

/-- What is read is the text between the two places. -/
theorem upTo {a e : Attempt} {taken : List Char} (reads : a.Reads taken e) :
    a.cursor.upTo e.cursor = taken := by
  -- The later place has less ahead, by the length of what was read.
  unfold Cursor.upTo
  rw [reads.1, List.length_append, Nat.add_sub_cancel, List.take_left]

/-- Reading moves a place along a text and leaves the text as it is. -/
theorem text_eq {a e : Attempt} {taken : List Char} (reads : a.Reads taken e) :
    e.cursor.before.reverse ++ e.cursor.after = a.cursor.before.reverse ++ a.cursor.after := by
  -- What is read goes from one side of the place to the other, and both sides are put together.
  rw [reads.1, reads.2]
  simp

end Attempt.Reads

namespace Pattern

/-- The outcomes of nothing. -/
@[simp] theorem mem_ends_empty {a e : Attempt} : e ∈ ends .empty a ↔ e = a :=
  List.mem_singleton

/-- The outcomes of one character. -/
theorem mem_ends_one {fits : Char → Bool} {a e : Attempt} :
    e ∈ ends (.one fits) a ↔
      ∃ c, fits c = true ∧ a.Reads [c] e ∧ e.captures = a.captures := by
  -- One character is read if there is a next one and it fits; nothing is read at the end.
  obtain ⟨⟨before, after⟩, captures⟩ := a
  cases after with
  | nil => simp [ends, Attempt.Reads]
  | cons c rest =>
    simp only [ends]
    constructor
    · intro outcome
      split at outcome
      · rename_i fit
        obtain rfl := List.mem_singleton.mp outcome
        exact ⟨c, fit, ⟨rfl, rfl⟩, rfl⟩
      · exact absurd outcome List.not_mem_nil
    · rintro ⟨d, fit, ⟨ahead, behind⟩, same⟩
      -- The character that is read is the next one of the text.
      obtain ⟨rfl, rfl⟩ : c = d ∧ rest = e.cursor.after := List.cons.inj ahead
      obtain ⟨⟨before', after'⟩, captures'⟩ := e
      simp_all

/-- The outcomes of a word edge. -/
@[simp] theorem mem_ends_wordEdge {a e : Attempt} :
    e ∈ ends .wordEdge a ↔ e = a ∧ a.cursor.atWordEdge = true := by
  -- Where there is no edge there is no outcome.
  simp only [ends]
  split <;> simp_all

/-- The outcomes of the end of the text. -/
@[simp] theorem mem_ends_textEnd {a e : Attempt} :
    e ∈ ends .textEnd a ↔ e = a ∧ a.cursor.after = [] := by
  -- Where characters are left there is no outcome.
  simp only [ends]
  split <;> simp_all

/-- The outcomes of one pattern and then another. -/
@[simp] theorem mem_ends_seq {first second : Pattern} {a e : Attempt} :
    e ∈ ends (.seq first second) a ↔ ∃ m ∈ ends first a, e ∈ ends second m :=
  List.mem_flatMap

/-- The outcomes of one pattern or another. -/
@[simp] theorem mem_ends_or {first second : Pattern} {a e : Attempt} :
    e ∈ ends (.or first second) a ↔ e ∈ ends first a ∨ e ∈ ends second a :=
  List.mem_append

/-- The outcomes of a captured pattern. -/
theorem mem_ends_capture {label : Label} {body : Pattern} {a e : Attempt} :
    e ∈ ends (.capture label body) a ↔ ∃ m ∈ ends body a,
      e = ⟨m.cursor, ⟨label, a.cursor, a.cursor.upTo m.cursor⟩ :: m.captures⟩ := by
  -- The text that is captured is what was read between the two places.
  simp only [ends, List.mem_map, eq_comm]

/-- Patterns in order go on from the outcomes of the first. -/
theorem ends_inOrder_cons (p : Pattern) (rest : List Pattern) (a : Attempt) :
    ends (inOrder (p :: rest)) a = (ends p a).flatMap (ends (inOrder rest)) := by
  -- The last pattern of all is not followed by nothing, so it has a case of its own.
  cases rest with
  | nil => exact (List.flatMap_singleton' (ends p a)).symm
  | cons q others => rfl

/-- The outcomes of patterns in order, cut anywhere between them. -/
theorem ends_inOrder_append (first second : List Pattern) (a : Attempt) :
    ends (inOrder (first ++ second)) a =
      (ends (inOrder first) a).flatMap (ends (inOrder second)) := by
  -- The first list is taken apart pattern by pattern.
  induction first generalizing a with
  | nil => simp [inOrder, ends]
  | cons p rest ih =>
    have later : ends (inOrder (rest ++ second)) = _ := funext ih
    rw [List.cons_append, ends_inOrder_cons, ends_inOrder_cons, later, List.flatMap_assoc]

/-- An outcome of several patterns in order is reached through one of the first. -/
theorem mem_ends_inOrder_cons {p : Pattern} {rest : List Pattern} {a e : Attempt} :
    e ∈ ends (inOrder (p :: rest)) a ↔ ∃ m ∈ ends p a, e ∈ ends (inOrder rest) m := by
  -- The list of patterns is read one by one.
  rw [ends_inOrder_cons, List.mem_flatMap]

/-- An outcome of patterns in order is reached through one of any first part of them. -/
theorem mem_ends_inOrder_append {first second : List Pattern} {a e : Attempt} :
    e ∈ ends (inOrder (first ++ second)) a ↔
      ∃ m ∈ ends (inOrder first) a, e ∈ ends (inOrder second) m := by
  -- The first patterns leave the places from which the others go on.
  rw [ends_inOrder_append, List.mem_flatMap]

/-- A reading of a longer text takes nothing, or its first character and then more. -/
theorem reads_cons_iff {before rest taken : List Char} {c : Char} {captures : List Capture}
    {e : Attempt} :
    (Attempt.mk ⟨before, c :: rest⟩ captures).Reads taken e ↔
      (taken = [] ∧ e.cursor = ⟨before, c :: rest⟩) ∨
        ∃ others, taken = c :: others ∧
          (Attempt.mk ⟨c :: before, rest⟩ captures).Reads others e := by
  -- The next character of the text is the first that is read, if any is read at all.
  constructor
  · rintro ⟨ahead, behind⟩
    cases taken with
    | nil =>
      obtain ⟨⟨before', after'⟩, captures'⟩ := e
      simp_all
    | cons d others =>
      obtain ⟨rfl, more⟩ : c = d ∧ rest = others ++ e.cursor.after := List.cons.inj ahead
      exact .inr ⟨others, rfl, more, by simpa using behind⟩
  · rintro (⟨rfl, place⟩ | ⟨others, rfl, ahead, behind⟩)
    · rw [Attempt.Reads, place]
      exact ⟨rfl, rfl⟩
    · refine ⟨?_, by simpa using behind⟩
      rw [List.cons_append]
      exact congrArg (c :: ·) ahead

/-- The ends of a greedy run are the ends of all runs. -/
theorem mem_runEnds {fits : Char → Bool} {captures : List Capture} {before after : List Char}
    {e : Attempt} :
    e ∈ runEnds fits captures before after ↔
      ∃ taken, (∀ c ∈ taken, fits c = true) ∧ (Attempt.mk ⟨before, after⟩ captures).Reads taken e ∧
        e.captures = captures := by
  -- Each character that fits leads on to the longer runs, and the place before it is an end too.
  induction after generalizing before with
  | nil =>
    rw [runEnds, List.mem_singleton]
    constructor
    · rintro rfl
      exact ⟨[], by simp, .refl _, rfl⟩
    · rintro ⟨taken, -, reads, same⟩
      -- At the end of the text there is nothing more to read.
      obtain ⟨rfl, past⟩ := List.append_eq_nil_iff.mp reads.1.symm
      obtain ⟨⟨before', after'⟩, captures'⟩ := e
      simp_all [Attempt.Reads]
  | cons c rest ih =>
    obtain ⟨cursor, captures'⟩ := e
    simp only [runEnds]
    by_cases fit : fits c = true
    · rw [if_pos fit, List.mem_append, List.mem_singleton, ih]
      simp only [reads_cons_iff]
      constructor
      · -- The greedy search lists the longer runs first and the empty one last.
        rintro (⟨others, all, reads, same⟩ | whole)
        · exact ⟨c :: others, by simpa [fit] using all, .inr ⟨others, rfl, reads⟩, same⟩
        · cases whole
          exact ⟨[], by simp, .inl ⟨rfl, rfl⟩, rfl⟩
      · rintro ⟨taken, all, ⟨rfl, place⟩ | ⟨others, rfl, reads⟩, same⟩
        · exact .inr (by simp_all)
        · exact .inl ⟨others, fun d member => all d (by simp [member]), reads, same⟩
    · -- A character that does not fit leaves only the empty run.
      rw [if_neg fit, List.mem_singleton]
      simp only [reads_cons_iff]
      constructor
      · intro whole
        cases whole
        exact ⟨[], by simp, .inl ⟨rfl, rfl⟩, rfl⟩
      · rintro ⟨taken, all, ⟨rfl, place⟩ | ⟨others, rfl, reads⟩, same⟩
        · simp_all
        · exact absurd (all c (by simp)) fit

/-- The ends of a reluctant run are those of a greedy run in another order. -/
theorem mem_shortRunEnds {fits : Char → Bool} {captures : List Capture} {before after : List Char}
    {e : Attempt} :
    e ∈ shortRunEnds fits captures before after ↔ e ∈ runEnds fits captures before after := by
  -- The two searches list the same ends from opposite sides.
  induction after generalizing before with
  | nil => rfl
  | cons c rest ih =>
    simp only [shortRunEnds, runEnds]
    by_cases fit : fits c = true
    · simp [fit, ih, or_comm]
    · simp [fit]

/-- The outcomes of a greedy run. -/
theorem mem_ends_run {fits : Char → Bool} {a e : Attempt} :
    e ∈ ends (.run fits) a ↔
      ∃ taken, (∀ c ∈ taken, fits c = true) ∧ a.Reads taken e ∧ e.captures = a.captures :=
  mem_runEnds

/-- The outcomes of a reluctant run. -/
theorem mem_ends_shortRun {fits : Char → Bool} {a e : Attempt} :
    e ∈ ends (.shortRun fits) a ↔
      ∃ taken, (∀ c ∈ taken, fits c = true) ∧ a.Reads taken e ∧ e.captures = a.captures :=
  -- A reluctant run has the same outcomes as a greedy one, in the other order.
  mem_shortRunEnds.trans mem_runEnds

/-- A run of at least one character reads such a run. -/
theorem reads_of_mem_run1 {fits : Char → Bool} {a e : Attempt} (outcome : e ∈ ends (run1 fits) a) :
    ∃ taken, taken ≠ [] ∧ (∀ c ∈ taken, fits c = true) ∧ a.Reads taken e ∧
      e.captures = a.captures := by
  -- A run of at least one is a character and then any run.
  simp only [run1, mem_ends_seq, mem_ends_one, mem_ends_run] at outcome
  obtain ⟨m, ⟨c, fit, first, same⟩, taken, all, reads, rest⟩ := outcome
  exact ⟨c :: taken, by simp, by simpa [fit] using all, first.trans reads, rest.trans same⟩

/-- An exact phrase reads itself. -/
theorem reads_of_mem_phrase {text : List Char} {a e : Attempt}
    (outcome : e ∈ ends (phrase text) a) :
    a.Reads text e ∧ e.captures = a.captures := by
  -- Each character of the phrase is one step that reads itself.
  induction text generalizing a with
  | nil =>
    rw [phrase, mem_ends_empty] at outcome
    subst outcome
    exact ⟨.refl e, rfl⟩
  | cons c rest ih =>
    rw [phrase, mem_ends_seq] at outcome
    obtain ⟨m, one, others⟩ := outcome
    obtain ⟨d, fit, first, same⟩ := mem_ends_one.mp one
    obtain rfl : d = c := by simpa using fit
    obtain ⟨reads, kept⟩ := ih others
    exact ⟨first.trans reads, kept.trans same⟩

/-- The first of several words that fits reads one of them. -/
theorem reads_of_mem_anyWord {words : List String} {a e : Attempt}
    (outcome : e ∈ ends (anyWord words) a) :
    ∃ word ∈ words, a.Reads word.toList e ∧ e.captures = a.captures := by
  -- The alternatives are tried in order, and the last one has no other behind it.
  induction words with
  | nil => simp [anyWord, mem_ends_one] at outcome
  | cons word rest ih =>
    cases rest with
    | nil => exact ⟨word, by simp, reads_of_mem_phrase outcome⟩
    | cons next others =>
      rw [anyWord, mem_ends_or] at outcome
      rcases outcome with here | later
      · exact ⟨word, by simp, reads_of_mem_phrase here⟩
      · obtain ⟨found, member, reads⟩ := ih later
        exact ⟨found, by simp [member], reads⟩
      · simp

/-- Repetitions read what their bodies read, one after the other. -/
theorem reads_of_mem_manyEnds {body : Attempt → List Attempt}
    (reads : ∀ a, ∀ e ∈ body a, ∃ taken, a.Reads taken e) {limit : Nat} {a e : Attempt}
    (outcome : e ∈ manyEnds body limit a) : ∃ taken, a.Reads taken e := by
  -- The bound on repetitions is what the induction is on.
  induction limit generalizing a with
  | zero =>
    obtain rfl := List.mem_singleton.mp outcome
    exact ⟨[], .refl e⟩
  | succ limit ih =>
    rw [manyEnds, List.mem_append, List.mem_flatMap, List.mem_singleton] at outcome
    rcases outcome with ⟨m, first, others⟩ | rfl
    · -- A round reads what its body reads, and the rounds behind it read on from there.
      obtain ⟨taken, one⟩ := reads a m (List.mem_filter.mp first).1
      obtain ⟨more, rest⟩ := ih others
      exact ⟨taken ++ more, one.trans rest⟩
    · exact ⟨[], .refl e⟩

/-- Every outcome of a pattern reads some stretch of the text. -/
theorem exists_reads {p : Pattern} {a e : Attempt} (outcome : e ∈ ends p a) :
    ∃ taken, a.Reads taken e := by
  -- Every pattern moves only forward, one case for each way to build it.
  induction p generalizing a e with
  | empty => exact ⟨[], (mem_ends_empty.mp outcome) ▸ .refl a⟩
  | one fits =>
    obtain ⟨c, -, reads, -⟩ := mem_ends_one.mp outcome
    exact ⟨[c], reads⟩
  | wordEdge => exact ⟨[], (mem_ends_wordEdge.mp outcome).1 ▸ .refl a⟩
  | textEnd => exact ⟨[], (mem_ends_textEnd.mp outcome).1 ▸ .refl a⟩
  | run fits =>
    obtain ⟨taken, -, reads, -⟩ := mem_ends_run.mp outcome
    exact ⟨taken, reads⟩
  | shortRun fits =>
    obtain ⟨taken, -, reads, -⟩ := mem_ends_shortRun.mp outcome
    exact ⟨taken, reads⟩
  | seq first second ihFirst ihSecond =>
    obtain ⟨m, one, other⟩ := mem_ends_seq.mp outcome
    obtain ⟨taken, reads⟩ := ihFirst one
    obtain ⟨more, rest⟩ := ihSecond other
    exact ⟨taken ++ more, reads.trans rest⟩
  | or first second ihFirst ihSecond =>
    -- Only one of the two alternatives reads; which one does not matter.
    rcases mem_ends_or.mp outcome with one | other
    · exact ihFirst one
    · exact ihSecond other
  | many body ih => exact reads_of_mem_manyEnds (fun _ _ => ih) outcome
  | capture label body ih =>
    obtain ⟨m, inner, rfl⟩ := mem_ends_capture.mp outcome
    obtain ⟨taken, reads⟩ := ih inner
    exact ⟨taken, reads⟩

/-- The labels under which a pattern captures. -/
def labels : Pattern → List Label
  | .seq first second => first.labels ++ second.labels
  | .or first second => first.labels ++ second.labels
  | .many body => body.labels
  | .capture label body => label :: body.labels
  | _ => []

/-- Captures grow in front, and only under the labels of the pattern. -/
def Grows (names : List Label) (a e : Attempt) : Prop :=
  ∃ added, e.captures = added ++ a.captures ∧ ∀ c ∈ added, c.label ∈ names

/-- Captures are kept by an outcome that adds none. -/
theorem Grows.of_eq {names : List Label} {a e : Attempt} (same : e.captures = a.captures) :
    -- Nothing is added, so nothing has to be under a label.
    Grows names a e := ⟨[], by simp [same], by simp⟩

/-- Captures grow over several outcomes as they grow over each. -/
theorem Grows.trans {first second : List Label} {a m e : Attempt} (one : Grows first a m)
    (other : Grows second m e) : Grows (first ++ second) a e := by
  -- The later captures stand in front of the earlier ones.
  obtain ⟨added, shape, inside⟩ := one
  obtain ⟨more, rest, others⟩ := other
  refine ⟨more ++ added, by rw [rest, shape, List.append_assoc], ?_⟩
  intro c member
  rcases List.mem_append.mp member with late | early
  · exact List.mem_append_right first (others c late)
  · exact List.mem_append_left second (inside c early)

/-- Captures may be said to grow under more labels. -/
theorem Grows.mono {names more : List Label} {a e : Attempt} (grows : Grows names a e)
    (subset : names ⊆ more) : Grows more a e := by
  -- The captures that are added stay the same.
  obtain ⟨added, shape, inside⟩ := grows
  exact ⟨added, shape, fun c member => subset (inside c member)⟩

/-- Repetitions capture only what their bodies capture. -/
theorem grows_of_mem_manyEnds {body : Attempt → List Attempt} {names : List Label}
    (grows : ∀ a, ∀ e ∈ body a, Grows names a e) {limit : Nat} {a e : Attempt}
    (outcome : e ∈ manyEnds body limit a) : Grows names a e := by
  -- Repetitions may capture again and again, but under the same labels.
  induction limit generalizing a with
  | zero =>
    obtain rfl := List.mem_singleton.mp outcome
    exact .of_eq rfl
  | succ limit ih =>
    rw [manyEnds, List.mem_append, List.mem_flatMap, List.mem_singleton] at outcome
    rcases outcome with ⟨m, first, others⟩ | rfl
    · have one := grows a m (List.mem_filter.mp first).1
      exact (one.trans (ih others)).mono (by simp)
    · exact .of_eq rfl

/-- Every outcome of a pattern captures only under its labels. -/
theorem grows_of_mem_ends {p : Pattern} {a e : Attempt} (outcome : e ∈ ends p a) :
    Grows p.labels a e := by
  -- Only the case of a capture adds anything.
  induction p generalizing a e with
  | empty => exact .of_eq (mem_ends_empty.mp outcome ▸ rfl)
  | one fits =>
    obtain ⟨c, -, -, same⟩ := mem_ends_one.mp outcome
    exact .of_eq same
  | wordEdge => exact .of_eq ((mem_ends_wordEdge.mp outcome).1 ▸ rfl)
  | textEnd => exact .of_eq ((mem_ends_textEnd.mp outcome).1 ▸ rfl)
  | run fits =>
    obtain ⟨taken, -, -, same⟩ := mem_ends_run.mp outcome
    exact .of_eq same
  | shortRun fits =>
    obtain ⟨taken, -, -, same⟩ := mem_ends_shortRun.mp outcome
    exact .of_eq same
  | seq first second ihFirst ihSecond =>
    obtain ⟨m, one, other⟩ := mem_ends_seq.mp outcome
    exact (ihFirst one).trans (ihSecond other)
  | or first second ihFirst ihSecond =>
    rcases mem_ends_or.mp outcome with one | other
    · exact (ihFirst one).mono (List.subset_append_left _ _)
    · exact (ihSecond other).mono (List.subset_append_right _ _)
  | many body ih => exact grows_of_mem_manyEnds (fun _ _ => ih) outcome
  | capture label body ih =>
    obtain ⟨m, inner, rfl⟩ := mem_ends_capture.mp outcome
    obtain ⟨added, shape, inside⟩ := ih inner
    refine ⟨⟨label, a.cursor, a.cursor.upTo m.cursor⟩ :: added, by simp [shape], ?_⟩
    simpa [labels] using fun c member => .inr (inside c member)

/-- A part captured before other labels were used is still found under its own. -/
theorem Grows.find? {names : List Label} {a e : Attempt} (grows : Grows names a e) {label : Label}
    (other : label ∉ names) :
    e.captures.find? (·.label == label) = a.captures.find? (·.label == label) := by
  -- What was added in front has other labels, so the search passes over it.
  obtain ⟨added, shape, inside⟩ := grows
  have none : added.find? (·.label == label) = none := by
    rw [List.find?_eq_none]
    intro c member same
    exact other (by simpa [← beq_iff_eq.mp same] using inside c member)
  rw [shape, List.find?_append, none, Option.none_or]

end Pattern

end LockDiscipline
