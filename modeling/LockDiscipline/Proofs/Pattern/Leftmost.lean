import LockDiscipline.Proofs.Pattern.Context

/-! The search for all matches, from left to right: what it lists and why nothing is missed. -/

namespace LockDiscipline.Pattern

/--
The matches that a search from left to right takes.

Together the three laws leave no choice: from the end of one match on, the next one starts at
the first place where the pattern has an outcome, and it is the outcome preferred there.
-/
structure Leftmost (p : Pattern) (text : List Char) (found : List Match) : Prop where
  /-- Each match starts at a place of the text and is the outcome preferred there. -/
  preferred : ∀ m ∈ found, m.start.before.reverse ++ m.start.after = text ∧
    (ends p ⟨m.start, []⟩).head? = some ⟨m.stop, m.captures⟩
  /-- Each match ends before the next one starts. -/
  apart : found.Pairwise fun m n => m.stop.before.length ≤ n.start.before.length
  /-- Wherever the pattern has an outcome, the place is taken by one of the matches. -/
  covered : ∀ place : Cursor, place.before.reverse ++ place.after = text →
    ends p ⟨place, []⟩ ≠ [] →
    ∃ m ∈ found, m.start.before.length ≤ place.before.length ∧
      place.before.length < m.stop.before.length

/-- Patterns that cannot match without reading a character. -/
def ReadsMore (p : Pattern) : Prop :=
  ∀ place : Cursor, ∀ e ∈ ends p ⟨place, []⟩, e.cursor.after.length < place.after.length

/-- The match at a place starts there and is the outcome preferred there. -/
theorem matchAt?_eq_some_iff {p : Pattern} {place : Cursor} {m : Match} :
    matchAt? p place = some m ↔
      m.start = place ∧ (ends p ⟨place, []⟩).head? = some ⟨m.stop, m.captures⟩ := by
  -- The match is the first outcome at its place, so both sides name the same outcome.
  rw [matchAt?_eq_head?, Option.map_eq_some_iff]
  constructor
  · rintro ⟨e, first, rfl⟩
    exact ⟨rfl, first⟩
  · rintro ⟨rfl, first⟩
    exact ⟨_, first, rfl⟩

/-- A match ends as many characters behind its start as it has. -/
theorem stop_of_matchAt? {p : Pattern} {place : Cursor} {m : Match}
    (matched : matchAt? p place = some m) :
    m.stop.before.length = place.before.length + m.length := by
  -- The match reads a stretch of text, which changes sides from ahead to behind.
  obtain ⟨rfl, first⟩ := matchAt?_eq_some_iff.mp matched
  obtain ⟨taken, reads⟩ := exists_reads (List.mem_of_head? first)
  have ahead := congrArg List.length reads.1
  have behind := congrArg List.length reads.2
  simp only [List.length_append, List.length_reverse] at ahead behind
  simp only [Match.length]
  omega

/-- A match of a pattern that reads more has a character. -/
theorem length_pos_of_matchAt? {p : Pattern} (readsMore : p.ReadsMore) {place : Cursor} {m : Match}
    (matched : matchAt? p place = some m) : 0 < m.length := by
  -- Reading more leaves less ahead, and the length is the difference.
  obtain ⟨rfl, first⟩ := matchAt?_eq_some_iff.mp matched
  have fewer : m.stop.after.length < m.start.after.length :=
    readsMore _ _ (List.mem_of_head? first)
  simp only [Match.length]
  omega

/-- Every listed match is the one at its place, behind the characters that are taken already. -/
theorem exists_matchAt?_of_mem_findAllFrom {p : Pattern} {before after : List Char} {skip : Nat}
    {m : Match} (member : m ∈ findAllFrom p before skip after) :
    ∃ front back, after = front ++ back ∧ skip ≤ front.length ∧
      matchAt? p ⟨front.reverse ++ before, back⟩ = some m := by
  -- The search moves one character on at each step, and counts down what is taken.
  induction after generalizing before skip with
  | nil => simp [findAllFrom] at member
  | cons c rest ih =>
    have later : ∀ fewer, skip ≤ fewer + 1 → m ∈ findAllFrom p (c :: before) fewer rest →
        ∃ front back, c :: rest = front ++ back ∧ skip ≤ front.length ∧
          matchAt? p ⟨front.reverse ++ before, back⟩ = some m := by
      intro fewer le inside
      obtain ⟨front, back, rfl, room, matched⟩ := ih inside
      refine ⟨c :: front, back, rfl, ?_, by simpa using matched⟩
      exact Nat.le_trans le (Nat.succ_le_succ room)
    cases skip with
    -- A character that is taken is passed over, and counts as one of those in front.
    | succ skip => exact later skip (Nat.le_refl _) member
    | zero =>
      rw [findAllFrom] at member
      cases here : matchAt? p ⟨before, c :: rest⟩ with
      | none =>
        rw [here] at member
        exact later 0 (Nat.zero_le _) member
      | some first =>
        rw [here] at member
        rcases List.mem_cons.mp member with rfl | inside
        · -- The match found here is the first of the list; the others come behind it.
          exact ⟨[], c :: rest, rfl, Nat.le_refl _, here⟩
        · exact later _ (Nat.zero_le _) inside

/-- Listed matches start behind the characters that are taken already. -/
theorem start_of_mem_findAllFrom {p : Pattern} {before after : List Char} {skip : Nat} {m : Match}
    (member : m ∈ findAllFrom p before skip after) :
    before.length + skip ≤ m.start.before.length := by
  -- In front of the match stand all characters that were to be skipped.
  obtain ⟨front, back, -, room, matched⟩ := exists_matchAt?_of_mem_findAllFrom member
  rw [(matchAt?_eq_some_iff.mp matched).1]
  simp only [List.length_append, List.length_reverse]
  omega

/-- Listed matches follow one another without overlap. -/
theorem pairwise_findAllFrom {p : Pattern} (readsMore : p.ReadsMore)
    (before after : List Char) (skip : Nat) :
    (findAllFrom p before skip after).Pairwise
      fun m n => m.stop.before.length ≤ n.start.before.length := by
  -- A match takes its own characters, so the search goes on behind it.
  induction after generalizing before skip with
  | nil => exact .nil
  | cons c rest ih =>
    cases skip with
    | succ skip => exact ih (c :: before) skip
    | zero =>
      rw [findAllFrom]
      cases here : matchAt? p ⟨before, c :: rest⟩ with
      | none => exact ih (c :: before) 0
      | some first =>
        -- The match has a character, so the ones behind it start no earlier than it stops.
        refine .cons (fun n member => ?_) (ih (c :: before) _)
        have later := start_of_mem_findAllFrom member
        have nonempty := length_pos_of_matchAt? readsMore here
        rw [stop_of_matchAt? here]
        simp only [List.length_cons] at later ⊢
        omega

/-- No place where the pattern has an outcome is passed over, unless it is taken already. -/
theorem covered_of_findAllFrom {p : Pattern} (readsMore : p.ReadsMore)
    {before front back : List Char} {skip : Nat} (room : skip ≤ front.length)
    (outcome : ends p ⟨⟨front.reverse ++ before, back⟩, []⟩ ≠ []) :
    ∃ m ∈ findAllFrom p before skip (front ++ back),
      m.start.before.length ≤ before.length + front.length ∧
        before.length + front.length < m.stop.before.length := by
  -- The induction is on the characters between the search and the place.
  induction front generalizing before skip with
  | nil =>
    -- The search stands at the place and is free to match, so the match found is at the place.
    obtain rfl : skip = 0 := Nat.le_zero.mp room
    obtain ⟨e, others, shape⟩ := List.exists_cons_of_ne_nil outcome
    have here : matchAt? p ⟨before, back⟩ = some ⟨⟨before, back⟩, e.cursor, e.captures⟩ :=
      matchAt?_eq_some_iff.mpr ⟨rfl, by rw [show ends p ⟨⟨before, back⟩, []⟩ = _ from shape]; rfl⟩
    have nonempty := length_pos_of_matchAt? readsMore here
    have stop := stop_of_matchAt? here
    cases back with
    | nil => simp [Match.length] at nonempty
    | cons c rest =>
      refine ⟨_, ?_, Nat.le_refl _, by rw [stop]; simpa using nonempty⟩
      rw [List.nil_append, findAllFrom, here]
      exact List.mem_cons_self
  | cons c front ih =>
    have distance : before.length + (c :: front).length = (c :: before).length + front.length := by
      simp only [List.length_cons]
      omega
    have ahead : ends p ⟨⟨front.reverse ++ c :: before, back⟩, []⟩ ≠ [] := by
      simpa using outcome
    rw [distance, List.cons_append]
    cases skip with
    | succ skip => exact ih (Nat.le_of_succ_le_succ room) ahead
    | zero =>
      rw [findAllFrom]
      cases here : matchAt? p ⟨before, c :: (front ++ back)⟩ with
      | none => exact ih (Nat.zero_le _) ahead
      | some first =>
        by_cases past : first.length - 1 ≤ front.length
        · -- The match ends before the place, so the search goes on to it.
          obtain ⟨m, member, inside⟩ := ih past ahead
          exact ⟨m, List.mem_cons_of_mem _ member, inside⟩
        · -- The place lies inside the match that is found here.
          refine ⟨first, List.mem_cons_self, ?_, ?_⟩
          · rw [(matchAt?_eq_some_iff.mp here).1]
            simp only [List.length_cons]
            omega
          · rw [stop_of_matchAt? here]
            simp only [List.length_cons]
            omega

/-- The search for all matches takes them from left to right. -/
theorem leftmost_findAll {p : Pattern} (readsMore : p.ReadsMore) (text : List Char) :
    Leftmost p text (p.findAll text) := by
  refine ⟨fun m member => ?_, pairwise_findAllFrom readsMore [] text 0, ?_⟩
  · -- Each listed match is what the pattern prefers at its place.
    obtain ⟨front, back, rfl, -, matched⟩ := exists_matchAt?_of_mem_findAllFrom member
    obtain ⟨start, first⟩ := matchAt?_eq_some_iff.mp matched
    rw [start]
    exact ⟨by simp, first⟩
  · -- The search starts at the front of the text with nothing taken, so every place is in reach.
    rintro ⟨before, after⟩ rfl outcome
    have covered : ∃ m ∈ findAllFrom p [] 0 (before.reverse ++ after),
        m.start.before.length ≤ ([] : List Char).length + before.reverse.length ∧
          ([] : List Char).length + before.reverse.length < m.stop.before.length :=
      covered_of_findAllFrom readsMore (Nat.zero_le _) (by simpa using outcome)
    simpa [findAll] using covered

/-- Patterns that read a character on every way through them. -/
def mustRead : Pattern → Bool
  | .one _ => true
  | .seq first second => first.mustRead || second.mustRead
  | .or first second => first.mustRead && second.mustRead
  | .capture _ body => body.mustRead
  | _ => false

/-- No pattern gives characters back. -/
theorem length_after_le {p : Pattern} {a e : Attempt} (outcome : e ∈ ends p a) :
    e.cursor.after.length ≤ a.cursor.after.length := by
  -- What is read is taken from ahead.
  obtain ⟨taken, ahead, -⟩ := exists_reads outcome
  rw [ahead, List.length_append]
  omega

/-- A pattern that must read leaves fewer characters ahead. -/
theorem length_after_lt {p : Pattern} (must : p.mustRead = true) {a e : Attempt}
    (outcome : e ∈ ends p a) : e.cursor.after.length < a.cursor.after.length := by
  -- The characters are counted along the pattern; only the parts that must read matter.
  induction p generalizing a e with
  | one fits =>
    obtain ⟨c, -, ⟨ahead, -⟩, -⟩ := mem_ends_one.mp outcome
    simp [ahead]
  | seq first second ihFirst ihSecond =>
    obtain ⟨m, one, other⟩ := mem_ends_seq.mp outcome
    -- One of the two parts reads a character, and the other one gives none back.
    rcases Bool.or_eq_true_iff.mp must with reads | reads
    · exact Nat.lt_of_le_of_lt (length_after_le other) (ihFirst reads one)
    · exact Nat.lt_of_lt_of_le (ihSecond reads other) (length_after_le one)
  | or first second ihFirst ihSecond =>
    obtain ⟨mustFirst, mustSecond⟩ := Bool.and_eq_true_iff.mp must
    rcases mem_ends_or.mp outcome with one | other
    · exact ihFirst mustFirst one
    · exact ihSecond mustSecond other
  | capture label body ih =>
    obtain ⟨m, inner, rfl⟩ := mem_ends_capture.mp outcome
    have fewer := ih must inner
    exact fewer
  | _ => exact absurd must (by simp [mustRead])

/-- The search for all matches lists one exactly if the pattern occurs. -/
theorem findAll_ne_nil_iff {p : Pattern} (must : p.mustRead = true) {text : List Char} :
    p.findAll text ≠ [] ↔ p.occursIn text = true := by
  have readsMore : p.ReadsMore := fun _ _ outcome => length_after_lt must outcome
  rw [occursIn_iff]
  constructor
  · -- What is listed has an outcome at its place, which is an occurrence.
    intro listed
    obtain ⟨m, others, shape⟩ := List.exists_cons_of_ne_nil listed
    have inside : m.FoundIn p text := foundIn_of_mem_findAll (by simp [shape])
    exact ⟨m.start.before.reverse, m.start.after, ⟨m.stop, m.captures⟩, inside.place.symm,
      by simpa using inside.outcome⟩
  · rintro ⟨front, back, e, rfl, outcome⟩
    -- A place with an outcome is taken by one of the matches, so there is a match.
    obtain ⟨m, member, -⟩ := (leftmost_findAll readsMore (front ++ back)).covered
      ⟨front.reverse, back⟩ (by simp) (List.ne_nil_of_mem outcome)
    exact List.ne_nil_of_mem member

end LockDiscipline.Pattern
