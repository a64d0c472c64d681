import LockDiscipline.Proofs.Pattern.Context
import Mathlib.Data.List.Basic

/-! Texts put together: where no match can cross the border, the matches of both parts remain. -/

namespace LockDiscipline

open LockDiscipline.Text

/-- A match, seen in a larger text around it. -/
def Pattern.Match.within (lead trail : List Char) (found : Match) : Match :=
  ⟨found.start.within lead trail, found.stop.within lead trail,
    found.captures.map (Capture.within lead trail)⟩

/-- What stands between two places is the same in a larger text. -/
theorem Cursor.upTo_within (lead trail : List Char) (first last : Cursor) :
    (first.within lead trail).upTo (last.within lead trail) = first.upTo last := by
  -- Both places have the same more text ahead of them, so their distance is the same.
  simp only [Cursor.upTo, Cursor.within, List.length_append]
  rw [List.take_append_of_le_length (by omega)]
  congr 1
  omega

namespace Pattern

/-- A match has as many characters in a larger text. -/
@[simp] theorem Match.length_within (lead trail : List Char) (found : Match) :
    (found.within lead trail).length = found.length := by
  -- The text put around a match is counted in both of its ends, and so it cancels.
  simp only [Match.length, Match.within, Cursor.within, List.length_append]
  omega

/-- The part captured under a label, seen in a larger text. -/
theorem Match.capture?_within (lead trail : List Char) (found : Match) (label : Label) :
    (found.within lead trail).capture? label =
      (found.capture? label).map (Capture.within lead trail) := by
  -- Captures keep their labels, so the first one under a label is the same one.
  simp only [Match.capture?, Match.within, List.find?_map]
  rfl

/-- Patterns that never read a character and never ask for the end of the text. -/
def stopsAt (stop : Char) : Pattern → Bool
  | .empty => true
  | .one fits => !fits stop
  | .wordEdge => true
  | .textEnd => false
  | .run fits => !fits stop
  | .shortRun fits => !fits stop
  | .seq first second => first.stopsAt stop && second.stopsAt stop
  | .or first second => first.stopsAt stop && second.stopsAt stop
  | .many body => body.stopsAt stop
  | .capture _ body => body.stopsAt stop

/-- Repetitions of a body that reads no stop read none. -/
theorem exists_reads_of_mem_manyEnds {stop : Char} {body : Attempt → List Attempt}
    (avoids : ∀ a, ∀ e ∈ body a, ∃ taken, a.Reads taken e ∧ stop ∉ taken) {limit : Nat}
    {a e : Attempt} (outcome : e ∈ manyEnds body limit a) :
    ∃ taken, a.Reads taken e ∧ stop ∉ taken := by
  -- Each repetition adds a stretch without the stop.
  induction limit generalizing a with
  | zero =>
    obtain rfl := List.mem_singleton.mp outcome
    exact ⟨[], .refl e, List.not_mem_nil⟩
  | succ limit ih =>
    rw [manyEnds, List.mem_append, List.mem_flatMap, List.mem_singleton] at outcome
    rcases outcome with ⟨m, first, others⟩ | rfl
    · obtain ⟨taken, reads, free⟩ := avoids a m (List.mem_filter.mp first).1
      -- The round and those behind it each read a stretch without the stop.
      obtain ⟨more, rest, alsoFree⟩ := ih others
      exact ⟨taken ++ more, reads.trans rest, by simp [free, alsoFree]⟩
    · exact ⟨[], .refl e, List.not_mem_nil⟩

/-- A pattern that stops at a character never reads it. -/
theorem exists_reads_of_stopsAt {stop : Char} {p : Pattern} (stops : p.stopsAt stop = true)
    {a e : Attempt} (outcome : e ∈ ends p a) : ∃ taken, a.Reads taken e ∧ stop ∉ taken := by
  -- Only characters of a class are read, and the stop is in none of the classes.
  have apart : ∀ {fits : Char → Bool}, (!fits stop) = true →
      ∀ taken : List Char, (∀ c ∈ taken, fits c = true) → stop ∉ taken := by
    intro fits refused taken all member
    simp [all stop member] at refused
  induction p generalizing a e with
  | empty => exact ⟨[], mem_ends_empty.mp outcome ▸ .refl a, List.not_mem_nil⟩
  | one fits =>
    obtain ⟨c, fit, reads, -⟩ := mem_ends_one.mp outcome
    exact ⟨[c], reads, apart stops [c] (by simpa using fit)⟩
  | wordEdge => exact ⟨[], (mem_ends_wordEdge.mp outcome).1 ▸ .refl a, List.not_mem_nil⟩
  | textEnd => exact absurd stops (by simp [stopsAt])
  | run fits =>
    obtain ⟨taken, all, reads, -⟩ := mem_ends_run.mp outcome
    exact ⟨taken, reads, apart stops taken all⟩
  | shortRun fits =>
    obtain ⟨taken, all, reads, -⟩ := mem_ends_shortRun.mp outcome
    exact ⟨taken, reads, apart stops taken all⟩
  | seq first second ihFirst ihSecond =>
    -- Neither part reads the stop, so what they read together is free of it.
    obtain ⟨stopsFirst, stopsSecond⟩ := Bool.and_eq_true_iff.mp stops
    obtain ⟨m, one, other⟩ := mem_ends_seq.mp outcome
    obtain ⟨taken, reads, free⟩ := ihFirst stopsFirst one
    obtain ⟨more, rest, alsoFree⟩ := ihSecond stopsSecond other
    exact ⟨taken ++ more, reads.trans rest, by simp [free, alsoFree]⟩
  | or first second ihFirst ihSecond =>
    obtain ⟨stopsFirst, stopsSecond⟩ := Bool.and_eq_true_iff.mp stops
    rcases mem_ends_or.mp outcome with one | other
    · exact ihFirst stopsFirst one
    · exact ihSecond stopsSecond other
  | many body ih => exact exists_reads_of_mem_manyEnds (fun _ _ inner => ih stops inner) outcome
  | capture label body ih =>
    obtain ⟨m, inner, rfl⟩ := mem_ends_capture.mp outcome
    obtain ⟨taken, reads, free⟩ := ih stops inner
    exact ⟨taken, reads, free⟩

/-- Whatever a pattern reads, it does not read a character that it stops at. -/
theorem not_mem_of_reads {stop : Char} {p : Pattern} (stops : p.stopsAt stop = true)
    {a e : Attempt} (outcome : e ∈ ends p a) {taken : List Char} (reads : a.Reads taken e) :
    stop ∉ taken := by
  -- A reading is determined by its two places, so it is the one that is free of the stop.
  obtain ⟨same, alsoReads, free⟩ := exists_reads_of_stopsAt stops outcome
  rwa [← reads.upTo, alsoReads.upTo]

/-- A pattern that stops at a character that is ahead leaves it ahead. -/
theorem mem_after_of_mem_ends {stop : Char} {p : Pattern} (stops : p.stopsAt stop = true)
    {a e : Attempt} (outcome : e ∈ ends p a) (ahead : stop ∈ a.cursor.after) :
    stop ∈ e.cursor.after := by
  -- The stop was ahead and was not read, so it is in what is left.
  obtain ⟨taken, reads, others⟩ := exists_reads_of_stopsAt stops outcome
  rw [reads.1, List.mem_append] at ahead
  exact ahead.resolve_left others

/-- As many repetitions as there are characters ahead are all there can be. -/
theorem manyEnds_of_le {body : Attempt → List Attempt} {limit larger : Nat} {a : Attempt}
    (enough : a.cursor.after.length ≤ limit) (le : limit ≤ larger) :
    manyEnds body larger a = manyEnds body limit a := by
  -- One more than enough changes nothing, because each repetition takes a character.
  have more : ∀ limit (a : Attempt), a.cursor.after.length ≤ limit →
      manyEnds body (limit + 1) a = manyEnds body limit a := by
    intro limit
    induction limit with
    | zero =>
      intro a done
      -- With nothing ahead, no round can take a character.
      have none : (body a).filter (advances a) = [] := by
        simp [advances, Nat.le_zero.mp done]
      simp only [manyEnds, none, List.flatMap_nil, List.nil_append]
    | succ limit ih =>
      intro a done
      rw [manyEnds, manyEnds]
      congr 1
      refine List.flatMap_congr fun m member => ih m ?_
      -- A round that moves on leaves fewer characters for the rounds behind it.
      have moved := (List.mem_filter.mp member).2
      simp only [advances, decide_eq_true_eq] at moved
      omega
  induction le with
  | refl => rfl
  | step le ih => rw [more _ a (Nat.le_trans enough le), ih]

/--
Nothing of the text behind a place can be reached by a pattern.

Either there is no such text, or the pattern stops at a character that stands before it.
-/
def Sealed (stop : Char) (trail : List Char) (p : Pattern) (a : Attempt) : Prop :=
  trail = [] ∨ p.stopsAt stop = true ∧ stop ∈ a.cursor.after

/-- Where the text behind is sealed off, there is none of it or something stands before it. -/
theorem Sealed.inhabited {stop : Char} {trail : List Char} {p : Pattern} {a : Attempt}
    (isSealed : Sealed stop trail p a) : trail = [] ∨ a.cursor.after ≠ [] :=
  -- What seals it off is a character that stands in front of it.
  isSealed.imp id fun stops => List.ne_nil_of_mem stops.2

/-- What is sealed off from a pattern stays so for a pattern that follows it. -/
theorem Sealed.next {stop : Char} {trail : List Char} {p first second : Pattern} {a m : Attempt}
    (isSealed : Sealed stop trail p a)
    (both : p.stopsAt stop = true → first.stopsAt stop = true ∧ second.stopsAt stop = true)
    (outcome : m ∈ ends first a) : Sealed stop trail second m := by
  -- What the first pattern leaves still has the stop ahead, if it was ahead at all.
  refine isSealed.imp id fun ⟨stops, ahead⟩ => ?_
  exact ⟨(both stops).2, mem_after_of_mem_ends (both stops).1 outcome ahead⟩

section Within

variable {lead trail : List Char} (leadEdge : Cursor.touchesWord lead.getLast? = false)

include leadEdge in
/-- Word edges are the same in a larger text, if what is next to them is. -/
theorem atWordEdge_within_of_inhabited {place : Cursor}
    (inhabited : trail = [] ∨ place.after ≠ []) :
    (place.within lead trail).atWordEdge = place.atWordEdge := by
  -- On either side, the nearest character is the same, or nothing of a word is added there.
  obtain ⟨before, after⟩ := place
  have left : Cursor.touchesWord (before ++ lead.reverse).head? =
      Cursor.touchesWord before.head? := by
    cases before with
    | nil => simpa [Cursor.touchesWord] using leadEdge
    | cons c rest => rfl
  have right : (after ++ trail).head? = after.head? := by
    rcases inhabited with rfl | inhabited
    · rw [List.append_nil]
    · obtain ⟨c, rest, rfl⟩ := List.exists_cons_of_ne_nil inhabited
      rfl
  simp only [Cursor.atWordEdge, Cursor.within, left, right]

/-- A greedy run has the same ends in a larger text, if something stops it. -/
theorem runEnds_within {fits : Char → Bool} {captures : List Capture} {before after : List Char}
    (stopped : trail = [] ∨ ∃ c ∈ after, fits c = false) :
    runEnds fits (captures.map (Capture.within lead trail)) (before ++ lead.reverse)
        (after ++ trail) =
      (runEnds fits captures before after).map (Attempt.within lead trail) := by
  -- The run is followed to what stops it, which stands before the end of the text.
  induction after generalizing before with
  | nil =>
    obtain rfl : trail = [] := stopped.resolve_right (by simp)
    rfl
  | cons c rest ih =>
    simp only [List.cons_append, runEnds]
    by_cases fit : fits c = true
    · -- The run goes on, and what stops it is still ahead.
      have later : trail = [] ∨ ∃ d ∈ rest, fits d = false := by
        refine stopped.imp id ?_
        rintro ⟨d, member, refused⟩
        refine ⟨d, ?_, refused⟩
        refine (List.mem_cons.mp member).resolve_left fun same => ?_
        rw [same, fit] at refused
        exact absurd refused (by simp)
      rw [if_pos fit, if_pos fit, List.map_append, ← ih later]
      rfl
    · -- A character that does not fit ends both runs at the same place.
      rw [if_neg fit, if_neg fit]
      rfl

/-- A reluctant run lists the ends of a greedy run from the other side. -/
theorem shortRunEnds_eq_reverse (fits : Char → Bool) (captures : List Capture)
    (before after : List Char) :
    shortRunEnds fits captures before after = (runEnds fits captures before after).reverse := by
  -- One list grows in front where the other one grows at its end.
  induction after generalizing before with
  | nil => rfl
  | cons c rest ih =>
    simp only [shortRunEnds, runEnds]
    split
    · rw [ih, List.reverse_append, List.reverse_singleton, List.singleton_append]
    · rfl

/-- Repetitions have the same ends in a larger text if their body has. -/
theorem manyEnds_within {body : Attempt → List Attempt} {keeps : Attempt → Prop}
    (bodyWithin : ∀ a, keeps a →
      body (a.within lead trail) = (body a).map (Attempt.within lead trail))
    (handsOn : ∀ a, keeps a → ∀ m ∈ body a, keeps m) (limit : Nat) {a : Attempt} (kept : keeps a) :
    manyEnds body limit (a.within lead trail) =
      (manyEnds body limit a).map (Attempt.within lead trail) := by
  -- Whether a round moves on depends on the distance, which the text around does not change.
  have moved : ∀ a m, advances (Attempt.within lead trail a) (Attempt.within lead trail m) =
      advances a m := by
    simp [advances, Attempt.within, Cursor.within]
  induction limit generalizing a with
  | zero => rfl
  | succ limit ih =>
    rw [manyEnds, manyEnds, bodyWithin a kept, List.map_append, List.map_singleton, List.filter_map,
      List.flatMap_map, List.map_flatMap]
    congr 1
    have sameTest : (advances (a.within lead trail) ∘ Attempt.within lead trail) = advances a :=
      funext (moved a)
    rw [sameTest]
    exact List.flatMap_congr fun m member =>
      ih (handsOn a kept m (List.mem_filter.mp member).1)

/-- One character is the same in a larger text, if there is one at the place. -/
theorem ends_one_within {fits : Char → Bool} {a : Attempt}
    (inhabited : trail = [] ∨ a.cursor.after ≠ []) :
    ends (.one fits) (a.within lead trail) =
      (ends (.one fits) a).map (Attempt.within lead trail) := by
  -- At the end of the text a larger text would have a character more.
  obtain ⟨⟨before, after⟩, captures⟩ := a
  cases after with
  | nil =>
    obtain rfl : trail = [] := inhabited.resolve_right (by simp)
    rfl
  | cons c rest =>
    simp only [ends, Attempt.within, Cursor.within, List.cons_append]
    split <;> rfl

include leadEdge in
/-- The outcomes of a pattern are the same in a larger text, as far as it is sealed off. -/
theorem ends_within {stop : Char} {p : Pattern} {a : Attempt} (isSealed : Sealed stop trail p a) :
    ends p (a.within lead trail) = (ends p a).map (Attempt.within lead trail) := by
  -- One case for each way to build a pattern; only the order of the outcomes is new.
  induction p generalizing a with
  | empty => rfl
  | one fits => exact ends_one_within isSealed.inhabited
  | wordEdge =>
    -- The edge is asked about where something is ahead, so the larger text changes nothing.
    have same := atWordEdge_within_of_inhabited leadEdge isSealed.inhabited
    simp only [ends, Attempt.within, same]
    split <;> rfl
  | textEnd =>
    -- A pattern that asks for the end is never sealed off from text behind it.
    obtain rfl : trail = [] := isSealed.resolve_right (by simp [stopsAt])
    have same : (a.within lead []).cursor.after = a.cursor.after := List.append_nil _
    simp only [ends, same]
    split <;> rfl
  | run fits =>
    -- A run stops at the stop at the latest, which its class refuses.
    refine runEnds_within (isSealed.imp id ?_)
    rintro ⟨stops, ahead⟩
    exact ⟨stop, ahead, by simpa [stopsAt] using stops⟩
  | shortRun fits =>
    rw [ends, ends, shortRunEnds_eq_reverse, shortRunEnds_eq_reverse, List.map_reverse]
    refine congrArg List.reverse (runEnds_within (isSealed.imp id ?_))
    rintro ⟨stops, ahead⟩
    exact ⟨stop, ahead, by simpa [stopsAt] using stops⟩
  | seq first second ihFirst ihSecond =>
    -- The second part starts where the stop is still ahead.
    have both : (seq first second).stopsAt stop = true →
        first.stopsAt stop = true ∧ second.stopsAt stop = true := Bool.and_eq_true_iff.mp
    have sealedFirst : Sealed stop trail first a :=
      isSealed.imp id (And.imp_left fun stops => (both stops).1)
    rw [ends, ends, ihFirst sealedFirst, List.flatMap_map, List.map_flatMap]
    exact List.flatMap_congr fun m outcome => ihSecond (isSealed.next both outcome)
  | or first second ihFirst ihSecond =>
    have both : (Pattern.or first second).stopsAt stop = true →
        first.stopsAt stop = true ∧ second.stopsAt stop = true := Bool.and_eq_true_iff.mp
    have sealedFirst : Sealed stop trail first a :=
      isSealed.imp id (And.imp_left fun stops => (both stops).1)
    have sealedSecond : Sealed stop trail second a :=
      isSealed.imp id (And.imp_left fun stops => (both stops).2)
    rw [ends, ends, ihFirst sealedFirst, ihSecond sealedSecond, List.map_append]
  | many body ih =>
    -- More text ahead allows no more repetitions, because none of it is read.
    have enough : a.cursor.after.length ≤ (a.within lead trail).cursor.after.length := by
      simp [Attempt.within, Cursor.within]
    have handsOn : ∀ a, Sealed stop trail body a → ∀ m ∈ ends body a, Sealed stop trail body m :=
      fun _ isSealed _ outcome => isSealed.next (fun stops => ⟨stops, stops⟩) outcome
    rw [ends, ends, manyEnds_within (fun _ => ih) handsOn _ isSealed,
      manyEnds_of_le (Nat.le_refl _) enough]
  | capture label body ih =>
    -- What is captured is the text between two places, which is the same.
    rw [ends, ends, ih isSealed, List.map_map, List.map_map]
    refine List.map_congr_left fun m _ => ?_
    simp [Attempt.within, Capture.within, Cursor.upTo_within]

include leadEdge in
/-- A last character is read from the text itself, if what is before it is sealed off. -/
theorem ends_within_concat {stop : Char} {parts : List Pattern} {fits : Char → Bool} {a : Attempt}
    (stops : (inOrder parts).stopsAt stop = true) (ahead : stop ∈ a.cursor.after) :
    ends (inOrder (parts ++ [.one fits])) (a.within lead trail) =
      (ends (inOrder (parts ++ [.one fits])) a).map (Attempt.within lead trail) := by
  -- The last character is looked for where the others end.
  rw [ends_inOrder_append, ends_inOrder_append, ends_within leadEdge (.inr ⟨stops, ahead⟩),
    List.flatMap_map, List.map_flatMap]
  refine List.flatMap_congr fun m outcome => ends_one_within (.inr ?_)
  -- The stop is still ahead, so there is a character to read.
  exact List.ne_nil_of_mem (mem_after_of_mem_ends stops outcome ahead)

/-- The match at a place is the same in a larger text if the outcomes are. -/
theorem matchAt?_of_ends_within {p : Pattern} {place : Cursor}
    (same : ends p (Attempt.within lead trail ⟨place, []⟩) =
      (ends p ⟨place, []⟩).map (Attempt.within lead trail)) :
    matchAt? p (place.within lead trail) = (matchAt? p place).map (Match.within lead trail) := by
  -- The match is the first outcome, so equal lists of outcomes have equal matches in front.
  simp only [Attempt.within, List.map_nil] at same
  rw [matchAt?_eq_head?, matchAt?_eq_head?, same]
  cases ends p ⟨place, []⟩ <;> rfl

include leadEdge in
/-- The match at a place is the same in a larger text, as far as it is sealed off. -/
theorem matchAt?_within {stop : Char} {p : Pattern} {place : Cursor}
    (isSealed : Sealed stop trail p ⟨place, []⟩) :
    matchAt? p (place.within lead trail) = (matchAt? p place).map (Match.within lead trail) :=
  -- The match is the first of the outcomes, and the outcomes are the same.
  matchAt?_of_ends_within (ends_within leadEdge isSealed)

end Within

/-- The matches in a text are the same when more text stands in front of it. -/
theorem findAllFrom_lead {lead : List Char} (leadEdge : Cursor.touchesWord lead.getLast? = false)
    (p : Pattern) (before : List Char) (skip : Nat) (after : List Char) :
    findAllFrom p (before ++ lead.reverse) skip after =
      (findAllFrom p before skip after).map (Match.within lead []) := by
  -- The search moves along the text as before, with more behind its place.
  induction after generalizing before skip with
  | nil => rfl
  | cons c rest ih =>
    cases skip with
    | succ skip => exact ih (c :: before) skip
    | zero =>
      -- Nothing is added behind the place, so the match there is the same.
      have here : matchAt? p ⟨before ++ lead.reverse, c :: rest⟩ =
          (matchAt? p ⟨before, c :: rest⟩).map (Match.within lead []) := by
        have nothingBehind : Sealed c [] p ⟨⟨before, c :: rest⟩, []⟩ := .inl rfl
        simpa [Cursor.within] using matchAt?_within leadEdge nothingBehind
      simp only [findAllFrom, here]
      cases matchAt? p ⟨before, c :: rest⟩ with
      | none => exact ih (c :: before) 0
      | some found =>
        simp only [Option.map_some, List.map_cons, Match.length_within]
        exact congrArg (_ :: ·) (ih (c :: before) _)

/-- A match takes at most what is ahead of it, so a text behind starts with nothing taken. -/
theorem findAllFrom_trail {p : Pattern} {trail before after : List Char} {skip : Nat}
    (room : skip ≤ after.length)
    (border : ∀ front c rest, after = front ++ c :: rest →
      matchAt? p ⟨front.reverse ++ before, c :: rest ++ trail⟩ =
        (matchAt? p ⟨front.reverse ++ before, c :: rest⟩).map (Match.within [] trail)) :
    findAllFrom p before skip (after ++ trail) =
      (findAllFrom p before skip after).map (Match.within [] trail) ++
        findAllFrom p (after.reverse ++ before) 0 trail := by
  -- The search takes what is left of the first text and then goes over the border.
  induction after generalizing before skip with
  | nil =>
    obtain rfl : skip = 0 := Nat.le_zero.mp room
    rfl
  | cons c rest ih =>
    -- The rest of the text has the same borders, counted from one character later.
    have later : ∀ skip ≤ rest.length, findAllFrom p (c :: before) skip (rest ++ trail) =
        (findAllFrom p (c :: before) skip rest).map (Match.within [] trail) ++
          findAllFrom p ((c :: rest).reverse ++ before) 0 trail := by
      intro skip fewer
      have tail := ih fewer fun front d others shape => by
        simpa using border (c :: front) d others (by rw [shape, List.cons_append])
      simpa using tail
    cases skip with
    | succ skip => exact later skip (by simpa using room)
    | zero =>
      have here := border [] c rest rfl
      simp only [List.reverse_nil, List.nil_append, List.cons_append] at here
      simp only [List.cons_append, findAllFrom, here]
      cases matched : matchAt? p ⟨before, c :: rest⟩ with
      | none => exact later 0 (Nat.zero_le _)
      | some found =>
        -- The match starts here, so what it takes away is no more than what is left.
        have start : found.start = ⟨before, c :: rest⟩ := by
          rw [matchAt?_eq_head?, Option.map_eq_some_iff] at matched
          obtain ⟨e, -, rfl⟩ := matched
          rfl
        have fewer : found.length - 1 ≤ rest.length := by
          simp only [Match.length, start, List.length_cons]
          omega
        simp only [Option.map_some, List.map_cons, Match.length_within, List.cons_append]
        exact congrArg (_ :: ·) (later _ fewer)

/-- Two texts put together have the matches of both, if no match crosses their border. -/
theorem findAll_append {p : Pattern} {first second : List Char}
    (edge : Cursor.touchesWord first.getLast? = false)
    (border : ∀ front c rest, first = front ++ c :: rest →
      matchAt? p ⟨front.reverse, c :: rest ++ second⟩ =
        (matchAt? p ⟨front.reverse, c :: rest⟩).map (Match.within [] second)) :
    p.findAll (first ++ second) =
      (p.findAll first).map (Match.within [] second) ++
        (p.findAll second).map (Match.within first []) := by
  -- The first text is searched to its end, and the second one with the first one in front.
  have front : findAllFrom p [] 0 (first ++ second) =
      (findAllFrom p [] 0 first).map (Match.within [] second) ++
        findAllFrom p (first.reverse ++ []) 0 second :=
    findAllFrom_trail (Nat.zero_le _) (by simpa using border)
  have back := findAllFrom_lead edge p [] 0 second
  rw [findAll, front, List.append_nil]
  exact congrArg (_ ++ ·) back

end Pattern

end LockDiscipline
