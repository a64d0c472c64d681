import LockDiscipline.Proofs.Pattern.Reading
import LockDiscipline.Proofs.Text.CharClass

/-! Where patterns are found, and why they are still found when more text stands around them. -/

namespace LockDiscipline

open LockDiscipline.Text

/-- A match in a text: a place of the text, and an outcome of the pattern there. -/
structure Pattern.Match.FoundIn (p : Pattern) (text : List Char) (found : Match) : Prop where
  place : found.start.before.reverse ++ found.start.after = text
  outcome : ⟨found.stop, found.captures⟩ ∈ ends p ⟨found.start, []⟩

namespace Pattern

/-- The match at a place is an outcome there. -/
theorem foundIn_of_matchAt? {p : Pattern} {place : Cursor} {found : Match}
    (matched : matchAt? p place = some found) :
    found.FoundIn p (place.before.reverse ++ place.after) := by
  -- The match at a place is the first in the list of outcomes there.
  rw [matchAt?_eq_head?, Option.map_eq_some_iff] at matched
  obtain ⟨e, first, rfl⟩ := matched
  exact ⟨rfl, List.mem_of_head? first⟩

/-- The leftmost match from a place on is a match in the text. -/
theorem foundIn_of_findFrom? {p : Pattern} {before after : List Char} {found : Match}
    (matched : findFrom? p before after = some found) :
    found.FoundIn p (before.reverse ++ after) := by
  -- The search moves the place along the text without changing the text.
  induction after generalizing before with
  | nil => exact foundIn_of_matchAt? matched
  | cons c rest ih =>
    rw [findFrom?, Option.orElse_eq_orElse, Option.orElse_eq_or, Option.or_eq_some_iff] at matched
    rcases matched with here | ⟨-, later⟩
    · exact foundIn_of_matchAt? here
    · simpa using ih later

/-- The leftmost match in a text is a match in it. -/
theorem foundIn_of_find? {p : Pattern} {text : List Char} {found : Match}
    (matched : p.find? text = some found) : found.FoundIn p text :=
  -- The search goes over the places of the text, from its start.
  foundIn_of_findFrom? matched

/-- All matches from a place on are matches in the text. -/
theorem foundIn_of_mem_findAllFrom {p : Pattern} {before after : List Char} {skip : Nat}
    {found : Match} (member : found ∈ findAllFrom p before skip after) :
    found.FoundIn p (before.reverse ++ after) := by
  -- Skipped or not, each character moves the place by one.
  induction after generalizing before skip with
  | nil => simp [findAllFrom] at member
  | cons c rest ih =>
    have later : ∀ skip, found ∈ findAllFrom p (c :: before) skip rest →
        found.FoundIn p (before.reverse ++ c :: rest) := by
      intro skip inside
      simpa using ih inside
    cases skip with
    | succ skip => exact later skip member
    | zero =>
      rw [findAllFrom] at member
      cases here : matchAt? p ⟨before, c :: rest⟩ with
      | none =>
        rw [here] at member
        exact later 0 member
      | some first =>
        rw [here] at member
        rcases List.mem_cons.mp member with rfl | inside
        · exact foundIn_of_matchAt? here
        · exact later _ inside

/-- All matches listed for a text are matches in it. -/
theorem foundIn_of_mem_findAll {p : Pattern} {text : List Char} {found : Match}
    (member : found ∈ p.findAll text) : found.FoundIn p text :=
  -- Each search goes on behind the last match, in the same text.
  foundIn_of_mem_findAllFrom member

/-- The search from a place on succeeds exactly if the pattern has an outcome at a later place. -/
theorem isSome_findFrom?_iff {p : Pattern} {before after : List Char} :
    (findFrom? p before after).isSome = true ↔
      ∃ front back e, after = front ++ back ∧ e ∈ ends p ⟨⟨front.reverse ++ before, back⟩, []⟩ := by
  -- The place of the match is counted from where the search starts.
  have here : ∀ place : Cursor, (matchAt? p place).isSome = true ↔ ∃ e, e ∈ ends p ⟨place, []⟩ := by
    intro place
    rw [matchAt?_eq_head?, Option.isSome_map]
    cases ends p ⟨place, []⟩ <;> simp
  induction after generalizing before with
  | nil =>
    -- At the end of the text there is one place left.
    rw [findFrom?, here]
    constructor
    · rintro ⟨e, outcome⟩
      exact ⟨[], [], e, rfl, outcome⟩
    · rintro ⟨front, back, e, empty, outcome⟩
      obtain ⟨rfl, rfl⟩ := List.append_eq_nil_iff.mp empty.symm
      exact ⟨e, outcome⟩
  | cons c rest ih =>
    simp only [findFrom?, Option.orElse_eq_orElse, Option.orElse_eq_or, Option.isSome_or,
      Bool.or_eq_true, here, ih]
    constructor
    · -- The match is here, or it is found further on.
      rintro (⟨e, outcome⟩ | ⟨front, back, e, rfl, outcome⟩)
      · exact ⟨[], c :: rest, e, rfl, outcome⟩
      · exact ⟨c :: front, back, e, rfl, by simpa using outcome⟩
    · rintro ⟨front, back, e, shape, outcome⟩
      cases front with
      | nil =>
        obtain rfl : c :: rest = back := shape
        exact .inl ⟨e, outcome⟩
      | cons d front =>
        obtain ⟨rfl, rfl⟩ := List.cons.inj shape
        exact .inr ⟨front, back, e, rfl, by simpa using outcome⟩

/-- A pattern occurs in a text exactly if it has an outcome at some place of it. -/
theorem occursIn_iff {p : Pattern} {text : List Char} :
    p.occursIn text = true ↔
      ∃ front back e, text = front ++ back ∧ e ∈ ends p ⟨⟨front.reverse, back⟩, []⟩ := by
  -- There is a match if the search for one succeeds, and it looks at every place.
  rw [occursIn, find?, isSome_findFrom?_iff]
  simp

/-- The search passes over places where the pattern has no outcome. -/
theorem findFrom?_append {p : Pattern} {before front back : List Char}
    (earlier : ∀ head c tail, front = head ++ c :: tail →
      ends p ⟨⟨head.reverse ++ before, c :: tail ++ back⟩, []⟩ = []) :
    findFrom? p before (front ++ back) = findFrom? p (front.reverse ++ before) back := by
  -- Each character of the front is one place where the search finds nothing and moves on.
  induction front generalizing before with
  | nil => rfl
  | cons c front ih =>
    -- The first character of the front is a place of its own, where nothing was found.
    have here : matchAt? p ⟨before, c :: (front ++ back)⟩ = none := by
      have nothing := earlier [] c front rfl
      simp only [List.reverse_nil, List.nil_append, List.cons_append] at nothing
      rw [matchAt?_eq_head?, nothing]
      rfl
    have later := ih fun head d tail shape => by
      simpa using earlier (c :: head) d tail (by rw [shape, List.cons_append])
    rw [List.cons_append, findFrom?, here, Option.orElse_eq_orElse, Option.orElse_eq_or,
      Option.none_or, later]
    simp

/-- The first place where the pattern has an outcome is where it is found. -/
theorem exists_find?_of_first {p : Pattern} {front back : List Char}
    (earlier : ∀ head c tail, front = head ++ c :: tail →
      ends p ⟨⟨head.reverse, c :: tail ++ back⟩, []⟩ = [])
    (inhabited : ends p ⟨⟨front.reverse, back⟩, []⟩ ≠ []) :
    ∃ e ∈ ends p ⟨⟨front.reverse, back⟩, []⟩,
      p.find? (front ++ back) = some ⟨⟨front.reverse, back⟩, e.cursor, e.captures⟩ := by
  -- The match is the outcome preferred at that place, and the search gets there.
  obtain ⟨e, others, shape⟩ := List.exists_cons_of_ne_nil inhabited
  refine ⟨e, by simp [shape], ?_⟩
  have here : matchAt? p ⟨front.reverse, back⟩ =
      some ⟨⟨front.reverse, back⟩, e.cursor, e.captures⟩ := by
    rw [matchAt?_eq_head?, shape]
    rfl
  rw [find?, findFrom?_append (by simpa using earlier), List.append_nil]
  cases back with
  | nil => exact here
  | cons c rest => rw [findFrom?, here]; rfl

end Pattern

/-- A neighbour that is white space or missing does not touch a word. -/
theorem Cursor.touchesWord_of_isBlank {neighbour : Option Char}
    (blank : ∀ c ∈ neighbour, isBlank c = true) : touchesWord neighbour = false := by
  cases neighbour with
  | none => rfl
  -- White space is no part of a word.
  | some c => exact isWordChar_of_isBlank (blank c rfl)

/-- A place of a text, seen in a larger text around it. -/
def Cursor.within (lead trail : List Char) (place : Cursor) : Cursor :=
  ⟨place.before ++ lead.reverse, place.after ++ trail⟩

/-- A captured part, seen in a larger text around it. -/
def Capture.within (lead trail : List Char) (c : Capture) : Capture :=
  ⟨c.label, c.start.within lead trail, c.text⟩

/-- An attempt, seen in a larger text around it. -/
def Attempt.within (lead trail : List Char) (a : Attempt) : Attempt :=
  ⟨a.cursor.within lead trail, a.captures.map (Capture.within lead trail)⟩

/-- A reading stays a reading in a larger text. -/
theorem Attempt.Reads.within {a e : Attempt} {taken : List Char} (reads : a.Reads taken e)
    (lead trail : List Char) : (a.within lead trail).Reads taken (e.within lead trail) := by
  -- The new text lies on the far sides of the place, where the reading does not look.
  constructor
  · simp [Attempt.within, Cursor.within, reads.1]
  · simp [Attempt.within, Cursor.within, reads.2]

namespace Pattern

/-- Patterns that do not ask whether the text ends. -/
def ignoresEnd : Pattern → Bool
  | .textEnd => false
  | .seq first second => first.ignoresEnd && second.ignoresEnd
  | .or first second => first.ignoresEnd && second.ignoresEnd
  | .many body => body.ignoresEnd
  | .capture _ body => body.ignoresEnd
  | _ => true

section Within

variable {lead trail : List Char} (leadEdge : Cursor.touchesWord lead.getLast? = false)
  (trailEdge : Cursor.touchesWord trail.head? = false)

include leadEdge trailEdge in
/-- Word edges are the same in a larger text if no word character is added next to them. -/
theorem atWordEdge_within (place : Cursor) :
    (place.within lead trail).atWordEdge = place.atWordEdge := by
  -- Only the characters next to the place count, and at the ends nothing of a word is added.
  obtain ⟨before, after⟩ := place
  have left : Cursor.touchesWord (before ++ lead.reverse).head? =
      Cursor.touchesWord before.head? := by
    cases before with
    | nil => simpa [Cursor.touchesWord] using leadEdge
    | cons c rest => rfl
  have right : Cursor.touchesWord (after ++ trail).head? = Cursor.touchesWord after.head? := by
    cases after with
    | nil => simpa [Cursor.touchesWord] using trailEdge
    | cons c rest => rfl
  simp only [Cursor.atWordEdge, Cursor.within, left, right]

/-- Repetitions of a body lead as far in a larger text as the body does. -/
theorem mem_manyEnds_within {body : Attempt → List Attempt}
    (bodyWithin : ∀ a, ∀ e ∈ body a, e.within lead trail ∈ body (a.within lead trail))
    {limit larger : Nat} (enough : limit ≤ larger) {a e : Attempt}
    (outcome : e ∈ manyEnds body limit a) :
    e.within lead trail ∈ manyEnds body larger (a.within lead trail) := by
  -- One more round may be tried in the larger text, which is why its limit is the larger one.
  induction limit generalizing larger a with
  | zero =>
    obtain rfl := List.mem_singleton.mp outcome
    cases larger <;> simp [manyEnds]
  | succ limit ih =>
    obtain ⟨larger, rfl⟩ : ∃ more, larger = more + 1 := ⟨larger - 1, by omega⟩
    rw [manyEnds, List.mem_append, List.mem_flatMap, List.mem_singleton] at outcome ⊢
    -- A round that moves on moves on in the larger text; the last round stops at the same place.
    rcases outcome with ⟨m, first, others⟩ | rfl
    · obtain ⟨inner, moved⟩ := List.mem_filter.mp first
      have stillMoved : advances (a.within lead trail) (m.within lead trail) = true := by
        simpa [advances, Attempt.within, Cursor.within] using moved
      exact .inl ⟨m.within lead trail, List.mem_filter.mpr ⟨bodyWithin a m inner, stillMoved⟩,
        ih (by omega) others⟩
    · exact .inr rfl

include leadEdge trailEdge in
/-- Every outcome of a pattern is one in a larger text, unless the pattern asks for the end. -/
theorem mem_ends_within {p : Pattern} (ignores : p.ignoresEnd = true) {a e : Attempt}
    (outcome : e ∈ ends p a) : e.within lead trail ∈ ends p (a.within lead trail) := by
  -- Case by case: what is read stays, edges stay, and no case may ask for the end.
  induction p generalizing a e with
  | empty => exact mem_ends_empty.mpr (mem_ends_empty.mp outcome ▸ rfl)
  | one fits =>
    obtain ⟨c, fit, reads, same⟩ := mem_ends_one.mp outcome
    exact mem_ends_one.mpr ⟨c, fit, reads.within lead trail, by simp [Attempt.within, same]⟩
  | wordEdge =>
    obtain ⟨rfl, edge⟩ := mem_ends_wordEdge.mp outcome
    exact mem_ends_wordEdge.mpr
      ⟨rfl, (atWordEdge_within leadEdge trailEdge e.cursor).trans edge⟩
  | textEnd => exact absurd ignores (by decide)
  | run fits =>
    obtain ⟨taken, all, reads, same⟩ := mem_ends_run.mp outcome
    exact mem_ends_run.mpr ⟨taken, all, reads.within lead trail, by simp [Attempt.within, same]⟩
  | shortRun fits =>
    obtain ⟨taken, all, reads, same⟩ := mem_ends_shortRun.mp outcome
    exact mem_ends_shortRun.mpr
      ⟨taken, all, reads.within lead trail, by simp [Attempt.within, same]⟩
  | seq first second ihFirst ihSecond =>
    obtain ⟨free, alsoFree⟩ := Bool.and_eq_true_iff.mp ignores
    obtain ⟨m, one, other⟩ := mem_ends_seq.mp outcome
    exact mem_ends_seq.mpr ⟨m.within lead trail, ihFirst free one, ihSecond alsoFree other⟩
  | or first second ihFirst ihSecond =>
    obtain ⟨free, alsoFree⟩ := Bool.and_eq_true_iff.mp ignores
    rcases mem_ends_or.mp outcome with one | other
    · exact mem_ends_or.mpr (.inl (ihFirst free one))
    · exact mem_ends_or.mpr (.inr (ihSecond alsoFree other))
  | many body ih =>
    have bodyWithin : ∀ a, ∀ e ∈ ends body a, e.within lead trail ∈
        ends body (a.within lead trail) := fun _ _ => ih ignores
    have enough : a.cursor.after.length ≤ (a.within lead trail).cursor.after.length := by
      simp [Attempt.within, Cursor.within]
    exact mem_manyEnds_within bodyWithin enough outcome
  | capture label body ih =>
    obtain ⟨m, inner, rfl⟩ := mem_ends_capture.mp outcome
    obtain ⟨taken, reads⟩ := exists_reads inner
    refine mem_ends_capture.mpr ⟨m.within lead trail, ih ignores inner, ?_⟩
    -- What the part says is read off the text between its ends, which is the same.
    rw [(reads.within lead trail).upTo, reads.upTo]
    rfl

include leadEdge trailEdge in
/-- A pattern that occurs in a text occurs in a larger text around it. -/
theorem occursIn_within {p : Pattern} (ignores : p.ignoresEnd = true) {text : List Char}
    (occurs : p.occursIn text = true) : p.occursIn (lead ++ text ++ trail) = true := by
  -- The place moves by the text in front, and the outcome moves with it.
  obtain ⟨front, back, e, rfl, outcome⟩ := occursIn_iff.mp occurs
  refine occursIn_iff.mpr ⟨lead ++ front, back ++ trail, e.within lead trail, by simp, ?_⟩
  have larger := mem_ends_within leadEdge trailEdge ignores outcome
  simpa [Attempt.within, Cursor.within] using larger

end Within

end Pattern

end LockDiscipline
