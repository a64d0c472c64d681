import LockDiscipline.Proofs.Pattern.Acceptance
import LockDiscipline.Proofs.Rule.CallSites

/-! The rules on single lines and what stands around them: which lines they report, how often. -/

namespace LockDiscipline

open LockDiscipline.Text

/-- A text shows a word: the word stands in it with no word character on either side. -/
def ShowsWord (word text : List Char) : Prop :=
  ∃ before after, text = before ++ word ++ after ∧
    Cursor.touchesWord before.getLast? = false ∧ Cursor.touchesWord after.head? = false

/-- A text spells a word of small letters in any case. -/
def SpellsAnyCase (word text : List Char) : Prop :=
  List.Forall₂ (fun small c => Trigger.foldsTo small c = true) word text

/-- A text documents the order of locks or of their acquisition. -/
def DocumentsOrder (text : List Char) : Prop :=
  ∃ before subject space order after, text = before ++ subject ++ space ++ order ++ after ∧
    (SpellsAnyCase "lock".toList subject ∨ SpellsAnyCase "acquisition".toList subject) ∧
    space ≠ [] ∧ (∀ c ∈ space, isBlank c = true) ∧ SpellsAnyCase "order".toList order

/-- Whether a phrase occurs is what the search for it answers. -/
theorem Text.hasPhrase_iff {phrase text : List Char} :
    hasPhrase phrase text = true ↔ phrase <:+: text := by
  rw [hasPhrase, Option.isSome_iff_exists]
  -- What the search returns is the text from the phrase on.
  refine ⟨?_, Trigger.exists_findPhrase?⟩
  rintro ⟨rest, found⟩
  obtain ⟨head, rfl, opens, -⟩ := Trigger.findPhrase?_eq_some_iff.mp found
  exact opens.isInfix.trans (List.suffix_append head rest).isInfix

namespace Trigger

open Pattern

/-- The pattern of `const` occurs in exactly the lines that show the word. -/
theorem occursIn_constWord_iff {line : List Char} :
    constWord.occursIn line = true ↔ ShowsWord "const".toList line := by
  -- The word has word characters at both ends, so an edge there says that no other one follows.
  have first : ∀ rest, Cursor.touchesWord ("const".toList ++ rest).head? = true := fun _ => rfl
  have last : ∀ rest, Cursor.touchesWord ("const".toList.reverse ++ rest).head? = true :=
    fun _ => rfl
  -- A match is an edge, the word and another edge.
  rw [occursIn_iff]
  constructor
  · rintro ⟨front, back, e, rfl, outcome⟩
    obtain ⟨_, edge, rest⟩ := mem_ends_inOrder_cons.mp outcome
    obtain ⟨rfl, atStart⟩ := mem_ends_wordEdge.mp edge
    obtain ⟨m, read, rest⟩ := mem_ends_inOrder_cons.mp rest
    obtain ⟨⟨ahead, behind⟩, -⟩ := reads_of_mem_phrase read
    obtain ⟨-, atEnd⟩ := mem_ends_wordEdge.mp rest
    obtain rfl : back = "const".toList ++ m.cursor.after := ahead
    refine ⟨front, m.cursor.after, by simp, ?_, ?_⟩
    · rw [Cursor.atWordEdge, first, List.head?_reverse] at atStart
      simpa using atStart
    · rw [Cursor.atWordEdge, behind, last] at atEnd
      simpa using atEnd
  · rintro ⟨before, after, rfl, leading, trailing⟩
    let placed : Attempt := ⟨⟨"const".toList.reverse ++ before.reverse, after⟩, []⟩
    refine ⟨before, "const".toList ++ after, placed, by simp, ?_⟩
    have atStart : Cursor.atWordEdge ⟨before.reverse, "const".toList ++ after⟩ = true := by
      rw [Cursor.atWordEdge, first, List.head?_reverse, leading]
      rfl
    have atEnd : placed.cursor.atWordEdge = true := by
      rw [Cursor.atWordEdge, last, trailing]
      rfl
    refine mem_ends_inOrder_cons.mpr ⟨_, mem_ends_wordEdge.mpr ⟨rfl, atStart⟩, ?_⟩
    refine mem_ends_inOrder_cons.mpr ⟨placed, mem_ends_phrase.mpr ⟨⟨rfl, rfl⟩, rfl⟩, ?_⟩
    exact mem_ends_wordEdge.mpr ⟨rfl, atEnd⟩

/-- What is read for a word in any case spells it. -/
theorem spells_of_mem_anyCase {word : String} {a e : Attempt}
    (outcome : e ∈ ends (anyCase word) a) :
    ∃ taken, SpellsAnyCase word.toList taken ∧ a.Reads taken e := by
  unfold anyCase at outcome
  unfold SpellsAnyCase
  -- Each letter is one step, so the induction is on the letters with the place generalised.
  generalize word.toList = letters at outcome ⊢
  induction letters generalizing a with
  | nil =>
    obtain rfl := mem_ends_empty.mp outcome
    exact ⟨[], .nil, .refl e⟩
  | cons small rest ih =>
    obtain ⟨m, letter, others⟩ := mem_ends_inOrder_cons.mp outcome
    obtain ⟨c, fit, first, -⟩ := mem_ends_one.mp letter
    obtain ⟨taken, spells, reads⟩ := ih others
    exact ⟨c :: taken, .cons fit spells, first.trans reads⟩

/-- A word in any case is accepted. -/
theorem accepts_anyCase {word : String} {text : List Char}
    (spells : SpellsAnyCase word.toList text) (rest : List Char) :
    Accepts (anyCase word) (text ++ rest) rest := by
  unfold anyCase
  -- Letter by letter, each of them accepted in either case.
  unfold SpellsAnyCase at spells
  generalize word.toList = letters at spells ⊢
  induction spells with
  | nil => exact .empty rest
  | cons fit _ ih => exact (Accepts.one fit _).inOrder_cons ih

/-- The pattern of a mention of the lock order occurs in exactly the lines that document it. -/
theorem occursIn_lockOrderMention_iff {line : List Char} :
    lockOrderMention.occursIn line = true ↔ DocumentsOrder line := by
  rw [occursIn_iff]
  -- A match is one of the two subjects, white space and `order`.
  constructor
  · rintro ⟨front, back, e, rfl, outcome⟩
    obtain ⟨m, subject, rest⟩ := mem_ends_inOrder_cons.mp outcome
    obtain ⟨n, space, order⟩ := mem_ends_inOrder_cons.mp rest
    obtain ⟨gap, inhabited, blank, atGap, -⟩ := reads_of_mem_run1 space
    obtain ⟨last, spelled, atOrder⟩ := spells_of_mem_anyCase order
    -- Either word may be the subject; what follows it is the same.
    obtain ⟨first, atSubject, named⟩ : ∃ first, Attempt.Reads ⟨⟨front.reverse, back⟩, []⟩ first m ∧
        (SpellsAnyCase "lock".toList first ∨ SpellsAnyCase "acquisition".toList first) := by
      rcases mem_ends_or.mp subject with lock | acquisition
      · obtain ⟨first, spells, reads⟩ := spells_of_mem_anyCase lock
        exact ⟨first, reads, .inl spells⟩
      · obtain ⟨first, spells, reads⟩ := spells_of_mem_anyCase acquisition
        exact ⟨first, reads, .inr spells⟩
    refine ⟨front, first, gap, last, e.cursor.after, ?_, named, inhabited, blank, spelled⟩
    have ahead : back = first ++ gap ++ last ++ e.cursor.after :=
      ((atSubject.trans atGap).trans atOrder).1
    simp [ahead]
  · rintro ⟨before, subject, space, order, after, rfl, named, inhabited, blank, spelled⟩
    -- Reading on from the subject, each part is accepted in front of what follows it.
    have subjectAccepted : Accepts (.or (anyCase "lock") (anyCase "acquisition"))
        (subject ++ (space ++ (order ++ after))) (space ++ (order ++ after)) := by
      rcases named with spells | spells
      · exact (accepts_anyCase spells _).orFirst
      · exact (accepts_anyCase spells _).orSecond
    have whole := subjectAccepted.inOrder_cons
      ((Accepts.run1 inhabited blank (order ++ after)).inOrder_cons (accepts_anyCase spelled after))
    obtain ⟨e, outcome, -⟩ := whole ⟨⟨before.reverse, _⟩, []⟩ rfl
    exact ⟨before, _, e, by simp, outcome⟩

/-- The lines around a line are those of the file that are within the bounds. -/
theorem mem_context_iff {before after index : Nat} {all : List (List Char)} {near : List Char} :
    near ∈ context before after all index ↔
      ∃ place, all[place]? = some near ∧ index ≤ place + before ∧ place ≤ index + after := by
  rw [context, List.mem_iff_getElem?]
  constructor
  · rintro ⟨offset, found⟩
    rw [List.getElem?_take] at found
    split at found
    · rw [List.getElem?_drop] at found
      exact ⟨index - before + offset, found, by omega, by omega⟩
    · exact absurd found (by simp)
  · rintro ⟨place, found, low, high⟩
    -- Clipped at the start of the file, the context still starts no later than the place.
    have start : index - before + (place - (index - before)) = place := by omega
    refine ⟨place - (index - before), ?_⟩
    rw [List.getElem?_take, if_pos (by omega), List.getElem?_drop, start]
    exact found

/-- A number is listed exactly if the line with that number satisfies the condition. -/
theorem mem_lineNumbers_iff {hits : List Char → Nat → Bool} {text : List Char} {number : Nat} :
    number ∈ lineNumbers hits (lines text) ↔
      ∃ line ∈ numbered? text number, hits line (number - 1) = true := by
  -- Lines are listed from 0 and numbered from 1.
  constructor
  · intro member
    obtain ⟨⟨line, index⟩, hit, rfl⟩ := List.mem_map.mp member
    obtain ⟨numbered, satisfied⟩ := List.mem_filter.mp hit
    exact ⟨line, List.mk_mem_zipIdx_iff_getElem?.mp numbered, satisfied⟩
  · rintro ⟨line, found, satisfied⟩
    obtain ⟨positive, inText⟩ := numbered?_eq_some_iff.mp found
    refine List.mem_map.mpr ⟨(line, number - 1), List.mem_filter.mpr ⟨?_, satisfied⟩, ?_⟩
    · exact List.mk_mem_zipIdx_iff_getElem?.mpr inText
    · show number - 1 + 1 = number
      omega

/-- Lines are listed from the top of the file down, each of them once. -/
theorem pairwise_lineNumbers (hits : List Char → Nat → Bool) (all : List (List Char)) :
    (lineNumbers hits all).Pairwise (· < ·) := by
  -- The indices of all lines increase, and leaving some lines out keeps the order.
  have indices : (all.zipIdx.map (·.2)).Pairwise (· < ·) := by
    rw [List.zipIdx_map_snd]
    exact List.pairwise_lt_range'
  rw [lineNumbers, List.pairwise_map]
  exact ((List.pairwise_map.mp indices).filter _).imp (Nat.add_lt_add_right · 1)

end Trigger

/--
A line stands alone: it passes a test, and no line near it gives an excuse.

Near are the lines of the file from `before` lines above it to `after` lines below it.
-/
def StandsAlone (text : List Char) (before after : Nat) (test excuse : List Char → Prop)
    (number : Nat) : Prop :=
  (∃ line ∈ numbered? text number, test line) ∧
    ∀ near, ∀ line ∈ numbered? text near, number ≤ near + before → near ≤ number + after →
      ¬ excuse line

/-- Findings of one kind that point at exactly the lines that count, once each and in order. -/
structure ReportsLines (findings : List Finding) (report : Nat → Finding) (counts : Nat → Prop) :
    Prop where
  reported : ∀ number, (∃ finding ∈ findings, finding.line = number) ↔ counts number
  ofKind : ∀ finding ∈ findings, finding = report finding.line
  increasing : findings.Pairwise (·.line < ·.line)

namespace Trigger

/-- A line is hit exactly if it stands alone. -/
theorem mem_lineNumbers_alone_iff {test excuse : List Char → Bool} {before after number : Nat}
    {text : List Char} :
    number ∈ lineNumbers
        (fun line index => test line && !(context before after (lines text) index).any excuse)
        (lines text) ↔
      StandsAlone text before after (test · = true) (excuse · = true) number := by
  -- Distances between lines are the same whether lines are counted from 0 or from 1.
  have around : 0 < number → ((context before after (lines text) (number - 1)).any excuse = false ↔
      ∀ near, ∀ line ∈ numbered? text near, number ≤ near + before → near ≤ number + after →
        ¬ excuse line = true) := by
    intro positive
    rw [List.any_eq_false]
    constructor
    · intro none near line found low high
      obtain ⟨nearPositive, inText⟩ := numbered?_eq_some_iff.mp found
      exact none line (mem_context_iff.mpr ⟨near - 1, inText, by omega, by omega⟩)
    · intro none line member
      obtain ⟨place, inText, low, high⟩ := mem_context_iff.mp member
      exact none (place + 1) line inText (by omega) (by omega)
  simp only [mem_lineNumbers_iff, Bool.and_eq_true, Bool.not_eq_true']
  -- The line itself is the same on both sides, and the lines around it are as said above.
  constructor
  · rintro ⟨line, found, passes, none⟩
    exact ⟨⟨line, found, passes⟩, (around (bounds_of_numbered? found).1).mp none⟩
  · rintro ⟨⟨line, found, passes⟩, none⟩
    exact ⟨line, found, passes, (around (bounds_of_numbered? found).1).mpr none⟩

/-- Lines that stand alone are reported at their numbers, once each and in order. -/
theorem reportsLines_alone (test excuse : List Char → Bool) (before after : Nat)
    (text : List Char) (report : Nat → Finding) (placed : ∀ number, (report number).line = number) :
    ReportsLines
      ((lineNumbers
        (fun line index => test line && !(context before after (lines text) index).any excuse)
        (lines text)).map report)
      report (StandsAlone text before after (test · = true) (excuse · = true)) where
  -- Numbers that are listed are those of the lines that stand alone, and lists of lines increase.
  reported number := by
    rw [← mem_lineNumbers_alone_iff]
    simp [placed]
  ofKind finding member := by
    obtain ⟨number, -, rfl⟩ := List.mem_map.mp member
    rw [placed]
  increasing := by
    rw [List.pairwise_map]
    simp only [placed]
    exact pairwise_lineNumbers _ _

/-- Several locks on one line are reported once, unless some line documents an order. -/
theorem missingLockOrderDoc_iff (file : FileLines) :
    ((missingLockOrderDoc file).map (·.line) = [1] ↔
      (∃ line ∈ file.raw, 2 ≤ Vocabulary.lockCount line) ∧
        ∀ line ∈ file.raw, ¬ DocumentsOrder line) ∧
    ((missingLockOrderDoc file).map (·.line) = [1] ∨ missingLockOrderDoc file = []) := by
  -- Both questions are about the lines of the text; the code view is not looked at.
  have condition : ((file.raw.any fun line => 2 ≤ Vocabulary.lockCount line) &&
      !file.raw.any lockOrderMention.occursIn) = true ↔
        (∃ line ∈ file.raw, 2 ≤ Vocabulary.lockCount line) ∧
          ∀ line ∈ file.raw, ¬ DocumentsOrder line := by
    simp [occursIn_lockOrderMention_iff, ← Bool.not_eq_true]
  unfold missingLockOrderDoc
  rw [← condition]
  split
  · rename_i faulty
    exact ⟨iff_of_true rfl faulty, .inl rfl⟩
  · rename_i fine
    exact ⟨iff_of_false (by simp) fine, .inr rfl⟩

/--
The rules on lines look exactly as far around a line as they say.

An unlock by hand is reported unless a line within ten lines of it, above or below, mentions a
guard. A lock on a line with `const` is reported unless one of the twenty lines above, the line
itself or one of the five lines below holds `mutable`. Near the ends of the file there are only
fewer lines to look at. Both report a line at most once, from the top down. Two locks on one line
are reported once for the file, at line 1, unless some line documents an order.
-/
theorem line_rules_exact (raw code : List Char) :
    let file := FileLines.ofTexts raw code
    ReportsLines (manualLockUnlock file) manualUnlockAt
      (StandsAlone raw 10 10 (fun line => Vocabulary.hasManualUnlock (trim line) = true)
        (fun line => Vocabulary.hasGuard line = true)) ∧
    ReportsLines (constMethodLock file) constLockAt
      (StandsAlone raw 20 5
        (fun line => ShowsWord "const".toList line ∧ Vocabulary.hasLock line = true)
        (fun line => "mutable".toList <:+: line)) ∧
    ((missingLockOrderDoc file).map (·.line) = [1] ↔
      (∃ line ∈ lines raw, 2 ≤ Vocabulary.lockCount line) ∧
        ∀ line ∈ lines raw, ¬ DocumentsOrder line) ∧
    ((missingLockOrderDoc file).map (·.line) = [1] ∨ missingLockOrderDoc file = []) := by
  intro file
  -- Both rules are the general one, each with its own test, excuse and distances.
  have byHand := reportsLines_alone (fun line => Vocabulary.hasManualUnlock (trim line))
    Vocabulary.hasGuard 10 10 raw manualUnlockAt fun _ => rfl
  have inConst := reportsLines_alone
    (fun line => constWord.occursIn line && Vocabulary.hasLock line)
    (hasPhrase "mutable".toList) 20 5 raw constLockAt fun _ => rfl
  simp only [Bool.and_eq_true, occursIn_constWord_iff, hasPhrase_iff] at inConst
  exact ⟨byHand, inConst, missingLockOrderDoc_iff file⟩

end Trigger

end LockDiscipline
