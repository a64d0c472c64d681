import LockDiscipline.Proofs.Pattern.Border
import LockDiscipline.Proofs.Region
import LockDiscipline.Scan
import Mathlib.Data.List.TakeWhile

/-! Scans of texts put together: classes do not depend on the text around them. -/

namespace LockDiscipline

open LockDiscipline.Text

/-- A method, counted from further up. -/
def LockingMethod.movedDown (count : Nat) (m : LockingMethod) : LockingMethod :=
  { m with line := m.line + count, windowEnd := m.windowEnd + count }

/-- A class, counted from further up. -/
def ClassProfile.movedDown (count : Nat) (p : ClassProfile) : ClassProfile :=
  { p with
    startLine := p.startLine + count
    lockingMethods := p.lockingMethods.map (·.movedDown count) }

/-- Whether a class matters does not depend on where it stands. -/
@[simp] theorem ClassProfile.isRelevant_movedDown (count : Nat) (p : ClassProfile) :
    (p.movedDown count).isRelevant = p.isRelevant := by
  -- Only lines change, and a class matters by what it has.
  simp [isRelevant, movedDown]

/-- A text that ends with a statement: only white space follows its last semicolon. -/
def EndsStatement (text : List Char) : Prop :=
  trimEnd text = [] ∨ (trimEnd text).getLast? = some ';'

instance (text : List Char) : Decidable (EndsStatement text) :=
  inferInstanceAs (Decidable (_ ∨ _))

namespace EndsStatement

variable {text : List Char}

/-- The last character of such a text is white space or a semicolon. -/
theorem blank_or_semicolon (ended : EndsStatement text) {c : Char}
    (last : text.getLast? = some c) : isBlank c = true ∨ c = ';' := by
  -- The last character is white space that trimming takes away, or it is what trimming leaves.
  obtain ⟨gap, shape, blank⟩ := exists_trimEnd text
  rw [shape, List.getLast?_append] at last
  cases final : gap.getLast? with
  | some d =>
    rw [final, Option.some_or] at last
    exact .inl (Option.some.inj last ▸ blank d (List.mem_of_getLast? final))
  | none =>
    rw [final, Option.none_or] at last
    -- With no white space at the end, the text ends in its semicolon.
    rcases ended with empty | semicolon
    · simp [empty] at last
    · exact .inr (Option.some.inj (last.symm.trans semicolon))

/-- No word ends where such a text ends. -/
theorem edge (ended : EndsStatement text) : Cursor.touchesWord text.getLast? = false := by
  -- Neither white space nor a semicolon is part of a word.
  cases last : text.getLast? with
  | none => rfl
  | some c =>
    rcases ended.blank_or_semicolon last with blank | rfl
    · exact isWordChar_of_isBlank blank
    · decide

/-- At every place of such a text a semicolon is ahead, or white space comes next. -/
theorem ahead (ended : EndsStatement text) {front rest : List Char} {c : Char}
    (shape : text = front ++ c :: rest) : ';' ∈ c :: rest ∨ isBlank c = true := by
  obtain ⟨gap, parts, blank⟩ := exists_trimEnd text
  have split : front ++ c :: rest = trimEnd text ++ gap := shape.symm.trans parts
  rcases List.append_eq_append_iff.mp split with ⟨middle, upTo, behind⟩ | ⟨middle, -, behind⟩
  · -- The place lies before the gap; if anything is between, it ends with the semicolon.
    cases middle with
    | nil =>
      obtain rfl : c :: rest = gap := behind
      exact .inr (blank c List.mem_cons_self)
    | cons d others =>
      rcases ended with empty | semicolon
      · simp [empty] at upTo
      · rw [upTo, List.getLast?_append_of_ne_nil _ (by simp)] at semicolon
        exact .inl (behind ▸ List.mem_append_left gap (List.mem_of_getLast? semicolon))
  · exact .inr (blank c (by simp [behind]))

end EndsStatement

namespace Region

/-- A region, with more text before it. -/
def below (first : List Char) (r : Region) : Region :=
  { r with lead := first ++ r.lead }

/-- A block that closes is the same when more text follows. -/
theorem closeBlock?_append {depth : Nat} {text block : List Char}
    (closed : closeBlock? depth text = some block) (trail : List Char) :
    closeBlock? depth (text ++ trail) = some block := by
  -- The search ends at the brace that closes the block and sees nothing of what follows.
  induction text generalizing depth block with
  | nil => simp [closeBlock?] at closed
  | cons c rest ih =>
    rcases closeBlock?_cons depth c with ⟨-, last⟩ | ⟨now, goesOn⟩
    · rw [List.cons_append, last, ← closed, last]
    · rw [goesOn] at closed
      obtain ⟨inner, found, rfl⟩ := Option.map_eq_some_iff.mp closed
      rw [List.cons_append, goesOn, ih found, Option.map_some]

/-- An opening phrase is not read into a text that starts with another character. -/
theorem dropOpening?_append {phrase text more : List Char}
    (apart : ∀ c, more.head? = some c → c ∉ phrase) :
    dropOpening? phrase (text ++ more) = (dropOpening? phrase text).map (· ++ more) := by
  -- The phrase is compared letter by letter, and only the end of the text can bring in the other.
  induction phrase generalizing text with
  | nil => simp [dropOpening?]
  | cons p others ih =>
    cases text with
    | nil =>
      cases more with
      | nil => rfl
      -- The text ends within the phrase, whose next letter does not open the other text.
      | cons c rest =>
        have differs : p ≠ c := fun same => apart c rfl (by simp [same])
        simp [dropOpening?, differs]
    | cons c rest =>
      have later : dropOpening? others (rest ++ more) =
          (dropOpening? others rest).map (· ++ more) :=
        ih fun d first member => apart d first (by simp [member])
      simp only [List.cons_append, dropOpening?]
      split
      · exact later
      · rfl

/-- A text that ends with a statement does not end in the word `enum`, nor in part of it. -/
theorem endsInEnum_append {first : List Char} (ended : EndsStatement first)
    (before : List Char) : endsInEnum (before ++ first.reverse) = endsInEnum before := by
  have next : ∀ c, first.reverse.head? = some c → isBlank c = true ∨ c = ';' := by
    intro c last
    exact ended.blank_or_semicolon (by simpa using last)
  -- White space and semicolons are no letters of the word.
  have apart : ∀ c, first.reverse.head? = some c → c ∉ "enum".toList.reverse := by
    intro c last member
    have letters : "enum".toList.reverse.all (fun d => !isBlank d && d != ';') = true := by
      decide
    have letter : isBlank c = false ∧ c ≠ ';' := by
      simpa using List.all_eq_true.mp letters c member
    rcases next c last with blank | same
    · simp [letter.1] at blank
    · exact letter.2 same
  have noLetter : ∀ c, first.reverse.head? = some c →
      (isAlphanumeric c || c == '_') = false := by
    intro c last
    rcases next c last with blank | rfl
    · have notUnderscore : c ≠ '_' := by
        rintro rfl
        exact absurd blank (by decide)
      simp [isAlphanumeric_of_isBlank blank, notUnderscore]
    · decide
  unfold endsInEnum
  cases kept : before.dropWhile isBlank with
  | nil =>
    -- All of it is white space, and what comes before ends in a semicolon or is nothing.
    have blank : ∀ c ∈ before, isBlank c = true := List.dropWhile_eq_nil_iff.mp kept
    have rest : (before ++ first.reverse).dropWhile isBlank = (trimEnd first).reverse := by
      rw [List.dropWhile_append_of_pos blank, trimEnd, List.reverse_reverse]
    rw [rest]
    rcases ended with empty | semicolon
    · simp [empty]
    · obtain ⟨others, shape⟩ := List.getLast?_eq_some_iff.mp semicolon
      simp [shape, dropOpening?]
  -- Something else than white space is left, so the word would have to end in this text.
  | cons c others =>
    have rest : (before ++ first.reverse).dropWhile isBlank = c :: others ++ first.reverse := by
      rw [List.dropWhile_append, kept]
      simp
    rw [rest, dropOpening?_append apart]
    cases dropOpening? "enum".toList.reverse (c :: others) with
    | none => rfl
    | some head =>
      cases head with
      | cons d _ => rfl
      | nil =>
        simp only [Option.map_some, List.nil_append]
        -- The word is read in full, and the character before it is the one before the other text.
        cases last : first.reverse.head? with
        | none => rfl
        | some d => simp [noLetter d last]

open Pattern

/-- No header starts at white space. -/
theorem matchAt?_headerPattern_blank {c : Char} (blank : isBlank c = true)
    (before rest : List Char) : matchAt? headerPattern ⟨before, c :: rest⟩ = none := by
  cases matched : matchAt? headerPattern ⟨before, c :: rest⟩ with
  | none => rfl
  | some found =>
    -- A header starts with the first letter of a keyword.
    obtain ⟨word, keyword, header, -, opening, after, -⟩ :=
      header_of_foundIn (foundIn_of_matchAt? matched)
    have start : found.start = ⟨before, c :: rest⟩ := by
      rw [matchAt?_eq_head?, Option.map_eq_some_iff] at matched
      obtain ⟨e, -, rfl⟩ := matched
      rfl
    obtain ⟨others, shape⟩ := opening
    rw [start, ← shape] at after
    -- Both keywords start with a letter, which is no white space.
    simp only [List.mem_cons, List.not_mem_nil, or_false] at keyword
    rcases keyword with rfl | rfl
    · obtain ⟨rfl, -⟩ := List.cons.inj after
      exact absurd blank (by decide)
    · obtain ⟨rfl, -⟩ := List.cons.inj after
      exact absurd blank (by decide)

/-- No header crosses the end of a text that ends with a statement. -/
theorem matchAt?_headerPattern_append {first : List Char} (ended : EndsStatement first)
    (second : List Char) {front rest : List Char} {c : Char} (shape : first = front ++ c :: rest) :
    matchAt? headerPattern ⟨front.reverse, c :: rest ++ second⟩ =
      (matchAt? headerPattern ⟨front.reverse, c :: rest⟩).map (Match.within [] second) := by
  rcases ended.ahead shape with semicolon | blank
  · -- A header has no semicolon, so it ends before the one that is ahead.
    have isSealed : Sealed ';' second headerPattern ⟨⟨front.reverse, c :: rest⟩, []⟩ :=
      .inr ⟨by decide, semicolon⟩
    have atStart : Cursor.touchesWord ([] : List Char).getLast? = false := rfl
    simpa [Cursor.within] using matchAt?_within atStart isSealed
  · rw [List.cons_append, matchAt?_headerPattern_blank blank, matchAt?_headerPattern_blank blank]
    rfl

/-- A header whose block closes, or that belongs to an enumeration, opens the same region. -/
theorem ofHeader?_trail {found : Match} (second : List Char)
    (closes : endsInEnum found.start.before = false →
      (closeBlock? 1 found.stop.after).isSome = true) :
    ofHeader? (found.within [] second) = ofHeader? found := by
  -- What a region takes from its header is the same, and its block closes before the added text.
  have before : (found.within [] second).start.before = found.start.before := List.append_nil _
  have after : (found.within [] second).stop.after = found.stop.after ++ second := rfl
  have header : (found.within [] second).start.upTo (found.within [] second).stop =
      found.start.upTo found.stop := Cursor.upTo_within ..
  unfold ofHeader?
  rw [before, after, header, Match.capture?_within, Match.capture?_within]
  cases found.capture? .kind with
  | none => rfl
  | some kind =>
    cases found.capture? .name with
    | none => rfl
    | some name =>
      cases enumeration : endsInEnum found.start.before with
      | true => rfl
      | false =>
        obtain ⟨block, closed⟩ := Option.isSome_iff_exists.mp (closes enumeration)
        rw [closed, closeBlock?_append closed second]
        rfl

/-- A header opens the same region below a text that ends with a statement. -/
theorem ofHeader?_lead {first : List Char} (ended : EndsStatement first) (found : Match) :
    ofHeader? (found.within first []) = (ofHeader? found).map (below first) := by
  -- A region is made from what its header reads and what follows; only what stands before changed.
  have before : (found.within first []).start.before = found.start.before ++ first.reverse := rfl
  have after : (found.within first []).stop.after = found.stop.after := List.append_nil _
  have header : (found.within first []).start.upTo (found.within first []).stop =
      found.start.upTo found.stop := Cursor.upTo_within ..
  unfold ofHeader?
  rw [before, after, header, Match.capture?_within, Match.capture?_within,
    endsInEnum_append ended]
  cases found.capture? .kind with
  | none => rfl
  | some kind =>
    cases found.capture? .name with
    | none => rfl
    | some name =>
      cases endsInEnum found.start.before with
      | true => rfl
      | false =>
        cases closeBlock? 1 found.stop.after with
        | none => rfl
        | some block =>
          show some _ = some _
          simp [below, Capture.within]

/-- Every header in a text, those of enumerations aside, opens a block that the text closes. -/
def AllClose (text : List Char) : Prop :=
  ∀ found ∈ headerPattern.findAll text, endsInEnum found.start.before = false →
    (closeBlock? 1 found.stop.after).isSome = true

instance (text : List Char) : Decidable (AllClose text) :=
  inferInstanceAs (Decidable (∀ _ ∈ _, _))

/-- Two texts put together have the regions of the first, then those of the second. -/
theorem findAll_append {first second : List Char} (ended : EndsStatement first)
    (allClose : AllClose first) :
    findAll (first ++ second) = findAll first ++ (findAll second).map (below first) := by
  -- No header crosses the border, as the first text ends no header in the middle.
  have both : headerPattern.findAll (first ++ second) =
      (headerPattern.findAll first).map (Match.within [] second) ++
        (headerPattern.findAll second).map (Match.within first []) :=
    Pattern.findAll_append ended.edge fun _ _ _ shape =>
      matchAt?_headerPattern_append ended second shape
  simp only [findAll, both, List.filterMap_append, List.filterMap_map, List.map_filterMap]
  congr 1
  · exact List.filterMap_congr fun found member => ofHeader?_trail second (allClose found member)
  · exact List.filterMap_congr fun found _ => ofHeader?_lead ended found

end Region

namespace Scan

variable {window : LockWindow} {first : List Char} {region : Region}

/-- More text before a class moves its locking methods down. -/
theorem lockingMethod?_below (d : Declaration) :
    lockingMethod? window (region.below first) d =
      (lockingMethod? window region d).map (·.movedDown (lineBreaks first)) := by
  -- Only the line of the header depends on the text above it.
  have lower : (region.below first).firstLine = region.firstLine + lineBreaks first := by
    simp only [Region.firstLine, Region.below, lineBreaks, List.count_append]
    omega
  have sameBody : (region.below first).body = region.body := rfl
  simp only [lockingMethod?, lower, sameBody]
  split
  · simp only [Option.map_some, LockingMethod.movedDown, Option.some.injEq,
      LockingMethod.mk.injEq, true_and]
    omega
  · rfl

/-- More text before a class moves its profile down and changes nothing else. -/
theorem profile_below (file : String) :
    profile file window (region.below first) =
      (profile file window region).movedDown (lineBreaks first) := by
  -- The body is the same, so only numbers of lines change, all by the breaks of the added text.
  have sameDeclarations : declarations (region.below first) = declarations region := rfl
  have methods : (declarations region).filterMap (lockingMethod? window (region.below first)) =
      ((declarations region).filterMap (lockingMethod? window region)).map
        (·.movedDown (lineBreaks first)) := by
    rw [List.map_filterMap]
    exact List.filterMap_congr fun d _ => lockingMethod?_below d
  simp only [profile, ClassProfile.movedDown, sameDeclarations, methods, ClassProfile.mk.injEq,
    and_true, true_and]
  refine ⟨rfl, ?_, rfl⟩
  simp only [Region.firstLine, Region.below, lineBreaks, List.count_append]
  omega

/--
Classes do not depend on the text around them.

If a text ends with a statement and the block of every header in it closes, a scan of it with more
text behind it yields its own classes, then those of the text behind it, moved down by its lines.
-/
theorem profiles_append (file : String) (window : LockWindow) (first second : List Char)
    (ended : EndsStatement first) (allClose : Region.AllClose first) :
    profiles file window (first ++ second) = profiles file window first ++
      (profiles file window second).map (·.movedDown (lineBreaks first)) := by
  -- Class by class, what is moved down is as relevant as before.
  have moved : ((Region.findAll second).map (Region.below first)).map (profile file window) =
      ((Region.findAll second).map (profile file window)).map (·.movedDown (lineBreaks first)) := by
    simp only [List.map_map]
    exact List.map_congr_left fun region _ => profile_below file
  have filtered (classes : List ClassProfile) :
      (classes.map (·.movedDown (lineBreaks first))).filter (·.isRelevant) =
        (classes.filter (·.isRelevant)).map (·.movedDown (lineBreaks first)) := by
    rw [List.filter_map]
    exact congrArg (List.map _) (List.filter_congr fun p _ => p.isRelevant_movedDown _)
  simp only [profiles, Region.findAll_append ended allClose, List.map_append, List.filter_append]
  rw [moved, filtered]

/-- An enumeration and a class on five lines, with a struct of two lines behind them. -/
theorem profiles_append_struct :
    let first := ("enum class E \x7b x \x7d;\nclass A : B \x7b\npublic:\n" ++
      "  int f() \x7b m.lock(); \x7d\n\x7d; \n").toList
    let second := "struct C \x7b\n  int g() \x7b n.lock(); \x7d \x7d".toList
    EndsStatement first ∧ Region.AllClose first ∧
      profiles "a.h" (.lines 2 20) (first ++ second) = profiles "a.h" (.lines 2 20) first ++
        (profiles "a.h" (.lines 2 20) second).map (·.movedDown 5) := by
  intro first second
  -- Both conditions are checked on the first text alone.
  have ended : EndsStatement first := by decide +kernel
  have allClose : Region.AllClose first := by decide +kernel
  exact ⟨ended, allClose, profiles_append "a.h" (.lines 2 20) first second ended allClose⟩

end Scan

end LockDiscipline
