import LockDiscipline.Proofs.Pattern.Leftmost
import LockDiscipline.Proofs.Region.Block
import LockDiscipline.Proofs.Scan.Members

/-! Profiles are well-formed: their lines lie within the class, and nothing in them repeats. -/

namespace LockDiscipline

open LockDiscipline.Text

namespace Pattern

/-- The preferred end of a greedy run is the longest one. -/
theorem head?_runEnds (fits : Char → Bool) (captures : List Capture) (before after : List Char) :
    (runEnds fits captures before after).head? =
      some ⟨⟨(after.takeWhile fits).reverse ++ before, after.dropWhile fits⟩, captures⟩ := by
  induction after generalizing before with
  | nil => rfl
  | cons c rest ih =>
    by_cases fit : fits c = true
    · -- The run goes on over a character that fits, and all its ends come before the short one.
      simp [runEnds, fit, List.head?_append, ih]
    · simp [runEnds, fit]

/-- The preferred identifier at a place is all of the word that starts there. -/
theorem upTo_head?_identifier {a e : Attempt} (first : (ends identifier a).head? = some e) :
    a.cursor.upTo e.cursor = a.cursor.after.takeWhile isWordChar := by
  -- The place is at the end of the text, at a word, or at something else.
  obtain ⟨⟨before, after⟩, captures⟩ := a
  cases after with
  | nil => simp [identifier, run1, ends] at first
  | cons c rest =>
    by_cases fit : isWordChar c = true
    · have longest : (runEnds isWordChar captures (c :: before) rest).head? = some e := by
        simpa [identifier, run1, ends, fit] using first
      rw [head?_runEnds] at longest
      obtain rfl := Option.some.inj longest
      -- What is read is the word, and what is left stands behind it.
      have reads : (Attempt.mk ⟨before, c :: rest⟩ captures).Reads
          ((c :: rest).takeWhile isWordChar)
          ⟨⟨(rest.takeWhile isWordChar).reverse ++ c :: before, rest.dropWhile isWordChar⟩,
            captures⟩ := by
        simp [Attempt.Reads, fit]
      exact reads.upTo
    · simp [identifier, run1, ends, fit] at first

/-- An identifier that a pattern captures last is all of the word at its place. -/
theorem name_of_mem_findAll {front : List Pattern} {text : List Char} {found : Match}
    (member : found ∈ (inOrder (front ++ [capture .name identifier])).findAll text)
    {name : Capture} (captured : found.capture? .name = some name) :
    name.start.before.reverse ++ name.start.after = text ∧
      name.text = name.start.after.takeWhile isWordChar := by
  obtain ⟨lead, back, rfl, -, matched⟩ := exists_matchAt?_of_mem_findAllFrom member
  obtain ⟨start, preferred⟩ := matchAt?_eq_some_iff.mp matched
  rw [ends_inOrder_append, List.head?_flatMap] at preferred
  -- The name is looked for where the patterns before it end.
  obtain ⟨m, reached, here⟩ := List.exists_of_findSome?_eq_some preferred
  rw [inOrder, ends, List.head?_map, Option.map_eq_some_iff] at here
  obtain ⟨e, first, made⟩ := here
  obtain ⟨taken, ahead, behind⟩ := exists_reads reached
  have latest := (Attempt.mk.inj made).2
  rw [Match.capture?, ← latest, List.find?_cons_of_pos rfl] at captured
  obtain rfl := Option.some.inj captured
  refine ⟨?_, upTo_head?_identifier first⟩
  -- What the earlier patterns read has moved from ahead of the place to behind it.
  have cut : back = taken ++ m.cursor.after := ahead
  rw [behind, cut]
  simp

end Pattern

namespace Vocabulary

open Pattern

/-- A declaration of a mutex gives a name at a place of a text, counted in characters. -/
def NamesMutex (text : List Char) (place : Nat) (name : List Char) : Prop :=
  ∃ c ∈ mutexDeclarations, ∃ found ∈ c.pattern.findAll text, ∃ part,
    found.capture? .name = some part ∧ part.start.before.length = place ∧ part.text = name

/-- The mentions of mutexes are the names that declarations give, with their places. -/
theorem mem_mutexMentions_iff {text : List Char} {place : Nat} {name : List Char} :
    (place, name) ∈ mutexMentions text ↔ NamesMutex text place name := by
  -- A mention is a capture of a declaration, with the place where it starts.
  simp [mutexMentions, NamesMutex]

/-- Every declaration of a mutex ends with its name. -/
theorem name_last : ∀ c ∈ mutexDeclarations, ∃ front,
    c.pattern = inOrder (front ++ [capture .name identifier]) := by
  -- The three declarations differ in what stands before the name.
  simp only [mutexDeclarations, List.forall_mem_cons]
  exact ⟨⟨[standard, anyWord ["mutex", "shared_mutex", "recursive_mutex"], gap], rfl⟩,
    ⟨[wordEdge, word "pthread_mutex_t", gap], rfl⟩,
    ⟨[wordEdge, word "SDL_mutex", blanks, one (· == '*'), blanks], rfl⟩, by simp⟩

/-- The name that a declaration gives is all of the word at its place. -/
theorem NamesMutex.eq_word {text : List Char} {place : Nat} {name : List Char}
    (named : NamesMutex text place name) : name = (text.drop place).takeWhile isWordChar := by
  -- The name is the last part that is read, and a greedy identifier takes all of its word.
  obtain ⟨c, known, found, member, part, captured, rfl, rfl⟩ := named
  obtain ⟨front, shape⟩ := name_last c known
  rw [shape] at member
  obtain ⟨cut, whole⟩ := name_of_mem_findAll member captured
  rw [whole, ← cut, List.drop_left' List.length_reverse]

/-- The mutexes of a text are all different. -/
theorem nodup_mutexMembers (text : List Char) : (mutexMembers text).Nodup := by
  -- Only the first mention of each name is kept.
  refine (pairwise_eraseDupsBy _).imp fun {x y} differs same => ?_
  exact absurd differs (by simp [same])

/-- The mutexes of a text are listed in the order in which they are first named. -/
theorem pairwise_mutexMembers (text : List Char) :
    (mutexMembers text).Pairwise fun x y =>
      ∃ i, NamesMutex text i x ∧ ∀ j, NamesMutex text j y → i < j := by
  have sorted : ((mutexMentions text).mergeSort fun x y => x.1 ≤ y.1).Pairwise
      fun x y => decide (x.1 ≤ y.1) = true :=
    List.pairwise_mergeSort (by simp; omega) (by simp; omega) _
  have places := pairwise_places_eraseDups (sorted.imp (of_decide_eq_true ·))
  refine List.Pairwise.imp ?_ (places.and (nodup_mutexMembers text))
  rintro x y ⟨⟨i, first, before⟩, differ⟩
  simp only [List.mem_mergeSort, mem_mutexMentions_iff] at first before
  refine ⟨i, first, fun j second => Nat.lt_of_le_of_ne (before j second) ?_⟩
  -- Two names at one place would be one word.
  rintro rfl
  exact differ (first.eq_word.trans second.eq_word.symm)

/-- The mutexes of a text are those that some declaration names. -/
theorem mem_mutexMembers_iff {text name : List Char} :
    name ∈ mutexMembers text ↔ ∃ place, NamesMutex text place name := by
  -- Leaving out repetitions loses no name.
  simp [mutexMembers, List.mem_eraseDups, ← mem_mutexMentions_iff]

end Vocabulary

namespace Scan

/-- A locking method of a class that starts on one line of a file and is closed on another. -/
structure MethodWithin (startLine lastLine : Nat) (m : LockingMethod) : Prop where
  /-- The first line of the class declares no method. -/
  below : startLine < m.line
  /-- The window reaches at least the line of the method. -/
  window : m.line ≤ m.windowEnd
  /-- The window does not leave the class. -/
  inside : m.windowEnd ≤ lastLine
  /-- Some lock was found. -/
  locks : m.tags ≠ []
  /-- The tags are those of the table, in its order. -/
  tags : m.tags.Sublist (Vocabulary.lockConstructs.map (·.tag))

/-- A profile that fits a class body which is closed on a given line of the file. -/
structure WellFormed (body : List Char) (lastLine : Nat) (p : ClassProfile) : Prop where
  /-- Lines are counted from 1. -/
  start : 1 ≤ p.startLine
  /-- The locking methods stand on different lines, from top to bottom. -/
  order : p.lockingMethods.Pairwise (·.line < ·.line)
  /-- Every locking method lies within the class. -/
  methods : ∀ m ∈ p.lockingMethods, MethodWithin p.startLine lastLine m
  /-- No mutex is listed twice. -/
  nodup : p.mutexes.Nodup
  /-- The mutexes are those that some declaration of the body names. -/
  mutexes : ∀ name, name ∈ p.mutexes ↔ ∃ place, Vocabulary.NamesMutex body place name.toList
  /-- The mutexes are listed in the order of the places where they are first named. -/
  places : p.mutexes.Pairwise fun x y => ∃ i, Vocabulary.NamesMutex body i x.toList ∧
    ∀ j, Vocabulary.NamesMutex body j y.toList → i < j

/-- The tags of a text are tags of the table. -/
theorem lockTags_sublist (text : List Char) :
    (Vocabulary.lockTags text).Sublist (Vocabulary.lockConstructs.map (·.tag)) :=
  -- The tags are chosen from the table, in its order.
  List.filter_sublist.map _

/-- A locking method lies within the lines of its class. -/
theorem methodWithin_of_mem {file : String} {window : LockWindow} {region : Region}
    {m : LockingMethod} (member : m ∈ (profile file window region).lockingMethods) :
    MethodWithin (region.firstLine + 1) (region.firstLine + (lines region.body).length) m := by
  obtain ⟨d, declared, found⟩ := List.mem_filterMap.mp member
  obtain ⟨-, locks, rfl⟩ := lockingMethod?_eq_some_iff.mp found
  -- The method is declared below the first line, and its window holds the line and stays inside.
  obtain ⟨-, -, -, -, -, later, -⟩ := stands_of_mem_declarations declared
  have inside := index_lt_of_mem_declarations declared
  have holds := window.span_holds inside
  have ends := window.span_le inside
  constructor
  · show region.firstLine + 1 < region.firstLine + d.index + 1
    omega
  · show region.firstLine + d.index + 1 ≤ region.firstLine + _
    omega
  · exact Nat.add_le_add_left ends _
  · exact Vocabulary.lockTags_ne_nil_iff.mpr locks
  · exact lockTags_sublist _

/-- The line of the brace that closes a region is the last line of its body. -/
theorem exists_closing {code : List Char} {region : Region} (found : region ∈ Region.findAll code) :
    ∃ front back, code = front ++ '\x7d' :: back ∧ byteSize front = region.stop ∧
      lineBreaks front + 1 = region.firstLine + (lines region.body).length := by
  obtain ⟨back, cut⟩ := (Region.standsIn_of_mem_findAll found).cut
  obtain ⟨inner, shape⟩ := List.getLast?_eq_some_iff.mp (Region.getLast?_body found)
  -- The brace is the last character of the body, so what stands before it ends on its line.
  refine ⟨region.lead ++ inner, back, ?_, ?_, ?_⟩
  · rw [← cut, shape]
    simp
  · have brace : byteSize ['\x7d'] = 1 := rfl
    rw [Region.stop, shape, Bounds.byteSize_append, Bounds.byteSize_append, brace]
    omega
  · rw [length_lines, shape, Region.firstLine]
    simp [lineBreaks, Nat.add_assoc]

/--
Profiles are well-formed.

For every region of a code view, the first line of the profile is at least 1. The locking methods
stand on increasing lines below it, each with a window that holds its line and ends no later than
the line of the brace that closes the region, and with tags of the table in its order, at least
one. The mutexes are the names that the declarations in the region give, each listed once, in the
order of the places where they are first named.
-/
theorem profile_wellFormed (file : String) (window : LockWindow) {code : List Char}
    {region : Region} (found : region ∈ Region.findAll code) :
    ∃ front back, code = front ++ '\x7d' :: back ∧ byteSize front = region.stop ∧
      WellFormed region.body (lineBreaks front + 1) (profile file window region) := by
  -- The last line is the one of the closing brace, and each field has its own law.
  obtain ⟨front, back, cut, stop, last⟩ := exists_closing found
  refine ⟨front, back, cut, stop, ?_⟩
  rw [last]
  constructor
  · exact Nat.le_add_left 1 _
  · exact pairwise_lockingMethods file window region
  · exact fun m member => methodWithin_of_mem member
  · -- Names that differ as characters differ as texts.
    refine List.pairwise_map.mpr ((Vocabulary.nodup_mutexMembers region.body).imp ?_)
    exact fun differ same => differ (String.ofList_injective same)
  · intro name
    rw [← Vocabulary.mem_mutexMembers_iff]
    constructor
    · -- A text and its characters name the same mutex.
      intro listed
      obtain ⟨chars, member, rfl⟩ := List.mem_map.mp listed
      rwa [String.toList_ofList]
    · exact fun member => List.mem_map.mpr ⟨name.toList, member, String.ofList_toList⟩
  · refine List.pairwise_map.mpr ((Vocabulary.pairwise_mutexMembers region.body).imp ?_)
    simp only [String.toList_ofList]
    exact id

/-- A class with a method on its second line, and a mutex that is declared in two ways. -/
theorem profile_wellFormed_of_struct :
    let block := "\x7b\nvoid put() \x7b m.lock(); \x7d\nSDL_mutex *b; mutex a; SDL_mutex *a;\n\x7d"
    let region : Region := ⟨"Box".toList, .struct, "\n".toList, "struct Box ".toList, block.toList⟩
    let code := region.lead ++ region.body ++ ";".toList
    region ∈ Region.findAll code ∧ region.stop = 76 ∧
      (profile "t.h" .classBody region).lockingMethods = [⟨"put", 3, ["mutex.lock()"], 5⟩] ∧
      (profile "t.h" .classBody region).mutexes = ["b", "a"] ∧
      ∃ front back, code = front ++ '\x7d' :: back ∧ byteSize front = region.stop ∧
        WellFormed region.body (lineBreaks front + 1) (profile "t.h" .classBody region) := by
  intro block region code
  have found : region ∈ Region.findAll code := by decide +kernel
  have mentions : Vocabulary.mutexMentions region.body =
      [(58, ['a']), (49, ['b']), (72, ['a'])] := by
    decide +kernel
  have members : Vocabulary.mutexMembers region.body = [['b'], ['a']] := by
    have sorted : [(58, ['a']), (49, ['b']), (72, ['a'])].mergeSort (fun x y => x.1 ≤ y.1) =
        [(49, ['b']), (58, ['a']), (72, ['a'])] := by
      simp [List.mergeSort, List.MergeSort.Internal.splitInTwo]
    rw [Vocabulary.mutexMembers, mentions, sorted]
    decide
  have mutexes : (profile "t.h" .classBody region).mutexes = ["b", "a"] :=
    congrArg (List.map String.ofList) members
  exact ⟨found, by decide +kernel, by decide +kernel, mutexes,
    profile_wellFormed "t.h" .classBody found⟩

end Scan

end LockDiscipline
