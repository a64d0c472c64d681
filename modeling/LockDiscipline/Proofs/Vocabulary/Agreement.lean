import LockDiscipline.Proofs.CodeView.Words
import LockDiscipline.Proofs.Pattern.Leftmost
import LockDiscipline.Proofs.Vocabulary

/-! The tables of constructs agree: on what is a lock, how often it occurs and what is a guard. -/

namespace LockDiscipline

open LockDiscipline.Text

/-- A name that is read from an edge up to anything but a word is shown by the text. -/
theorem ShowsWord.of_reads {name : List Char} (isName : IsName name) {a e : Attempt}
    (edge : a.cursor.atWordEdge = true) (reads : a.Reads name e)
    (outside : Cursor.touchesWord e.cursor.after.head? = false) :
    ShowsWord name (a.cursor.before.reverse ++ a.cursor.after) := by
  refine ⟨a.cursor.before.reverse, e.cursor.after, by simp [reads.1], ?_, outside⟩
  -- The name starts at the edge, so no word can end there.
  rw [Cursor.atWordEdge, reads.1, isName.touchesWord] at edge
  rw [List.getLast?_reverse]
  simpa using edge

namespace Vocabulary

open Pattern

/-- The types of guards. -/
def guardTypes : List String :=
  ["lock_guard", "scoped_lock", "unique_lock", "shared_lock"]

/-- The tags of the lock constructs that construct a guard. -/
def guardTags : List String :=
  ["lock_guard", "unique_lock", "shared_lock"]

/-- A text constructs a guard if it has the tag of such a construct, as a lock that it acquires. -/
def ConstructsGuard (text : List Char) : Prop :=
  ∃ tag ∈ guardTags, tag ∈ lockTags text

instance (text : List Char) : Decidable (ConstructsGuard text) :=
  inferInstanceAs (Decidable (∃ tag ∈ guardTags, tag ∈ lockTags text))

/-- Constructs that acquire a lock are not found without reading a character. -/
theorem mustRead_lockConstructs : ∀ c ∈ lockConstructs, c.pattern.mustRead = true := by
  -- The table is finite, so each pattern is tested.
  simpa only [List.all_eq_true] using
    (by decide : lockConstructs.all (·.pattern.mustRead) = true)

/-- Items that pass a test are no more than what all items contribute, if each of them does. -/
theorem length_filter_le_length_flatMap {α β : Type} {items : List α} {test : α → Bool}
    {parts : α → List β} (contributes : ∀ x ∈ items, test x = true → parts x ≠ []) :
    (items.filter test).length ≤ (items.flatMap parts).length := by
  -- An item that passes adds one on the left and at least one on the right.
  induction items with
  | nil => simp
  | cons x rest ih =>
    obtain ⟨here, others⟩ := List.forall_mem_cons.mp contributes
    have later := ih others
    rw [List.flatMap_cons, List.length_append]
    cases passed : test x with
    | false =>
      rw [List.filter_cons_of_neg (by simp [passed])]
      omega
    | true =>
      have positive := List.length_pos_of_ne_nil (here passed)
      rw [List.filter_cons_of_pos passed, List.length_cons]
      omega

/-- Every construct that is tagged is counted at least once. -/
theorem length_lockTags_le_lockCount (text : List Char) :
    (lockTags text).length ≤ lockCount text := by
  -- A tagged construct has an occurrence, and an occurrence counts.
  rw [lockTags, List.length_map]
  exact length_filter_le_length_flatMap fun c known =>
    (findAll_ne_nil_iff (mustRead_lockConstructs c known)).mpr

/-- A lock is counted in a text exactly if the text acquires one. -/
theorem one_le_lockCount_iff {text : List Char} : 1 ≤ lockCount text ↔ hasLock text = true := by
  constructor
  · intro counted
    obtain ⟨found, listed⟩ := List.exists_mem_of_length_pos counted
    obtain ⟨c, known, member⟩ := List.mem_flatMap.mp listed
    have occurs := (findAll_ne_nil_iff (mustRead_lockConstructs c known)).mp
      (List.ne_nil_of_mem member)
    exact List.any_eq_true.mpr ⟨c, known, occurs⟩
  · -- A text that locks has a tag, and tags are no more than what is counted.
    intro locks
    have tagged := List.length_pos_of_ne_nil (lockTags_ne_nil_iff.mpr locks)
    exact Nat.le_trans tagged (length_lockTags_le_lockCount text)

section Guards

variable {types : List String} {text : List Char}

/-- The types of guards are names. -/
theorem isName_of_mem_guardTypes : ∀ type ∈ guardTypes, IsName type.toList := by
  -- The types are few, so their characters are looked through.
  have table : guardTypes.all
      (fun type => !type.toList.isEmpty && type.toList.all isWordChar) = true := by decide
  simp only [List.all_eq_true, Bool.and_eq_true, Bool.not_eq_true', List.isEmpty_eq_false_iff]
    at table
  exact fun type known => ⟨(table type known).1, (table type known).2⟩

/-- A guard type that is read as a standard name is shown by the text, unless the word goes on. -/
theorem exists_guardType (known : types ⊆ guardTypes) {a m n : Attempt}
    (atName : m ∈ ends standard a) (named : n ∈ ends (anyWord types) m) :
    ∃ type ∈ types, Cursor.touchesWord n.cursor.before.head? = true ∧
      (Cursor.touchesWord n.cursor.after.head? = false →
        ShowsWord type.toList (a.cursor.before.reverse ++ a.cursor.after)) := by
  -- Whether the namespace is written or not, the name starts at an edge.
  obtain ⟨_, -, last⟩ := mem_ends_inOrder_cons.mp atName
  obtain ⟨rfl, edge⟩ := mem_ends_wordEdge.mp last
  obtain ⟨taken, moved⟩ := exists_reads atName
  obtain ⟨type, member, reads, -⟩ := reads_of_mem_anyWord named
  have isName := isName_of_mem_guardTypes type (known member)
  refine ⟨type, member, ?_, fun outside => ?_⟩
  · rw [reads.2]
    exact isName.reverse.touchesWord _
  · rw [← moved.text_eq]
    exact .of_reads isName edge reads outside

/-- A text mentions a guard exactly if it shows the name of a guard type as a word. -/
theorem hasGuard_iff : hasGuard text = true ↔ ∃ type ∈ guardTypes, ShowsWord type.toList text := by
  rw [hasGuard, occursIn_iff]
  -- A match is an optional namespace, the name and an edge behind it.
  constructor
  · rintro ⟨front, back, e, rfl, outcome⟩
    obtain ⟨m, atName, rest⟩ := mem_ends_inOrder_cons.mp outcome
    obtain ⟨n, named, last⟩ := mem_ends_inOrder_cons.mp rest
    obtain ⟨-, edge⟩ := mem_ends_wordEdge.mp last
    obtain ⟨type, known, inside, shown⟩ := exists_guardType (List.Subset.refl _) atName named
    rw [Cursor.atWordEdge, inside] at edge
    exact ⟨type, known, by simpa using shown (by simpa using edge)⟩
  · rintro ⟨type, known, before, after, rfl, left, right⟩
    have isName := isName_of_mem_guardTypes type known
    let place : Attempt := ⟨⟨before.reverse, type.toList ++ after⟩, []⟩
    have edge : place.cursor.atWordEdge = true := by
      rw [Cursor.atWordEdge, isName.touchesWord, List.head?_reverse, left]
      rfl
    -- The namespace is left out, and the name is read from its first edge to its last.
    have atName : place ∈ ends standard place :=
      mem_ends_inOrder_cons.mpr ⟨place, mem_ends_or.mpr (.inr (mem_ends_empty.mpr rfl)),
        mem_ends_wordEdge.mpr ⟨rfl, edge⟩⟩
    have inside : Cursor.touchesWord type.toList.getLast? = true := by
      simpa using isName.reverse.touchesWord []
    have closing : Accepts (inOrder []) after after := .empty after
    obtain ⟨e, named, -⟩ :=
      (Accepts.anyWord known after).inOrder_edge inside right closing place rfl
    exact ⟨before, type.toList ++ after, e, by simp,
      mem_ends_inOrder_cons.mpr ⟨place, atName, named⟩⟩

/-- White space starts no word, and neither does what follows it if there is none. -/
theorem touchesWord_blanks_append {space rest : List Char} (blank : ∀ c ∈ space, isBlank c = true)
    (outside : space = [] → Cursor.touchesWord rest.head? = false) :
    Cursor.touchesWord (space ++ rest).head? = false := by
  -- The first blank is no word character; without blanks, the rest is first.
  cases space with
  | nil => exact outside rfl
  | cons c more => exact isWordChar_of_isBlank (blank c (by simp))

/-- Where a guard is constructed, the text shows the name of its type as a word. -/
theorem showsWord_of_guardConstruction (known : types ⊆ guardTypes)
    (occurs : (guardConstruction types).occursIn text = true) :
    ∃ type ∈ types, ShowsWord type.toList text := by
  obtain ⟨front, back, e, rfl, outcome⟩ := occursIn_iff.mp occurs
  obtain ⟨m, atName, rest⟩ := mem_ends_inOrder_cons.mp outcome
  obtain ⟨n, named, rest⟩ := mem_ends_inOrder_cons.mp rest
  obtain ⟨type, member, -, shown⟩ := exists_guardType known atName named
  suffices outside : Cursor.touchesWord n.cursor.after.head? = false from
    ⟨type, member, by simpa using shown outside⟩
  -- The name is followed by template arguments or by the gap before the variable.
  obtain ⟨k, arguments, declared⟩ := mem_ends_inOrder_cons.mp rest
  rcases mem_ends_or.mp arguments with present | absent
  · obtain ⟨_, space, bracketed⟩ := mem_ends_inOrder_cons.mp present
    obtain ⟨taken, blank, ⟨ahead, -⟩, -⟩ := mem_ends_run.mp space
    obtain ⟨_, bracket, -⟩ := mem_ends_inOrder_cons.mp bracketed
    obtain ⟨c, fit, ⟨opens, -⟩, -⟩ := mem_ends_one.mp bracket
    obtain rfl := beq_iff_eq.mp fit
    rw [ahead]
    exact touchesWord_blanks_append blank fun _ => by rw [opens]; rfl
  · obtain rfl := mem_ends_empty.mp absent
    obtain ⟨_, space, -⟩ := mem_ends_inOrder_cons.mp declared
    obtain ⟨taken, inhabited, blank, ⟨ahead, -⟩, -⟩ := reads_of_mem_run1 space
    rw [ahead]
    exact touchesWord_blanks_append blank (absurd · inhabited)

/-- The lock constructs with the tag of a guard construct guards of the known types. -/
theorem guardConstruction_of_tag : ∀ c ∈ lockConstructs, c.tag ∈ guardTags →
    ∃ types, types ⊆ guardTypes ∧ c.pattern = guardConstruction types := by
  -- The constructs are taken in the order of the table; four of them have other tags.
  simp only [lockConstructs, List.forall_mem_cons]
  exact ⟨(absurd · (by decide)), fun _ => ⟨["lock_guard", "scoped_lock"], by decide, rfl⟩,
    fun _ => ⟨["unique_lock"], by decide, rfl⟩, fun _ => ⟨["shared_lock"], by decide, rfl⟩,
    (absurd · (by decide)), (absurd · (by decide)), (absurd · (by decide)), by simp⟩

/-- A text that constructs a guard shows the name of a guard type as a word. -/
theorem ConstructsGuard.showsWord (constructs : ConstructsGuard text) :
    ∃ type ∈ guardTypes, ShowsWord type.toList text := by
  -- The tag leads back to the construct, and the construct to its types.
  obtain ⟨tag, isGuard, tagged⟩ := constructs
  obtain ⟨c, found, rfl⟩ := List.mem_map.mp tagged
  obtain ⟨member, occurs⟩ := List.mem_filter.mp found
  obtain ⟨types, known, shape⟩ := guardConstruction_of_tag c member isGuard
  rw [shape] at occurs
  obtain ⟨type, listed, shown⟩ := showsWord_of_guardConstruction known occurs
  exact ⟨type, known listed, shown⟩

/-- A line that constructs a guard in the code view mentions a guard in the text. -/
theorem ConstructsGuard.exists_hasGuard {number : Nat} {shown : List Char}
    (found : numbered? (CodeView.ofText text) number = some shown)
    (constructs : ConstructsGuard shown) :
    ∃ line ∈ numbered? text number, hasGuard line = true := by
  -- The construction shows the word of its type in the view, hence in the text.
  obtain ⟨type, known, word⟩ := constructs.showsWord
  obtain ⟨line, inText, wordToo⟩ :=
    CodeView.showsWord_of_numbered? (isName_of_mem_guardTypes type known) found word
  exact ⟨line, inText, hasGuard_iff.mpr ⟨type, known, wordToo⟩⟩

/-- No line within ten lines of an unlock by hand that is reported mentions a guard. -/
theorem not_hasGuard_near {code : List Char} {finding : Finding}
    (reported : finding ∈ Trigger.manualLockUnlock (.ofTexts text code)) {near : Nat}
    (above : finding.line ≤ near + 10) (below : near ≤ finding.line + 10) {line : List Char}
    (found : line ∈ numbered? text near) : ¬ hasGuard line = true := by
  -- The rule excuses a line that has a guard within ten lines.
  have reports := Trigger.reportsLines_alone (fun line => hasManualUnlock (trim line)) hasGuard
    10 10 text Trigger.manualUnlockAt fun _ => rfl
  have alone := (reports.reported finding.line).mp ⟨finding, reported, rfl⟩
  exact alone.2 near line found above below

/--
The tables of constructs agree with one another.

A text acquires a lock exactly if a construct is tagged in it, and exactly if one is counted; at
least as many are counted as are tagged. Where the construction of a guard is recognised as a lock,
a guard is mentioned. So no unlock by hand is reported within ten lines of a line that constructs a
guard, whether the line does so as it stands or in the code view, where classes are looked for.
-/
theorem lock_tables_agree (text : List Char) :
    (hasLock text = true ↔ lockTags text ≠ []) ∧
    (hasLock text = true ↔ 1 ≤ lockCount text) ∧
    (lockTags text).length ≤ lockCount text ∧
    (ConstructsGuard text → hasGuard text = true) ∧
    ∀ code, ∀ finding ∈ Trigger.manualLockUnlock (.ofTexts text code),
      ∀ near, finding.line ≤ near + 10 → near ≤ finding.line + 10 →
        (∀ line ∈ numbered? text near, ¬ ConstructsGuard line) ∧
        ∀ line ∈ numbered? (CodeView.ofText text) near, ¬ ConstructsGuard line := by
  -- The tables agree construct by construct; the last part uses that a construction is a mention.
  refine ⟨lockTags_ne_nil_iff.symm, one_le_lockCount_iff.symm, length_lockTags_le_lockCount text,
    fun constructs => hasGuard_iff.mpr constructs.showsWord, ?_⟩
  intro code finding reported near above below
  refine ⟨fun line found constructs => ?_, fun shown found constructs => ?_⟩
  · exact not_hasGuard_near reported above below found (hasGuard_iff.mpr constructs.showsWord)
  · obtain ⟨line, inText, mentions⟩ := constructs.exists_hasGuard found
    exact not_hasGuard_near reported above below inText mentions

/-- An unlock by hand is reported with a guard eleven lines above it, but none within ten. -/
theorem lock_tables_agree_of_distant_guard :
    let text := "std::scoped_lock both\x7ba, b\x7d;\n\n\n\n\n\n\n\n\n\n\nm.unlock();".toList
    let finding := Trigger.manualUnlockAt 12
    ConstructsGuard text ∧ hasGuard text = true ∧
      finding ∈ Trigger.manualLockUnlock (.ofTexts text text) ∧
      (∃ line ∈ numbered? text 1, ConstructsGuard line) ∧
      (∀ line ∈ numbered? text 2, ¬ ConstructsGuard line) ∧
      ∀ line ∈ numbered? (CodeView.ofText text) 2, ¬ ConstructsGuard line := by
  intro text finding
  obtain ⟨-, -, -, mentions, excused⟩ := lock_tables_agree text
  have constructs : ConstructsGuard text := by decide +kernel
  -- The report is computed, and line 2 is one of those within its ten lines.
  have reported : finding ∈ Trigger.manualLockUnlock (.ofTexts text text) := by decide +kernel
  have near := excused text finding reported 2 (by decide) (by decide)
  exact ⟨constructs, mentions constructs, reported, by decide +kernel, near⟩

-- A comment hides the construction from the line itself, but not from the code view.
example :
    let line := "lock_guard<mutex> held /* all */ (m); m.unlock();".toList
    lockTags line = [] ∧ lockTags (CodeView.ofText line) = ["lock_guard"] ∧
      Trigger.manualLockUnlock (.ofTexts line line) = [] := by
  decide +kernel

end Guards

end Vocabulary

end LockDiscipline
