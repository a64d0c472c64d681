import LockDiscipline.Proofs.Pattern.Context
import LockDiscipline.Proofs.Text.Lines
import LockDiscipline.Vocabulary

/-! Constructs found in part of a text are found in the whole, as long as no word is cut. -/

namespace LockDiscipline.Vocabulary

open LockDiscipline.Text

/-- Constructs that acquire a lock do not depend on where the text ends. -/
theorem ignoresEnd_lockConstructs : ∀ c ∈ lockConstructs, c.pattern.ignoresEnd = true := by
  -- The table is finite, so each pattern is tested.
  simpa only [List.all_eq_true] using
    (by decide : lockConstructs.all (·.pattern.ignoresEnd) = true)

/-- Constructs that release a lock by hand do not depend on where the text ends. -/
theorem ignoresEnd_unlockConstructs : ∀ c ∈ unlockConstructs, c.pattern.ignoresEnd = true := by
  simpa only [List.all_eq_true] using
    (by decide : unlockConstructs.all (·.pattern.ignoresEnd) = true)

section Within

variable {lead trail text : List Char} (leadEdge : Cursor.touchesWord lead.getLast? = false)
  (trailEdge : Cursor.touchesWord trail.head? = false)

include leadEdge trailEdge in
/-- One of several constructs that occurs in a text occurs in a larger text around it. -/
theorem any_occursIn_within {constructs : List Construct}
    (ignore : ∀ c ∈ constructs, c.pattern.ignoresEnd = true)
    (found : constructs.any (·.pattern.occursIn text) = true) :
    constructs.any (·.pattern.occursIn (lead ++ text ++ trail)) = true := by
  -- The same construct is found again.
  obtain ⟨c, member, occurs⟩ := List.any_eq_true.mp found
  exact List.any_eq_true.mpr
    ⟨c, member, Pattern.occursIn_within leadEdge trailEdge (ignore c member) occurs⟩

include leadEdge trailEdge in
/-- A text around one that releases a lock by hand releases it too. -/
theorem hasManualUnlock_within (unlocks : hasManualUnlock text = true) :
    hasManualUnlock (lead ++ text ++ trail) = true :=
  -- The constructs look no further than the edges of the text.
  any_occursIn_within leadEdge trailEdge ignoresEnd_unlockConstructs unlocks

end Within

/-- A pattern that occurs in a window of whole lines occurs in all the lines. -/
theorem occursIn_window {p : Pattern} (ignores : p.ignoresEnd = true)
    {window : List (List Char)} (inhabited : window ≠ []) (above below : List (List Char))
    (occurs : p.occursIn (unlines window) = true) :
    p.occursIn (unlines (above ++ window ++ below)) = true := by
  obtain ⟨lead, trail, shape, leadEdge, trailEdge⟩ := unlines_window inhabited above below
  -- The window is cut at line breaks, which are white space.
  have blank : ∀ c, c = '\n' → isBlank c = true := by
    intro c same
    subst same
    decide
  rw [shape]
  exact Pattern.occursIn_within
    (Cursor.touchesWord_of_isBlank fun c edge => blank c (leadEdge c edge))
    (Cursor.touchesWord_of_isBlank fun c edge => blank c (trailEdge c edge)) ignores occurs

/-- What passes a test is listed among what passes a test that is easier for the items at hand. -/
theorem filter_sublist_filter {α : Type} {test easier : α → Bool} {items : List α}
    (easy : ∀ x ∈ items, test x = true → easier x = true) :
    (items.filter test).Sublist (items.filter easier) := by
  -- The items that pass are left over when those that pass the easier test are tested again.
  have again : items.filter test = (items.filter easier).filter test := by
    rw [List.filter_filter]
    refine List.filter_congr fun x member => ?_
    cases passed : test x with
    | false => rfl
    | true => simp [easy x member passed]
  rw [again]
  exact List.filter_sublist

/-- The tags of a window of whole lines are among those of all the lines. -/
theorem lockTags_window {window : List (List Char)} (inhabited : window ≠ [])
    (above below : List (List Char)) :
    (lockTags (unlines window)).Sublist (lockTags (unlines (above ++ window ++ below))) := by
  -- Each construct that occurs in the window occurs in all the lines, and the table has one order.
  refine (filter_sublist_filter fun c member occurs => ?_).map _
  exact occursIn_window (ignoresEnd_lockConstructs c member) inhabited above below occurs

/-- A line that unlocks by hand when it is trimmed unlocks by hand as it stands. -/
theorem hasManualUnlock_of_trim {line : List Char} (unlocks : hasManualUnlock (trim line) = true) :
    hasManualUnlock line = true := by
  -- What trimming takes away is white space, which extends no word.
  obtain ⟨lead, trail, shape, leading, trailing⟩ := exists_trim line
  have leadEdge := Cursor.touchesWord_of_isBlank fun c edge => leading c (List.mem_of_getLast? edge)
  have trailEdge := Cursor.touchesWord_of_isBlank fun c edge => trailing c (List.mem_of_head? edge)
  rw [shape]
  exact hasManualUnlock_within leadEdge trailEdge unlocks

/-- A text has the tag of a lock construct exactly if it acquires a lock. -/
theorem lockTags_ne_nil_iff {text : List Char} : lockTags text ≠ [] ↔ hasLock text = true := by
  -- Tags are given by the same constructs that are searched for.
  simp [lockTags, hasLock]

end LockDiscipline.Vocabulary
