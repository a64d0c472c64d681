import LockDiscipline.Proofs.Rule.Evidence
import Mathlib.Order.Bounds.Defs

/-! Where one locking method calls another: the lines that count, and the first of them. -/

namespace LockDiscipline

open LockDiscipline.Text

/-- Lines are numbered from 1. -/
theorem Text.numbered?_eq_some_iff {text line : List Char} {number : Nat} :
    numbered? text number = some line ↔ 0 < number ∧ (lines text)[number - 1]? = some line := by
  -- There is no line 0; any other line is looked up one place earlier.
  cases number <;> simp [numbered?]

/-- A text with a phrase ahead is an outcome of the phrase. -/
theorem Pattern.mem_ends_phrase {text : List Char} {a e : Attempt} :
    e ∈ ends (phrase text) a ↔ a.Reads text e ∧ e.captures = a.captures := by
  refine ⟨reads_of_mem_phrase, ?_⟩
  -- Each character of the phrase is one step, to a place between the two.
  induction text generalizing a with
  | nil =>
    rintro ⟨reads, same⟩
    obtain ⟨⟨before, after⟩, captures⟩ := e
    obtain ⟨⟨before', after'⟩, captures'⟩ := a
    simp_all [phrase, Attempt.Reads]
  | cons c rest ih =>
    rintro ⟨⟨ahead, behind⟩, same⟩
    rw [phrase, mem_ends_seq]
    refine ⟨⟨⟨c :: a.cursor.before, rest ++ e.cursor.after⟩, a.captures⟩, ?_, ih ⟨⟨rfl, ?_⟩, same⟩⟩
    · exact mem_ends_one.mpr ⟨c, beq_self_eq_true c, ⟨ahead, rfl⟩, rfl⟩
    · simpa using behind

namespace Trigger

open Pattern

/-- A phrase is found at its first occurrence. -/
theorem findPhrase?_eq_some_iff {phrase text rest : List Char} :
    findPhrase? phrase text = some rest ↔
      ∃ head, text = head ++ rest ∧ phrase <+: rest ∧
        ∀ n < head.length, ¬ phrase <+: text.drop n := by
  -- The search gives up one character at a time, and each of them is one more before the place.
  induction text with
  | nil =>
    -- An empty text is found to hold the empty phrase only.
    rw [findPhrase?]
    constructor
    · intro found
      split at found
      · rename_i empty
        obtain rfl := Option.some.inj found
        exact ⟨[], rfl, by simp [List.isEmpty_iff.mp empty], by simp⟩
      · exact absurd found (by simp)
    · rintro ⟨head, shape, opens, -⟩
      obtain ⟨rfl, rfl⟩ := List.append_eq_nil_iff.mp shape.symm
      simp [List.prefix_nil.mp opens]
  | cons c text ih =>
    rw [findPhrase?]
    split
    · -- The phrase opens the text, so no other occurrence can be the first.
      rename_i here
      rw [List.isPrefixOf_iff_prefix] at here
      constructor
      · intro found
        obtain rfl := Option.some.inj found
        exact ⟨[], rfl, here, by simp⟩
      · rintro ⟨head, shape, -, before⟩
        cases head with
        | nil => rw [shape, List.nil_append]
        | cons d head => exact absurd here (before 0 (Nat.succ_pos _))
    · -- Otherwise the first occurrence is that in the rest.
      rename_i elsewhere
      rw [List.isPrefixOf_iff_prefix] at elsewhere
      rw [ih]
      constructor
      · rintro ⟨head, rfl, opens, before⟩
        refine ⟨c :: head, rfl, opens, fun n below => ?_⟩
        cases n with
        | zero => exact elsewhere
        | succ n => exact before n (Nat.lt_of_succ_lt_succ below)
      · rintro ⟨head, shape, opens, before⟩
        cases head with
        | nil => exact absurd (shape ▸ opens) elsewhere
        | cons d head =>
          obtain ⟨rfl, rfl⟩ := List.cons.inj shape
          exact ⟨head, rfl, opens, fun n below => before (n + 1) (Nat.succ_lt_succ below)⟩

/-- A phrase that occurs is found. -/
theorem exists_findPhrase? {phrase text : List Char} (occurs : phrase <:+: text) :
    ∃ rest, findPhrase? phrase text = some rest := by
  -- Where the phrase does not open the text, it occurs in the rest.
  induction text with
  | nil => exact ⟨[], by simp [findPhrase?, List.infix_nil.mp occurs]⟩
  | cons c text ih =>
    rw [findPhrase?]
    split
    · exact ⟨_, rfl⟩
    · rename_i elsewhere
      rw [List.isPrefixOf_iff_prefix] at elsewhere
      exact ih ((List.infix_cons_iff.mp occurs).resolve_left elsewhere)

section Parameters

variable {method : String} (isName : IsName method.toList) {line : List Char}

end Parameters

section Hits

variable {p : ClassProfile} {name : String} {window : LockWindow} {code : List Char}
  (inFile : p ∈ Scan.profiles name window code) {caller : LockingMethod}
  (locking : caller ∈ p.lockingMethods) {callee : String} {number : Nat}

end Hits

end Trigger

end LockDiscipline
