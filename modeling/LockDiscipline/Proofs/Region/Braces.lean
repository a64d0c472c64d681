import LockDiscipline.Proofs.Bounds.Scan
import Mathlib.Order.Bounds.Defs

/-! Braces among bytes: where a block is balanced first, and why blocks nest. -/

namespace LockDiscipline.Braces

open Bounds (closingBrace?)

/-- The bytes from one offset to another, both included. -/
def span (bytes : List UInt8) (first last : Nat) : List UInt8 :=
  (bytes.drop first).take (last + 1 - first)

/-- The number of opening braces among some bytes. -/
def openings (bytes : List UInt8) : Nat :=
  bytes.count 0x7B

/-- The number of closing braces among some bytes. -/
def closings (bytes : List UInt8) : Nat :=
  bytes.count 0x7D

/-- From one offset to another, there are as many closing braces as opening ones. -/
def BalancedAt (bytes : List UInt8) (first last : Nat) : Prop :=
  first ≤ last ∧ last < bytes.length ∧
    closings (span bytes first last) = openings (span bytes first last)

instance (bytes : List UInt8) (first last : Nat) : Decidable (BalancedAt bytes first last) :=
  inferInstanceAs (Decidable (_ ∧ _ ∧ _))

/-- The braces from an offset on are balanced sooner or later. -/
def EverBalanced (bytes : List UInt8) (first : Nat) : Prop :=
  ∃ last < bytes.length, BalancedAt bytes first last

instance (bytes : List UInt8) (first : Nat) : Decidable (EverBalanced bytes first) :=
  inferInstanceAs (Decidable (∃ _ < _, _))

/-- Until shortly before an offset, more braces are opened than closed. -/
def OpenUntil (bytes : List UInt8) (first stop : Nat) : Prop :=
  ∀ last, first ≤ last → last < stop →
    closings (span bytes first last) < openings (span bytes first last)

/-- The opening braces of two stretches add up. -/
@[simp] theorem openings_append (first second : List UInt8) :
    openings (first ++ second) = openings first + openings second :=
  -- Both counts go over the two stretches in turn.
  List.count_append

/-- The closing braces of two stretches add up. -/
@[simp] theorem closings_append (first second : List UInt8) :
    closings (first ++ second) = closings first + closings second :=
  List.count_append

/-- The opening braces of a stretch are counted byte by byte. -/
theorem openings_cons (b : UInt8) (rest : List UInt8) :
    openings (b :: rest) = openings [b] + openings rest :=
  -- One byte is a stretch of its own.
  openings_append [b] rest

/-- The closing braces of a stretch are counted byte by byte. -/
theorem closings_cons (b : UInt8) (rest : List UInt8) :
    closings (b :: rest) = closings [b] + closings rest :=
  closings_append [b] rest

/-- An opening brace in front is one more that is open. -/
theorem openings_brace (rest : List UInt8) : openings (0x7B :: rest) = 1 + openings rest :=
  -- The byte is a brace that opens.
  openings_cons 0x7B rest

/-- An opening brace in front closes nothing. -/
theorem closings_brace (rest : List UInt8) : closings (0x7B :: rest) = closings rest :=
  -- The byte is no brace that closes.
  (closings_cons 0x7B rest).trans (Nat.zero_add _)

/-- A byte closes the last open brace, or it leaves some open and the search goes on. -/
theorem closingBrace?_cons {depth : Nat} (isOpen : 0 < depth) (b : UInt8) (rest : List UInt8) :
    (closings [b] = depth + openings [b] ∧ closingBrace? depth (b :: rest) = some 0) ∨
      ∃ inner, 0 < inner ∧ inner + closings [b] = depth + openings [b] ∧
        closingBrace? depth (b :: rest) = (closingBrace? inner rest).map (· + 1) := by
  by_cases opens : b = 0x7B
  · -- An opening brace only adds to those that are open.
    subst opens
    exact .inr ⟨depth + 1, by omega, rfl, rfl⟩
  · by_cases closes : b = 0x7D
    · subst closes
      -- A closing brace ends the search only if it closes the last one.
      by_cases last : depth - 1 = 0
      · have alone : depth = 1 := by omega
        subst alone
        exact .inl ⟨rfl, rfl⟩
      · refine .inr ⟨depth - 1, by omega, ?_, ?_⟩
        · show depth - 1 + 1 = depth + 0
          omega
        · rw [closingBrace?, if_neg opens, if_pos rfl, if_neg last]
    · -- Any other byte is passed over at the same depth.
      refine .inr ⟨depth, isOpen, ?_, ?_⟩
      · simp [openings, closings, opens, closes]
      · rw [closingBrace?, if_neg opens, if_neg closes]

/-- The search stops at the first byte where all open braces are closed. -/
theorem closes_of_closingBrace? {depth : Nat} (isOpen : 0 < depth) {bytes : List UInt8} {k : Nat}
    (found : closingBrace? depth bytes = some k) :
    k < bytes.length ∧ closings (bytes.take (k + 1)) = depth + openings (bytes.take (k + 1)) ∧
      ∀ n ≤ k, closings (bytes.take n) < depth + openings (bytes.take n) := by
  -- The depth changes with each byte, so the induction is over every depth at once.
  induction bytes generalizing depth k with
  | nil => simp [closingBrace?] at found
  | cons b rest ih =>
    rcases closingBrace?_cons isOpen b rest with ⟨closes, here⟩ | ⟨inner, innerOpen, step, later⟩
    · -- The first byte closes the block, and before it there is only the empty stretch.
      obtain rfl : 0 = k := Option.some.inj (here.symm.trans found)
      refine ⟨Nat.succ_pos _, closes, ?_⟩
      intro n atMost
      have none : n = 0 := by omega
      subst none
      exact Nat.lt_add_right _ isOpen
    · -- Otherwise the block ends as far behind this byte as the rest says.
      obtain ⟨k, search, rfl⟩ := Option.map_eq_some_iff.mp (later.symm.trans found)
      obtain ⟨inside, closes, before⟩ := ih innerOpen search
      rw [List.take_succ_cons, closings_cons, openings_cons]
      refine ⟨Nat.succ_lt_succ inside, by omega, ?_⟩
      intro n atMost
      cases n with
      | zero => exact Nat.lt_add_right _ isOpen
      | succ n =>
        have deeper := before n (by omega)
        rw [List.take_succ_cons, closings_cons, openings_cons]
        omega

/-- If the search finds nothing, some braces stay open throughout. -/
theorem open_of_closingBrace?_eq_none {depth : Nat} (isOpen : 0 < depth) {bytes : List UInt8}
    (missing : closingBrace? depth bytes = none) (n : Nat) :
    closings (bytes.take n) < depth + openings (bytes.take n) := by
  -- As above, but no byte can be the one that closes the block.
  induction bytes generalizing depth n with
  | nil =>
    rw [List.take_nil]
    exact Nat.lt_add_right _ isOpen
  | cons b rest ih =>
    rcases closingBrace?_cons isOpen b rest with ⟨-, here⟩ | ⟨inner, innerOpen, step, later⟩
    · -- A byte that closes the block would be where the search stops.
      exact absurd (here.symm.trans missing) (by simp)
    · cases n with
      | zero => exact Nat.lt_add_right _ isOpen
      | succ n =>
        have deeper := ih innerOpen (Option.map_eq_none_iff.mp (later.symm.trans missing)) n
        rw [List.take_succ_cons, closings_cons, openings_cons]
        omega

/-- What stands from an opening brace on. -/
theorem span_opening (front rest : List UInt8) (n : Nat) :
    span (front ++ 0x7B :: rest) front.length (front.length + n) = 0x7B :: rest.take n := by
  -- Dropping what stands before the brace leaves the brace and what follows it.
  have size : front.length + n + 1 - front.length = n + 1 := by omega
  rw [span, List.drop_left, size, List.take_succ_cons]

/-- The first offset at which a block is balanced is the one up to which it stays open. -/
theorem isLeast_balancedAt {bytes : List UInt8} {first stop : Nat}
    (balanced : BalancedAt bytes first stop) (stays : OpenUntil bytes first stop) :
    IsLeast {last | BalancedAt bytes first last} stop := by
  refine ⟨balanced, ?_⟩
  intro last earlier
  -- An offset before the end has more braces opened than closed, so it is not balanced.
  refine Nat.le_of_not_lt fun before => ?_
  have deeper := stays last earlier.1 before
  have same := earlier.2.2
  omega

/-- How many braces are open behind the first `n` bytes. -/
def level (bytes : List UInt8) (n : Nat) : Int :=
  openings (bytes.take n) - closings (bytes.take n)

/-- From one end of a stretch to the other, the level changes by the braces in it. -/
theorem level_span (bytes : List UInt8) {first last : Nat} (order : first ≤ last) :
    level bytes (last + 1) =
      level bytes first + openings (span bytes first last) - closings (span bytes first last) := by
  -- The bytes up to the end are those before the stretch and the stretch itself.
  have cut : bytes.take (last + 1) = bytes.take first ++ span bytes first last := by
    rw [span, ← List.take_add]
    congr 1
    omega
  simp only [level, cut, openings_append, closings_append]
  omega

/-- Inside a block, the level is higher than where the block opens. -/
theorem level_lt_of_openUntil {bytes : List UInt8} {first stop n : Nat}
    (stays : OpenUntil bytes first stop) (behind : first < n) (upTo : n ≤ stop) :
    level bytes first < level bytes n := by
  -- The stretch up to the byte before has more braces opened than closed.
  have deeper := stays (n - 1) (by omega) (by omega)
  have change := level_span bytes (show first ≤ n - 1 by omega)
  rw [show n - 1 + 1 = n by omega] at change
  omega

/--
Two blocks are apart, or the one that opens later lies inside the other.

If the second block opens inside the first, the level there is higher than where the first block
ends, so the second block is closed by then.
-/
theorem nested_of_balancedAt {bytes : List UInt8} {first stop inner innerStop : Nat}
    (balanced : BalancedAt bytes first stop) (stays : OpenUntil bytes first stop)
    (innerBalanced : BalancedAt bytes inner innerStop)
    (innerStays : OpenUntil bytes inner innerStop) (later : first < inner) :
    stop < inner ∨ innerStop < stop := by
  rcases Nat.lt_or_ge stop inner with apart | inside
  · exact .inl apart
  refine .inr (Nat.lt_of_not_le fun past => ?_)
  -- The level is the same at both ends of the first block, and higher in between.
  have ends : level bytes (stop + 1) = level bytes first := by
    rw [level_span bytes balanced.1, balanced.2.2]
    omega
  have higher := level_lt_of_openUntil stays later inside
  -- Whether the second block ends later or at the same byte, its level there is not its own.
  have change := level_span bytes inside
  rcases Nat.lt_or_eq_of_le past with longer | same
  · have deeper := innerStays stop inside longer
    omega
  · have even := innerBalanced.2.2
    rw [← same] at even
    omega

/-- The block behind an opening brace ends where the search stops. -/
theorem balancedAt_of_closingBrace? (front : List UInt8) {rest : List UInt8} {k : Nat}
    (found : closingBrace? 1 rest = some k) :
    BalancedAt (front ++ 0x7B :: rest) front.length (front.length + (k + 1)) ∧
      OpenUntil (front ++ 0x7B :: rest) front.length (front.length + (k + 1)) := by
  -- The opening brace itself is the one that is open when the search starts.
  obtain ⟨inside, closes, before⟩ := closes_of_closingBrace? Nat.one_pos found
  constructor
  · -- The search counts from behind the brace, so its answer is one byte more from the brace.
    refine ⟨Nat.le_add_right _ _, ?_, ?_⟩
    · simp only [List.length_append, List.length_cons]
      omega
    · rw [span_opening, closings_brace, openings_brace]
      exact closes
  · intro last order earlier
    obtain ⟨n, rfl⟩ := Nat.exists_eq_add_of_le order
    rw [span_opening, closings_brace, openings_brace]
    exact before n (by omega)

/-- A brace behind which the search finds nothing is never balanced. -/
theorem not_everBalanced_of_closingBrace? (front : List UInt8) {rest : List UInt8}
    (missing : closingBrace? 1 rest = none) :
    ¬ EverBalanced (front ++ 0x7B :: rest) front.length := by
  -- A balanced offset would be one where all braces are closed, which the search never sees.
  intro ever
  obtain ⟨last, -, order, -, even⟩ := ever
  obtain ⟨n, rfl⟩ := Nat.exists_eq_add_of_le order
  rw [span_opening, closings_brace, openings_brace] at even
  have stays := open_of_closingBrace?_eq_none Nat.one_pos missing n
  omega

end LockDiscipline.Braces
