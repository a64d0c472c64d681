import LockDiscipline.Proofs.Scan.Members
import Mathlib.Data.List.Forall2
import Mathlib.Order.Bounds.Defs

/-! The line windows of methods: which lines they hold, and why a wider one shows no less. -/

namespace LockDiscipline

open LockDiscipline.Text

namespace LockWindow

/-- A line of a class is in the window around line `k`, by the sizes above and below that line. -/
def Holds (before after k count i : Nat) : Prop :=
  (k : Int) - before ≤ i ∧ i < max (k + 1) (min (k + after) count)

instance (before after k count i : Nat) : Decidable (Holds before after k count i) :=
  inferInstanceAs (Decidable (_ ∧ _))

/-- A window whose end is no machine word stops at its signature. -/
theorem span_lines_of_wraps {before after : UInt64} {index : Nat} (isWord : index < UInt64.size)
    (wraps : UInt64.size ≤ index + after.toNat) (count : Nat) :
    (lines before after).span index count = (index - before.toNat, index + 1) := by
  -- Both parts of the sum are words, so it wraps around once and falls below the index.
  have afterIsWord : after.toNat < UInt64.size := after.toNat_lt
  have sum : (UInt64.ofNat index + after).toNat = index + after.toNat - UInt64.size := by
    rw [UInt64.toNat_add, UInt64.toNat_ofNat', Nat.mod_add_mod]
    show (index + after.toNat) % UInt64.size = _
    rw [Nat.mod_eq_sub_mod wraps, Nat.mod_eq_of_lt (by omega)]
  have clipped : max (min (index + after.toNat - UInt64.size) count) (index + 1) = index + 1 := by
    omega
  rw [span, sum, clipped]

/-- Larger sizes above and below make a window that covers the smaller one. -/
theorem covers_lines {before after moreBefore moreAfter : UInt64} {index count : Nat}
    (above : before ≤ moreBefore) (below : after ≤ moreAfter)
    (fits : moreAfter.toNat + count < UInt64.size) (inside : index < count) :
    (lines moreBefore moreAfter).Covers (lines before after) index count := by
  -- Neither sum wraps around, so the ends of both windows are those of the natural numbers.
  have above : before.toNat ≤ moreBefore.toNat := above
  have below : after.toNat ≤ moreAfter.toNat := below
  have wide : index + moreAfter.toNat < UInt64.size := by omega
  have narrow : index + after.toNat < UInt64.size := by omega
  constructor
  · rw [span_lines_of_fits wide, span_lines_of_fits narrow]
    show index - moreBefore.toNat ≤ index - before.toNat
    omega
  · rw [span_lines_of_fits wide, span_lines_of_fits narrow]
    show max (min (index + after.toNat) count) (index + 1) ≤
      max (min (index + moreAfter.toNat) count) (index + 1)
    omega

end LockWindow

namespace Scan

/-- The lines of a class body at the places that pass a test, from top to bottom. -/
def linesAt (places : Nat → Prop) [DecidablePred places] (all : List (List Char)) :
    List (List Char) :=
  (all.zipIdx.filter fun numbered => places numbered.2).map (·.1)

/-- The lines from one place up to another are a stretch of all lines. -/
theorem stretch_eq_map_filter (first past : Nat) (all : List (List Char)) (start : Nat) :
    (all.drop (first - start)).take (past - max first start) =
      ((all.zipIdx start).filter fun numbered => first ≤ numbered.2 ∧ numbered.2 < past).map
        (·.1) := by
  -- The induction is on the lines; the number of the first one moves along with them.
  induction all generalizing start with
  | nil => simp
  | cons line rest ih =>
    have tail := ih (start + 1)
    rw [List.zipIdx_cons, List.filter_cons]
    by_cases reached : first ≤ start
    · have noMore : first - start = 0 := by omega
      have here : max first start = start := by omega
      have next : max first (start + 1) = start + 1 := by omega
      have gone : first - (start + 1) = 0 := by omega
      rw [next, gone, List.drop_zero] at tail
      rw [noMore, here, List.drop_zero]
      by_cases before : start < past
      · -- The line is inside, and the stretch goes on behind it.
        have size : past - start = past - (start + 1) + 1 := by omega
        rw [if_pos (by simpa using ⟨reached, before⟩), size, List.take_succ_cons, tail,
          List.map_cons]
      · -- The stretch has ended, here and for all later lines.
        have none : past - start = 0 := by omega
        have noneLater : past - (start + 1) = 0 := by omega
        rw [noneLater, List.take_zero] at tail
        rw [if_neg (by simp [before]), none, List.take_zero, tail]
    · -- The line is above the stretch, which starts further down.
      have skipped : first - start = first - (start + 1) + 1 := by omega
      have later : max first start = max first (start + 1) := by omega
      rw [if_neg (by simp [reached]), skipped, later, List.drop_succ_cons, tail]

/-- The lines of a window are those at the places from its start up to its end. -/
theorem windowLines_eq_linesAt {window : LockWindow} {all : List (List Char)} {k : Nat}
    {places : Nat → Prop} [DecidablePred places]
    (spans : ∀ i, places i ↔
      (window.span k all.length).1 ≤ i ∧ i < (window.span k all.length).2) :
    windowLines window all k = linesAt places all := by
  -- The window is a stretch of the lines, and a stretch is filtered by its bounds.
  have stretch := stretch_eq_map_filter (window.span k all.length).1 (window.span k all.length).2
    all 0
  rw [Nat.sub_zero, Nat.max_zero] at stretch
  simp only [windowLines, linesAt, stretch, spans]

/-- A window searches the lines at some places, and records where they end. -/
structure Searches (region : Region) (window : LockWindow) (k : Nat) (places : Nat → Prop)
    [DecidablePred places] : Prop where
  /-- Exactly the lines at these places are searched, from top to bottom. -/
  searched : windowLines window (lines region.body) k = linesAt places (lines region.body)
  /-- A method on the line has the tags of these lines, and the number of the last of them. -/
  recorded : ∀ file, ∀ m ∈ (profile file window region).lockingMethods,
    m.line = region.firstLine + k + 1 →
      m.tags = Vocabulary.lockTags (unlines (linesAt places (lines region.body))) ∧
      ∃ last, IsGreatest {i | places i} last ∧ m.windowEnd = region.firstLine + last + 1

/-- A window searches the places of its span. -/
theorem searches_of_span {region : Region} {window : LockWindow} {k : Nat}
    (inside : k < (lines region.body).length) {places : Nat → Prop} [DecidablePred places]
    (spans : ∀ i, places i ↔ (window.span k (lines region.body).length).1 ≤ i ∧
      i < (window.span k (lines region.body).length).2) :
    Searches region window k places := by
  have searched := windowLines_eq_linesAt spans
  refine ⟨searched, ?_⟩
  intro file m member sameLine
  obtain ⟨j, name, -, -, rfl⟩ := mem_lockingMethods_iff.mp member
  -- The method stands on the line in question, so its window is the one of that line.
  have same : j = k := by
    have : region.firstLine + j + 1 = region.firstLine + k + 1 := sameLine
    omega
  subst same
  refine ⟨congrArg (fun held => Vocabulary.lockTags (unlines held)) searched, ?_⟩
  have holds := window.span_holds inside
  -- The window ends behind its last line, so that line is the one before its end.
  refine ⟨(window.span j (lines region.body).length).2 - 1, ⟨?_, ?_⟩, ?_⟩
  · exact (spans _).mpr ⟨by omega, by omega⟩
  · intro i held
    have := ((spans i).mp held).2
    omega
  · show region.firstLine + _ = _
    omega

/--
A window searches exactly the lines of its sizes, as long as its end is a machine word.

Around line `k` it holds the lines from `before` above it up to `after` counted from it, clipped to
the class, and it is recorded with the last of them. If the end of the window is no machine word,
the window stops at the line itself, as it does for the size 0.
-/
theorem window_exact_unless_wrapped (region : Region) (before after : UInt64) {k : Nat}
    (inside : k < (lines region.body).length)
    (isWord : (lines region.body).length ≤ UInt64.size) :
    (k + after.toNat < UInt64.size →
      Searches region (.lines before after) k
        (LockWindow.Holds before.toNat after.toNat k (lines region.body).length)) ∧
    (UInt64.size ≤ k + after.toNat →
      Searches region (.lines before after) k
        (LockWindow.Holds before.toNat 0 k (lines region.body).length)) := by
  constructor
  · intro fits
    -- Without a wrap the span is the one that is documented, up to the clipping at both ends.
    apply searches_of_span inside
    intro i
    rw [LockWindow.span_lines_of_fits fits]
    show (_ ∧ _) ↔ k - before.toNat ≤ i ∧ i < max _ _
    omega
  · intro wraps
    -- After a wrap the end lies before the line itself, so the window ends with the line.
    apply searches_of_span inside
    intro i
    rw [LockWindow.span_lines_of_wraps (by omega) wraps]
    show (_ ∧ _) ↔ k - before.toNat ≤ i ∧ i < k + 1
    omega

/-- A window as wide as it can be before its end is no machine word, around a method with a lock. -/
theorem window_exact_at_largest_end :
    let region : Region := ⟨"Box".toList, .struct, [], "struct Box ".toList,
      "\x7b\nvoid put() \x7b\nm.lock();\n\x7d \x7d".toList⟩
    region ∈ Region.findAll region.body ∧ 1 < (lines region.body).length ∧
      Searches region (.lines 2 0xFFFFFFFFFFFFFFFE) 1
        (LockWindow.Holds 2 0xFFFFFFFFFFFFFFFE 1 (lines region.body).length) := by
  intro region
  have facts : region ∈ Region.findAll region.body ∧ 1 < (lines region.body).length ∧
      (lines region.body).length ≤ UInt64.size := by
    decide +kernel
  obtain ⟨member, inside, isWord⟩ := facts
  have exact := window_exact_unless_wrapped region 2 0xFFFFFFFFFFFFFFFE inside isWord
  exact ⟨member, inside, exact.1 (by decide)⟩

/-- The largest window of all wraps around: it should hold the lock of a method but misses it. -/
theorem largest_window_misses_lock :
    let region : Region := ⟨"Box".toList, .struct, [], "struct Box ".toList,
      "\x7b\nvoid put() \x7b\nm.lock();\n\x7d \x7d".toList⟩
    let window : LockWindow := .lines 2 0xFFFFFFFFFFFFFFFF
    region ∈ Region.findAll region.body ∧ DeclaresIn region .pub 1 "put".toList ∧
      LockWindow.Holds 2 0xFFFFFFFFFFFFFFFF 1 (lines region.body).length 2 ∧
      (lines region.body)[2]?.any Vocabulary.hasLock = true ∧
      ¬ Searches region window 1
        (LockWindow.Holds 2 0xFFFFFFFFFFFFFFFF 1 (lines region.body).length) ∧
      (profile "box.h" window region).lockingMethods = [] := by
  intro region window
  have facts : region ∈ Region.findAll region.body ∧
      ⟨.pub, 1, "put".toList⟩ ∈ declarations region ∧
      LockWindow.Holds 2 0xFFFFFFFFFFFFFFFF 1 (lines region.body).length 2 ∧
      (lines region.body)[2]?.any Vocabulary.hasLock = true ∧
      windowLines window (lines region.body) 1 ≠
        linesAt (LockWindow.Holds 2 0xFFFFFFFFFFFFFFFF 1 (lines region.body).length)
          (lines region.body) ∧
      (profile "box.h" window region).lockingMethods = [] := by
    decide +kernel
  obtain ⟨member, declared, holds, locks, differ, none⟩ := facts
  refine ⟨member, mem_declarations_iff.mp declared, holds, locks, ?_, none⟩
  intro searches
  exact differ searches.searched

/-- What one search finds is related, item by item, to part of what a better search finds. -/
theorem sublistForall₂_filterMap {α β : Type} {related : β → β → Prop}
    {search better : α → Option β} {items : List α}
    (finds : ∀ x ∈ items, ∀ y, search x = some y → ∃ z, better x = some z ∧ related y z) :
    List.SublistForall₂ related (items.filterMap search) (items.filterMap better) := by
  -- Item by item: what the first search finds the other one finds too, perhaps with more around it.
  induction items with
  | nil => exact .nil
  | cons x rest ih =>
    have tail := ih fun y member => finds y (List.mem_cons_of_mem x member)
    cases found : search x with
    | none =>
      -- What only the better search finds here is passed over.
      rw [List.filterMap_cons_none found]
      cases foundBetter : better x with
      | none => rwa [List.filterMap_cons_none foundBetter]
      | some z =>
        rw [List.filterMap_cons_some foundBetter]
        exact .cons_right tail
    | some y =>
      obtain ⟨z, foundBetter, fits⟩ := finds x List.mem_cons_self y found
      rw [List.filterMap_cons_some found, List.filterMap_cons_some foundBetter]
      exact .cons fits tail

/-- Methods that are related item by item, by more than their names, have the names of a sublist. -/
theorem map_sublist_of_sublistForall₂ {α β : Type} {related : α → α → Prop} {view : α → β}
    (same : ∀ x y, related x y → view x = view y) {first second : List α}
    (items : List.SublistForall₂ related first second) :
    (first.map view).Sublist (second.map view) := by
  -- Related items have the same view, and passed over items are left out of it.
  induction items with
  | nil => exact List.nil_sublist _
  | cons fits _ ih =>
    rw [List.map_cons, List.map_cons, same _ _ fits]
    exact ih.cons_cons _
  | cons_right _ ih => exact ih.cons _

/--
A wider window loses no lock.

In every class, the methods that lock within a narrow window lock within a wider one, in the same
order, under the same names and on the same lines; each has all of its tags, and its window does
not end earlier. Mutexes and unlocked methods do not depend on the window, and the classes that
matter for the narrow window are among those that matter for the wider one.
-/
theorem wider_window_keeps_locks (file : String) (code : List Char)
    {before after moreBefore moreAfter : UInt64} (above : before ≤ moreBefore)
    (below : after ≤ moreAfter) :
    (∀ region ∈ Region.findAll code,
      moreAfter.toNat + (lines region.body).length < UInt64.size →
      let narrow := profile file (.lines before after) region
      let wide := profile file (.lines moreBefore moreAfter) region
      (narrow.lockingMethods.map fun m => (m.name, m.line)).Sublist
        (wide.lockingMethods.map fun m => (m.name, m.line)) ∧
      List.SublistForall₂ LockingMethod.Widened narrow.lockingMethods wide.lockingMethods ∧
      narrow.mutexes = wide.mutexes ∧ narrow.unlockedMethods = wide.unlockedMethods) ∧
    ((∀ region ∈ Region.findAll code,
      moreAfter.toNat + (lines region.body).length < UInt64.size) →
      ((profiles file (.lines before after) code).map fun p => (p.name, p.startLine)).Sublist
        ((profiles file (.lines moreBefore moreAfter) code).map
          fun p => (p.name, p.startLine))) := by
  -- The wider window covers the narrow one at every declaration.
  have covers : ∀ region : Region, moreAfter.toNat + (lines region.body).length < UInt64.size →
      ∀ d ∈ declarations region, LockWindow.Covers (.lines moreBefore moreAfter)
        (.lines before after) d.index (lines region.body).length := by
    intro region fits d declared
    exact LockWindow.covers_lines above below fits (index_lt_of_mem_declarations declared)
  constructor
  · intro region _ fits narrow wide
    -- Each declaration that locks in the narrow window locks in the wide one.
    have widened : List.SublistForall₂ LockingMethod.Widened narrow.lockingMethods
        wide.lockingMethods :=
      sublistForall₂_filterMap fun d declared _ found =>
        lockingMethod?_covers declared (covers region fits d declared) found
    refine ⟨?_, widened, rfl, rfl⟩
    exact map_sublist_of_sublistForall₂ (fun _ _ fits => by rw [fits.name, fits.line]) widened
  · intro fits
    exact profiles_sublist_of_covers fun region member => covers region (fits region member)

/-- A window of one line that misses the lock of a second method, and a window that shows both. -/
theorem wider_window_keeps_locks_of_later_line :
    let region : Region := ⟨"Box".toList, .struct, [], "struct Box ".toList,
      "\x7b\nvoid put() \x7b m.lock(); \x7d\nvoid get() \x7b\nm.lock(); \x7d \x7d".toList⟩
    let narrow := profile "box.h" (.lines 0 1) region
    let wide := profile "box.h" (.lines 2 20) region
    narrow.lockingMethods.map (·.name) = ["put"] ∧
      wide.lockingMethods.map (·.name) = ["put", "get"] ∧
      List.SublistForall₂ LockingMethod.Widened narrow.lockingMethods wide.lockingMethods := by
  intro region narrow wide
  have facts : region ∈ Region.findAll region.body ∧
      (20 : UInt64).toNat + (lines region.body).length < UInt64.size ∧
      narrow.lockingMethods.map (·.name) = ["put"] ∧
      wide.lockingMethods.map (·.name) = ["put", "get"] := by
    decide +kernel
  obtain ⟨member, fits, one, both⟩ := facts
  have kept := wider_window_keeps_locks "box.h" region.body (show (0 : UInt64) ≤ 2 by decide)
    (show (1 : UInt64) ≤ 20 by decide)
  obtain ⟨-, widened, -⟩ := kept.1 region member fits
  exact ⟨one, both, widened⟩

end Scan

end LockDiscipline
