import LockDiscipline.Proofs.Vocabulary
import LockDiscipline.Scan

/-! Where declarations stand in a class body, and which locks their windows can see. -/

namespace LockDiscipline

open LockDiscipline.Text

/-- Every window of a line of the class holds that line. -/
theorem LockWindow.span_holds (window : LockWindow) {index count : Nat} (inside : index < count) :
    (window.span index count).1 ≤ index ∧ index < (window.span index count).2 := by
  cases window with
  | classBody => exact ⟨Nat.zero_le index, inside⟩
  | lines before after =>
    -- However the sum of index and length wraps, the window is kept past the signature.
    constructor
    · exact Nat.sub_le index before.toNat
    · exact Nat.le_max_right _ (index + 1)

/-- No window of a line of the class goes past its last line. -/
theorem LockWindow.span_le (window : LockWindow) {index count : Nat} (inside : index < count) :
    (window.span index count).2 ≤ count := by
  -- Both kinds of windows are clipped to the class; a signature that is inside stays inside.
  cases window with
  | classBody => exact Nat.le_refl count
  | lines before after => exact Nat.max_le.mpr ⟨Nat.min_le_right _ count, inside⟩

/-- A window whose end is a machine word is clipped to the class and to its signature. -/
theorem LockWindow.span_lines_of_fits {before after : UInt64} {index : Nat}
    (fits : index + after.toNat < UInt64.size) (count : Nat) :
    (lines before after).span index count =
      (index - before.toNat, max (min (index + after.toNat) count) (index + 1)) := by
  -- A sum that fits into a machine word is the sum.
  have sum : (UInt64.ofNat index + after).toNat = index + after.toNat := by
    rw [UInt64.toNat_add, UInt64.toNat_ofNat', Nat.mod_add_mod, Nat.mod_eq_of_lt fits]
  rw [span, sum]

/-- For a line of the class, a wide window holds every line that a narrow one holds. -/
structure LockWindow.Covers (wide narrow : LockWindow) (index count : Nat) : Prop where
  /-- The wide window starts no later. -/
  first : (wide.span index count).1 ≤ (narrow.span index count).1
  /-- The wide window ends no earlier. -/
  past : (narrow.span index count).2 ≤ (wide.span index count).2

/-- The whole class holds every line that any window holds. -/
theorem LockWindow.classBody_covers (window : LockWindow) {index count : Nat}
    (inside : index < count) : classBody.Covers window index count :=
  -- It starts at the first line and ends at the last one.
  ⟨Nat.zero_le _, window.span_le inside⟩

/-- A method, and the same method as a wider window shows it. -/
structure LockingMethod.Widened (method wide : LockingMethod) : Prop where
  name : method.name = wide.name
  line : method.line = wide.line
  /-- Every tag is still there, in the same order. -/
  tags : method.tags.Sublist wide.tags
  /-- The window does not end earlier. -/
  windowEnd : method.windowEnd ≤ wide.windowEnd

namespace Scan

/-- The braces of two texts add up. -/
theorem braceBalance_append (first second : List Char) :
    braceBalance (first ++ second) = braceBalance first + braceBalance second := by
  -- Opening and closing braces are counted apart.
  simp only [braceBalance, List.count_append]
  omega

/-- Where a declaration stands: the lines around its own, at member level, with its signature. -/
structure Declaration.Stands (className : List Char) (depth : Int)
    (above : List (List Char)) (line : List Char) (below : List (List Char)) (d : Declaration) :
    Prop where
  /-- Exactly one brace is open at the start of the line. -/
  level : depth + braceBalance above.flatten = 1
  /-- The line has the signature of the method. -/
  signature : Signature.name? (trim line) (nextCodeLine below) = some d.name
  /-- The method can have an unlocked twin. -/
  ordinary : isOrdinary className d.name = true

/-- Every declaration that the scan finds stands on one of the lines it went over. -/
theorem stands_of_mem_declarationsFrom {className : List Char} {access : Access} {depth : Int}
    {index : Nat} {all : List (List Char)} {d : Declaration}
    (member : d ∈ declarationsFrom className access depth index all) :
    ∃ above line below, all = above ++ line :: below ∧ d.index = index + above.length ∧
      d.Stands className depth above line below := by
  -- The induction is on the lines; depth and index move along with them.
  induction all generalizing access depth index with
  | nil => simp [declarationsFrom] at member
  | cons line rest ih =>
    -- A declaration of a later line stands below this line, at the depth that this line leaves.
    have later : ∀ access, d ∈ declarationsFrom className access (depth + braceBalance line)
        (index + 1) rest → ∃ above own below, line :: rest = above ++ own :: below ∧
          d.index = index + above.length ∧ d.Stands className depth above own below := by
      intro access found
      obtain ⟨above, own, below, shape, place, stands⟩ := ih found
      refine ⟨line :: above, own, below, by rw [shape, List.cons_append], ?_, ?_⟩
      · rw [place, List.length_cons]
        omega
      · refine ⟨?_, stands.signature, stands.ordinary⟩
        rw [List.flatten_cons, braceBalance_append, ← Int.add_assoc]
        exact stands.level
    simp only [declarationsFrom] at member
    -- The line may be skipped, open a section, declare nothing, or declare a method of this name.
    split at member
    · exact later access member
    · rename_i level
      split at member
      · exact later _ member
      · split at member
        · rename_i name signature
          split at member
          · rename_i ordinary
            rcases List.mem_cons.mp member with rfl | found
            · -- The method declared here has no lines above it, so its level is the depth itself.
              have here : depth + braceBalance [] = 1 := by
                simpa [braceBalance] using level
              exact ⟨[], line, rest, rfl, rfl, here, signature, ordinary⟩
            · exact later access found
          · exact later access member
        · exact later access member

/-- A declaration of a class stands on a line of its body, below the first line. -/
theorem stands_of_mem_declarations {region : Region} {d : Declaration}
    (member : d ∈ declarations region) :
    ∃ above line below, lines region.body = above ++ line :: below ∧ d.index = above.length ∧
      0 < d.index ∧ d.Stands region.name 0 above line below := by
  obtain ⟨above, line, below, shape, place, stands⟩ := stands_of_mem_declarationsFrom member
  rw [Nat.zero_add] at place
  refine ⟨above, line, below, shape, place, ?_, stands⟩
  -- No brace is open at the start of the first line.
  cases above with
  | nil => exact absurd stands.level (by decide)
  | cons first others => simp [place]

/-- The line of a declaration is one of the lines of the class body. -/
theorem index_lt_of_mem_declarations {region : Region} {d : Declaration}
    (member : d ∈ declarations region) : d.index < (lines region.body).length := by
  -- The lines above a declaration and its own line are lines of the class.
  obtain ⟨above, line, below, shape, place, -, -⟩ := stands_of_mem_declarations member
  rw [shape, place, List.length_append, List.length_cons]
  omega

/-- The window of a line of the class holds some line. -/
theorem windowLines_ne_nil (window : LockWindow) {all : List (List Char)} {index : Nat}
    (inside : index < all.length) : windowLines window all index ≠ [] := by
  -- The line itself is in the window.
  have holds := window.span_holds inside
  rw [windowLines, ← List.length_pos_iff, List.length_take, List.length_drop]
  omega

/-- A narrow window is a stretch of whole lines of a wide one. -/
theorem exists_windowLines {narrow wide : LockWindow} {all : List (List Char)} {index : Nat}
    (inside : index < all.length) (covers : wide.Covers narrow index all.length) :
    ∃ above below,
      windowLines wide all index = above ++ windowLines narrow all index ++ below := by
  obtain ⟨fromStart, toEnd⟩ := narrow.span_holds inside
  obtain ⟨noLater, noEarlier⟩ := covers
  simp only [windowLines]
  generalize (narrow.span index all.length).1 = first at fromStart noLater
  generalize (narrow.span index all.length).2 = past at toEnd noEarlier
  generalize (wide.span index all.length).1 = wideFirst at noLater
  generalize (wide.span index all.length).2 = widePast at noEarlier
  -- The wide window is taken in three parts: up to the narrow one, the narrow one, and the rest.
  refine ⟨(all.drop wideFirst).take (first - wideFirst), (all.drop past).take (widePast - past), ?_⟩
  have parts : widePast - wideFirst = first - wideFirst + (past - first) + (widePast - past) := by
    omega
  have start : wideFirst + (first - wideFirst) = first := by omega
  have stop : wideFirst + (first - wideFirst + (past - first)) = past := by omega
  rw [parts, List.take_add, List.take_add, List.drop_drop, List.drop_drop, start, stop]

/-- The window of a whole class is its whole body. -/
theorem unlines_windowLines_classBody (text : List Char) (index : Nat) :
    unlines (windowLines .classBody (lines text) index) = text := by
  -- From the first line, as many are taken as there are.
  simp only [windowLines, LockWindow.span, List.drop_zero, Nat.sub_zero, List.take_length,
    unlines_lines]

/-- A locking method is a public method with a lock in its window. -/
theorem lockingMethod?_eq_some_iff {window : LockWindow} {region : Region} {d : Declaration}
    {m : LockingMethod} :
    lockingMethod? window region d = some m ↔
      d.access = .pub ∧
      Vocabulary.hasLock (unlines (windowLines window (lines region.body) d.index)) = true ∧
      m = ⟨String.ofList d.name, region.firstLine + d.index + 1,
        Vocabulary.lockTags (unlines (windowLines window (lines region.body) d.index)),
        region.firstLine + (window.span d.index (lines region.body).length).2⟩ := by
  -- The tags are not empty exactly if the window has a lock.
  simp only [lockingMethod?, ← Vocabulary.lockTags_ne_nil_iff]
  split
  · rename_i locks
    simp [locks, eq_comm]
  · rename_i free
    simp only [reduceCtorEq, false_iff]
    exact fun ⟨pub, tags, _⟩ => free ⟨pub, tags⟩

/-- A method that locks within some window locks within every window that covers it. -/
theorem lockingMethod?_covers {narrow wide : LockWindow} {region : Region} {d : Declaration}
    (member : d ∈ declarations region)
    (covers : wide.Covers narrow d.index (lines region.body).length) {m : LockingMethod}
    (found : lockingMethod? narrow region d = some m) :
    ∃ w, lockingMethod? wide region d = some w ∧ m.Widened w := by
  obtain ⟨pub, locks, rfl⟩ := lockingMethod?_eq_some_iff.mp found
  have inside := index_lt_of_mem_declarations member
  -- The narrow window is a stretch of whole lines of the wide one, which has all of its tags.
  obtain ⟨above, below, shape⟩ := exists_windowLines inside covers
  have tags := Vocabulary.lockTags_window (windowLines_ne_nil narrow inside) above below
  rw [← shape] at tags
  have stillLocks : Vocabulary.hasLock
      (unlines (windowLines wide (lines region.body) d.index)) = true := by
    rw [← Vocabulary.lockTags_ne_nil_iff] at locks ⊢
    intro none
    rw [none] at tags
    exact locks (List.sublist_nil.mp tags)
  refine ⟨_, lockingMethod?_eq_some_iff.mpr ⟨pub, stillLocks, rfl⟩, rfl, rfl, tags, ?_⟩
  exact Nat.add_le_add_left covers.past _

/-- A method that locks within some window locks within the class, under its name and line. -/
theorem lockingMethod?_classBody {window : LockWindow} {region : Region} {d : Declaration}
    (member : d ∈ declarations region) {m : LockingMethod}
    (found : lockingMethod? window region d = some m) :
    ∃ whole, lockingMethod? .classBody region d = some whole ∧ whole.name = m.name ∧
      whole.line = m.line := by
  -- The window of the whole class covers every other one.
  have covers := window.classBody_covers (index_lt_of_mem_declarations member)
  obtain ⟨whole, inClass, widened⟩ := lockingMethod?_covers member covers found
  exact ⟨whole, inClass, widened.name.symm, widened.line.symm⟩

section Profiles

variable {file : String} {narrow wide : LockWindow}

/-- A class that matters for some window matters for every window that covers it. -/
theorem isRelevant_of_covers {region : Region}
    (covers : ∀ d ∈ declarations region, wide.Covers narrow d.index (lines region.body).length)
    (relevant : (profile file narrow region).isRelevant = true) :
    (profile file wide region).isRelevant = true := by
  simp only [ClassProfile.isRelevant, profile, Bool.or_eq_true, Bool.not_eq_true',
    List.isEmpty_eq_false_iff] at relevant ⊢
  refine relevant.imp id fun locking => ?_
  -- Any method that locks in the narrow window locks in the wide one.
  obtain ⟨m, member⟩ := List.exists_mem_of_ne_nil _ locking
  obtain ⟨d, declared, found⟩ := List.mem_filterMap.mp member
  obtain ⟨w, inWide, -⟩ := lockingMethod?_covers declared (covers d declared) found
  exact List.ne_nil_of_mem (List.mem_filterMap.mpr ⟨d, declared, inWide⟩)

/-- The classes that matter for some window are among those that matter for a wider one. -/
theorem profiles_sublist_of_covers {code : List Char}
    (covers : ∀ region ∈ Region.findAll code, ∀ d ∈ declarations region,
      wide.Covers narrow d.index (lines region.body).length) :
    ((profiles file narrow code).map fun p => (p.name, p.startLine)).Sublist
      ((profiles file wide code).map fun p => (p.name, p.startLine)) := by
  -- Name and line of a class do not depend on the window, so only the filters differ.
  simp only [profiles, List.filter_map, List.map_map]
  refine (Vocabulary.filter_sublist_filter fun region member relevant => ?_).map _
  exact isRelevant_of_covers (covers region member) relevant

end Profiles

end Scan

end LockDiscipline
