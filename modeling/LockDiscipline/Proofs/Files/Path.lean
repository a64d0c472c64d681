import LockDiscipline.Files.Path
import LockDiscipline.Proofs.Text.Lines

/-! Laws of paths: their pieces, the entries below them and the paths above them. -/

namespace LockDiscipline.Path

/-- Every path has a piece. -/
@[simp] theorem pieces_ne_nil (p : Path) : p.pieces ≠ [] := by
  simp [pieces]

/-- No piece of a path holds a slash. -/
theorem slash_not_mem {p : Path} {piece : String} (member : piece ∈ p.pieces) :
    '/' ∉ piece.toList := by
  -- Pieces come from splitting at slashes, which leaves none inside a part.
  obtain ⟨chars, split, rfl⟩ := List.mem_map.mp member
  rw [String.toList_ofList]
  exact Text.not_mem_of_mem_splitOn split

/-- A path is its pieces with slashes between them. -/
theorem text_eq_intercalate (p : Path) : p.text = "/".intercalate p.pieces := by
  -- Splitting at slashes and putting slashes between the parts undo each other.
  apply String.toList_inj.mp
  rw [String.toList_intercalate, pieces, List.map_map]
  have undone : String.toList ∘ String.ofList = id := funext fun chars => String.toList_ofList
  rw [undone, List.map_id]
  exact (List.intercalate_splitOn '/').symm

/-- Pieces without slashes are the pieces of the path that they make up. -/
theorem pieces_intercalate {parts : List String} (inhabited : parts ≠ [])
    (clear : ∀ part ∈ parts, '/' ∉ part.toList) :
    pieces ⟨"/".intercalate parts⟩ = parts := by
  -- On lists of characters this is the law of splitting what was put together.
  have split : (['/'].intercalate (parts.map String.toList)).splitOn '/' =
      parts.map String.toList := by
    refine List.splitOn_intercalate '/' ?_ (by simpa using inhabited)
    intro chars member
    obtain ⟨part, among, rfl⟩ := List.mem_map.mp member
    exact clear part among
  have undone : String.ofList ∘ String.toList = id := funext fun text => String.ofList_toList
  rw [pieces, String.toList_intercalate]
  show ((['/'].intercalate (parts.map String.toList)).splitOn '/').map String.ofList = parts
  rw [split, List.map_map, undone, List.map_id]

/-- A text without slashes is one piece. -/
theorem pieces_of_not_mem {text : String} (clear : '/' ∉ text.toList) : pieces ⟨text⟩ = [text] := by
  -- There is no slash to split the text at.
  rw [pieces, List.splitOn_eq_singleton clear, List.map_singleton, String.ofList_toList]

/-- The last piece is empty only if the path is empty or ends with a slash. -/
theorem last_piece {p : Path} {above : List String} (shape : p.pieces = above ++ [""]) :
    p.text = "" ∨ p.text.toList.getLast? = some '/' := by
  -- Of several pieces, an empty last one means that a slash is the last thing written.
  have text := p.text_eq_intercalate
  rw [shape] at text
  by_cases alone : above = []
  · -- A single empty piece is the empty path.
    exact .inl (by simpa [alone] using text)
  · rw [String.intercalate_append_of_ne_nil alone (by simp)] at text
    exact .inr (by simp [text])

/-- A path that does not end with a slash has no empty pieces at its end. -/
theorem dropWhile_reverse_pieces {p : Path} (inhabited : p.text ≠ "")
    (unclosed : p.text.toList.getLast? ≠ some '/') :
    p.pieces.reverse.dropWhile (· == "") = p.pieces.reverse := by
  -- Only the last piece is asked about: if it is not empty, nothing is dropped.
  cases shape : p.pieces.reverse with
  | nil => rfl
  | cons last above =>
    have named : last ≠ "" := by
      -- An empty last piece would contradict one of the two assumptions about the text.
      rintro rfl
      have pieces : p.pieces = above.reverse ++ [""] := by
        rw [← List.reverse_cons, ← shape, List.reverse_reverse]
      exact (last_piece pieces).elim inhabited unclosed
    simp [named]

/-- An absolute path is one whose first piece is empty and not its only piece. -/
theorem isAbsolute_iff (p : Path) :
    p.isAbsolute = true ↔ p.pieces.head? = some "" ∧ 1 < p.pieces.length := by
  -- The first character decides whether the first piece is empty and whether others follow it.
  unfold isAbsolute pieces
  cases p.text.toList with
  | nil => simp
  | cons c rest =>
    rw [List.splitOn_cons_eq_if_modifyHead]
    obtain ⟨first, others, shape⟩ := List.exists_cons_of_ne_nil (List.splitOn_ne_nil '/' rest)
    by_cases slash : c = '/'
    · simp [slash, shape]
    · simp [slash, shape]

/-- A path of one piece is not absolute. -/
theorem isAbsolute_of_not_mem {text : String} (clear : '/' ∉ text.toList) :
    isAbsolute ⟨text⟩ = false := by
  -- The one piece would have to be the first of several.
  rw [← Bool.not_eq_true, isAbsolute_iff, pieces_of_not_mem clear]
  simp

/-- An entry below a path starts where the path starts. -/
theorem isAbsolute_child (p : Path) {name : String} (clear : '/' ∉ name.toList) :
    (p.child name).isAbsolute = p.isAbsolute := by
  -- A name without slashes is not absolute, so it does not replace the path it is put below.
  unfold child join
  rw [isAbsolute_of_not_mem clear, Bool.false_or]
  by_cases empty : p.text = ""
  · -- Below the empty path the name stands alone, and neither starts at the root.
    have nowhere : p.isAbsolute = false := by simp [isAbsolute, empty]
    rw [nowhere, if_pos (String.isEmpty_iff.mpr empty), isAbsolute_of_not_mem clear]
  · -- The text of the path stands in front, so its first character is the first one.
    obtain ⟨c, rest, shape⟩ :=
      List.exists_cons_of_ne_nil (fun none => empty (String.toList_eq_nil_iff.mp none))
    simp only [String.isEmpty_iff, empty, if_false]
    split <;> simp [isAbsolute, shape]

/-- The text of an entry below a path has at most a slash between the path and the name. -/
theorem text_child (p : Path) {name : String} (clear : '/' ∉ name.toList) :
    ∃ between ∈ ["", "/"], (p.child name).text = p.text ++ between ++ name := by
  unfold child join
  rw [isAbsolute_of_not_mem clear, Bool.false_or]
  by_cases empty : p.text = ""
  · -- Nothing stands in front of the name, so there is no slash to write.
    exact ⟨"", by simp, by simp [empty]⟩
  · -- A slash is written unless the path already ends with one.
    simp only [String.isEmpty_iff, empty, if_false]
    split
    · exact ⟨"", by simp, by simp⟩
    · exact ⟨"/", by simp, rfl⟩

/-- The pieces of an entry below a path are those of the path, an empty last one aside. -/
theorem pieces_child (p : Path) {name : String} (clear : '/' ∉ name.toList) :
    ∃ above, (p.child name).pieces = above ++ [name] ∧
      (p.pieces = above ∨ p.pieces = above ++ [""]) := by
  unfold child join
  rw [isAbsolute_of_not_mem clear, Bool.false_or]
  by_cases empty : p.text = ""
  · -- Nothing stands in front of the name.
    refine ⟨[], ?_, .inr ?_⟩
    · simp [empty, pieces_of_not_mem clear]
    · simp [pieces, empty]
  · simp only [String.isEmpty_iff, empty, if_false]
    split
    · -- The slash at the end of the path is the one in front of the name.
      rename_i slash
      obtain ⟨front, shape⟩ := List.getLast?_eq_some_iff.mp (beq_iff_eq.mp slash)
      refine ⟨(front.splitOn '/').map String.ofList, ?_, .inr ?_⟩
      · have joined : (p.text ++ name).toList = front ++ '/' :: name.toList := by
          simp [shape]
        rw [pieces, joined, List.splitOn_append_cons_self, List.splitOn_eq_singleton clear]
        simp
      · rw [pieces, shape, List.splitOn_append_cons_self]
        simp
    · -- Otherwise a slash is put between them.
      refine ⟨p.pieces, ?_, .inl rfl⟩
      have joined : (p.text ++ "/" ++ name).toList = p.text.toList ++ '/' :: name.toList := by
        simp
      rw [pieces, joined, List.splitOn_append_cons_self, List.splitOn_eq_singleton clear]
      simp [pieces]

/-- The pieces of a path that lead somewhere. -/
def steps (p : Path) : List String :=
  p.pieces.filter (!isIdle ·)

/-- What is dropped from the end of pieces is idle; what is left is one piece or ends in a step. -/
theorem exists_dropIdleEnd {all : List String} (inhabited : all ≠ []) :
    ∃ first kept idle, dropIdleEnd all = first :: kept ∧ all = first :: kept ++ idle ∧
      (∀ piece ∈ idle, isIdle piece = true) ∧
      (kept = [] ∨ ∃ front last, kept = front ++ [last] ∧ isIdle last = false) := by
  -- The first piece is kept in any case; idle ones are dropped from the end of the rest.
  obtain ⟨first, rest, rfl⟩ := List.exists_cons_of_ne_nil inhabited
  refine ⟨first, _, (rest.reverse.takeWhile isIdle).reverse, rfl, ?_, ?_, ?_⟩
  · rw [List.cons_append, ← List.reverse_append, List.takeWhile_append_dropWhile,
      List.reverse_reverse]
  · intro piece member
    exact List.all_eq_true.mp List.all_takeWhile piece (List.mem_reverse.mp member)
  · -- Dropping stopped at a piece that is not idle, or took everything.
    cases kept : rest.reverse.dropWhile isIdle with
    | nil => exact .inl rfl
    | cons last front =>
      refine .inr ⟨front.reverse, last, List.reverse_cons, ?_⟩
      have stopped := List.head?_dropWhile_not isIdle rest.reverse
      simpa [kept] using stopped

/-- Idle pieces are no steps. -/
theorem filter_idle {idle : List String} (all : ∀ piece ∈ idle, isIdle piece = true) :
    idle.filter (!isIdle ·) = [] := by
  rw [List.filter_eq_nil_iff]
  -- Steps are the pieces that are not idle, and here all of them are.
  intro piece member
  simp [all piece member]

/-- How a path lies directly above another one, as both are written. -/
structure LiesAbove (q p : Path) : Prop where
  /-- The last step is missing. -/
  steps : q.steps = p.steps.dropLast
  isAbsolute : q.isAbsolute = p.isAbsolute
  pieces : ∀ piece ∈ q.pieces, piece = "" ∨ piece ∈ p.pieces
  /-- Nothing else is respelled. -/
  opening : ∃ rest, p.text = q.text ++ rest

/-- A path with no path above it has no steps. -/
theorem steps_of_parent?_eq_none {p : Path} (top : p.parent? = none) : p.steps = [] := by
  -- The pieces are cut as the path above does it; that path is missing only if nothing is left.
  obtain ⟨first, kept, idle, dropped, whole, allIdle, -⟩ := exists_dropIdleEnd p.pieces_ne_nil
  unfold parent? at top
  rw [dropped] at top
  split at top
  · rename_i none
    cases none
  · -- All that is left is the empty piece in front.
    rename_i alone
    obtain ⟨rfl, rfl⟩ := List.cons.inj alone
    rw [steps, whole, List.singleton_append, List.filter_cons, filter_idle allIdle]
    rfl
  · split at top <;> cases top

/-- The path above a path of one piece is the empty one. -/
theorem liesAbove_empty {p : Path} {first : String} {idle : List String} (named : first ≠ "")
    (whole : p.pieces = first :: idle) (allIdle : ∀ piece ∈ idle, isIdle piece = true) :
    LiesAbove ⟨""⟩ p where
  steps := by
    -- Without idle pieces there is at most one step, and taking it off leaves none.
    rw [steps, steps, whole, List.filter_cons, filter_idle allIdle]
    cases isIdle first <;> simp [Path.pieces] <;> decide
  isAbsolute := by
    -- Neither path starts at the root, as neither has an empty piece in front of others.
    rw [Bool.eq_iff_iff, isAbsolute_iff, isAbsolute_iff, whole]
    simp [Path.pieces, named]
  pieces piece member := .inl (by simpa [Path.pieces] using member)
  opening := ⟨p.text, by simp⟩

/-- The path above a path of several pieces is made up of those before the last step. -/
theorem liesAbove_pieces {p : Path} {front between after : List String} {last : String}
    (whole : p.pieces = front ++ between ++ last :: after)
    (betweenIdle : ∀ piece ∈ between, isIdle piece = true) (step : isIdle last = false)
    (afterIdle : ∀ piece ∈ after, isIdle piece = true) (inhabited : front ≠ []) :
    LiesAbove (if front = [""] then ⟨"/"⟩ else ⟨"/".intercalate front⟩) p := by
  -- Idle pieces are no steps, so the one step behind the front is the last one.
  have remaining : p.steps.dropLast = front.filter (!isIdle ·) := by
    simp [steps, whole, filter_idle betweenIdle, filter_idle afterIdle, step]
  -- The front is written as it is in the whole path, up to the slash behind it.
  have text : p.text =
      "/".intercalate front ++ "/" ++ "/".intercalate (between ++ last :: after) := by
    rw [p.text_eq_intercalate, whole, List.append_assoc,
      String.intercalate_append_of_ne_nil inhabited (by simp)]
  by_cases root : front = [""]
  · -- Only the root is left, which is written as a slash.
    rw [if_pos root]
    have pieces : Path.pieces ⟨"/"⟩ = ["", ""] := by decide
    refine ⟨?_, ?_, fun piece member => .inl ?_, "/".intercalate (between ++ last :: after), ?_⟩
    · rw [remaining, root, steps, pieces]
      decide
    · have several : 1 < ([""] ++ between ++ last :: after).length := by
        rw [List.length_append, List.length_append, List.length_cons, List.length_cons]
        omega
      rw [Bool.eq_iff_iff, isAbsolute_iff, isAbsolute_iff, whole, root, pieces]
      exact iff_of_true ⟨rfl, by decide⟩ ⟨rfl, several⟩
    · simpa [pieces] using member
    · rw [text, root, String.intercalate_singleton, String.empty_append]
  · rw [if_neg root]
    have pieces : Path.pieces ⟨"/".intercalate front⟩ = front := by
      refine pieces_intercalate inhabited fun part member => slash_not_mem (p := p) ?_
      simp [whole, member]
    refine ⟨?_, ?_, fun piece member => .inr ?_, _, by rw [text, String.append_assoc]⟩
    · -- The steps of the front are those of the path without the last.
      rw [remaining, steps, pieces]
    · -- Both start with the same piece, and an empty one is not alone in either.
      obtain ⟨first, rest, rfl⟩ := List.exists_cons_of_ne_nil inhabited
      rw [Bool.eq_iff_iff, isAbsolute_iff, isAbsolute_iff, whole, pieces]
      cases rest with
      | nil => simp_all
      | cons second others => simp
    · rw [pieces] at member
      simp [whole, member]

/-- The path above a path lies above it. -/
theorem liesAbove_of_parent? {p q : Path} (above : p.parent? = some q) : q.LiesAbove p := by
  obtain ⟨first, kept, after, dropped, whole, afterIdle, shape⟩ :=
    exists_dropIdleEnd p.pieces_ne_nil
  -- The path above is computed from the pieces without the idle ones at their end.
  unfold parent? at above
  rw [dropped] at above
  split at above
  · cases above
  · cases above
  · rename_i notEmpty
    rcases shape with rfl | ⟨front, last, rfl, step⟩
    · -- One piece is left: nothing is written above it but the empty path.
      obtain rfl : (⟨""⟩ : Path) = q := Option.some.inj above
      exact liesAbove_empty (fun same => notEmpty (by rw [same])) whole afterIdle
    · -- What is left after the last step is again stripped of idle pieces at its end.
      obtain ⟨_, inner, between, dropped, split, betweenIdle, -⟩ :=
        exists_dropIdleEnd (List.cons_ne_nil first front)
      rw [← List.cons_append, List.dropLast_concat, dropped] at above
      rw [← List.cons_append, split, List.append_assoc, List.singleton_append] at whole
      have lies := liesAbove_pieces whole betweenIdle step afterIdle (List.cons_ne_nil _ inner)
      -- The root alone is written in a way of its own, in the path above as in the lemma.
      split at above
      · rename_i root
        rwa [if_pos root, Option.some.inj above] at lies
      · rename_i notRoot
        rwa [if_neg notRoot, Option.some.inj above] at lies

end LockDiscipline.Path
