import LockDiscipline.Files.Glob
import LockDiscipline.Proofs.Files.Path

/-! The paths that patterns lead to: below one place, they differ by the names of the entries. -/

namespace LockDiscipline

/-- A name of an entry is no idle piece of a path, and has no slash in it. -/
def FileTree.IsName (name : String) : Prop :=
  Path.isIdle name = false ∧ '/' ∉ name.toList

instance (name : String) : Decidable (FileTree.IsName name) :=
  inferInstanceAs (Decidable (_ ∧ _))

/-- A tree in which every entry has a name that it can have. -/
def FileTree.Named (tree : FileTree) : Prop :=
  ∀ entry ∈ tree.entries, ∀ name ∈ entry.1, IsName name

instance (tree : FileTree) : Decidable tree.Named :=
  inferInstanceAs (Decidable (∀ _ ∈ _, _))

/-- What stands below a place is an entry of the tree, under further names. -/
theorem FileTree.mem_below {tree : FileTree} {place names : List String} {entry : Entry}
    (member : (names, entry) ∈ tree.below place) :
    names ≠ [] ∧ (place ++ names, entry) ∈ tree.entries := by
  -- An entry is below the place if its names start with those of the place.
  obtain ⟨⟨whole, stored⟩, inTree, read⟩ := List.mem_filterMap.mp member
  dsimp only at read
  split at read
  · -- The names of the entry start with those of the place, and go on behind them.
    rename_i first rest behind
    obtain ⟨rfl, rfl⟩ := Prod.mk.inj (Option.some.inj read)
    refine ⟨by simp, ?_⟩
    rwa [← Text.dropOpening?_eq_some_iff.mp behind]
  · simp at read

namespace Path

open FileTree (IsName)

/-- A name is one component, and is spelled like it. -/
theorem component?_of_isName {name : String} (named : IsName name) :
    ∃ step, component? name = some step ∧ step.spelling = name := by
  -- A name is not idle, so it reads as the step back or as itself.
  unfold component?
  rw [if_neg (by simp [named.1])]
  split
  · rename_i parent
    exact ⟨.parent, rfl, (beq_iff_eq.mp parent).symm⟩
  · exact ⟨.name name, rfl, rfl⟩

/-- The path of an entry below a path has one component more. -/
theorem components_child (p : Path) {name : String} (named : IsName name) {step : Component}
    (read : component? name = some step) : (p.child name).components = p.components ++ [step] := by
  obtain ⟨above, pieces, shape⟩ := pieces_child p named.2
  -- An empty piece at the end of the path is no step of it.
  have steps : p.pieces.filterMap component? = above.filterMap component? := by
    rcases shape with shape | shape
    · rw [shape]
    · have idle : component? "" = none := rfl
      rw [shape, List.filterMap_append, List.filterMap_cons_none idle, List.filterMap_nil,
        List.append_nil]
  -- A leading dot stays the first piece, and the name is no dot.
  have dot : ((above ++ [name]).head? == some ".") = (p.pieces.head? == some ".") := by
    cases above with
    | nil =>
      have notDot : name ≠ "." := by
        rintro rfl
        exact absurd named.1 (by decide)
      rcases shape with shape | shape
      · exact absurd shape p.pieces_ne_nil
      · simp [shape, notDot]
    | cons first rest => rcases shape with shape | shape <;> simp [shape]
  -- With the same start, the two paths differ by the step of the name.
  unfold components
  rw [isAbsolute_child p named.2, pieces, List.filterMap_append, List.filterMap_cons_some read,
    List.filterMap_nil, ← steps, dot]
  split
  · rfl
  · split <;> rfl

/-- The path of an entry further below has its names as further components. -/
theorem components_foldl_child {names : List String} (named : ∀ name ∈ names, IsName name)
    (p : Path) :
    (names.foldl child p).components = p.components ++ names.filterMap component? := by
  -- Every name on the way is one component more, as it is for a single one.
  induction names generalizing p with
  | nil => simp
  | cons name names ih =>
    obtain ⟨here, there⟩ := List.forall_mem_cons.mp named
    obtain ⟨step, read, -⟩ := component?_of_isName here
    rw [List.foldl_cons, ih there, components_child p here read, List.filterMap_cons_some read,
      List.append_assoc, List.singleton_append]

/-- Names are told apart by their components. -/
theorem map_spelling_filterMap {names : List String} (named : ∀ name ∈ names, IsName name) :
    (names.filterMap component?).map Component.spelling = names := by
  -- Each name reads as one component, which is spelled like it.
  induction names with
  | nil => rfl
  | cons name names ih =>
    obtain ⟨here, there⟩ := List.forall_mem_cons.mp named
    obtain ⟨step, read, spelled⟩ := component?_of_isName here
    rw [List.filterMap_cons_some read, List.map_cons, spelled, ih there]

end Path

namespace Glob

open FileTree (IsName)

/-- Where the names below a path start: the current directory is not written in front of them. -/
def origin (path : Path) : Path :=
  if path.sameAs ⟨"."⟩ then ⟨""⟩ else path

/-- The path of an exact name below a path. -/
theorem child_origin (path : Path) (name : String) :
    (origin path).child name = if path.sameAs ⟨"."⟩ then ⟨name⟩ else path.child name := by
  -- Only the current directory is not written, so only there the name stands alone.
  unfold origin
  split
  · simp [Path.child, Path.join]
  · rfl

/-- The path of an entry is that of the names that lead to it. -/
theorem childPath_eq (directory : Path) {names : List String} (inhabited : names ≠ []) :
    -- Only in front of the first name it matters how the directory is written.
    childPath directory names = names.foldl Path.child (origin directory) := by
  -- The first name is joined to the directory, the others to what comes before them.
  cases names with
  | nil => exact absurd rfl inhabited
  | cons first rest => rw [childPath, List.foldl_cons, child_origin]

/-- Entries below one directory are named alike if their paths have the same components. -/
theorem eq_of_components_childPath {directory : Path} {names others : List String}
    (inhabited : names ≠ []) (inhabitedToo : others ≠ [])
    (named : ∀ name ∈ names, IsName name) (namedToo : ∀ name ∈ others, IsName name)
    (alike : (childPath directory names).components = (childPath directory others).components) :
    names = others := by
  -- Both paths start with the components of the directory, and the names are what follows them.
  rw [childPath_eq directory inhabited, childPath_eq directory inhabitedToo,
    Path.components_foldl_child named, Path.components_foldl_child namedToo,
    List.append_cancel_left_eq] at alike
  rw [← Path.map_spelling_filterMap named, alike, Path.map_spelling_filterMap namedToo]

/-- What stands below a directory of a named tree has names. -/
theorem names_of_mem_descendants {ws : Workspace} (tree : ws.tree.Named) {directory : Path}
    {names : List String} {found : Path} {entry : Entry}
    (member : (names, found, entry) ∈ descendants ws directory) :
    names ≠ [] ∧ (∀ name ∈ names, IsName name) ∧ found = childPath directory names := by
  -- A directory that is found has its entries listed by their names; any other path has none.
  unfold descendants at member
  split at member
  · rename_i place located
    obtain ⟨⟨below, stored⟩, inTree, shown⟩ := List.mem_map.mp member
    obtain ⟨rfl, rfl, rfl⟩ :
        below = names ∧ childPath directory below = found ∧ stored = entry := by
      simpa using shown
    obtain ⟨inhabited, stands⟩ := FileTree.mem_below inTree
    exact ⟨inhabited, fun name among => tree _ stands name (List.mem_append_right place among), rfl⟩
  · simp at member

/-- Only two stars stand for any number of directories. -/
theorem eq_of_parse?_eq_anyDepth {text : String} (read : Part.parse? text = some .anyDepth) :
    text = "**" := by
  -- A part is two stars, or it is read token by token, and then it stands for names.
  unfold Part.parse? at read
  split at read
  · rename_i stars
    exact beq_iff_eq.mp stars
  · obtain ⟨tokens, -, shown⟩ := Option.bind_eq_some_iff.mp read
    split at shown <;> simp at shown

/-- Exact names lead to one path, or nowhere. -/
theorem expand_exactly (ws : Workspace) (names : List String) (rest : List Part) (path : Path) :
    expand ws (names.map .exactly ++ rest) path =
        expand ws rest (names.foldl (fun p => (origin p).child) path) ∨
      expand ws (names.map .exactly ++ rest) path = [] := by
  -- The names are followed one by one; the path so far is where the next one is looked for.
  induction names generalizing path with
  | nil => exact .inl rfl
  | cons name names ih =>
    -- Either there is something under the name and the search goes on, or it ends here.
    simp only [List.map_cons, List.cons_append, expand, ← child_origin]
    by_cases present : (if (name == "." || name == "..") = true then ws.hasDirectory path
        else ws.hasEntry ((origin path).child name)) = true
    · rw [if_pos present]
      exact ih _
    · rw [if_neg present]
      exact .inr rfl

/-- Below any number of directories, a part leads to entries further down. -/
theorem mem_expand_anyDepth {ws : Workspace} {part : Part} (single : part ≠ .anyDepth)
    {path found : Path} (member : found ∈ expand ws [.anyDepth, part] path) :
    ∃ below ∈ descendants ws path, below.2.1 = found := by
  -- Any part but another pair of stars is asked of the last name of each entry below.
  have leads : ∃ below ∈ descendants ws path,
      found ∈ if below.1.getLast?.any part.allows then expand ws [] below.2.1 else [] := by
    cases part with
    | anyDepth => exact absurd rfl single
    | exactly name => simpa only [expand, List.mem_flatMap] using member
    | names tokens => simpa only [expand, List.mem_flatMap] using member
  obtain ⟨below, stands, shown⟩ := leads
  split at shown
  · exact ⟨below, stands, by simpa [expand, eq_comm] using shown⟩
  · simp at shown

end Glob

end LockDiscipline
