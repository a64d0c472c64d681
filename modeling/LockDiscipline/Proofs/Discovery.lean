import LockDiscipline.Discovery
import LockDiscipline.Proofs.Files.Glob
import LockDiscipline.Proofs.Files.Order
import LockDiscipline.Proofs.Repetition

/-! Discovery neither loses nor repeats a file, and does not depend on the order of extensions. -/

namespace LockDiscipline.Discovery

open Glob

/-- The paths that no earlier path equals component by component, each as written there. -/
def firstSpellings (paths : List Path) : List Path :=
  (paths.zipIdx.filter fun found =>
    (paths.take found.2).all fun earlier => earlier.components != found.1.components).map (·.1)

/-- The files below a directory are spelled in one way, whatever extension they are found by. -/
def OneSpelling (ws : Workspace) (extensions : List String) (directory : Path) : Prop :=
  ∀ e ∈ extensions, ∀ f ∈ extensions, ∀ p ∈ withExtension ws directory e,
    ∀ q ∈ withExtension ws directory f, p.components = q.components → p = q

/-- Of paths that are the same, the first one is kept. -/
theorem eraseDupsBy_sameAs (paths : List Path) :
    paths.eraseDupsBy Path.sameAs = firstSpellings paths := by
  -- The paths are taken from the end, where the last one is kept if no earlier one is the same.
  induction paths using List.reverseRecOn with
  | nil => rfl
  | append_singleton paths last ih =>
    have new : (∀ earlier ∈ paths, last.sameAs earlier = false) ↔
        (paths.all fun earlier => earlier.components != last.components) = true := by
      simp [Path.sameAs, @eq_comm _ last.components]
    -- One path more at the end changes nothing about those before it.
    have before : (paths.zipIdx.filter fun found => ((paths ++ [last]).take found.2).all
          fun earlier => earlier.components != found.1.components) =
        paths.zipIdx.filter fun found => (paths.take found.2).all
          fun earlier => earlier.components != found.1.components := by
      refine List.filter_congr fun found member => ?_
      have inside : found.2 ≤ paths.length := Nat.le_of_lt (List.snd_lt_of_mem_zipIdx member)
      rw [List.take_append_of_le_length inside]
    rw [eraseDupsBy_concat Path.sameAs_iff, ih, firstSpellings, firstSpellings, List.zipIdx_append,
      List.filter_append, before, List.map_append]
    simp only [new, List.zipIdx_cons, List.zipIdx_nil, List.filter_cons, List.filter_nil,
      Nat.zero_add, List.take_left]
    split <;> simp

/-- No two of the paths that are kept have the same components. -/
theorem pairwise_components (paths : List Path) :
    (paths.eraseDupsBy Path.sameAs).Pairwise fun p q => p.components ≠ q.components := by
  -- Dropping repetitions leaves no two paths that are the same in either direction.
  refine (pairwise_eraseDupsBy paths).imp fun {p q} apart alike => ?_
  rw [(Path.sameAs_iff q p).mpr alike.symm] at apart
  exact absurd apart (by simp)

/-- The files that the extensions lead to, in the order of paths. -/
def sortedFiles (ws : Workspace) (extensions : List String) (directory : Path) : List Path :=
  (extensions.flatMap (withExtension ws directory)).mergeSort Path.le

/-- The files that the extensions lead to are in the order of paths. -/
theorem pairwise_sortedFiles (ws : Workspace) (extensions : List String) (directory : Path) :
    (sortedFiles ws extensions directory).Pairwise fun p q => p.le q = true :=
  -- The files were sorted by this order.
  List.pairwise_mergeSort Path.le_trans Path.le_total _

/-- Repetitions among the files below a directory are adjacent, so all of them are left out. -/
theorem expandDirectory_eq (ws : Workspace) (extensions : List String) (directory : Path) :
    expandDirectory ws extensions directory =
      (sortedFiles ws extensions directory).eraseDupsBy Path.sameAs :=
  -- In a sorted list equal paths stand side by side.
  eraseRepsBy_eq_eraseDupsBy Path.sameAs_iff (fun _ _ => Path.componentsLe_antisymm)
    (pairwise_sortedFiles ws extensions directory)

/-- The files below a directory are strictly increasing. -/
theorem pairwise_expandDirectory (ws : Workspace) (extensions : List String) (directory : Path) :
    (expandDirectory ws extensions directory).Pairwise Path.Precedes := by
  -- What is left of a sorted list is sorted, and its repetitions are gone.
  rw [expandDirectory_eq]
  have ordered := (pairwise_sortedFiles ws extensions directory).sublist
    (eraseDupsBy_sublist Path.sameAs _)
  exact ordered.and (pairwise_components _)

/-- A file below a directory is found by one of the extensions. -/
theorem exists_extension {ws : Workspace} {extensions : List String} {directory p : Path}
    (member : p ∈ expandDirectory ws extensions directory) :
    ∃ e ∈ extensions, p ∈ withExtension ws directory e := by
  -- Neither sorting nor dropping repetitions adds a file.
  rw [expandDirectory_eq] at member
  exact List.mem_flatMap.mp (List.mem_mergeSort.mp (mem_of_mem_eraseDupsBy member))

/-- What one of the extensions finds is among the files below the directory. -/
theorem exists_mem_expandDirectory {ws : Workspace} {extensions : List String} {directory p : Path}
    {e : String} (known : e ∈ extensions) (found : p ∈ withExtension ws directory e) :
    ∃ q ∈ expandDirectory ws extensions directory, q.components = p.components := by
  -- Sorting loses nothing, and of equal paths some spelling is kept.
  rw [expandDirectory_eq]
  exact exists_mem_eraseDupsBy Path.sameAs_iff
    (List.mem_mergeSort.mpr (List.mem_flatMap.mpr ⟨e, known, found⟩))

/-- The components of the files below a directory are those of what the extensions find. -/
theorem mem_components_expandDirectory {ws : Workspace} {extensions : List String}
    {directory : Path} {steps : List Component} :
    steps ∈ (expandDirectory ws extensions directory).map Path.components ↔
      ∃ e ∈ extensions, ∃ p ∈ withExtension ws directory e, p.components = steps := by
  constructor
  · -- Everything kept was found, so its components are those of something found.
    intro member
    obtain ⟨p, among, rfl⟩ := List.mem_map.mp member
    obtain ⟨e, known, found⟩ := exists_extension among
    exact ⟨e, known, p, found, rfl⟩
  · -- What is found may be kept in another spelling, which has the same components.
    rintro ⟨e, known, p, found, rfl⟩
    obtain ⟨q, among, alike⟩ := exists_mem_expandDirectory known found
    exact List.mem_map.mpr ⟨q, among, alike⟩

/-- The files below a directory depend on the extensions, not on how they are listed. -/
theorem components_expandDirectory_congr {extensions others : List String}
    (alike : ∀ e, e ∈ others ↔ e ∈ extensions) (ws : Workspace) (directory : Path) :
    (expandDirectory ws others directory).map Path.components =
      (expandDirectory ws extensions directory).map Path.components := by
  have sorted (listed : List String) :
      ((expandDirectory ws listed directory).map Path.components).Pairwise fun xs ys =>
        Path.componentsLe xs ys = true ∧ xs ≠ ys :=
    List.pairwise_map.mpr (pairwise_expandDirectory ws listed directory)
  have nodup (listed : List String) :
      ((expandDirectory ws listed directory).map Path.components).Nodup :=
    (sorted listed).imp And.right
  -- Two increasing lists of the same components can only be equal.
  have perm := (List.perm_ext_iff_of_nodup (nodup others) (nodup extensions)).mpr fun steps => by
    rw [mem_components_expandDirectory, mem_components_expandDirectory]
    simp only [alike]
  exact perm.eq_of_pairwise (fun xs ys _ _ first second => Path.componentsLe_antisymm first second)
    ((sorted others).imp And.left) ((sorted extensions).imp And.left)

/-- Lists that a map makes equal are equal if it is injective on their items. -/
theorem eq_of_map_eq {α β : Type} {f : α → β} {first second : List α}
    (injective : ∀ x ∈ first, ∀ y ∈ second, f x = f y → x = y)
    (alike : first.map f = second.map f) : first = second := by
  -- The two lists have one length, and are compared item by item.
  induction first generalizing second with
  | nil => simpa using alike.symm
  | cons x first ih =>
    cases second with
    | nil => simp at alike
    | cons y second =>
      rw [List.map_cons, List.map_cons, List.cons.injEq] at alike
      rw [injective x List.mem_cons_self y List.mem_cons_self alike.1,
        ih (fun a here b there => injective a (.tail x here) b (.tail y there)) alike.2]

/-- If files are spelled in one way, even the spellings do not depend on the list of extensions. -/
theorem expandDirectory_congr {extensions others : List String}
    (alike : ∀ e, e ∈ others ↔ e ∈ extensions) {ws : Workspace} {directory : Path}
    (spelled : OneSpelling ws extensions directory) :
    expandDirectory ws others directory = expandDirectory ws extensions directory := by
  refine eq_of_map_eq (fun p first q second same => ?_)
    (components_expandDirectory_congr alike ws directory)
  -- Whichever extensions find two equal paths, the two are spelled in one way.
  obtain ⟨e, known, found⟩ := exists_extension first
  obtain ⟨f, knownToo, foundToo⟩ := exists_extension second
  exact spelled e ((alike e).mp known) f knownToo p found q foundToo same

/-- The pieces of a directory as they stand in the patterns for the files below it. -/
def directoryNames (directory : Path) : List String :=
  if directory.isAbsolute then directory.pieces.drop 1 else directory.pieces

/-- An extension without a slash asks for one name, any number of directories further down. -/
theorem pattern?_eq_some {directory : Path} {extension : String} {parts : List Part}
    (plain : '/' ∉ extension.toList) (read : pattern? directory extension = some parts) :
    ∃ part ≠ Part.anyDepth,
      parts = (directoryNames directory).map .exactly ++ [.anyDepth, part] := by
  -- Without a slash, the star and the extension are written as a single piece.
  have whole : Path.pieces ⟨"*." ++ String.ofList (extension.toList.dropWhile (· == '.'))⟩ =
      ["*." ++ String.ofList (extension.toList.dropWhile (· == '.'))] := by
    refine Path.pieces_of_not_mem ?_
    have rest : '/' ∉ extension.toList.dropWhile (· == '.') :=
      fun member => plain ((List.dropWhile_sublist _).subset member)
    simpa using rest
  -- The pattern is that piece below the names of the directory, with any depth between them.
  simp only [pattern?, whole] at read
  obtain ⟨wanted, named, shown⟩ := Option.bind_eq_some_iff.mp read
  obtain ⟨part, parsed, rfl⟩ : ∃ part, Part.parse? _ = some part ∧ [part] = wanted := by
    simpa [Option.bind_eq_some_iff] using named
  refine ⟨part, ?_, by simpa [directoryNames] using shown.symm⟩
  -- Behind the star of the pattern comes a dot, not a second star.
  rintro rfl
  have stars := congrArg String.toList (eq_of_parse?_eq_anyDepth parsed)
  simp at stars

/-- The path from which the files below a directory are looked for. -/
def base (directory : Path) : Path :=
  (directoryNames directory).foldl (fun p => (origin p).child)
    ⟨if directory.isAbsolute then "/" else "."⟩

/-- A file that an extension without a slash leads to is named from one path of the directory. -/
theorem exists_names {ws : Workspace} (tree : ws.tree.Named) {directory : Path} {extension : String}
    (plain : '/' ∉ extension.toList) {p : Path} (found : p ∈ withExtension ws directory extension) :
    ∃ names, names ≠ [] ∧ (∀ name ∈ names, FileTree.IsName name) ∧
      p = childPath (base directory) names := by
  -- A pattern that cannot be read finds nothing.
  unfold withExtension at found
  split at found
  · rename_i parts read
    obtain ⟨part, single, rfl⟩ := pattern?_eq_some plain read
    have reached := (List.mem_filter.mp found).1
    -- The names of the directory lead to one path, from which all entries below it are named.
    rcases expand_exactly ws (directoryNames directory) [.anyDepth, part]
      ⟨if directory.isAbsolute then "/" else "."⟩ with leads | nowhere
    · rw [leads] at reached
      obtain ⟨below, stands, rfl⟩ := mem_expand_anyDepth single reached
      exact ⟨below.1, names_of_mem_descendants tree stands⟩
    · simp [nowhere] at reached
  · simp at found

/-- In a tree of named entries, extensions without slashes spell every file in one way. -/
theorem oneSpelling_of_plain {ws : Workspace} (tree : ws.tree.Named) {extensions : List String}
    (plain : ∀ e ∈ extensions, '/' ∉ e.toList) (directory : Path) :
    OneSpelling ws extensions directory := by
  -- Both paths are named from the same directory, so equal components mean equal names.
  intro e known f knownToo p found q foundToo alike
  obtain ⟨names, inhabited, named, rfl⟩ := exists_names tree (plain e known) found
  obtain ⟨others, inhabitedToo, namedToo, rfl⟩ := exists_names tree (plain f knownToo) foundToo
  rw [eq_of_components_childPath inhabited inhabitedToo named namedToo alike]

/--
Discovery loses and repeats nothing.

No two of the discovered paths are equal component by component. They are the first spellings of
what the arguments stand for, in their order: an explicit path for itself or, if it is a directory,
for the files below it, and without explicit paths the configured directories that are there.
The files below a directory are what its extensions find, strictly increasing and without regard to
the order and repetition of the extensions. Their spellings depend on that order only if a file is
spelled in two ways.
-/
theorem files_lose_and_repeat_nothing (ws : Workspace) (root : Path) (paths : List Path)
    (directories extensions : List String) :
    (files ws root paths directories extensions).Pairwise
      (fun p q => p.components ≠ q.components) ∧
    files ws root paths directories extensions = firstSpellings (
      if paths = [] then ((directories.map root.child).filter ws.hasDirectory).flatMap
        (expandDirectory ws extensions)
      else paths.flatMap fun p =>
        if ws.hasDirectory p then expandDirectory ws extensions p else [p]) ∧
    ∀ directory : Path,
      (expandDirectory ws extensions directory).Pairwise Path.Precedes ∧
      (∀ p ∈ expandDirectory ws extensions directory,
        ∃ e ∈ extensions, p ∈ withExtension ws directory e) ∧
      (∀ e ∈ extensions, ∀ p ∈ withExtension ws directory e,
        ∃ q ∈ expandDirectory ws extensions directory, q.components = p.components) ∧
      ∀ others : List String, (∀ e, e ∈ others ↔ e ∈ extensions) →
        (expandDirectory ws others directory).map Path.components =
          (expandDirectory ws extensions directory).map Path.components ∧
        (OneSpelling ws extensions directory →
          expandDirectory ws others directory = expandDirectory ws extensions directory) := by
  -- Each part of what is said about a directory is the law of that name.
  refine ⟨pairwise_components _, ?_, fun directory => ⟨?_, ?_, ?_, ?_⟩⟩
  · rw [← eraseDupsBy_sameAs]
    cases paths <;> rfl
  · exact pairwise_expandDirectory ws extensions directory
  · exact fun p member => exists_extension member
  · exact fun e known p found => exists_mem_expandDirectory known found
  · intro others alike
    exact ⟨components_expandDirectory_congr alike ws directory, expandDirectory_congr alike⟩

/-- A file that is named before its directory, and extensions in another order. -/
theorem files_lose_and_repeat_nothing_of_overlap :
    let tree : FileTree := ⟨[(["src"], .directory), (["src", "a.h"], .file []),
      (["src", "b.h"], .file []), (["src", "sub"], .directory),
      (["src", "sub", "c.cpp"], .file [])]⟩
    let ws : Workspace := ⟨tree, []⟩
    let paths : List Path := [⟨"src//b.h"⟩, ⟨"gone.h"⟩, ⟨"src"⟩]
    files ws ⟨"."⟩ paths [] ["h", "cpp"] =
      [⟨"src//b.h"⟩, ⟨"gone.h"⟩, ⟨"src/a.h"⟩, ⟨"src/sub/c.cpp"⟩] ∧
    OneSpelling ws ["h", "cpp"] ⟨"src"⟩ ∧
    expandDirectory ws ["cpp", "h", "cpp"] ⟨"src"⟩ = expandDirectory ws ["h", "cpp"] ⟨"src"⟩ := by
  intro tree ws paths
  have spelled : OneSpelling ws ["h", "cpp"] ⟨"src"⟩ :=
    oneSpelling_of_plain (by decide +kernel) (by decide +kernel) _
  have laws := files_lose_and_repeat_nothing ws ⟨"."⟩ paths [] ["h", "cpp"]
  refine ⟨laws.2.1.trans ?_, spelled, ((laws.2.2 _).2.2.2 _ (by grind)).2 spelled⟩
  -- What the extensions find is in order already.
  have found : expandDirectory ws ["h", "cpp"] ⟨"src"⟩ =
      [⟨"src/a.h"⟩, ⟨"src/b.h"⟩, ⟨"src/sub/c.cpp"⟩] := by
    rw [expandDirectory, List.mergeSort_of_pairwise (by decide +kernel)]
    decide +kernel
  have searched : (paths.flatMap fun p =>
      if ws.hasDirectory p then expandDirectory ws ["h", "cpp"] p else [p]) =
      [⟨"src//b.h"⟩, ⟨"gone.h"⟩, ⟨"src/a.h"⟩, ⟨"src/b.h"⟩, ⟨"src/sub/c.cpp"⟩] := by
    rw [List.flatMap_cons, List.flatMap_cons, List.flatMap_cons, if_neg (by decide +kernel),
      if_neg (by decide +kernel), if_pos (by decide +kernel), found]
    rfl
  rw [if_neg (by decide), searched]
  decide +kernel

end LockDiscipline.Discovery
