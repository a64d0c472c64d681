import LockDiscipline.Config.Effective
import LockDiscipline.Proofs.Files.Tree
import Mathlib.Data.List.Infix

/-! The search for the root of a repository: it finds the nearest marked directory in its reach. -/

namespace LockDiscipline

/-- The place that a path names; the empty path names the working directory. -/
def Workspace.placeOf (ws : Workspace) (p : Path) : Except FileError (List String) :=
  ws.tree.walk (ws.origin p) p.pieces

namespace Config

/-- Whether a place holds one of the names that mark the root of a repository. -/
def isMarked (tree : FileTree) (place : List String) : Bool :=
  rootMarks.any fun name => (tree.lookup? (place ++ [name])).isSome

/-- The marked place that is nearest to a place, among that place and all places above it. -/
structure IsNearestRoot (tree : FileTree) (place root : List String) : Prop where
  above : root <+: place
  marked : isMarked tree root = true
  nearest : ∀ other, other <+: place → isMarked tree other = true → other <+: root

instance (tree : FileTree) (place root : List String) :
    Decidable (IsNearestRoot tree place root) :=
  decidable_of_iff
    (root <+: place ∧ isMarked tree root = true ∧
      ∀ other ∈ place.inits, isMarked tree other = true → other <+: root)
    ⟨fun ⟨above, marked, nearest⟩ =>
      ⟨above, marked, fun other higher => nearest other ((List.mem_inits _ _).mpr higher)⟩,
     fun root => ⟨root.above, root.marked, fun other higher =>
      root.nearest other ((List.mem_inits _ _).mp higher)⟩⟩

/-- The name of the configuration file that a place holds, if it holds one. -/
def fileNameAt? (tree : FileTree) (place : List String) : Option String :=
  (fileNames.map (·.1)).find? fun name => (tree.lookup? (place ++ [name])).isSome

/-- How many bytes the longest mark needs behind a path, with a slash in front of it. -/
def markRoom : Nat := 14

/-- Marks are ordinary names that fit into the room left for them. -/
theorem ordinary_of_mem_rootMarks :
    ∀ name ∈ rootMarks, '/' ∉ name.toList ∧ '\x00' ∉ name.toList ∧ name ≠ "" ∧
      Path.isIdle name = false ∧ name ≠ ".." ∧ FileTree.tooLong name = false ∧
      name.utf8ByteSize < markRoom := by
  -- The marks are given, so each condition is checked for each of them.
  decide

/--
A path that leads straight down through directories.

It takes no step back, and it leaves room for the names of marks.
-/
structure LeadsDown (ws : Workspace) (origin : List String) (p : Path) : Prop where
  start : ws.origin p = origin
  straight : ".." ∉ p.pieces
  short : ∀ piece ∈ p.pieces, FileTree.tooLong piece = false
  passable : ws.tree.Passable origin p.steps
  clean : '\x00' ∉ p.text.toList
  room : p.text.utf8ByteSize + markRoom ≤ FileTree.pathLimit

namespace LeadsDown

variable {ws : Workspace} {origin : List String} {p q : Path}

/-- Such a path names the place at the end of its steps. -/
theorem placeOf (leads : LeadsDown ws origin p) : ws.placeOf p = .ok (origin ++ p.steps) := by
  -- Without steps back a walk descends, which it can do as all directories on the way are there.
  rw [Workspace.placeOf, leads.start]
  exact FileTree.walk_of_passable leads.straight leads.short leads.passable

/-- A mark below such a path is found exactly if the place holds it. -/
theorem locate_child (leads : LeadsDown ws origin p) {name : String} (mark : name ∈ rootMarks) :
    ws.locate (p.child name) =
      if (ws.tree.lookup? (origin ++ p.steps ++ [name])).isSome then
        .ok (origin ++ p.steps ++ [name])
      else .error .notFound := by
  obtain ⟨clear, clean, named, active, down, brief, fits⟩ := ordinary_of_mem_rootMarks name mark
  -- The child's text is that of the path, at most one slash, and the name, so it is a legal text.
  have screened : Workspace.screen (p.child name) = .ok () := by
    obtain ⟨between, slash, text⟩ := p.text_child clear
    have small : between.utf8ByteSize ≤ 1 ∧ '\x00' ∉ between.toList := by
      simp only [List.mem_cons, List.not_mem_nil, or_false] at slash
      rcases slash with rfl | rfl <;> decide
    rw [Workspace.screen_eq_ok_iff, text]
    refine ⟨?_, ?_, ?_⟩
    · simp [leads.clean, small.2, clean]
    · simp [named]
    · -- The room left in the path pays for the slash and the name.
      have room := leads.room
      have smaller := small.1
      simp only [String.utf8ByteSize_append]
      omega
  have sameStart : ws.origin (p.child name) = origin := by
    rw [← leads.start, Workspace.origin, Workspace.origin, p.isAbsolute_child clear]
  have inside : ws.tree.lookup? (origin ++ p.steps) = some .directory :=
    leads.passable p.steps (List.prefix_refl _)
  -- The walk to the child is the walk to the directory, followed by one name in it.
  have arrives := leads.placeOf
  rw [Workspace.placeOf, leads.start] at arrives
  rw [Workspace.locate, screened]
  show ws.tree.walk (ws.origin (p.child name)) (p.child name).pieces = _
  rw [sameStart, FileTree.walk_child _ _ _ clear, arrives]
  exact FileTree.walk_name inside active down brief

/-- What a mark below such a path leads to is what the place holds under its name. -/
theorem hasEntry_child (leads : LeadsDown ws origin p) {name : String} (mark : name ∈ rootMarks) :
    ws.hasEntry (p.child name) = (ws.tree.lookup? (origin ++ p.steps ++ [name])).isSome := by
  -- An entry that is located is one that the tree holds, so both sides ask the same.
  rw [Workspace.hasEntry, Workspace.entry?, leads.locate_child mark]
  cases found : ws.tree.lookup? (origin ++ p.steps ++ [name]) with
  | none => rfl
  | some entry => exact congrArg Option.isSome found

/-- Such a path is a root exactly if the place that it names is marked. -/
theorem isRoot_eq (leads : LeadsDown ws origin p) :
    isRoot ws p = isMarked ws.tree (origin ++ p.steps) := by
  unfold isRoot isMarked
  -- Both sides search the same table, so it is enough to compare the answers for each mark.
  rw [Bool.eq_iff_iff, List.any_eq_true, List.any_eq_true]
  refine exists_congr fun name => and_congr_right fun mark => ?_
  rw [leads.hasEntry_child mark]

/-- The path above such a path leads down as well. -/
theorem above (leads : LeadsDown ws origin p) (lies : q.LiesAbove p) : LeadsDown ws origin q where
  -- The steps above are those of the path without the last, so each condition is inherited.
  start := by rw [← leads.start, Workspace.origin, Workspace.origin, lies.isAbsolute]
  straight member := by
    rcases lies.pieces _ member with empty | piece
    · exact absurd empty (by decide)
    · exact leads.straight piece
  short piece member := by
    rcases lies.pieces _ member with rfl | piece
    · decide
    · exact leads.short _ piece
  passable front opening := by
    rw [lies.steps] at opening
    exact leads.passable front (opening.trans (List.dropLast_prefix _))
  clean member := by
    obtain ⟨rest, text⟩ := lies.opening
    exact leads.clean (by simp [text, member])
  room := by
    obtain ⟨rest, text⟩ := lies.opening
    have room := leads.room
    rw [text, String.utf8ByteSize_append] at room
    omega

/-- A path that names a directory without a step back leads down to it. -/
theorem of_locate {place : List String} (named : ws.locate p = .ok place)
    (inside : ws.tree.lookup? place = some .directory) (straight : ".." ∉ p.pieces)
    (room : p.text.utf8ByteSize + markRoom ≤ FileTree.pathLimit) :
    place = ws.origin p ++ p.steps ∧ LeadsDown ws (ws.origin p) p := by
  -- The walk succeeded, so the text was legal and every directory on the way let it pass.
  unfold Workspace.locate at named
  obtain ⟨_, screened, walked⟩ := exists_of_bind_eq_ok named
  have noNull := (Workspace.screen_eq_ok_iff.mp screened).1
  obtain ⟨arrives, passable, short⟩ := FileTree.passable_of_walk straight walked inside
  exact ⟨arrives, rfl, straight, short, passable, noNull, room⟩

/-- The upward search passes every place that is not marked, as far up as the path is written. -/
theorem find?_lineage_of_unmarked (leads : LeadsDown ws origin p)
    (unmarked : ∀ front, front <+: p.steps → isMarked ws.tree (origin ++ front) = false)
    (limit : Nat) : (lineage limit p).find? (isRoot ws) = none := by
  -- Going up keeps both facts: the path leads down, and no place on its way is marked.
  induction limit generalizing p with
  | zero => rfl
  | succ limit ih =>
    have here : isRoot ws p = false := by
      rw [leads.isRoot_eq]
      exact unmarked p.steps (List.prefix_refl _)
    rw [lineage, List.find?_cons, here]
    cases parent : p.parent? with
    | none => rfl
    | some q =>
      -- What opens the steps above also opens the longer steps here.
      have lies := Path.liesAbove_of_parent? parent
      refine ih (leads.above lies) fun front opening => unmarked front ?_
      rw [lies.steps] at opening
      exact opening.trans (List.dropLast_prefix _)

/-- The upward search ends at the nearest marked place, if there is one as far up as it goes. -/
theorem find?_lineage_of_marked (leads : LeadsDown ws origin p) {steps : List String}
    (opening : steps <+: p.steps) (marked : isMarked ws.tree (origin ++ steps) = true)
    (nearest : ∀ front, front <+: p.steps → isMarked ws.tree (origin ++ front) = true →
      front <+: steps) {limit : Nat} (enough : p.steps.length < limit) :
    ∃ q, (lineage limit p).find? (isRoot ws) = some q ∧ LeadsDown ws origin q ∧
      q.steps = steps := by
  -- Each round takes one step off; the search cannot run out of rounds before the steps end.
  induction limit generalizing p with
  | zero => omega
  | succ limit ih =>
    rw [lineage, List.find?_cons, leads.isRoot_eq]
    cases here : isMarked ws.tree (origin ++ p.steps) with
    | true =>
      -- The nearest marked place is not below this one, so it is this one.
      have same : p.steps = steps :=
        List.IsPrefix.eq_of_length_le (nearest p.steps (List.prefix_refl _) here) opening.length_le
      exact ⟨p, rfl, leads, same⟩
    | false =>
      -- The nearest marked place lies higher, so there is a step to take off.
      have higher : steps ≠ p.steps := by
        rintro rfl
        simp [here] at marked
      obtain ⟨rest, whole⟩ := opening
      have inhabited : rest ≠ [] := by
        rintro rfl
        exact higher (by simpa using whole)
      -- One step less still reaches down to the marked place, and one round less still suffices.
      have upper : steps <+: p.steps.dropLast := by
        rw [← whole, List.dropLast_append_of_ne_nil inhabited]
        exact List.prefix_append _ _
      have fewer : p.steps.dropLast.length < limit := by
        have long : 0 < p.steps.length := by
          rw [← whole, List.length_append]
          have := List.length_pos_iff.mpr inhabited
          omega
        rw [List.length_dropLast]
        omega
      cases parent : p.parent? with
      | none =>
        -- A path with nothing above it has no steps, but it has one to take off.
        rw [Path.steps_of_parent?_eq_none parent] at whole
        exact absurd (List.append_eq_nil_iff.mp whole).2 inhabited
      | some q =>
        have lies := Path.liesAbove_of_parent? parent
        refine ih (leads.above lies) (lies.steps ▸ upper) ?_ (lies.steps ▸ fewer)
        intro front opening
        exact nearest front ((lies.steps ▸ opening).trans (List.dropLast_prefix _))

/-- From such a path, the configuration file that is read is the one in the place it names. -/
theorem source_of_load (leads : LeadsDown ws origin p) {source : Option Path}
    {configuration : Configuration} (loaded : load ws p = .ok (source, configuration)) :
    source.map ws.locate = (fileNameAt? ws.tree (origin ++ p.steps)).map fun name =>
      .ok (origin ++ p.steps ++ [name]) := by
  -- The names are tried in the same order, and each is found in the same cases.
  have sameFound : fileNames.find? (fun entry => ws.hasEntry (p.child entry.1)) =
      fileNames.find? ((fun name => (ws.tree.lookup? (origin ++ p.steps ++ [name])).isSome) ∘
        Prod.fst) := by
    rw [← List.head?_filter, ← List.head?_filter]
    refine congrArg List.head? (List.filter_congr fun entry member => leads.hasEntry_child ?_)
    exact List.mem_append_left _ (List.mem_map_of_mem member)
  -- The file that is read is the first one found; without one, none is read.
  rw [fileNameAt?, List.find?_map]
  unfold load at loaded
  split at loaded
  case h_1 absent =>
    obtain ⟨rfl, -⟩ := Prod.mk.inj (Except.ok.inj loaded)
    rw [sameFound.symm.trans absent]
    rfl
  case h_2 name format found =>
    have first := sameFound.symm.trans found
    have mark : name ∈ rootMarks :=
      List.mem_append_left _ (List.mem_map_of_mem (List.mem_of_find?_eq_some first))
    have there : (ws.tree.lookup? (origin ++ p.steps ++ [name])).isSome = true := by
      simpa using List.find?_some first
    rw [first]
    simp only at loaded
    -- Whatever the file says, reading it keeps its path, and the path leads to the file in place.
    split at loaded
    case h_1 => cases loaded
    case h_2 text read =>
      cases parsed : parse format (p.child name) text with
      | error e =>
        rw [parsed] at loaded
        cases loaded
      | ok configuration =>
        rw [parsed] at loaded
        obtain ⟨rfl, -⟩ := Prod.mk.inj (Except.ok.inj loaded)
        rw [Option.map_some, leads.locate_child mark, if_pos there]
        rfl

end LeadsDown

/-- The settings in effect name the root that was found and the file that was read from it. -/
theorem load_of_resolve {ws : Workspace} {overrides : Overrides} {settings : Effective}
    (resolved : resolve ws overrides = .ok settings) :
    settings.repoRoot = detectRoot ws ⟨overrides.repoRoot.getD defaultRoot⟩ ∧
      ∃ configuration, load ws settings.repoRoot = .ok (settings.source, configuration) := by
  -- The settings are built in order: the root, the file in it, the format and the rules.
  unfold resolve at resolved
  obtain ⟨loaded, found, resolved⟩ := exists_of_bind_eq_ok resolved
  obtain ⟨_, -, resolved⟩ := exists_of_bind_eq_ok resolved
  obtain ⟨_, -, resolved⟩ := exists_of_bind_eq_ok resolved
  obtain rfl := Except.ok.inj resolved
  exact ⟨rfl, loaded.2, found⟩

/--
The root of a repository is the nearest marked directory in reach of the search.

A start that takes no step back is in reach of every directory above it as far as it is written
out: of all directories if it is absolute, and of those below the working directory if it is
relative. If the nearest marked directory is among these, it is the root that is found, and its
configuration file is the one that is read. Otherwise the start itself counts as the root.
-/
theorem resolve_nearest_root (ws : Workspace) (overrides : Overrides) {place root : List String}
    (named : ws.locate ⟨overrides.repoRoot.getD defaultRoot⟩ = .ok place)
    (inside : ws.tree.lookup? place = some .directory)
    (straight : ".." ∉ Path.pieces ⟨overrides.repoRoot.getD defaultRoot⟩)
    (room : (overrides.repoRoot.getD defaultRoot).utf8ByteSize + markRoom ≤ FileTree.pathLimit)
    (nearest : IsNearestRoot ws.tree place root) :
    let start : Path := ⟨overrides.repoRoot.getD defaultRoot⟩
    (ws.origin start <+: root →
      ws.placeOf (detectRoot ws start) = .ok root ∧
      ∀ settings, resolve ws overrides = .ok settings →
        settings.repoRoot = detectRoot ws start ∧
        settings.source.map ws.locate =
          (fileNameAt? ws.tree root).map fun name => .ok (root ++ [name])) ∧
    (¬ws.origin start <+: root → detectRoot ws start = start) := by
  intro start
  -- The start leads down to the place, so what is marked above it is marked on its own way.
  obtain ⟨rfl, leads⟩ := LeadsDown.of_locate named inside straight room
  constructor
  · rintro ⟨steps, rfl⟩
    -- The search has as many rounds as the path has pieces, so it reaches all steps.
    have enough : start.steps.length < start.pieces.length + 1 :=
      Nat.lt_succ_of_le (List.length_filter_le _ _)
    obtain ⟨found, search, below, same⟩ := leads.find?_lineage_of_marked
      ((List.prefix_append_right_inj _).mp nearest.above) nearest.marked
      (fun front opening marked => (List.prefix_append_right_inj _).mp
        (nearest.nearest _ ((List.prefix_append_right_inj _).mpr opening) marked)) enough
    have detected : detectRoot ws start = found := by
      rw [detectRoot, ancestry, search, Option.getD_some]
    rw [detected, ← same]
    refine ⟨below.placeOf, fun settings resolved => ?_⟩
    obtain ⟨asRoot, configuration, loaded⟩ := load_of_resolve resolved
    rw [asRoot.trans detected] at loaded ⊢
    exact ⟨rfl, below.source_of_load loaded⟩
  · -- A mark in reach would make the nearest one lie below where the path starts.
    intro beyond
    have unmarked : ∀ front, front <+: start.steps →
        isMarked ws.tree (ws.origin start ++ front) = false := by
      intro front opening
      rw [← Bool.not_eq_true]
      intro marked
      have below := nearest.nearest _ ((List.prefix_append_right_inj _).mpr opening) marked
      exact beyond ((List.prefix_append _ _).trans below)
    have search := leads.find?_lineage_of_unmarked unmarked (start.pieces.length + 1)
    rw [detectRoot, ancestry, search, Option.getD_none]

/-- From an absolute start, the configuration of a directory two levels up is read. -/
theorem resolve_nearest_root_above :
    let ws : Workspace := ⟨⟨[(["repo"], .directory), (["repo", "lockpair.yml"], .file []),
      (["repo", "lib"], .directory), (["repo", "lib", "core"], .directory)]⟩, ["repo", "lib"]⟩
    let overrides : Overrides := { repoRoot := some "/repo//lib/./core/" }
    ws.placeOf (detectRoot ws ⟨"/repo//lib/./core/"⟩) = .ok ["repo"] ∧
      ∀ settings, resolve ws overrides = .ok settings →
        settings.source.map ws.locate = some (.ok ["repo", "lockpair.yml"]) := by
  -- Place and nearest root are computed; the theorem says what the search makes of them.
  intro ws overrides
  have named : ws.locate ⟨"/repo//lib/./core/"⟩ = .ok ["repo", "lib", "core"] := by
    decide +kernel
  have nearest : IsNearestRoot ws.tree ["repo", "lib", "core"] ["repo"] := by
    decide +kernel
  obtain ⟨found, loads⟩ := (resolve_nearest_root ws overrides named (by decide +kernel)
    (by decide +kernel) (by decide +kernel) nearest).1 (by decide +kernel)
  exact ⟨found, fun settings resolved => (loads settings resolved).2⟩

/-- From the default start, a configuration above the working directory is not found. -/
theorem default_start_misses_root :
    let ws : Workspace := ⟨⟨[(["repo"], .directory),
      (["repo", "lockpair.toml"], .file (Text.Utf8.encode "strict = true\n".toList)),
      (["repo", "sub"], .directory)]⟩, ["repo", "sub"]⟩
    ws.locate ⟨defaultRoot⟩ = .ok ["repo", "sub"] ∧
      ws.tree.lookup? ["repo", "sub"] = some .directory ∧
      IsNearestRoot ws.tree ["repo", "sub"] ["repo"] ∧
      ws.placeOf (detectRoot ws ⟨defaultRoot⟩) = .ok ["repo", "sub"] ∧
      ((resolve ws {}).toOption.map fun settings => (settings.source, settings.strict)) =
        some (none, false) := by
  -- The tree is small enough to run the search on it.
  decide +kernel

end Config

end LockDiscipline
