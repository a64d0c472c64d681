import LockDiscipline.Files.Tree
import LockDiscipline.Proofs.Files.Path

/-! Laws of file trees: where walks lead, and what a write changes. -/

namespace LockDiscipline

/-- If two steps in a row succeed, so does each of them. -/
theorem exists_of_bind_eq_ok {ε α β : Type} {x : Except ε α} {f : α → Except ε β} {b : β}
    (done : x >>= f = .ok b) : ∃ a, x = .ok a ∧ f a = .ok b := by
  -- A first step that fails ends everything, so it must have succeeded with some value.
  cases x with
  | error e => cases done
  | ok a => exact ⟨a, rfl, done⟩

/-- If a step behind a test succeeds, the test did not fail. -/
theorem of_ite_error_eq_ok {ε α : Type} {fails : Prop} [Decidable fails] {e : ε}
    {x : Except ε α} {a : α} (done : (if fails then .error e else x) = .ok a) :
    ¬fails ∧ x = .ok a := by
  by_cases failed : fails
  · -- A test that fails is an error, and no error is a result.
    rw [if_pos failed] at done
    cases done
  · exact ⟨failed, by rwa [if_neg failed] at done⟩

namespace FileTree

/-- An entry that is set is found under its names. -/
theorem lookup?_put_self (tree : FileTree) {names : List String} (below : names ≠ [])
    (entry : Entry) : (tree.put names entry).lookup? names = some entry := by
  simp [lookup?, put, below]

/-- Setting an entry leaves every other one as it is. -/
theorem lookup?_put_of_ne (tree : FileTree) {names target : List String}
    (other : names ≠ target) (entry : Entry) :
    (tree.put target entry).lookup? names = tree.lookup? names := by
  -- The filter drops only entries that the names do not lead to.
  have kept : ∀ entries : List (List String × Entry),
      (entries.filter (·.1 != target)).lookup names = entries.lookup names := by
    intro entries
    induction entries with
    | nil => rfl
    | cons first rest ih =>
      obtain ⟨key, value⟩ := first
      by_cases same : key = target
      · subst same
        simp [ih, List.lookup_cons, beq_eq_false_iff_ne.mpr other]
      · simp [same, ih, List.lookup_cons]
  simp [lookup?, put, List.lookup_cons, beq_eq_false_iff_ne.mpr other, kept]

/-- A walk in two parts: the second starts where the first leads. -/
theorem walk_append (tree : FileTree) (place : List String) (first second : List String) :
    tree.walk place (first ++ second) =
      (tree.walk place first).bind (tree.walk · second) := by
  -- Each piece moves the walk on, or ends it with the same error.
  induction first generalizing place with
  | nil => rfl
  | cons piece rest ih =>
    simp only [List.cons_append, walk]
    cases tree.lookup? place with
    | none => rfl
    | some entry =>
      cases entry with
      | file bytes => rfl
      | directory =>
        simp only [ih]
        repeat' split
        all_goals rfl

/-- A walk with at least one piece starts in a directory. -/
theorem lookup?_of_walk {tree : FileTree} {place final : List String} {piece : String}
    {rest : List String} (walked : tree.walk place (piece :: rest) = .ok final) :
    tree.lookup? place = some .directory := by
  -- A walk that goes on asks first whether it stands in a directory; each other answer is an error.
  rw [walk] at walked
  split at walked
  · assumption
  · cases walked
  · cases walked

/-- A walk by one name enters the entry of that name. -/
theorem walk_name {tree : FileTree} {place : List String} {name : String}
    (inside : tree.lookup? place = some .directory) (active : Path.isIdle name = false)
    (down : name ≠ "..") (short : tooLong name = false) :
    tree.walk place [name] =
      if (tree.lookup? (place ++ [name])).isSome then .ok (place ++ [name])
      else .error .notFound := by
  -- One name is one round of the walk, with every test on the way already decided.
  simp [walk, inside, active, down, short]

/-- Every place on the way along some steps, the last one included, is a directory. -/
def Passable (tree : FileTree) (origin steps : List String) : Prop :=
  ∀ front, front <+: steps → tree.lookup? (origin ++ front) = some .directory

/-- A first step is passable if there is a directory before it and the rest is passable. -/
theorem passable_cons {tree : FileTree} {origin steps : List String} {step : String} :
    tree.Passable origin (step :: steps) ↔
      tree.lookup? origin = some .directory ∧ tree.Passable (origin ++ [step]) steps := by
  -- What opens the longer steps is empty or starts with the first step.
  constructor
  · intro passable
    refine ⟨by simpa using passable [] List.nil_prefix, fun front opening => ?_⟩
    have along := passable (step :: front) (List.cons_prefix_cons.mpr ⟨rfl, opening⟩)
    simpa using along
  · rintro ⟨inside, passable⟩ front opening
    cases front with
    | nil => simpa using inside
    | cons first rest =>
      obtain ⟨rfl, further⟩ := List.cons_prefix_cons.mp opening
      simpa using passable rest further

/-- Without steps back, a walk along passable steps arrives at their end. -/
theorem walk_of_passable {tree : FileTree} {origin pieces : List String} (straight : ".." ∉ pieces)
    (short : ∀ piece ∈ pieces, tooLong piece = false)
    (passable : tree.Passable origin (pieces.filter (!Path.isIdle ·))) :
    tree.walk origin pieces = .ok (origin ++ pieces.filter (!Path.isIdle ·)) := by
  -- Each piece is one round; the directory it leads to is where the rest of the walk starts.
  induction pieces generalizing origin with
  | nil => simp [walk]
  | cons piece rest ih =>
    have inside : tree.lookup? origin = some .directory := by
      simpa using passable [] List.nil_prefix
    simp only [List.mem_cons, not_or] at straight
    have later : ∀ piece ∈ rest, tooLong piece = false := fun p member => short p (by simp [member])
    simp only [walk, inside]
    by_cases idle : Path.isIdle piece = true
    · -- An idle piece is no step.
      rw [List.filter_cons_of_neg (by simp [idle])] at passable ⊢
      rw [if_pos idle, ih straight.2 later passable]
    · -- A step leads into a directory, which is where the rest of the steps is passable from.
      rw [List.filter_cons_of_pos (by simpa using idle)] at passable ⊢
      obtain ⟨-, onward⟩ := passable_cons.mp passable
      have there : tree.lookup? (origin ++ [piece]) = some .directory := by
        simpa using onward [] List.nil_prefix
      have down : ¬(piece == "..") = true := by simpa using Ne.symm straight.1
      rw [if_neg idle, if_neg down, short piece (by simp), there, ih straight.2 later onward]
      simp

/-- Without steps back, a walk that ends in a directory follows passable steps. -/
theorem passable_of_walk {tree : FileTree} {origin pieces place : List String}
    (straight : ".." ∉ pieces) (walked : tree.walk origin pieces = .ok place)
    (inside : tree.lookup? place = some .directory) :
    place = origin ++ pieces.filter (!Path.isIdle ·) ∧
      tree.Passable origin (pieces.filter (!Path.isIdle ·)) ∧
      ∀ piece ∈ pieces, tooLong piece = false := by
  induction pieces generalizing origin with
  | nil =>
    -- A walk without pieces ends where it starts, in a directory by assumption.
    obtain rfl : origin = place := Except.ok.inj walked
    refine ⟨by simp, fun front opening => ?_, by simp⟩
    obtain rfl := List.prefix_nil.mp opening
    simpa using inside
  | cons piece rest ih =>
    have start := lookup?_of_walk walked
    simp only [List.mem_cons, not_or] at straight
    simp only [walk, start] at walked
    by_cases idle : Path.isIdle piece = true
    · rw [if_pos idle] at walked
      -- An idle piece leads nowhere, so the rest of the walk says everything.
      obtain ⟨arrives, passable, short⟩ := ih straight.2 walked
      rw [List.filter_cons_of_neg (by simp [idle])]
      refine ⟨arrives, passable, ?_⟩
      -- Idle pieces are the empty one and the dot.
      have brief : tooLong piece = false := by
        simp only [Path.isIdle, Bool.or_eq_true, beq_iff_eq] at idle
        rcases idle with rfl | rfl <;> decide
      simpa [brief] using short
    · have down : ¬(piece == "..") = true := by simpa using Ne.symm straight.1
      rw [if_neg idle, if_neg down] at walked
      rw [List.filter_cons_of_pos (by simpa using idle)]
      obtain ⟨brief, walked⟩ := of_ite_error_eq_ok walked
      split at walked
      · -- A step that succeeds found a directory, and the walk from there says the rest.
        obtain ⟨arrives, passable, short⟩ := ih straight.2 walked
        refine ⟨by simpa using arrives, passable_cons.mpr ⟨start, passable⟩, ?_⟩
        simpa [brief] using short
      · cases walked

/-- A walk to an entry below a path goes on from where the path leads. -/
theorem walk_child (tree : FileTree) (origin : List String) (p : Path) {name : String}
    (clear : '/' ∉ name.toList) :
    tree.walk origin (p.child name).pieces =
      (tree.walk origin p.pieces).bind (tree.walk · [name]) := by
  -- The pieces of the child are those of the path and then the name, an empty last one aside.
  obtain ⟨above, below, pieces⟩ := p.pieces_child clear
  rw [below, walk_append]
  rcases pieces with same | closed
  · rw [same]
  · -- An empty piece asks for a directory, and so does the name after it.
    rw [closed, walk_append]
    cases tree.walk origin above with
    | error cause => rfl
    | ok place =>
      have idle : Path.isIdle "" = true := by decide
      show tree.walk place [name] = (tree.walk place [""]).bind (tree.walk · [name])
      cases found : tree.lookup? place with
      | none => simp [walk, found, Except.bind]
      | some entry => cases entry <;> simp [walk, found, idle, Except.bind]

/-- A file set where no directory was leaves every walk as it was. -/
theorem walk_put {tree : FileTree} {target : List String}
    (free : tree.lookup? target ≠ some .directory) (bytes : List UInt8) {place final : List String}
    {pieces : List String} (walked : tree.walk place pieces = .ok final) :
    (tree.put target (.file bytes)).walk place pieces = .ok final := by
  induction pieces generalizing place with
  | nil => exact walked
  | cons piece rest ih =>
    -- A walk goes on from directories only, and the target is none.
    have inside := lookup?_of_walk walked
    have apart : place ≠ target := fun same => free (same ▸ inside)
    have stillInside : (tree.put target (.file bytes)).lookup? place = some .directory := by
      rw [lookup?_put_of_ne tree apart, inside]
    -- A file that is set adds an entry or replaces one, so nothing disappears.
    have stillThere : ∀ names, (tree.lookup? names).isSome = true →
        ((tree.put target (.file bytes)).lookup? names).isSome = true := by
      intro names there
      by_cases same : names = target
      · subst same
        by_cases atRoot : names = []
        · simp [lookup?, atRoot]
        · rw [lookup?_put_self tree atRoot]
          rfl
      · rwa [lookup?_put_of_ne tree same]
    simp only [walk, inside] at walked
    simp only [walk, stillInside]
    -- Idle pieces, steps back and steps down are told apart without the tree.
    split
    · rename_i idle
      exact ih (by rwa [if_pos idle] at walked)
    · rename_i active
      rw [if_neg active] at walked
      split
      · rename_i up
        exact ih (by rwa [if_pos up] at walked)
      · rename_i down
        rw [if_neg down] at walked
        obtain ⟨short, walked⟩ := of_ite_error_eq_ok walked
        rw [if_neg short]
        -- Only the entry that is stepped on is looked up, and it is still there.
        split at walked
        · rename_i there
          rw [if_pos (stillThere _ there)]
          exact ih walked
        · cases walked

end FileTree

namespace Workspace

/-- The paths that can be followed are not empty, not too long, and without zero characters. -/
theorem screen_eq_ok_iff {p : Path} :
    screen p = .ok () ↔
      '\x00' ∉ p.text.toList ∧ p.text ≠ "" ∧ p.text.utf8ByteSize ≤ FileTree.pathLimit := by
  -- The three tests are made one after the other, and each can refuse the path.
  unfold screen
  split
  · simp_all
  · split
    · simp_all
    · split <;> simp_all

/-- The place where a file can be written is free or a file, in a directory that a walk reaches. -/
theorem locateTarget_eq_ok {ws : Workspace} {p : Path} {target : List String}
    (located : ws.locateTarget p = .ok target) :
    ∃ above name place, screen p = .ok () ∧ p.pieces = above ++ [name] ∧
      ws.tree.walk (ws.origin p) above = .ok place ∧
      ws.tree.lookup? place = some .directory ∧ Path.isIdle name = false ∧ name ≠ ".." ∧
      FileTree.tooLong name = false ∧ target = place ++ [name] ∧
      ws.tree.lookup? target ≠ some .directory := by
  -- Every test on the way has to succeed; each of the others ends in an error.
  unfold locateTarget at located
  obtain ⟨_, screened, located⟩ := exists_of_bind_eq_ok located
  split at located
  case h_1 => cases located
  case h_2 name above stripped =>
    obtain ⟨place, walked, located⟩ := exists_of_bind_eq_ok located
    split at located
    case h_2 => cases located
    case h_1 inside =>
      obtain ⟨asFile, located⟩ := of_ite_error_eq_ok located
      obtain ⟨short, located⟩ := of_ite_error_eq_ok located
      obtain ⟨free, located⟩ := of_ite_error_eq_ok located
      obtain rfl : place ++ [name] = target := Except.ok.inj located
      simp only [Bool.or_eq_true, beq_iff_eq, not_or] at asFile
      obtain ⟨⟨notDot, down⟩, unclosed⟩ := asFile
      -- The text does not end with a slash, so the last piece that is left is the last one written.
      have inhabited : p.text ≠ "" := (screen_eq_ok_iff.mp screened).2.1
      rw [Path.dropWhile_reverse_pieces inhabited unclosed] at stripped
      have pieces : p.pieces = above.reverse ++ [name] := by
        rw [← List.reverse_cons, ← stripped, List.reverse_reverse]
      have named : name ≠ "" := by
        rintro rfl
        exact (Path.last_piece pieces).elim inhabited unclosed
      refine ⟨above.reverse, name, place, screened, pieces, walked, inside, ?_, down, ?_, rfl, ?_⟩
      · simp [Path.isIdle, named, notDot]
      · simpa using short
      · simpa using free

/--
A file that is written holds what was written.

Every other place holds what it held before, and the working directory stays the same.
-/
theorem write_eq_ok {ws after : Workspace} {p : Path} {bytes : List UInt8}
    (written : ws.write p bytes = .ok after) :
    ∃ target, ws.locateTarget p = .ok target ∧ after.read p = .ok bytes ∧
      after.directory = ws.directory ∧
      ∀ names, names ≠ target → after.tree.lookup? names = ws.tree.lookup? names := by
  -- The target was free or a file before, so all walks lead where they led.
  unfold write at written
  obtain ⟨target, located, written⟩ := exists_of_bind_eq_ok written
  obtain rfl : { ws with tree := ws.tree.put target (.file bytes) } = after :=
    Except.ok.inj written
  refine ⟨target, located, ?_, rfl, fun names other => ws.tree.lookup?_put_of_ne other _⟩
  obtain ⟨above, name, place, screened, pieces, walked, inside, active, down, short, rfl, free⟩ :=
    locateTarget_eq_ok located
  -- The way to the directory is as before, and the file is in it now.
  have held : (ws.tree.put (place ++ [name]) (.file bytes)).lookup? (place ++ [name]) =
      some (.file bytes) := ws.tree.lookup?_put_self (by simp) _
  have arrives : (ws.tree.put (place ++ [name]) (.file bytes)).walk (ws.origin p) p.pieces =
      .ok (place ++ [name]) := by
    have stillInside : (ws.tree.put (place ++ [name]) (.file bytes)).lookup? place =
        some .directory := by
      rw [FileTree.lookup?_put_of_ne _ (by simp), inside]
    rw [pieces, FileTree.walk_append, FileTree.walk_put free bytes walked]
    show FileTree.walk _ place [name] = _
    rw [FileTree.walk_name stillInside active down short, held]
    rfl
  have located : locate { ws with tree := ws.tree.put (place ++ [name]) (.file bytes) } p =
      .ok (place ++ [name]) := by
    rw [locate, screened]
    exact arrives
  rw [read, located]
  simp only [bind, Except.bind, held]

end Workspace

end LockDiscipline
