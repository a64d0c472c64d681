import LockDiscipline.Proofs.Repetition
import LockDiscipline.Proofs.Scan.Declarations

/-! What the walk over the lines of a class body means: the methods that its lines declare. -/

namespace LockDiscipline.Scan

open LockDiscipline.Text

/-- Before a line, exactly one brace is open, counted from `depth` before the first line. -/
def AtMemberLevel (depth : Int) (all : List (List Char)) (k : Nat) : Prop :=
  depth + braceBalance (unlines (all.take k)) = 1

/-- A line at member level opens a section. -/
def OpensSection (depth : Int) (all : List (List Char)) (k : Nat) (access : Access) : Prop :=
  AtMemberLevel depth all k ∧
    ∃ line, all[k]? = some line ∧ Access.ofLabel? (trim line) = some access

/-- No line from one line up to another opens a section. -/
def Unlabelled (depth : Int) (all : List (List Char)) (low high : Nat) : Prop :=
  ∀ i, low ≤ i → i < high → ∀ access, ¬ OpensSection depth all i access

/-- A line belongs to the section opened last above it, or to the first one. -/
def InSection (depth : Int) (first : Access) (all : List (List Char)) (k : Nat)
    (access : Access) : Prop :=
  (∃ j < k, OpensSection depth all j access ∧ Unlabelled depth all (j + 1) k) ∨
    (Unlabelled depth all 0 k ∧ access = first)

/-- A line declares a method in a section, where the first line starts at `depth` in `first`. -/
structure Declares (className : List Char) (depth : Int) (first : Access)
    (all : List (List Char)) (access : Access) (k : Nat) (name : List Char) : Prop where
  /-- Exactly one brace is open before the line. -/
  level : AtMemberLevel depth all k
  /-- The line is no label, and with the next line that is not blank it reads as a signature. -/
  signature : ∃ line, all[k]? = some line ∧ Access.ofLabel? (trim line) = none ∧
    Signature.name? (trim line) (nextCodeLine (all.drop (k + 1))) = some name
  /-- The method is no constructor. -/
  notConstructor : name ≠ className
  /-- The method is no operator. -/
  notOperator : name ≠ "operator".toList
  /-- The method is no destructor. -/
  notDestructor : name.head? ≠ some '~'
  /-- The section that the line belongs to. -/
  inSection : InSection depth first all k access

/-- The section behind a line. -/
def sectionAfter (depth : Int) (access : Access) (line : List Char) : Access :=
  if depth = 1 then (Access.ofLabel? (trim line)).getD access else access

/-- The method that a line declares, given the lines below it. -/
def declaredOn? (className : List Char) (access : Access) (depth : Int) (index : Nat)
    (line : List Char) (below : List (List Char)) : Option Declaration :=
  if depth = 1 ∧ Access.ofLabel? (trim line) = none then
    ((Signature.name? (trim line) (nextCodeLine below)).filter (isOrdinary className)).map
      (⟨access, index, ·⟩)
  else none

/-- One line of the walk: what it declares, and where the walk stands behind it. -/
theorem declarationsFrom_cons (className : List Char) (access : Access) (depth : Int) (index : Nat)
    (line : List Char) (rest : List (List Char)) :
    declarationsFrom className access depth index (line :: rest) =
      (declaredOn? className access depth index line rest).toList ++
        declarationsFrom className (sectionAfter depth access line) (depth + braceBalance line)
          (index + 1) rest := by
  simp only [declarationsFrom, declaredOn?, sectionAfter]
  -- Outside member level the line is passed over; at member level a label comes first.
  by_cases level : depth = 1
  · cases label : Access.ofLabel? (trim line) with
    | some opened => simp [level]
    | none =>
      cases signature : Signature.name? (trim line) (nextCodeLine rest) with
      | none => simp [level]
      | some name =>
        by_cases ordinary : isOrdinary className name = true
        · simp [level, ordinary, Option.filter]
        · simp [level, ordinary, Option.filter]
  · simp [level]

/-- The braces of lines are counted line by line. -/
theorem braceBalance_unlines_cons (line : List Char) (rest : List (List Char)) :
    braceBalance (unlines (line :: rest)) = braceBalance line + braceBalance (unlines rest) := by
  cases rest with
  | nil => simp [unlines, List.intercalate, braceBalance]
  | cons next others =>
    -- The line break between two lines is no brace.
    rw [unlines_cons line (List.cons_ne_nil _ _), braceBalance_append]
    rfl

section Steps

variable {className : List Char} {depth : Int} {first : Access} {line : List Char}
  {rest : List (List Char)} {k : Nat} {access : Access} {name : List Char}

/-- Before the first line, only the braces counted before it are open. -/
theorem atMemberLevel_zero {all : List (List Char)} : AtMemberLevel depth all 0 ↔ depth = 1 := by
  -- There is no line yet whose braces could count.
  simp [AtMemberLevel, unlines, List.intercalate, braceBalance]

/-- The level of a later line is counted from behind the first one. -/
theorem atMemberLevel_succ :
    AtMemberLevel depth (line :: rest) (k + 1) ↔
      AtMemberLevel (depth + braceBalance line) rest k := by
  -- The braces of the first line are counted in front of the others.
  rw [AtMemberLevel, AtMemberLevel, List.take_succ_cons, braceBalance_unlines_cons, Int.add_assoc]

/-- The first line opens a section if it is a label at member level. -/
theorem opensSection_zero :
    OpensSection depth (line :: rest) 0 access ↔
      depth = 1 ∧ Access.ofLabel? (trim line) = some access := by
  -- Above the first line there is nothing to count.
  simp [OpensSection, atMemberLevel_zero]

/-- A later line opens the section that it opens below the first one. -/
theorem opensSection_succ :
    OpensSection depth (line :: rest) (k + 1) access ↔
      OpensSection (depth + braceBalance line) rest k access := by
  -- Level and label of the line are the same, with the first line counted in front.
  simp [OpensSection, atMemberLevel_succ]

/-- Between later lines no section opens if none does below the first line. -/
theorem unlabelled_succ {low high : Nat} :
    Unlabelled depth (line :: rest) (low + 1) (high + 1) ↔
      Unlabelled (depth + braceBalance line) rest low high := by
  constructor
  · intro free i atLeast below other opens
    exact free (i + 1) (by omega) (by omega) other (opensSection_succ.mpr opens)
  · intro free i atLeast below other opens
    -- The line is not the first one, so it is a line of the rest.
    obtain ⟨i, rfl⟩ : ∃ before, i = before + 1 := ⟨i - 1, by omega⟩
    exact free i (by omega) (by omega) other (opensSection_succ.mp opens)

/-- Up to a later line no section opens if the first line opens none and none opens below it. -/
theorem unlabelled_zero_succ :
    Unlabelled depth (line :: rest) 0 (k + 1) ↔
      (∀ opened, ¬ OpensSection depth (line :: rest) 0 opened) ∧
        Unlabelled (depth + braceBalance line) rest 0 k := by
  rw [← unlabelled_succ]
  -- The lines from the first one on are the first line and those below it.
  constructor
  · intro free
    exact ⟨free 0 (Nat.le_refl 0) (Nat.succ_pos k), fun i _ => free i (Nat.zero_le i)⟩
  · intro both i atLeast below
    obtain ⟨here, later⟩ := both
    cases i with
    | zero => exact here
    | succ i => exact later (i + 1) (by omega) below

/-- The section behind a line that opens one. -/
theorem sectionAfter_of_opens {opened : Access}
    (opens : OpensSection depth (line :: rest) 0 opened) :
    sectionAfter depth first line = opened := by
  -- The line is at member level and a label, which is what the walk tests.
  obtain ⟨level, label⟩ := opensSection_zero.mp opens
  simp [sectionAfter, level, label]

/-- The section behind a line that opens none. -/
theorem sectionAfter_of_not_opens
    (closed : ∀ opened, ¬ OpensSection depth (line :: rest) 0 opened) :
    sectionAfter depth first line = first := by
  -- At member level the section changes only if the line is a label, which it is not.
  unfold sectionAfter
  split
  · rename_i level
    cases label : Access.ofLabel? (trim line) with
    | none => rfl
    | some opened => exact absurd (opensSection_zero.mpr ⟨level, label⟩) (closed opened)
  · rfl

/-- The first line belongs to the first section. -/
theorem inSection_zero {all : List (List Char)} :
    InSection depth first all 0 access ↔ access = first := by
  -- No label stands above the first line.
  simp [InSection, Unlabelled]

/-- A later line is in the same section if the walk starts behind the first line. -/
theorem inSection_succ :
    InSection depth first (line :: rest) (k + 1) access ↔
      InSection (depth + braceBalance line) (sectionAfter depth first line) rest k access := by
  -- A section opened below the first line is the same on both sides; that of the first line is
  -- one of the walk on the left, and the first section of the walk on the right.
  have fromHere : OpensSection depth (line :: rest) 0 access →
      sectionAfter depth first line = access := sectionAfter_of_opens
  constructor
  · rintro (⟨j, before, opens, free⟩ | ⟨free, rfl⟩)
    · cases j with
      | zero => exact .inr ⟨unlabelled_succ.mp free, (fromHere opens).symm⟩
      | succ j =>
        exact .inl ⟨j, Nat.lt_of_succ_lt_succ before, opensSection_succ.mp opens,
          unlabelled_succ.mp free⟩
    · obtain ⟨closed, free⟩ := unlabelled_zero_succ.mp free
      exact .inr ⟨free, (sectionAfter_of_not_opens closed).symm⟩
  · rintro (⟨j, before, opens, free⟩ | ⟨free, rfl⟩)
    · exact .inl ⟨j + 1, Nat.succ_lt_succ before, opensSection_succ.mpr opens,
        unlabelled_succ.mpr free⟩
    · by_cases here : ∃ opened, OpensSection depth (line :: rest) 0 opened
      · obtain ⟨opened, opens⟩ := here
        rw [sectionAfter_of_opens opens]
        exact .inl ⟨0, Nat.succ_pos k, opens, unlabelled_succ.mpr free⟩
      · have closed := not_exists.mp here
        exact .inr ⟨unlabelled_zero_succ.mpr ⟨closed, free⟩, sectionAfter_of_not_opens closed⟩

/-- A line declares a method if the walk that starts there finds one on it. -/
theorem declaredOn?_eq_some_iff {index : Nat} {d : Declaration} :
    declaredOn? className first depth index line rest = some d ↔
      d.index = index ∧ Declares className depth first (line :: rest) d.access 0 d.name := by
  have ordinary : ∀ name, isOrdinary className name = true ↔
      name ≠ className ∧ name.head? ≠ some '~' ∧ name ≠ "operator".toList := by
    simp [isOrdinary, and_assoc]
  -- The walk asks for the level, for no label, for a signature and for an ordinary name.
  constructor
  · intro found
    unfold declaredOn? at found
    split at found
    · rename_i atLabel
      obtain ⟨name, kept, rfl⟩ := Option.map_eq_some_iff.mp found
      obtain ⟨signature, isMethod⟩ := Option.filter_eq_some_iff.mp kept
      obtain ⟨notConstructor, notDestructor, notOperator⟩ := (ordinary name).mp isMethod
      exact ⟨rfl, atMemberLevel_zero.mpr atLabel.1, ⟨line, rfl, atLabel.2, signature⟩,
        notConstructor, notOperator, notDestructor, inSection_zero.mpr rfl⟩
    · exact absurd found (by simp)
  · -- The same four tests are passed by a line that declares the method.
    obtain ⟨access, place, name⟩ := d
    rintro ⟨rfl, level, ⟨own, here, noLabel, signature⟩, notConstructor, notOperator,
      notDestructor, inSection⟩
    obtain rfl : line = own := Option.some.inj here
    obtain rfl : access = first := inSection_zero.mp inSection
    rw [declaredOn?, if_pos ⟨atMemberLevel_zero.mp level, noLabel⟩]
    refine Option.map_eq_some_iff.mpr ⟨name, ?_, rfl⟩
    exact Option.filter_eq_some_iff.mpr
      ⟨signature, (ordinary name).mpr ⟨notConstructor, notDestructor, notOperator⟩⟩

/-- A later line declares the same if the walk starts behind the first line. -/
theorem declares_succ :
    Declares className depth first (line :: rest) access (k + 1) name ↔
      Declares className (depth + braceBalance line) (sectionAfter depth first line) rest access k
        name := by
  -- Each condition of a declaration is carried over one line by its own lemma.
  constructor
  · rintro ⟨level, signature, notConstructor, notOperator, notDestructor, inSection⟩
    exact ⟨atMemberLevel_succ.mp level, by simpa using signature, notConstructor, notOperator,
      notDestructor, inSection_succ.mp inSection⟩
  · rintro ⟨level, signature, notConstructor, notOperator, notDestructor, inSection⟩
    exact ⟨atMemberLevel_succ.mpr level, by simpa using signature, notConstructor, notOperator,
      notDestructor, inSection_succ.mpr inSection⟩

end Steps

/-- The walk finds exactly the methods that its lines declare. -/
theorem mem_declarationsFrom_iff {className : List Char} {first : Access} {depth : Int}
    {index : Nat} {all : List (List Char)} {d : Declaration} :
    d ∈ declarationsFrom className first depth index all ↔
      ∃ k, d.index = index + k ∧ Declares className depth first all d.access k d.name := by
  -- Depth, section and index move along with the lines, so the induction is over all of them.
  induction all generalizing first depth index with
  | nil =>
    simp only [declarationsFrom, List.not_mem_nil, false_iff, not_exists, not_and]
    intro k place declares
    obtain ⟨line, absent, -⟩ := declares.signature
    simp at absent
  | cons line rest ih =>
    rw [declarationsFrom_cons, List.mem_append, Option.mem_toList,
      declaredOn?_eq_some_iff, ih]
    constructor
    · intro found
      -- Either this line declares the method, or a line of the rest does.
      rcases found with ⟨place, declares⟩ | ⟨k, place, declares⟩
      · exact ⟨0, place, declares⟩
      · exact ⟨k + 1, by omega, declares_succ.mpr declares⟩
    · intro declared
      obtain ⟨k, place, declares⟩ := declared
      cases k with
      | zero => exact .inl ⟨place, declares⟩
      | succ k => exact .inr ⟨k, by omega, declares_succ.mp declares⟩

/-- The walk finds methods in the order of their lines. -/
theorem pairwise_declarationsFrom (className : List Char) (first : Access) (depth : Int)
    (index : Nat) (all : List (List Char)) :
    (declarationsFrom className first depth index all).Pairwise (·.index < ·.index) := by
  induction all generalizing first depth index with
  | nil => exact .nil
  | cons line rest ih =>
    rw [declarationsFrom_cons]
    refine List.pairwise_append.mpr ⟨by cases declaredOn? .. <;> simp, ih .., ?_⟩
    -- What this line declares has its index, and what the rest declares has a later one.
    intro d here e later
    obtain ⟨place, -⟩ := declaredOn?_eq_some_iff.mp (Option.mem_toList.mp here)
    obtain ⟨k, below, -⟩ := mem_declarationsFrom_iff.mp later
    omega

/-- A line of a class body declares a method in a section of the class. -/
def DeclaresIn (region : Region) (access : Access) (k : Nat) (name : List Char) : Prop :=
  Declares region.name 0 (defaultAccess region.kind) (lines region.body) access k name

/-- The methods of a region are those that the lines of its body declare. -/
theorem mem_declarations_iff {region : Region} {d : Declaration} :
    d ∈ declarations region ↔ DeclaresIn region d.access d.index d.name := by
  -- The walk over a region counts its lines from 0.
  rw [declarations, mem_declarationsFrom_iff]
  constructor
  · intro declared
    obtain ⟨k, place, declares⟩ := declared
    have same : d.index = k := by omega
    rw [same]
    exact declares
  · intro declares
    exact ⟨d.index, (Nat.zero_add _).symm, declares⟩

/-- A line of a class body declares a private method that promises not to lock. -/
def DeclaresUnlocked (region : Region) (k : Nat) (name : String) : Prop :=
  DeclaresIn region .priv k name.toList ∧ "_unlocked".toList <:+ name.toList

/-- The text that is searched for the locks of a method declared on a line. -/
def windowText (window : LockWindow) (region : Region) (k : Nat) : List Char :=
  unlines (windowLines window (lines region.body) k)

/-- The private methods that promise not to lock, with their lines. -/
def unlockedPlaces (region : Region) : List (Nat × String) :=
  (declarations region).filterMap fun d => (unlockedName? d).map (d.index, ·)

/-- The places of unlocked methods are the lines that declare them. -/
theorem mem_unlockedPlaces_iff {region : Region} {k : Nat} {name : String} :
    (k, name) ∈ unlockedPlaces region ↔ DeclaresUnlocked region k name := by
  -- An unlocked name is a private name with the suffix, written as it is declared.
  simp only [unlockedPlaces, List.mem_filterMap, Option.map_eq_some_iff, unlockedName?,
    mem_declarations_iff, Option.ite_none_right_eq_some, Option.some.injEq, Prod.mk.injEq,
    List.isSuffixOf_iff_suffix]
  constructor
  · rintro ⟨⟨access, index, text⟩, declares, _, ⟨⟨rfl, suffix⟩, rfl⟩, rfl, rfl⟩
    exact ⟨by simpa using declares, by simpa using suffix⟩
  · rintro ⟨declares, suffix⟩
    exact ⟨⟨.priv, k, name.toList⟩, declares, name, ⟨⟨rfl, suffix⟩, String.ofList_toList⟩, rfl, rfl⟩

/-- Whether two places name the same method. -/
def sameName (x y : Nat × String) : Bool :=
  x.2 == y.2

/-- Two places name the same method exactly if they have the same name. -/
theorem sameName_iff (x y : Nat × String) : sameName x y = true ↔ x.2 = y.2 :=
  beq_iff_eq

/-- The first places of all unlocked methods give their names. -/
theorem unlockedMethods_eq (file : String) (window : LockWindow) (region : Region) :
    (profile file window region).unlockedMethods =
      ((unlockedPlaces region).eraseDupsBy sameName).map (·.2) := by
  -- The names are those of the places, with the lines forgotten.
  have names : (declarations region).filterMap unlockedName? =
      (unlockedPlaces region).map (·.2) := by
    simp only [unlockedPlaces, List.map_filterMap, Option.map_map, Function.comp_def,
      Option.map_id']
  rw [profile, names]
  exact eraseDupsBy_map (fun _ _ => rfl) _

/-- The locking methods of a profile are the public methods with a lock in their window. -/
theorem mem_lockingMethods_iff {file : String} {window : LockWindow} {region : Region}
    {m : LockingMethod} :
    m ∈ (profile file window region).lockingMethods ↔
      ∃ k name, DeclaresIn region .pub k name ∧
        Vocabulary.hasLock (windowText window region k) = true ∧
        m = {
          name := String.ofList name
          line := region.firstLine + k + 1
          tags := Vocabulary.lockTags (windowText window region k)
          windowEnd := region.firstLine + (window.span k (lines region.body).length).2 } := by
  -- A declaration of a public method with a lock makes exactly one record, whose parts are stated.
  simp only [profile, List.mem_filterMap, mem_declarations_iff, lockingMethod?_eq_some_iff]
  constructor
  · rintro ⟨⟨access, k, name⟩, declares, rfl, locks, rfl⟩
    exact ⟨k, name, declares, locks, rfl⟩
  · rintro ⟨k, name, declares, locks, rfl⟩
    exact ⟨⟨.pub, k, name⟩, declares, rfl, locks, rfl⟩

/-- The locking methods of a profile are listed from top to bottom. -/
theorem pairwise_lockingMethods (file : String) (window : LockWindow) (region : Region) :
    (profile file window region).lockingMethods.Pairwise (·.line < ·.line) := by
  -- Records are made from declarations, which are found from top to bottom.
  refine List.pairwise_filterMap.mpr ((pairwise_declarationsFrom ..).imp ?_)
  intro d e order m found n foundToo
  obtain ⟨-, -, rfl⟩ := lockingMethod?_eq_some_iff.mp found
  obtain ⟨-, -, rfl⟩ := lockingMethod?_eq_some_iff.mp foundToo
  exact Nat.succ_lt_succ (Nat.add_lt_add_left order _)

/-- The unlocked methods of a profile are those that some line declares. -/
theorem mem_unlockedMethods_iff {file : String} {window : LockWindow} {region : Region}
    {name : String} :
    name ∈ (profile file window region).unlockedMethods ↔ ∃ k, DeclaresUnlocked region k name := by
  -- Leaving out repetitions keeps every name, at the first line that declares it.
  simp only [← mem_unlockedPlaces_iff, unlockedMethods_eq, List.mem_map, Prod.exists]
  constructor
  · rintro ⟨k, _, left, rfl⟩
    exact ⟨k, mem_of_mem_eraseDupsBy left⟩
  · rintro ⟨k, member⟩
    obtain ⟨⟨j, _⟩, left, rfl⟩ := exists_mem_eraseDupsBy sameName_iff member
    exact ⟨j, _, left, rfl⟩

end LockDiscipline.Scan
