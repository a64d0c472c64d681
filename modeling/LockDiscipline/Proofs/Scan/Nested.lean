import LockDiscipline.Proofs.Region.Block
import LockDiscipline.Proofs.Scan.Members

/-! Classes inside classes: the walk over the outer class passes over the lines of the inner one. -/

namespace LockDiscipline

open LockDiscipline.Text

/-- The byte offset at which a line of a text starts. -/
def Text.lineStart (text : List Char) (i : Nat) : Nat :=
  byteSize (beforeLine text i)

namespace Braces

/-- The level behind the start of a text is the balance of its braces. -/
theorem level_encode {front code : List Char} (opens : front <+: code) :
    level (Utf8.encode code) (byteSize front) = Scan.braceBalance front := by
  obtain ⟨rest, rfl⟩ := opens
  -- The bytes of the start are those of its own characters, and braces are ASCII.
  have bytes : (Utf8.encode (front ++ rest)).take (byteSize front) = Utf8.encode front := by
    rw [Utf8.encode_append, ← Utf8.length_encode, List.take_left]
  have opened : (Utf8.encode front).count 0x7B = front.count '\x7b' :=
    Utf8.count_encode (by decide) rfl front
  have closed : (Utf8.encode front).count 0x7D = front.count '\x7d' :=
    Utf8.count_encode (by decide) rfl front
  rw [level, bytes, openings, closings, opened, closed, Scan.braceBalance]

end Braces

namespace Region

open Pattern

/-- A line of a code view starts inside the braces of a region. -/
def HoldsStart (code : List Char) (r : Region) (i : Nat) : Prop :=
  r.opening < lineStart code i ∧ lineStart code i ≤ r.stop

instance (code : List Char) (r : Region) (i : Nat) : Decidable (HoldsStart code r i) :=
  inferInstanceAs (Decidable (_ ∧ _))

/-- Every region of a code view is opened by a header. -/
theorem exists_openedBy {code : List Char} {r : Region} (member : r ∈ findAll code) :
    ∃ header, OpenedBy code header r := by
  -- Regions are made from headers that match.
  obtain ⟨found, matched, made⟩ := List.mem_filterMap.mp member
  exact ⟨found, openedBy_of_ofHeader? (foundIn_of_mem_findAll matched) made⟩

section Nested

variable {code : List Char} {r n : Region} (outer : r ∈ findAll code) (inner : n ∈ findAll code)
  (opensInside : r.opening < n.opening) (stopsInside : n.stop < r.stop)

include outer inner opensInside stopsInside in
/-- Inside the inner of two blocks, two more braces are open than where the outer one opens. -/
theorem level_inside_nested {offset : Nat} (behind : n.opening < offset) (upTo : offset ≤ n.stop) :
    Braces.level (Utf8.encode code) r.opening + 2 ≤ Braces.level (Utf8.encode code) offset := by
  obtain ⟨_, outerBlock⟩ := exists_openedBy outer
  obtain ⟨_, innerBlock⟩ := exists_openedBy inner
  -- One brace is that of the outer block, the other that of the inner block.
  have atInner := Braces.level_lt_of_openUntil outerBlock.stays opensInside (by omega)
  have atOffset := Braces.level_lt_of_openUntil innerBlock.stays behind upTo
  omega

include outer in
/-- A later line of a region starts as far behind the region's start as in its own text. -/
theorem lineStart_later {k : Nat} (inside : k + 1 < (lines r.body).length) :
    lineStart code (r.firstLine + (k + 1)) = byteSize (r.lead ++ beforeLine r.body (k + 1)) := by
  -- The text before the region ends in the line where the region starts.
  obtain ⟨trail, cut⟩ := (standsIn_of_mem_findAll outer).cut
  rw [lineStart, ← cut, List.append_assoc, firstLine, beforeLine_append_later,
    beforeLine_append_opening trail inside]

include outer in
/-- The first line of a region starts no later than the region. -/
theorem lineStart_first : lineStart code r.firstLine ≤ r.start := by
  -- The first line starts in the text before the region or where that text ends.
  obtain ⟨trail, cut⟩ := (standsIn_of_mem_findAll outer).cut
  obtain ⟨rest, shape⟩ := beforeLine_append_joined r.lead (r.body ++ trail)
  rw [lineStart, ← cut, List.append_assoc, firstLine, start]
  have size := congrArg byteSize shape
  rw [Bounds.byteSize_append] at size
  omega

end Nested

end Region

namespace Scan

/-- A text without braces leaves the balance as it is. -/
theorem braceBalance_noBraces {text : List Char} (noBraces : Region.NoBraces text) :
    braceBalance text = 0 := by
  -- Neither brace occurs, so neither is counted.
  rw [braceBalance, List.count_eq_zero_of_not_mem noBraces.1,
    List.count_eq_zero_of_not_mem noBraces.2]
  rfl

/-- The braces before a line are those of the lines above it. -/
theorem braceBalance_beforeLine (text : List Char) (k : Nat) :
    braceBalance (beforeLine text k) = braceBalance (unlines ((lines text).take k)) := by
  -- A line break opens another line, any other character belongs to the first one.
  induction text generalizing k with
  | nil => cases k <;> simp [beforeLine, unlines, List.intercalate, braceBalance]
  | cons c rest ih =>
    cases k with
    | zero => simp [unlines, List.intercalate, braceBalance]
    | succ k =>
      rw [beforeLine]
      split
      · rename_i atBreak
        subst atBreak
        rw [lines_break, List.take_succ_cons, braceBalance_unlines_cons, ← ih]
        simp [braceBalance]
      · rename_i inLine
        have more := ih (k + 1)
        obtain ⟨line, others, shape⟩ := List.exists_cons_of_ne_nil (lines_ne_nil rest)
        rw [shape, List.take_succ_cons, braceBalance_unlines_cons] at more
        rw [lines_cons inLine, shape, List.modifyHead_cons, List.take_succ_cons,
          braceBalance_unlines_cons]
        have front : ∀ text, braceBalance (c :: text) = braceBalance [c] + braceBalance text :=
          braceBalance_append [c]
        rw [front, front line, more]
        omega

section Nested

variable {code : List Char} {r n : Region} (outer : r ∈ Region.findAll code)
  (inner : n ∈ Region.findAll code) (opensInside : r.opening < n.opening)
  (stopsInside : n.stop < r.stop) (noClosing : '\x7d' ∉ r.header)

include outer inner opensInside stopsInside noClosing in
/-- A line that starts inside an inner class is not at member level of the outer one. -/
theorem not_atMemberLevel_of_holdsStart {k : Nat} (inside : k < (lines r.body).length)
    (starts : n.HoldsStart code (r.firstLine + k)) : ¬ AtMemberLevel 0 (lines r.body) k := by
  obtain ⟨behind, upTo⟩ := starts
  cases k with
  | zero =>
    -- The first line starts before the outer class, so not inside the inner one.
    have early := Region.lineStart_first outer
    have ordered : r.start ≤ r.opening := Nat.le_add_right _ _
    rw [Nat.add_zero] at behind
    omega
  | succ k =>
    have deep := Region.level_inside_nested outer inner opensInside stopsInside behind upTo
    rw [Region.lineStart_later outer inside] at deep
    -- Both offsets are ends of texts that open the code, so their levels are balances of braces.
    have cut := (Region.standsIn_of_mem_findAll outer).cut
    have toLine : r.lead ++ beforeLine r.body (k + 1) <+: code :=
      ((List.prefix_append_right_inj _).mpr (beforeLine_opens _ _)).trans cut
    have toBrace : r.lead ++ r.header <+: code :=
      ((List.prefix_append_right_inj _).mpr (List.prefix_append r.header r.block)).trans cut
    have opening : r.opening = byteSize (r.lead ++ r.header) := by
      rw [Region.opening, Bounds.byteSize_append]
    rw [opening, Braces.level_encode toLine, Braces.level_encode toBrace, braceBalance_append,
      braceBalance_append, braceBalance_beforeLine] at deep
    -- The header has no brace of either kind.
    have plain : braceBalance r.header = 0 :=
      braceBalance_noBraces ⟨Region.brace_not_mem_header outer, noClosing⟩
    intro level
    rw [AtMemberLevel] at level
    omega

end Nested

/-- A line that opens no section belongs to the same section as the line below it. -/
theorem inSection_of_not_opens {depth : Int} {first : Access} {all : List (List Char)} {k : Nat}
    (closed : ∀ opened, ¬ OpensSection depth all k opened) {access : Access} :
    InSection depth first all (k + 1) access ↔ InSection depth first all k access := by
  -- A line more in the stretch is the one that opens no section.
  have longer : ∀ low, Unlabelled depth all low k → Unlabelled depth all low (k + 1) := by
    intro low free i atLeast below opened opens
    by_cases last : i = k
    · exact closed opened (last ▸ opens)
    · exact free i atLeast (by omega) opened opens
  have shorter : ∀ low, Unlabelled depth all low (k + 1) → Unlabelled depth all low k := by
    intro low free i atLeast below
    exact free i atLeast (by omega)
  constructor
  · intro inSection
    rcases inSection with ⟨j, above, opens, free⟩ | ⟨free, same⟩
    · -- The label cannot stand on the line itself.
      have apart : j ≠ k := by
        intro same
        exact closed access (same ▸ opens)
      exact .inl ⟨j, by omega, opens, shorter _ free⟩
    · exact .inr ⟨shorter 0 free, same⟩
  · intro inSection
    rcases inSection with ⟨j, above, opens, free⟩ | ⟨free, same⟩
    · -- A section that opened above is still open, as the line itself opens none.
      exact .inl ⟨j, by omega, opens, longer _ free⟩
    · exact .inr ⟨longer 0 free, same⟩

/-- How the walk over a class passes over a line of its body. -/
structure PassesOver (region : Region) (k : Nat) : Prop where
  /-- The line is not read as a label. -/
  noLabel : ∀ access, ¬ OpensSection 0 (lines region.body) k access
  /-- The line is not read as a signature. -/
  noSignature : ∀ access name, ¬ DeclaresIn region access k name
  /-- The section is the same above and below the line. -/
  sameSection : ∀ access,
    InSection 0 (defaultAccess region.kind) (lines region.body) (k + 1) access ↔
      InSection 0 (defaultAccess region.kind) (lines region.body) k access

/-- The walk passes over every line that is not at member level. -/
theorem passesOver_of_not_atMemberLevel {region : Region} {k : Nat}
    (elsewhere : ¬ AtMemberLevel 0 (lines region.body) k) : PassesOver region k := by
  -- A label and a declaration both stand at member level.
  have noLabel : ∀ access, ¬ OpensSection 0 (lines region.body) k access := by
    intro access opens
    exact elsewhere opens.1
  refine ⟨noLabel, ?_, fun _ => inSection_of_not_opens noLabel⟩
  intro access name declares
  exact elsewhere declares.level

/--
The walk over the lines of a class, with any readers of labels and signatures.

The readers are told the number of the line, so they may answer as they like on any line.
-/
def declarationsBy (label? : Nat → List Char → Option Access)
    (name? : Nat → List Char → Option (List Char) → Option (List Char)) (className : List Char)
    (access : Access) (depth : Int) (index : Nat) : (lines : List (List Char)) → List Declaration
  | [] => []
  | line :: rest =>
    let go access :=
      declarationsBy label? name? className access (depth + braceBalance line) (index + 1) rest
    if depth ≠ 1 then go access
    else match label? index (trim line) with
      | some opened => go opened
      | none =>
        match name? index (trim line) (nextCodeLine rest) with
        | some name => if isOrdinary className name then ⟨access, index, name⟩ :: go access
          else go access
        | none => go access

/-- Readers that answer rightly at member level find what the walk finds. -/
theorem declarationsBy_eq {label? : Nat → List Char → Option Access}
    {name? : Nat → List Char → Option (List Char) → Option (List Char)} {depth : Int} {index : Nat}
    {all : List (List Char)}
    (right : ∀ k < all.length, AtMemberLevel depth all k →
      label? (index + k) = Access.ofLabel? ∧ name? (index + k) = Signature.name?)
    (className : List Char) (access : Access) :
    declarationsBy label? name? className access depth index all =
      declarationsFrom className access depth index all := by
  -- The induction is on the lines; depth and number move along with them.
  induction all generalizing access depth index with
  | nil => rfl
  | cons line rest ih =>
    have tail : ∀ access,
        declarationsBy label? name? className access (depth + braceBalance line) (index + 1) rest =
          declarationsFrom className access (depth + braceBalance line) (index + 1) rest := by
      intro access
      apply ih
      intro k inside level
      rw [Nat.add_right_comm]
      exact right (k + 1) (Nat.succ_lt_succ inside) (atMemberLevel_succ.mpr level)
    -- One line of both walks; behind it they agree by induction, whatever the section.
    simp only [declarationsBy, declarationsFrom, tail]
    by_cases level : depth = 1
    · -- At member level the readers are asked, and they answer rightly.
      obtain ⟨labels, names⟩ := right 0 (Nat.succ_pos _) (atMemberLevel_zero.mpr level)
      rw [Nat.add_zero] at labels names
      cases label : Access.ofLabel? (trim line) with
      | some opened => simp only [labels, label]
      | none =>
        cases found : Signature.name? (trim line) (nextCodeLine rest) with
        | some name => simp only [labels, label, names, found]
        | none => simp only [labels, label, names, found]
    · -- Elsewhere neither walk asks its readers.
      rw [if_pos level, if_pos level]

/--
Members of an inner class do not leak into the outer one.

Where the header of the outer class has no closing brace, the walk over it passes over every line
that starts inside the braces of the inner class: no such line is a label or a signature of the
outer class, none changes the section of its members, and none is the line of one of its locking
methods. Whatever readers of labels and signatures say on these lines, the walk finds the same.
-/
theorem nested_lines_do_not_leak {code : List Char} {r n : Region}
    (outer : r ∈ Region.findAll code) (inner : n ∈ Region.findAll code)
    (opensInside : r.opening < n.opening) (stopsInside : n.stop < r.stop)
    (noClosing : '\x7d' ∉ r.header) :
    (∀ k < (lines r.body).length, n.HoldsStart code (r.firstLine + k) → PassesOver r k) ∧
    (∀ file window, ∀ m ∈ (profile file window r).lockingMethods,
      ¬ n.HoldsStart code (m.line - 1)) ∧
    ∀ label? name?,
      (∀ k, ¬ n.HoldsStart code (r.firstLine + k) →
        label? k = Access.ofLabel? ∧ name? k = Signature.name?) →
      declarationsBy label? name? r.name (defaultAccess r.kind) 0 0 (lines r.body) =
        declarations r := by
  -- This is where the nesting of the regions is used; all three parts follow from it.
  have elsewhere : ∀ k < (lines r.body).length, n.HoldsStart code (r.firstLine + k) →
      ¬ AtMemberLevel 0 (lines r.body) k := by
    intro k inside starts
    exact not_atMemberLevel_of_holdsStart outer inner opensInside stopsInside noClosing inside
      starts
  refine ⟨?_, ?_, ?_⟩
  · intro k inside starts
    exact passesOver_of_not_atMemberLevel (elsewhere k inside starts)
  · intro file window m member starts
    -- A locking method is declared at member level, on the line that it is recorded with.
    obtain ⟨k, name, declares, -, rfl⟩ := mem_lockingMethods_iff.mp member
    obtain ⟨line, found, -⟩ := declares.signature
    exact elsewhere k (List.getElem?_eq_some_iff.mp found).1 starts declares.level
  · intro label? name? right
    refine declarationsBy_eq ?_ r.name (defaultAccess r.kind)
    intro k inside level
    rw [Nat.zero_add]
    exact right k fun starts => elsewhere k inside starts level

/-- A class with a label and a locking method of its own, and the same in a class inside it. -/
theorem nested_lines_do_not_leak_of_struct :
    let code :=
      "class A \x7b\nstruct B \x7b\npublic:\nvoid f() \x7b m.lock(); \x7d \x7d;\n".toList ++
      "public:\nvoid g() \x7b m.lock(); \x7d \x7d".toList
    ∃ r ∈ Region.findAll code, ∃ n ∈ Region.findAll code,
      n.HoldsStart code (r.firstLine + 2) ∧ PassesOver r 2 ∧
      n.HoldsStart code (r.firstLine + 3) ∧ PassesOver r 3 ∧
      (profile "a.h" .classBody n).lockingMethods.map (·.line) = [4] ∧
      (profile "a.h" .classBody r).lockingMethods.map (·.line) = [6] := by
  intro code
  let r : Region := ⟨"A".toList, .cls, [], "class A ".toList, code.drop 8⟩
  let n : Region := ⟨"B".toList, .struct, "class A \x7b\n".toList, "struct B ".toList,
    "\x7b\npublic:\nvoid f() \x7b m.lock(); \x7d \x7d".toList⟩
  have regions : r ∈ Region.findAll code ∧ n ∈ Region.findAll code := by decide +kernel
  have nested : r.opening < n.opening ∧ n.stop < r.stop ∧ '\x7d' ∉ r.header ∧
      3 < (lines r.body).length ∧ n.HoldsStart code (r.firstLine + 2) ∧
      n.HoldsStart code (r.firstLine + 3) := by
    decide +kernel
  have methods : (profile "a.h" .classBody n).lockingMethods.map (·.line) = [4] ∧
      (profile "a.h" .classBody r).lockingMethods.map (·.line) = [6] := by
    decide +kernel
  obtain ⟨opensInside, stopsInside, noClosing, inside, second, third⟩ := nested
  obtain ⟨passes, -⟩ :=
    nested_lines_do_not_leak regions.1 regions.2 opensInside stopsInside noClosing
  exact ⟨r, regions.1, n, regions.2, second, passes 2 (by omega) second, third,
    passes 3 inside third, methods⟩

end Scan

end LockDiscipline
