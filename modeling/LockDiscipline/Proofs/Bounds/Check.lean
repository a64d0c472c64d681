import LockDiscipline.Proofs.Bounds.Scan
import LockDiscipline.Proofs.Rule.Evidence

/-! The rules and the whole check by positions, and why no access of a check goes wrong. -/

namespace LockDiscipline.Bounds

open LockDiscipline.Text

/-- The lines from `before` lines above a line to `after` lines below it, within the file. -/
def context (before after : Nat) (all : List (List Char)) (index : Nat) :
    Guarded (List (List Char)) :=
  stretch all (index - before) (min (index + after + 1) all.length)

/-- The lines around a line of the file are read without fault. -/
theorem context_eq_ok (before after : Nat) {all : List (List Char)} {index : Nat}
    (inside : index < all.length) :
    context before after all index = .ok (Trigger.context before after all index) := by
  -- Clipping to the file changes only how many lines are asked for, not which there are.
  have clipped : (all.drop (index - before)).take
      (min (index + after + 1) all.length - (index - before)) =
        Trigger.context before after all index := by
    rw [Trigger.context, List.take_eq_take_iff, List.length_drop]
    omega
  rw [context, stretch_eq_ok (by omega) (Nat.min_le_right _ _), clipped]

/-- Whether a line passes a test while no line near it passes another. -/
def standsAlone (test excuses : List Char → Bool) (before after : Nat) (all : List (List Char))
    (line : List Char) (index : Nat) : Guarded Bool := do
  if !test line then return false
  let near ← context before after all index
  return !near.any excuses

/-- A line of the file is tested without fault. -/
theorem standsAlone_eq_ok (test excuses : List Char → Bool) (before after : Nat)
    {all : List (List Char)} (line : List Char) {index : Nat} (inside : index < all.length) :
    standsAlone test excuses before after all line index =
      .ok (test line && !(Trigger.context before after all index).any excuses) := by
  -- The lines around are found; a line that fails the test is not looked at further.
  simp only [standsAlone, context_eq_ok before after inside, ok_bind]
  cases test line <;> rfl

/-- The numbers, counted from 1, of the lines that satisfy a condition on text and position. -/
def lineNumbers (hits : List Char → Nat → Guarded Bool) (all : List (List Char)) :
    Guarded (List Nat) :=
  all.zipIdx.filterMapM fun (line, index) => do
    return if ← hits line index then some (index + 1) else none

/-- Lines are numbered without fault if the condition can be tested on each of them. -/
theorem lineNumbers_eq_ok {hits : List Char → Nat → Guarded Bool} {holds : List Char → Nat → Bool}
    {all : List (List Char)}
    (each : ∀ line index, index < all.length → hits line index = .ok (holds line index)) :
    lineNumbers hits all = .ok (Trigger.lineNumbers holds all) := by
  -- Filtering and numbering are done in one go here, one after the other there.
  have chosen : Trigger.lineNumbers holds all = all.zipIdx.filterMap
      fun x => if holds x.1 x.2 then some (x.2 + 1) else none := by
    rw [Trigger.lineNumbers, ← List.filterMap_eq_map, List.filterMap_filter]
    rfl
  rw [chosen]
  refine filterMapM_eq_ok ?_
  rintro ⟨line, index⟩ member
  have inside : index < all.length :=
    (List.getElem?_eq_some_iff.mp (List.mk_mem_zipIdx_iff_getElem?.mp member)).1
  simp only [each line index inside, ok_bind, pure_eq_ok]

/-- Unlocking by hand is reported unless a guard is near. -/
def manualLockUnlock (file : FileLines) : Guarded (List Finding) := do
  let alone := standsAlone (Vocabulary.hasManualUnlock <| trim ·) Vocabulary.hasGuard
    Trigger.guardContext Trigger.guardContext file.raw
  return (← lineNumbers alone file.raw).map Trigger.manualUnlockAt

/-- Unlocks by hand are looked for without fault. -/
theorem manualLockUnlock_eq_ok (file : FileLines) :
    manualLockUnlock file = .ok (Trigger.manualLockUnlock file) := by
  -- Each line is tested without fault, so the two ways to number lines agree.
  rw [manualLockUnlock, lineNumbers_eq_ok fun line index inside =>
    standsAlone_eq_ok _ _ _ _ line inside]
  rfl

/-- Const code can lock only a mutable mutex. -/
def constMethodLock (file : FileLines) : Guarded (List Finding) := do
  let alone := standsAlone (fun line => Trigger.constWord.occursIn line && Vocabulary.hasLock line)
    (hasPhrase "mutable".toList) Trigger.mutableBefore Trigger.mutableAfter file.raw
  return (← lineNumbers alone file.raw).map Trigger.constLockAt

/-- Locks in const code are looked for without fault. -/
theorem constMethodLock_eq_ok (file : FileLines) :
    constMethodLock file = .ok (Trigger.constMethodLock file) := by
  -- As for unlocks by hand, with other phrases.
  rw [constMethodLock, lineNumbers_eq_ok fun line index inside =>
    standsAlone_eq_ok _ _ _ _ line inside]
  rfl

/-- The byte position of the first occurrence of a phrase. -/
def positionOf? (phrase : List Char) : (text : List Char) → Option Nat
  | [] => if phrase.isEmpty then some 0 else none
  | c :: text =>
    if phrase.isPrefixOf (c :: text) then some 0
    else (positionOf? phrase text).map (c.utf8Size + ·)

/-- A phrase has a position exactly if it is found, and then what it is found in stands there. -/
theorem positionOf?_cases (phrase text : List Char) :
    positionOf? phrase text = none ∧ findPhrase? phrase text = none ∨
      ∃ front rest, text = front ++ rest ∧ positionOf? phrase text = some (byteSize front) ∧
        findPhrase? phrase text = some rest := by
  -- Both searches give up one character at a time.
  induction text with
  | nil =>
    by_cases empty : phrase.isEmpty = true
    · exact .inr ⟨[], [], rfl, if_pos empty, if_pos empty⟩
    · exact .inl ⟨if_neg empty, if_neg empty⟩
  | cons c others ih =>
    by_cases here : phrase.isPrefixOf (c :: others) = true
    · exact .inr ⟨[], c :: others, rfl, if_pos here, if_pos here⟩
    · rw [positionOf?, findPhrase?, if_neg here, if_neg here]
      rcases ih with ⟨noPosition, notFound⟩ | ⟨front, rest, shape, position, found⟩
      · exact .inl ⟨by rw [noPosition]; rfl, notFound⟩
      · refine .inr ⟨c :: front, rest, by rw [shape, List.cons_append], ?_, found⟩
        rw [position, byteSize_cons]
        rfl

/-- A single character stands where dropping all others stops. -/
theorem positionOf?_singleton (c : Char) (text : List Char) :
    positionOf? [c] text = none ∧ text.dropWhile (· != c) = [] ∨
      ∃ front tail, text = front ++ c :: tail ∧ positionOf? [c] text = some (byteSize front) ∧
        text.dropWhile (· != c) = c :: tail := by
  -- Along the text, counting the bytes in front of the first such character.
  induction text with
  | nil => exact .inl ⟨rfl, rfl⟩
  | cons d others ih =>
    by_cases same : d = c
    · subst same
      exact .inr ⟨[], others, rfl, by simp [positionOf?, byteSize], by simp⟩
    · have later : positionOf? [c] (d :: others) =
          (positionOf? [c] others).map (d.utf8Size + ·) := by
        simp [positionOf?, Ne.symm same]
      have dropped : (d :: others).dropWhile (· != c) = others.dropWhile (· != c) := by
        simp [same]
      rw [later, dropped]
      rcases ih with ⟨missing, nothing⟩ | ⟨front, tail, shape, position, rest⟩
      · exact .inl ⟨by rw [missing]; rfl, nothing⟩
      · refine .inr ⟨d :: front, tail, by rw [shape, List.cons_append], ?_, rest⟩
        rw [position, byteSize_cons]
        rfl

/-- The part of the line of a signature that can hold calls: what follows the parameter list. -/
def afterSignature (method : String) (line : List Char) : Guarded (List Char) := do
  let some position := positionOf? method.toList line | return line
  let named ← slice line position (byteSize line)
  let some close := positionOf? [')'] named | return []
  slice line (position + close + 1) (byteSize line)

/-- What follows a parameter list is cut out without fault. -/
theorem afterSignature_eq_ok (method : String) (line : List Char) :
    afterSignature method line = .ok (Trigger.afterSignature method line) := by
  -- Both positions are borders between characters: in front of the name, and behind a parenthesis.
  rcases positionOf?_cases method.toList line with
    ⟨noPosition, notFound⟩ | ⟨front, named, shape, position, found⟩
  · simp [afterSignature, Trigger.afterSignature, noPosition, notFound]
  · have fromName : slice line (byteSize front) (byteSize line) = .ok named := by
      rw [shape]
      exact slice_back front named
    simp only [afterSignature, Trigger.afterSignature, position, found, fromName, ok_bind]
    rcases positionOf?_singleton ')' named with
      ⟨noClose, nothing⟩ | ⟨inner, tail, inside, close, rest⟩
    · -- Without a closing parenthesis nothing is left of the line.
      simp [noClose, nothing]
    · -- The rest starts behind the parenthesis, which is one byte.
      have behind : byteSize front + byteSize inner + 1 =
          byteSize (front ++ (inner ++ [')'])) := by
        simp only [byteSize_append]
        exact Nat.add_assoc _ _ _
      have whole : line = front ++ (inner ++ [')']) ++ tail := by
        simp [shape, inside]
      simp only [close, rest, List.drop_one, List.tail_cons]
      rw [behind, whole]
      exact slice_back _ tail

/-- Whether a line, counted from 1, calls `callee` on behalf of `caller`. -/
def callsOnLine (p : ClassProfile) (code : List (List Char)) (caller : LockingMethod)
    (callee : String) (line : Nat) : Guarded Bool := do
  if p.lockingMethods.any fun m => m.name == callee && m.line == line then return false
  let index ← difference line 1
  let some content := code[index]? | return false
  let own ← if line = caller.line then afterSignature caller.name content else pure content
  return (Trigger.callPattern callee).occursIn own

/-- Calls are looked for without fault on a line that has a number. -/
theorem callsOnLine_eq_ok (p : ClassProfile) (code : List (List Char)) (caller : LockingMethod)
    (callee : String) {line : Nat} (numbered : 1 ≤ line) :
    callsOnLine p code caller callee line =
      .ok (Trigger.callsOnLine p code caller callee line) := by
  -- Lines are counted from 1, so the difference is not negative.
  have counted : decide (0 < line) = true := decide_eq_true numbered
  simp only [callsOnLine, Trigger.callsOnLine, difference_eq_ok numbered, ok_bind, counted,
    afterSignature_eq_ok, Bool.and_true]
  cases p.lockingMethods.any fun m => m.name == callee && m.line == line with
  | true => rfl
  | false =>
    cases code[line - 1]? with
    | none => rfl
    | some content =>
      by_cases signature : line = caller.line
      · simp [signature]
      · simp [signature]

/-- The first line in the window of `caller` that calls `callee`. -/
def callLine? (p : ClassProfile) (code : List (List Char)) (caller : LockingMethod)
    (callee : String) : Guarded (Option Nat) :=
  let last := min caller.windowEnd code.length
  (List.range' caller.line (last + 1 - caller.line)).findM? (callsOnLine p code caller callee)

/-- The window of a caller whose line has a number is searched without fault. -/
theorem callLine?_eq_ok (p : ClassProfile) (code : List (List Char)) {caller : LockingMethod}
    (callee : String) (numbered : 1 ≤ caller.line) :
    callLine? p code caller callee = .ok (Trigger.callLine? p code caller callee) := by
  -- The window starts at the line of the caller, so no line in it has a smaller number.
  refine findM?_eq_ok fun line member => callsOnLine_eq_ok p code caller callee ?_
  exact Nat.le_trans numbered (List.left_le_of_mem_range' member)

/-- The calls between the locking methods of a class, the first for each pair of methods. -/
def calls (p : ClassProfile) (code : List (List Char)) : Guarded (List Trigger.Call) := do
  let callees := (p.lockingMethods.map (·.name)).eraseDups
  let found ← p.lockingMethods.flatMapM fun caller =>
    (callees.filter (· != caller.name)).filterMapM fun callee => do
      return (← callLine? p code caller callee).map fun line => ⟨caller.name, callee, line⟩
  return found.eraseDupsBy Trigger.Call.samePair

/-- Every locking method of a class stands on a line with a number, counted from 1. -/
def Numbered (p : ClassProfile) : Prop :=
  ∀ m ∈ p.lockingMethods, 1 ≤ m.line

/-- Calls are looked for without fault in a class whose methods are numbered. -/
theorem calls_eq_ok {p : ClassProfile} (numbered : Numbered p) (code : List (List Char)) :
    calls p code = .ok (Trigger.calls p code) := by
  -- A single search is without fault, as the method starts at line 1 or below.
  have each : ∀ caller ∈ p.lockingMethods, ∀ callee, (do
      return (← callLine? p code caller callee).map fun line =>
        (⟨caller.name, callee, line⟩ : Trigger.Call)) =
      (.ok ((Trigger.callLine? p code caller callee).map fun line =>
        ⟨caller.name, callee, line⟩) : Guarded _) := by
    intro caller member callee
    rw [callLine?_eq_ok p code callee (numbered caller member)]
    rfl
  simp only [calls]
  rw [flatMapM_eq_ok fun caller member => filterMapM_eq_ok fun callee _ =>
    each caller member callee]
  rfl

/-- A public method that locks should not call another one. -/
def publicCallsPublic (p : ClassProfile) (file : FileLines) : Guarded (List Finding) := do
  return (← calls p file.code).map (·.finding)

/-- The findings of a rule; the rules without a case of their own read no place by its number. -/
def findings (rule : Rule) (profiles : List ClassProfile) (file : FileLines) :
    Guarded (List Finding) :=
  match rule.id with
  | .manualLockUnlock => manualLockUnlock file
  | .publicCallsPublic => profiles.flatMapM (publicCallsPublic · file)
  | .constMethodLock => constMethodLock file
  | _ => return rule.findings profiles file

/-- Every rule of the table reports on numbered classes without fault. -/
theorem findings_eq_ok {rule : Rule} (member : rule ∈ Rule.table) {profiles : List ClassProfile}
    (numbered : ∀ p ∈ profiles, Numbered p) (file : FileLines) :
    findings rule profiles file = .ok (rule.findings profiles file) := by
  have called : profiles.flatMapM (publicCallsPublic · file) =
      .ok (profiles.flatMap (Trigger.publicCallsPublic · file)) := by
    refine flatMapM_eq_ok fun p inFile => ?_
    rw [publicCallsPublic, calls_eq_ok (numbered p inFile)]
    rfl
  -- One case for each rule of the table, in its order.
  simp only [Rule.table, List.mem_cons, List.not_mem_nil, or_false] at member
  rcases member with rfl | rfl | rfl | rfl | rfl | rfl | rfl
  · rfl
  · rfl
  · exact manualLockUnlock_eq_ok file
  · exact called
  · rfl
  · rfl
  · exact constMethodLock_eq_ok file

/-- The issues of a file, rule by rule. -/
def evaluate (flavor : Flavor) (settings : RuleSettings) (file : String)
    (profiles : List ClassProfile) (content : FileLines) : Guarded (List Issue) :=
  (Rule.active flavor settings).flatMapM fun rule => do
    return (← findings rule profiles content).map
      (Rule.toIssue rule.id ((settings.level? rule.id).getD rule.severity) file)

/-- The active rules are evaluated on numbered classes without fault. -/
theorem evaluate_eq_ok (flavor : Flavor) (settings : RuleSettings) (file : String)
    {profiles : List ClassProfile} (numbered : ∀ p ∈ profiles, Numbered p) (content : FileLines) :
    evaluate flavor settings file profiles content =
      .ok (Rule.evaluate flavor settings file profiles content) := by
  -- Only rules of the table can be active.
  refine flatMapM_eq_ok fun rule active => ?_
  rw [findings_eq_ok (List.mem_filter.mp active).1 numbered]
  rfl

/-- Scans a file and evaluates the rules on it, unless it asks to be ignored. -/
def check (window : LockWindow) (flavor : Flavor) (settings : RuleSettings) (file : SourceFile) :
    Guarded FileReport := do
  if SourceFile.isIgnored file.text then return ⟨false, [], []⟩
  let classes ← profiles file.name window file.code
  let issues ← evaluate flavor settings file.name classes (.ofTexts file.text file.code)
  return ⟨true, classes, issues⟩

/-- Every class that the scanner reports is numbered: lines are counted from 1. -/
theorem numbered_of_mem_profiles {file : String} {window : LockWindow} {code : List Char}
    {p : ClassProfile} (member : p ∈ Scan.profiles file window code) : Numbered p := by
  intro m locking
  obtain ⟨region, -, -, rfl⟩ := Scan.exists_region member
  -- A line of a method is the line of its region plus a place, counted from 1.
  obtain ⟨d, -, found⟩ := List.mem_filterMap.mp locking
  obtain ⟨-, -, rfl⟩ := Scan.lockingMethod?_eq_some_iff.mp found
  exact Nat.le_add_left 1 _

/-- A file is checked without fault if the end of the window fits. -/
theorem check_eq_ok {window : LockWindow} (flavor : Flavor) (settings : RuleSettings)
    {file : SourceFile} (fits : Fits (lines file.code).length window) :
    check window flavor settings file = .ok (file.check window flavor settings) := by
  -- Line numbers and window are the only places where the check could fault.
  have numbered : ∀ p ∈ Scan.profiles file.name window file.code, Numbered p :=
    fun _ member => numbered_of_mem_profiles member
  have evaluated := evaluate_eq_ok flavor settings file.name numbered
    (.ofTexts file.text file.code)
  simp only [check, SourceFile.check, profiles_eq_ok file.name fits, ok_bind, evaluated]
  exact (apply_ite Except.ok _ _ _).symm

/--
No access of a check goes wrong.

For every text, name, flavor, settings and window, the check by byte positions and line numbers
reaches its end: each slice is in range and between characters, each stretch of lines in range, and
no difference negative. What it reports is what the check reports that never counts positions. All
that is asked is that the end of a window fits into a machine word.
-/
theorem check_never_faults (name : String) (text : List Char) (blank : Bool) (window : LockWindow)
    (flavor : Flavor) (settings : RuleSettings) (fits : Fits (lines text).length window) :
    check window flavor settings (.ofText name text blank) =
      .ok ((SourceFile.ofText name text blank).check window flavor settings) := by
  -- Blanking keeps the lines, so the window fits the code view as it fits the text.
  refine check_eq_ok flavor settings ?_
  rw [SourceFile.length_lines_code]
  exact fits

/-- A file with longer characters, a brace too many and an open literal, checked without fault. -/
theorem check_never_faults_unbalanced :
    let text := "struct Ö \x7b\nvoid é() \x7b m.lock(); \x7d\n\x7d \x7b 😀 \"".toList
    let file := SourceFile.ofText "é.h" text true
    Fits (lines text).length (.lines 2 20) ∧
      check (.lines 2 20) .check {} file = .ok (file.check (.lines 2 20) .check {}) ∧
      (file.check (.lines 2 20) .check {}).issues.map (·.line) = [2] := by
  intro text file
  -- The window fits, and the finding is computed on the plain check.
  have fits : Fits (lines text).length (.lines 2 20) := by decide +kernel
  have answered := check_never_faults "é.h" text true (.lines 2 20) .check {} fits
  exact ⟨fits, answered, by decide +kernel⟩

-- Without that room the sum of a line and the length of its window overflows.
example :
    let text := "struct Ö \x7b\nvoid é() \x7b m.lock(); \x7d\n\x7d".toList
    let most := UInt64.ofNat (UInt64.size - 1)
    check (.lines 0 most) .check {} (.ofText "é.h" text false) = .error .overflow := by
  decide +kernel

end LockDiscipline.Bounds
