import LockDiscipline.Proofs.Calls
import LockDiscipline.Proofs.CodeView.Layout
import LockDiscipline.Proofs.Region
import LockDiscipline.Proofs.Repetition
import LockDiscipline.Proofs.Rule.Evaluate
import LockDiscipline.Proofs.Scan.Declarations
import LockDiscipline.Source

/-! Every issue points at a line of the file, and that line shows what the issue says. -/

namespace LockDiscipline

open LockDiscipline.Text

/-- The line of a text with a given number, counted from 1. -/
def Text.numbered? (text : List Char) : (number : Nat) → Option (List Char)
  | 0 => none
  | index + 1 => (lines text)[index]?

/-- A line that exists has a number from 1 to the number of lines. -/
theorem Text.bounds_of_numbered? {text line : List Char} {number : Nat}
    (found : numbered? text number = some line) : 1 ≤ number ∧ number ≤ (lines text).length := by
  -- Counting from 1, the number is one more than an index of the list of lines.
  cases number with
  | zero => exact absurd found (by simp [numbered?])
  | succ index =>
    have inside := (List.getElem?_eq_some_iff.mp found).1
    omega

/-- What an issue of a rule, with its line and its message, must find in the file. -/
def Evidence (file : SourceFile) (classes : List ClassProfile) (line : Nat) (message : String) :
    RuleId → Prop
  -- The signature of the method shows in the code view.
  | .missingUnlockedMethod => ∃ p ∈ classes, ∃ m ∈ p.lockingMethods,
      message = "Public method '" ++ m.name ++ "' acquires locks but has no private '" ++
        (m.name ++ "_unlocked") ++ "' counterpart" ∧
      line = m.line ∧ ∃ shown ∈ numbered? file.code line, ShowsCall m.name.toList shown
  -- The line of the code view goes on, where the class starts, with its keyword.
  | .multipleMutexes => ∃ p ∈ classes, ∃ region ∈ Region.findAll file.code,
      p.name = String.ofList region.name ∧
      message = "Class '" ++ p.name ++ "' has multiple mutexes (" ++ ", ".intercalate p.mutexes ++
        ") - verify lock acquisition order" ∧
      line = region.firstLine + 1 ∧ ∃ rest, numbered? file.code line =
        some (lastLine region.lead ++ region.kind.keyword.toList ++ rest)
  -- A call shows in the code view, in the window of the caller and on no signature of the callee.
  | .publicCallsPublic => ∃ p ∈ classes, ∃ caller ∈ p.lockingMethods, ∃ callee ∈ p.lockingMethods,
      message = "Public method '" ++ caller.name ++ "' may call public method '" ++ callee.name ++
        "' - potential deadlock risk" ∧
      caller.line ≤ line ∧ line ≤ caller.windowEnd ∧
      (∀ m ∈ p.lockingMethods, m.name = callee.name → m.line ≠ line) ∧
      ∃ shown ∈ numbered? file.code line, ShowsCall callee.name.toList shown
  -- The line itself unlocks or locks, comments and literals included.
  | .manualLockUnlock => ∃ shown ∈ numbered? file.text line, Vocabulary.hasManualUnlock shown = true
  | .callbackUnderLock => ∃ shown ∈ numbered? file.text line, Vocabulary.hasLock shown = true
  | .constMethodLock => ∃ shown ∈ numbered? file.text line, Vocabulary.hasLock shown = true
  -- What is missing shows nowhere; the issue stands at the top of the file.
  | .missingLockOrderDoc => line = 1
  | .fileReadError => False

namespace Scan

variable {name : String} {window : LockWindow} {code : List Char} {p : ClassProfile}

/-- A class that is reported is the profile of a region that stands in the code view. -/
theorem exists_region (member : p ∈ profiles name window code) :
    ∃ region ∈ Region.findAll code, region.StandsIn code ∧ p = profile name window region := by
  -- Reported classes are some of those that regions give.
  obtain ⟨profiled, -⟩ := List.mem_filter.mp member
  obtain ⟨region, found, rfl⟩ := List.mem_map.mp profiled
  exact ⟨region, found, Region.standsIn_of_mem_findAll found, rfl⟩

/-- A declaration of a region shows in the code view, as many lines below the class as it says. -/
theorem showsCall_of_mem_declarations {region : Region} (stands : region.StandsIn code)
    {d : Declaration} (declared : d ∈ declarations region) :
    ∃ shown ∈ numbered? code (region.firstLine + d.index + 1), ShowsCall d.name shown := by
  obtain ⟨above, line, below, shape, place, later, onLine⟩ := stands_of_mem_declarations declared
  have found : (lines region.body)[d.index]? = some line := by
    simp [shape, place]
  obtain ⟨rest, inView⟩ := stands.laterLine later found
  have notDestructor : d.name.head? ≠ some '~' := by
    have ordinary := onLine.ordinary
    simp only [isOrdinary, Bool.and_eq_true, bne_iff_ne] at ordinary
    exact ordinary.1.2
  -- The signature is read off the trimmed line of the region, which opens the line of the view.
  have onOwn := (Signature.showsCall_of_name? onLine.signature notDestructor).of_trim
  have atStart : Cursor.touchesWord ([] : List Char).getLast? = false := rfl
  exact ⟨line ++ rest, inView, onOwn.within atStart rest⟩

/-- A locking method shows in the code view, on its own line. -/
theorem showsCall_of_mem_lockingMethods (member : p ∈ profiles name window code)
    {m : LockingMethod} (locking : m ∈ p.lockingMethods) :
    ∃ shown ∈ numbered? code m.line, ShowsCall m.name.toList shown := by
  -- The method is declared in the region, and a declaration shows its signature.
  obtain ⟨region, -, stands, rfl⟩ := exists_region member
  obtain ⟨d, declared, found⟩ := List.mem_filterMap.mp locking
  obtain ⟨-, -, rfl⟩ := lockingMethod?_eq_some_iff.mp found
  simpa using showsCall_of_mem_declarations stands declared

end Scan

namespace Trigger

/-- The line numbers of a condition are those of the lines that satisfy it. -/
theorem exists_line_of_mem_lineNumbers {hits : List Char → Nat → Bool} {text : List Char}
    {number : Nat} (member : number ∈ lineNumbers hits (lines text)) :
    ∃ index, ∃ shown ∈ numbered? text number, hits shown index = true := by
  -- Lines are numbered from 0 in the search and from 1 in what it reports.
  obtain ⟨⟨shown, index⟩, hit, rfl⟩ := List.mem_map.mp member
  obtain ⟨numbered, satisfied⟩ := List.mem_filter.mp hit
  exact ⟨index, shown, List.mk_mem_zipIdx_iff_getElem?.mp numbered, satisfied⟩

variable {p : ClassProfile} {code : List Char}

/-- A call that is found lies in the window of the caller and on no signature of the callee. -/
theorem callLine?_spec {caller : LockingMethod} {callee : String} (isName : IsName callee.toList)
    {line : Nat} (found : callLine? p (lines code) caller callee = some line) :
    caller.line ≤ line ∧ line ≤ caller.windowEnd ∧
      (∀ m ∈ p.lockingMethods, m.name = callee → m.line ≠ line) ∧
      ∃ shown ∈ numbered? code line, ShowsCall callee.toList shown := by
  -- The search goes over the lines of the window, and stops at one that passes the test for a call.
  have inRange := List.mem_range'_1.mp (List.mem_of_find?_eq_some found)
  have calls := List.find?_some found
  simp only [callsOnLine, Bool.and_eq_true, Bool.not_eq_true', List.any_eq_false,
    decide_eq_true_eq, Option.any_eq_true] at calls
  obtain ⟨⟨elsewhere, positive⟩, shown, inView, occurs⟩ := calls
  refine ⟨inRange.1, by omega, fun m member named => ?_, shown, ?_, ?_⟩
  · simpa [named] using elsewhere m member
  · obtain ⟨index, rfl⟩ : ∃ index, line = index + 1 := ⟨line - 1, by omega⟩
    exact inView
  · have calling := showsCall_of_occursIn isName occurs
    -- On the line of its own signature the caller can call only after its parameters.
    split at calling
    · exact showsCall_of_afterSignature calling
    · exact calling

/-- A call that is reported is one that is found, between two locking methods of the class. -/
theorem exists_callLine {call : Call} (member : call ∈ calls p (lines code)) :
    ∃ caller ∈ p.lockingMethods, ∃ callee ∈ p.lockingMethods, call.caller = caller.name ∧
      call.callee = callee.name ∧
      callLine? p (lines code) caller callee.name = some call.line := by
  -- Repeated pairs are left out, which drops calls but changes none.
  obtain ⟨caller, locking, found⟩ := List.mem_flatMap.mp (mem_of_mem_eraseDupsBy member)
  obtain ⟨name, other, reported⟩ := List.mem_filterMap.mp found
  obtain ⟨line, calls, rfl⟩ := Option.map_eq_some_iff.mp reported
  have named := mem_of_mem_eraseDupsBy (List.mem_filter.mp other).1
  obtain ⟨callee, alsoLocking, rfl⟩ := List.mem_map.mp named
  exact ⟨caller, locking, callee, alsoLocking, rfl, rfl, calls⟩

end Trigger

/-- An issue with evidence points at a line of the file. -/
theorem Evidence.bounds {file : SourceFile} {classes : List ClassProfile} {line : Nat}
    {message : String} {id : RuleId} (evidence : Evidence file classes line message id)
    (sameCount : (lines file.code).length = (lines file.text).length) :
    1 ≤ line ∧ line ≤ (lines file.text).length := by
  -- A line that shows anything exists, in the text or in the code view.
  have ofText : ∀ {shown : List Char}, numbered? file.text line = some shown →
      1 ≤ line ∧ line ≤ (lines file.text).length := bounds_of_numbered?
  have ofCode : ∀ {shown : List Char}, numbered? file.code line = some shown →
      1 ≤ line ∧ line ≤ (lines file.text).length := by
    intro shown found
    rw [← sameCount]
    exact bounds_of_numbered? found
  -- One case for each rule, as its evidence names a line of the text, the view or the file.
  cases id with
  | missingUnlockedMethod =>
    obtain ⟨-, -, -, -, -, -, shown, found, -⟩ := evidence
    exact ofCode found
  | multipleMutexes =>
    obtain ⟨p, -, region, -, -, -, -, rest, found⟩ := evidence
    exact ofCode found
  | manualLockUnlock =>
    obtain ⟨shown, found, -⟩ := evidence
    exact ofText found
  | publicCallsPublic =>
    obtain ⟨-, -, -, -, -, -, -, -, -, -, shown, found, -⟩ := evidence
    exact ofCode found
  | missingLockOrderDoc =>
    obtain rfl : line = 1 := evidence
    rw [length_lines]
    omega
  | callbackUnderLock =>
    obtain ⟨shown, found, -⟩ := evidence
    exact ofText found
  | constMethodLock =>
    obtain ⟨shown, found, -⟩ := evidence
    exact ofText found
  | fileReadError => exact evidence.elim

namespace Trigger

variable {file : SourceFile} {window : LockWindow} {p : ClassProfile} {finding : Finding}

/-- A method without a twin shows on the line of its signature. -/
theorem evidence_missingUnlockedMethod (inFile : p ∈ Scan.profiles file.name window file.code)
    (found : finding ∈ missingUnlockedMethod p) :
    Evidence file (Scan.profiles file.name window file.code) finding.line finding.message
      .missingUnlockedMethod := by
  -- The finding takes its line from the method, and the method has it from its signature.
  obtain ⟨m, locking, missing⟩ := List.mem_filterMap.mp found
  simp only [Option.ite_none_left_eq_some, Option.some.injEq] at missing
  obtain ⟨-, rfl⟩ := missing
  exact ⟨p, inFile, m, locking, rfl, rfl, Scan.showsCall_of_mem_lockingMethods inFile locking⟩

/-- A class with several mutexes shows its keyword. -/
theorem evidence_multipleMutexes (inFile : p ∈ Scan.profiles file.name window file.code)
    (found : finding ∈ multipleMutexes p) :
    Evidence file (Scan.profiles file.name window file.code) finding.line finding.message
      .multipleMutexes := by
  -- One mutex or none is no finding.
  unfold multipleMutexes at found
  split at found
  · exact absurd found List.not_mem_nil
  · obtain rfl := List.mem_singleton.mp found
    obtain ⟨region, inView, stands, shape⟩ := Scan.exists_region inFile
    refine ⟨p, inFile, region, inView, by rw [shape]; rfl, rfl, by rw [shape]; rfl, ?_⟩
    rw [shape]
    exact stands.firstLine

/-- A call between locking methods shows in the window of the caller. -/
theorem evidence_publicCallsPublic (inFile : p ∈ Scan.profiles file.name window file.code)
    (found : finding ∈ publicCallsPublic p (.ofTexts file.text file.code)) :
    Evidence file (Scan.profiles file.name window file.code) finding.line finding.message
      .publicCallsPublic := by
  obtain ⟨call, called, rfl⟩ := List.mem_map.mp found
  obtain ⟨caller, locking, callee, alsoLocking, fromName, toName, onLine⟩ := exists_callLine called
  -- The name of the callee is a name because its own signature shows it.
  obtain ⟨signature, -, onSignature⟩ := Scan.showsCall_of_mem_lockingMethods inFile alsoLocking
  exact ⟨p, inFile, caller, locking, callee, alsoLocking, by rw [Call.finding, fromName, toName],
    callLine?_spec onSignature.isName onLine⟩

/-- A finding on single lines of the text shows on its line whatever the lines were searched for. -/
theorem exists_shown {text : List Char} {hits : List Char → Nat → Bool} {toFinding : Nat → Finding}
    (numbered : ∀ line, (toFinding line).line = line)
    (found : finding ∈ (lineNumbers hits (lines text)).map toFinding) :
    ∃ index, ∃ shown ∈ numbered? text finding.line, hits shown index = true := by
  -- Each finding comes from one line that satisfied the condition.
  obtain ⟨line, member, rfl⟩ := List.mem_map.mp found
  rw [numbered]
  exact exists_line_of_mem_lineNumbers member

end Trigger

/-- Every rule of the table finds only what the file shows. -/
theorem Rule.evidence_of_mem_findings {file : SourceFile} {window : LockWindow} {rule : Rule}
    (member : rule ∈ table) {finding : Finding}
    (found : finding ∈ rule.findings (Scan.profiles file.name window file.code)
      (.ofTexts file.text file.code)) :
    Evidence file (Scan.profiles file.name window file.code) finding.line finding.message
      rule.id := by
  -- One case for each rule of the table, in its order.
  simp only [table, List.mem_cons, List.not_mem_nil, or_false] at member
  rcases member with rfl | rfl | rfl | rfl | rfl | rfl | rfl
  · obtain ⟨p, inFile, reported⟩ := List.mem_flatMap.mp found
    exact Trigger.evidence_missingUnlockedMethod inFile reported
  · obtain ⟨p, inFile, reported⟩ := List.mem_flatMap.mp found
    exact Trigger.evidence_multipleMutexes inFile reported
  · -- The lines are trimmed before they are searched for an unlock.
    obtain ⟨index, shown, inText, unlocks⟩ := Trigger.exists_shown (fun _ => rfl) found
    have trimmed := (Bool.and_eq_true_iff.mp unlocks).1
    exact ⟨shown, inText, Vocabulary.hasManualUnlock_of_trim trimmed⟩
  · obtain ⟨p, inFile, reported⟩ := List.mem_flatMap.mp found
    exact Trigger.evidence_publicCallsPublic inFile reported
  · simp only [findings, Trigger.missingLockOrderDoc] at found
    split at found
    · obtain rfl := List.mem_singleton.mp found
      rfl
    · exact absurd found List.not_mem_nil
  · obtain ⟨index, shown, inText, locks⟩ := Trigger.exists_shown (fun _ => rfl) found
    exact ⟨shown, inText, (Bool.and_eq_true_iff.mp locks).1⟩
  · obtain ⟨index, shown, inText, locks⟩ := Trigger.exists_shown (fun _ => rfl) found
    have both := (Bool.and_eq_true_iff.mp locks).1
    exact ⟨shown, inText, (Bool.and_eq_true_iff.mp both).2⟩

/-- A file and its code view have equally many lines. -/
theorem SourceFile.length_lines_code (name : String) (text : List Char) (blank : Bool) :
    (lines (ofText name text blank).code).length = (lines text).length := by
  -- Blanking keeps every line break, and without it the two texts are the same.
  cases blank with
  | false => rfl
  | true => exact (CodeView.ofText_view text).1.sameLayout.lineCount

/--
Every issue points at its evidence.

Whatever the window, the flavor and the settings, an issue has the number of a line of the text,
and that line shows what the issue says: a signature, a class keyword, a call, an unlock or a lock.
-/
theorem SourceFile.issues_have_evidence (name : String) (text : List Char) (blank : Bool)
    (window : LockWindow) (flavor : Flavor) (settings : RuleSettings) :
    let file := SourceFile.ofText name text blank
    let report := file.check window flavor settings
    ∀ issue ∈ report.issues, 1 ≤ issue.line ∧ issue.line ≤ (lines text).length ∧
      ∀ id, issue.rule = id.name → Evidence file report.classes issue.line issue.message id := by
  intro file report issue member
  -- An ignored file has no issues; any other has those that the rules of the table find.
  by_cases ignored : isIgnored file.text = true
  · simp [report, check, ignored] at member
  · simp only [report, check, if_neg ignored] at member ⊢
    rw [Rule.evaluate_eq_flatMap] at member
    obtain ⟨rule, inTable, reported⟩ := List.mem_flatMap.mp member
    obtain ⟨finding, found, rfl⟩ := Rule.exists_finding reported
    have evidence := Rule.evidence_of_mem_findings inTable found
    obtain ⟨positive, inside⟩ := evidence.bounds (length_lines_code name text blank)
    refine ⟨positive, inside, fun id named => ?_⟩
    obtain rfl : rule.id = id := RuleId.eq_of_name_eq named
    exact evidence

/-- A call on the line of the caller's own signature, between two methods that lock. -/
theorem SourceFile.evidence_of_call_on_signature :
    let text :=
      ("class A \x7b\npublic:\n  int f() \x7b m.lock(); g(); \x7d\n" ++
        "  int g() \x7b\n    m.lock();\n  \x7d\n\x7d;").toList
    let file := SourceFile.ofText "a.cpp" text true
    let report := file.check (.lines 2 20) .check {}
    let issue : Issue :=
      { severity := .warning
        file := "a.cpp"
        line := 3
        message := "Public method 'f' may call public method 'g' - potential deadlock risk"
        suggestion := some "Use 'g_unlocked()' instead if calling from within the same class"
        rule := "PUBLIC_CALLS_PUBLIC" }
    issue ∈ report.issues ∧ issue.line ≤ (lines text).length ∧
      Evidence file report.classes 3 issue.message .publicCallsPublic := by
  intro text file report issue
  -- That the issue is reported is computed, and its evidence follows.
  have member : issue ∈ report.issues := by decide +kernel
  obtain ⟨-, inside, evidence⟩ :=
    issues_have_evidence "a.cpp" text true (.lines 2 20) .check {} issue member
  exact ⟨member, inside, evidence .publicCallsPublic rfl⟩

end LockDiscipline
