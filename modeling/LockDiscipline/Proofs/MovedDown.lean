import LockDiscipline.Proofs.CodeView.Break
import LockDiscipline.Proofs.Repetition
import LockDiscipline.Proofs.Rule.Evaluate
import LockDiscipline.Proofs.Scan.Append
import LockDiscipline.Source

/-! Line breaks above a text move everything that is reported about it down, and no more. -/

namespace LockDiscipline

open LockDiscipline.Text

/-- A finding, counted from further up. -/
def Finding.movedDown (count : Nat) (f : Finding) : Finding :=
  { f with line := f.line + count }

/-- The lines of a file, with an empty line above them. -/
def FileLines.belowBlank (file : FileLines) : FileLines :=
  ⟨[] :: file.raw, [] :: file.code⟩

/-- A line break above a text and above its code view is an empty line above their lines. -/
theorem FileLines.ofTexts_break (raw code : List Char) :
    FileLines.ofTexts ('\n' :: raw) ('\n' :: code) = (FileLines.ofTexts raw code).belowBlank := by
  -- The break makes one more line in the text and one more in the view, both empty.
  simp only [ofTexts, belowBlank, lines_break]

/-- A line break above a code view moves its classes down. -/
theorem Scan.profiles_break (file : String) (window : LockWindow) (code : List Char) :
    profiles file window ('\n' :: code) =
      (profiles file window code).map (·.movedDown 1) := by
  -- The break is a text of its own in front: it has no classes and leaves nothing open.
  have none : Region.findAll ['\n'] = [] := by decide
  have regions : Region.findAll ('\n' :: code) =
      (Region.findAll code).map (Region.below ['\n']) := by
    have ended : EndsStatement ['\n'] := by decide
    have allClose : Region.AllClose ['\n'] := by decide
    rw [← List.singleton_append, Region.findAll_append ended allClose, none, List.nil_append]
  have moved : profile file window ∘ Region.below ['\n'] =
      ClassProfile.movedDown 1 ∘ profile file window :=
    funext fun region => profile_below file
  have relevant : ClassProfile.isRelevant ∘ ClassProfile.movedDown 1 = ClassProfile.isRelevant :=
    funext fun p => p.isRelevant_movedDown 1
  rw [profiles, profiles, regions, List.map_map, moved, ← List.map_map, List.filter_map, relevant]

namespace Trigger

/-- A class that is moved down has its twins missing on the lines moved down. -/
theorem missingUnlockedMethod_movedDown (count : Nat) (p : ClassProfile) :
    missingUnlockedMethod (p.movedDown count) =
      (missingUnlockedMethod p).map (·.movedDown count) := by
  simp only [missingUnlockedMethod, ClassProfile.movedDown, List.filterMap_map,
    List.map_filterMap]
  refine List.filterMap_congr fun m _ => ?_
  -- The name decides whether a twin is missing, and it stays as it is.
  by_cases present : twinName m.name ∈ p.unlockedMethods
  · simp [present, LockingMethod.movedDown]
  · simp [present, LockingMethod.movedDown, Finding.movedDown]

/-- A class that is moved down has its mutexes counted on the line moved down. -/
theorem multipleMutexes_movedDown (count : Nat) (p : ClassProfile) :
    multipleMutexes (p.movedDown count) = (multipleMutexes p).map (·.movedDown count) := by
  -- Fewer than two mutexes are no finding, before and after.
  by_cases few : p.mutexes.length < 2
  · simp [multipleMutexes, ClassProfile.movedDown, few]
  · simp [multipleMutexes, ClassProfile.movedDown, Finding.movedDown, few]

/-- An empty line above shows up around a line at most as a line more, at the top. -/
theorem any_context_blank {fits : List Char → Bool} (blank : fits [] = false) (before after : Nat)
    (all : List (List Char)) (index : Nat) :
    (context before after ([] :: all) (index + 1)).any fits =
      (context before after all index).any fits := by
  by_cases near : index + 1 ≤ before
  · -- The context is clipped at the start of the file, so the empty line is in it.
    have top : index + 1 - before = 0 ∧ index - before = 0 := by omega
    have size : index + 1 + after + 1 - 0 = index + after + 1 - 0 + 1 := by omega
    simp only [context, top, size, List.drop_zero, List.take_succ_cons, List.any_cons, blank,
      Bool.false_or]
  · have start : index + 1 - before = index - before + 1 := by omega
    have size : index + 1 + after + 1 - (index - before + 1) =
        index + after + 1 - (index - before) := by omega
    simp only [context, start, size, List.drop_succ_cons]

/-- Below an empty line that does not count, the lines that count are moved down. -/
theorem lineNumbers_blank {hits below : List Char → Nat → Bool} (blank : below [] 0 = false)
    (same : ∀ line index, below line (index + 1) = hits line index) (all : List (List Char)) :
    lineNumbers below ([] :: all) = (lineNumbers hits all).map (· + 1) := by
  -- The indices of the lines below the empty one are those of the file, one more each.
  have numbers : all.zipIdx 1 = all.zipIdx.map (Prod.map id (· + 1)) := by
    rw [List.map_snd_add_zipIdx_eq_zipIdx]
  have moved : (fun item : List Char × Nat => below item.1 item.2) ∘ Prod.map id (· + 1) =
      fun item => hits item.1 item.2 :=
    funext fun item => same item.1 item.2
  simp only [lineNumbers, List.zipIdx_cons, Nat.zero_add, numbers, List.filter_cons, blank,
    Bool.false_eq_true, if_false, List.filter_map, List.map_map]
  rw [moved]
  rfl

/-- Below an empty line, the lines reported for what is found on them are moved down. -/
theorem map_lineNumbers_blank {hits below : List Char → Nat → Bool} (blank : below [] 0 = false)
    (same : ∀ line index, below line (index + 1) = hits line index) (all : List (List Char))
    {report : Nat → Finding} (placed : ∀ line, report (line + 1) = (report line).movedDown 1) :
    (lineNumbers below ([] :: all)).map report =
      ((lineNumbers hits all).map report).map (·.movedDown 1) := by
  -- The numbers are one higher, and the report of a number moves with it.
  rw [lineNumbers_blank blank same, List.map_map, List.map_map]
  exact List.map_congr_left fun line _ => placed line

/-- An empty line above a file moves its unlocks by hand down. -/
theorem manualLockUnlock_belowBlank (file : FileLines) :
    manualLockUnlock file.belowBlank = (manualLockUnlock file).map (·.movedDown 1) := by
  -- The blank line shows no guard, so it excuses nothing in the window of another line.
  refine map_lineNumbers_blank rfl (fun line index => ?_) file.raw fun _ => rfl
  have noGuard : Vocabulary.hasGuard [] = false := rfl
  rw [unlocksWithoutGuard, unlocksWithoutGuard, FileLines.belowBlank, any_context_blank noGuard]

/-- An empty line above a file moves its callbacks under a lock down. -/
theorem callbackUnderLock_belowBlank (file : FileLines) :
    callbackUnderLock file.belowBlank = (callbackUnderLock file).map (·.movedDown 1) :=
  -- The rule looks at one line at a time, and the empty line is no hit.
  map_lineNumbers_blank rfl (fun _ _ => rfl) file.raw fun _ => rfl

/-- An empty line above a file moves its locks in const code down. -/
theorem constMethodLock_belowBlank (file : FileLines) :
    constMethodLock file.belowBlank = (constMethodLock file).map (·.movedDown 1) := by
  -- The blank line does not say `mutable`.
  refine map_lineNumbers_blank rfl (fun line index => ?_) file.raw fun _ => rfl
  have notMutable : hasPhrase "mutable".toList [] = false := rfl
  rw [locksInConst, locksInConst, FileLines.belowBlank, any_context_blank notMutable]

/-- An empty line neither locks nor documents an order. -/
theorem missingLockOrderDoc_belowBlank (file : FileLines) :
    missingLockOrderDoc file.belowBlank = missingLockOrderDoc file := by
  -- The new line adds nothing to what is looked for in all lines.
  have noLocks : decide (2 ≤ Vocabulary.lockCount []) = false := rfl
  have noMention : lockOrderMention.occursIn [] = false := rfl
  simp only [missingLockOrderDoc, FileLines.belowBlank, List.any_cons, noLocks, noMention,
    Bool.false_or]

/-- On an empty line nothing is called, also if it is taken for the line of a signature. -/
theorem not_occursIn_blank (callee : String) (signature : Prop) [Decidable signature]
    (method : String) :
    (callPattern callee).occursIn (if signature then afterSignature method [] else []) = false := by
  -- With or without the method on it, an empty line leaves nothing behind a signature.
  have rest : afterSignature method [] = [] := by
    cases unnamed : method.toList.isEmpty <;> simp [afterSignature, findPhrase?, unnamed]
  rw [rest, ite_self]
  rfl

/-- What counts as a call on a line counts on the line moved down. -/
theorem callsOnLine_belowBlank (p : ClassProfile) (code : List (List Char))
    (caller : LockingMethod) (callee : String) (line : Nat) :
    callsOnLine (p.movedDown 1) ([] :: code) (caller.movedDown 1) callee (line + 1) =
      callsOnLine p code caller callee line := by
  have signatures : ((p.movedDown 1).lockingMethods.any fun m =>
      m.name == callee && m.line == line + 1) =
        p.lockingMethods.any fun m => m.name == callee && m.line == line := by
    simp [ClassProfile.movedDown, LockingMethod.movedDown, List.any_map, Function.comp_def]
  rw [callsOnLine, callsOnLine, signatures]
  cases line with
  | zero =>
    -- Lines are counted from 1, so what is moved down here is the empty line.
    have blank := not_occursIn_blank callee (0 + 1 = (caller.movedDown 1).line)
      (caller.movedDown 1).name
    simp [blank]
  | succ index =>
    simp [LockingMethod.movedDown]

/-- The first call in the window of a method is moved down with the method. -/
theorem callLine?_belowBlank (p : ClassProfile) (code : List (List Char))
    (caller : LockingMethod) (callee : String) :
    callLine? (p.movedDown 1) ([] :: code) (caller.movedDown 1) callee =
      (callLine? p code caller callee).map (· + 1) := by
  -- The window is as long as before, and each of its lines has moved by one.
  have size : min (caller.windowEnd + 1) (code.length + 1) + 1 - (caller.line + 1) =
      min caller.windowEnd code.length + 1 - caller.line := by omega
  have window (count : Nat) : List.range' (caller.line + 1) count =
      (List.range' caller.line count).map (· + 1) := by
    rw [Nat.add_comm caller.line, ← List.map_add_range']
    simp only [Nat.add_comm 1]
  have same : callsOnLine (p.movedDown 1) ([] :: code) (caller.movedDown 1) callee ∘ (· + 1) =
      callsOnLine p code caller callee :=
    funext fun line => callsOnLine_belowBlank p code caller callee line
  simp only [callLine?, LockingMethod.movedDown, List.length_cons, size, window, List.find?_map]
  exact congrArg (fun calls => Option.map (· + 1) (List.find? calls _)) same

/-- A call, counted from further up. -/
def Call.movedDown (count : Nat) (call : Call) : Call :=
  { call with line := call.line + count }

/-- The calls of a class are moved down with it. -/
theorem calls_belowBlank (p : ClassProfile) (code : List (List Char)) :
    calls (p.movedDown 1) ([] :: code) = (calls p code).map (·.movedDown 1) := by
  have names : (p.movedDown 1).lockingMethods.map (·.name) = p.lockingMethods.map (·.name) := by
    simp only [ClassProfile.movedDown, List.map_map]
    rfl
  have samePairs (x y : Call) : (x.movedDown 1).samePair (y.movedDown 1) = x.samePair y := rfl
  rw [calls, calls, names, ← eraseDupsBy_map samePairs]
  -- Method by method and name by name, the same line is found, moved down.
  refine congrArg (List.eraseDupsBy Call.samePair) ?_
  simp only [List.map_flatMap, List.map_filterMap, Option.map_map]
  show (p.lockingMethods.map (·.movedDown 1)).flatMap _ = _
  rw [List.flatMap_map]
  simp only [callLine?_belowBlank, Option.map_map]
  rfl

/-- An empty line above a file moves the calls between its public methods down. -/
theorem publicCallsPublic_belowBlank (p : ClassProfile) (file : FileLines) :
    publicCallsPublic (p.movedDown 1) file.belowBlank =
      (publicCallsPublic p file).map (·.movedDown 1) := by
  -- Calls are findings one for one, so it is enough that they are moved.
  rw [publicCallsPublic, publicCallsPublic, FileLines.belowBlank, calls_belowBlank, List.map_map,
    List.map_map]
  rfl

/-- The advice to document the lock order is given on the first line. -/
theorem line_of_mem_missingLockOrderDoc {file : FileLines} {f : Finding}
    (member : f ∈ missingLockOrderDoc file) : f.line = 1 := by
  -- There is at most one such finding, and its line is fixed.
  unfold missingLockOrderDoc at member
  split at member
  · rw [List.mem_singleton.mp member]
  · simp at member

end Trigger

/--
An issue, counted from further up.

The advice to document the lock order is about the file as a whole and stays where it is.
-/
def Issue.movedDown (count : Nat) (issue : Issue) : Issue :=
  if issue.rule = RuleId.missingLockOrderDoc.name then issue
  else { issue with line := issue.line + count }

namespace Rule

variable {rule : Rule} {profiles : List ClassProfile} {file : FileLines}

/-- What a rule of the table finds is moved down, unless it is about the file as a whole. -/
theorem findings_belowBlank (member : rule ∈ table) :
    rule.findings (profiles.map (·.movedDown 1)) file.belowBlank =
      if rule.id = .missingLockOrderDoc then rule.findings profiles file
      else (rule.findings profiles file).map (·.movedDown 1) := by
  -- One case for each rule; only the advice on the lock order has a fixed line.
  simp only [table, List.mem_cons, List.not_mem_nil, or_false] at member
  rcases member with rfl | rfl | rfl | rfl | rfl | rfl | rfl
  · simp [findings, List.flatMap_map, List.map_flatMap, Trigger.missingUnlockedMethod_movedDown]
  · simp [findings, List.flatMap_map, List.map_flatMap, Trigger.multipleMutexes_movedDown]
  · exact Trigger.manualLockUnlock_belowBlank file
  · simp [findings, List.flatMap_map, List.map_flatMap, Trigger.publicCallsPublic_belowBlank]
  · exact Trigger.missingLockOrderDoc_belowBlank file
  · exact Trigger.callbackUnderLock_belowBlank file
  · exact Trigger.constMethodLock_belowBlank file

variable {flavor : Flavor} {settings : RuleSettings} {name : String}

/-- What a rule of the table reports is moved down. -/
theorem issues_belowBlank (member : rule ∈ table) :
    issues flavor settings name (profiles.map (·.movedDown 1)) file.belowBlank rule =
      (issues flavor settings name profiles file rule).map (·.movedDown 1) := by
  unfold issues
  rw [findings_belowBlank member]
  split
  -- The rule applies or not as before, for its settings have not changed.
  case isFalse => rfl
  case isTrue =>
    rw [List.map_map]
    by_cases whole : rule.id = .missingLockOrderDoc
    · rw [if_pos whole]
      exact List.map_congr_left fun f _ => by simp [Issue.movedDown, toIssue, whole]
    · rw [if_neg whole, List.map_map]
      have named : rule.id.name ≠ RuleId.missingLockOrderDoc.name :=
        fun same => whole (RuleId.eq_of_name_eq same)
      exact List.map_congr_left fun f _ => by
        simp [Issue.movedDown, toIssue, named, Finding.movedDown]

/-- An empty line above a file, with its classes moved down, moves its issues down. -/
theorem evaluate_belowBlank :
    evaluate flavor settings name (profiles.map (·.movedDown 1)) file.belowBlank =
      (evaluate flavor settings name profiles file).map (·.movedDown 1) := by
  -- The evaluation goes rule by rule, and so does the move.
  rw [evaluate_eq_flatMap, evaluate_eq_flatMap, List.map_flatMap]
  exact List.flatMap_congr fun rule member => issues_belowBlank member

/-- Issues about the lock order of a file point at its first line. -/
theorem line_of_mem_evaluate {issue : Issue}
    (member : issue ∈ evaluate flavor settings name profiles file)
    (whole : issue.rule = RuleId.missingLockOrderDoc.name) : issue.line = 1 := by
  rw [evaluate_eq_flatMap] at member
  obtain ⟨rule, inTable, reported⟩ := List.mem_flatMap.mp member
  obtain ⟨f, found, rfl⟩ := exists_finding reported
  have id : rule.id = .missingLockOrderDoc := RuleId.eq_of_name_eq whole
  -- Of the rules in the table, one has this name.
  have only : ∀ other ∈ table, other.id = .missingLockOrderDoc →
      other.findings profiles file = Trigger.missingLockOrderDoc file := by
    simp [table, findings]
  rw [only rule inTable id] at found
  exact Trigger.line_of_mem_missingLockOrderDoc found

end Rule

/-- A report, counted from further up. -/
def FileReport.movedDown (count : Nat) (report : FileReport) : FileReport where
  scanned := report.scanned
  classes := report.classes.map (·.movedDown count)
  issues := report.issues.map (·.movedDown count)

namespace FileReport

/-- Counted from the same line, a report is the same. -/
theorem movedDown_zero (report : FileReport) : report.movedDown 0 = report := by
  -- Adding nothing to a line leaves it, so this holds part by part.
  have classes (p : ClassProfile) : p.movedDown 0 = p := by
    simp [ClassProfile.movedDown, LockingMethod.movedDown]
  have issues (issue : Issue) : issue.movedDown 0 = issue := by
    simp [Issue.movedDown]
  simp [movedDown, classes, issues]

/-- Moving a report down twice adds up. -/
theorem movedDown_movedDown (first second : Nat) (report : FileReport) :
    (report.movedDown first).movedDown second = report.movedDown (first + second) := by
  -- Lines are sums, and the advice on the lock order stays where it is both times.
  have classes (p : ClassProfile) :
      (p.movedDown first).movedDown second = p.movedDown (first + second) := by
    simp [ClassProfile.movedDown, LockingMethod.movedDown, Nat.add_assoc]
  have issues (issue : Issue) :
      (issue.movedDown first).movedDown second = issue.movedDown (first + second) := by
    by_cases whole : issue.rule = RuleId.missingLockOrderDoc.name
    · simp [Issue.movedDown, whole]
    · simp [Issue.movedDown, whole, Nat.add_assoc]
  simp [movedDown, classes, issues]

end FileReport

namespace SourceFile

/-- The report of a file that is not ignored. -/
theorem check_of_not_ignored {file : SourceFile} (kept : isIgnored file.text = false)
    (window : LockWindow) (flavor : Flavor) (settings : RuleSettings) :
    file.check window flavor settings =
      ⟨true, Scan.profiles file.name window file.code,
        Rule.evaluate flavor settings file.name (Scan.profiles file.name window file.code)
          (.ofTexts file.text file.code)⟩ := by
  -- A file is ignored or scanned as a whole, and this one is not ignored.
  rw [check, kept]
  rfl

/-- A line break above a text that is not ignored does not make it ignored. -/
theorem isIgnored_break {text : List Char} (kept : isIgnored text = false) :
    isIgnored ('\n' :: text) = false := by
  -- One line less of the text is looked at, and the empty line holds no directive.
  have noDirective : hasPhrase ignoreDirective.toList ([] : List Char) = false := rfl
  have fewer : (lines text).take 4 <+: (lines text).take ignoreLines :=
    List.take_prefix_take_left (by decide)
  rw [isIgnored, List.any_eq_false] at kept ⊢
  intro line member
  rw [lines_break, ignoreLines, List.take_succ_cons, List.mem_cons] at member
  rcases member with rfl | inside
  · simp [noDirective]
  · exact kept line (fewer.subset inside)

/-- Line breaks above a text that is not ignored do not make it ignored. -/
theorem isIgnored_breaks {text : List Char} (kept : isIgnored text = false) (count : Nat) :
    isIgnored (List.replicate count '\n' ++ text) = false := by
  -- One break after the other; each was shown to keep the text.
  induction count with
  | zero => exact kept
  | succ count ih => exact isIgnored_break ih

/-- A line break above a text that is not ignored moves its report down. -/
theorem check_break (name : String) {text : List Char} (blank : Bool) (window : LockWindow)
    (flavor : Flavor) (settings : RuleSettings) (kept : isIgnored text = false) :
    (ofText name ('\n' :: text) blank).check window flavor settings =
      ((ofText name text blank).check window flavor settings).movedDown 1 := by
  -- Nothing opens at a break, so the view of the file gets one on top as well.
  have below : ofText name ('\n' :: text) blank =
      ⟨name, '\n' :: text, '\n' :: (ofText name text blank).code⟩ := by
    cases blank <;> simp [ofText, CodeView.ofText_break]
  have keptBelow : isIgnored (ofText name ('\n' :: text) blank).text = false :=
    isIgnored_break kept
  have keptAlone : isIgnored (ofText name text blank).text = false := kept
  rw [check_of_not_ignored keptBelow, check_of_not_ignored keptAlone, below]
  simp only [Scan.profiles_break, FileLines.ofTexts_break, Rule.evaluate_belowBlank]
  rfl

/--
A report does not depend on where in a file its text starts.

Below any number of line breaks, a text that is not ignored has the same classes and the same issues
in the same order, with all lines moved down; the advice to document the lock order stays on line 1.
-/
theorem check_breaks (name : String) (text : List Char) (count : Nat) (blank : Bool)
    (window : LockWindow) (flavor : Flavor) (settings : RuleSettings)
    (kept : isIgnored text = false) :
    let report := (ofText name text blank).check window flavor settings
    (ofText name (List.replicate count '\n' ++ text) blank).check window flavor settings =
        report.movedDown count ∧
      ∀ issue ∈ report.issues, issue.rule = RuleId.missingLockOrderDoc.name → issue.line = 1 := by
  intro report
  constructor
  · -- Each line break moves what is reported below it down by one.
    induction count with
    | zero => exact report.movedDown_zero.symm
    | succ count ih =>
      rw [List.replicate_succ, List.cons_append, check_break name blank window flavor settings
        (isIgnored_breaks kept count), ih, FileReport.movedDown_movedDown]
  · intro issue member whole
    have shown : report = _ := check_of_not_ignored kept window flavor settings
    rw [shown] at member
    exact Rule.line_of_mem_evaluate member whole

/-- A class that breaks six rules, thirty lines further down. -/
theorem check_breaks_class :
    let text := ("class A \x7b // m.unlock()\npublic:\n" ++
      "  int f() const \x7b m.lock(); g(); \x7d\n" ++
      "  int g() \x7b a.lock(); b.lock(); callback(); \x7d\n  std::mutex a;\n\x7d;").toList
    let report (text : List Char) := (ofText "a.h" text true).check (.lines 2 20) .check {}
    isIgnored text = false ∧
      report (List.replicate 30 '\n' ++ text) = (report text).movedDown 30 ∧
      ((report text).movedDown 30).issues.map (·.line) = [33, 34, 31, 33, 1, 34, 33] := by
  intro text report
  -- That the text is not ignored is computed; its lines then follow.
  have kept : isIgnored text = false := by decide +kernel
  have moved := (check_breaks "a.h" text 30 true (.lines 2 20) .check {} kept).1
  exact ⟨kept, moved, by decide +kernel⟩

end SourceFile

end LockDiscipline
