import LockDiscipline.Report.BySeverity

/-! The report of a check lists its issues in the order of a stable sort by severity. -/

namespace LockDiscipline

/-- The place of a severity in a report. -/
def Severity.rank : Severity → Nat
  | .error => 0
  | .warning => 1
  | .info => 2

/-- Whether an issue is at least as serious as another. -/
def Issue.isAsSerious (x y : Issue) : Bool :=
  x.severity.rank ≤ y.severity.rank

/-- Of two issues, one is at least as serious as the other. -/
theorem Issue.isAsSerious_total (x y : Issue) : (x.isAsSerious y || y.isAsSerious x) = true := by
  -- Seriousness is a number, and numbers are compared.
  simpa [isAsSerious] using Nat.le_total x.severity.rank y.severity.rank

/-- Seriousness is transitive. -/
theorem Issue.isAsSerious_trans (x y z : Issue) (first : x.isAsSerious y = true)
    (second : y.isAsSerious z = true) : x.isAsSerious z = true := by
  simp only [isAsSerious, decide_eq_true_eq] at *
  exact Nat.le_trans first second

namespace Report

open LockDiscipline.Span (plain)

/-- The line above the first issue of a severity, as text. -/
def headerText (severity : Severity) : String :=
  sectionIcon severity ++ " " ++ sectionTitle severity ++ "\n"

/-- The lines of an issue as text: its place and message, and its suggestion if that is wanted. -/
def issueText (suggestions : Bool) (issue : Issue) : String :=
  "  " ++ issue.file ++ ":" ++ toString issue.line ++ " — " ++ issue.message ++ "\n" ++
    match suggestions, issue.suggestion with
    | true, some suggestion => "    Suggestion: " ++ suggestion ++ "\n"
    | _, _ => ""

/--
Issues as text, one after the other, where `above` are those that are listed before them.

The first issue of a severity has a header above it, and the last one has a blank line below it.
-/
def listingText (suggestions : Bool) (above : List Issue) : (issues : List Issue) → String
  | [] => ""
  | issue :: below =>
    (if issue.severity ∈ above.map (·.severity) then "" else headerText issue.severity) ++
    issueText suggestions issue ++
    (if issue.severity ∈ below.map (·.severity) then "" else "\n") ++
    listingText suggestions (issue :: above) below

/-- A group of issues as text: a header, the issues and a blank line, or nothing at all. -/
def groupText (suggestions : Bool) (severity : Severity) (group : List Issue) : String :=
  if group.isEmpty then ""
  else headerText severity ++ String.join (group.map (issueText suggestions)) ++ "\n"

/-- The issues of a severity. -/
def ofSeverity (issues : List Issue) (severity : Severity) : List Issue :=
  issues.filter (·.severity = severity)

/-- Every issue of a group has the severity of the group. -/
theorem severity_of_mem_ofSeverity {issues : List Issue} {severity : Severity} {issue : Issue}
    (member : issue ∈ ofSeverity issues severity) : issue.severity = severity := by
  -- The group was chosen by this condition.
  simpa using (List.mem_filter.mp member).2

/-- An issue belongs to the group of its severity. -/
theorem ofSeverity_cons (issue : Issue) (rest : List Issue) (severity : Severity) :
    ofSeverity (issue :: rest) severity =
      if issue.severity = severity then issue :: ofSeverity rest severity
      else ofSeverity rest severity := by
  -- The choice is made issue by issue.
  simp [ofSeverity, List.filter_cons]

/-- A sort by severity leaves the issues of each severity in their order. -/
theorem ofSeverity_mergeSort (issues : List Issue) (severity : Severity) :
    ofSeverity (issues.mergeSort Issue.isAsSerious) severity = ofSeverity issues severity := by
  have alike : (ofSeverity issues severity).Pairwise fun x y => x.isAsSerious y = true := by
    refine List.pairwise_of_forall_mem_list fun x first y second => ?_
    simp [Issue.isAsSerious, severity_of_mem_ofSeverity first, severity_of_mem_ofSeverity second]
  -- Stability keeps the group in order, and the sort leaves nothing out and adds nothing.
  have kept : (ofSeverity issues severity).Sublist (issues.mergeSort Issue.isAsSerious) :=
    List.sublist_mergeSort Issue.isAsSerious_trans Issue.isAsSerious_total alike
      List.filter_sublist
  have within : (ofSeverity issues severity).Sublist
      (ofSeverity (issues.mergeSort Issue.isAsSerious) severity) := by
    simpa [ofSeverity] using kept.filter (·.severity = severity)
  have equallyMany := ((List.mergeSort_perm issues Issue.isAsSerious).filter
    (·.severity = severity)).length_eq
  exact (within.eq_of_length equallyMany.symm).symm

/-- Sorted issues are the groups of their severities, one after the other. -/
theorem eq_flatMap_ofSeverity {issues : List Issue}
    (sorted : issues.Pairwise fun x y => x.isAsSerious y = true) :
    issues = Severity.all.flatMap (ofSeverity issues) := by
  induction issues with
  | nil => rfl
  | cons issue rest ih =>
    obtain ⟨first, sortedRest⟩ := List.pairwise_cons.mp sorted
    have others := ih sortedRest
    -- Nothing behind the first issue is more serious, so the groups above its own are empty.
    have none (severity : Severity) (more : severity.rank < issue.severity.rank) :
        ofSeverity rest severity = [] := by
      refine List.filter_eq_nil_iff.mpr fun later member => ?_
      have order := first later member
      simp only [Issue.isAsSerious, decide_eq_true_eq] at order ⊢
      rintro rfl
      omega
    simp only [Severity.all, List.flatMap_cons, List.flatMap_nil, ofSeverity_cons] at others ⊢
    -- The first issue opens its own group, and the groups above that one are empty.
    cases kind : issue.severity with
    | error => simpa using others
    | warning =>
      have noError := none .error (by simp [kind, Severity.rank])
      simpa [noError] using others
    | info =>
      have noError := none .error (by simp [kind, Severity.rank])
      have noWarning := none .warning (by simp [kind, Severity.rank])
      simpa [noError, noWarning] using others

/-- The issues in the order of a stable sort are the groups of the severities. -/
theorem mergeSort_eq_flatMap (issues : List Issue) :
    issues.mergeSort Issue.isAsSerious = Severity.all.flatMap (ofSeverity issues) := by
  have sorted := List.pairwise_mergeSort Issue.isAsSerious_trans Issue.isAsSerious_total issues
  -- Sorting is stable, so the issues of one severity keep their order.
  have groups : ofSeverity (issues.mergeSort Issue.isAsSerious) = ofSeverity issues :=
    funext (ofSeverity_mergeSort issues)
  rw [← groups]
  exact eq_flatMap_ofSeverity sorted

/-- Issues of one severity are listed without anything between them. -/
theorem listingText_group {severity : Severity} {issue : Issue} {group below : List Issue}
    (alike : ∀ i ∈ issue :: group, i.severity = severity)
    (last : severity ∉ below.map (·.severity)) (suggestions : Bool) (above : List Issue) :
    listingText suggestions above (issue :: group ++ below) =
      (if severity ∈ above.map (·.severity) then "" else headerText severity) ++
      (String.join ((issue :: group).map (issueText suggestions)) ++ "\n") ++
      listingText suggestions (group.reverse ++ issue :: above) below := by
  -- From one issue to the next, what is listed above grows by issues of the same severity.
  induction group generalizing issue above with
  | nil =>
    obtain rfl : issue.severity = severity := alike issue List.mem_cons_self
    simp [listingText, last, String.append_assoc]
  | cons next group ih =>
    obtain ⟨here, there⟩ := List.forall_mem_cons.mp alike
    have more : severity ∈ (next :: group ++ below).map (·.severity) := by
      simp [there next List.mem_cons_self]
    have shown : severity ∈ (issue :: above).map (·.severity) := by simp [here]
    rw [List.cons_append, listingText, here, if_pos more, ih there, if_pos shown]
    simp [String.append_assoc, String.join_cons]

/-- Groups of different severities are listed one after the other, each with its header. -/
theorem listingText_groups {severities : List Severity} (apart : severities.Nodup)
    (issues : List Issue) (suggestions : Bool) {above : List Issue}
    (fresh : ∀ severity ∈ severities, severity ∉ above.map (·.severity)) :
    listingText suggestions above (severities.flatMap (ofSeverity issues)) =
      String.join (severities.map fun severity =>
        groupText suggestions severity (ofSeverity issues severity)) := by
  induction severities generalizing above with
  -- By the list of severities; a group without issues is not shown at all.
  | nil => simp [listingText, String.join_nil]
  | cons severity others ih =>
    obtain ⟨new, apartRest⟩ := List.nodup_cons.mp apart
    obtain ⟨freshHere, freshRest⟩ := List.forall_mem_cons.mp fresh
    rw [List.flatMap_cons, List.map_cons, String.join_cons]
    cases group : ofSeverity issues severity with
    | nil => simpa [groupText] using ih apartRest freshRest
    | cons issue rest =>
      -- Neither the groups above nor those below have an issue of this severity.
      have alike : ∀ i ∈ issue :: rest, i.severity = severity :=
        fun i member => severity_of_mem_ofSeverity (group ▸ member)
      have last : severity ∉ (others.flatMap (ofSeverity issues)).map (·.severity) := by
        intro member
        obtain ⟨i, listed, kind⟩ := List.mem_map.mp member
        obtain ⟨other, later, inGroup⟩ := List.mem_flatMap.mp listed
        rw [severity_of_mem_ofSeverity inGroup] at kind
        exact new (kind ▸ later)
      have freshBelow : ∀ other ∈ others,
          other ∉ (rest.reverse ++ issue :: above).map (·.severity) := by
        intro other later member
        rw [List.map_append, List.map_cons, alike issue List.mem_cons_self] at member
        rcases List.mem_append.mp member with inGroup | inGroup
        · obtain ⟨i, listed, rfl⟩ := List.mem_map.mp inGroup
          exact new (alike i (by simp_all) ▸ later)
        · rcases List.mem_cons.mp inGroup with rfl | earlier
          · exact new later
          · exact freshRest other later earlier
      rw [listingText_group alike last, if_neg freshHere, ih apartRest freshBelow]
      simp [groupText, String.append_assoc]

/-- The text of a document of two parts is that of the first and then that of the second. -/
theorem render_append (color : Bool) (front back : Document) :
    Document.render color (front ++ back) =
      Document.render color front ++ Document.render color back := by
  -- Spans are rendered on their own, so it does not matter where the document is cut.
  simp [Document.render, String.join_append]

/-- The text of a document made of pieces is that of the pieces, one after the other. -/
theorem render_flatMap {α : Type} (color : Bool) (items : List α) (piece : α → Document) :
    Document.render color (items.flatMap piece) =
      String.join (items.map fun item => Document.render color (piece item)) := by
  -- Piece by piece, as the document is written.
  induction items with
  | nil => rfl
  | cons item rest ih =>
    rw [List.flatMap_cons, render_append, ih, List.map_cons, String.join_cons]

/-- The lines of an issue without colour. -/
theorem render_issueLines (suggestions : Bool) (issue : Issue) :
    Document.render false (issueLines suggestions issue) = issueText suggestions issue := by
  have place : Document.render false [plain "  ", location issue,
      plain (" — " ++ issue.message ++ "\n")] =
      "  " ++ issue.file ++ ":" ++ toString issue.line ++ " — " ++ issue.message ++ "\n" := by
    simp [Document.render, Span.render, plain, location, String.append_assoc]
  unfold issueLines issueText
  rw [render_append, place]
  cases suggestions with
  | false => rfl
  | true =>
    cases issue.suggestion with
    | none => rfl
    | some suggestion =>
      -- The label is a span of its own in the document.
      have label : "    Suggestion: " = "    " ++ "Suggestion:" ++ " " := rfl
      simp [-String.reduceAppend, label, Document.render, Span.render, plain, String.append_assoc]

/-- The section of a severity without colour. -/
theorem render_severitySection (suggestions : Bool) (issues : List Issue) (severity : Severity) :
    Document.render false (severitySection suggestions issues severity) =
      groupText suggestions severity (ofSeverity issues severity) := by
  -- A severity without issues has no section; any other has its header and its issues.
  unfold severitySection groupText ofSeverity
  split
  · rename_i empty
    rw [empty]
    rfl
  · rename_i inhabited
    rw [if_neg (by simpa using inhabited), render_append, render_append, render_flatMap]
    simp only [render_issueLines]
    simp [sectionHeader, headerText, Document.render, Span.render, plain, String.append_assoc]

/--
The report of a check is the stable sort of its issues by severity.

Behind the title stand the issues, errors first and infos last, those of one severity in the order
in which they were found. Each of them is one line, with its suggestion below it if suggestions
are asked for and it has one. A header stands above the first issue of a severity and a blank line
below the last one, and the counts come at the end.
-/
theorem bySeverity_is_stable_sort (result : CheckResult) (suggestions : Bool)
    (found : result.issues ≠ []) :
    Document.render false (bySeverity result suggestions) =
      checkTitle ++ listingText suggestions [] (result.issues.mergeSort Issue.isAsSerious) ++
        summaryLine result.summary := by
  have shown : result.issues.isEmpty = false := by simpa using found
  -- The sorted issues are the groups of the report, and the report lists these one by one.
  rw [mergeSort_eq_flatMap, listingText_groups (by decide) _ _ (by simp), bySeverity, shown]
  simp only [← render_severitySection, ← render_flatMap]
  rw [if_neg (by simp), render_append]
  simp [Document.render, Span.render, plain]

/-- Two warnings around an error: the error comes first, and the warnings keep their order. -/
theorem bySeverity_is_stable_sort_of_warnings_and_error :
    let early : Issue := ⟨.warning, "a.h", 3, "two mutexes", none, "MULTIPLE_MUTEXES"⟩
    let middle : Issue := ⟨.error, "a.h", 9, "call", some "move it", "CALLBACK_UNDER_LOCK"⟩
    let late : Issue := ⟨.warning, "b.h", 1, "no order", some "write it", "MISSING_LOCK_ORDER_DOC"⟩
    let issues := [early, middle, late]
    let result : CheckResult := ⟨[], issues, .tally issues 2 0⟩
    result.issues ≠ [] ∧ issues.mergeSort Issue.isAsSerious = [middle, early, late] ∧
      Document.render false (bySeverity result true) =
        "Threading Safety Issues Report\n========================================\n\n" ++
          "✖ ERRORS (must fix):\n  a.h:9 — call\n    Suggestion: move it\n\n" ++
          "▲ WARNINGS (should fix):\n  a.h:3 — two mutexes\n" ++
          "  b.h:1 — no order\n    Suggestion: write it\n\n" ++
          "Summary: 1 errors, 2 warnings, 0 info (2 files, 0 classes)" := by
  intro early middle late issues result
  have found : result.issues ≠ [] := by decide
  -- The sort is computed on the groups, which is what the report does.
  have sorted : issues.mergeSort Issue.isAsSerious = [middle, early, late] :=
    (mergeSort_eq_flatMap issues).trans (by decide)
  refine ⟨found, sorted, ?_⟩
  rw [bySeverity_is_stable_sort result true found, sorted]
  decide +kernel

end Report

end LockDiscipline
