import LockDiscipline.Proofs.Report.AnalysisText
import LockDiscipline.Proofs.Text.CharClass
import Mathlib.Data.List.TakeWhile

/-! The report of an analysis read back by its titles: which issues stand under which of them. -/

namespace LockDiscipline.Report

open LockDiscipline.Span (plain)

/-- The title of the section of a class. -/
def classTitle (c : ClassProfile) : Span :=
  ⟨[.bold], "## Class: " ++ c.name⟩

/-- Whether a span is the title of the section of some class. -/
def isClassTitle (s : Span) : Bool :=
  s.styles == [.bold] && "## Class: ".toList.isPrefixOf s.text.toList

/-- The line that ends the section of a class. -/
def sectionRule : Span :=
  plain (String.ofList (List.replicate 40 '-') ++ "\n\n")

/-- The title above the issues of a class. -/
def issuesTitle : Span :=
  ⟨[.bold, .yellow], "### Potential Issues:"⟩

/-- The title above the issues of no class. -/
def otherTitle : Span :=
  plain "## Other Issues\n"

/-- The spans up to the first empty line. -/
def paragraph (d : Document) : Document :=
  d.takeWhile (· != plain "\n")

/-- The issues that a section shows, below their title and the end of its line. -/
def shownIssues (d : Document) : Document :=
  paragraph ((d.dropWhile (· != issuesTitle)).drop 2)

/-- The sections of classes, with their titles, each up to the line that ends it. -/
def classSections : Document → List (Span × Document)
  | [] => []
  | s :: rest =>
    if isClassTitle s then (s, rest.takeWhile (· != sectionRule)) :: classSections rest
    else classSections rest

/-- The issues that a report shows class by class, in front of the issues of no class. -/
def shownByClass (d : Document) : List (Span × Document) :=
  (classSections (d.takeWhile (· != otherTitle))).map fun (title, body) => (title, shownIssues body)

/-- The issues that a report shows as those of no class. -/
def shownOthers (d : Document) : Document :=
  paragraph ((d.dropWhile (· != otherTitle)).drop 1)

/-- What stands between the title of a section and the title above its issues. -/
def classFacts (c : ClassProfile) : Document :=
  [plain ("\nFile: " ++ c.file ++ ":" ++ toString c.startLine ++ "\n\n")] ++
  listing (plain "### Mutex Members:") c.mutexes ++
  listing (plain "### Public Lock-Acquiring Methods:") (c.lockingMethods.map methodEntry) ++
  listing (plain "### Private Unlocked Methods:") c.unlockedMethods

/-- What stands between the title of a section and the line that ends it. -/
def classBody (issues : List Issue) (c : ClassProfile) : Document :=
  classFacts c ++ listing issuesTitle ((classIssues issues c).map classIssueEntry)

/-- A section is its title, its body and the line that ends it. -/
theorem classSection_eq (issues : List Issue) (c : ClassProfile) :
    classSection issues c = classTitle c :: (classBody issues c ++ [sectionRule]) := by
  -- The parts are the same; they are only grouped in another way.
  simp [classSection, classTitle, classBody, classFacts, issuesTitle, sectionRule]

/-- How the text of a span opens. -/
def opening (s : Span) : List Char :=
  s.text.toList.take 4

/-- Spans that open in different ways differ. -/
theorem bne_of_opening {s other : Span} (apart : opening s ≠ opening other) :
    (s != other) = true := by
  -- Equal spans would open alike.
  rw [bne_iff_ne]
  rintro rfl
  exact apart rfl

/-- Spans within a section open in one of these ways, and none of them is bold and nothing else. -/
def IsInner (s : Span) : Prop :=
  opening s ∈ ["\nFil".toList, "\n".toList, "  - ".toList, "### ".toList] ∧ s.styles ≠ [.bold]

/-- A listing is made of its heading, its entries and the ends of lines. -/
theorem cases_of_mem_listing {heading : Span} {entries : List String} {s : Span}
    (member : s ∈ listing heading entries) :
    s = heading ∨ s = plain "\n" ∨ ∃ e, s = plain ("  - " ++ e ++ "\n") := by
  -- A listing without entries has no spans at all.
  unfold listing at member
  split at member
  · exact absurd member List.not_mem_nil
  · simp only [List.cons_append, List.nil_append, List.mem_cons, List.mem_append, List.mem_map,
      List.not_mem_nil, or_false] at member
    rcases member with rfl | rfl | ⟨e, -, rfl⟩ | rfl
    · exact .inl rfl
    · exact .inr (.inl rfl)
    · exact .inr (.inr ⟨e, rfl⟩)
    · exact .inr (.inl rfl)

/-- The spans of a listing are inner spans if its heading is one. -/
theorem isInner_of_mem_listing {heading : Span} (inner : IsInner heading) {entries : List String}
    {s : Span} (member : s ∈ listing heading entries) : IsInner s := by
  -- Entries are indented, so they open like no title.
  rcases cases_of_mem_listing member with rfl | rfl | ⟨e, rfl⟩
  · exact inner
  · exact ⟨by decide, by decide⟩
  · exact ⟨by simp [opening, plain], by simp [plain]⟩

/-- The spans of a listing have no style if its heading has none. -/
theorem styles_of_mem_listing {heading : Span} (bare : heading.styles = [])
    {entries : List String} {s : Span} (member : s ∈ listing heading entries) : s.styles = [] := by
  rcases cases_of_mem_listing member with rfl | rfl | ⟨e, rfl⟩
  · exact bare
  · -- Only a heading can have a style.
    rfl
  · rfl

/-- The spans between the title of a section and the line that ends it are inner spans. -/
theorem isInner_of_mem_classBody {issues : List Issue} {c : ClassProfile} {s : Span}
    (member : s ∈ classBody issues c) : IsInner s := by
  simp only [classBody, classFacts, List.mem_append, List.mem_singleton] at member
  -- The file is named in a line without style, and all else is listed.
  rcases member with (((rfl | inside) | inside) | inside) | inside
  · exact ⟨by simp [opening, plain], by simp [plain]⟩
  all_goals exact isInner_of_mem_listing ⟨by decide, by decide⟩ inside

/-- The spans in front of the title above the issues have no style. -/
theorem styles_of_mem_classFacts {c : ClassProfile} {s : Span} (member : s ∈ classFacts c) :
    s.styles = [] := by
  simp only [classFacts, List.mem_append, List.mem_singleton] at member
  -- As in the body, without the listing of issues.
  rcases member with ((rfl | inside) | inside) | inside
  · rfl
  all_goals exact styles_of_mem_listing rfl inside

/-- An inner span is no title of a class. -/
theorem IsInner.not_isClassTitle {s : Span} (inner : IsInner s) : isClassTitle s = false := by
  -- Titles of classes are bold, and an inner span is not.
  have notBold : (s.styles == [.bold]) = false := by simpa using inner.2
  simp [isClassTitle, notBold]

/-- An inner span differs from every span that opens in another way. -/
theorem IsInner.bne {s other : Span} (inner : IsInner s)
    (apart : opening other ∉ ["\nFil".toList, "\n".toList, "  - ".toList, "### ".toList]) :
    (s != other) = true :=
  -- The ways in which inner spans open are listed, and the other one is not among them.
  bne_of_opening fun same => apart (same ▸ inner.1)

/-- A stretch before a span that is searched for is taken whole. -/
theorem takeWhile_stretch {target : Span} {front back : Document}
    (apart : ∀ s ∈ front, (s != target) = true) :
    (front ++ target :: back).takeWhile (· != target) = front :=
  -- Nothing in front is the span, and the span itself ends the stretch.
  Text.takeWhile_run apart (by simp)

/-- A stretch before a span that is searched for is passed over. -/
theorem dropWhile_stretch {target : Span} {front back : Document}
    (apart : ∀ s ∈ front, (s != target) = true) :
    (front ++ target :: back).dropWhile (· != target) = target :: back :=
  -- Nothing in front is the span, and the span itself is kept.
  Text.dropWhile_run apart (by simp)

/-- Spans that are no titles of classes open no section. -/
theorem classSections_append {front back : Document}
    (none : ∀ s ∈ front, isClassTitle s = false) :
    classSections (front ++ back) = classSections back := by
  -- Span by span; each is passed over, since it is no title.
  induction front with
  | nil => rfl
  | cons s rest ih =>
    obtain ⟨here, there⟩ := List.forall_mem_cons.mp none
    rw [List.cons_append, classSections, here]
    exact ih there

/-- The section of a class is read from its title to the line that ends it. -/
theorem classSections_classSection (issues : List Issue) (c : ClassProfile) (rest : Document) :
    classSections (classSection issues c ++ rest) =
      (classTitle c, classBody issues c) :: classSections rest := by
  have title : isClassTitle (classTitle c) = true := by
    simp [isClassTitle, classTitle, String.toList_append]
  -- A section is its title, its body and the line that ends it, and the body has no such line.
  have shape : classSection issues c ++ rest =
      classTitle c :: (classBody issues c ++ sectionRule :: rest) := by
    simp [classSection_eq]
  have ended : (classBody issues c ++ sectionRule :: rest).takeWhile (· != sectionRule) =
      classBody issues c :=
    takeWhile_stretch fun s member => (isInner_of_mem_classBody member).bne (by decide)
  rw [shape, classSections, if_pos title, ended,
    classSections_append fun s member => (isInner_of_mem_classBody member).not_isClassTitle]
  rfl

/-- The sections of classes are read one by one, in their order. -/
theorem classSections_flatMap (issues : List Issue) (classes : List ClassProfile)
    {back : Document} (none : ∀ s ∈ back, isClassTitle s = false) :
    classSections (classes.flatMap (classSection issues) ++ back) =
      classes.map fun c => (classTitle c, classBody issues c) := by
  -- Section by section; what follows the last one opens none.
  induction classes with
  | nil =>
    have alone : classSections (back ++ []) = [] := classSections_append none
    simpa using alone
  | cons c rest ih =>
    rw [List.flatMap_cons, List.append_assoc, classSections_classSection, ih, List.map_cons]

/-- The issues of a class are read below their title. -/
theorem shownIssues_classBody (issues : List Issue) (c : ClassProfile) :
    shownIssues (classBody issues c) =
      (classIssues issues c).map fun issue => plain (entryText issue) := by
  -- Nothing in front of that title has its colour.
  have facts : ∀ s ∈ classFacts c, (s != issuesTitle) = true := by
    intro s member
    rw [bne_iff_ne]
    rintro rfl
    exact absurd (styles_of_mem_classFacts member) (by decide)
  -- No entry is an empty line.
  have entries : ∀ s ∈ (classIssues issues c).map (fun issue => plain (entryText issue)),
      (s != plain "\n") = true := by
    intro s member
    obtain ⟨issue, -, rfl⟩ := List.mem_map.mp member
    rw [← classIssueEntry_eq]
    exact bne_of_opening (by simp [plain, opening])
  by_cases found : classIssues issues c = []
  · have body : classBody issues c = classFacts c := by
      simp [classBody, found, listing]
    rw [body, shownIssues, List.dropWhile_eq_nil_iff.mpr facts, found]
    rfl
  · have body : classBody issues c = classFacts c ++ issuesTitle :: plain "\n" ::
        ((classIssues issues c).map (fun issue => plain (entryText issue)) ++
          plain "\n" :: []) := by
      simp [classBody, listing, found, Function.comp_def, classIssueEntry_eq]
    rw [body, shownIssues, dropWhile_stretch facts]
    exact takeWhile_stretch entries

/-- What a report holds in front of the issues of no class. -/
def front (result : CheckResult) : Document :=
  [plain "# Threading Safety Analysis\n\n",
   plain (if result.classes.isEmpty then "No classes with mutex usage found.\n"
     else "Found " ++ toString result.classes.length ++ " classes with threading concerns:\n\n")] ++
  result.classes.flatMap (classSection result.issues)

/-- What a report holds behind the issues of no class. -/
def back (result : CheckResult) : Document :=
  if result.classes.isEmpty then [] else [plain (analysisSummary result ++ rankingSection result)]

/-- The issues of no class stand between the sections of the classes and the counts. -/
theorem byClass_eq (result : CheckResult) :
    byClass result = front result ++ (looseSection result ++ back result) := by
  -- With classes and without, the other issues stand in the same place.
  cases none : result.classes.isEmpty with
  | true => simp [byClass, front, back, List.isEmpty_iff.mp none]
  | false => simp [byClass, front, back, none]

/-- The title above the issues of no class does not occur in front of them. -/
theorem bne_of_mem_front {result : CheckResult} {s : Span} (member : s ∈ front result) :
    (s != otherTitle) = true := by
  -- The title of the report, the number of classes and their sections, one after the other.
  simp only [front, List.mem_append, List.mem_cons, List.not_mem_nil, or_false] at member
  rcases member with (rfl | rfl) | inside
  · decide
  · refine bne_of_opening ?_
    split
    · decide
    · simp [opening, plain, otherTitle]
  · obtain ⟨c, -, inSection⟩ := List.mem_flatMap.mp inside
    rw [classSection_eq, List.mem_cons, List.mem_append, List.mem_singleton] at inSection
    rcases inSection with rfl | inBody | rfl
    · simp [classTitle, otherTitle, plain]
    · exact (isInner_of_mem_classBody inBody).bne (by decide)
    · decide

/-- The counts stand under a title of their own. -/
theorem exists_analysisSummary (result : CheckResult) :
    ∃ counts, analysisSummary result = "## Summary\n" ++ counts := by
  -- The title is in front of the counts, however these are put together.
  unfold analysisSummary
  repeat rw [String.append_assoc]
  exact ⟨_, rfl⟩

/-- The counts are neither that title nor the title of a class. -/
theorem apart_of_mem_back {result : CheckResult} {s : Span} (member : s ∈ back result) :
    (s != otherTitle) = true ∧ isClassTitle s = false := by
  -- Without classes there are no counts.
  unfold back at member
  split at member
  · exact absurd member List.not_mem_nil
  · obtain ⟨counts, shape⟩ := exists_analysisSummary result
    rw [shape, String.append_assoc, List.mem_singleton] at member
    subst member
    exact ⟨bne_of_opening (by simp [opening, plain, otherTitle]), by simp [isClassTitle, plain]⟩

/-- That title occurs nowhere in a report that lists no such issues. -/
theorem bne_of_mem_front_append_back {result : CheckResult} :
    ∀ s ∈ front result ++ back result, (s != otherTitle) = true :=
  -- The title is absent from both parts.
  List.forall_mem_append.mpr
    ⟨fun _ member => bne_of_mem_front member, fun _ member => (apart_of_mem_back member).1⟩

/-- The issues of no class are listed under their title, which is absent when there are none. -/
theorem looseSection_eq (result : CheckResult) :
    looseSection result =
      if looseIssues result = [] then []
      else otherTitle :: ((looseIssues result).flatMap looseIssueLine ++ plain "\n" :: []) := by
  -- The section is empty exactly when its list is.
  unfold looseSection
  split
  · rename_i none
    rw [if_pos none]
  · rename_i some
    rw [if_neg some]
    rfl

/-- Up to the issues of no class, a report holds the sections of its classes. -/
theorem takeWhile_byClass (result : CheckResult) :
    ∃ rest : Document, (∀ s ∈ rest, isClassTitle s = false) ∧
      (byClass result).takeWhile (· != otherTitle) = front result ++ rest := by
  rw [byClass_eq, looseSection_eq]
  split
  · -- Without such issues the report is read to its end.
    exact ⟨back result, fun s member => (apart_of_mem_back member).2,
      List.takeWhile_eq_self_iff.mpr bne_of_mem_front_append_back⟩
  · refine ⟨[], by simp, ?_⟩
    rw [List.append_nil]
    exact takeWhile_stretch fun s member => bne_of_mem_front member

/-- The report shows, class by class, the issues that belong to the class. -/
theorem shownByClass_byClass (result : CheckResult) :
    shownByClass (byClass result) = result.classes.map fun c =>
      (classTitle c, (classIssues result.issues c).map fun issue => plain (entryText issue)) := by
  -- What is left in front of the other issues are the sections, read one by one.
  obtain ⟨rest, noTitle, taken⟩ := takeWhile_byClass result
  have sections : classSections (front result ++ rest) =
      result.classes.map fun c => (classTitle c, classBody result.issues c) := by
    rw [front, List.append_assoc, classSections_append (by simp [isClassTitle, plain])]
    exact classSections_flatMap result.issues result.classes noTitle
  rw [shownByClass, taken, sections, List.map_map]
  exact List.map_congr_left fun c _ =>
    congrArg (Prod.mk (classTitle c)) (shownIssues_classBody result.issues c)

/-- The report shows the issues that belong to no class under a title of their own. -/
theorem shownOthers_byClass (result : CheckResult) :
    shownOthers (byClass result) = (looseIssues result).flatMap looseIssueLine := by
  -- No part of such an issue is an empty line.
  have entries : ∀ s ∈ (looseIssues result).flatMap looseIssueLine,
      (s != plain "\n") = true := by
    intro s member
    obtain ⟨issue, -, inLine⟩ := List.mem_flatMap.mp member
    simp only [looseIssueLine, List.mem_cons, List.not_mem_nil, or_false] at inLine
    rcases inLine with rfl | rfl | rfl
    · exact bne_of_opening (by simp [plain, opening])
    · simp [location, plain]
    · exact bne_of_opening (by simp [plain, opening])
  -- The title of the other issues is dropped, and the empty line behind them ends the list.
  rw [shownOthers, byClass_eq, looseSection_eq]
  split
  · rename_i none
    rw [none, List.nil_append, List.dropWhile_eq_nil_iff.mpr bne_of_mem_front_append_back]
    rfl
  · rw [List.cons_append, dropWhile_stretch fun s member => bne_of_mem_front member,
      List.append_assoc]
    exact takeWhile_stretch entries

end LockDiscipline.Report
