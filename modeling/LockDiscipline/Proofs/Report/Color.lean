import LockDiscipline.Proofs.Text.CharClass
import LockDiscipline.Report.ByClass
import LockDiscipline.Report.RuleTable

/-! Colour changes nothing but colour: without style sequences, coloured output is plain output. -/

namespace LockDiscipline

/-- A character between the opening of a style sequence and the letter that ends it. -/
def isParameter (c : Char) : Bool :=
  c.isDigit || c == ';'

/-- What follows the style sequence at the start of a text, if there is one. -/
def afterSequence? : List Char → Option (List Char)
  | '\x1b' :: '[' :: rest =>
    match rest.dropWhile isParameter with
    | 'm' :: after => some after
    | _ => none
  | _ => none

/-- A style sequence is not empty. -/
theorem length_of_afterSequence? {text after : List Char}
    (found : afterSequence? text = some after) : after.length < text.length := by
  -- The sequence has two characters of its own in front and an `m` behind its parameters.
  unfold afterSequence? at found
  split at found
  · rename_i rest
    split at found
    · rename_i tail ended
      obtain rfl := Option.some.inj found
      have shorter := (List.dropWhile_suffix isParameter (l := rest)).length_le
      rw [ended] at shorter
      simp only [List.length_cons] at shorter ⊢
      omega
    · cases found
  · cases found

/-- A text with every style sequence deleted. -/
def deleteSequences : List Char → List Char
  | [] => []
  | c :: rest =>
    match found : afterSequence? (c :: rest) with
    | some after =>
      have := length_of_afterSequence? found
      deleteSequences after
    | none => c :: deleteSequences rest
termination_by text => text.length
decreasing_by
  · exact this
  · exact Nat.lt_succ_self _

/-- A text without its style sequences. -/
def withoutColor (text : String) : String :=
  String.ofList (deleteSequences text.toList)

/-- A text that holds no escape character, and so no style sequence. -/
def NoEscape (text : String) : Prop :=
  '\x1b' ∉ text.toList

instance (text : String) : Decidable (NoEscape text) :=
  inferInstanceAs (Decidable (_ ∉ _))

/-- A sequence at the start is deleted. -/
theorem deleteSequences_of_some {text after : List Char}
    (found : afterSequence? text = some after) : deleteSequences text = deleteSequences after := by
  -- An empty text opens no sequence; any other is deleted from where the sequence ends.
  cases text with
  | nil => cases found
  | cons c rest =>
    rw [deleteSequences]
    split
    · rename_i other same
      rw [found] at same
      rw [Option.some.inj same]
    · rename_i none
      rw [found] at none
      cases none

/-- A character that opens no sequence stays. -/
theorem deleteSequences_of_none {c : Char} {rest : List Char}
    (none : afterSequence? (c :: rest) = none) :
    deleteSequences (c :: rest) = c :: deleteSequences rest := by
  -- The function decides by the same test, which fails here.
  rw [deleteSequences]
  split
  · rename_i found
    rw [none] at found
    cases found
  · rfl

/-- Text in front of the first escape character stays. -/
theorem deleteSequences_append {clean : List Char} (none : '\x1b' ∉ clean) (rest : List Char) :
    deleteSequences (clean ++ rest) = clean ++ deleteSequences rest := by
  induction clean with
  | nil => rfl
  | cons c later ih =>
    obtain ⟨here, there⟩ := List.ne_and_not_mem_of_not_mem_cons none
    -- A sequence opens with the escape character, and this is another one.
    have noSequence : afterSequence? (c :: (later ++ rest)) = .none := by
      unfold afterSequence?
      split
      · rename_i same
        exact absurd (List.cons.inj same).1.symm here
      · rfl
    rw [List.cons_append, deleteSequences_of_none noSequence, ih there, List.cons_append]

/-- A text without escape characters stays as it is. -/
theorem withoutColor_eq_self {text : String} (clean : NoEscape text) :
    withoutColor text = text := by
  -- The text is put in front of an empty one, where all of it is kept.
  have whole := deleteSequences_append clean []
  rw [List.append_nil, deleteSequences, List.append_nil] at whole
  rw [withoutColor, whole, String.ofList_toList]

/-- A sequence is deleted, whatever follows it. -/
theorem deleteSequences_sequence {code : String}
    (parameters : code.toList.all isParameter = true) (rest : List Char) :
    deleteSequences ((Style.sequence code).toList ++ rest) = deleteSequences rest := by
  have shape : (Style.sequence code).toList ++ rest =
      '\x1b' :: '[' :: (code.toList ++ 'm' :: rest) := by
    simp [Style.sequence]
  -- The parameters end at the letter, which is none of them.
  have ended : (code.toList ++ 'm' :: rest).dropWhile isParameter = 'm' :: rest :=
    Text.dropWhile_run (List.all_eq_true.mp parameters) (by simp +decide)
  rw [shape]
  exact deleteSequences_of_some (by simp only [afterSequence?, ended])

/-- Sequences with several parameters are deleted too, and what is not completed stays. -/
example : withoutColor "a\x1b[1;31mb\x1b[2" = "ab\x1b[2" := by cbv

/-- Codes that switch a style on or off are parameters. -/
theorem Style.codes_parameters (style : Style) :
    style.onCode.toList.all isParameter = true ∧ style.offCode.toList.all isParameter = true := by
  -- The codes are numbers, and each is looked through digit by digit.
  cases style <;> decide

/-- Of a span in colour, its text stays. -/
theorem Span.deleteSequences_render {s : Span} (clean : NoEscape s.text) (rest : List Char) :
    deleteSequences ((s.render true).toList ++ rest) = s.text.toList ++ deleteSequences rest := by
  obtain ⟨styles, text⟩ := s
  show deleteSequences ((styles.foldr Style.wrap text).toList ++ rest) = _
  -- The outermost style is taken off first, with the sequence behind the text as part of the rest.
  induction styles generalizing rest with
  | nil => exact deleteSequences_append clean rest
  | cons style inner ih =>
    obtain ⟨on, off⟩ := style.codes_parameters
    rw [List.foldr_cons, Style.wrap, String.toList_append, String.toList_append,
      List.append_assoc, List.append_assoc, deleteSequences_sequence on, ih _ clean,
      deleteSequences_sequence off]

/-- The text of a span in no style. -/
@[simp] theorem Span.text_plain (text : String) : (Span.plain text).text = text :=
  rfl

namespace Document

/-- A document whose text holds no escape character. -/
def Clean (d : Document) : Prop :=
  ∀ s ∈ d, NoEscape s.text

/-- The text of a document is that of its spans, one after the other. -/
theorem toList_render (color : Bool) (d : Document) :
    (render color d).toList = d.flatMap fun s => (s.render color).toList := by
  -- Spans are rendered one by one, and a text is the list of its characters.
  simp [render, String.toList_join, List.flatMap_map]

/-- A clean document without its style sequences is the document in no colour. -/
theorem withoutColor_render {d : Document} (clean : Clean d) :
    withoutColor (render true d) = render false d := by
  rw [withoutColor, ← String.toList_inj, String.toList_ofList, toList_render, toList_render]
  -- Span by span; what follows a span is the rest of the text behind it.
  induction d with
  | nil => simp [deleteSequences]
  | cons s rest ih =>
    obtain ⟨here, there⟩ := List.forall_mem_cons.mp clean
    rw [List.flatMap_cons, List.flatMap_cons, Span.deleteSequences_render here, ih there]
    rfl

/-- A document of two parts is clean if both are. -/
@[simp] theorem clean_append {front back : Document} :
    Clean (front ++ back) ↔ Clean front ∧ Clean back :=
  List.forall_mem_append

/-- A document is clean if its first span and the rest are. -/
@[simp] theorem clean_cons {s : Span} {rest : Document} :
    Clean (s :: rest) ↔ NoEscape s.text ∧ Clean rest :=
  List.forall_mem_cons

/-- The empty document is clean. -/
@[simp] theorem clean_nil : Clean [] :=
  fun _ member => absurd member List.not_mem_nil

/-- A document that is written item by item is clean if every piece is. -/
theorem clean_flatMap {α : Type} {items : List α} {piece : α → Document}
    (each : ∀ item ∈ items, Clean (piece item)) : Clean (items.flatMap piece) := by
  -- A span of the document is a span of one piece.
  intro s member
  obtain ⟨item, known, inPiece⟩ := List.mem_flatMap.mp member
  exact each item known s inPiece

end Document

/-- A text of two parts holds no escape character if neither part does. -/
@[simp] theorem noEscape_append {front back : String} :
    NoEscape (front ++ back) ↔ NoEscape front ∧ NoEscape back := by
  -- The characters of both parts are those of the text.
  simp [NoEscape]

/-- A text given by its characters, such as a literal, is judged by them. -/
theorem noEscape_ofList {characters : List Char} (none : '\x1b' ∉ characters) :
    NoEscape (String.ofList characters) := by
  -- The characters are given, so the text need not be put together.
  rwa [NoEscape, String.toList_ofList]

/-- A number is written without escape characters. -/
@[simp] theorem noEscape_repr (n : Nat) : NoEscape n.repr := by
  intro member
  -- It is written in decimal digits, and the escape character is none of them.
  rw [Nat.repr_eq_ofList_toDigits, String.toList_ofList] at member
  have digit := Nat.isDigit_of_mem_toDigits (by decide) (by decide) member
  exact absurd digit (by decide)

/-- Texts that are joined hold no escape character if none of them does. -/
theorem noEscape_join {texts : List String} (each : ∀ text ∈ texts, NoEscape text) :
    NoEscape (String.join texts) := by
  -- What is joined has no characters of its own.
  simpa [NoEscape, String.toList_join] using each

/-- Texts with separators hold no escape character if none of them does. -/
theorem noEscape_intercalate {separator : String} {texts : List String}
    (apart : NoEscape separator) (each : ∀ text ∈ texts, NoEscape text) :
    NoEscape (separator.intercalate texts) := by
  induction texts with
  | nil => exact List.not_mem_nil
  | cons text rest ih =>
    obtain ⟨here, there⟩ := List.forall_mem_cons.mp each
    -- Behind the last text there is no separator.
    cases rest with
    | nil => simpa using here
    | cons next later =>
      rw [String.intercalate_cons_cons, noEscape_append, noEscape_append]
      exact ⟨⟨here, apart⟩, ih there⟩

/-- The name of a severity holds no escape character. -/
@[simp] theorem Severity.noEscape_name (severity : Severity) : NoEscape severity.name := by
  -- There are three names.
  cases severity <;> decide

/-- The texts of a locking method. -/
def LockingMethod.strings (m : LockingMethod) : List String :=
  m.name :: m.tags

/-- The texts of a class. -/
def ClassProfile.strings (c : ClassProfile) : List String :=
  [c.name, c.file] ++ c.mutexes ++ c.lockingMethods.flatMap (·.strings) ++ c.unlockedMethods

/-- The texts of an issue. -/
def Issue.strings (issue : Issue) : List String :=
  [issue.file, issue.message, issue.rule] ++ issue.suggestion.toList

/-- The texts of a result. -/
def CheckResult.strings (result : CheckResult) : List String :=
  result.classes.flatMap (·.strings) ++ result.issues.flatMap (·.strings)

/-- A locking method is clean if its name and its tags are. -/
structure LockingMethod.Clean (m : LockingMethod) : Prop where
  name : NoEscape m.name
  tags : ∀ tag ∈ m.tags, NoEscape tag

/-- A class is clean if everything that reports show of it is. -/
structure ClassProfile.Clean (c : ClassProfile) : Prop where
  name : NoEscape c.name
  file : NoEscape c.file
  mutexes : ∀ name ∈ c.mutexes, NoEscape name
  lockingMethods : ∀ m ∈ c.lockingMethods, m.Clean
  unlockedMethods : ∀ name ∈ c.unlockedMethods, NoEscape name

/-- An issue is clean if everything that reports show of it is. -/
structure Issue.Clean (issue : Issue) : Prop where
  file : NoEscape issue.file
  message : NoEscape issue.message
  suggestion : ∀ text ∈ issue.suggestion, NoEscape text

/-- A result is clean if its classes and its issues are. -/
structure CheckResult.Clean (result : CheckResult) : Prop where
  classes : ∀ c ∈ result.classes, c.Clean
  issues : ∀ issue ∈ result.issues, issue.Clean

/-- A class without escape characters is clean. -/
theorem ClassProfile.Clean.of_strings {c : ClassProfile}
    (none : ∀ text ∈ c.strings, NoEscape text) : c.Clean := by
  simp only [strings, List.cons_append, List.nil_append, List.append_assoc, List.forall_mem_cons,
    List.forall_mem_append] at none
  obtain ⟨name, file, mutexes, methods, unlockedMethods⟩ := none
  refine ⟨name, file, mutexes, fun m locking => ?_, unlockedMethods⟩
  -- The texts of one method are among the texts of the class.
  have parts : ∀ text ∈ m.strings, NoEscape text := fun text part =>
    methods text (List.mem_flatMap.mpr ⟨m, locking, part⟩)
  exact ⟨parts _ List.mem_cons_self, fun tag known => parts tag (List.mem_cons_of_mem _ known)⟩

/-- An issue without escape characters is clean. -/
theorem Issue.Clean.of_strings {issue : Issue}
    (none : ∀ text ∈ issue.strings, NoEscape text) : issue.Clean := by
  simp only [strings, List.cons_append, List.nil_append, List.forall_mem_cons,
    Option.mem_toList] at none
  -- The name of the rule is not printed, so nothing is asked of it.
  obtain ⟨file, message, -, suggestion⟩ := none
  exact ⟨file, message, suggestion⟩

/-- A result without escape characters is clean. -/
theorem CheckResult.Clean.of_strings {result : CheckResult}
    -- Texts of a class or an issue are texts of the result.
    (none : ∀ text ∈ result.strings, NoEscape text) : result.Clean where
  classes c known := .of_strings fun text part =>
    none text (List.mem_append_left _ (List.mem_flatMap.mpr ⟨c, known, part⟩))
  issues issue known := .of_strings fun text part =>
    none text (List.mem_append_right _ (List.mem_flatMap.mpr ⟨issue, known, part⟩))

namespace Report

open LockDiscipline.Span (plain)

open LockDiscipline.Document (Clean)

/-- The line above a section is clean. -/
theorem clean_sectionHeader (severity : Severity) : Clean (sectionHeader severity) := by
  -- There are three headers, each a fixed text.
  cases severity <;> simp +decide [sectionHeader, sectionIcon, sectionTitle]

/-- The lines of an issue are clean if it is. -/
theorem clean_issueLines (suggestions : Bool) {issue : Issue}
    (clean : issue.Clean) : Clean (issueLines suggestions issue) := by
  unfold issueLines
  -- A suggestion is shown if it is asked for and there is one.
  split
  · rename_i given
    have suggestion : NoEscape _ := clean.suggestion _ given
    simp +decide [location, clean.file, clean.message, suggestion]
  · simp +decide [location, clean.file, clean.message]

/-- The section of a severity is clean if the issues are. -/
theorem clean_severitySection (suggestions : Bool) {issues : List Issue}
    (clean : ∀ issue ∈ issues, issue.Clean) (severity : Severity) :
    Clean (severitySection suggestions issues severity) := by
  unfold severitySection
  -- Without issues of the severity nothing is printed, not even the header.
  split
  · exact Document.clean_nil
  · have lines : Clean ((issues.filter (·.severity = severity)).flatMap (issueLines suggestions)) :=
      Document.clean_flatMap fun issue member =>
        clean_issueLines suggestions (clean issue (List.mem_filter.mp member).1)
    simp +decide [clean_sectionHeader, lines]

/-- The counts of a run are written without escape characters. -/
theorem noEscape_summaryLine (s : Summary) : NoEscape (summaryLine s) := by
  unfold summaryLine
  -- Apart from the numbers, all texts are fixed.
  simp only [noEscape_append, Nat.toString_eq_repr, noEscape_repr, and_true]
  decide

/-- The report of a check is clean if the result is. -/
theorem clean_bySeverity (suggestions : Bool) {result : CheckResult} (clean : result.Clean) :
    Clean (bySeverity result suggestions) := by
  -- What the program prints itself is fixed text, checked by its characters.
  have nothing : NoEscape cleanMessage := noEscape_ofList (by decide)
  have title : NoEscape checkTitle :=
    noEscape_append.mpr ⟨noEscape_append.mpr ⟨noEscape_ofList (by decide),
      noEscape_ofList (by decide)⟩, noEscape_ofList (by decide)⟩
  have sections : Clean (Severity.all.flatMap (severitySection suggestions result.issues)) :=
    Document.clean_flatMap fun severity _ => clean_severitySection suggestions clean.issues severity
  -- There is either the one message or the title, the sections and the counts.
  unfold bySeverity
  split
  · simp [nothing]
  · simp [title, sections, noEscape_summaryLine]

/-- A listing is clean if its heading and its entries are. -/
theorem clean_listing {heading : Span} {entries : List String} (title : NoEscape heading.text)
    (each : ∀ entry ∈ entries, NoEscape entry) : Clean (listing heading entries) := by
  -- Each entry stands on a line of its own, between fixed texts.
  have items : Clean (entries.map fun e => plain ("  - " ++ e ++ "\n")) := by
    intro s member
    obtain ⟨e, known, rfl⟩ := List.mem_map.mp member
    simp +decide [each e known]
  unfold listing
  split
  · exact Document.clean_nil
  · simp +decide [title, items]

/-- The entry of a locking method holds no escape character if the method is clean. -/
theorem noEscape_methodEntry {m : LockingMethod} (clean : m.Clean) :
    NoEscape (methodEntry m) := by
  -- Apart from the name and the tags, the entry is fixed text and a number.
  have joined : NoEscape (", ".intercalate m.tags) := noEscape_intercalate (by decide) clean.tags
  simp +decide [methodEntry, clean.name, joined]

/-- The section of a class is clean if the class and the issues are. -/
theorem clean_classSection {issues : List Issue} {c : ClassProfile}
    (found : ∀ issue ∈ issues, issue.Clean) (clean : c.Clean) :
    Clean (classSection issues c) := by
  -- The entries are made of texts of the class and of its issues.
  have methodEntries : ∀ entry ∈ c.lockingMethods.map methodEntry, NoEscape entry := by
    intro entry member
    obtain ⟨m, locking, rfl⟩ := List.mem_map.mp member
    exact noEscape_methodEntry (clean.lockingMethods m locking)
  have issueEntries : ∀ entry ∈ (classIssues issues c).map classIssueEntry, NoEscape entry := by
    intro entry member
    obtain ⟨issue, belongs, rfl⟩ := List.mem_map.mp member
    simp +decide [classIssueEntry, (found issue (List.mem_filter.mp belongs).1).message]
  have head : Clean [⟨[.bold], "## Class: " ++ c.name⟩,
      plain ("\nFile: " ++ c.file ++ ":" ++ toString c.startLine ++ "\n\n")] := by
    simp +decide [clean.name, clean.file]
  have rule : Clean [plain (String.ofList (List.replicate 40 '-') ++ "\n\n")] := by
    simp +decide
  simp only [classSection, Document.clean_append]
  -- The parts of a section in the order in which they are printed.
  exact ⟨⟨⟨⟨⟨head, clean_listing (noEscape_ofList (by decide)) clean.mutexes⟩,
    clean_listing (noEscape_ofList (by decide)) methodEntries⟩,
    clean_listing (noEscape_ofList (by decide)) clean.unlockedMethods⟩,
    clean_listing (noEscape_ofList (by decide)) issueEntries⟩, rule⟩

/-- The section of the issues of no class is clean if the result is. -/
theorem clean_looseSection {result : CheckResult} (clean : result.Clean) :
    Clean (looseSection result) := by
  -- An issue is printed by its place and its message.
  have lines : Clean ((looseIssues result).flatMap looseIssueLine) := by
    refine Document.clean_flatMap fun issue member => ?_
    have shown := clean.issues issue (List.mem_filter.mp member).1
    simp +decide [looseIssueLine, location, shown.file, shown.message]
  unfold looseSection
  split
  · exact Document.clean_nil
  · simp +decide [lines]

/-- The counts of an analysis are written without escape characters. -/
theorem noEscape_analysisSummary (result : CheckResult) : NoEscape (analysisSummary result) := by
  unfold analysisSummary
  -- Apart from the numbers, all texts are fixed.
  simp only [noEscape_append, Nat.toString_eq_repr, noEscape_repr, and_true]
  decide

/-- A class of the ranking is a class of the result. -/
theorem exists_class_of_mem_ranking {result : CheckResult} {entry : String × Nat}
    (member : entry ∈ ranking result) : ∃ c ∈ result.classes, c.name = entry.1 := by
  -- The ranking only sorts the counts of all classes and leaves some of them out.
  have counted := List.mem_mergeSort.mp (List.mem_filter.mp (List.mem_of_mem_take member)).1
  obtain ⟨c, known, rfl⟩ := List.mem_map.mp counted
  exact ⟨c, known, rfl⟩

/-- The ranking holds no escape character if the result is clean. -/
theorem noEscape_rankingSection {result : CheckResult} (clean : result.Clean) :
    NoEscape (rankingSection result) := by
  unfold rankingSection
  split
  · decide
  · rw [noEscape_append]
    refine ⟨by decide, noEscape_join fun text member => ?_⟩
    -- Every line of the ranking names a class of the result.
    obtain ⟨entry, ranked, rfl⟩ := List.mem_map.mp member
    obtain ⟨c, known, named⟩ := exists_class_of_mem_ranking ranked
    have name : NoEscape entry.1 := named ▸ (clean.classes c known).name
    simp +decide [name]

/-- The report of an analysis is clean if the result is. -/
theorem clean_byClass {result : CheckResult} (clean : result.Clean) : Clean (byClass result) := by
  -- Fixed texts, sections, other issues and the ranking, each on its own.
  have title : NoEscape "# Threading Safety Analysis\n\n" := noEscape_ofList (by decide)
  have sections : Clean (result.classes.flatMap (classSection result.issues)) :=
    Document.clean_flatMap fun c known => clean_classSection clean.issues (clean.classes c known)
  have loose := clean_looseSection clean
  have ranked := noEscape_rankingSection clean
  unfold byClass
  split
  · have nothing : NoEscape "No classes with mutex usage found.\n" := noEscape_ofList (by decide)
    simp [title, nothing, loose]
  · have counted : NoEscape " classes with threading concerns:\n\n" :=
      noEscape_ofList (by decide)
    have announced : NoEscape "Found " := noEscape_ofList (by decide)
    simp [title, announced, counted, sections, loose, ranked, noEscape_analysisSummary]

/-- The name of a rule holds no escape character. -/
theorem noEscape_ruleName (id : RuleId) : NoEscape id.name := by
  -- Each name is a literal.
  cases id <;> exact noEscape_ofList (by decide)

/-- The summary of a rule of the table holds no escape character. -/
theorem noEscape_ruleSummary {rule : Rule} (member : rule ∈ Rule.table) :
    NoEscape rule.summary := by
  -- The summaries are literals in the rows of the table.
  simp only [Rule.table, List.mem_cons, List.not_mem_nil, or_false] at member
  rcases member with rfl | rfl | rfl | rfl | rfl | rfl | rfl <;> exact noEscape_ofList (by decide)

/-- Padding adds no escape character. -/
theorem noEscape_padTo {text : String} (clean : NoEscape text) (width : Nat) :
    NoEscape (padTo width text) := by
  -- The padding consists of spaces.
  rw [padTo, noEscape_append]
  exact ⟨clean, noEscape_ofList fun member => absurd (List.eq_of_mem_replicate member) (by decide)⟩

/-- The rule table is clean. -/
theorem clean_ruleLines : Clean (Rule.table.flatMap ruleLine) := by
  -- Each line has the name, padded, and the summary of one rule.
  refine Document.clean_flatMap fun rule member => ?_
  simp +decide [ruleLine, noEscape_padTo, noEscape_ruleName, noEscape_ruleSummary member]

end Report

namespace JsonValue

/-- A digit is no escape character. -/
theorem hexDigit_ne_escape : ∀ value < 16, hexDigit value ≠ '\x1b' := by
  -- There are sixteen digits.
  decide

/-- Inside a string the escape character is written in digits. -/
theorem escape_not_mem_escapeChar (c : Char) : '\x1b' ∉ escapeChar c := by
  unfold escapeChar
  -- The escapes of two characters come first, then those in digits, then the plain characters.
  iterate 7
    split
    · decide
  split
  · rename_i control
    have high := hexDigit_ne_escape (c.toNat / 16) (by omega)
    have low := hexDigit_ne_escape (c.toNat % 16) (by omega)
    simp [high.symm, low.symm]
  · rename_i printable
    rw [List.mem_singleton]
    rintro rfl
    exact printable (by decide)

/-- A string in quotes holds no escape character. -/
theorem escape_not_mem_quote (text : String) : '\x1b' ∉ quote text := by
  -- Each character is escaped on its own, and escapes are printable.
  simp [quote, escape_not_mem_escapeChar]

/-- A line break and its indentation hold no escape character. -/
theorem escape_not_mem_newLine (level : Nat) : '\x1b' ∉ newLine level := by
  -- It consists of the break and spaces.
  simp [newLine]

mutual

/-- A printed value holds no escape character, whatever its texts hold. -/
theorem escape_not_mem_print (level : Nat) : (v : JsonValue) → '\x1b' ∉ print level v
  -- By the cases of the printer; in texts, quoting replaces the escape character.
  | .string text => escape_not_mem_quote text
  | .number value => noEscape_repr value
  | .array [] => by simp [print]
  | .array (item :: rest) => by
    simp [print, escape_not_mem_newLine, escape_not_mem_print (level + 1) item,
      escape_not_mem_printItems (level + 1) rest]
  | .object [] => by simp [print]
  | .object ((key, value) :: rest) => by
    simp [print, escape_not_mem_newLine, escape_not_mem_quote,
      escape_not_mem_print (level + 1) value, escape_not_mem_printFields (level + 1) rest]

/-- Printed items hold no escape character. -/
theorem escape_not_mem_printItems (level : Nat) :
    (items : List JsonValue) → '\x1b' ∉ printItems level items
  -- Item by item, together with the values in them.
  | [] => List.not_mem_nil
  | item :: rest => by
    simp [printItems, escape_not_mem_newLine, escape_not_mem_print level item,
      escape_not_mem_printItems level rest]

/-- Printed fields hold no escape character. -/
theorem escape_not_mem_printFields (level : Nat) :
    (fields : List (String × JsonValue)) → '\x1b' ∉ printFields level fields
  -- Keys are quoted like other texts.
  | [] => List.not_mem_nil
  | (key, value) :: rest => by
    simp [printFields, escape_not_mem_newLine, escape_not_mem_quote,
      escape_not_mem_print level value, escape_not_mem_printFields level rest]

end

end JsonValue

namespace Report

/-- Without its style sequences, the rule table is the table in no colour, in either format. -/
theorem withoutColor_ruleTable (format : OutputFormat) :
    withoutColor (ruleTable format true) = ruleTable format false := by
  -- The table in JSON has no style to begin with.
  cases format with
  | human => exact Document.withoutColor_render clean_ruleLines
  | json => exact withoutColor_eq_self (noEscape_ofList (JsonValue.escape_not_mem_print 0 _))

/--
Colour changes nothing but colour.

Deleting the style sequences from the coloured report of a check, with or without suggestions, or
of an analysis leaves the report in no colour, if no text of the result holds an escape character.
The same holds of the rule table in either format, whose texts are fixed.
-/
theorem color_changes_only_color :
    (∀ result : CheckResult, (∀ text ∈ result.strings, NoEscape text) →
      (∀ suggestions, withoutColor ((bySeverity result suggestions).render true) =
        (bySeverity result suggestions).render false) ∧
      withoutColor ((byClass result).render true) = (byClass result).render false) ∧
    ∀ format, withoutColor (ruleTable format true) = ruleTable format false := by
  refine ⟨fun result none => ?_, withoutColor_ruleTable⟩
  -- Apart from numbers, the texts of the result are all that is not fixed in its reports.
  have clean := CheckResult.Clean.of_strings none
  exact ⟨fun suggestions => Document.withoutColor_render (clean_bySeverity suggestions clean),
    Document.withoutColor_render (clean_byClass clean)⟩

/-- A class with one issue, reported with its suggestion and class by class. -/
theorem color_changes_only_color_of_one_issue :
    let c : ClassProfile := ⟨"Player", "a.h", 3, ["first"], [⟨"stop", 7, ["lock()"], 27⟩], []⟩
    let issue : Issue := ⟨.error, "a.h", 7, "stop() locks", some "Add stop_unlocked()", "R"⟩
    let result : CheckResult := ⟨[c], [issue], .tally [issue] 1 1⟩
    withoutColor ((bySeverity result true).render true) = (bySeverity result true).render false ∧
      withoutColor ((byClass result).render true) = (byClass result).render false := by
  intro c issue result
  -- All texts of the result are given, so their characters are looked through.
  have clean : ∀ text ∈ result.strings, NoEscape text := by decide
  obtain ⟨check, analysis⟩ := color_changes_only_color.1 result clean
  exact ⟨check true, analysis⟩

end Report

end LockDiscipline
