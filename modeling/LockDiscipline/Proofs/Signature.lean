import LockDiscipline.Proofs.Calls
import LockDiscipline.Proofs.Pattern.Acceptance
import Mathlib.Data.List.TakeWhile
import Mathlib.Data.Option.Basic

/-! Lines in the form of a signature: which of them declare a method, and which method it is. -/

namespace LockDiscipline

open LockDiscipline.Text

namespace Signature

open Pattern

/-- A text that opens with qualifiers, each up to a word edge, and then has `rest`. -/
inductive Qualified : (text rest : List Char) → Prop
  | done (rest : List Char) : Qualified rest rest
  | next {word : String} {gap text rest : List Char}
      (known : word ∈ ["const", "noexcept", "override", "final"])
      (blank : ∀ c ∈ gap, isBlank c = true)
      (edge : Cursor.touchesWord (gap ++ text).head? = false) (others : Qualified text rest) :
      Qualified (word.toList ++ (gap ++ text)) rest

/-- A text that opens with at most one trailing return type and then has `rest`. -/
inductive Returning : (text rest : List Char) → Prop
  | absent (rest : List Char) : Returning rest rest
  | arrow {gap type trail : List Char} (blank : ∀ c ∈ gap, isBlank c = true)
      (inhabited : type ≠ []) (allowed : ∀ c ∈ type, isTypeChar c = true)
      (trailing : ∀ c ∈ trail, isBlank c = true) (rest : List Char) :
      Returning ("->".toList ++ (gap ++ (type ++ (trail ++ rest)))) rest

/-- A text that opens with at most one special definition and then has `rest`. -/
inductive Special : (text rest : List Char) → Prop
  | absent (rest : List Char) : Special rest rest
  | equals {gap trail : List Char} {word : String} (blank : ∀ c ∈ gap, isBlank c = true)
      (known : word ∈ ["0", "default", "delete"]) (trailing : ∀ c ∈ trail, isBlank c = true)
      (rest : List Char) :
      Special ('=' :: (gap ++ (word.toList ++ (trail ++ rest)))) rest

/-- How a signature ends: closed on its line by a brace or a semicolon, or with the line. -/
inductive Terminated : (text : List Char) → (closed : Bool) → Prop
  | brace (rest : List Char) : Terminated ('\x7b' :: rest) true
  | semicolon (rest : List Char) : Terminated (';' :: rest) true
  | lineEnd : Terminated [] false

/-- What follows the parameters: white space and each optional part in its place. -/
inductive Tail : (text : List Char) → (closed : Bool) → Prop
  | parts {gap qualified returning special last : List Char} {closed : Bool}
      (blank : ∀ c ∈ gap, isBlank c = true) (qualifiers : Qualified qualified returning)
      (type : Returning returning special) (definition : Special special last)
      (ending : Terminated last closed) : Tail (gap ++ qualified) closed

/-- A line in the form of a signature, cut into its parts. -/
structure Form where
  /-- What stands before the name. -/
  lead : List Char
  name : List Char
  /-- What stands between the name and its parameters. -/
  gap : List Char
  parameterList : List Char
  tail : List Char
  /-- Whether the signature is closed on its line. -/
  closed : Bool
  /-- The parenthesis of the parameters is the first of the line. -/
  firstParen : '(' ∉ lead
  /-- The name starts where it seems to start. -/
  apart : ∀ c ∈ lead.getLast?, isWordChar c = false ∧ c ≠ '~'
  isName : IsName name
  blank : ∀ c ∈ gap, isBlank c = true
  /-- The parameters end at the first closing parenthesis. -/
  firstClosing : ')' ∉ parameterList
  ending : Tail tail closed

namespace Form

/-- The line from the name on. -/
def signature (form : Form) : List Char :=
  form.name ++ (form.gap ++ '(' :: (form.parameterList ++ ')' :: form.tail))

/-- The whole line. -/
def line (form : Form) : List Char :=
  form.lead ++ form.signature

end Form

/-- Characters that close a signature. -/
def closes (c : Char) : Bool :=
  c == '\x7b' || c == ';'

/-- Everything between the parameters and the end of a signature. -/
def extras : List Pattern :=
  [blanks, qualifierList, optional trailingReturn, optional specialDefinition]

/-- Qualifiers are accepted. -/
theorem Qualified.accepts {text rest : List Char} (qualified : Qualified text rest) :
    Accepts qualifierList text rest := by
  -- Each qualifier is one repetition, and takes at least its own characters.
  induction qualified with
  | done rest => exact .many_none rest
  | @next word gap text rest known blank edge others ih =>
    have ofWord : ∀ word ∈ qualifiers, 0 < word.toList.length ∧
        Cursor.touchesWord word.toList.getLast? = true := by decide +kernel
    obtain ⟨inhabited, inside⟩ := ofWord word known
    have one : Accepts (inOrder [anyWord qualifiers, wordEdge, blanks])
        (word.toList ++ (gap ++ text)) text :=
      (Accepts.anyWord known _).inOrder_edge inside edge (.run blank text)
    apply Accepts.many_more one ?_ ih
    simp only [List.length_append]
    omega

/-- A trailing return type is accepted, and so is its absence. -/
theorem Returning.accepts {text rest : List Char} (returning : Returning text rest) :
    Accepts (optional trailingReturn) text rest := by
  -- Present, it is the arrow, white space and a type, with white space behind it.
  cases returning with
  | absent => exact .optional_none _
  | @arrow gap type trail blank inhabited allowed trailing =>
    apply Accepts.optional_some
    apply Accepts.inOrder_cons (Accepts.phrase _ _)
    apply Accepts.inOrder_cons (Accepts.run blank _)
    exact (Accepts.shortRun1 inhabited allowed _).inOrder_cons (.run trailing rest)

/-- A special definition is accepted, and so is its absence. -/
theorem Special.accepts {text rest : List Char} (special : Special text rest) :
    Accepts (optional specialDefinition) text rest := by
  -- Present, it is the sign, white space and one of the words, with white space behind it.
  cases special with
  | absent => exact .optional_none _
  | @equals gap trail word blank known trailing =>
    apply Accepts.optional_some
    apply Accepts.inOrder_cons (Accepts.one (by decide) _)
    apply Accepts.inOrder_cons (Accepts.run blank _)
    exact (Accepts.anyWord known _).inOrder_cons (.run trailing rest)

/-- The end of a signature is accepted. -/
theorem Terminated.accepts {text : List Char} {closed : Bool} (ending : Terminated text closed) :
    ∃ rest, Accepts terminator text rest := by
  -- A brace and a semicolon are read, and the end of the line reads nothing.
  cases ending with
  | brace rest => exact ⟨rest, .capture .finish (.orFirst (.one (by decide) rest))⟩
  | semicolon rest => exact ⟨rest, .capture .finish (.orFirst (.one (by decide) rest))⟩
  | lineEnd => exact ⟨[], .capture .finish (.orSecond .textEnd)⟩

/-- A signature is left open exactly if no character that closes one is left. -/
theorem Terminated.closed_eq_false_iff {text : List Char} {closed : Bool}
    (ending : Terminated text closed) : closed = false ↔ ∀ c ∈ text, closes c = false := by
  -- One that is closed ends in a character that closes.
  cases ending <;> simp [closes]

/-- What follows the parameters is accepted up to the end of the signature. -/
theorem Tail.exists_accepts {text : List Char} {closed : Bool} (tail : Tail text closed) :
    ∃ last, Terminated last closed ∧ Accepts (inOrder extras) text last := by
  -- The parts follow one another, each accepted by its own pattern.
  cases tail with
  | @parts gap qualified returning special last closed blank qualifiers type definition ending =>
    refine ⟨last, ending, ?_⟩
    apply Accepts.inOrder_cons (Accepts.run blank qualified)
    apply Accepts.inOrder_cons qualifiers.accepts
    exact type.accepts.inOrder_cons definition.accepts

/-- Parameters are read up to the first closing parenthesis, and capture nothing. -/
theorem reads_of_mem_parameters {a e : Attempt} (outcome : e ∈ ends parameters a) :
    ∃ inner, ')' ∉ inner ∧ a.Reads ('(' :: (inner ++ [')'])) e := by
  -- What is read between the parentheses is a run without closing ones.
  obtain ⟨m, opening, rest⟩ := mem_ends_inOrder_cons.mp outcome
  obtain ⟨n, list, closing⟩ := mem_ends_inOrder_cons.mp rest
  obtain ⟨c, fit, atOpening, -⟩ := mem_ends_one.mp opening
  obtain rfl : c = '(' := by simpa using fit
  obtain ⟨inner, others, atInner, -⟩ := mem_ends_run.mp list
  obtain ⟨c, fit, atClosing, -⟩ := mem_ends_one.mp closing
  obtain rfl : c = ')' := by simpa using fit
  refine ⟨inner, ?_, atOpening.trans (atInner.trans atClosing)⟩
  intro member
  simpa using others ')' member

/-- Where a signature ends, what is captured is empty if nothing ahead closes a signature. -/
theorem exists_finish_of_mem_terminator {a e : Attempt} (outcome : e ∈ ends terminator a) :
    ∃ text, e.captures.find? (·.label == .finish) = some ⟨.finish, a.cursor, text⟩ ∧
      (text = [] ↔ ∀ c ∈ a.cursor.after, closes c = false) := by
  obtain ⟨m, inner, rfl⟩ := mem_ends_capture.mp outcome
  refine ⟨a.cursor.upTo m.cursor, rfl, ?_⟩
  rcases mem_ends_or.mp inner with character | lineEnd
  · -- The character that closes the signature is both captured and ahead.
    obtain ⟨c, fit, reads, -⟩ := mem_ends_one.mp character
    have closing : closes c = true := fit
    rw [reads.upTo, reads.1]
    simp [closing]
  · obtain ⟨rfl, nothing⟩ := mem_ends_textEnd.mp lineEnd
    simp [Cursor.upTo, nothing]

/-- Nothing between the parameters and the end of a signature closes one. -/
theorem closes_iff_of_mem_extras {a e : Attempt} (outcome : e ∈ ends (inOrder extras) a) :
    (∀ c ∈ e.cursor.after, closes c = false) ↔ ∀ c ∈ a.cursor.after, closes c = false := by
  obtain ⟨taken, reads⟩ := exists_reads outcome
  -- The parts in between stop at both characters that close a signature.
  have noBrace : '\x7b' ∉ taken := not_mem_of_reads (by decide) outcome reads
  have noSemicolon : ';' ∉ taken := not_mem_of_reads (by decide) outcome reads
  have stillOpen : ∀ c ∈ taken, closes c = false := by
    intro c member
    rw [closes, Bool.or_eq_false_iff, beq_eq_false_iff_ne, beq_eq_false_iff_ne]
    constructor
    · intro same
      exact noBrace (same ▸ member)
    · intro same
      exact noSemicolon (same ▸ member)
  rw [reads.1, List.forall_mem_append]
  exact ⟨fun rest => ⟨stillOpen, rest⟩, And.right⟩

section DeclaredName

variable {a e : Attempt} (outcome : e ∈ ends declaredName a) {read : List Char}
  (reads : a.Reads read e) {c : Char}

include outcome reads

/-- A declared name holds nothing but word characters and the tilde. -/
theorem not_mem_of_declaredName (notWord : isWordChar c = false) (notTilde : c ≠ '~') :
    c ∉ read := by
  -- Word characters and the tilde are all that the pattern of a name can read.
  have stops : declaredName.stopsAt c = true := by
    simp [declaredName, inOrder, Pattern.optional, stopsAt, identifier, run1, notWord, notTilde]
  exact not_mem_of_reads stops outcome reads

/-- A declared name holds no white space. -/
theorem isBlank_of_declaredName (member : c ∈ read) : isBlank c = false := by
  -- White space is neither a word character nor a tilde.
  cases blank : isBlank c with
  | false => rfl
  | true =>
    have notTilde : c ≠ '~' := by
      intro tilde
      subst tilde
      exact absurd blank (by decide)
    have notRead := not_mem_of_declaredName outcome reads (isWordChar_of_isBlank blank) notTilde
    exact absurd member notRead

end DeclaredName

namespace Form

variable {form : Form} {front back : List Char}

/-- No parenthesis opens before that of the parameters. -/
theorem paren_not_mem (shape : form.lead = front ++ back) :
    '(' ∉ back ++ form.name ++ form.gap := by
  -- The lead is free of it by assumption, a name and white space by their characters.
  have notLead : '(' ∉ back := fun member => form.firstParen (by simp [shape, member])
  have notName : '(' ∉ form.name := fun member => absurd (form.isName.word _ member) (by decide)
  have notBlank : '(' ∉ form.gap := fun member => absurd (form.blank _ member) (by decide)
  simp [notLead, notName, notBlank]

/-- A name that is read at the name of the form, or before it, is the name of the form. -/
theorem name_of_reads (shape : form.lead = front ++ back) {a m : Attempt}
    (declared : m ∈ ends declaredName a) {read gap : List Char} (reads : a.Reads read m)
    (blank : ∀ c ∈ gap, isBlank c = true) (same : back ++ form.name ++ form.gap = read ++ gap) :
    back = [] ∧ read = form.name := by
  -- White space is cut off at the end on both sides, and what is left are the two names.
  have whole : back ++ form.name = read := by
    have reversed : form.gap.reverse ++ (back ++ form.name).reverse =
        gap.reverse ++ read.reverse := by
      simpa using congrArg List.reverse same
    have nameLast : ∀ c ∈ (back ++ form.name).reverse.head?, isBlank c = false := by
      intro c last
      rw [List.head?_reverse, List.getLast?_append_of_ne_nil _ form.isName.inhabited] at last
      exact isBlank_of_isWordChar (form.isName.word c (List.mem_of_getLast? last))
    have readLast : ∀ c ∈ read.reverse.head?, isBlank c = false := by
      intro c last
      rw [List.head?_reverse] at last
      exact isBlank_of_declaredName declared reads (List.mem_of_getLast? last)
    have cut := run_unique reversed (by simpa using form.blank) (by simpa using blank)
      nameLast readLast
    exact List.reverse_inj.mp cut.2
  -- The character before the name is none that a declared name can hold.
  have nothing : back = [] := by
    cases last : back.getLast? with
    | none => exact List.getLast?_eq_none_iff.mp last
    | some c =>
      have before : c ∈ form.lead.getLast? := by simp [shape, List.getLast?_append, last]
      have inside : c ∈ read := by
        rw [← whole]
        exact List.mem_append_left _ (List.mem_of_getLast? last)
      obtain ⟨notWord, notTilde⟩ := form.apart c before
      exact absurd inside (not_mem_of_declaredName declared reads notWord notTilde)
  subst nothing
  exact ⟨rfl, whole.symm⟩

/-- The name and the parameters that are read at the name, or before it, are those of the form. -/
theorem parts_of_outcomes (shape : form.lead = front ++ back) {a m n e : Attempt}
    (ahead : a.cursor.after = back ++ form.signature) (declared : m ∈ ends declaredName a)
    (spaced : n ∈ ends blanks m) (listed : e ∈ ends parameters n) {read : List Char}
    (reads : a.Reads read m) : back = [] ∧ read = form.name ∧ e.cursor.after = form.tail := by
  -- What is read is the name, white space and the parameters, each with its own characters.
  obtain ⟨gap, blank, atGap, -⟩ := mem_ends_run.mp spaced
  obtain ⟨inner, noClosing, atParameters⟩ := reads_of_mem_parameters listed
  have same : back ++ form.name ++ form.gap ++ '(' :: (form.parameterList ++ ')' :: form.tail) =
      read ++ gap ++ '(' :: (inner ++ ')' :: e.cursor.after) := by
    have whole := (reads.trans (atGap.trans atParameters)).1
    rw [ahead, signature] at whole
    simpa using whole
  have noParen : '(' ∉ read ++ gap := by
    have notRead : '(' ∉ read := not_mem_of_declaredName declared reads (by decide) (by decide)
    have notBlank : '(' ∉ gap := fun member => absurd (blank _ member) (by decide)
    simp [notRead, notBlank]
  -- The first opening parenthesis is the same on both sides, and so is the closing one.
  obtain ⟨names, lists⟩ := cut_unique same (paren_not_mem shape) noParen
  obtain ⟨-, tails⟩ := cut_unique lists form.firstClosing noClosing
  obtain ⟨nothing, named⟩ := name_of_reads shape declared reads blank names
  exact ⟨nothing, named, tails.symm⟩

/-- Every outcome at the name, or before it, is at the name and captures it. -/
theorem captures_of_outcome (shape : form.lead = front ++ back) {e : Attempt}
    (outcome : e ∈ ends pattern ⟨⟨front.reverse, back ++ form.signature⟩, []⟩) :
    back = [] ∧
      e.captures.find? (·.label == .name) =
        some ⟨.name, ⟨front.reverse, back ++ form.signature⟩, form.name⟩ ∧
      ∃ finish, e.captures.find? (·.label == .finish) = some finish ∧
        (finish.text = [] ↔ form.closed = false) := by
  obtain ⟨m, read, declared, reads, -, name, rest⟩ := exists_declared_of_outcome outcome
  obtain ⟨n, spaced, rest⟩ := mem_ends_inOrder_cons.mp rest
  obtain ⟨q, listed, rest⟩ := mem_ends_inOrder_cons.mp rest
  obtain ⟨nothing, named, tail⟩ := parts_of_outcomes shape rfl declared spaced listed reads
  refine ⟨nothing, by rw [name, named], ?_⟩
  -- The tail of the form and the one that is read leave the same characters to close it.
  have behind : e ∈ ends (inOrder (extras ++ [terminator])) q := rest
  obtain ⟨r, between, last⟩ := mem_ends_inOrder_append.mp behind
  obtain ⟨text, finish, empty⟩ := exists_finish_of_mem_terminator last
  obtain ⟨final, ending, accepts⟩ := form.ending.exists_accepts
  obtain ⟨f, expected, left⟩ := accepts q tail
  refine ⟨_, finish, ?_⟩
  rw [empty, closes_iff_of_mem_extras between, ← closes_iff_of_mem_extras expected, left,
    ending.closed_eq_false_iff]

/-- A declared name can be read at the name. -/
theorem exists_declared (form : Form) :
    ∃ m ∈ ends declaredName ⟨⟨form.lead.reverse, form.signature⟩, []⟩,
      m.cursor.after = form.gap ++ '(' :: (form.parameterList ++ ')' :: form.tail) := by
  let a : Attempt := ⟨⟨form.lead.reverse, form.signature⟩, []⟩
  -- The lead does not end in a word, so the name starts at a word edge.
  have edge : a.cursor.atWordEdge = true := by
    have outside : Cursor.touchesWord form.lead.getLast? = false := by
      cases last : form.lead.getLast? with
      | none => rfl
      | some c => exact (form.apart c last).1
    have inside : Cursor.touchesWord form.signature.head? = true := form.isName.touchesWord _
    rw [Cursor.atWordEdge, List.head?_reverse, outside, inside]
    rfl
  -- Without a tilde, the name is captured from the edge on.
  obtain ⟨e, word, left⟩ := Accepts.run1 form.isName.inhabited form.isName.word _ a rfl
  refine ⟨_, mem_ends_capture.mpr ⟨e, ?_, rfl⟩, left⟩
  apply mem_ends_inOrder_cons.mpr
  refine ⟨a, mem_ends_or.mpr (.inr (mem_ends_empty.mpr rfl)), ?_⟩
  apply mem_ends_inOrder_cons.mpr
  exact ⟨a, mem_ends_wordEdge.mpr ⟨rfl, edge⟩, word⟩

/-- The pattern of a signature has an outcome at the name. -/
theorem ends_ne_nil (form : Form) :
    ends pattern ⟨⟨form.lead.reverse, form.signature⟩, []⟩ ≠ [] := by
  -- Behind the name stand the parameters, the extras and the end, each of them accepted.
  obtain ⟨last, ending, between⟩ := form.ending.exists_accepts
  obtain ⟨rest, finish⟩ := ending.accepts
  have list : Accepts parameters ('(' :: (form.parameterList ++ ')' :: form.tail)) form.tail := by
    apply Accepts.inOrder_cons (Accepts.one (by decide) _)
    apply Accepts.inOrder_cons (Accepts.run (bne_of_not_mem form.firstClosing) _)
    exact .one (by decide) _
  have afterName : Accepts (inOrder (blanks :: parameters :: (extras ++ [terminator])))
      (form.gap ++ '(' :: (form.parameterList ++ ')' :: form.tail)) rest := by
    apply Accepts.inOrder_cons (Accepts.run form.blank _)
    apply Accepts.inOrder_cons list
    exact between.inOrder_append finish
  obtain ⟨m, declared, ahead⟩ := form.exists_declared
  obtain ⟨e, outcome, -⟩ := afterName m ahead
  exact List.ne_nil_of_mem (mem_ends_inOrder_cons.mpr ⟨m, declared, outcome⟩)

/-- The search finds the signature at the name of the form. -/
theorem exists_find? (form : Form) :
    ∃ found, pattern.find? form.line = some found ∧
      found.capture? .name = some ⟨.name, ⟨form.lead.reverse, form.signature⟩, form.name⟩ ∧
      ∃ finish, found.capture? .finish = some finish ∧
        (finish.text = [] ↔ form.closed = false) := by
  have earlier : ∀ head c tail, form.lead = head ++ c :: tail →
      ends pattern ⟨⟨head.reverse, c :: tail ++ form.signature⟩, []⟩ = [] := by
    intro head c tail shape
    apply List.eq_nil_iff_forall_not_mem.mpr
    intro e outcome
    -- An outcome inside the lead would have to start at the name.
    exact absurd (captures_of_outcome shape outcome).1 (by simp)
  obtain ⟨e, outcome, found⟩ := exists_find?_of_first earlier form.ends_ne_nil
  have shape : form.lead = form.lead ++ [] := (List.append_nil _).symm
  obtain ⟨-, name, finish⟩ := captures_of_outcome shape outcome
  exact ⟨_, found, name, finish⟩

/-- On a line in the form of a signature, the answer is a matter of its parts alone. -/
theorem name?_line (form : Form) (next : Option (List Char)) :
    name? form.line next = (do
      guard (form.closed || next.any fun n => n.head? == some '\x7b')
      guard (!(keywordCalls.map String.toList).contains form.name)
      guard (readsAsType form.lead)
      return form.name) := by
  obtain ⟨found, matched, name, finish, ends, closed⟩ := form.exists_find?
  -- A name holds no tilde, so it is not taken for a destructor.
  have ordinary : (form.name.head? == some '~') = false := by
    rw [beq_eq_false_iff_ne]
    intro tilde
    exact absurd (form.isName.word '~' (List.mem_of_head? tilde)) (by decide)
  have sameEnd : (!finish.text.isEmpty) = form.closed := by
    cases text : finish.text with
    | nil => exact (closed.mp text).symm
    | cons c rest =>
      rw [text] at closed
      simpa using closed
  simp only [name?, matched, name, ends, Option.bind_eq_bind, Option.bind_some, sameEnd, ordinary,
    List.reverse_reverse]
  rfl

end Form

/-- The last word of a text: its letters, numbers and underscores at the end, all of them. -/
def IsLastWord (word text : List Char) : Prop :=
  ∃ front, text = front ++ word ∧ (∀ c ∈ word, isAlphanumeric c = true ∨ c = '_') ∧
    ∀ c ∈ front.getLast?, ¬ (isAlphanumeric c = true ∨ c = '_')

/-- A text has exactly one last word. -/
theorem isLastWord_iff {word text : List Char} : IsLastWord word text ↔ lastWord text = word := by
  -- What counts as part of a word is decided by one test on both sides.
  have test : ∀ c, (isAlphanumeric c || c == '_') = true ↔ isAlphanumeric c = true ∨ c = '_' := by
    simp
  simp only [IsLastWord, ← test, Bool.not_eq_true]
  constructor
  · intro ⟨front, shape, inside, outside⟩
    -- The word is what is taken from the text read backwards.
    rw [← List.head?_reverse] at outside
    rw [lastWord, shape, List.reverse_append, takeWhile_run (by simpa using inside) outside,
      List.reverse_reverse]
  · intro same
    subst same
    -- The other way round, the last word is such a word, by the place where taking it stopped.
    refine ⟨(text.reverse.dropWhile fun c => isAlphanumeric c || c == '_').reverse, ?_, ?_, ?_⟩
    · rw [lastWord, ← List.reverse_append, List.takeWhile_append_dropWhile, List.reverse_reverse]
    · intro c member
      exact List.all_eq_true.mp List.all_takeWhile c (List.mem_reverse.mp member)
    · intro c edge
      rw [List.getLast?_reverse] at edge
      have stops := List.head?_dropWhile_not (fun c => isAlphanumeric c || c == '_') text.reverse
      rw [Option.mem_def.mp edge] at stops
      simpa using stops

/-- A text is none of several words. -/
theorem not_contains_iff {words : List String} {text : List Char} :
    (!(words.map String.toList).contains text) = true ↔ ∀ word ∈ words, text ≠ word.toList := by
  -- A word is in the table exactly if it is equal to one of the table's words.
  rw [Bool.not_eq_true', ← Bool.not_eq_true, List.contains_iff_mem, List.mem_map]
  constructor
  · intro missing word member same
    exact missing ⟨word, member, same.symm⟩
  · intro differs ⟨word, member, same⟩
    exact differs word member same.symm

/-- A text that reads as a type. -/
structure IsType (text : List Char) : Prop where
  /-- The text is not empty, and its last character can end a type. -/
  last : ∃ c, text.getLast? = some c ∧ (isAlphanumeric c = true ∨ c ∈ ['_', '>', '*', '&'])
  notArrow : ¬ "->".toList <:+ text
  notScope : ¬ "::".toList <:+ text
  notKeyword : ∀ word ∈ nonTypeWords, ¬ IsLastWord word.toList text

/-- The test of a lead looks at it without the white space at its end. -/
theorem readsAsType_iff {lead : List Char} :
    readsAsType lead = true ↔ IsType (trimEnd lead) := by
  -- The three tests are translated one by one.
  have words : (!(nonTypeWords.map String.toList).contains (lastWord (trimEnd lead))) = true ↔
      ∀ word ∈ nonTypeWords, ¬ IsLastWord word.toList (trimEnd lead) := by
    simp only [not_contains_iff, isLastWord_iff, ne_eq]
  have last : endsLikeType (trimEnd lead) = true ↔ ∃ c, (trimEnd lead).getLast? = some c ∧
      (isAlphanumeric c = true ∨ c ∈ ['_', '>', '*', '&']) := by
    simp [endsLikeType, Option.any_eq_true]
  simp only [readsAsType, Bool.and_eq_true, words, last, Bool.not_eq_true', ← Bool.not_eq_true,
    List.isSuffixOf_iff_suffix]
  constructor
  · intro ⟨⟨⟨arrow, scope⟩, ending⟩, keyword⟩
    exact ⟨ending, arrow, scope, keyword⟩
  · intro type
    exact ⟨⟨⟨type.notArrow, type.notScope⟩, type.last⟩, type.notKeyword⟩

/-- A line in the form of a signature declares its name, given the next line. -/
structure Form.Declares (form : Form) (next : Option (List Char)) : Prop where
  /-- The signature is closed on its line, or the next line opens a body. -/
  closed : form.closed = true ∨ ∃ rest, next = some ('\x7b' :: rest)
  notKeyword : ∀ word ∈ keywordCalls, form.name ≠ word.toList
  /-- What stands before the name, without the white space at its end, reads as a type. -/
  type : IsType (trimEnd form.lead)

/-- A name is found exactly if the form declares it. -/
theorem Form.name?_line_eq_some_iff (form : Form) (next : Option (List Char)) (name : List Char) :
    name? form.line next = some name ↔ form.Declares next ∧ name = form.name := by
  rw [name?_line]
  -- An open signature needs the next line to start with its brace.
  have opens : (form.closed || next.any fun n => n.head? == some '\x7b') = true ↔
      form.closed = true ∨ ∃ rest, next = some ('\x7b' :: rest) := by
    cases next with
    | none => simp
    | some n => cases n <;> simp
  simp only [Option.bind_eq_bind, Option.bind_eq_some_iff, Option.guard_eq_some', opens,
    not_contains_iff, readsAsType_iff]
  -- All tests succeed for a name that is found, and the name is the one that is captured.
  constructor
  · intro ⟨_, closed, _, notKeyword, _, type, same⟩
    exact ⟨⟨closed, notKeyword, type⟩, (Option.some.inj same).symm⟩
  · intro ⟨declares, same⟩
    subst same
    exact ⟨(), declares.closed, (), declares.notKeyword, (), declares.type, rfl⟩

/-- Nothing but white space reads as no type. -/
theorem not_isType_of_blank {lead : List Char} (blank : ∀ c ∈ lead, isBlank c = true) :
    ¬ IsType (trimEnd lead) := by
  intro type
  -- Trimming leaves nothing, and a type has a last character.
  have nothing : trimEnd lead = [] := by
    rw [trimEnd, List.reverse_eq_nil_iff, List.dropWhile_eq_nil_iff]
    simpa using blank
  obtain ⟨c, last, -⟩ := type.last
  rw [nothing] at last
  exact absurd last (by simp)

/--
Lines in the form of a signature are decided by their parts.

Whatever stands in the parameters and behind the end, the name is found if the form declares it,
and nothing is found otherwise; so a call that stands alone is never taken for a declaration.
-/
theorem decided_by_form (form : Form) (next : Option (List Char)) :
    (form.Declares next → name? form.line next = some form.name) ∧
      (¬ form.Declares next → name? form.line next = none) ∧
      ((∀ c ∈ form.lead, isBlank c = true) → name? form.line next = none) := by
  -- Whatever is found is declared by the form, so without a declaration nothing is found.
  have otherwise : ¬ form.Declares next → name? form.line next = none := by
    intro undeclared
    apply Option.eq_none_iff_forall_ne_some.mpr
    intro name found
    exact undeclared ((form.name?_line_eq_some_iff next name).mp found).1
  refine ⟨?_, otherwise, ?_⟩
  · intro declares
    exact (form.name?_line_eq_some_iff next form.name).mpr ⟨declares, rfl⟩
  · intro blank
    exact otherwise fun declares => not_isType_of_blank blank declares.type

/-- A pure virtual method with a trailing return type and a parenthesis among its parameters. -/
def pureVirtual : Form where
  lead := "virtual auto ".toList
  name := "size".toList
  gap := []
  parameterList := "int (*f".toList
  tail := " ".toList ++ ("const".toList ++ (" ".toList ++ ("noexcept".toList ++ (" ".toList ++
    ("->".toList ++ (" ".toList ++ ("std::size_t".toList ++ (" ".toList ++
      '=' :: (" ".toList ++ ("0".toList ++ ([] ++ [';'])))))))))))
  closed := true
  firstParen := by decide +kernel
  apart := by
    have last : "virtual auto ".toList.getLast? = some ' ' := by decide +kernel
    intro c member
    obtain rfl : ' ' = c := Option.some.inj (last.symm.trans member)
    decide
  isName := ⟨by decide +kernel, List.all_eq_true.mp (by decide +kernel)⟩
  blank := by simp
  firstClosing := by decide +kernel
  ending := by
    have space : ∀ c ∈ " ".toList, isBlank c = true := List.all_eq_true.mp (by decide +kernel)
    have type : ∀ c ∈ "std::size_t".toList, isTypeChar c = true :=
      List.all_eq_true.mp (by decide +kernel)
    exact .parts space
      (.next (by simp) space (by decide +kernel)
        (.next (by simp) space (by decide +kernel) (.done _)))
      (.arrow space (by decide +kernel) type space _)
      (.equals space (by simp) (by simp) _) (.semicolon [])

/-- The pure virtual method is declared on its line alone. -/
theorem decided_by_form_of_pure_virtual :
    pureVirtual.line = "virtual auto size(int (*f) const noexcept -> std::size_t = 0;".toList ∧
      pureVirtual.Declares none ∧ name? pureVirtual.line none = some "size".toList := by
  -- The conditions of the form are checked part by part.
  have declares : pureVirtual.Declares none :=
    ⟨.inl rfl, by decide +kernel, readsAsType_iff.mp (by decide +kernel)⟩
  exact ⟨by decide +kernel, declares, (decided_by_form pureVirtual none).1 declares⟩

end Signature

end LockDiscipline
