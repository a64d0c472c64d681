import LockDiscipline.Proofs.Scan.Nested
import LockDiscipline.Proofs.Signature
import Mathlib.Data.List.InsertIdx

/-! Unlocked twins: a method is no longer reported once its twin is declared below `private:`. -/

namespace LockDiscipline

open LockDiscipline.Text

namespace Trigger

/-- The line that declares the unlocked twin of a method. -/
def twinDeclaration (method : String) : String :=
  "void " ++ twinName method ++ "();"

/-- What is said of a method without an unlocked twin. -/
def missingTwinMessage (method : String) : String :=
  "Public method '" ++ method ++ "' acquires locks but has no private '" ++ twinName method ++
    "' counterpart"

/-- A name that stands twice in a text, with the same around it, is known from the text. -/
theorem eq_of_named_twice {opening middle suffix ending first second : String}
    (same : opening ++ first ++ middle ++ (first ++ suffix) ++ ending =
      opening ++ second ++ middle ++ (second ++ suffix) ++ ending) : first = second := by
  have chars := congrArg String.toList same
  simp only [String.toList_append, List.append_assoc] at chars
  -- Both names have the same length, since all the rest has, so they end at the same place.
  have sizes := congrArg List.length chars
  simp only [List.length_append] at sizes
  have names := List.append_inj_left (List.append_cancel_left chars) (by omega)
  exact String.toList_inj.mp names

/-- What is said of two methods is the same only if their names are. -/
theorem missingTwinMessage_injective : Function.Injective missingTwinMessage :=
  -- The name stands in the message twice, between fixed texts.
  fun _ _ same => eq_of_named_twice same

/-- No method with an unlocked twin is reported. -/
theorem message_ne_of_mem_unlockedMethods {p : ClassProfile} {method : String}
    (twin : twinName method ∈ p.unlockedMethods) {finding : Finding}
    (member : finding ∈ missingUnlockedMethod p) :
    finding.message ≠ missingTwinMessage method := by
  obtain ⟨m, -, made⟩ := List.mem_filterMap.mp member
  -- What is reported is a method whose own twin is missing.
  obtain ⟨missing, reported⟩ := Option.ite_none_left_eq_some.mp made
  obtain rfl := Option.some.inj reported
  intro same
  obtain rfl : m.name = method := missingTwinMessage_injective same
  exact missing (List.contains_iff_mem.mpr twin)

section TwinDeclaration

variable {method : String} (isName : IsName method.toList)

include isName in
/-- The name of a twin is a name. -/
theorem isName_twinName : IsName (twinName method).toList := by
  rw [twinName, String.toList_append]
  refine ⟨by simp [isName.inhabited], ?_⟩
  -- The method is a name and the suffix consists of word characters.
  intro c member
  rcases List.mem_append.mp member with inMethod | inSuffix
  · exact isName.word c inMethod
  · have letters : "_unlocked".toList.all isWordChar = true := by decide +kernel
    exact List.all_eq_true.mp letters c inSuffix

/-- A twin is named for being unlocked. -/
theorem suffix_twinName (method : String) : "_unlocked".toList <:+ (twinName method).toList := by
  -- The suffix is put behind the name of the method.
  rw [twinName, String.toList_append]
  exact List.suffix_append _ _

/-- The characters of a declaration of a twin. -/
theorem twinDeclaration_toList (method : String) :
    (twinDeclaration method).toList =
      "void ".toList ++ (twinName method).toList ++ "();".toList := by
  -- The characters of a text in parts are those of its parts.
  simp only [twinDeclaration, String.toList_append]

include isName in
/-- A declaration of a twin holds word characters, one space, parentheses and a semicolon. -/
theorem not_mem_twinDeclaration {c : Char} (notWord : isWordChar c = false)
    (other : c ∉ "void ".toList ++ "();".toList) : c ∉ (twinDeclaration method).toList := by
  -- The name in the middle is made of word characters, and the rest is fixed.
  have notName : c ∉ (twinName method).toList := by
    intro member
    rw [(isName_twinName isName).word c member] at notWord
    exact absurd notWord (by simp)
  rw [List.mem_append, not_or] at other
  rw [twinDeclaration_toList, List.mem_append, List.mem_append, not_or, not_or]
  exact ⟨⟨other.1, notName⟩, other.2⟩

/-- A declaration of a twin has no white space at its ends. -/
theorem trim_twinDeclaration (method : String) :
    trim (twinDeclaration method).toList = (twinDeclaration method).toList := by
  rw [twinDeclaration_toList]
  -- The first character is a letter and the last one is a semicolon.
  apply trim_eq_self
  · intro c first
    obtain rfl : 'v' = c := Option.some.inj first
    decide
  · intro c last
    have semicolon : "();".toList.getLast? = some ';' := by decide +kernel
    rw [List.getLast?_append_of_ne_nil _ (by decide +kernel), semicolon] at last
    obtain rfl : ';' = c := Option.some.inj last
    decide

/-- A declaration of a twin is no label. -/
theorem ofLabel?_twinDeclaration (method : String) :
    Access.ofLabel? (twinDeclaration method).toList = none := by
  -- A declaration opens with a type, and labels do not.
  rw [twinDeclaration_toList]
  rfl

/-- All characters of an empty gap are white space. -/
theorem isBlank_of_mem_nil : ∀ c ∈ ([] : List Char), isBlank c = true := List.forall_mem_nil _

/-- The form of a declaration of a twin. -/
def twinForm : Signature.Form where
  lead := "void ".toList
  name := (twinName method).toList
  gap := []
  parameterList := []
  tail := [';']
  closed := true
  firstParen := by decide +kernel
  apart := by
    have last : "void ".toList.getLast? = some ' ' := by decide +kernel
    intro c member
    obtain rfl : ' ' = c := Option.some.inj (last.symm.trans member)
    decide
  isName := isName_twinName isName
  blank := isBlank_of_mem_nil
  firstClosing := List.not_mem_nil
  ending := .parts isBlank_of_mem_nil (.done _) (.absent _) (.absent _) (.semicolon [])

include isName in
/-- A declaration of a twin declares the twin, whatever comes next. -/
theorem name?_twinDeclaration (next : Option (List Char)) :
    Signature.name? (twinDeclaration method).toList next = some (twinName method).toList := by
  have line : (twinDeclaration method).toList = (twinForm isName).line := by
    rw [twinDeclaration_toList, List.append_assoc]
    rfl
  -- No keyword ends like the name of a twin.
  have notKeyword : ∀ word ∈ Signature.keywordCalls, (twinName method).toList ≠ word.toList := by
    have others : ∀ word ∈ Signature.keywordCalls, ¬ "_unlocked".toList <:+ word.toList := by
      decide +kernel
    intro word known same
    exact others word known (same ▸ suffix_twinName method)
  have type : Signature.readsAsType "void ".toList = true := by decide +kernel
  have declares : (twinForm isName).Declares next :=
    ⟨.inl rfl, notKeyword, Signature.readsAsType_iff.mp type⟩
  rw [line]
  exact ((twinForm isName).name?_line_eq_some_iff next _).mpr ⟨declares, rfl⟩

end TwinDeclaration

end Trigger

namespace Scan

open Region (NoBraces)
open Trigger (twinName twinDeclaration missingTwinMessage)

/-- A line has no braces if it has none when it is trimmed. -/
theorem noBraces_of_trim {line : List Char} (noBraces : NoBraces (trim line)) : NoBraces line := by
  -- What trimming removes is white space, and a brace is none.
  obtain ⟨lead, trail, shape, leading, trailing⟩ := exists_trim line
  have apart : ∀ c, isBlank c = false → c ∉ trim line → c ∉ line := by
    intro c notBlank missing
    rw [shape, List.mem_append, List.mem_append, not_or, not_or]
    refine ⟨⟨?_, missing⟩, ?_⟩
    · intro member
      simp [leading c member] at notBlank
    · intro member
      simp [trailing c member] at notBlank
  exact ⟨apart _ (by decide) noBraces.1, apart _ (by decide) noBraces.2⟩

/-- The label of a private section has no braces. -/
theorem noBraces_label {label : List Char} (isLabel : trim label = "private:".toList) :
    NoBraces label := by
  -- White space around the label holds no braces either.
  have plain : NoBraces "private:".toList := by decide +kernel
  exact noBraces_of_trim (isLabel ▸ plain)

/-- A declaration of a twin has no braces. -/
theorem noBraces_twinDeclaration {method : String} (isName : IsName method.toList) :
    NoBraces (twinDeclaration method).toList :=
  -- A brace is no word character and does not occur in the fixed parts.
  ⟨Trigger.not_mem_twinDeclaration isName (by decide) (by decide +kernel),
    Trigger.not_mem_twinDeclaration isName (by decide) (by decide +kernel)⟩

/-- Below a line without braces the level is the same. -/
theorem atMemberLevel_below {depth : Int} {all : List (List Char)} {k : Nat} {line : List Char}
    (level : AtMemberLevel depth all k) (found : all[k]? = some line) (noBraces : NoBraces line) :
    AtMemberLevel depth all (k + 1) := by
  -- Line by line the depth moves along, up to the line itself, which leaves it.
  induction all generalizing depth k with
  | nil => simp at found
  | cons first rest ih =>
    cases k with
    | zero =>
      obtain rfl : first = line := Option.some.inj found
      rw [atMemberLevel_succ, braceBalance_noBraces noBraces, Int.add_zero]
      exact atMemberLevel_zero.mpr (atMemberLevel_zero.mp level)
    | succ k => exact atMemberLevel_succ.mpr (ih (atMemberLevel_succ.mp level) found)

/-- Up to an inserted line the levels are the same. -/
theorem atMemberLevel_insertIdx {depth : Int} {all : List (List Char)} {k i : Nat}
    {line : List Char} (above : i ≤ k) :
    AtMemberLevel depth (all.insertIdx k line) i ↔ AtMemberLevel depth all i := by
  -- The level of a line is counted over the lines above it.
  rw [AtMemberLevel, AtMemberLevel, List.take_insertIdx_eq_take_of_le _ _ _ _ above]

/-- A line without braces is not the last line of a region. -/
theorem succ_lt_length_of_noBraces {code : List Char} {r : Region}
    (member : r ∈ Region.findAll code) {k : Nat} {line : List Char}
    (found : (lines r.body)[k]? = some line) (noBraces : NoBraces line) :
    k + 1 < (lines r.body).length := by
  have inside := (List.getElem?_eq_some_iff.mp found).1
  rw [length_lines] at inside ⊢
  -- The last line ends in the brace that closes the region.
  have notLast : k ≠ lineBreaks r.body := by
    rintro rfl
    obtain rfl : line = lastLine r.body :=
      Option.some.inj (found.symm.trans (getElem?_lastLine r.body))
    have last := getLast?_lastLine (Region.getLast?_body member) (by decide)
    exact noBraces.2 (List.mem_of_getLast? last)
  omega

/-- Where a line is at member level, a brace is open above it. -/
theorem brace_mem_beforeLine {text : List Char} {k : Nat}
    (level : AtMemberLevel 0 (lines text) k) : '\x7b' ∈ beforeLine text k := by
  -- Without an opening brace the balance would not be positive.
  rw [AtMemberLevel, ← braceBalance_beforeLine, braceBalance] at level
  exact List.count_pos_iff.mp (by omega)

/-- A twin that is declared right below the label of a private section is a private method. -/
theorem declares_inserted_twin {className label : List Char} {first : Access}
    {all : List (List Char)} {k : Nat} {method : String} (found : all[k]? = some label)
    (level : AtMemberLevel 0 all k) (isLabel : trim label = "private:".toList)
    (isName : IsName method.toList) (notClass : className ≠ (twinName method).toList) :
    Declares className 0 first (all.insertIdx (k + 1) (twinDeclaration method).toList) .priv
      (k + 1) (twinName method).toList := by
  have inside := (List.getElem?_eq_some_iff.mp found).1
  have levelBelow := atMemberLevel_below level found (noBraces_label isLabel)
  -- The label is above the new line, so it is still there and opens the section.
  have opens : OpensSection 0 (all.insertIdx (k + 1) (twinDeclaration method).toList) k .priv := by
    refine ⟨(atMemberLevel_insertIdx (Nat.le_succ k)).mpr level, label, ?_, ?_⟩
    · rw [List.getElem?_insertIdx_of_lt (Nat.lt_succ_self k), found]
    · rw [isLabel]
      decide +kernel
  constructor
  case level => exact (atMemberLevel_insertIdx (Nat.le_refl _)).mpr levelBelow
  -- The new line reads as a signature and not as a label.
  case signature =>
    refine ⟨(twinDeclaration method).toList, ?_, ?_, ?_⟩
    · rw [List.getElem?_insertIdx_self, if_pos (Nat.succ_le_of_lt inside)]
    · rw [Trigger.trim_twinDeclaration]
      exact Trigger.ofLabel?_twinDeclaration method
    · rw [Trigger.trim_twinDeclaration]
      exact Trigger.name?_twinDeclaration isName _
  case notConstructor => exact notClass.symm
  case notOperator =>
    intro same
    have other : ¬ "_unlocked".toList <:+ "operator".toList := by decide +kernel
    exact other (same ▸ Trigger.suffix_twinName method)
  case notDestructor =>
    intro tilde
    have word := (Trigger.isName_twinName isName).word '~' (List.mem_of_mem_head? tilde)
    exact absurd word (by decide)
  case inSection =>
    -- No line stands between the label and the declaration.
    refine .inl ⟨k, Nat.lt_succ_self k, opens, ?_⟩
    intro i behind above
    omega

/--
Following the suggestion clears the finding.

Wherever the label of a private section stands at member level of a class, the unlocked twin of a
method can be declared right below it: the class is found at the same place, its profile lists the
twin, and the method is no longer reported.
-/
theorem inserted_twin_clears_finding {code : List Char} {r : Region}
    (member : r ∈ Region.findAll code) {k : Nat} {label : List Char}
    (found : (lines r.body)[k]? = some label) (level : AtMemberLevel 0 (lines r.body) k)
    (isLabel : trim label = "private:".toList) {method : String} (isName : IsName method.toList)
    (notClass : r.name ≠ (twinName method).toList) :
    ∃ s ∈ Region.findAll
        (insertLine code (r.firstLine + (k + 1)) (twinDeclaration method).toList),
      s.name = r.name ∧ s.kind = r.kind ∧ s.start = r.start ∧
      ∀ file window,
        twinName method ∈ (profile file window s).unlockedMethods ∧
        ∀ finding ∈ Trigger.missingUnlockedMethod (profile file window s),
          finding.message ≠ missingTwinMessage method := by
  -- Neither the label nor the new line has braces, so the region and its levels stay.
  have labelPlain := noBraces_label isLabel
  have inside := succ_lt_length_of_noBraces member found labelPlain
  have opened := brace_mem_beforeLine (atMemberLevel_below level found labelPlain)
  obtain ⟨s, kept, name, kind, lead, body⟩ := Region.exists_mem_findAll_insertLine member inside
    opened (noBraces_twinDeclaration isName)
  have start : s.start = r.start := by rw [Region.start, lead, Region.start]
  refine ⟨s, kept, name, kind, start, ?_⟩
  intro file window
  have inLine : '\n' ∉ (twinDeclaration method).toList :=
    Trigger.not_mem_twinDeclaration isName (by decide) (by decide +kernel)
  -- The new line is a line of the region, right below the label.
  have declares : DeclaresUnlocked s (k + 1) (twinName method) := by
    refine ⟨?_, Trigger.suffix_twinName method⟩
    rw [DeclaresIn, name, kind, body, lines_insertLine (Nat.le_of_lt inside) inLine]
    exact declares_inserted_twin found level isLabel isName notClass
  have listed : twinName method ∈ (profile file window s).unlockedMethods :=
    mem_unlockedMethods_iff.mpr ⟨k + 1, declares⟩
  exact ⟨listed, fun _ => Trigger.message_ne_of_mem_unlockedMethods listed⟩

/-- A class below another text, with a public method that locks and an indented label. -/
theorem inserted_twin_clears_finding_of_class :
    let code :=
      "struct B;\nclass A : B \x7b\npublic:\nvoid put() \x7b m.lock(); \x7d\n".toList ++
      "  private: \nint n;\n\x7d;\nint x;\n".toList
    ∃ r ∈ Region.findAll code,
      (Trigger.missingUnlockedMethod (profile "a.h" .classBody r)).map (·.message) =
        [missingTwinMessage "put"] ∧
      ∃ s ∈ Region.findAll (insertLine code 5 "void put_unlocked();".toList),
        s.name = r.name ∧ s.kind = r.kind ∧ s.start = r.start ∧
        ∀ file window,
          "put_unlocked" ∈ (profile file window s).unlockedMethods ∧
          ∀ finding ∈ Trigger.missingUnlockedMethod (profile file window s),
            finding.message ≠ missingTwinMessage "put" := by
  intro code
  let r : Region := ⟨"A".toList, .cls, "struct B;\n".toList, "class A : B ".toList,
    "\x7b\npublic:\nvoid put() \x7b m.lock(); \x7d\n  private: \nint n;\n\x7d".toList⟩
  -- The class is found with its body, and the label is its fourth line.
  have member : r ∈ Region.findAll code := by decide +kernel
  have found : (lines r.body)[3]? = some "  private: ".toList := by decide +kernel
  have level : AtMemberLevel 0 (lines r.body) 3 := by
    rw [AtMemberLevel]
    decide +kernel
  have isLabel : trim "  private: ".toList = "private:".toList := by decide +kernel
  have isName : IsName "put".toList :=
    ⟨by decide +kernel, List.all_eq_true.mp (by decide +kernel)⟩
  have notClass : r.name ≠ (twinName "put").toList := by decide +kernel
  have reported : (Trigger.missingUnlockedMethod (profile "a.h" .classBody r)).map (·.message) =
      [missingTwinMessage "put"] := by
    -- Before the edit the method is reported.
    decide +kernel
  have cleared := inserted_twin_clears_finding member found level isLabel isName notClass
  exact ⟨r, member, reported, cleared⟩

end Scan

end LockDiscipline
