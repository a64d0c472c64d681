import LockDiscipline.Proofs.Pattern.Context
import LockDiscipline.Proofs.Text.Lines
import LockDiscipline.Region

/-! Where regions stand in a code view: each is cut out of it at a class keyword. -/

namespace LockDiscipline.Region

open LockDiscipline.Text
open Pattern

/-- A character closes the block, or belongs to it and leaves some number of braces open. -/
theorem closeBlock?_cons (depth : Nat) (c : Char) :
    (c = '\x7d' ∧ ∀ text, closeBlock? depth (c :: text) = some [c]) ∨
      ∃ now, ∀ text, closeBlock? depth (c :: text) = (closeBlock? now text).map (c :: ·) := by
  -- Only the two braces change the depth, and only a closing one can end the block.
  by_cases opening : c = '\x7b'
  · subst opening
    exact .inr ⟨depth + 1, fun _ => rfl⟩
  by_cases closing : c = '\x7d'
  · subst closing
    by_cases last : depth ≤ 1
    · exact .inl ⟨rfl, fun _ => by rw [closeBlock?, if_pos last]⟩
    · exact .inr ⟨depth - 1, fun _ => by rw [closeBlock?, if_neg last]⟩
  · exact .inr ⟨depth, fun _ => by rw [closeBlock?] <;> assumption⟩

/-- A block that closes is the start of the text it is looked for in. -/
theorem closeBlock?_prefix {depth : Nat} {text block : List Char}
    (closed : closeBlock? depth text = some block) : block <+: text := by
  -- The block is copied character by character until its brace is closed.
  induction text generalizing depth block with
  | nil => simp [closeBlock?] at closed
  | cons c rest ih =>
    rcases closeBlock?_cons depth c with ⟨-, last⟩ | ⟨now, goesOn⟩
    · obtain rfl := Option.some.inj ((last rest).symm.trans closed)
      exact List.cons_prefix_cons.mpr ⟨rfl, List.nil_prefix⟩
    · rw [goesOn] at closed
      obtain ⟨inner, found, rfl⟩ := Option.map_eq_some_iff.mp closed
      exact List.cons_prefix_cons.mpr ⟨rfl, ih found⟩

/-- What a header match reads: the keyword that it captures, and an opening brace at its end. -/
theorem header_of_foundIn {code : List Char} {found : Match}
    (inside : found.FoundIn headerPattern code) :
    ∃ word ∈ ["class", "struct"], ∃ header,
      (found.capture? .kind).map (·.text) = some word.toList ∧ word.toList <+: header ∧
      found.start.after = header ++ '\x7b' :: found.stop.after ∧
      found.start.upTo found.stop = header ++ ['\x7b'] := by
  -- The match is taken apart at the keyword and at the brace; what is between does not matter.
  have outcome := inside.outcome
  rw [headerPattern, mem_ends_inOrder_cons] at outcome
  obtain ⟨m, edge, outcome⟩ := outcome
  obtain ⟨rfl, -⟩ := mem_ends_wordEdge.mp edge
  obtain ⟨k, kind, rest⟩ := mem_ends_inOrder_cons.mp outcome
  obtain ⟨w, inner, rfl⟩ := mem_ends_capture.mp kind
  obtain ⟨word, member, atKeyword, -⟩ := reads_of_mem_anyWord inner
  -- The brace is the last of the patterns after the keyword.
  obtain ⟨b, middle, last⟩ := mem_ends_inOrder_append.mp
    (show _ ∈ ends (inOrder ([gap, _, _, _, _] ++ [one _])) _ from rest)
  obtain ⟨between, afterKeyword⟩ := exists_reads middle
  obtain ⟨c, fit, atBrace, -⟩ := mem_ends_one.mp last
  obtain rfl : c = '\x7b' := by simpa using fit
  have reads := (Attempt.Reads.trans atKeyword afterKeyword).trans atBrace
  refine ⟨word, member, word.toList ++ between, ?_, List.prefix_append _ _, ?_, reads.upTo⟩
  · -- No later part of the header is captured as a keyword.
    have kept := (grows_of_mem_ends rest).find? (show Label.kind ∉ _ by decide)
    rw [Match.capture?, kept]
    simp [atKeyword.upTo]
  · simpa using reads.1

/-- How a region stands in a code view. -/
structure StandsIn (code : List Char) (r : Region) : Prop where
  /-- The view starts with the text before the region and the region. -/
  cut : r.lead ++ r.body <+: code
  /-- The region starts with its keyword. -/
  keyword : r.kind.keyword.toList <+: r.body

/-- The keyword of a class is spelled as the header has it. -/
theorem keyword_of_mem {word : String} (isKeyword : word ∈ ["class", "struct"]) :
    (if word.toList == ClassKind.struct.keyword.toList then ClassKind.struct
      else .cls).keyword = word := by
  -- There are two keywords, and each is read back as itself.
  simp only [List.mem_cons, List.not_mem_nil, or_false] at isKeyword
  rcases isKeyword with rfl | rfl
  · decide
  · decide

/-- The region that a header opens stands in the code view. -/
theorem standsIn_of_ofHeader? {code : List Char} {found : Match} {r : Region}
    (inside : found.FoundIn headerPattern code) (opened : ofHeader? found = some r) :
    r.StandsIn code := by
  -- A region is made from a header match and the block that closes behind it.
  obtain ⟨word, isKeyword, header, kindText, opening, after, upTo⟩ := header_of_foundIn inside
  obtain ⟨kind, captured, sameText⟩ := Option.map_eq_some_iff.mp kindText
  -- Every step of making a region succeeded, so each of its parts is known.
  unfold ofHeader? at opened
  obtain ⟨_, sameCapture, opened⟩ := Option.bind_eq_some_iff.mp opened
  obtain rfl : kind = _ := Option.some.inj (captured.symm.trans sameCapture)
  obtain ⟨name, -, opened⟩ := Option.bind_eq_some_iff.mp opened
  obtain ⟨-, -, opened⟩ := Option.bind_eq_some_iff.mp opened
  obtain ⟨block, closed, made⟩ := Option.bind_eq_some_iff.mp opened
  obtain rfl := Option.some.inj made
  have headerText : (found.start.upTo found.stop).dropLast = header := by
    rw [upTo, List.dropLast_concat]
  constructor
  · -- Header, brace and block follow one another where the match starts.
    obtain ⟨trail, shape⟩ := closeBlock?_prefix closed
    refine ⟨trail, ?_⟩
    rw [← inside.place, after, ← shape]
    simp [body, headerText]
  · rw [body, sameText, keyword_of_mem isKeyword, headerText]
    exact opening.trans (List.prefix_append _ _)

/-- Every region that is found stands in the code view. -/
theorem standsIn_of_mem_findAll {code : List Char} {r : Region} (member : r ∈ findAll code) :
    r.StandsIn code := by
  -- A region that is listed was opened by one of the matches that are listed.
  obtain ⟨found, matched, opened⟩ := List.mem_filterMap.mp member
  exact standsIn_of_ofHeader? (foundIn_of_mem_findAll matched) opened

/-- The line of a region starts with the end of the text before it, then its keyword. -/
theorem StandsIn.firstLine {code : List Char} {r : Region} (stands : r.StandsIn code) :
    ∃ rest, (lines code)[r.firstLine]? =
      some (lastLine r.lead ++ r.kind.keyword.toList ++ rest) := by
  -- The text before the region ends within the line in which its keyword stands.
  obtain ⟨trail, shape⟩ := stands.cut
  obtain ⟨rest, opening⟩ := stands.keyword
  have inLine : '\n' ∉ r.kind.keyword.toList := by
    cases r.kind <;> decide
  rw [← shape, List.append_assoc, Region.firstLine, lines_append_joined, ← opening,
    List.append_assoc, lines_append_inLine inLine]
  obtain ⟨next, others, split⟩ := List.exists_cons_of_ne_nil (lines_ne_nil (rest ++ trail))
  exact ⟨next, by simp [split]⟩

/-- A later line of a region is the start of a line of the view, or all of it. -/
theorem StandsIn.laterLine {code : List Char} {r : Region} (stands : r.StandsIn code)
    {index : Nat} (later : 0 < index) {line : List Char}
    (found : (lines r.body)[index]? = some line) :
    ∃ rest, (lines code)[r.firstLine + index]? = some (line ++ rest) := by
  -- A line break stands before a later line, so nothing of the text before belongs to it.
  obtain ⟨trail, shape⟩ := stands.cut
  obtain ⟨before, rfl⟩ : ∃ before, index = before + 1 := ⟨index - 1, by omega⟩
  rw [← shape, List.append_assoc, Region.firstLine, lines_append_later]
  exact lines_append_opening r.body trail found

end LockDiscipline.Region
