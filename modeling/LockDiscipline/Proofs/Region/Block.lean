import LockDiscipline.Proofs.Pattern.Border
import LockDiscipline.Proofs.Region.Nesting

/-! Blocks behind a header: a region stays the same up to its brace, whatever its block holds. -/

namespace LockDiscipline.Region

open LockDiscipline.Text
open Pattern

/-- What a header reads before its brace. -/
def headerParts : List Pattern :=
  [wordEdge, capture .kind (anyWord ["class", "struct"]), gap, capture .name identifier,
    optional (inOrder [gap, word "final"]),
    optional (inOrder [blanks, one (· == ':'), blanks, run1 fun c => c != '\x7b' && c != ';']),
    blanks]

/-- A header ends in its brace. -/
theorem headerPattern_eq : headerPattern = inOrder (headerParts ++ [one (· == '\x7b')]) := rfl

/-- Nothing before the brace of a header reads a brace. -/
theorem headerParts_stopsAt : (inOrder headerParts).stopsAt '\x7b' = true := by decide

/-- How a region is made from the header that it is found by. -/
theorem exists_header {code : List Char} {r : Region} (member : r ∈ findAll code) :
    ∃ found ∈ headerPattern.findAll code, ∃ kind name block,
      found.capture? .kind = some kind ∧ found.capture? .name = some name ∧
      ¬ FollowsEnum found.start.before.reverse ∧
      closeBlock? 1 found.stop.after = some block ∧ r = ofBlock found kind name block := by
  obtain ⟨found, matched, made⟩ := List.mem_filterMap.mp member
  have inside := foundIn_of_mem_findAll matched
  -- Every header captures a keyword and a name, so only the word `enum` or the block can fail.
  obtain ⟨_, _, _, kindText, _⟩ := header_of_foundIn inside
  obtain ⟨kind, kindCaptured, -⟩ := Option.map_eq_some_iff.mp kindText
  obtain ⟨name, nameCaptured⟩ := name_of_foundIn inside
  rw [ofHeader?_eq kindCaptured nameCaptured] at made
  split at made
  · -- The word in front of the header keeps it from opening a region.
    exact absurd made (by simp)
  · rename_i noEnum
    obtain ⟨block, closed, rfl⟩ := Option.map_eq_some_iff.mp made
    exact ⟨found, matched, kind, name, block, kindCaptured, nameCaptured, noEnum, closed, rfl⟩

/-- The header of a region has no opening brace. -/
theorem brace_not_mem_header {code : List Char} {r : Region} (member : r ∈ findAll code) :
    '\x7b' ∉ r.header := by
  obtain ⟨found, matched, kind, name, block, -, -, -, -, rfl⟩ := exists_header member
  -- Only the last of the patterns that make up a header reads a brace.
  have outcome := (foundIn_of_mem_findAll matched).outcome
  rw [headerPattern_eq] at outcome
  obtain ⟨m, front, last⟩ := mem_ends_inOrder_append.mp outcome
  obtain ⟨header, reads, free⟩ := exists_reads_of_stopsAt headerParts_stopsAt front
  obtain ⟨c, fit, atBrace, -⟩ := mem_ends_one.mp last
  -- The region keeps what is read before that brace.
  have upTo : found.start.upTo found.stop = header ++ [c] := (reads.trans atBrace).upTo
  show '\x7b' ∉ (found.start.upTo found.stop).dropLast
  rw [upTo, List.dropLast_concat]
  exact free

/-- A header that has its brace ahead is read the same whatever follows. -/
theorem matchAt?_headerPattern_within {place : Cursor} (ahead : '\x7b' ∈ place.after)
    (trail : List Char) :
    matchAt? headerPattern (place.within [] trail) =
      (matchAt? headerPattern place).map (Match.within [] trail) :=
  -- The brace ends the header, so nothing behind it is looked at.
  matchAt?_of_ends_within (ends_within_concat rfl headerParts_stopsAt ahead)

/-- Up to a brace, the headers of a text are the same whatever follows. -/
theorem findAll_headerPattern_brace (front trail : List Char) :
    headerPattern.findAll (front ++ ['\x7b'] ++ trail) =
      (headerPattern.findAll (front ++ ['\x7b'])).map (Match.within [] trail) ++
        findAllFrom headerPattern (front ++ ['\x7b']).reverse 0 trail := by
  have border : ∀ behind c rest, front ++ ['\x7b'] = behind ++ c :: rest →
      matchAt? headerPattern ⟨behind.reverse ++ [], c :: rest ++ trail⟩ =
        (matchAt? headerPattern ⟨behind.reverse ++ [], c :: rest⟩).map (Match.within [] trail) := by
    intro behind c rest shape
    -- Wherever the text is cut, its last brace is ahead.
    have ahead : '\x7b' ∈ c :: rest := by
      have last := congrArg List.getLast? shape
      rw [List.getLast?_concat, List.getLast?_append_cons] at last
      exact List.mem_of_getLast? last.symm
    have same := matchAt?_headerPattern_within
      (show _ ∈ (Cursor.mk behind.reverse (c :: rest)).after from ahead) trail
    simpa [Cursor.within] using same
  -- The search starts with nothing taken, so it goes over the border with all matches in front.
  have whole := findAllFrom_trail (Nat.zero_le _) border
  rw [List.append_nil] at whole
  exact whole

/-- A text added behind a header changes nothing of the region that it opens up to its block. -/
theorem ofBlock_within (trail : List Char) (found : Match) (kind name : Capture)
    (block : List Char) :
    ofBlock (found.within [] trail) (kind.within [] trail) (name.within [] trail) block =
      ofBlock found kind name block := by
  -- Of the match, only what is before it and what it reads is kept.
  have before : (found.within [] trail).start.before = found.start.before := List.append_nil _
  have header : (found.within [] trail).start.upTo (found.within [] trail).stop =
      found.start.upTo found.stop := Cursor.upTo_within ..
  rw [ofBlock, before, header]
  rfl

/-- A header that ends in a brace is found without what follows that brace. -/
theorem exists_within_of_brace {front trail : List Char} {found : Match}
    (matched : found ∈ headerPattern.findAll (front ++ ['\x7b'] ++ trail))
    (atBrace : found.stop.after = trail) :
    ∃ m ∈ headerPattern.findAll (front ++ ['\x7b']),
      m.stop.after = [] ∧ found = m.within [] trail := by
  obtain ⟨header, cut, -⟩ := Bounds.cut_of_foundIn (foundIn_of_mem_findAll matched)
  rw [findAll_headerPattern_brace, List.mem_append, List.mem_map] at matched
  rcases matched with ⟨m, member, rfl⟩ | later
  · -- What follows the header is then all that was added.
    have nothing : m.stop.after ++ trail = trail := atBrace
    exact ⟨m, member, List.append_left_eq_self.mp nothing, rfl⟩
  · -- A header that starts behind the brace does not end in it.
    have behind := start_of_mem_findAllFrom later
    rw [atBrace] at cut
    have size := congrArg List.length cut
    simp only [List.length_append, List.length_reverse, List.length_cons] at behind size
    omega

/-- A header at the end of a text, which makes a region of whatever block is closed behind it. -/
structure Opens (front : List Char) (header : Match) (kind name : Capture) : Prop where
  /-- The header is found in the text up to its brace. -/
  found : header ∈ headerPattern.findAll (front ++ ['\x7b'])
  /-- The brace of the header is the last character. -/
  last : header.stop.after = []
  kind : header.capture? .kind = some kind
  name : header.capture? .name = some name
  notEnum : ¬ FollowsEnum header.start.before.reverse

/-- Every block that is closed behind such a header makes a region. -/
theorem Opens.mem_findAll {front : List Char} {header : Match} {kind name : Capture}
    (opens : Opens front header kind name) {rest block : List Char}
    (closed : closeBlock? 1 rest = some block) :
    ofBlock header kind name block ∈ findAll (front ++ ['\x7b'] ++ rest) := by
  -- With the block behind it the header is still found, and captures the same.
  have matched : header.within [] rest ∈ headerPattern.findAll (front ++ ['\x7b'] ++ rest) := by
    rw [findAll_headerPattern_brace]
    exact List.mem_append_left _ (List.mem_map_of_mem opens.found)
  have before : (header.within [] rest).start.before = header.start.before := List.append_nil _
  have after : (header.within [] rest).stop.after = rest := by
    simp [Match.within, Cursor.within, opens.last]
  have kindCaptured : (header.within [] rest).capture? .kind = some (kind.within [] rest) := by
    rw [Match.capture?_within, opens.kind, Option.map_some]
  have nameCaptured : (header.within [] rest).capture? .name = some (name.within [] rest) := by
    rw [Match.capture?_within, opens.name, Option.map_some]
  refine List.mem_filterMap.mpr ⟨_, matched, ?_⟩
  rw [ofHeader?_eq kindCaptured nameCaptured, before, if_neg opens.notEnum, after, closed,
    Option.map_some, ofBlock_within]

/-- Every region is made of a header that opens it and the block that is closed behind it. -/
theorem exists_opens {code : List Char} {r : Region} (member : r ∈ findAll code) :
    ∃ header kind name rest block, Opens (r.lead ++ r.header) header kind name ∧
      code = r.lead ++ r.header ++ ['\x7b'] ++ rest ∧ closeBlock? 1 rest = some block ∧
      r = ofBlock header kind name block := by
  -- The region is made from a match of the header, which the text up to its brace already has.
  obtain ⟨found, matched, kind, name, block, kindCaptured, nameCaptured, notEnum, closed, rfl⟩ :=
    exists_header member
  obtain ⟨text, cut, -, upTo⟩ := Bounds.cut_of_foundIn (foundIn_of_mem_findAll matched)
  have whole : code = found.start.before.reverse ++ text ++ ['\x7b'] ++ found.stop.after := by
    simpa using cut
  have lead : (ofBlock found kind name block).lead = found.start.before.reverse := rfl
  have header : (ofBlock found kind name block).header = text := by
    show (found.start.upTo found.stop).dropLast = text
    rw [upTo, List.dropLast_concat]
  rw [lead, header]
  -- The header is one of the text up to its brace, seen with its block behind it.
  obtain ⟨m, alone, last, shape⟩ := exists_within_of_brace (whole ▸ matched) rfl
  have before : found.start.before = m.start.before := by
    rw [shape]
    exact List.append_nil _
  rw [shape, Match.capture?_within, Option.map_eq_some_iff] at kindCaptured nameCaptured
  obtain ⟨kind, kindCaptured, rfl⟩ := kindCaptured
  obtain ⟨name, nameCaptured, rfl⟩ := nameCaptured
  refine ⟨m, kind, name, _, block, ⟨alone, last, kindCaptured, nameCaptured, ?_⟩, whole, closed, ?_⟩
  · rw [← before]
    exact notEnum
  · rw [← ofBlock_within found.stop.after m kind name block, ← shape]

/-- The block of a region is the one that is closed behind its brace. -/
theorem exists_block {code : List Char} {r : Region} (member : r ∈ findAll code) :
    ∃ rest block, code = r.lead ++ r.header ++ ['\x7b'] ++ rest ∧
      closeBlock? 1 rest = some block ∧ r.block = '\x7b' :: block := by
  -- A region opens at a header, and its block is closed from there.
  obtain ⟨_, _, _, rest, block, -, whole, closed, shape⟩ := exists_opens member
  exact ⟨rest, block, whole, closed, congrArg Region.block shape⟩

/-- A region stays at its place with any other block that is closed behind its header. -/
theorem mem_findAll_of_block {code : List Char} {r : Region} (member : r ∈ findAll code)
    {rest block : List Char} (closed : closeBlock? 1 rest = some block) :
    { r with block := '\x7b' :: block } ∈ findAll (r.lead ++ r.header ++ ['\x7b'] ++ rest) := by
  obtain ⟨header, kind, name, _, _, opens, -, -, shape⟩ := exists_opens member
  -- All but the block comes from the header.
  have same : { r with block := '\x7b' :: block } = ofBlock header kind name block := by
    rw [shape]
    rfl
  rw [same]
  exact opens.mem_findAll closed

/-- A block ends in the brace that closes it. -/
theorem getLast?_closeBlock? {depth : Nat} {text block : List Char}
    (closed : closeBlock? depth text = some block) : block.getLast? = some '\x7d' := by
  -- Whatever stands before that brace is only copied.
  induction text generalizing depth block with
  | nil => simp [closeBlock?] at closed
  | cons c rest ih =>
    rcases closeBlock?_cons depth c with ⟨rfl, last⟩ | ⟨now, goesOn⟩
    · obtain rfl := Option.some.inj ((last rest).symm.trans closed)
      rfl
    · rw [goesOn] at closed
      obtain ⟨inner, found, rfl⟩ := Option.map_eq_some_iff.mp closed
      rw [List.getLast?_cons, ih found]
      rfl

/-- A region ends in the brace that closes its block. -/
theorem getLast?_body {code : List Char} {r : Region} (member : r ∈ findAll code) :
    r.body.getLast? = some '\x7d' := by
  -- The body ends with its block, and the block with its brace.
  obtain ⟨rest, block, -, closed, blockText⟩ := exists_block member
  rw [body, blockText, List.getLast?_append_cons, List.getLast?_cons, getLast?_closeBlock? closed]
  rfl

/-- Texts without braces of either kind. -/
def NoBraces (text : List Char) : Prop :=
  '\x7b' ∉ text ∧ '\x7d' ∉ text

instance (text : List Char) : Decidable (NoBraces text) :=
  inferInstanceAs (Decidable (_ ∧ _))

/-- A text without braces is passed over on the way to the closing brace. -/
theorem closeBlock?_noBraces {plain : List Char} (noBraces : NoBraces plain) (depth : Nat)
    (text : List Char) :
    closeBlock? depth (plain ++ text) = (closeBlock? depth text).map (plain ++ ·) := by
  -- None of its characters changes the number of open braces.
  induction plain with
  | nil => simp
  | cons c rest ih =>
    obtain ⟨noOpening, noClosing⟩ := noBraces
    rw [List.mem_cons, not_or] at noOpening noClosing
    rw [List.cons_append, closeBlock?, ih ⟨noOpening.2, noClosing.2⟩, Option.map_map]
    · rfl
    · exact fun same => noOpening.1 same.symm
    · exact fun same => noClosing.1 same.symm

/-- A text without braces that is put into a block before its closing brace belongs to it. -/
theorem closeBlock?_insert {depth : Nat} {front back below plain : List Char}
    (closed : closeBlock? depth (front ++ back) = some (front ++ below)) (more : below ≠ [])
    (noBraces : NoBraces plain) :
    closeBlock? depth (front ++ (plain ++ back)) = some (front ++ (plain ++ below)) := by
  -- The induction is on what stands above the text; the number of open braces moves along.
  induction front generalizing depth with
  | nil =>
    rw [List.nil_append] at closed
    rw [List.nil_append, closeBlock?_noBraces noBraces, closed]
    rfl
  | cons c rest ih =>
    rcases closeBlock?_cons depth c with ⟨-, last⟩ | ⟨now, goesOn⟩
    · -- The block would end here, but there is more of it.
      have nothing := (last _).symm.trans closed
      simp [more] at nothing
    · rw [List.cons_append, goesOn] at closed
      obtain ⟨inner, found, shape⟩ := Option.map_eq_some_iff.mp closed
      obtain rfl : inner = rest ++ below := (List.cons.inj shape).2
      rw [List.cons_append, goesOn, ih found, Option.map_some]
      rfl

/-- A text that opens a region and reaches behind its brace is cut at that brace. -/
theorem exists_block_front {code : List Char} {r : Region} (member : r ∈ findAll code)
    {block front below : List Char} (blockText : r.block = '\x7b' :: block)
    (cut : r.body = front ++ below) (opened : '\x7b' ∈ front) :
    ∃ above, front = r.header ++ '\x7b' :: above ∧ block = above ++ below := by
  -- The first brace of the text is the brace of the region, because its header has none.
  obtain ⟨header, above, rfl, free⟩ := List.eq_append_cons_of_mem opened
  have same : r.header ++ '\x7b' :: block = header ++ '\x7b' :: (above ++ below) := by
    rw [← blockText, ← body, cut, List.append_assoc, List.cons_append]
  obtain ⟨rfl, rest⟩ := cut_unique same (brace_not_mem_header member) free
  exact ⟨above, rfl, rest⟩

/-- A line without braces that is inserted below a line of a block belongs to the block. -/
theorem exists_mem_findAll_insertLine {code : List Char} {r : Region} (member : r ∈ findAll code)
    {k : Nat} (inside : k + 1 < (lines r.body).length)
    (opened : '\x7b' ∈ beforeLine r.body (k + 1)) {line : List Char} (noBraces : NoBraces line) :
    ∃ s ∈ findAll (insertLine code (r.firstLine + (k + 1)) line),
      s.name = r.name ∧ s.kind = r.kind ∧ s.lead = r.lead ∧
      s.body = insertLine r.body (k + 1) line := by
  obtain ⟨rest, block, whole, closed, blockText⟩ := exists_block member
  obtain ⟨trail, rfl⟩ := closeBlock?_prefix closed
  have text : code = r.lead ++ (r.body ++ trail) := by
    rw [whole, body, blockText]
    simp
  -- The line is inserted between two parts of the block.
  obtain ⟨below, cut, inserted⟩ := exists_insertLine inside line
  obtain ⟨above, front, rfl⟩ := exists_block_front member blockText cut opened
  -- The second part is not empty: a block ends in a brace, the text before a line in a break.
  have more : below ≠ [] := by
    rintro rfl
    have last := getLast?_beforeLine inside
    have lastToo := getLast?_closeBlock? closed
    rw [List.append_nil] at lastToo
    rw [front, List.getLast?_append_cons, List.getLast?_cons, lastToo] at last
    exact absurd last (by decide)
  have plain : NoBraces (line ++ ['\n']) := by
    simpa [NoBraces] using noBraces
  rw [List.append_assoc] at closed
  refine ⟨{ r with block := '\x7b' :: (above ++ (line ++ ['\n'] ++ below)) }, ?_, rfl, rfl, rfl, ?_⟩
  · -- All but the block comes from the header, so the region is found with the longer block.
    rw [text, firstLine, insertLine_append_later r.lead trail inside, inserted, front]
    simpa using mem_findAll_of_block member (closeBlock?_insert closed more plain)
  · rw [inserted, front, body]
    simp

end LockDiscipline.Region
