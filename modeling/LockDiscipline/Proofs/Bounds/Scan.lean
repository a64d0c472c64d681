import LockDiscipline.Proofs.Bounds.Slice
import LockDiscipline.Proofs.Calls
import LockDiscipline.Proofs.Region
import LockDiscipline.Proofs.Scan.Declarations

/-! The scanner by byte positions and line numbers, and why none of its accesses goes wrong. -/

namespace LockDiscipline.Bounds

open LockDiscipline.Text
open Pattern

/-- How far it is to the byte that closes a block, when `depth` braces are open. -/
def closingBrace? (depth : Nat) : (bytes : List UInt8) → Option Nat
  | [] => none
  | b :: rest =>
    if b = 0x7B then (closingBrace? (depth + 1) rest).map (· + 1)
    else if b = 0x7D then
      if depth - 1 = 0 then some 0 else (closingBrace? (depth - 1) rest).map (· + 1)
    else (closingBrace? depth rest).map (· + 1)

/-- Bytes that are no braces are passed over. -/
theorem closingBrace?_append {depth : Nat} {front : List UInt8} (rest : List UInt8)
    (plain : ∀ b ∈ front, b ≠ 0x7B ∧ b ≠ 0x7D) :
    closingBrace? depth (front ++ rest) = (closingBrace? depth rest).map (· + front.length) := by
  -- None of the bytes in front changes the depth, so each only adds to the distance.
  induction front with
  | nil => simp
  | cons b others ih =>
    obtain ⟨noOpening, noClosing⟩ := plain b List.mem_cons_self
    have tail := ih fun c member => plain c (List.mem_cons_of_mem b member)
    rw [List.cons_append, closingBrace?, if_neg noOpening, if_neg noClosing, tail,
      Option.map_map, List.length_cons]
    rfl

/-- One more character adds its bytes to the size of a block. -/
theorem map_byteSize_cons (c : Char) (block : Option (List Char)) :
    (block.map (c :: ·)).map byteSize = (block.map byteSize).map (· + c.utf8Size) := by
  -- A block that is not closed has no size on either side.
  cases block with
  | none => rfl
  | some text => simp [byteSize_cons, Nat.add_comm]

/-- The byte that closes a block is the last one of the block as a text. -/
theorem closingBrace?_encode (depth : Nat) (text : List Char) :
    (closingBrace? depth (Utf8.encode text)).map (· + 1) =
      (Region.closeBlock? depth text).map byteSize := by
  -- The induction is on characters; only a brace has the byte of a brace.
  fun_induction Region.closeBlock? depth text with
  | case1 => rfl
  -- An opening brace goes one level deeper on both sides.
  | case2 depth rest ih =>
    have bytes : Utf8.encode ('\x7b' :: rest) = 0x7B :: Utf8.encode rest := rfl
    rw [bytes, closingBrace?, if_pos rfl, ih, map_byteSize_cons]
    rfl
  -- The last closing brace ends the search, and the block is this one byte.
  | case3 depth rest last =>
    have bytes : Utf8.encode ('\x7d' :: rest) = 0x7D :: Utf8.encode rest := rfl
    rw [bytes, closingBrace?, if_neg (by decide), if_pos rfl, if_pos (by omega)]
    rfl
  | case4 depth rest deeper ih =>
    have bytes : Utf8.encode ('\x7d' :: rest) = 0x7D :: Utf8.encode rest := rfl
    rw [bytes, closingBrace?, if_neg (by decide), if_pos rfl, if_neg (by omega), ih,
      map_byteSize_cons]
    rfl
  -- The bytes of another character are passed over together.
  | case5 depth c rest noOpening noClosing ih =>
    have plain : ∀ b ∈ String.utf8EncodeChar c, b ≠ 0x7B ∧ b ≠ 0x7D := by
      intro b member
      constructor
      · rintro rfl
        exact noOpening (Char.toNat_inj.mp (Utf8.toNat_of_mem_encodeChar (by decide) member))
      · rintro rfl
        exact noClosing (Char.toNat_inj.mp (Utf8.toNat_of_mem_encodeChar (by decide) member))
    rw [Utf8.encode_cons, closingBrace?_append _ plain, String.length_utf8EncodeChar,
      map_byteSize_cons, ← ih, Option.map_map, Option.map_map]
    congr 1
    funext distance
    simp only [Function.comp_apply]
    omega

/-- A class found in a text, by the byte positions of its keyword and of its closing brace. -/
structure Extent where
  name : List Char
  kind : ClassKind
  start : Nat
  stop : Nat
deriving DecidableEq, Repr

/-- The positions of a region. -/
def Extent.ofRegion (region : Region) : Extent :=
  ⟨region.name, region.kind, region.start, region.stop⟩

/-- The extent that a header opens, unless it belongs to an enumeration or never closes. -/
def extent? (code : List Char) (found : Match) : Guarded (Option Extent) := do
  let some kind := found.capture? .kind | return none
  let some name := found.capture? .name | return none
  let start := byteSize found.start.before
  let lead ← slice code 0 start
  if Region.endsInEnum lead.reverse then return none
  let opening ← difference (byteSize found.stop.before) 1
  let ahead ← stretch (Utf8.encode code) opening (Utf8.encode code).length
  let some distance := closingBrace? 0 ahead | return none
  return some {
    name := name.text
    kind := if kind.text == ClassKind.struct.keyword.toList then .struct else .cls
    start
    stop := opening + distance }

/-- What a header match reads is the header and its brace, with the rest of the view behind. -/
theorem cut_of_foundIn {code : List Char} {found : Match}
    (inside : found.FoundIn Region.headerPattern code) :
    ∃ header, code = found.start.before.reverse ++ header ++ '\x7b' :: found.stop.after ∧
      found.stop.before = '\x7b' :: header.reverse ++ found.start.before ∧
      found.start.upTo found.stop = header ++ ['\x7b'] := by
  -- The match is read back from its outcome: a header, and the brace behind it.
  obtain ⟨-, -, header, -, -, after, upTo⟩ := Region.header_of_foundIn inside
  obtain ⟨taken, reads⟩ := exists_reads inside.outcome
  have same : taken = header ++ ['\x7b'] := reads.upTo.symm.trans upTo
  refine ⟨header, ?_, ?_, upTo⟩
  · rw [← inside.place, after, List.append_assoc]
  · simpa [same] using reads.2

/-- The text before a match is cut off without fault. -/
theorem slice_before {p : Pattern} {text : List Char} {found : Match}
    (inside : found.FoundIn p text) :
    slice text 0 (byteSize found.start.before) = .ok found.start.before.reverse := by
  -- A match keeps what is before it in reverse, so its text is the front of the whole.
  rw [← inside.place, ← byteSize_reverse]
  exact slice_front _ _

/-- A header that is found opens an extent without fault: the one of its region. -/
theorem extent?_eq_ok {code : List Char} {found : Match}
    (inside : found.FoundIn Region.headerPattern code) :
    extent? code found = .ok ((Region.ofHeader? found).map Extent.ofRegion) := by
  obtain ⟨header, cut, stop, upTo⟩ := cut_of_foundIn inside
  -- The match ends behind the opening brace, which is one byte.
  have one : '\x7b'.utf8Size = 1 := rfl
  have opening : difference (byteSize found.stop.before) 1 =
      .ok (byteSize (found.start.before.reverse ++ header)) := by
    have size : byteSize found.stop.before =
        byteSize (found.start.before.reverse ++ header) + 1 := by
      rw [stop, List.cons_append, byteSize_cons, one]
      simp only [byteSize_append, byteSize_reverse]
      omega
    rw [size, difference_eq_ok (Nat.le_add_left 1 _), Nat.add_sub_cancel]
  have ahead : stretch (Utf8.encode code) (byteSize (found.start.before.reverse ++ header))
      (Utf8.encode code).length = .ok (Utf8.encode ('\x7b' :: found.stop.after)) := by
    rw [cut, Utf8.encode_append, ← Utf8.length_encode]
    exact stretch_back _ _
  -- From the opening brace on, the closing one is as far as the block behind it is long.
  have distance : closingBrace? 0 (Utf8.encode ('\x7b' :: found.stop.after)) =
      (Region.closeBlock? 1 found.stop.after).map byteSize :=
    closingBrace?_encode 1 found.stop.after
  unfold extent? Region.ofHeader?
  -- A header without a kind or a name opens nothing, and one behind `enum` is no class.
  cases found.capture? .kind with
  | none => rfl
  | some kind =>
    cases found.capture? .name with
    | none => rfl
    | some name =>
      dsimp only
      rw [slice_before inside, ok_bind, List.reverse_reverse, opening, ok_bind, ahead, ok_bind,
        distance]
      cases Region.endsInEnum found.start.before with
      | true => rfl
      | false =>
        cases Region.closeBlock? 1 found.stop.after with
        | none => rfl
        | some block =>
          have last : byteSize (found.start.before.reverse ++ header) + byteSize block =
              byteSize found.start.before.reverse +
                byteSize ((found.start.upTo found.stop).dropLast ++ '\x7b' :: block) - 1 := by
            rw [upTo, List.dropLast_concat, byteSize_append, byteSize_append, byteSize_cons, one]
            omega
          rw [Option.map_some]
          dsimp only
          rw [last, ← byteSize_reverse found.start.before]
          rfl

/-- The method that a line declares or defines, given the next line that is not blank. -/
def name? (line : List Char) (next : Option (List Char)) : Guarded (Option (List Char)) := do
  let some found := Signature.pattern.find? line | return none
  let some name := found.capture? .name | return none
  let some finish := found.capture? .finish | return none
  if finish.text.isEmpty && !(next.any fun n => n.head? == some '\x7b') then return none
  if name.text.head? == some '~' then return some name.text
  if (Signature.keywordCalls.map String.toList).contains name.text then return none
  let lead ← slice line 0 (byteSize name.start.before)
  return if Signature.readsAsType lead then some name.text else none

/-- The name that a signature captures starts where the signature is found. -/
theorem start_of_capture? {line : List Char} {found : Match}
    (inside : found.FoundIn Signature.pattern line) {name : Capture}
    (captured : found.capture? .name = some name) : name.start = found.start := by
  -- In every reading of a signature, the name is its first part.
  obtain ⟨m, read, -, -, -, atStart, -⟩ := Signature.exists_declared_of_outcome inside.outcome
  rw [Match.capture?, atStart] at captured
  obtain rfl : ⟨.name, found.start, read⟩ = name := Option.some.inj captured
  rfl

/-- Names are found in lines without fault. -/
theorem name?_eq_ok (line : List Char) (next : Option (List Char)) :
    name? line next = .ok (Signature.name? line next) := by
  unfold name? Signature.name?
  -- The same tests are made in the same order; only the text before the name is a slice.
  cases matched : Signature.pattern.find? line with
  | none => rfl
  | some found =>
    have inside := foundIn_of_find? matched
    dsimp only [Option.bind_eq_bind, Option.bind_some]
    cases captured : found.capture? .name with
    | none => rfl
    | some name =>
      -- The text before the name is the text before the match.
      have lead : slice line 0 (byteSize name.start.before) = .ok name.start.before.reverse := by
        rw [start_of_capture? inside captured]
        exact slice_before inside
      dsimp only [Option.bind_some]
      cases found.capture? .finish with
      | none => rfl
      | some finish =>
        dsimp only [Option.bind_some]
        rw [lead, ok_bind]
        -- Each test drops the match on both sides or on neither.
        generalize (next.any fun n => n.head? == some '\x7b') = opens
        have negated : (!finish.text.isEmpty || opens) = !(finish.text.isEmpty && !opens) := by
          simp
        rw [negated]
        cases finish.text.isEmpty && !opens with
        | true => rfl
        | false =>
          cases name.text.head? == some '~' with
          | true => rfl
          | false =>
            cases (Signature.keywordCalls.map String.toList).contains name.text with
            | true => rfl
            | false => cases Signature.readsAsType name.start.before.reverse <;> rfl

/-- The methods declared on lines at member level; `rest` are the lines of `all` from `index` on. -/
def declarationsFrom (className : List Char) (all : List (List Char)) (access : Access)
    (depth : Int) (index : Nat) : (rest : List (List Char)) → Guarded (List Scan.Declaration)
  | [] => return []
  | line :: rest =>
    let go access := declarationsFrom className all access (depth + Scan.braceBalance line)
      (index + 1) rest
    if depth ≠ 1 then go access
    else match Access.ofLabel? (trim line) with
      | some opened => go opened
      | none => do
        let below ← stretch all (index + 1) all.length
        match ← name? (trim line) (Scan.nextCodeLine below) with
        | some name =>
          if Scan.isOrdinary className name then return ⟨access, index, name⟩ :: (← go access)
          else go access
        | none => go access

/-- From every line on, the declarations are found without fault. -/
theorem declarationsFrom_eq_ok (className : List Char) (access : Access) (depth : Int)
    (above rest : List (List Char)) :
    declarationsFrom className (above ++ rest) access depth above.length rest =
      .ok (Scan.declarationsFrom className access depth above.length rest) := by
  -- The induction is on the lines that are left; each of them moves over to those above.
  induction rest generalizing access depth above with
  | nil => rfl
  | cons line rest ih =>
    have later : ∀ access depth, declarationsFrom className (above ++ line :: rest) access depth
        (above.length + 1) rest =
          .ok (Scan.declarationsFrom className access depth (above.length + 1) rest) := by
      intro access depth
      simpa using ih access depth (above ++ [line])
    have below : stretch (above ++ line :: rest) (above.length + 1)
        (above ++ line :: rest).length = .ok rest := by
      simpa using stretch_back (above ++ [line]) rest
    -- Outside the class body and at labels the line is passed over on both sides.
    simp only [declarationsFrom, Scan.declarationsFrom, later, below, ok_bind, name?_eq_ok]
    by_cases elsewhere : depth ≠ 1
    · rw [if_pos elsewhere, if_pos elsewhere]
    · rw [if_neg elsewhere, if_neg elsewhere]
      cases Access.ofLabel? (trim line) with
      | some opened => rfl
      | none =>
        cases Signature.name? (trim line) (Scan.nextCodeLine rest) with
        | none => rfl
        | some name => exact (apply_ite Except.ok _ _ _).symm

/-- The declarations of a region are found without fault in the lines of its body. -/
theorem declarations_eq_ok (region : Region) :
    declarationsFrom region.name (lines region.body) (Scan.defaultAccess region.kind) 0 0
      (lines region.body) = .ok (Scan.declarations region) :=
  -- The body is read from its first line on, with no line above and nothing open.
  declarationsFrom_eq_ok region.name _ 0 [] (lines region.body)

/-- The lock tags in the window of a line, and the last line of that window. -/
def windowTags (body : List Char) (bodyLines : List (List Char)) (index : Nat) :
    LockWindow → Guarded (List String × Nat)
  | .classBody => return (Vocabulary.lockTags body, bodyLines.length - 1)
  | .lines before after => do
    let reach ← sum index after.toNat
    let stop := max (min reach bodyLines.length) (index + 1)
    let held ← stretch bodyLines (index - before.toNat) stop
    let last ← difference stop 1
    return (Vocabulary.lockTags (unlines held), last)

/-- Whether the end of a window fits into a machine word, in a text of so many lines. -/
def Fits (count : Nat) : LockWindow → Prop
  | .classBody => True
  | .lines _ after => after.toNat + count < UInt64.size

instance (count : Nat) (window : LockWindow) : Decidable (Fits count window) :=
  match window with
  | .classBody => .isTrue trivial
  | .lines _ after => inferInstanceAs (Decidable (after.toNat + count < UInt64.size))

/-- A window that fits a text fits one with fewer lines. -/
theorem Fits.mono {window : LockWindow} {count more : Nat} (fits : Fits more window)
    (le : count ≤ more) : Fits count window := by
  -- Only the lower end of a window is a sum that can be too large.
  cases window with
  | classBody => trivial
  | lines before after =>
    have : after.toNat + more < UInt64.size := fits
    exact show after.toNat + count < UInt64.size by omega

/-- The window of a line of the class is read without fault: it is clipped to the class. -/
theorem windowTags_eq_ok {window : LockWindow} {body : List Char} {index : Nat}
    (inside : index < (lines body).length) (fits : Fits (lines body).length window) :
    windowTags body (lines body) index window =
      .ok (Vocabulary.lockTags (unlines (Scan.windowLines window (lines body) index)),
        (window.span index (lines body).length).2 - 1) := by
  cases window with
  | classBody =>
    rw [Scan.unlines_windowLines_classBody]
    rfl
  | lines before after =>
    -- The sum fits, so it does not wrap around before it is clipped.
    have room : index + after.toNat < UInt64.size := by
      have : after.toNat + (Text.lines body).length < UInt64.size := fits
      omega
    simp only [windowTags, sum_eq_ok room, ok_bind, Scan.windowLines,
      LockWindow.span_lines_of_fits room]
    rw [stretch_eq_ok (by omega) (by omega), ok_bind, difference_eq_ok (by omega)]
    rfl

/-- A public method as a locking method, if there is a lock in its window. -/
def lockingMethod? (window : LockWindow) (body : List Char) (firstLine : Nat)
    (d : Scan.Declaration) : Guarded (Option LockingMethod) := do
  if d.access ≠ .pub then return none
  let (tags, last) ← windowTags body (lines body) d.index window
  if tags = [] then return none
  return some ⟨String.ofList d.name, firstLine + d.index + 1, tags, firstLine + last + 1⟩

/-- A declaration of a class becomes a locking method without fault. -/
theorem lockingMethod?_eq_ok {window : LockWindow} {region : Region} {d : Scan.Declaration}
    (member : d ∈ Scan.declarations region) (fits : Fits (lines region.body).length window) :
    lockingMethod? window region.body region.firstLine d =
      .ok (Scan.lockingMethod? window region d) := by
  have inside := Scan.index_lt_of_mem_declarations member
  -- The window ends behind its line, so its last line has a number.
  have last : region.firstLine + ((window.span d.index (lines region.body).length).2 - 1) + 1 =
      region.firstLine + (window.span d.index (lines region.body).length).2 := by
    have := (window.span_holds inside).2
    omega
  simp only [lockingMethod?, Scan.lockingMethod?, windowTags_eq_ok inside fits, ok_bind, last]
  by_cases pub : d.access = .pub
  · by_cases free : Vocabulary.lockTags
        (unlines (Scan.windowLines window (lines region.body) d.index)) = []
    · simp [pub, free]
    · simp [pub, free]
  · simp [pub]

/-- The profile of the class at an extent. -/
def profile (file : String) (window : LockWindow) (code : List Char) (extent : Extent) :
    Guarded ClassProfile := do
  let body ← slice code extent.start (extent.stop + 1)
  let lead ← stretch (Utf8.encode code) 0 extent.start
  let firstLine := lead.count 0x0A
  let found ← declarationsFrom extent.name (lines body) (Scan.defaultAccess extent.kind) 0 0
    (lines body)
  let lockingMethods ← found.filterMapM (lockingMethod? window body firstLine)
  return {
    name := String.ofList extent.name
    file
    startLine := firstLine + 1
    mutexes := (Vocabulary.mutexMembers body).map String.ofList
    lockingMethods
    unlockedMethods := (found.filterMap Scan.unlockedName?).eraseDups }

/-- A region has no more lines than the view it stands in. -/
theorem length_lines_body_le {code : List Char} {region : Region} (stands : region.StandsIn code) :
    (lines region.body).length ≤ (lines code).length := by
  -- The line breaks of the region are among those of the view.
  obtain ⟨trail, cut⟩ := stands.cut
  simp only [length_lines, lineBreaks, ← cut, List.count_append]
  omega

/-- The profile of a region that stands in a view is made without fault. -/
theorem profile_eq_ok (file : String) {window : LockWindow} {code : List Char} {region : Region}
    (stands : region.StandsIn code) (fits : Fits (lines region.body).length window) :
    profile file window code (.ofRegion region) = .ok (Scan.profile file window region) := by
  obtain ⟨trail, cut⟩ := stands.cut
  -- The closing brace is the last byte of the body, which is not empty.
  have past : region.stop + 1 = byteSize region.lead + byteSize region.body := by
    have inhabited : 0 < byteSize region.body := by
      obtain ⟨rest, opening⟩ := stands.keyword
      have keyword : 0 < byteSize region.kind.keyword.toList := by
        cases region.kind <;> decide
      rw [← opening, byteSize_append]
      omega
    rw [Region.stop]
    omega
  have body : slice code region.start (region.stop + 1) = .ok region.body := by
    rw [past, ← cut]
    exact slice_middle region.lead region.body trail
  have lead : stretch (Utf8.encode code) 0 region.start = .ok (Utf8.encode region.lead) := by
    rw [← cut, List.append_assoc, Utf8.encode_append, Region.start, ← Utf8.length_encode]
    exact stretch_front _ _
  have firstLine : (Utf8.encode region.lead).count 0x0A = region.firstLine :=
    Utf8.count_encode (by decide) rfl region.lead
  -- No method of the region faults, since the window ends inside the text.
  have methods : (Scan.declarations region).filterMapM
      (lockingMethod? window region.body region.firstLine) =
        .ok ((Scan.declarations region).filterMap (Scan.lockingMethod? window region)) :=
    filterMapM_eq_ok fun d member => lockingMethod?_eq_ok member fits
  simp only [profile, Extent.ofRegion, body, lead, firstLine, ok_bind, declarations_eq_ok, methods]
  rfl

/-- The profiles of the classes of a code view that matter. -/
def profiles (file : String) (window : LockWindow) (code : List Char) :
    Guarded (List ClassProfile) := do
  let extents ← (Region.headerPattern.findAll code).filterMapM (extent? code)
  let all ← extents.mapM (profile file window code)
  return all.filter (·.isRelevant)

/-- The scan of a code view makes no access that goes wrong. -/
theorem profiles_eq_ok (file : String) {window : LockWindow} {code : List Char}
    (fits : Fits (lines code).length window) :
    profiles file window code = .ok (Scan.profiles file window code) := by
  -- Every extent is that of a region which stands in the view and has no more lines than it.
  have extents : (Region.headerPattern.findAll code).filterMapM (extent? code) =
      .ok ((Region.findAll code).map Extent.ofRegion) := by
    rw [filterMapM_eq_ok fun found member => extent?_eq_ok (foundIn_of_mem_findAll member),
      Region.findAll, List.map_filterMap]
  have all : ((Region.findAll code).map Extent.ofRegion).mapM (profile file window code) =
      .ok ((Region.findAll code).map (Scan.profile file window)) := by
    rw [List.mapM_map]
    refine mapM_eq_ok fun region member => ?_
    have stands := Region.standsIn_of_mem_findAll member
    exact profile_eq_ok file stands (fits.mono (length_lines_body_le stands))
  simp only [profiles, extents, all, ok_bind]
  rfl

end LockDiscipline.Bounds
