import LockDiscipline.Proofs.Pattern.Leftmost
import LockDiscipline.Proofs.Region.Braces
import Mathlib.Data.List.Forall2

/-! Regions as a family of blocks: which headers open one, where it ends, and how blocks nest. -/

namespace LockDiscipline.Region

open LockDiscipline.Text
open Bounds (closingBrace? closingBrace?_encode)
open Braces
open Pattern

/-- The byte offset of the opening brace. -/
def opening (r : Region) : Nat :=
  byteSize r.lead + byteSize r.header

/-- A text ends in the word `enum`, apart from white space. -/
def FollowsEnum (text : List Char) : Prop :=
  ∃ head gap, text = head ++ "enum".toList ++ gap ∧ (∀ c ∈ gap, isBlank c = true) ∧
    ∀ c, head.getLast? = some c → isAlphanumeric c = false ∧ c ≠ '_'

/-- The test of a reversed text decides whether it follows the word `enum`. -/
theorem endsInEnum_iff {before : List Char} :
    endsInEnum before = true ↔ FollowsEnum before.reverse := by
  have spelled : "enum".toList.reverse = ['m', 'u', 'n', 'e'] := by decide
  -- The character before the word is the first one of what is left of the reversed text.
  have edge : ∀ head : List Char,
      (!head.head?.any fun c => isAlphanumeric c || c == '_') = true ↔
        ∀ c, head.reverse.getLast? = some c → isAlphanumeric c = false ∧ c ≠ '_' := by
    intro head
    rw [List.getLast?_reverse]
    cases head with
    | nil => simp
    | cons c others => simp
  unfold endsInEnum
  constructor
  · intro ends
    -- White space is dropped first, and then the letters of the word from its end.
    obtain ⟨gap, shape, blank⟩ := exists_dropWhile isBlank before
    split at ends
    · rename_i head found
      rw [dropOpening?_eq_some_iff] at found
      refine ⟨head.reverse, gap.reverse, ?_, by simpa using blank, (edge head).mp ends⟩
      rw [shape, found]
      simp
    · exact absurd ends (by simp)
  · intro follows
    obtain ⟨head, gap, shape, blank, alone⟩ := follows
    -- The last letter of the word is no white space, so exactly the gap is dropped.
    have reversed : before = gap.reverse ++ ("enum".toList.reverse ++ head.reverse) := by
      rw [← List.reverse_reverse before, shape]
      simp
    have kept : before.dropWhile isBlank = "enum".toList.reverse ++ head.reverse := by
      rw [reversed, List.dropWhile_append_of_pos (by simpa using blank), spelled]
      exact List.dropWhile_cons_of_neg (by decide)
    rw [kept, dropOpening?_eq_some_iff.mpr rfl]
    exact (edge head.reverse).mpr (by simpa using alone)

instance (text : List Char) : Decidable (FollowsEnum text) :=
  decidable_of_iff (endsInEnum text.reverse = true)
    (by rw [endsInEnum_iff, List.reverse_reverse])

/-- A header captures the name of its class. -/
theorem name_of_foundIn {code : List Char} {found : Match}
    (inside : found.FoundIn headerPattern code) : ∃ name, found.capture? .name = some name := by
  -- The name is the fourth of the patterns that make up a header.
  have outcome := inside.outcome
  obtain ⟨b, front, rest⟩ := mem_ends_inOrder_append.mp
    (show _ ∈ ends (inOrder ([_, _, _] ++ [capture .name identifier, _, _, _, _])) _ from outcome)
  obtain ⟨n, named, rest⟩ := mem_ends_inOrder_cons.mp rest
  obtain ⟨m, -, rfl⟩ := mem_ends_capture.mp named
  -- No later part of the header is captured as a name.
  have kept := (grows_of_mem_ends rest).find? (show Label.name ∉ _ by decide)
  exact ⟨_, kept⟩

/-- Headers read at least their brace. -/
theorem readsMore_headerPattern : headerPattern.ReadsMore := by
  -- Whatever else is read, the brace is no longer ahead behind the match.
  intro place e outcome
  have inside : Match.FoundIn headerPattern (place.before.reverse ++ place.after)
      ⟨place, e.cursor, e.captures⟩ := ⟨rfl, outcome⟩
  obtain ⟨-, -, header, -, -, after, -⟩ := header_of_foundIn inside
  have size := congrArg List.length after
  simp only [List.length_append, List.length_cons] at size
  omega

/-- Headers that open a block: none of an enumeration, and with a brace that is balanced. -/
def OpensBlock (code : List Char) (header : Match) : Prop :=
  ¬ FollowsEnum header.start.before.reverse ∧
    EverBalanced (Utf8.encode code) (byteSize header.stop.before - 1)

instance (code : List Char) (header : Match) : Decidable (OpensBlock code header) :=
  inferInstanceAs (Decidable (_ ∧ _))

/-- How a region follows from the header that opens it. -/
structure OpenedBy (code : List Char) (header : Match) (r : Region) : Prop where
  /-- The code starts with the text before the region and the region. -/
  cut : r.lead ++ r.body <+: code
  /-- The region starts where the header does. -/
  start : r.start = byteSize header.start.before
  /-- The last byte of the header is the opening brace. -/
  opening : r.opening + 1 = byteSize header.stop.before
  /-- The name is the one in the header. -/
  name : (header.capture? .name).map (·.text) = some r.name
  /-- The keyword is the one in the header. -/
  keyword : (header.capture? .kind).map (·.text) = some r.kind.keyword.toList
  /-- The region ends at the first offset where its braces are balanced. -/
  stop : IsLeast {last | BalancedAt (Utf8.encode code) r.opening last} r.stop
  /-- Before that, more braces are opened than closed. -/
  stays : OpenUntil (Utf8.encode code) r.opening r.stop

/-- The region of a header, with the block that is closed behind its brace. -/
def ofBlock (found : Match) (kind name : Capture) (block : List Char) : Region where
  name := name.text
  kind := if kind.text == ClassKind.struct.keyword.toList then .struct else .cls
  lead := found.start.before.reverse
  header := (found.start.upTo found.stop).dropLast
  block := '\x7b' :: block

section Headers

variable {code : List Char} {found : Match} {kind name : Capture} {block : List Char}

/-- The region that a header opens, if its parts are captured. -/
theorem ofHeader?_eq (kindCaptured : found.capture? .kind = some kind)
    (nameCaptured : found.capture? .name = some name) :
    ofHeader? found =
      if FollowsEnum found.start.before.reverse then none
      else (closeBlock? 1 found.stop.after).map (ofBlock found kind name) := by
  -- What remains to be asked is whether the word stands in front and whether the block closes.
  unfold ofHeader?
  rw [kindCaptured, nameCaptured]
  by_cases enumeration : FollowsEnum found.start.before.reverse
  · rw [if_pos enumeration, endsInEnum_iff.mpr enumeration]
    rfl
  · have other : endsInEnum found.start.before = false :=
      Bool.eq_false_iff.mpr fun ends => enumeration (endsInEnum_iff.mp ends)
    rw [if_neg enumeration, other]
    cases closeBlock? 1 found.stop.after with
    | none => rfl
    | some block => rfl

/-- The bytes of a code view, cut at the last byte of a header, which is a brace. -/
theorem encode_of_foundIn (inside : found.FoundIn headerPattern code) :
    ∃ front, Utf8.encode code = front ++ 0x7B :: Utf8.encode found.stop.after ∧
      front.length + 1 = byteSize found.stop.before := by
  obtain ⟨header, cut, stop, -⟩ := Bounds.cut_of_foundIn inside
  -- The code is what stands before the header, the header, its brace, and what follows.
  refine ⟨Utf8.encode (found.start.before.reverse ++ header), ?_, ?_⟩
  · rw [cut, Utf8.encode_append]
    rfl
  · -- The brace is one byte, and it is the last one that the match reads.
    have one : '\x7b'.utf8Size = 1 := rfl
    rw [stop, Utf8.length_encode, List.cons_append, Bounds.byteSize_cons, one]
    simp only [Bounds.byteSize_append, Bounds.byteSize_reverse]
    omega

/-- The opening brace of a region is the last byte of its header. -/
theorem opening_ofBlock (inside : found.FoundIn headerPattern code) :
    (ofBlock found kind name block).opening + 1 = byteSize found.stop.before := by
  obtain ⟨header, -, stop, upTo⟩ := Bounds.cut_of_foundIn inside
  -- A brace is one byte, and what the match reads before it is the header of the region.
  have one : '\x7b'.utf8Size = 1 := rfl
  rw [stop, List.cons_append, Bounds.byteSize_cons, one]
  simp only [opening, ofBlock, upTo, List.dropLast_concat, Bounds.byteSize_append,
    Bounds.byteSize_reverse]
  omega

/-- The closing brace of a region is as far behind the opening one as its block is long. -/
theorem stop_ofBlock :
    (ofBlock found kind name block).stop =
      (ofBlock found kind name block).opening + byteSize block := by
  -- Both offsets count what stands in front, the header and the brace.
  have one : '\x7b'.utf8Size = 1 := rfl
  simp only [stop, opening, body, ofBlock, Bounds.byteSize_append, Bounds.byteSize_cons, one]
  omega

/-- A block that is closed is balanced at its end, and stays open until then. -/
theorem balancedAt_ofBlock (inside : found.FoundIn headerPattern code)
    (closed : closeBlock? 1 found.stop.after = some block) :
    BalancedAt (Utf8.encode code) (ofBlock found kind name block).opening
        (ofBlock found kind name block).stop ∧
      OpenUntil (Utf8.encode code) (ofBlock found kind name block).opening
        (ofBlock found kind name block).stop := by
  obtain ⟨front, bytes, last⟩ := encode_of_foundIn inside
  have brace : (ofBlock found kind name block).opening = front.length := by
    have opens : (ofBlock found kind name block).opening + 1 = byteSize found.stop.before :=
      opening_ofBlock inside
    omega
  -- The byte that the search stops at is the last one of the block.
  have search := closingBrace?_encode 1 found.stop.after
  rw [closed, Option.map_some] at search
  obtain ⟨k, reached, blockSize⟩ := Option.map_eq_some_iff.mp search
  rw [stop_ofBlock, bytes, brace, ← blockSize]
  exact balancedAt_of_closingBrace? front reached

/-- A brace behind which no block is closed is never balanced. -/
theorem not_everBalanced_of_closeBlock? (inside : found.FoundIn headerPattern code)
    (unclosed : closeBlock? 1 found.stop.after = none) :
    ¬ EverBalanced (Utf8.encode code) (byteSize found.stop.before - 1) := by
  -- In bytes, the search for the block starts behind the brace and finds no end of it.
  obtain ⟨front, bytes, last⟩ := encode_of_foundIn inside
  have missing : closingBrace? 1 (Utf8.encode found.stop.after) = none := by
    have search := closingBrace?_encode 1 found.stop.after
    simpa [unclosed] using search
  rw [bytes, ← last, Nat.add_sub_cancel]
  exact not_everBalanced_of_closingBrace? front missing

/-- The region of a closed block follows from its header. -/
theorem openedBy_ofBlock (inside : found.FoundIn headerPattern code)
    (kindCaptured : found.capture? .kind = some kind)
    (nameCaptured : found.capture? .name = some name)
    (made : ofHeader? found = some (ofBlock found kind name block))
    (closed : closeBlock? 1 found.stop.after = some block) :
    OpenedBy code found (ofBlock found kind name block) := by
  obtain ⟨balanced, stays⟩ := balancedAt_ofBlock inside closed
  constructor
  case cut => exact (standsIn_of_ofHeader? inside made).cut
  case start => exact Bounds.byteSize_reverse _
  case opening => exact opening_ofBlock inside
  case name =>
    rw [nameCaptured]
    rfl
  case keyword =>
    -- The captured keyword is one of the two that the region can have.
    obtain ⟨word, isKeyword, -, kindText, -⟩ := header_of_foundIn inside
    rw [kindCaptured, Option.map_some, Option.some.injEq] at kindText
    simp only [kindCaptured, Option.map_some, ofBlock, kindText, keyword_of_mem isKeyword]
  case stop => exact isLeast_balancedAt balanced stays
  case stays => exact stays

/-- A header makes a region exactly if it opens a block. -/
theorem ofHeader?_of_foundIn (inside : found.FoundIn headerPattern code) :
    (OpensBlock code found ∧ ∃ r, ofHeader? found = some r ∧ OpenedBy code found r) ∨
      (¬ OpensBlock code found ∧ ofHeader? found = none) := by
  obtain ⟨_, _, _, kindText, _⟩ := header_of_foundIn inside
  obtain ⟨kind, kindCaptured, -⟩ := Option.map_eq_some_iff.mp kindText
  obtain ⟨name, nameCaptured⟩ := name_of_foundIn inside
  have made := ofHeader?_eq kindCaptured nameCaptured
  by_cases enumeration : FollowsEnum found.start.before.reverse
  · -- Behind the word `enum` a header makes no region, whatever its braces are.
    rw [if_pos enumeration] at made
    exact .inr ⟨fun opens => opens.1 enumeration, made⟩
  rw [if_neg enumeration] at made
  cases closed : closeBlock? 1 found.stop.after with
  | none =>
    rw [closed, Option.map_none] at made
    exact .inr ⟨fun opens => not_everBalanced_of_closeBlock? inside closed opens.2, made⟩
  | some block =>
    rw [closed, Option.map_some] at made
    have opened := openedBy_ofBlock inside kindCaptured nameCaptured made closed
    -- The end of the region is an offset at which its brace is balanced.
    have ever : EverBalanced (Utf8.encode code) (byteSize found.stop.before - 1) := by
      rw [← opened.opening, Nat.add_sub_cancel]
      exact ⟨_, opened.stop.1.2.1, opened.stop.1⟩
    exact .inl ⟨⟨enumeration, ever⟩, _, made, opened⟩

end Headers

/-- Every region that a header makes follows from it. -/
theorem openedBy_of_ofHeader? {code : List Char} {found : Match} {r : Region}
    (inside : found.FoundIn headerPattern code) (made : ofHeader? found = some r) :
    OpenedBy code found r := by
  -- A header makes one region or none, so the one that is made is the one that follows from it.
  rcases ofHeader?_of_foundIn inside with ⟨-, s, sameMade, opened⟩ | ⟨-, none⟩
  · obtain rfl : s = r := Option.some.inj (sameMade.symm.trans made)
    exact opened
  · exact absurd (none.symm.trans made) (by simp)

/-- What is kept of a list, and what is made from it, stand side by side. -/
theorem forall₂_filter_filterMap {α β : Type} {keep : α → Prop} [DecidablePred keep]
    {make : α → Option β} {related : α → β → Prop} {items : List α}
    (each : ∀ x ∈ items, (keep x ∧ ∃ y, make x = some y ∧ related x y) ∨
      (¬ keep x ∧ make x = none)) :
    List.Forall₂ related (items.filter keep) (items.filterMap make) := by
  -- Item by item, both lists get one more or both stay as they are.
  induction items with
  | nil => exact .nil
  | cons x rest ih =>
    have tail := ih fun y member => each y (List.mem_cons_of_mem x member)
    rcases each x List.mem_cons_self with ⟨kept, y, made, fits⟩ | ⟨dropped, none⟩
    · rw [List.filter_cons_of_pos (by simpa using kept), List.filterMap_cons_some made]
      exact .cons fits tail
    · rw [List.filter_cons_of_neg (by simpa using dropped), List.filterMap_cons_none none]
      exact tail

/-- A header that starts behind the end of another does so in bytes too. -/
theorem byteSize_le_of_foundIn {code : List Char} {m n : Match}
    (first : m.FoundIn headerPattern code) (second : n.FoundIn headerPattern code)
    (order : m.stop.before.length ≤ n.start.before.length) :
    byteSize m.stop.before ≤ byteSize n.start.before := by
  -- Both places cut the same text in two, and the earlier part is shorter.
  obtain ⟨header, cut, stop, -⟩ := Bounds.cut_of_foundIn first
  have upToStop : m.stop.before.reverse <+: code := ⟨m.stop.after, by rw [cut, stop]; simp⟩
  have upToStart : n.start.before.reverse <+: code := ⟨n.start.after, second.place⟩
  obtain ⟨between, shape⟩ :=
    List.prefix_of_prefix_length_le upToStop upToStart (by simpa using order)
  have sizes := congrArg byteSize shape
  simp only [Bounds.byteSize_append, Bounds.byteSize_reverse] at sizes
  omega

/-- One region starts before another, and their blocks are apart or the second is inside. -/
def Precedes (r s : Region) : Prop :=
  r.start < s.start ∧
    (r.stop < s.opening ∨ r.opening < s.opening ∧ s.stop < r.stop)

/-- Of two regions, the one with the earlier header precedes the other. -/
theorem precedes_of_openedBy {code : List Char} {m n : Match} {r s : Region}
    (first : OpenedBy code m r) (second : OpenedBy code n s)
    (order : byteSize m.stop.before ≤ byteSize n.start.before) : Precedes r s := by
  -- Each header ends with the brace of its region, so the braces are in the order of the headers.
  have earlier : r.start ≤ r.opening := Nat.le_add_right _ _
  have later : s.start ≤ s.opening := Nat.le_add_right _ _
  have opening := first.opening
  have start := second.start
  have opensLater : r.opening < s.opening := by omega
  refine ⟨by omega, ?_⟩
  rcases nested_of_balancedAt first.stop.1 first.stays second.stop.1 second.stays opensLater
    with apart | inside
  · exact .inl apart
  · exact .inr ⟨opensLater, inside⟩

/--
The regions of a text are the blocks that its class headers open.

The headers are those that a search from left to right takes. Each of them that does not follow
the word `enum` and whose brace is ever balanced has one region, in order, which ends where the
brace is first balanced. Any two of these blocks are apart, or one is strictly inside the other.
-/
theorem findAll_nests (code : List Char) :
    Leftmost headerPattern code (headerPattern.findAll code) ∧
      List.Forall₂ (OpenedBy code)
        ((headerPattern.findAll code).filter (OpensBlock code)) (findAll code) ∧
      (findAll code).Pairwise Precedes := by
  have headers := leftmost_findAll readsMore_headerPattern code
  have inside : ∀ m ∈ headerPattern.findAll code, m.FoundIn headerPattern code :=
    fun _ => foundIn_of_mem_findAll
  refine ⟨headers, ?_, ?_⟩
  · exact forall₂_filter_filterMap fun m member => ofHeader?_of_foundIn (inside m member)
  · -- The headers do not overlap, and regions are listed in their order.
    refine List.pairwise_filterMap.mpr (headers.apart.imp_of_mem ?_)
    intro m n first second order r made s madeToo
    exact precedes_of_openedBy (openedBy_of_ofHeader? (inside m first) made)
      (openedBy_of_ofHeader? (inside n second) madeToo)
      (byteSize_le_of_foundIn (inside m first) (inside n second) order)

-- The outer block is never closed, and the second header belongs to an enumeration.
example :
    (findAll "class A \x7b enum class E \x7b \x7d; struct B \x7b \x7d;".toList).map
      (fun r => (String.ofList r.name, r.start, r.opening, r.stop)) = [("B", 28, 37, 39)] := by
  decide +kernel

end LockDiscipline.Region
