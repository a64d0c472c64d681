import LockDiscipline.Proofs.Text.Utf8

/-! Access that can fail, by byte positions and line numbers, and the laws of when it succeeds. -/

namespace LockDiscipline.Bounds

open LockDiscipline.Text

/-- The ways in which an access goes wrong. -/
inductive Fault where
  /-- A position lies past the end, or a stretch ends before it starts. -/
  | outOfRange
  /-- A byte position lies inside a character. -/
  | insideCharacter
  /-- A difference is negative. -/
  | underflow
  /-- A sum does not fit into a machine word. -/
  | overflow
deriving DecidableEq, Repr

/-- A computation that stops at the first access that goes wrong. -/
abbrev Guarded (α : Type) : Type := Except Fault α

/-- A value without any access is that value. -/
@[simp] theorem pure_eq_ok {α : Type} (x : α) : (pure x : Guarded α) = .ok x := rfl

/-- After an access that succeeds, the computation goes on with its value. -/
@[simp] theorem ok_bind {α β : Type} (x : α) (next : α → Guarded β) :
    (Except.ok x >>= next) = next x := rfl

/-- The difference of two machine words. -/
def difference (x y : Nat) : Guarded Nat :=
  if y ≤ x then .ok (x - y) else .error .underflow

/-- A difference succeeds if it is not negative. -/
theorem difference_eq_ok {x y : Nat} (le : y ≤ x) : difference x y = .ok (x - y) :=
  if_pos le

/-- The sum of two machine words. -/
def sum (x y : Nat) : Guarded Nat :=
  if x + y < UInt64.size then .ok (x + y) else .error .overflow

/-- A sum succeeds if it fits. -/
theorem sum_eq_ok {x y : Nat} (fits : x + y < UInt64.size) : sum x y = .ok (x + y) :=
  if_pos fits

/-- The items of a list from one position up to another. -/
def stretch {α : Type} (all : List α) (start stop : Nat) : Guarded (List α) :=
  if start ≤ stop ∧ stop ≤ all.length then .ok ((all.drop start).take (stop - start))
  else .error .outOfRange

/-- A stretch succeeds if it ends after it starts and within the list. -/
theorem stretch_eq_ok {α : Type} {all : List α} {start stop : Nat} (order : start ≤ stop)
    (inside : stop ≤ all.length) :
    stretch all start stop = .ok ((all.drop start).take (stop - start)) :=
  if_pos ⟨order, inside⟩

/-- The first part of a list. -/
theorem stretch_front {α : Type} (front back : List α) :
    stretch (front ++ back) 0 front.length = .ok front := by
  -- Nothing is dropped, and as much is taken as there is in front.
  rw [stretch_eq_ok (Nat.zero_le _) (by simp)]
  simp

/-- The last part of a list. -/
theorem stretch_back {α : Type} (front back : List α) :
    stretch (front ++ back) front.length (front ++ back).length = .ok back := by
  -- What is in front is dropped, and all that is left is taken.
  rw [stretch_eq_ok (by simp) (Nat.le_refl _)]
  simp

/-- A text cut in two at a byte position. -/
def cutAt : (position : Nat) → (text : List Char) → Guarded (List Char × List Char)
  | 0, text => .ok ([], text)
  | _ + 1, [] => .error .outOfRange
  | position + 1, c :: rest =>
    if position + 1 < c.utf8Size then .error .insideCharacter
    else do
      let (front, back) ← cutAt (position + 1 - c.utf8Size) rest
      return (c :: front, back)

/-- The text from one byte position up to another. -/
def slice (text : List Char) (start stop : Nat) : Guarded (List Char) :=
  if stop < start then .error .outOfRange
  else do
    let (upTo, _) ← cutAt stop text
    let (_, wanted) ← cutAt start upTo
    return wanted

/-- The bytes of a text are those of its first character and those of the rest. -/
theorem byteSize_cons (c : Char) (text : List Char) :
    byteSize (c :: text) = c.utf8Size + byteSize text := rfl

/-- The bytes of two texts add up. -/
@[simp] theorem byteSize_append (first second : List Char) :
    byteSize (first ++ second) = byteSize first + byteSize second := by
  -- Sizes are numbers of bytes, and the bytes of both texts are put together.
  rw [← Utf8.length_encode, Utf8.encode_append, List.length_append, Utf8.length_encode,
    Utf8.length_encode]

/-- A text has as many bytes backwards. -/
@[simp] theorem byteSize_reverse (text : List Char) : byteSize text.reverse = byteSize text := by
  induction text with
  -- Only the order of the summands changes.
  | nil => rfl
  | cons c rest ih =>
    rw [List.reverse_cons, byteSize_append, ih, byteSize_cons, byteSize_cons]
    exact Nat.add_comm _ _

/-- A text can be cut between any two characters. -/
theorem cutAt_append (front back : List Char) :
    cutAt (byteSize front) (front ++ back) = .ok (front, back) := by
  induction front with
  | nil => simp [byteSize, cutAt]
  | cons c rest ih =>
    -- The position lies behind the first character, which has at least one byte.
    have positive : 0 < c.utf8Size := Char.utf8Size_pos c
    obtain ⟨before, shape⟩ : ∃ before, byteSize (c :: rest) = before + 1 :=
      ⟨byteSize (c :: rest) - 1, by rw [byteSize_cons]; omega⟩
    have behind : ¬ before + 1 < c.utf8Size := by
      rw [← shape, byteSize_cons]
      omega
    have left : before + 1 - c.utf8Size = byteSize rest := by
      rw [← shape, byteSize_cons]
      omega
    rw [shape, List.cons_append, cutAt, if_neg behind, left, ih]
    rfl

/-- What stands between two texts is the slice between their borders. -/
theorem slice_middle (front wanted back : List Char) :
    slice (front ++ wanted ++ back) (byteSize front) (byteSize front + byteSize wanted) =
      .ok wanted := by
  -- Both borders are ends of texts, so they are found where they are looked for.
  have ordered : ¬ byteSize front + byteSize wanted < byteSize front := by omega
  rw [slice, if_neg ordered, ← byteSize_append, cutAt_append, ok_bind]
  simp only [cutAt_append, ok_bind]
  rfl

/-- The first part of a text is the slice up to its end. -/
theorem slice_front (front back : List Char) :
    slice (front ++ back) 0 (byteSize front) = .ok front := by
  -- The front of a text is its middle with nothing before it.
  simpa [byteSize] using slice_middle [] front back

/-- The last part of a text is the slice from its start on. -/
theorem slice_back (front back : List Char) :
    slice (front ++ back) (byteSize front) (byteSize (front ++ back)) = .ok back := by
  -- The back of a text is its middle with nothing behind it.
  simpa using slice_middle front back []

section Lists

variable {α β : Type} {items : List α}

/-- Guarded computations for all items succeed if each of them does. -/
theorem mapM_eq_ok {f : α → Guarded β} {g : α → β} (each : ∀ x ∈ items, f x = .ok (g x)) :
    items.mapM f = .ok (items.map g) := by
  -- Item by item; where no item faults, the results are collected as in a plain map.
  induction items with
  | nil => rfl
  | cons x rest ih =>
    have tail := ih fun y member => each y (List.mem_cons_of_mem x member)
    rw [List.mapM_cons, each x List.mem_cons_self, ok_bind, tail]
    rfl

/-- A guarded choice among all items succeeds if it does for each of them. -/
theorem filterMapM_eq_ok {f : α → Guarded (Option β)} {g : α → Option β}
    (each : ∀ x ∈ items, f x = .ok (g x)) : items.filterMapM f = .ok (items.filterMap g) := by
  -- Item by item; an item without a choice adds nothing.
  induction items with
  | nil => rfl
  | cons x rest ih =>
    have tail := ih fun y member => each y (List.mem_cons_of_mem x member)
    rw [List.filterMapM_cons, each x List.mem_cons_self, ok_bind, List.filterMap_cons]
    cases g x with
    | none => exact tail
    | some y =>
      rw [tail]
      rfl

/-- Guarded lists for all items are put together if each of them succeeds. -/
theorem flatMapM_eq_ok {f : α → Guarded (List β)} {g : α → List β}
    (each : ∀ x ∈ items, f x = .ok (g x)) : items.flatMapM f = .ok (items.flatMap g) := by
  -- Item by item, with the lists appended in their order.
  induction items with
  | nil => rfl
  | cons x rest ih =>
    have tail := ih fun y member => each y (List.mem_cons_of_mem x member)
    rw [List.flatMapM_cons, each x List.mem_cons_self, ok_bind, tail]
    rfl

/-- A guarded search succeeds if each of its tests does. -/
theorem findM?_eq_ok {test : α → Guarded Bool} {holds : α → Bool}
    (each : ∀ x ∈ items, test x = .ok (holds x)) :
    items.findM? test = .ok (items.find? holds) := by
  -- Up to the first hit; later tests are not made.
  induction items with
  | nil => rfl
  | cons x rest ih =>
    have tail := ih fun y member => each y (List.mem_cons_of_mem x member)
    rw [List.findM?, each x List.mem_cons_self, ok_bind, List.find?_cons]
    cases holds x with
    | true => rfl
    | false => exact tail

end Lists

end LockDiscipline.Bounds
