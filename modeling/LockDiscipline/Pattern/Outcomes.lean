import LockDiscipline.Pattern.Search

/-! The search by continuations tries exactly the listed outcomes of a pattern, in their order. -/

namespace LockDiscipline.Pattern

/-- Searching the lists made from the items of a list searches them one after the other. -/
theorem findSome?_flatMap {α β γ : Type} (items : List α) (f : α → List β) (k : β → Option γ) :
    (items.flatMap f).findSome? k = items.findSome? fun x => (f x).findSome? k := by
  induction items with
  | nil => rfl
  | cons x rest ih =>
    rw [List.flatMap_cons, List.findSome?_append, ih, List.findSome?_cons]
    cases (f x).findSome? k <;> rfl

/-- Searching the items that pass a test skips the others. -/
theorem findSome?_filter {α γ : Type} (items : List α) (test : α → Bool) (k : α → Option γ) :
    (items.filter test).findSome? k = items.findSome? fun x => if test x then k x else none := by
  induction items with
  | nil => rfl
  | cons x rest ih =>
    cases passed : test x <;> simp [List.findSome?_cons, passed, ih]

/-- A greedy run is tried from its longest end to its shortest. -/
theorem runFirst?_eq_findSome? {β : Type} (fits : Char → Bool) (captures : List Capture)
    (andThen : Attempt → Option β) (before after : List Char) :
    runFirst? fits captures andThen before after =
      (runEnds fits captures before after).findSome? andThen := by
  induction after generalizing before with
  | nil => simp [runFirst?, runEnds]
  | cons c rest ih =>
    simp only [runFirst?, runEnds]
    split
    · rw [ih, List.findSome?_append]
      simp
    · simp

/-- A reluctant run is tried from its shortest end to its longest. -/
theorem shortRunFirst?_eq_findSome? {β : Type} (fits : Char → Bool) (captures : List Capture)
    (andThen : Attempt → Option β) (before after : List Char) :
    shortRunFirst? fits captures andThen before after =
      (shortRunEnds fits captures before after).findSome? andThen := by
  induction after generalizing before with
  | nil => simp [shortRunFirst?, shortRunEnds]
  | cons c rest ih =>
    simp only [shortRunFirst?, shortRunEnds, List.findSome?_cons]
    cases andThen ⟨⟨before, c :: rest⟩, captures⟩ with
    | some found => rfl
    | none =>
      split
      · exact ih _
      · rfl

/-- Repetitions are tried in the order of their outcomes if the body is. -/
theorem manyFirst?_eq_findSome? {β : Type} (body : Attempt → (Attempt → Option β) → Option β)
    (outcomes : Attempt → List Attempt)
    (agree : ∀ a k, body a k = (outcomes a).findSome? k)
    (andThen : Attempt → Option β) (limit : Nat) (a : Attempt) :
    manyFirst? body andThen limit a = (manyEnds outcomes limit a).findSome? andThen := by
  induction limit generalizing a with
  | zero => simp [manyFirst?, manyEnds]
  | succ limit ih =>
    rw [manyFirst?, manyEnds, agree, List.findSome?_append, findSome?_flatMap, findSome?_filter]
    simp [ih]

/-- The search tries exactly the outcomes of a pattern, in their order. -/
theorem first?_eq_findSome? {β : Type} (p : Pattern) (a : Attempt) (andThen : Attempt → Option β) :
    first? p a andThen = (ends p a).findSome? andThen := by
  induction p generalizing a andThen with
  | empty => simp [first?, ends]
  | one fits =>
    cases ahead : a.cursor.after with
    | nil => simp [first?, ends, ahead]
    | cons c rest =>
      simp only [first?, ends, ahead]
      split <;> simp
  | wordEdge => simp only [first?, ends]; split <;> simp
  | textEnd => simp only [first?, ends]; split <;> simp
  | run fits => exact runFirst?_eq_findSome? ..
  | shortRun fits => exact shortRunFirst?_eq_findSome? ..
  | seq first second ihFirst ihSecond =>
    rw [first?, ends, ihFirst, findSome?_flatMap]
    exact congrArg (List.findSome? · (ends first a)) (funext fun e => ihSecond e andThen)
  | or first second ihFirst ihSecond =>
    simp [first?, ends, ihFirst, ihSecond, List.findSome?_append]
  | many body ih =>
    rw [first?, ends]
    exact manyFirst?_eq_findSome? _ _ (fun e k => ih e k) andThen _ a
  | capture label body ih =>
    rw [first?, ends, ih, List.findSome?_map]
    rfl

/-- The match at a place is the first outcome of the pattern there. -/
theorem matchAt?_eq_head? (p : Pattern) (place : Cursor) :
    matchAt? p place =
      (ends p ⟨place, []⟩).head?.map fun e => ⟨place, e.cursor, e.captures⟩ := by
  rw [matchAt?, first?_eq_findSome?]
  cases ends p ⟨place, []⟩ <;> simp

end LockDiscipline.Pattern
