import Mathlib.Data.List.Induction

/-! Lists without repetition: of the items of one kind, the first is kept, and the order stays. -/

namespace LockDiscipline

section Kinds

variable {α : Type} {same : α → α → Bool}

/-- Repetitions are left out item by item, each time with what remains of the rest. -/
theorem eraseDupsBy_induction (same : α → α → Bool) {motive : List α → Prop} (nil : motive [])
    (cons : ∀ a rest, motive (rest.filter fun b => same b a = false) → motive (a :: rest))
    (items : List α) : motive items := by
  -- What remains of the rest is shorter than the list, so the induction is on the length.
  generalize size : items.length = n
  induction n using Nat.strongRecOn generalizing items with
  | ind n ih =>
    cases items with
    | nil => exact nil
    | cons a rest =>
      refine cons a rest (ih _ ?_ _ rfl)
      have bound := List.length_filter_le (fun b => decide (same b a = false)) rest
      rw [List.length_cons] at size
      omega

/-- Repetitions are the same when every item is changed in a way that keeps the kinds apart. -/
theorem eraseDupsBy_map {β : Type} {alike : β → β → Bool} {change : α → β}
    (keeps : ∀ x y, alike (change x) (change y) = same x y) (items : List α) :
    (items.map change).eraseDupsBy alike = (items.eraseDupsBy same).map change := by
  induction items using eraseDupsBy_induction same with
  | nil => rfl
  | cons a rest ih =>
    -- What is left out of the changed rest is what is left out of the rest.
    have others : (rest.map change).filter (fun b => alike b (change a) = false) =
        (rest.filter fun b => same b a = false).map change := by
      rw [List.filter_map]
      exact congrArg (List.map change) (List.filter_congr fun b _ => by
        rw [Function.comp_apply, keeps])
    rw [List.map_cons, List.eraseDupsBy_cons, others, ih, List.eraseDupsBy_cons, List.map_cons]

/-- Leaving out repetitions keeps the order of what is left. -/
theorem eraseDupsBy_sublist (same : α → α → Bool) (items : List α) :
    (items.eraseDupsBy same).Sublist items := by
  induction items using eraseDupsBy_induction same with
  | nil => exact List.Sublist.refl []
  | cons a rest ih =>
    -- What is left starts with the first item, and its rest is left of a part of the rest.
    rw [List.eraseDupsBy_cons]
    exact .cons_cons a (ih.trans List.filter_sublist)

/-- Leaving out repetitions leaves only what was there. -/
theorem mem_of_mem_eraseDupsBy {items : List α} {a : α} (member : a ∈ items.eraseDupsBy same) :
    a ∈ items :=
  -- What is left is a part of the list, in the same order.
  (eraseDupsBy_sublist same items).subset member

/-- No two items that are left are of one kind. -/
theorem pairwise_eraseDupsBy (items : List α) :
    (items.eraseDupsBy same).Pairwise fun x y => same y x = false := by
  induction items using eraseDupsBy_induction same with
  | nil => exact .nil
  | cons a rest ih =>
    rw [List.eraseDupsBy_cons]
    -- Of the items behind the first, those of its kind were left out.
    refine .cons (fun b member => ?_) ih
    simpa using (List.mem_filter.mp (mem_of_mem_eraseDupsBy member)).2

variable {κ : Type} {kind : α → κ} (byKind : ∀ x y, same x y = true ↔ kind x = kind y)

include byKind in
/-- Of every kind, an item is left. -/
theorem exists_mem_eraseDupsBy {items : List α} {a : α} (member : a ∈ items) :
    ∃ b ∈ items.eraseDupsBy same, kind b = kind a := by
  -- The item itself is kept, or it is of the kind of the first, or the rest keeps one of its kind.
  induction items using eraseDupsBy_induction same with
  | nil => simp at member
  | cons first rest ih =>
    rw [List.eraseDupsBy_cons]
    by_cases alike : kind first = kind a
    · exact ⟨first, List.mem_cons_self, alike⟩
    · have other : same a first = false :=
        Bool.eq_false_iff.mpr fun holds => alike ((byKind a first).mp holds).symm
      have later : a ∈ rest :=
        (List.mem_cons.mp member).resolve_left fun here => alike (congrArg kind here.symm)
      obtain ⟨b, left, sameKind⟩ := ih (List.mem_filter.mpr ⟨later, by simpa using other⟩)
      exact ⟨b, List.mem_cons_of_mem first left, sameKind⟩

include byKind in
/-- The item that is left is the first of its kind. -/
theorem first_of_mem_eraseDupsBy {items : List α} {before : α → α → Prop}
    (sorted : items.Pairwise before) {a b : α} (left : a ∈ items.eraseDupsBy same)
    (member : b ∈ items) (sameKind : kind b = kind a) : b = a ∨ before a b := by
  induction items using eraseDupsBy_induction same with
  | nil => simp at member
  | cons first rest ih =>
    obtain ⟨ahead, sortedRest⟩ := List.pairwise_cons.mp sorted
    rw [List.eraseDupsBy_cons] at left
    rcases List.mem_cons.mp left with rfl | left
    · -- The first item is kept, and it stands before all others.
      exact (List.mem_cons.mp member).imp id (ahead b)
    · -- An item of another kind than the first is left by the rest.
      have other : same a first = false := by
        simpa using (List.mem_filter.mp (mem_of_mem_eraseDupsBy left)).2
      have otherToo : same b first = false := by
        rw [Bool.eq_false_iff, Ne, byKind, sameKind, ← byKind, other]
        simp
      have later : b ∈ rest := by
        refine (List.mem_cons.mp member).resolve_left fun here => ?_
        rw [here, (byKind first first).mpr rfl] at otherToo
        exact absurd otherToo (by simp)
      exact ih (sortedRest.filter _) left (List.mem_filter.mpr ⟨later, by simpa using otherToo⟩)

include byKind in
/-- Items of one kind are the same as the same items. -/
theorem same_congr (a : α) {x y : α} (sameKind : kind x = kind y) : same a x = same a y := by
  -- Sameness is having one kind, on either side.
  rw [Bool.eq_iff_iff, byKind, byKind, sameKind]

include byKind in
/-- An item at the end of a list is left if it is the first of its kind. -/
theorem eraseDupsBy_concat (items : List α) (last : α) :
    (items ++ [last]).eraseDupsBy same =
      if ∀ a ∈ items, same last a = false then items.eraseDupsBy same ++ [last]
      else items.eraseDupsBy same := by
  -- The last item goes through the list with the others, and each of them may leave it out.
  induction items using eraseDupsBy_induction same with
  | nil => simp [List.eraseDupsBy_cons]
  | cons a rest ih =>
    rw [List.cons_append, List.eraseDupsBy_cons, List.filter_append, List.eraseDupsBy_cons]
    cases alike : same last a with
    | true => simp [alike]
    | false =>
      -- An item that is left out of the rest is of the kind of the first, so not of the last one's.
      have others : (∀ b ∈ rest.filter fun b => same b a = false, same last b = false) ↔
          ∀ b ∈ a :: rest, same last b = false := by
        refine ⟨fun left b member => ?_, fun left b member => ?_⟩
        · -- An item that was left out of the rest answers as the first one does.
          cases repeated : same b a with
          | true => rwa [same_congr byKind last ((byKind b a).mp repeated)]
          | false =>
            have later : b ∈ rest := by
              refine (List.mem_cons.mp member).resolve_left ?_
              rintro rfl
              simp [(byKind b b).mpr rfl] at repeated
            exact left b (List.mem_filter.mpr ⟨later, by simpa using repeated⟩)
        · exact left b (List.mem_cons_of_mem a (List.mem_filter.mp member).1)
      simp only [List.filter_cons, alike, decide_true, if_true, List.filter_nil, ih, others]
      split <;> simp

/-- Leaving out adjacent repetitions: those of the first item, and then those of the rest. -/
theorem eraseRepsBy_cons (same : α → α → Bool) (a : α) (rest : List α) :
    (a :: rest).eraseRepsBy same = a :: (rest.dropWhile (same a)).eraseRepsBy same := by
  -- The loop carries the item it compares with and what it has kept; the general form says both.
  have general (rest : List α) (a : α) (shown : List α) : List.eraseRepsBy.loop same a rest shown =
      shown.reverse ++ a :: (rest.dropWhile (same a)).eraseRepsBy same := by
    induction rest generalizing a shown with
    | nil => simp [List.eraseRepsBy.loop, List.eraseRepsBy]
    | cons b rest ih =>
      cases alike : same a b with
      | true => simp [List.eraseRepsBy.loop, alike, ih]
      | false => simp [List.eraseRepsBy.loop, alike, ih, List.eraseRepsBy]
  simpa [List.eraseRepsBy] using general rest a []

include byKind in
/-- In a sorted list, the items of the least kind stand at the start. -/
theorem dropWhile_eq_filter {le : κ → κ → Prop} (antisymm : ∀ x y, le x y → le y x → x = y)
    {a : α} {items : List α} (least : ∀ b ∈ items, le (kind a) (kind b))
    (sorted : items.Pairwise fun x y => le (kind x) (kind y)) :
    items.dropWhile (same a) = items.filter fun b => same b a = false := by
  -- The items of the least kind are passed over until the first one of another kind.
  induction items with
  | nil => rfl
  | cons b rest ih =>
    obtain ⟨leastHere, leastRest⟩ := List.forall_mem_cons.mp least
    obtain ⟨first, sortedRest⟩ := List.pairwise_cons.mp sorted
    by_cases alike : kind b = kind a
    · simp [(byKind a b).mpr alike.symm, (byKind b a).mpr alike, ih leastRest sortedRest]
    · -- A later item of the least kind would put this one between two of that kind.
      have none : ∀ c ∈ b :: rest, same c a = false := by
        rw [List.forall_mem_cons]
        refine ⟨Bool.eq_false_iff.mpr fun holds => alike ((byKind b a).mp holds), ?_⟩
        refine fun c member => Bool.eq_false_iff.mpr fun holds => alike ?_
        exact antisymm _ _ ((byKind c a).mp holds ▸ first c member) leastHere
      have other : same a b = false :=
        Bool.eq_false_iff.mpr fun holds => alike ((byKind a b).mp holds).symm
      rw [List.dropWhile_cons_of_neg (by simp [other])]
      exact (List.filter_eq_self.mpr fun c member => by simpa using none c member).symm

include byKind in
/-- In a sorted list all repetitions are adjacent. -/
theorem eraseRepsBy_eq_eraseDupsBy {le : κ → κ → Prop}
    (antisymm : ∀ x y, le x y → le y x → x = y) {items : List α}
    (sorted : items.Pairwise fun x y => le (kind x) (kind y)) :
    items.eraseRepsBy same = items.eraseDupsBy same := by
  induction items using eraseDupsBy_induction same with
  | nil => rfl
  | cons a rest ih =>
    -- The repetitions of the first item stand right behind it, so both ways leave them out.
    obtain ⟨first, sortedRest⟩ := List.pairwise_cons.mp sorted
    rw [eraseRepsBy_cons, List.eraseDupsBy_cons,
      dropWhile_eq_filter byKind antisymm first sortedRest, ih (sortedRest.filter _)]

end Kinds

/-- Values found at places in order, without repetition: each is found before all later ones. -/
theorem pairwise_places_eraseDups {α : Type} [BEq α] [LawfulBEq α] {places : List (Nat × α)}
    (sorted : places.Pairwise (·.1 ≤ ·.1)) :
    (places.map (·.2)).eraseDups.Pairwise fun x y =>
      ∃ i, (i, x) ∈ places ∧ ∀ j, (j, y) ∈ places → i ≤ j := by
  -- The places that are kept are the first ones of their values, still in order.
  have kept : (places.map (·.2)).eraseDups =
      (places.eraseDupsBy fun x y => x.2 == y.2).map (·.2) :=
    eraseDupsBy_map (fun _ _ => rfl) places
  have byValue : ∀ x y : Nat × α, (x.2 == y.2) = true ↔ x.2 = y.2 := fun _ _ => beq_iff_eq
  rw [kept]
  refine List.pairwise_map.mpr ((sorted.sublist (eraseDupsBy_sublist _ _)).imp_of_mem ?_)
  intro ⟨i, x⟩ ⟨k, y⟩ left leftToo order
  refine ⟨i, mem_of_mem_eraseDupsBy left, fun j place => ?_⟩
  rcases first_of_mem_eraseDupsBy byValue sorted leftToo place rfl with same | later
  · obtain ⟨rfl, -⟩ := Prod.mk.inj same
    exact order
  · exact Nat.le_trans order later

end LockDiscipline
