import LockDiscipline.Files.Path

/-! The order of paths: that of their components, one after the other, and total up to spelling. -/

namespace LockDiscipline

namespace Component

/-- Components go by their kinds, and those of one kind by their spellings. -/
theorem precedes_iff (x y : Component) :
    x.precedes y = true ↔ x.rank < y.rank ∨ x.rank = y.rank ∧ x.spelling < y.spelling := by
  -- There are few kinds of components, and names are the only ones with spellings of their own.
  cases x <;> cases y <;> simp [precedes, rank, spelling]

/-- Components of one kind with one spelling are equal. -/
theorem eq_of_spelling {x y : Component} (kind : x.rank = y.rank)
    (alike : x.spelling = y.spelling) : x = y := by
  -- Within a kind, the spelling is all that a component has.
  cases x <;> cases y <;> simp_all [rank, spelling]

/-- Components precede one another in one direction only. -/
theorem precedes_asymm {x y : Component} (first : x.precedes y = true) :
    ¬ y.precedes x = true := by
  -- Neither a rank nor a spelling is below another one and above it.
  rw [precedes_iff] at first ⊢
  rintro (order | ⟨kind, order⟩)
  · omega
  · rcases first with first | ⟨-, first⟩
    · omega
    · exact String.lt_asymm first order

/-- What comes before an earlier component comes before a later one. -/
theorem precedes_trans {x y z : Component} (first : x.precedes y = true)
    (second : y.precedes z = true) : x.precedes z = true := by
  -- The kinds decide unless they agree, and then the spellings do.
  rw [precedes_iff] at first second ⊢
  rcases first with first | ⟨kind, first⟩
  · exact .inl (by omega)
  · rcases second with second | ⟨kindToo, second⟩
    · exact .inl (by omega)
    · exact .inr ⟨kind.trans kindToo, String.lt_trans first second⟩

/-- Of two different components, one precedes the other. -/
theorem precedes_of_not_precedes {x y : Component} (differ : x ≠ y)
    (not : ¬ x.precedes y = true) : y.precedes x = true := by
  -- Not before by kind and not before by spelling leaves the same kind or a later one.
  rw [precedes_iff] at not ⊢
  obtain ⟨notKind, notSpelling⟩ := not_or.mp not
  rcases Nat.lt_or_eq_of_le (Nat.le_of_not_lt notKind) with less | same
  · exact .inl less
  · refine .inr ⟨same, ?_⟩
    -- With one kind, the spellings are different, so one of them is less.
    have notLess : ¬ x.spelling < y.spelling := fun less => notSpelling ⟨same.symm, less⟩
    refine Classical.byContradiction fun notMore => differ (eq_of_spelling same.symm ?_)
    exact String.le_antisymm (String.not_lt.mp notMore) (String.not_lt.mp notLess)

end Component

namespace Path

/-- Lists that start differently are ordered by their first components. -/
theorem componentsLe_of_ne {x y : Component} (differ : x ≠ y) (xs ys : List Component) :
    componentsLe (x :: xs) (y :: ys) = x.precedes y := by
  -- The comparison looks at the first pair that differs.
  rw [componentsLe, if_neg differ]

/-- Lists that start alike are ordered by the rest. -/
theorem componentsLe_cons_self (x : Component) (xs ys : List Component) :
    componentsLe (x :: xs) (x :: ys) = componentsLe xs ys := by
  -- Equal components are passed over.
  rw [componentsLe, if_pos rfl]

/-- Of two lists of components, one is at most the other. -/
theorem componentsLe_total (xs ys : List Component) :
    (componentsLe xs ys || componentsLe ys xs) = true := by
  -- The first components decide where they differ; where they agree, the rest does.
  induction xs generalizing ys with
  | nil => rfl
  | cons x xs ih =>
    cases ys with
    | nil => rfl
    | cons y ys =>
      by_cases alike : x = y
      · subst alike
        simpa only [componentsLe_cons_self] using ih ys
      · rw [componentsLe_of_ne alike, componentsLe_of_ne (Ne.symm alike), Bool.or_eq_true]
        by_cases order : x.precedes y = true
        · exact .inl order
        · exact .inr (Component.precedes_of_not_precedes alike order)

/-- Lists of components that are at most each other are equal. -/
theorem componentsLe_antisymm {xs ys : List Component} (first : componentsLe xs ys = true)
    (second : componentsLe ys xs = true) : xs = ys := by
  -- Different first components cannot each precede the other, so all of them agree.
  induction xs generalizing ys with
  | nil =>
    cases ys with
    | nil => rfl
    | cons y ys => simp [componentsLe] at second
  | cons x xs ih =>
    cases ys with
    | nil => simp [componentsLe] at first
    | cons y ys =>
      by_cases alike : x = y
      · subst alike
        rw [componentsLe_cons_self] at first second
        rw [ih first second]
      · rw [componentsLe_of_ne alike] at first
        rw [componentsLe_of_ne (Ne.symm alike)] at second
        exact absurd second (Component.precedes_asymm first)

/-- The order of lists of components is transitive. -/
theorem componentsLe_trans {xs ys zs : List Component} (first : componentsLe xs ys = true)
    (second : componentsLe ys zs = true) : componentsLe xs zs = true := by
  -- One induction on the first list; the others are taken apart along with it.
  induction xs generalizing ys zs with
  | nil => rfl
  | cons x xs ih =>
    cases ys with
    | nil => simp [componentsLe] at first
    | cons y ys =>
      cases zs with
      | nil => simp [componentsLe] at second
      | cons z zs =>
        -- The first component at which two of the lists differ decides.
        by_cases alike : x = y
        · subst alike
          by_cases alikeToo : x = z
          · subst alikeToo
            rw [componentsLe_cons_self] at first second ⊢
            exact ih first second
          · rw [componentsLe_of_ne alikeToo] at second ⊢
            exact second
        · rw [componentsLe_of_ne alike] at first
          by_cases alikeToo : y = z
          · subst alikeToo
            rwa [componentsLe_of_ne alike]
          · rw [componentsLe_of_ne alikeToo] at second
            have onward := Component.precedes_trans first second
            have differ : x ≠ z := by
              rintro rfl
              exact Component.precedes_asymm first second
            rwa [componentsLe_of_ne differ]

/-- Of two paths, one is at most the other. -/
theorem le_total (p q : Path) : (p.le q || q.le p) = true :=
  -- Paths are compared by their components.
  componentsLe_total p.components q.components

/-- The order of paths is transitive. -/
theorem le_trans (p q r : Path) (first : p.le q = true) (second : q.le r = true) :
    p.le r = true :=
  componentsLe_trans first second

/-- Paths are the same exactly if their components are. -/
theorem sameAs_iff (p q : Path) : p.sameAs q = true ↔ p.components = q.components := by
  simp [sameAs]

/-- A path comes strictly before another one in the order of paths. -/
def Precedes (p q : Path) : Prop :=
  p.le q = true ∧ p.components ≠ q.components

instance (p q : Path) : Decidable (p.Precedes q) :=
  inferInstanceAs (Decidable (_ ∧ _))

end Path

end LockDiscipline
