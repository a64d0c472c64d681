import LockDiscipline.Proofs.Text.Utf8

/-! The order of texts by their bytes in UTF-8 is the order by their characters. -/

namespace LockDiscipline.Text.Utf8

/-- Below a limit, a smaller number is written with smaller bytes, whatever follows them. -/
def OrderedBelow (limit : Nat) (bytes : Nat → List UInt8) : Prop :=
  ∀ n m, n < m → m < limit → ∀ rest others, bytes n ++ rest < bytes m ++ others

/-- Bytes with a common start are ordered as what follows it. -/
theorem append_lt_append_iff (start : List UInt8) {rest others : List UInt8} :
    start ++ rest < start ++ others ↔ rest < others := by
  -- The common bytes are compared first and decide nothing.
  induction start with
  | nil => rfl
  | cons b start ih => simp [ih]

/-- A smaller first byte decides. -/
theorem first_lt {n m : Nat} (less : n % 0x100 < m % 0x100) (rest others : List UInt8) :
    UInt8.ofNat n :: rest < UInt8.ofNat m :: others := by
  -- The bytes that follow are not compared.
  refine List.cons_lt_cons_iff.mpr (.inl ?_)
  rwa [UInt8.lt_iff_toNat_lt, UInt8.toNat_ofNat', UInt8.toNat_ofNat']

/-- A single byte with a number on top of a mark is ordered by that number. -/
theorem orderedBelow_mark (limit mark : Nat) (fits : limit + mark ≤ 0x100) :
    OrderedBelow limit fun n => [UInt8.ofNat (n % limit + mark)] := by
  intro n m less inside rest others
  -- Both numbers are below the limit, and the mark does not carry them past one byte.
  have small : n % limit = n := Nat.mod_eq_of_lt (by omega)
  have large : m % limit = m := Nat.mod_eq_of_lt inside
  exact first_lt (by omega) rest others

/-- One more byte for the lowest six bits keeps the order. -/
theorem OrderedBelow.tail {limit : Nat} {bytes : Nat → List UInt8}
    (ordered : OrderedBelow limit bytes) :
    OrderedBelow (limit * 0x40) fun n =>
      bytes (n / 0x40) ++ [UInt8.ofNat (n % 0x40 + 0x80)] := by
  intro n m less inside rest others
  simp only [List.append_assoc]
  -- The upper bits decide, and only where they agree does the last byte.
  by_cases upper : n / 0x40 < m / 0x40
  · exact ordered _ _ upper (by omega) _ _
  · have same : n / 0x40 = m / 0x40 := by omega
    have lower : n % 0x40 < m % 0x40 := by omega
    rw [same]
    exact (append_lt_append_iff _).mpr (first_lt (by omega) _ _)

/-- The bytes of a smaller character are smaller, whatever follows the two characters. -/
theorem encodeChar_lt {c d : Char} (less : c < d) (rest others : List UInt8) :
    String.utf8EncodeChar c ++ rest < String.utf8EncodeChar d ++ others := by
  have number : c.toNat < d.toNat := less
  have last : d.toNat < 0x110000 := by
    have valid : d.toNat < 0xD800 ∨ 0xDFFF < d.toNat ∧ d.toNat < 0x110000 := d.valid
    omega
  -- Characters with equally many bytes are compared part by part.
  have two := (orderedBelow_mark 0x20 0xC0 (by decide)).tail
  have three := (orderedBelow_mark 0x10 0xE0 (by decide)).tail.tail
  have four := (orderedBelow_mark 8 0xF0 (by decide)).tail.tail.tail
  -- Otherwise the later character has more bytes, and a greater mark in its first byte.
  unfold String.utf8EncodeChar
  simp only [Char.toNat_val]
  split
  · repeat' split
    all_goals exact first_lt (by omega) _ _
  · split
    · split
      · omega
      · split
        · simpa using two c.toNat d.toNat number (by omega) rest others
        · split <;> exact first_lt (by omega) _ _
    · split
      · split
        · omega
        · split
          · omega
          · split
            · simpa [Nat.div_div_eq_div_mul] using
                three c.toNat d.toNat number (by omega) rest others
            · exact first_lt (by omega) _ _
      · split
        · omega
        · split
          · omega
          · split
            · omega
            · simpa [Nat.div_div_eq_div_mul] using
                four c.toNat d.toNat number (by omega) rest others

/-- Texts are ordered by their bytes as they are by their characters. -/
theorem encode_lt_iff {first second : List Char} :
    encode first < encode second ↔ first < second := by
  -- Character by character; the first two that differ decide, and so do their bytes.
  induction first generalizing second with
  | nil =>
    cases second with
    | nil => simp
    | cons d others =>
      obtain ⟨b, rest, shape⟩ := List.exists_cons_of_ne_nil (String.utf8EncodeChar_ne_nil (c := d))
      simp [shape]
  | cons c rest ih =>
    cases second with
    | nil => simp
    | cons d others =>
      rw [encode_cons, encode_cons, List.cons_lt_cons_iff]
      rcases Std.lt_trichotomy c d with less | rfl | greater
      · exact iff_of_true (encodeChar_lt less _ _) (.inl less)
      · -- Equal characters have equal bytes, so the rest decides on both sides.
        rw [append_lt_append_iff, ih]
        simp
      · refine iff_of_false (List.lt_asymm (encodeChar_lt greater _ _)) ?_
        rintro (less | ⟨rfl, -⟩)
        · exact Nat.lt_asymm (show c.toNat < d.toNat from less) greater
        · exact Std.lt_irrefl greater

end LockDiscipline.Text.Utf8
