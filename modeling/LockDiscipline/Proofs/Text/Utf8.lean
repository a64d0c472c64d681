import LockDiscipline.Text.Lines
import LockDiscipline.Text.Utf8

/-! Laws of UTF-8: bytes of a text, their number, and the text read back from them. -/

namespace LockDiscipline.Text.Utf8

/-- No text has no bytes. -/
@[simp] theorem encode_nil : encode [] = [] := rfl

/-- The bytes of a text start with those of its first character. -/
@[simp] theorem encode_cons (c : Char) (text : List Char) :
    encode (c :: text) = String.utf8EncodeChar c ++ encode text := rfl

/-- Texts put together have their bytes put together. -/
@[simp] theorem encode_append (first second : List Char) :
    encode (first ++ second) = encode first ++ encode second :=
  List.flatMap_append

/-- A character of ASCII is written as the byte with its own number. -/
theorem encodeChar_ascii {c : Char} (ascii : c.toNat < 0x80) :
    String.utf8EncodeChar c = [UInt8.ofNat c.toNat] := by
  -- One byte suffices, and the encoder writes the number itself into it.
  have small : c.toNat ≤ 0x7F := by omega
  simp [String.utf8EncodeChar, small]

/-- Every byte of a character beyond ASCII lies beyond ASCII itself. -/
theorem le_of_mem_encodeChar {c : Char} (beyond : 0x80 ≤ c.toNat) {b : UInt8}
    (member : b ∈ String.utf8EncodeChar c) : 0x80 ≤ b := by
  have large : ¬ c.val.toNat ≤ 0x7F := by
    have : 0x80 ≤ c.val.toNat := beyond
    omega
  rw [UInt8.le_iff_toNat_le]
  simp only [String.utf8EncodeChar, if_neg large] at member
  -- Two, three or four bytes: each is a remainder on top of a mark that is 0x80 or more.
  split at member
  · simp only [List.mem_cons, List.not_mem_nil, or_false] at member
    rcases member with rfl | rfl <;> simp <;> omega
  · split at member
    · simp only [List.mem_cons, List.not_mem_nil, or_false] at member
      rcases member with rfl | rfl | rfl <;> simp <;> omega
    · simp only [List.mem_cons, List.not_mem_nil, or_false] at member
      rcases member with rfl | rfl | rfl | rfl <;> simp <;> omega

/-- A byte of ASCII stands only for the character with its number. -/
theorem toNat_of_mem_encodeChar {c : Char} {b : UInt8} (ascii : b < 0x80)
    (member : b ∈ String.utf8EncodeChar c) : c.toNat = b.toNat := by
  -- A character beyond ASCII has no such byte, so only the one-byte case is left.
  by_cases small : c.toNat < 0x80
  · rw [encodeChar_ascii small, List.mem_singleton] at member
    subst member
    simp only [UInt8.toNat_ofNat']
    omega
  · have := le_of_mem_encodeChar (by omega) member
    grind

/-- A byte of ASCII is a whole character, so the text can be cut on both sides of it. -/
theorem encode_eq_append_cons {text : List Char} {lead : List UInt8} {b : UInt8}
    {trail : List UInt8} (ascii : b < 0x80) (cut : encode text = lead ++ b :: trail) :
    ∃ front c back, text = front ++ c :: back ∧ lead = encode front ∧ c.toNat = b.toNat ∧
      trail = encode back := by
  -- The induction walks to the character that holds the byte; it cannot be inside a longer one.
  induction text generalizing lead with
  | nil => simp at cut
  | cons c rest ih =>
    rw [encode_cons, List.append_eq_append_iff] at cut
    rcases cut with ⟨later, shape, others⟩ | ⟨tail, shape, others⟩
    · -- The byte lies behind the first character.
      obtain ⟨front, d, back, rfl, rfl, number, same⟩ := ih others
      exact ⟨c :: front, d, back, rfl, by simp [shape], number, same⟩
    · cases tail with
      | nil =>
        have later : encode rest = [] ++ b :: trail := others.symm
        obtain ⟨front, d, back, rfl, empty, number, same⟩ := ih later
        refine ⟨c :: front, d, back, rfl, ?_, number, same⟩
        rw [encode_cons, ← empty, shape, List.append_nil, List.append_nil]
      | cons first tail =>
        -- The byte is one of the first character, which then has no other.
        obtain ⟨rfl, following⟩ := List.cons.inj others
        have number := toNat_of_mem_encodeChar (c := c) ascii (by simp [shape])
        have small : c.toNat < 0x80 := by
          have : b.toNat < 0x80 := ascii
          omega
        rw [encodeChar_ascii small] at shape
        have count : 1 = lead.length + (tail.length + 1) := by
          simpa using congrArg List.length shape
        obtain rfl : lead = [] := List.eq_nil_of_length_eq_zero (by omega)
        obtain rfl : tail = [] := List.eq_nil_of_length_eq_zero (by omega)
        exact ⟨[], c, rest, rfl, rfl, number, by simpa using following⟩

/-- A byte of ASCII does not occur among the bytes of a text without its character. -/
theorem not_mem_encode {text : List Char} {c : Char} {b : UInt8} (ascii : b < 0x80)
    (number : c.toNat = b.toNat) (absent : c ∉ text) : b ∉ encode text := by
  -- The byte could come only from its own character, which the text lacks.
  intro member
  obtain ⟨d, inText, inChar⟩ := List.mem_flatMap.mp member
  have same : d = c := Char.toNat_inj.mp ((toNat_of_mem_encodeChar ascii inChar).trans number.symm)
  exact absent (same ▸ inText)

/-- A byte of ASCII occurs as often as its character. -/
theorem count_encode {c : Char} {b : UInt8} (ascii : b < 0x80) (number : c.toNat = b.toNat)
    (text : List Char) : (encode text).count b = text.count c := by
  induction text with
  | nil => rfl
  | cons d rest ih =>
    rw [encode_cons, List.count_append, ih]
    by_cases same : d = c
    · -- The character itself is written as the byte.
      subst same
      have small : d.toNat < 0x80 := number ▸ ascii
      rw [encodeChar_ascii small, number, UInt8.ofNat_toNat, List.count_singleton_self,
        List.count_cons_self]
      exact Nat.add_comm 1 _
    · have absent : b ∉ String.utf8EncodeChar d := fun member =>
        same (Char.toNat_inj.mp ((toNat_of_mem_encodeChar ascii member).trans number.symm))
      rw [List.count_eq_zero_of_not_mem absent, List.count_cons_of_ne same, Nat.zero_add]

/-- A byte of ASCII comes first only if its character does. -/
theorem head?_encode_cons_ne {c d : Char} {b : UInt8} (ascii : b < 0x80)
    (number : c.toNat = b.toNat) (other : d ≠ c) (text : List Char) (ahead : List UInt8) :
    (encode (d :: text) ++ ahead).head? ≠ some b := by
  -- The first byte belongs to the first character, so an ASCII byte names that character.
  intro first
  have inhabited : String.utf8EncodeChar d ≠ [] := String.utf8EncodeChar_ne_nil
  obtain ⟨opening, others, shape⟩ := List.exists_cons_of_ne_nil inhabited
  rw [encode_cons, shape] at first
  obtain rfl : opening = b := by simpa using first
  have same := toNat_of_mem_encodeChar (c := d) ascii (by simp [shape])
  exact other (Char.toNat_inj.mp (same.trans number.symm))

/-- The bytes of a text are counted character by character. -/
theorem length_encode (text : List Char) : (encode text).length = byteSize text := by
  -- The encoder writes for each character as many bytes as its size says.
  induction text with
  | nil => rfl
  | cons c rest ih =>
    rw [encode_cons, List.length_append, ih, String.length_utf8EncodeChar]
    rfl

/-- The first byte of a character of two bytes. -/
theorem lead_two {b : UInt8} (low : 0xC2 ≤ b) (high : b ≤ 0xDF) :
    lead b = .partly ⟨b.toNat % 0x20, 1, 0x80, 0xBF⟩ := by
  -- The range excludes ASCII, and the decoder tests no range before this one.
  have notAscii : ¬ b < 0x80 := by grind
  simp [lead, notAscii, low, high]

/-- The first byte of a character of three bytes; two such bytes narrow the range of the second. -/
theorem lead_three {b : UInt8} (low : 0xE0 ≤ b) (high : b ≤ 0xEF) :
    lead b = .partly ⟨b.toNat % 0x10, 2, if b = 0xE0 then 0xA0 else 0x80,
      if b = 0xED then 0x9F else 0xBF⟩ := by
  -- The two bytes at special places are checked one by one; the others share one branch.
  have notAscii : ¬ b < 0x80 := by grind
  have notTwo : ¬ b ≤ 0xDF := by grind
  by_cases first : b = 0xE0
  · subst first; rfl
  · by_cases surrogate : b = 0xED
    · subst surrogate; rfl
    · have between : 0xE1 ≤ b := by grind
      simp [lead, notAscii, notTwo, first, surrogate, between, high]

/-- The first byte of a character of four bytes; two such bytes narrow the range of the second. -/
theorem lead_four {b : UInt8} (low : 0xF0 ≤ b) (high : b ≤ 0xF4) :
    lead b = .partly ⟨b.toNat % 8, 3, if b = 0xF0 then 0x90 else 0x80,
      if b = 0xF4 then 0x8F else 0xBF⟩ := by
  -- As for three bytes, the ends of the range are apart from its middle.
  have notAscii : ¬ b < 0x80 := by grind
  have notTwo : ¬ b ≤ 0xDF := by grind
  have notThree : ¬ b ≤ 0xEF := by grind
  by_cases first : b = 0xF0
  · subst first; rfl
  · by_cases last : b = 0xF4
    · subst last; rfl
    · have above : 0xF1 ≤ b := by grind
      have below : b ≤ 0xF3 := by grind
      have notE0 : b ≠ 0xE0 := by grind
      have notED : b ≠ 0xED := by grind
      simp [lead, notAscii, notTwo, notThree, first, last, above, below, notE0, notED]

/-- A continuation byte within its range adds its six bits to the character under way. -/
theorem decodeFrom_tail (pending : Pending) (n : Nat) (rest : List UInt8)
    (low : pending.low.toNat ≤ n % 0x40 + 0x80) (high : n % 0x40 + 0x80 ≤ pending.high.toNat) :
    decodeFrom (some pending) (UInt8.ofNat (n % 0x40 + 0x80) :: rest) =
      if pending.missing ≤ 1 then
        Char.ofNat (pending.bits * 0x40 + n % 0x40) :: decodeFrom none rest
      else
        decodeFrom (some ⟨pending.bits * 0x40 + n % 0x40, pending.missing - 1, 0x80, 0xBF⟩)
          rest := by
  -- The mark of a continuation byte drops out of the remainder that the decoder takes.
  have value : (UInt8.ofNat (n % 0x40 + 0x80)).toNat = n % 0x40 + 0x80 := by
    simp only [UInt8.toNat_ofNat']
    omega
  have within : pending.low ≤ UInt8.ofNat (n % 0x40 + 0x80) ∧
      UInt8.ofNat (n % 0x40 + 0x80) ≤ pending.high := by
    rw [UInt8.le_iff_toNat_le, UInt8.le_iff_toNat_le, value]
    exact ⟨low, high⟩
  have bits : (n % 0x40 + 0x80) % 0x40 = n % 0x40 := by omega
  -- The byte is named, so that its sum form does not come apart again.
  generalize UInt8.ofNat (n % 0x40 + 0x80) = b at value within
  simp [decodeFrom, within, value, bits]

/-- A character of two bytes is read back. -/
theorem decodeFrom_two {n : Nat} (low : 0x80 ≤ n) (high : n ≤ 0x7FF) (rest : List UInt8) :
    decodeFrom none
        (UInt8.ofNat (n / 0x40 % 0x20 + 0xC0) :: UInt8.ofNat (n % 0x40 + 0x80) :: rest) =
      Char.ofNat n :: decodeFrom none rest := by
  -- The first byte gives the upper five bits and the second the lower six.
  have first : lead (UInt8.ofNat (n / 0x40 % 0x20 + 0xC0)) = .partly ⟨n / 0x40, 1, 0x80, 0xBF⟩ := by
    rw [lead_two (by simp [UInt8.le_iff_toNat_le]; omega) (by simp [UInt8.le_iff_toNat_le]; omega)]
    simp
    omega
  have bits : n / 0x40 * 0x40 + n % 0x40 = n := by omega
  rw [decodeFrom, first]
  dsimp only
  rw [decodeFrom_tail _ _ _ (by simp) (by simp; omega)]
  simp [bits]

/-- A character of three bytes is read back; numbers of surrogates, which are none, are not. -/
theorem decodeFrom_three {n : Nat} (low : 0x800 ≤ n) (high : n ≤ 0xFFFF)
    (valid : n < 0xD800 ∨ 0xDFFF < n) (rest : List UInt8) :
    decodeFrom none
        (UInt8.ofNat (n / 0x1000 % 0x10 + 0xE0) :: UInt8.ofNat (n / 0x40 % 0x40 + 0x80) ::
          UInt8.ofNat (n % 0x40 + 0x80) :: rest) =
      Char.ofNat n :: decodeFrom none rest := by
  -- Four, six and six bits; only the first byte decides which second bytes are allowed.
  have value : (UInt8.ofNat (n / 0x1000 % 0x10 + 0xE0)).toNat = n / 0x1000 + 0xE0 := by
    simp only [UInt8.toNat_ofNat']
    omega
  have first := lead_three (b := UInt8.ofNat (n / 0x1000 % 0x10 + 0xE0))
    (by simp [UInt8.le_iff_toNat_le]; omega) (by simp [UInt8.le_iff_toNat_le]; omega)
  have bits : ((n / 0x1000 + 0xE0) % 0x10 * 0x40 + n / 0x40 % 0x40) * 0x40 + n % 0x40 = n := by
    omega
  rw [decodeFrom, first]
  dsimp only
  simp only [← UInt8.toNat_inj, value]
  rw [decodeFrom_tail, if_neg (by simp), decodeFrom_tail _ _ _ (by simp) (by simp; omega)]
  · simp [bits]
  -- The second byte is in range: no overlong form at its lower end, no surrogate at its upper.
  · simp only
    split <;> simp at *
    omega
  · simp only
    split <;> simp at * <;> omega

/-- A character of four bytes is read back. -/
theorem decodeFrom_four {n : Nat} (low : 0x10000 ≤ n) (high : n < 0x110000) (rest : List UInt8) :
    decodeFrom none
        (UInt8.ofNat (n / 0x40000 % 8 + 0xF0) :: UInt8.ofNat (n / 0x1000 % 0x40 + 0x80) ::
          UInt8.ofNat (n / 0x40 % 0x40 + 0x80) :: UInt8.ofNat (n % 0x40 + 0x80) :: rest) =
      Char.ofNat n :: decodeFrom none rest := by
  -- Three, six, six and six bits, again with a narrower range for some second bytes.
  have value : (UInt8.ofNat (n / 0x40000 % 8 + 0xF0)).toNat = n / 0x40000 + 0xF0 := by
    simp only [UInt8.toNat_ofNat']
    omega
  have first := lead_four (b := UInt8.ofNat (n / 0x40000 % 8 + 0xF0))
    (by simp [UInt8.le_iff_toNat_le]; omega) (by simp [UInt8.le_iff_toNat_le]; omega)
  have bits : (((n / 0x40000 + 0xF0) % 8 * 0x40 + n / 0x1000 % 0x40) * 0x40 + n / 0x40 % 0x40) *
      0x40 + n % 0x40 = n := by omega
  rw [decodeFrom, first]
  dsimp only
  simp only [← UInt8.toNat_inj, value]
  rw [decodeFrom_tail, if_neg (by simp), decodeFrom_tail _ _ _ (by simp) (by simp; omega),
    if_neg (by simp), decodeFrom_tail _ _ _ (by simp) (by simp; omega)]
  · simp [bits]
  -- The second byte is in range: no overlong form at its lower end, no number past the last.
  · simp only
    split <;> simp at *
    omega
  · simp only
    split <;> simp at * <;> omega

/-- The bytes of a character are read back as that character, whatever follows them. -/
theorem decodeFrom_encodeChar (c : Char) (rest : List UInt8) :
    decodeFrom none (String.utf8EncodeChar c ++ rest) = c :: decodeFrom none rest := by
  have valid : c.toNat < 0xD800 ∨ 0xDFFF < c.toNat ∧ c.toNat < 0x110000 := c.valid
  have same : Char.ofNat c.toNat = c := Char.ofNat_toNat c
  unfold String.utf8EncodeChar
  simp only [Char.toNat_val]
  -- The encoder chooses one to four bytes by the number of the character.
  split
  · have ascii : UInt8.ofNat c.toNat < 0x80 := by
      simp [UInt8.lt_iff_toNat_lt]
      omega
    have value : (UInt8.ofNat c.toNat).toNat = c.toNat := by
      simp only [UInt8.toNat_ofNat']
      omega
    simp [decodeFrom, lead, ascii, value]
  · split
    · simpa [same] using decodeFrom_two (n := c.toNat) (by omega) (by omega) rest
    · split
      · simpa [same] using decodeFrom_three (n := c.toNat) (by omega) (by omega) (by omega) rest
      · simpa [same] using decodeFrom_four (n := c.toNat) (by omega) (by omega) rest

/-- A text is read back from its bytes, whatever follows them. -/
theorem decode_encode_append (text : List Char) (rest : List UInt8) :
    decode (encode text ++ rest) = text ++ decode rest := by
  -- The decoder is between characters after each of them, so the induction is on characters.
  unfold decode
  induction text with
  | nil => rfl
  | cons c others ih =>
    rw [encode_cons, List.append_assoc, decodeFrom_encodeChar, ih, List.cons_append]

/-- A text is read back from its bytes, with nothing replaced. -/
theorem decode_encode (text : List Char) : decode (encode text) = text := by
  -- Nothing is left over behind the text.
  simpa [decode, decodeFrom] using decode_encode_append text []

/-- A phrase that opens with a character of ASCII occurs in a text if its bytes do. -/
theorem infix_of_encode {c : Char} {phrase text : List Char} (ascii : c.toNat < 0x80)
    (occurs : encode (c :: phrase) <:+: encode text) : c :: phrase <:+: text := by
  -- The opening byte fixes a cut between characters; from there on the bytes are decoded.
  obtain ⟨lead, trail, cut⟩ := occurs
  have value : (UInt8.ofNat c.toNat).toNat = c.toNat := by
    simp only [UInt8.toNat_ofNat']
    omega
  have small : UInt8.ofNat c.toNat < 0x80 := by
    rw [UInt8.lt_iff_toNat_lt, value]
    exact ascii
  rw [encode_cons, encodeChar_ascii ascii, List.append_assoc, List.singleton_append,
    List.cons_append] at cut
  obtain ⟨front, d, back, rfl, -, number, same⟩ := encode_eq_append_cons small cut.symm
  have opens : d = c := Char.toNat_inj.mp (number.trans value)
  have others : back = phrase ++ decode trail := by
    rw [← decode_encode back, ← same, decode_encode_append]
  exact ⟨front, decode trail, by simp [opens, others]⟩

end LockDiscipline.Text.Utf8
