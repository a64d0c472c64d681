/-! UTF-8: encoding, and a lenient decoder that replaces each ill-formed run by one U+FFFD. -/

namespace LockDiscipline.Text.Utf8

/-- The bytes of a text. -/
def encode (text : List Char) : List UInt8 :=
  text.flatMap String.utf8EncodeChar

/-- The character shown in place of bytes that are no UTF-8. -/
def replacement : Char := '\uFFFD'

/-- A character of which some bytes are still missing. -/
structure Pending where
  /-- The bits collected so far. -/
  bits : Nat
  /-- How many continuation bytes are missing. -/
  missing : Nat
  /-- The least value of the next byte. -/
  low : UInt8
  /-- The greatest value of the next byte. -/
  high : UInt8
deriving DecidableEq, Repr

/-- What a byte means between characters: a whole character, the start of one, or nothing. -/
inductive Lead where
  | whole (c : Char)
  | partly (pending : Pending)
  | stray
deriving DecidableEq, Repr

/-- Reads the first byte of a character; overlong forms and surrogates are excluded here. -/
def lead (b : UInt8) : Lead :=
  if b < 0x80 then .whole (Char.ofNat b.toNat)
  else if 0xC2 ≤ b && b ≤ 0xDF then .partly ⟨b.toNat % 0x20, 1, 0x80, 0xBF⟩
  else if b == 0xE0 then .partly ⟨0, 2, 0xA0, 0xBF⟩
  else if b == 0xED then .partly ⟨0xD, 2, 0x80, 0x9F⟩
  else if 0xE1 ≤ b && b ≤ 0xEF then .partly ⟨b.toNat % 0x10, 2, 0x80, 0xBF⟩
  else if b == 0xF0 then .partly ⟨0, 3, 0x90, 0xBF⟩
  else if 0xF1 ≤ b && b ≤ 0xF3 then .partly ⟨b.toNat % 8, 3, 0x80, 0xBF⟩
  else if b == 0xF4 then .partly ⟨4, 3, 0x80, 0x8F⟩
  else .stray

/-- Decodes bytes that may be ill-formed, given the character under way. -/
def decodeFrom : Option Pending → List UInt8 → List Char
  | none, [] => []
  | some _, [] => [replacement]
  | none, b :: rest =>
    match lead b with
    | .whole c => c :: decodeFrom none rest
    | .partly pending => decodeFrom (some pending) rest
    | .stray => replacement :: decodeFrom none rest
  | some pending, b :: rest =>
    if pending.low ≤ b && b ≤ pending.high then
      let bits := pending.bits * 0x40 + b.toNat % 0x40
      if pending.missing ≤ 1 then Char.ofNat bits :: decodeFrom none rest
      else decodeFrom (some ⟨bits, pending.missing - 1, 0x80, 0xBF⟩) rest
    else
      -- The run so far is ill-formed, and this byte is read again as a first byte.
      match lead b with
      | .whole c => replacement :: c :: decodeFrom none rest
      | .partly next => replacement :: decodeFrom (some next) rest
      | .stray => replacement :: replacement :: decodeFrom none rest

/-- The text of bytes that may be ill-formed. -/
def decode (bytes : List UInt8) : List Char :=
  decodeFrom none bytes

/-- Whether bytes are the encoding of some text. -/
def isWellFormed (bytes : List UInt8) : Bool :=
  encode (decode bytes) == bytes

end LockDiscipline.Text.Utf8
