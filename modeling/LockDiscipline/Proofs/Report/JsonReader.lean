import LockDiscipline.Proofs.Text.CharClass
import LockDiscipline.Report.JsonValue
import LockDiscipline.Toml.Scalar

/-! Reading JSON texts, and the law that every printed value is read back as it was. -/

namespace LockDiscipline.JsonReader

open JsonValue

/-- White space between the parts of a text. -/
def isSpace (c : Char) : Bool :=
  c == ' ' || c == '\n' || c == '\r' || c == '\t'

/-- The text after white space. -/
def skipSpace (text : List Char) : List Char :=
  text.dropWhile isSpace

/-- Escapes of one letter. -/
def letterEscape? : Char → Option Char
  | '"' => some '"'
  | '\\' => some '\\'
  | '/' => some '/'
  | 'b' => some '\x08'
  | 'f' => some '\x0c'
  | 'n' => some '\n'
  | 'r' => some '\r'
  | 't' => some '\t'
  | _ => none

/--
The codes in a string after its opening quote, and the text after its closing quote.

An escape of four digits may give only half of a character.
-/
def codes? : List Char → Option (List Nat × List Char)
  | [] => none
  | '"' :: rest => some ([], rest)
  | '\\' :: 'u' :: a :: b :: c :: d :: rest =>
    (Toml.digitsValue? 16 [a, b, c, d]).bind fun code => (codes? rest).map (.map (code :: ·) id)
  | '\\' :: letter :: rest =>
    (letterEscape? letter).bind fun c => (codes? rest).map (.map (c.toNat :: ·) id)
  | c :: rest =>
    if c == '\\' || c.toNat < 0x20 then none
    else (codes? rest).map (.map (c.toNat :: ·) id)

/-- Whether a code is the first half of a character beyond 16 bits. -/
def isHighHalf (code : Nat) : Bool :=
  0xD800 ≤ code && code < 0xDC00

/-- Whether a code is the second half of a character beyond 16 bits. -/
def isLowHalf (code : Nat) : Bool :=
  0xDC00 ≤ code && code < 0xE000

/-- The characters of codes; halves count only in pairs. -/
def characters? : List Nat → Option (List Char)
  | [] => some []
  | [code] => if isHighHalf code || isLowHalf code then none else some [Char.ofNat code]
  | code :: next :: rest =>
    if isHighHalf code && isLowHalf next then
      (characters? rest).map
        (Char.ofNat (0x10000 + (code - 0xD800) * 0x400 + (next - 0xDC00)) :: ·)
    else if isHighHalf code || isLowHalf code then none
    else (characters? (next :: rest)).map (Char.ofNat code :: ·)

/-- A string after its opening quote, and the text after its closing quote. -/
def string? (text : List Char) : Option (String × List Char) := do
  let (codes, rest) ← codes? text
  let characters ← characters? codes
  return (String.ofList characters, rest)

/-- A natural number without needless zeros in front, and the text after it. -/
def number? (text : List Char) : Option (Nat × List Char) :=
  let digits := text.takeWhile Char.isDigit
  if digits.isEmpty || (digits.head? == some '0' && digits.length != 1) then none
  else some (Nat.ofDigitChars 10 digits 0, text.dropWhile Char.isDigit)

mutual

/-- A value, and the text after it. -/
def value? : (fuel : Nat) → List Char → Option (JsonValue × List Char)
  | 0, _ => none
  | fuel + 1, text =>
    match skipSpace text with
    | '"' :: rest => (string? rest).map fun (text, rest) => (.string text, rest)
    | '[' :: rest =>
      match skipSpace rest with
      | ']' :: rest => some (.array [], rest)
      | rest => (items? fuel rest).map fun (items, rest) => (.array items, rest)
    | '\x7b' :: rest =>
      match skipSpace rest with
      | '\x7d' :: rest => some (.object [], rest)
      | rest => (fields? fuel rest).map fun (fields, rest) => (.object fields, rest)
    | rest => (number? rest).map fun (value, rest) => (.number value, rest)

/-- The items of an array, at least one of them, and the text after its closing bracket. -/
def items? : (fuel : Nat) → List Char → Option (List JsonValue × List Char)
  | 0, _ => none
  | fuel + 1, text => do
    let (item, rest) ← value? fuel text
    match skipSpace rest with
    | ',' :: rest => (items? fuel rest).map fun (items, rest) => (item :: items, rest)
    | ']' :: rest => some ([item], rest)
    | _ => none

/-- The fields of an object, at least one of them, and the text after its closing brace. -/
def fields? : (fuel : Nat) → List Char → Option (List (String × JsonValue) × List Char)
  | 0, _ => none
  | fuel + 1, text =>
    match skipSpace text with
    | '"' :: rest => do
      let (key, rest) ← string? rest
      match skipSpace rest with
      | ':' :: rest =>
        let (value, rest) ← value? fuel rest
        match skipSpace rest with
        | ',' :: rest =>
          (fields? fuel rest).map fun (fields, rest) => ((key, value) :: fields, rest)
        | '\x7d' :: rest => some ([(key, value)], rest)
        | _ => none
      | _ => none
    | _ => none

end

/-- The value that a whole text stands for; every value uses up some of the text. -/
def read? (text : String) : Option JsonValue := do
  let (value, rest) ← value? text.toList.length text.toList
  if (skipSpace rest).isEmpty then some value else none

/-- The number of a control character is read from the four digits it is written with. -/
theorem digitsValue?_control {code : Nat} (control : code < 0x20) :
    Toml.digitsValue? 16 ['0', '0', hexDigit (code / 16), hexDigit (code % 16)] = some code := by
  -- There are few control characters, so the table of them is gone through.
  have table : ∀ code < 0x20, Toml.digitsValue? 16
      ['0', '0', hexDigit (code / 16), hexDigit (code % 16)] = some code := by decide
  exact table code control

/-- A character that needs no escape is read as it is. -/
theorem codes?_plain {c : Char} (noQuote : c ≠ '"') (noBackslash : c ≠ '\\')
    (noControl : ¬ c.toNat < 0x20) (rest : List Char) :
    codes? (c :: rest) = (codes? rest).map (.map (c.toNat :: ·) id) := by
  -- A plain character matches none of the escapes that the reader looks for first.
  rw [codes?]
  · simp [noBackslash, noControl]
  · exact noQuote
  · simp [noBackslash]
  · simp [noBackslash]

/-- A character is read from what is written for it in a string. -/
theorem codes?_escapeChar (c : Char) (rest : List Char) :
    codes? (escapeChar c ++ rest) = (codes? rest).map (.map (c.toNat :: ·) id) := by
  -- One case for each way to write a character, in the order of the printer.
  unfold escapeChar
  simp only [beq_iff_eq]
  by_cases quote : c = '"'
  · subst quote; rfl
  by_cases backslash : c = '\\'
  · subst backslash; rfl
  by_cases lineBreak : c = '\n'
  · subst lineBreak; rfl
  by_cases carriageReturn : c = '\r'
  · subst carriageReturn; rfl
  by_cases tab : c = '\t'
  · subst tab; rfl
  by_cases backspace : c = '\x08'
  · subst backspace; rfl
  by_cases formFeed : c = '\x0c'
  · subst formFeed; rfl
  -- What is left is a control character by its number, or a plain character.
  by_cases control : c.toNat < 0x20
  · simp only [quote, backslash, lineBreak, carriageReturn, tab, backspace, formFeed, control,
      if_true, if_false, List.cons_append, List.nil_append, codes?, digitsValue?_control control,
      Option.bind_some]
  · simp only [quote, backslash, lineBreak, carriageReturn, tab, backspace, formFeed, control,
      if_false]
    exact codes?_plain quote backslash control rest

/-- Codes of characters stand for those characters. -/
theorem characters?_map_toNat (text : List Char) :
    characters? (text.map Char.toNat) = some text := by
  -- No character has the code of a half.
  have whole : ∀ c : Char, isHighHalf c.toNat = false ∧ isLowHalf c.toNat = false := by
    intro c
    have valid : c.toNat < 0xD800 ∨ 0xDFFF < c.toNat ∧ c.toNat < 0x110000 := c.valid
    simp only [isHighHalf, isLowHalf, Bool.and_eq_false_iff, decide_eq_false_iff_not]
    omega
  induction text with
  | nil => rfl
  | cons c rest ih =>
    cases rest with
    | nil => simp [characters?, whole c]
    | cons d others =>
      rw [List.map_cons] at ih
      simp [characters?, whole c, ih]

/-- A quoted text is read up to its closing quote. -/
theorem codes?_quoted (text rest : List Char) :
    codes? (text.flatMap escapeChar ++ '"' :: rest) = some (text.map Char.toNat, rest) := by
  -- Character by character, up to the quote that was not escaped.
  induction text with
  | nil => rfl
  | cons c others ih =>
    rw [List.flatMap_cons, List.append_assoc, codes?_escapeChar, ih]
    rfl

/-- A string is read back from its quoted form, behind the opening quote. -/
theorem string?_quoted (text : String) (rest : List Char) :
    string? (text.toList.flatMap escapeChar ++ '"' :: rest) = some (text, rest) := by
  -- The codes of the characters are read first and put together again.
  rw [string?, codes?_quoted]
  simp [characters?_map_toNat]

/-- A text that does not go on with a digit. -/
def EndsNumber (text : List Char) : Prop :=
  ∀ c ∈ text.head?, c.isDigit = false

/-- Only the number zero is written with a zero in front. -/
theorem eq_zero_of_head?_toDigits {n : Nat} (zero : (Nat.toDigits 10 n).head? = some '0') :
    n = 0 := by
  -- The first digit of a larger number is the first digit of its tenth part.
  induction n using Nat.strongRecOn with
  | ind n ih =>
    by_cases small : n < 10
    · have table : ∀ n < 10, n.digitChar = '0' → n = 0 := by decide
      rw [Nat.toDigits_of_lt_base small] at zero
      exact table n small (by simpa using zero)
    · rw [Nat.toDigits_of_base_le (by decide) (by omega), List.head?_append,
        List.head?_eq_some_head Nat.toDigits_ne_nil, Option.some_or,
        ← List.head?_eq_some_head] at zero
      have tenth := ih (n / 10) (by omega) zero
      omega

/-- A number is read back from its digits. -/
theorem number?_toString (n : Nat) {rest : List Char} (ends : EndsNumber rest) :
    number? ((toString n).toList ++ rest) = some (n, rest) := by
  have written : (toString n).toList = Nat.toDigits 10 n := by
    rw [Nat.toString_eq_ofList_toDigits, String.toList_ofList]
  -- The digits are all taken, because what follows is no digit.
  have digits : ∀ c ∈ Nat.toDigits 10 n, c.isDigit = true := fun c =>
    Nat.isDigit_of_mem_toDigits (by decide) (by decide)
  have taken : (Nat.toDigits 10 n ++ rest).takeWhile Char.isDigit = Nat.toDigits 10 n :=
    Text.takeWhile_run digits ends
  have left : (Nat.toDigits 10 n ++ rest).dropWhile Char.isDigit = rest :=
    Text.dropWhile_run digits ends
  -- A number may start with a zero only if it is the zero.
  have plain : ((Nat.toDigits 10 n).isEmpty || ((Nat.toDigits 10 n).head? == some '0' &&
      (Nat.toDigits 10 n).length != 1)) = false := by
    by_cases zero : (Nat.toDigits 10 n).head? = some '0'
    · obtain rfl := eq_zero_of_head?_toDigits zero
      decide
    · simp [zero, Nat.toDigits_ne_nil]
  simp only [number?, written, taken, left, plain, Nat.ofDigitChars_ten_toDigits]
  rfl

/-- White space in front of a text is skipped. -/
theorem skipSpace_newLine (level : Nat) (rest : List Char) :
    skipSpace (newLine level ++ rest) = skipSpace rest := by
  -- A line break and spaces are all that is in front.
  have blank : ∀ c ∈ newLine level, isSpace c = true := by
    intro c member
    rcases List.mem_cons.mp member with rfl | indent
    · rfl
    · obtain rfl := List.eq_of_mem_replicate indent
      rfl
  exact List.dropWhile_append_of_pos blank

/-- Nothing is skipped of a text that does not start with white space. -/
theorem skipSpace_cons {c : Char} (solid : isSpace c = false) (rest : List Char) :
    skipSpace (c :: rest) = c :: rest := by
  -- The first character is kept, and with it the rest.
  rw [skipSpace, List.dropWhile_cons, solid]
  rfl

/-- A comma is not skipped. -/
theorem skipSpace_comma (rest : List Char) : skipSpace (',' :: rest) = ',' :: rest :=
  skipSpace_cons rfl rest

/-- A colon is not skipped. -/
theorem skipSpace_colon (rest : List Char) : skipSpace (':' :: rest) = ':' :: rest :=
  skipSpace_cons rfl rest

/-- A digit differs from every character that is none. -/
theorem ne_of_isDigit {c : Char} (digit : c.isDigit = true) (d : Char) (mark : d.isDigit = false) :
    c ≠ d := by
  -- Equal characters are digits alike.
  rintro rfl
  exact absurd digit (by simp [mark])

/-- The digits of a number start with a digit. -/
theorem exists_toString_cons (n : Nat) :
    ∃ c rest, (toString n).toList = c :: rest ∧ c.isDigit = true := by
  -- A number has a digit at least, and all that it is written with are digits.
  rw [Nat.toString_eq_ofList_toDigits, String.toList_ofList]
  obtain ⟨c, rest, shape⟩ := List.exists_cons_of_ne_nil (Nat.toDigits_ne_nil (b := 10) (n := n))
  have member : c ∈ Nat.toDigits 10 n := by simp [shape]
  exact ⟨c, rest, shape, Nat.isDigit_of_mem_toDigits (by decide) (Nat.le_refl 10) member⟩

/-- White space holds no digits. -/
theorem isSpace_of_isDigit {c : Char} (digit : c.isDigit = true) : isSpace c = false := by
  -- Each character of white space is compared with the digit.
  simp [isSpace, ne_of_isDigit digit]

/-- The printed form of a value opens with neither white space nor a closing bracket. -/
theorem exists_print_cons (level : Nat) (v : JsonValue) :
    ∃ c rest, print level v = c :: rest ∧ isSpace c = false ∧ c ≠ ']' := by
  -- By the cases of a value; each of them opens with its own mark.
  match v with
  | .string text => exact ⟨'"', _, rfl, rfl, by decide⟩
  | .number n =>
    obtain ⟨c, rest, shape, digit⟩ := exists_toString_cons n
    exact ⟨c, rest, shape, isSpace_of_isDigit digit, ne_of_isDigit digit _ rfl⟩
  | .array [] => exact ⟨'[', _, rfl, rfl, by decide⟩
  | .array (item :: rest) => exact ⟨'[', _, rfl, rfl, by decide⟩
  | .object [] => exact ⟨'\x7b', _, rfl, rfl, by decide⟩
  | .object ((key, value) :: rest) => exact ⟨'\x7b', _, rfl, rfl, by decide⟩

/--
A value is read back wherever its printed form comes next.

The text behind it must not continue a number, and the fuel must last for what is printed.
-/
def ReadsBack (v : JsonValue) : Prop :=
  ∀ {level fuel : Nat} {text rest : List Char}, skipSpace text = print level v ++ rest →
    EndsNumber rest → (print level v).length ≤ fuel → value? fuel text = some (v, rest)

/-- A line break ends a number. -/
theorem endsNumber_newLine (level : Nat) (rest : List Char) :
    EndsNumber (newLine level ++ rest) := by
  -- The first character of what follows is the line break.
  intro c first
  obtain rfl : '\n' = c := by simpa [newLine] using first
  rfl

/-- A comma ends a number. -/
theorem endsNumber_comma (rest : List Char) : EndsNumber (',' :: rest) := by
  -- The first character of what follows is the comma.
  intro c first
  obtain rfl : ',' = c := by simpa using first
  rfl

/-- Behind the end of a line, a mark comes next. -/
theorem skipSpace_newLine_cons {c : Char} (solid : isSpace c = false) (level : Nat)
    (rest : List Char) : skipSpace (newLine level ++ c :: rest) = c :: rest := by
  -- The break and its indentation are skipped, and the mark is not.
  rw [skipSpace_newLine, skipSpace_cons solid]

/-- Behind the end of a line, a printed value comes next. -/
theorem skipSpace_newLine_print (outer level : Nat) (v : JsonValue) (rest : List Char) :
    skipSpace (newLine outer ++ (print level v ++ rest)) = print level v ++ rest := by
  -- The value opens with a character that is no white space.
  obtain ⟨c, others, shape, solid, -⟩ := exists_print_cons level v
  rw [shape, List.cons_append, skipSpace_newLine_cons solid]

/-- The items of an array are read back if each of them is. -/
theorem items?_print {item : JsonValue} {others : List JsonValue}
    (each : ∀ v ∈ item :: others, ReadsBack v) {level outer fuel : Nat} {text tail : List Char}
    (shape : skipSpace text =
      print level item ++ (printItems level others ++ (newLine outer ++ ']' :: tail)))
    (enough : (print level item).length + (printItems level others).length < fuel) :
    items? fuel text = some (item :: others, tail) := by
  -- The induction is on the items after the first; each but the last is followed by a comma.
  induction others generalizing item fuel text with
  | nil =>
    -- The last item is followed by the line break in front of the closing bracket.
    obtain ⟨fuel, rfl⟩ : ∃ less, fuel = less + 1 := ⟨fuel - 1, by omega⟩
    have room : (print level item).length ≤ fuel := by omega
    have first : value? fuel text = some (item, newLine outer ++ ']' :: tail) :=
      each item List.mem_cons_self shape (endsNumber_newLine outer _) room
    have closing : skipSpace (newLine outer ++ ']' :: tail) = ']' :: tail :=
      skipSpace_newLine_cons rfl outer tail
    simp only [items?, first, Option.bind_eq_bind, Option.bind_some, closing]
  | cons next others ih =>
    obtain ⟨fuel, rfl⟩ : ∃ less, fuel = less + 1 := ⟨fuel - 1, by omega⟩
    have sizes : (printItems level (next :: others)).length = 1 + (newLine level).length +
        (print level next).length + (printItems level others).length := by
      simp only [printItems, List.length_cons, List.length_append]
      omega
    -- The item in front is read up to the comma, and the others have fuel enough.
    have room : (print level item).length ≤ fuel := by omega
    have comma : printItems level (next :: others) ++ (newLine outer ++ ']' :: tail) =
        ',' :: (newLine level ++ (print level next ++
          (printItems level others ++ (newLine outer ++ ']' :: tail)))) := by
      simp only [printItems, List.cons_append, List.append_assoc]
    rw [comma] at shape
    have first := each item List.mem_cons_self shape (endsNumber_comma _) room
    have fewer : (print level next).length + (printItems level others).length < fuel := by omega
    have later := ih (fun v member => each v (List.mem_cons_of_mem item member))
      (skipSpace_newLine_print level level next _) fewer
    simp only [items?, first, Option.bind_eq_bind, Option.bind_some, skipSpace_comma, later,
      Option.map_some]

/-- A quoted string in front of a text, mark by mark. -/
theorem quote_append (key : String) (rest : List Char) :
    quote key ++ rest = '"' :: (key.toList.flatMap escapeChar ++ '"' :: rest) := by
  -- The quoting is done character by character between two quotes.
  simp only [quote, List.cons_append, List.append_assoc, List.nil_append]

/-- Behind the colon of a field and a blank, a printed value comes next. -/
theorem skipSpace_blank_print (level : Nat) (v : JsonValue) (rest : List Char) :
    skipSpace (' ' :: (print level v ++ rest)) = print level v ++ rest := by
  -- The value opens with no space, so just the blank is skipped.
  obtain ⟨c, others, shape, solid, -⟩ := exists_print_cons level v
  rw [shape, List.cons_append]
  exact skipSpace_cons solid (others ++ rest)

/-- The fields of an object are read back if each of their values is. -/
theorem fields?_print {key : String} {value : JsonValue} {others : List (String × JsonValue)}
    (each : ∀ field ∈ (key, value) :: others, ReadsBack field.2) {level outer fuel : Nat}
    {text tail : List Char}
    (shape : skipSpace text = quote key ++ (':' :: ' ' :: (print level value ++
      (printFields level others ++ (newLine outer ++ '\x7d' :: tail)))))
    (enough : (print level value).length + (printFields level others).length < fuel) :
    fields? fuel text = some ((key, value) :: others, tail) := by
  -- As for items, with a key and a colon in front of each value.
  induction others generalizing key value fuel text with
  | nil =>
    -- The last field is followed by the line break in front of the closing brace.
    obtain ⟨fuel, rfl⟩ : ∃ less, fuel = less + 1 := ⟨fuel - 1, by omega⟩
    have room : (print level value).length ≤ fuel := by omega
    have first := each (key, value) List.mem_cons_self (skipSpace_blank_print level value _)
      (endsNumber_newLine outer ('\x7d' :: tail)) room
    have closing : skipSpace (newLine outer ++ '\x7d' :: tail) = '\x7d' :: tail :=
      skipSpace_newLine_cons rfl outer tail
    simp only [printFields, List.nil_append, quote_append] at shape
    simp only [fields?, shape, string?_quoted, Option.bind_eq_bind, Option.bind_some,
      skipSpace_colon, first, closing]
  | cons next others ih =>
    obtain ⟨nextKey, nextValue⟩ := next
    obtain ⟨fuel, rfl⟩ : ∃ less, fuel = less + 1 := ⟨fuel - 1, by omega⟩
    have sizes : (printFields level ((nextKey, nextValue) :: others)).length =
        1 + (newLine level).length + (quote nextKey).length + 2 + (print level nextValue).length +
          (printFields level others).length := by
      simp only [printFields, List.length_cons, List.length_append, List.length_nil]
      omega
    -- Key and value in front are read up to the comma, and the others have fuel enough.
    have room : (print level value).length ≤ fuel := by omega
    have comma : printFields level ((nextKey, nextValue) :: others) ++
        (newLine outer ++ '\x7d' :: tail) =
          ',' :: (newLine level ++ (quote nextKey ++ (':' :: ' ' :: (print level nextValue ++
            (printFields level others ++ (newLine outer ++ '\x7d' :: tail)))))) := by
      simp only [printFields, List.cons_append, List.append_assoc, List.nil_append]
    rw [comma, quote_append] at shape
    have first (rest : List Char) :
        value? fuel (' ' :: (print level value ++ ',' :: rest)) = some (value, ',' :: rest) :=
      each (key, value) List.mem_cons_self (skipSpace_blank_print level value _)
        (endsNumber_comma rest) room
    have atQuote (rest : List Char) :
        skipSpace (newLine level ++ (quote nextKey ++ rest)) = quote nextKey ++ rest :=
      skipSpace_newLine_cons rfl level _
    have fewer : (print level nextValue).length + (printFields level others).length < fuel := by
      omega
    have later := ih (fun field member => each field (List.mem_cons_of_mem _ member))
      (atQuote _) fewer
    simp only [fields?, shape, string?_quoted, Option.bind_eq_bind, Option.bind_some,
      skipSpace_colon, first, skipSpace_comma, later, Option.map_some]

/-- Fuel that lasts for a printed value is not used up. -/
theorem exists_fuel {level fuel : Nat} {v : JsonValue} (enough : (print level v).length ≤ fuel) :
    ∃ less, fuel = less + 1 := by
  -- Some character is printed, so the fuel is not zero.
  obtain ⟨c, others, opening, -⟩ := exists_print_cons level v
  rw [opening, List.length_cons] at enough
  exact ⟨fuel - 1, by omega⟩

/-- A string is read back. -/
theorem readsBack_string (written : String) : ReadsBack (.string written) := by
  intro level fuel text rest shape _ enough
  obtain ⟨fuel, rfl⟩ := exists_fuel enough
  -- The quote tells that it is a string, and quoting is undone.
  rw [print, quote_append] at shape
  simp only [value?, shape, string?_quoted, Option.map_some]

/-- A number is read back. -/
theorem readsBack_number (n : Nat) : ReadsBack (.number n) := by
  intro level fuel text rest shape ends enough
  obtain ⟨fuel, rfl⟩ := exists_fuel enough
  obtain ⟨c, others, opening, digit⟩ := exists_toString_cons n
  have first : skipSpace text = c :: (others ++ rest) := by
    rw [shape, print, opening, List.cons_append]
  have read : number? (c :: (others ++ rest)) = some (n, rest) := by
    rw [← List.cons_append, ← opening]
    exact number?_toString n ends
  -- A digit is none of the marks that open the other values.
  have noMark {d : Char} {more : List Char} (mark : d.isDigit = false) :
      c :: (others ++ rest) ≠ d :: more := fun same =>
    ne_of_isDigit digit d mark (List.cons.inj same).1
  rw [value?, first]
  split
  · exact absurd ‹_› (noMark rfl)
  · exact absurd ‹_› (noMark rfl)
  · exact absurd ‹_› (noMark rfl)
  · rw [read, Option.map_some]

/-- An array is read back if each of its items is. -/
theorem readsBack_array {items : List JsonValue} (each : ∀ v ∈ items, ReadsBack v) :
    ReadsBack (.array items) := by
  intro level fuel text rest shape _ enough
  obtain ⟨fuel, rfl⟩ := exists_fuel enough
  -- An empty array is closed at once; any other goes on with an item.
  cases items with
  | nil =>
    have opening : skipSpace text = '[' :: ']' :: rest := shape
    have closing : skipSpace (']' :: rest) = ']' :: rest := skipSpace_cons rfl rest
    simp only [value?, opening, closing]
  | cons item others =>
    have opening : skipSpace text = '[' :: (newLine (level + 1) ++ (print (level + 1) item ++
        (printItems (level + 1) others ++ (newLine level ++ ']' :: rest)))) := by
      simpa [print] using shape
    have room : (print (level + 1) item).length + (printItems (level + 1) others).length <
        fuel := by
      simp only [print, List.length_cons, List.length_append, List.length_nil] at enough
      omega
    -- The first item opens with something else than the bracket of an empty array.
    obtain ⟨c, more, first, solid, notClosing⟩ := exists_print_cons (level + 1) item
    generalize behind : printItems (level + 1) others ++ (newLine level ++ ']' :: rest) = tail
      at opening
    have atItem : skipSpace (newLine (level + 1) ++ (print (level + 1) item ++ tail)) =
        c :: (more ++ tail) := by
      rw [first, List.cons_append, skipSpace_newLine_cons solid]
    have inner : skipSpace (c :: (more ++ tail)) = print (level + 1) item ++
        (printItems (level + 1) others ++ (newLine level ++ ']' :: rest)) := by
      rw [skipSpace_cons solid, behind, first, List.cons_append]
    simp only [value?, opening, atItem]
    split
    · rename_i same
      exact absurd (List.cons.inj same).1 notClosing
    · rw [items?_print each inner room, Option.map_some]

/-- An object is read back if the value of each of its fields is. -/
theorem readsBack_object {fields : List (String × JsonValue)}
    (each : ∀ field ∈ fields, ReadsBack field.2) : ReadsBack (.object fields) := by
  intro level fuel text rest shape _ enough
  obtain ⟨fuel, rfl⟩ := exists_fuel enough
  -- An empty object is closed at once; any other goes on with a key.
  match fields with
  | [] =>
    have opening : skipSpace text = '\x7b' :: '\x7d' :: rest := shape
    have closing : skipSpace ('\x7d' :: rest) = '\x7d' :: rest := skipSpace_cons rfl rest
    simp only [value?, opening, closing]
  | (key, value) :: others =>
    have opening : skipSpace text = '\x7b' :: (newLine (level + 1) ++ (quote key ++
        (':' :: ' ' :: (print (level + 1) value ++
          (printFields (level + 1) others ++ (newLine level ++ '\x7d' :: rest)))))) := by
      simpa [print] using shape
    have room : (print (level + 1) value).length + (printFields (level + 1) others).length <
        fuel := by
      simp only [print, List.length_cons, List.length_append, List.length_nil] at enough
      omega
    generalize behind : ':' :: ' ' :: (print (level + 1) value ++
      (printFields (level + 1) others ++ (newLine level ++ '\x7d' :: rest))) = tail at opening
    rw [quote_append] at opening
    have atKey (tail : List Char) :
        skipSpace (newLine (level + 1) ++ '"' :: tail) = '"' :: tail :=
      skipSpace_newLine_cons rfl (level + 1) tail
    have inner : skipSpace ('"' :: (key.toList.flatMap escapeChar ++ '"' :: tail)) =
        quote key ++ (':' :: ' ' :: (print (level + 1) value ++
          (printFields (level + 1) others ++ (newLine level ++ '\x7d' :: rest)))) := by
      rw [skipSpace_cons rfl, behind, quote_append]
    simp only [value?, opening, atKey]
    split
    · rename_i same
      exact absurd (List.cons.inj same).1 (by decide)
    · rw [fields?_print each inner room, Option.map_some]

/-- Every value is read back. -/
theorem readsBack : (v : JsonValue) → ReadsBack v
  -- By the cases of a value, the parts being read back already.
  | .string written => readsBack_string written
  | .number n => readsBack_number n
  | .array items => readsBack_array fun v _ => readsBack v
  | .object fields => readsBack_object fun field _ => readsBack field.2
termination_by v => sizeOf v
decreasing_by
  · have smaller := List.sizeOf_lt_of_mem ‹v ∈ items›
    simp only [array.sizeOf_spec]
    omega
  · have smaller := List.sizeOf_lt_of_mem ‹field ∈ fields›
    have part : sizeOf field.2 < sizeOf field := by
      obtain ⟨key, value⟩ := field
      simp only [Prod.mk.sizeOf_spec]
      omega
    simp only [object.sizeOf_spec]
    omega

/-- A printed document is read back as the value that was printed. -/
theorem read?_pretty (v : JsonValue) : read? v.pretty = some v := by
  -- A document is a value with nothing in front of it and nothing behind.
  have shape : skipSpace (print 0 v) = print 0 v ++ [] := by
    obtain ⟨c, others, opening, solid, -⟩ := exists_print_cons 0 v
    rw [opening, skipSpace_cons solid, List.append_nil]
  have nothing : EndsNumber [] := by simp [EndsNumber]
  have read := readsBack v shape nothing (Nat.le_refl _)
  rw [read?, pretty, String.toList_ofList, read]
  rfl

/-- White space may stand between any two parts, and any character may be escaped. -/
example : read? " [\t\"\\u00E9\\ud83d\\ude00\\/\" , 10,\x7b \x7d]\r\n" =
    some (.array [.string "é😀/", .number 10, .object []]) := by cbv

/-- Half a character, a trailing comma and a zero in front of a number are refused. -/
example : read? "\"\\ud83d\"" = none ∧ read? "[1,]" = none ∧ read? "01" = none := by
  refine ⟨?_, ?_, ?_⟩ <;> cbv

end LockDiscipline.JsonReader
