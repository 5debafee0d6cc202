import Endure.Library.Dict
import Endure.Library.Json

/-!
# Reading JSON

A decoder of JSON texts: recursive descent over the characters, with blanks allowed between
tokens. It reads the compact text of a value back, and it stops exactly where that text ends,
so the texts of objects form a prefix code.
-/

namespace Library

namespace Json

/-! ### The reader -/

/-- The blanks allowed between tokens. -/
def isBlank (c : Char) : Bool := c = ' ' || c = '\t' || c = '\n' || c = '\r'

def skipBlanks (text : List Char) : List Char := text.dropWhile isBlank

/-- The value of a hexadecimal digit of either case. -/
def hexDigit? (c : Char) : Option ℕ :=
  if '0' ≤ c ∧ c ≤ '9' then some (c.toNat - '0'.toNat)
  else if 'a' ≤ c ∧ c ≤ 'f' then some (c.toNat - 'a'.toNat + 10)
  else if 'A' ≤ c ∧ c ≤ 'F' then some (c.toNat - 'A'.toNat + 10)
  else none

/-- Four hexadecimal digits. -/
def readHex : List Char → Option (ℕ × List Char)
  | a :: b :: c :: d :: rest => do
    let a ← hexDigit? a
    let b ← hexDigit? b
    let c ← hexDigit? c
    let d ← hexDigit? d
    return (((a * 16 + b) * 16 + c) * 16 + d, rest)
  | _ => none

/-- The character of a `\u` escape. A high surrogate joins the low one escaped after it; a
surrogate alone is no character. -/
def readUnicode (text : List Char) : Option (Char × List Char) := do
  let (code, rest) ← readHex text
  if code < 0xD800 ∨ 0xDFFF < code then return (Char.ofNat code, rest)
  match rest with
  | '\\' :: 'u' :: rest =>
    let (low, rest) ← readHex rest
    if code < 0xDC00 ∧ 0xDC00 ≤ low ∧ low ≤ 0xDFFF then
      return (Char.ofNat (0x10000 + (code - 0xD800) * 1024 + (low - 0xDC00)), rest)
    else none
  | _ => none

/-- The character a one-letter escape stands for. -/
def unescape (c : Char) : Option Char :=
  [('"', '"'), ('\\', '\\'), ('/', '/'), ('b', '\x08'), ('f', '\x0c'), ('n', '\n'), ('r', '\r'),
    ('t', '\t')].lookup c

/-- One character of a string. Control characters must be escaped. -/
def readChar : List Char → Option (Char × List Char)
  | '\\' :: 'u' :: rest => readUnicode rest
  | '\\' :: c :: rest => (unescape c).map fun meant => (meant, rest)
  | c :: rest => if c = '\\' ∨ c.toNat < 32 then none else some (c, rest)
  | [] => none

/-- The characters of a string up to its closing quote. -/
def readChars : ℕ → List Char → Option (List Char × List Char)
  | 0, _ => none
  | _ + 1, '"' :: rest => some ([], rest)
  | fuel + 1, text => do
    let (c, rest) ← readChar text
    let (chars, rest) ← readChars fuel rest
    return (c :: chars, rest)

/-- A string, its opening quote already taken. -/
def readString (text : List Char) : Option (String × List Char) :=
  (readChars text.length text).map fun read => (String.ofList read.1, read.2)

/-- The digits of the whole part: a single zero, or digits that start with another one. -/
def wholePart : List Char → List Char
  | '0' :: _ => ['0']
  | text => text.takeWhile Char.isDigit

/-- A decimal point with the digits after it, where there are any. -/
def fractionPart : List Char → List Char
  | '.' :: rest =>
    let digits := rest.takeWhile Char.isDigit
    if digits = [] then [] else '.' :: digits
  | _ => []

/-- An exponent with its sign and digits, where there are any. -/
def exponentPart : List Char → List Char
  | e :: rest =>
    if e = 'e' ∨ e = 'E' then
      let sign := rest.takeWhile fun c => c = '+' || c = '-'
      let digits := (rest.drop sign.length).takeWhile Char.isDigit
      if 1 < sign.length ∨ digits = [] then [] else e :: (sign ++ digits)
    else []
  | [] => []

/-- A number. One without fraction and exponent is an integer, of no more digits than a limit
allows, where zero is no limit. -/
def readNumber (limit : ℕ) (text : List Char) : Option (Json × List Char) :=
  let sign := text.takeWhile (· = '-')
  let unsigned := text.drop sign.length
  let whole := wholePart unsigned
  let fraction := fractionPart (unsigned.drop whole.length)
  let exponent := exponentPart (unsigned.drop (whole.length + fraction.length))
  let rest := unsigned.drop (whole.length + fraction.length + exponent.length)
  let magnitude : ℤ := Nat.ofDigitChars 10 whole 0
  if 1 < sign.length ∨ whole = [] then none
  else if fraction ≠ [] ∨ exponent ≠ [] then
    some (.float (String.ofList (sign ++ whole ++ fraction ++ exponent)), rest)
  else if limit ≠ 0 ∧ limit < whole.length then none
  else some (.int (if sign = [] then magnitude else -magnitude), rest)

/-- The values written as a word. -/
def words : List (String × Json) :=
  [("null", .null), ("true", .bool true), ("false", .bool false), ("NaN", .float "NaN"),
    ("Infinity", .float "Infinity"), ("-Infinity", .float "-Infinity")]

/-- A word or a number. -/
def readScalar (limit : ℕ) (text : List Char) : Option (Json × List Char) :=
  match words.find? fun word => word.1.toList.isPrefixOf text with
  | some (word, value) => some (value, text.drop word.toList.length)
  | none => readNumber limit text

variable (limit : ℕ)

mutual

/-- A value at the start of a text, with the text after it. -/
def readValue : ℕ → List Char → Option (Json × List Char)
  | 0, _ => none
  | fuel + 1, text =>
    match text with
    | '"' :: rest => (readString rest).map fun read => (.str read.1, read.2)
    | '[' :: rest =>
      match skipBlanks rest with
      | ']' :: rest => some (.list [], rest)
      | rest => do
        let first ← readValue fuel rest
        let later ← readItems fuel (skipBlanks first.2)
        return (.list (first.1 :: later.1), later.2)
    | '{' :: rest =>
      match skipBlanks rest with
      | '}' :: rest => some (.dict [], rest)
      | rest => do
        let first ← readEntry fuel rest
        let later ← readEntries fuel (skipBlanks first.2)
        -- a key that repeats keeps its place and takes the later value
        return (.dict (Dict.ofEntries (first.1 :: later.1)).entries, later.2)
    | text => readScalar limit text

/-- The items after one, up to the closing bracket. -/
def readItems : ℕ → List Char → Option (List Json × List Char)
  | 0, _ => none
  | _ + 1, ']' :: rest => some ([], rest)
  | fuel + 1, ',' :: rest => do
    let first ← readValue fuel (skipBlanks rest)
    let later ← readItems fuel (skipBlanks first.2)
    return (first.1 :: later.1, later.2)
  | _ + 1, _ => none

/-- A key and its value. -/
def readEntry : ℕ → List Char → Option ((String × Json) × List Char)
  | 0, _ => none
  | fuel + 1, '"' :: rest => do
    let key ← readString rest
    match skipBlanks key.2 with
    | ':' :: rest => do
      let value ← readValue fuel (skipBlanks rest)
      return ((key.1, value.1), value.2)
    | _ => none
  | _ + 1, _ => none

/-- The entries after one, up to the closing brace. -/
def readEntries : ℕ → List Char → Option (List (String × Json) × List Char)
  | 0, _ => none
  | _ + 1, '}' :: rest => some ([], rest)
  | fuel + 1, ',' :: rest => do
    let first ← readEntry fuel (skipBlanks rest)
    let later ← readEntries fuel (skipBlanks first.2)
    return (first.1 :: later.1, later.2)
  | _ + 1, _ => none

end

/-- The value of a text that holds one value and nothing else. -/
def loads (text : String) : Option Json :=
  match readValue limit text.toList.length (skipBlanks text.toList) with
  -- anything but blanks after the value is an error
  | some (value, rest) => if skipBlanks rest = [] then some value else none
  | none => none

/-! ### Reading a text back -/

theorem hexDigit?_digitChar {digit : ℕ} (small : digit < 16) :
    hexDigit? (Nat.digitChar digit) = some digit := by
  interval_cases digit <;> decide

/-- An escaped character is read as the character. -/
theorem readChar_escape (c : Char) (rest : List Char) :
    readChar (escape c ++ rest) = some (c, rest) := by
  unfold escape
  by_cases quote : c = '"'
  · subst quote
    rfl
  by_cases slash : c = '\\'
  · subst slash
    rfl
  by_cases newline : c = '\n'
  · subst newline
    rfl
  by_cases carriage : c = '\r'
  · subst carriage
    rfl
  by_cases tab : c = '\t'
  · subst tab
    rfl
  by_cases back : c = '\x08'
  · subst back
    rfl
  by_cases feed : c = '\x0c'
  · subst feed
    rfl
  rw [if_neg quote, if_neg slash, if_neg newline, if_neg carriage, if_neg tab, if_neg back,
    if_neg feed]
  by_cases control : c.toNat < 32
  · -- the other control characters go through their code
    have high := hexDigit?_digitChar (show c.toNat / 16 < 16 by omega)
    have low := hexDigit?_digitChar (show c.toNat % 16 < 16 by omega)
    have code : (((0 * 16 + 0) * 16 + c.toNat / 16) * 16 + c.toNat % 16) = c.toNat := by omega
    have zero : hexDigit? '0' = some 0 := by decide
    rw [if_pos control]
    simp only [List.cons_append, List.nil_append, readChar, readUnicode, readHex, zero, high, low,
      bind, Option.bind, pure, code]
    rw [if_pos (by omega), Char.ofNat_toNat]
  · rw [if_neg control, List.cons_append, List.nil_append, readChar]
    · rw [if_neg (by simp [slash, control])]
    · intro _ isSlash
      exact absurd isSlash slash
    · intro _ _ isSlash
      exact absurd isSlash slash

/-- No character inside a string looks like the closing quote. -/
theorem escape_ne_quote (c : Char) (rest tail : List Char) : escape c ++ rest ≠ '"' :: tail := by
  intro same
  have read := readChar_escape c rest
  unfold escape at same read
  by_cases quote : c = '"'
  · rw [if_pos quote] at same
    cases same
  · rw [if_neg quote] at same
    split_ifs at same <;> cases same
    exact quote rfl

theorem readChars_quoted (text rest : List Char) {fuel : ℕ}
    (enough : (text.flatMap escape).length < fuel) :
    readChars fuel (text.flatMap escape ++ '"' :: rest) = some (text, rest) := by
  induction text generalizing fuel with
  | nil =>
    cases fuel with
    | zero => simp at enough
    | succ fuel => rfl
  | cons c text ih =>
    cases fuel with
    | zero => simp at enough
    | succ fuel =>
      -- no escape is empty, so the fuel lasts for the characters after it
      have one : 0 < (escape c).length := by
        unfold escape
        split_ifs <;> simp
      rw [List.flatMap_cons, List.length_append] at enough
      rw [List.flatMap_cons, List.append_assoc, readChars, readChar_escape]
      · have read : readChars fuel _ = some (text, rest) := ih (by omega)
        simp only [Option.bind_eq_bind, Option.bind_some, read]
        rfl
      · intro rest'
        exact escape_ne_quote c _ rest'

/-- A quoted string is read back. -/
theorem readString_quoted (text : String) (rest : List Char) :
    readString (text.toList.flatMap escape ++ '"' :: rest) = some (text, rest) := by
  rw [readString, readChars_quoted _ _ (by simp), Option.map_some, String.ofList_toList]


/-! ### Numbers -/

theorem digits_ne_nil (value : ℤ) : digits value ≠ [] := Nat.toDigits_ne_nil

theorem isDigit_of_mem_digits {value : ℤ} {c : Char} (member : c ∈ digits value) :
    c.isDigit = true := Nat.isDigit_of_mem_toDigits (by omega) (by omega) member

/-- Only zero is written with a leading zero. -/
theorem head?_toDigits {value : ℕ} (pos : 0 < value) :
    (Nat.toDigits 10 value).head? ≠ some '0' := by
  induction value using Nat.strong_induction_on with
  | _ value ih =>
    rw [Nat.toDigits_eq_if (by omega)]
    by_cases small : value < 10
    · rw [if_pos small]
      interval_cases value <;> decide
    · rw [if_neg small, List.head?_append_of_ne_nil _ Nat.toDigits_ne_nil]
      exact ih (value / 10) (by omega) (by omega)

/-- What may follow a value inside a compact text. -/
def Ends (rest : List Char) : Prop :=
  ∀ c ∈ rest.head?, c = ',' ∨ c = ']' ∨ c = '}'

theorem takeWhile_isDigit_append {digits rest : List Char} (each : ∀ c ∈ digits, c.isDigit = true)
    (ends : Ends rest) : (digits ++ rest).takeWhile Char.isDigit = digits := by
  rw [List.takeWhile_append_of_pos each]
  cases rest with
  | nil => simp
  | cons c rest =>
    have notDigit : c.isDigit = false := by
      rcases ends c rfl with rfl | rfl | rfl <;> rfl
    simp [notDigit]

/-- The digits of a number are its whole part. -/
theorem wholePart_digits (value : ℤ) {rest : List Char} (ends : Ends rest) :
    wholePart (digits value ++ rest) = digits value := by
  by_cases zero : value = 0
  · subst zero
    rfl
  · have leading := head?_toDigits (Int.natAbs_pos.mpr zero)
    have all : ∀ c ∈ digits value, c.isDigit = true := fun _ => isDigit_of_mem_digits
    have taken := takeWhile_isDigit_append all ends
    unfold wholePart
    split
    -- only zero starts with a zero, so the digits cannot
    · next tail same =>
      cases shown : digits value with
      | nil => exact absurd shown (digits_ne_nil value)
      | cons c others =>
        rw [shown] at same
        cases same
        rw [digits] at shown
        rw [shown] at leading
        exact absurd rfl leading
    · exact taken

theorem fractionPart_of_ends {rest : List Char} (ends : Ends rest) : fractionPart rest = [] := by
  cases rest with
  | nil => rfl
  | cons c rest => rcases ends c rfl with rfl | rfl | rfl <;> rfl

theorem exponentPart_of_ends {rest : List Char} (ends : Ends rest) : exponentPart rest = [] := by
  cases rest with
  | nil => rfl
  | cons c rest => rcases ends c rfl with rfl | rfl | rfl <;> rfl

/-- A digit that starts a number. -/
theorem exists_digits_eq (value : ℤ) :
    ∃ c others, digits value = c :: others ∧ c.isDigit = true := by
  cases shown : digits value with
  | nil => exact absurd shown (digits_ne_nil value)
  | cons c others =>
    have member : c ∈ digits value := shown ▸ List.mem_cons_self ..
    exact ⟨c, others, rfl, isDigit_of_mem_digits member⟩

/-- The sign an integer is written with. -/
def signOf (value : ℤ) : List Char := if value < 0 then ['-'] else []

theorem writeInt_eq (value : ℤ) : writeInt value = signOf value ++ digits value := by
  unfold writeInt signOf
  split_ifs <;> rfl

theorem takeWhile_sign (value : ℤ) (rest : List Char) :
    (signOf value ++ digits value ++ rest).takeWhile (· = '-') = signOf value := by
  obtain ⟨c, others, shown, isDigit⟩ := exists_digits_eq value
  have notSign : c ≠ '-' := by
    rintro rfl
    cases isDigit
  rw [shown]
  unfold signOf
  split_ifs <;> simp [notSign]

/-- An integer is read back. -/
theorem readNumber_writeInt {limit : ℕ} {value : ℤ} {rest : List Char}
    (fits : limit = 0 ∨ (digits value).length ≤ limit) (ends : Ends rest) :
    readNumber limit (writeInt value ++ rest) = some (.int value, rest) := by
  have magnitude : Nat.ofDigitChars 10 (digits value) 0 = value.natAbs :=
    Nat.ofDigitChars_ten_toDigits
  have short : ¬1 < (signOf value).length := by
    unfold signOf
    split_ifs <;> simp
  have sign : (signOf value = []) ↔ ¬value < 0 := by
    unfold signOf
    split_ifs <;> simp_all
  have after : (signOf value ++ digits value ++ rest).drop (signOf value).length =
      digits value ++ rest := by rw [List.append_assoc, List.drop_left]
  have whole := wholePart_digits value ends
  unfold readNumber
  simp only [writeInt_eq, takeWhile_sign, after, whole, List.drop_left, fractionPart_of_ends ends,
    exponentPart_of_ends ends, List.length_nil, Nat.add_zero, magnitude]
  -- one sign at most, some digits, neither fraction nor exponent, and within the limit
  rw [if_neg (by simp [short, digits_ne_nil]), if_neg (by simp), if_neg (by omega)]
  by_cases negative : value < 0
  · rw [if_neg (by simpa [sign] using negative)]
    have same : -((value.natAbs : ℕ) : ℤ) = value := by omega
    rw [same]
  · rw [if_pos (by simpa [sign] using negative)]
    have same : ((value.natAbs : ℕ) : ℤ) = value := by omega
    rw [same]

/-- No word starts like an integer. -/
theorem readScalar_writeInt {limit : ℕ} {value : ℤ} {rest : List Char}
    (fits : limit = 0 ∨ (digits value).length ≤ limit) (ends : Ends rest) :
    readScalar limit (writeInt value ++ rest) = some (.int value, rest) := by
  obtain ⟨c, others, shown, isDigit⟩ := exists_digits_eq value
  have noWord : words.find? (fun word => word.1.toList.isPrefixOf (writeInt value ++ rest)) =
      none := by
    have differs : 'n' ≠ c ∧ 't' ≠ c ∧ 'f' ≠ c ∧ 'N' ≠ c ∧ 'I' ≠ c ∧ '-' ≠ c := by
      refine ⟨?_, ?_, ?_, ?_, ?_, ?_⟩ <;> (rintro rfl; cases isDigit)
    unfold writeInt
    split_ifs <;> simp [words, shown, differs]
  rw [readScalar, noWord]
  exact readNumber_writeInt fits ends

/-! ### Values -/

/-- A text that opens no string, list or object holds a scalar. -/
theorem readValue_scalar {limit fuel : ℕ} {c : Char} {rest : List Char} (notString : c ≠ '"')
    (notList : c ≠ '[') (notDict : c ≠ '{') :
    readValue limit (fuel + 1) (c :: rest) = readScalar limit (c :: rest) := by
  rw [readValue]
  · exact fun _ same => notString (List.cons.inj same).1
  · exact fun _ same => notList (List.cons.inj same).1
  · exact fun _ same => notDict (List.cons.inj same).1

/-- The characters a value starts with. -/
theorem exists_write_eq {limit : ℕ} (value : Json) (readable : Readable limit value) :
    ∃ c others, write value = c :: others ∧ isBlank c = false ∧ c ≠ ']' ∧ c ≠ '}' := by
  cases value with
  | null => exact ⟨'n', _, rfl, rfl, by decide, by decide⟩
  | bool value =>
    cases value with
    | false => exact ⟨'f', _, rfl, rfl, by decide, by decide⟩
    | true => exact ⟨'t', _, rfl, rfl, by decide, by decide⟩
  | int value =>
    obtain ⟨c, others, shown, isDigit⟩ := exists_digits_eq value
    rw [write, writeInt, shown]
    split_ifs
    · exact ⟨'-', _, rfl, rfl, by decide, by decide⟩
    · refine ⟨c, _, rfl, ?_, ?_, ?_⟩
      · unfold isBlank
        simp only [Bool.or_eq_false_iff, decide_eq_false_iff_not]
        refine ⟨⟨⟨?_, ?_⟩, ?_⟩, ?_⟩ <;> (rintro rfl; cases isDigit)
      · rintro rfl
        cases isDigit
      · rintro rfl
        cases isDigit
  | float literal => rw [Readable] at readable; exact readable.elim
  | str text => exact ⟨'"', _, rfl, rfl, by decide, by decide⟩
  | list items =>
    cases items with
    | nil => exact ⟨'[', _, rfl, rfl, by decide, by decide⟩
    | cons item rest => exact ⟨'[', _, rfl, rfl, by decide, by decide⟩
  | dict entries =>
    cases entries with
    | nil => exact ⟨'{', _, rfl, rfl, by decide, by decide⟩
    | cons entry rest => exact ⟨'{', _, rfl, rfl, by decide, by decide⟩

theorem skipBlanks_write {limit : ℕ} {value : Json} (readable : Readable limit value)
    (rest : List Char) : skipBlanks (write value ++ rest) = write value ++ rest := by
  obtain ⟨c, others, shown, notBlank, -⟩ := exists_write_eq value readable
  rw [shown, List.cons_append, skipBlanks, List.dropWhile_cons_of_neg (by simp [notBlank])]

/-- What follows an item. -/
theorem ends_writeItems (items : List Json) (rest : List Char) :
    Ends (writeItems items ++ rest) := by
  cases items with
  | nil => rintro c ⟨⟩; exact .inr (.inl rfl)
  | cons item items => rintro c ⟨⟩; exact .inl rfl

/-- What follows an entry. -/
theorem ends_writeEntries (entries : List (String × Json)) (rest : List Char) :
    Ends (writeEntries entries ++ rest) := by
  cases entries with
  | nil => rintro c ⟨⟩; exact .inr (.inr rfl)
  | cons entry entries => rintro c ⟨⟩; exact .inl rfl

theorem skipBlanks_of_ends {rest : List Char} (ends : Ends rest) : skipBlanks rest = rest := by
  cases rest with
  | nil => rfl
  | cons c rest => rcases ends c rfl with rfl | rfl | rfl <;> rfl

section Steps

variable {limit fuel : ℕ} {text rest : List Char}

theorem readValue_list (item : ∀ tail, skipBlanks text ≠ ']' :: tail) :
    readValue limit (fuel + 1) ('[' :: text) = do
      let first ← readValue limit fuel (skipBlanks text)
      let later ← readItems limit fuel (skipBlanks first.2)
      return (.list (first.1 :: later.1), later.2) := by
  rw [readValue]
  split
  · next tail closed => exact absurd closed (item tail)
  · rfl

theorem readValue_dict (entry : ∀ tail, skipBlanks text ≠ '}' :: tail) :
    readValue limit (fuel + 1) ('{' :: text) = do
      let first ← readEntry limit fuel (skipBlanks text)
      let later ← readEntries limit fuel (skipBlanks first.2)
      return (.dict (Dict.ofEntries (first.1 :: later.1)).entries, later.2) := by
  rw [readValue]
  split
  · next tail closed => exact absurd closed (entry tail)
  · rfl

theorem readEntry_quoted (key : String) :
    readEntry limit (fuel + 1) (quoted key ++ ':' :: text) = do
      let value ← readValue limit fuel (skipBlanks text)
      return ((key, value.1), value.2) := by
  have shown : quoted key ++ ':' :: text =
      '"' :: (key.toList.flatMap escape ++ '"' :: ':' :: text) := by
    simp [quoted]
  rw [shown, readEntry, readString_quoted]
  rfl

end Steps

mutual

/-- The text of a value is read as the value, and the reader stops where the text ends. -/
theorem readValue_write {limit : ℕ} : (value : Json) → Readable limit value → (fuel : ℕ) →
    (write value).length ≤ fuel → (rest : List Char) → (∀ n, value = .int n → Ends rest) →
    readValue limit fuel (write value ++ rest) = some (value, rest)
  | value, readable, 0, enough, rest, _ => by
    -- the fuel covers the text, and no text is empty
    obtain ⟨c, others, shown, -⟩ := exists_write_eq value readable
    simp [shown] at enough
  | .null, _, fuel + 1, _, rest, _ => by
    rw [write, List.cons_append, readValue_scalar (by decide) (by decide) (by decide)]
    simp [readScalar, words]
  | .bool true, _, fuel + 1, _, rest, _ => by
    rw [write, List.cons_append, readValue_scalar (by decide) (by decide) (by decide)]
    simp [readScalar, words]
  | .bool false, _, fuel + 1, _, rest, _ => by
    rw [write, List.cons_append, readValue_scalar (by decide) (by decide) (by decide)]
    simp [readScalar, words]
  | .int value, readable, fuel + 1, _, rest, ends => by
    rw [Readable] at readable
    -- digits have no closing mark of their own: what follows has to end them
    have read := readScalar_writeInt readable (ends value rfl)
    obtain ⟨c, others, shown, isDigit⟩ := exists_digits_eq value
    rw [write]
    unfold writeInt at read ⊢
    split_ifs at read ⊢
    · rw [List.cons_append, readValue_scalar (by decide) (by decide) (by decide)]
      exact read
    · rw [shown, List.cons_append] at read ⊢
      rw [readValue_scalar]
      · exact read
      all_goals
        rintro rfl
        cases isDigit
  | .float _, readable, _ + 1, _, _, _ => by
    rw [Readable] at readable
    exact readable.elim
  | .str text, _, fuel + 1, _, rest, _ => by
    have shown : write (.str text) ++ rest =
        '"' :: (text.toList.flatMap escape ++ '"' :: rest) := by
      simp [write, quoted]
    rw [shown, readValue, readString_quoted]
    rfl
  | .list [], _, fuel + 1, _, rest, _ => rfl
  | .list (item :: items), readable, fuel + 1, enough, rest, _ => by
    rw [Readable, ReadableItems] at readable
    rw [write, List.length_cons, List.length_append] at enough
    have blanks := skipBlanks_write readable.1 (writeItems items ++ rest)
    -- the first item starts with no bracket, so the list is not taken for an empty one
    have opened : ∀ tail, skipBlanks (write item ++ (writeItems items ++ rest)) ≠ ']' :: tail := by
      obtain ⟨c, others, shown, -, notClosed, -⟩ := exists_write_eq item readable.1
      intro tail same
      rw [blanks, shown] at same
      cases same
      exact notClosed rfl
    have ends := ends_writeItems items rest
    have first := readValue_write item readable.1 fuel (by omega) _ fun _ _ => ends
    have later := readItems_write items readable.2 fuel (by omega) rest
    rw [write, List.cons_append, List.append_assoc, readValue_list opened, blanks, first]
    simp only [Option.bind_eq_bind, Option.bind_some, skipBlanks_of_ends ends, later]
    rfl
  | .dict [], _, fuel + 1, _, rest, _ => rfl
  | .dict ((key, value) :: entries), readable, fuel + 1, enough, rest, _ => by
    rw [Readable, ReadableEntries] at readable
    rw [write] at enough
    simp only [List.length_cons, List.length_append] at enough
    have shown : write (.dict ((key, value) :: entries)) ++ rest =
        '{' :: (quoted key ++ ':' :: (write value ++ (writeEntries entries ++ rest))) := by
      simp [write]
    have blanks (text : List Char) : skipBlanks (quoted key ++ text) = quoted key ++ text := rfl
    have opened : ∀ tail, skipBlanks (quoted key ++ ':' ::
        (write value ++ (writeEntries entries ++ rest))) ≠ '}' :: tail := by
      intro tail same
      cases same
    have ends := ends_writeEntries entries rest
    have first := readEntry_write key value readable.2.1 fuel (by omega) _ ends
    have later := readEntries_write entries readable.2.2 fuel (by omega) rest
    rw [shown, readValue_dict opened, blanks, first]
    simp only [Option.bind_eq_bind, Option.bind_some, skipBlanks_of_ends ends, later]
    -- the keys are distinct, so no entry takes the place of another
    rw [Dict.entries_ofEntries readable.1]
    rfl

theorem readItems_write {limit : ℕ} : (items : List Json) → ReadableItems limit items →
    (fuel : ℕ) → (writeItems items).length ≤ fuel → (rest : List Char) →
    readItems limit fuel (writeItems items ++ rest) = some (items, rest)
  | [], _, 0, enough, _ => by simp [writeItems] at enough
  | item :: items, _, 0, enough, _ => by simp [writeItems] at enough
  | [], _, fuel + 1, _, rest => rfl
  | item :: items, readable, fuel + 1, enough, rest => by
    rw [ReadableItems] at readable
    rw [writeItems, List.length_cons, List.length_append] at enough
    have blanks := skipBlanks_write readable.1 (writeItems items ++ rest)
    have ends := ends_writeItems items rest
    have first := readValue_write item readable.1 fuel (by omega) _ fun _ _ => ends
    have later := readItems_write items readable.2 fuel (by omega) rest
    rw [writeItems, List.cons_append, List.append_assoc, readItems, blanks, first]
    simp only [Option.bind_eq_bind, Option.bind_some, skipBlanks_of_ends ends, later]
    rfl

theorem readEntry_write {limit : ℕ} (key : String) (value : Json)
    (readable : Readable limit value) : (fuel : ℕ) →
    (quoted key).length + ((write value).length + 1) ≤ fuel → (rest : List Char) → Ends rest →
    readEntry limit fuel (quoted key ++ ':' :: (write value ++ rest)) = some ((key, value), rest)
  | 0, enough, _, _ => by simp at enough
  | fuel + 1, enough, rest, ends => by
    have read := readValue_write value readable fuel (by omega) rest fun _ _ => ends
    rw [readEntry_quoted, skipBlanks_write readable, read]
    rfl

theorem readEntries_write {limit : ℕ} : (entries : List (String × Json)) →
    ReadableEntries limit entries → (fuel : ℕ) → (writeEntries entries).length ≤ fuel →
    (rest : List Char) → readEntries limit fuel (writeEntries entries ++ rest) =
      some (entries, rest)
  | [], _, 0, enough, _ => by simp [writeEntries] at enough
  | (_, _) :: _, _, 0, enough, _ => by simp [writeEntries] at enough
  | [], _, fuel + 1, _, rest => rfl
  | (key, value) :: entries, readable, fuel + 1, enough, rest => by
    rw [ReadableEntries] at readable
    rw [writeEntries] at enough
    simp only [List.length_cons, List.length_append] at enough
    have shown : writeEntries ((key, value) :: entries) ++ rest =
        ',' :: (quoted key ++ ':' :: (write value ++ (writeEntries entries ++ rest))) := by
      simp [writeEntries]
    have blanks (text : List Char) : skipBlanks (quoted key ++ text) = quoted key ++ text := rfl
    have ends := ends_writeEntries entries rest
    have first := readEntry_write key value readable.1 fuel (by omega) _ ends
    have later := readEntries_write entries readable.2 fuel (by omega) rest
    rw [shown, readEntries, blanks, first]
    simp only [Option.bind_eq_bind, Option.bind_some, skipBlanks_of_ends ends, later]
    rfl

end

/-- The text of a value is decoded to the value with sorted keys. -/
theorem loads_dumps {limit : ℕ} {value : Json} (readable : Readable limit value) :
    loads limit (dumps value) = some (sorted value) := by
  have readable' := readable_sorted value readable
  have blanks := skipBlanks_write readable' []
  have read := readValue_write (sorted value) readable' _ le_rfl [] fun _ _ _ none => by cases none
  rw [List.append_nil] at blanks read
  rw [loads, dumps, String.toList_ofList, blanks, read]
  rfl

/-- The texts of objects form a prefix code: what follows one does not change where it ends. -/
theorem write_append_inj {limit : ℕ} {first second : Json} (readable : Readable limit first)
    (readable' : Readable limit second) (isDict : IsDict first) (isDict' : IsDict second)
    {rest rest' : List Char} (same : write first ++ rest = write second ++ rest') :
    first = second ∧ rest = rest' := by
  have notInt {value : Json} (isDict : IsDict value) : ∀ n, value ≠ .int n := by
    obtain ⟨entries, rfl⟩ := isDict
    intro n isInt
    cases isInt
  -- enough fuel for both texts: one read finds both values and what follows them
  let fuel := (write first).length + (write second).length
  have read := readValue_write first readable fuel (Nat.le_add_right ..) rest
    fun n isInt => absurd isInt (notInt isDict n)
  have read' := readValue_write second readable' fuel (Nat.le_add_left ..) rest'
    fun n isInt => absurd isInt (notInt isDict' n)
  rw [same, read'] at read
  cases read
  exact ⟨rfl, rfl⟩

/-- The canonical text of an object that starts that of another is that text. -/
theorem dumps_eq_of_isPrefix {limit : ℕ} {first second : Json} (readable : Readable limit first)
    (readable' : Readable limit second) (isDict : IsDict first) (isDict' : IsDict second)
    (starts : (dumps first).toList <+: (dumps second).toList) : dumps first = dumps second := by
  obtain ⟨rest, same⟩ := starts
  rw [dumps, dumps, String.toList_ofList, String.toList_ofList,
    ← List.append_nil (write (sorted second))] at same
  have sortedSame := (write_append_inj (readable_sorted first readable)
    (readable_sorted second readable') (isDict_sorted isDict) (isDict_sorted isDict') same).1
  rw [dumps, dumps, sortedSame]

end Json

end Library
