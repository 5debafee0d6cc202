import Mathlib

/-!
# The owner's burn commitment

A commitment record arrives from the chain as an untyped object. It decodes to a
text only when it is one UTF-8 `Raw` field of the length its name gives, and a text
sets a burn rate only when it is exactly the one an owner publishes for it.
-/

namespace Endure.Scoring

/-- The values a decoded chain record is made of. -/
inductive PyObject
  | none
  | bool (value : Bool)
  | int (value : ℤ)
  | str (value : String)
  | list (items : List PyObject)
  | tuple (items : List PyObject)
  | dict (entries : List (PyObject × PyObject))
  | other

namespace PyObject

/-- Whether a key is the given string. -/
def isStr (text : String) : PyObject → Bool
  | str value => value = text
  | _ => false

/-- `record.get(key)` of a mapping, the missing key and every other object giving `None`. -/
def get (key : String) : PyObject → PyObject
  | dict entries => ((entries.find? fun entry => entry.1.isStr key).map Prod.snd).getD none
  | _ => none

/-- The items of a list or a tuple. -/
def items? : PyObject → Option (List PyObject)
  | list items => some items
  | tuple items => some items
  | _ => Option.none

end PyObject

/-! ### Text of a record -/

/-- The characters `bytes.fromhex` skips between bytes. -/
def asciiSpace (c : Char) : Bool := c = ' ' || (9 ≤ c.toNat && c.toNat ≤ 13)

/-- The value of one hexadecimal digit of either case. -/
def hexValue (c : Char) : Option ℕ :=
  if '0' ≤ c ∧ c ≤ '9' then some (c.toNat - '0'.toNat)
  else if 'a' ≤ c ∧ c ≤ 'f' then some (c.toNat - 'a'.toNat + 10)
  else if 'A' ≤ c ∧ c ≤ 'F' then some (c.toNat - 'A'.toNat + 10)
  else none

/-- `bytes.fromhex`: pairs of adjacent digits, whitespace allowed between bytes. -/
def fromHex : List Char → Option (List UInt8)
  | [] => some []
  | [c] => if asciiSpace c then some [] else none
  | c :: d :: rest =>
    if asciiSpace c then fromHex (d :: rest)
    else
      match hexValue c, hexValue d with
      | some high, some low => (fromHex rest).map (UInt8.ofNat (16 * high + low) :: ·)
      | _, _ => none

/-- Drop a leading part when it is there. -/
def removePrefix (lead text : List Char) : List Char :=
  if lead.isPrefixOf text then text.drop lead.length else text

/-- `Raw([0-9]{1,3})`: the digits of a raw field's name. -/
def rawCommitmentField (variant : String) : Option (List Char) :=
  let text := variant.toList
  let digits := text.drop 3
  if "Raw".toList.isPrefixOf text ∧ 1 ≤ digits.length ∧ digits.length ≤ 3 ∧
      digits.all Char.isDigit then
    some digits
  else none

/-- The text of one raw field's value: UTF-8 bytes, as many as the name says. -/
def rawFieldText (digits : List Char) (value : String) : String :=
  match fromHex (removePrefix "0x".toList value.toList) with
  | none => ""
  | some data =>
    match String.fromUTF8? ⟨data.toArray⟩ with
    | none => ""
    | some text => if data.length = Nat.ofDigitChars 10 digits 0 then text else ""

/-- Decode one on-chain commitment record to its text: none when no commitment
exists, the empty text when the record is not exactly one UTF-8 `Raw` field. -/
def commitmentText (metadata : PyObject) : Option String :=
  match metadata with
  | .none => none
  | .str "" => none
  | record =>
    match ((record.get "info").get "fields").items? with
    | some [.dict [(.str variant, .str value)]] =>
      match rawCommitmentField variant with
      | some digits => some (rawFieldText digits value)
      | none => some ""
    | _ => some ""

/-! ### Rate of a text -/

/-- Basis points of the whole vote. -/
def burnBpsDenominator : ℕ := 10000

/-- The rate that burns the whole vote. -/
def fullBurnBps : ℕ := burnBpsDenominator

/-- What every burn commitment starts with. -/
def burnCommitmentPrefix : String := "endure.burn_bps="

/-- The exact commitment an owner publishes for a rate. -/
def burnCommitmentText (burnBps : ℕ) : Except String String :=
  if burnBps ≤ fullBurnBps then .ok (burnCommitmentPrefix ++ toString burnBps)
  else .error "burn rate must be 0..10000 basis points"

/-- `(0|[1-9][0-9]{0,4})`: a canonical decimal of at most five digits. -/
def burnDigits : List Char → Bool
  | ['0'] => true
  | first :: rest =>
    first.isDigit && first ≠ '0' && decide (rest.length ≤ 4) && rest.all Char.isDigit
  | [] => false

/-- The digits of a text that is a burn commitment as a whole. -/
def burnCommitmentDigits (text : String) : Option (List Char) :=
  let lead := burnCommitmentPrefix.toList
  let digits := text.toList.drop lead.length
  if lead.isPrefixOf text.toList ∧ burnDigits digits then some digits else none

/-- Burn rate in basis points; anything but an exact commitment burns all. -/
def parseBurnRate (text : Option String) : ℕ :=
  match text.bind burnCommitmentDigits with
  | none => fullBurnBps
  | some digits =>
    let burnBps := Nat.ofDigitChars 10 digits 0
    if burnBps ≤ fullBurnBps then burnBps else fullBurnBps

/-! ### Rates and their commitments -/

private theorem digitChar_of_isDigit {c : Char} (digit : c.isDigit) :
    ∃ d < 10, Nat.digitChar d = c ∧ c.toNat - '0'.toNat = d := by
  have bounds : 48 ≤ c.toNat ∧ c.toNat ≤ 57 := by
    simp only [Char.isDigit, Bool.and_eq_true, decide_eq_true_eq] at digit
    exact digit
  refine ⟨c.toNat - 48, by omega, ?_, rfl⟩
  have : ∀ n, n < 58 → 48 ≤ n → Nat.digitChar (n - 48) = Char.ofNat n := by decide
  rw [this c.toNat (by omega) bounds.1, Char.ofNat_toNat]

/-- Appending a digit to a positive decimal appends its character. -/
private theorem toDigits_ofDigitChars_append {init : ℕ} (positive : 0 < init) (digits : List Char)
    (all : ∀ c ∈ digits, c.isDigit) :
    Nat.toDigits 10 (Nat.ofDigitChars 10 digits init) = Nat.toDigits 10 init ++ digits := by
  induction digits generalizing init with
  | nil => simp
  | cons c rest ih =>
    obtain ⟨d, small, char, value⟩ := digitChar_of_isDigit (all c List.mem_cons_self)
    rw [Nat.ofDigitChars_cons, value, ih (by omega) fun later member =>
        all later (List.mem_cons_of_mem _ member),
      ← Nat.toDigits_append_toDigits (by norm_num) positive small,
      Nat.toDigits_of_lt_base small, char, List.append_assoc]
    rfl

/-- The canonical decimals are the numerals of their values. -/
theorem toDigits_ofDigitChars_of_burnDigits {digits : List Char} (canonical : burnDigits digits) :
    Nat.toDigits 10 (Nat.ofDigitChars 10 digits 0) = digits := by
  unfold burnDigits at canonical
  split at canonical
  · decide
  · next first rest _ =>
    simp only [Bool.and_eq_true, decide_eq_true_eq, List.all_eq_true] at canonical
    obtain ⟨⟨⟨digit, nonzero⟩, -⟩, all⟩ := canonical
    obtain ⟨d, small, char, value⟩ := digitChar_of_isDigit digit
    have positive : 0 < d := by
      apply Nat.pos_of_ne_zero
      rintro rfl
      exact nonzero (char.symm.trans rfl)
    rw [Nat.ofDigitChars_cons, value, Nat.mul_zero, Nat.zero_add,
      toDigits_ofDigitChars_append positive rest all, Nat.toDigits_of_lt_base small, char]
    rfl
  · cases canonical

/-- A text that sets less than the full burn is the commitment published for it. -/
theorem parseBurnRate_lt {text : Option String} (less : parseBurnRate text < fullBurnBps) :
    ∃ published, text = some published ∧
      burnCommitmentText (parseBurnRate text) = .ok published := by
  have partly := less
  unfold parseBurnRate at less
  split at less
  · exact absurd less (lt_irrefl _)
  · next digits found =>
    obtain ⟨published, rfl, matched⟩ := Option.bind_eq_some_iff.mp found
    refine ⟨published, rfl, ?_⟩
    have rate : parseBurnRate (some published) = Nat.ofDigitChars 10 digits 0 := by
      have bounded : Nat.ofDigitChars 10 digits 0 ≤ fullBurnBps := by
        by_contra above
        rw [if_neg above] at less
        exact lt_irrefl _ less
      simp only [parseBurnRate, found, if_pos bounded]
    unfold burnCommitmentDigits at matched
    simp only at matched
    split_ifs at matched with fits
    obtain ⟨lead, canonical⟩ := fits
    have shape := List.prefix_iff_eq_append.mp (List.isPrefixOf_iff_prefix.mp lead)
    obtain rfl : published.toList.drop burnCommitmentPrefix.toList.length = digits :=
      Option.some.inj matched
    rw [burnCommitmentText, if_pos (rate ▸ partly.le), rate, Nat.toString_eq_repr]
    congr 1
    rw [← String.toList_inj, String.toList_append, Nat.toList_repr,
      toDigits_ofDigitChars_of_burnDigits canonical]
    exact shape

/-- A positive numeral starts with a digit other than zero. -/
private theorem toDigits_head {n : ℕ} (positive : 0 < n) :
    ∃ first rest, Nat.toDigits 10 n = first :: rest ∧ first ≠ '0' := by
  induction n using Nat.strong_induction_on with
  | _ n ih =>
    by_cases small : n < 10
    · refine ⟨Nat.digitChar n, [], Nat.toDigits_of_lt_base small, ?_⟩
      interval_cases n <;> decide
    · obtain ⟨first, rest, shape, nonzero⟩ := ih (n / 10) (by omega) (by omega)
      refine ⟨first, rest ++ [(n % 10).digitChar], ?_, nonzero⟩
      rw [Nat.toDigits_of_base_le (by norm_num) (by omega), shape, List.cons_append]

/-- The numerals up to the full burn are canonical. -/
private theorem burnDigits_toDigits {n : ℕ} (bounded : n ≤ fullBurnBps) :
    burnDigits (Nat.toDigits 10 n) := by
  have digits : ∀ c ∈ Nat.toDigits 10 n, c.isDigit := fun c member =>
    Nat.isDigit_of_mem_toDigits (by norm_num) (by norm_num) member
  by_cases hzero : n = 0
  · subst hzero
    decide
  · obtain ⟨first, rest, shape, nonzero⟩ := toDigits_head (Nat.pos_of_ne_zero hzero)
    have short : (Nat.toDigits 10 n).length ≤ 5 := by
      rw [Nat.length_toDigits_le_iff (by norm_num) (by norm_num)]
      exact bounded.trans_lt (by decide)
    rw [shape] at short digits ⊢
    unfold burnDigits
    split
    · rfl
    · next first' rest' _ same =>
      obtain ⟨rfl, rfl⟩ := List.cons.inj same
      simp only [Bool.and_eq_true, decide_eq_true_eq, List.all_eq_true]
      refine ⟨⟨⟨digits _ List.mem_cons_self, nonzero⟩, ?_⟩, ?_⟩
      · simpa [Nat.lt_succ_iff] using short
      · exact fun c member => digits c (List.mem_cons_of_mem _ member)
    · next empty => cases empty

/-- Parsing recovers the rate of every published commitment. -/
theorem parseBurnRate_burnCommitmentText {n : ℕ} {published : String}
    (valid : burnCommitmentText n = .ok published) : parseBurnRate (some published) = n := by
  rw [burnCommitmentText] at valid
  split_ifs at valid with bounded
  obtain rfl := Except.ok.inj valid
  have text : (burnCommitmentPrefix ++ toString n).toList =
      burnCommitmentPrefix.toList ++ Nat.toDigits 10 n := by
    rw [String.toList_append, Nat.toString_eq_repr, Nat.toList_repr]
  have found : burnCommitmentDigits (burnCommitmentPrefix ++ toString n) =
      some (Nat.toDigits 10 n) := by
    simp only [burnCommitmentDigits, text, List.drop_left]
    rw [if_pos ⟨List.isPrefixOf_iff_prefix.mpr (List.prefix_append _ _),
      burnDigits_toDigits bounded⟩]
  simp only [parseBurnRate, Option.bind_some, found, Nat.ofDigitChars_ten_toDigits,
    if_pos bounded]

end Endure.Scoring
