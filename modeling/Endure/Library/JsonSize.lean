import Endure.Library.Json

/-!
# The size of JSON texts

A bound on the UTF-8 length of a compact text that follows the structure of the value and does not
depend on the order of entries.
-/

namespace Library.Json

/-- The UTF-8 length of some characters. -/
def bytes (chars : List Char) : ℕ := (chars.map Char.utf8Size).sum

@[simp] theorem bytes_nil : bytes [] = 0 := rfl

@[simp] theorem bytes_cons (c : Char) (chars : List Char) :
    bytes (c :: chars) = c.utf8Size + bytes chars := by
  rw [bytes, List.map_cons, List.sum_cons, bytes]

@[simp] theorem bytes_append (first second : List Char) :
    bytes (first ++ second) = bytes first + bytes second := by
  rw [bytes, List.map_append, List.sum_append, bytes, bytes]

theorem utf8ByteSize_ofList (chars : List Char) : (String.ofList chars).utf8ByteSize = bytes chars := by
  induction chars with
  | nil => rfl
  | cons c chars ih =>
    have split : String.ofList (c :: chars) = String.singleton c ++ String.ofList chars := by
      apply String.toList_inj.mp
      simp
    rw [split, String.utf8ByteSize_append, String.utf8ByteSize_singleton, ih, bytes_cons]

/-- A character of one byte that is written as itself. -/
def isPlain (c : Char) : Bool := c.utf8Size = 1 && escape c = [c]

/-- Printable ASCII other than the quote and the backslash is plain. -/
theorem isPlain_of {c : Char} (quote : c ≠ '"') (slash : c ≠ '\\') (printable : 32 ≤ c.toNat)
    (ascii : c.toNat < 128) : isPlain c = true := by
  have control (other : Char) (below : other.toNat < 32) : c ≠ other := by
    rintro rfl
    omega
  have size : c.utf8Size = 1 := by
    rw [Char.utf8Size_eq_one_iff, UInt32.le_iff_toNat_le]
    exact Nat.le_of_lt_succ ascii
  have self : escape c = [c] := by
    rw [escape, if_neg quote, if_neg slash, if_neg (control _ (by decide)),
      if_neg (control _ (by decide)), if_neg (control _ (by decide)),
      if_neg (control _ (by decide)), if_neg (control _ (by decide)), if_neg (by omega)]
  rw [isPlain, size, self]
  simp

theorem bytes_of_isPlain {chars : List Char} (plain : ∀ c ∈ chars, isPlain c = true) :
    bytes (chars.flatMap escape) = chars.length := by
  induction chars with
  | nil => rfl
  | cons c chars ih =>
    have head := plain c (List.mem_cons_self ..)
    simp only [isPlain, Bool.and_eq_true, decide_eq_true_eq] at head
    rw [List.flatMap_cons, bytes_append, head.2, bytes_cons, head.1, bytes_nil,
      ih fun c member => plain c (List.mem_cons_of_mem _ member), List.length_cons]
    omega

/-- A plain text has two quotes more than characters. -/
theorem bytes_quoted {text : String} (plain : text.toList.all isPlain = true) :
    bytes (quoted text) = text.length + 2 := by
  rw [List.all_eq_true] at plain
  have quote : Char.utf8Size '"' = 1 := rfl
  rw [quoted, bytes_cons, bytes_append, bytes_of_isPlain plain, bytes_cons, quote, bytes_nil,
    String.length_toList]
  omega

theorem bytes_digits (value : ℤ) : bytes (digits value) = (digits value).length := by
  have each : ∀ c ∈ digits value, Char.utf8Size c = 1 := by
    intro c member
    have isDigit : c.isDigit = true :=
      Nat.isDigit_of_mem_toDigits (by omega) (by omega) member
    rw [Char.isDigit, Bool.and_eq_true, decide_eq_true_eq, decide_eq_true_eq] at isDigit
    have small : ('9' : Char).val ≤ 127 := by decide
    rw [Char.utf8Size_eq_one_iff]
    exact UInt32.le_trans isDigit.2 small
  rw [bytes, List.map_congr_left each, List.map_const', List.sum_replicate, smul_eq_mul, mul_one]

/-- A number below a power of ten has at most as many digits. -/
theorem length_digits_le {value : ℤ} {width : ℕ} (nonneg : 0 ≤ value) (small : value < 10 ^ width)
    (pos : 0 < width) : (digits value).length ≤ width := by
  rw [digits, Nat.length_toDigits_le_iff (by omega) pos]
  rw [← Int.natAbs_of_nonneg nonneg] at small
  exact_mod_cast small

theorem bytes_writeInt {value : ℤ} (nonneg : 0 ≤ value) :
    bytes (writeInt value) = (digits value).length := by
  rw [writeInt, if_neg (not_lt.mpr nonneg), bytes_digits]

/-! ### A bound by structure -/

mutual

/-- At least the length of a value's text: every item and every entry is counted with a comma. -/
def size : Json → ℕ
  | .list items => 2 + sizeItems items
  | .dict entries => 2 + sizeEntries entries
  | scalar => bytes (write scalar)

def sizeItems : List Json → ℕ
  | [] => 0
  | item :: rest => 1 + size item + sizeItems rest

def sizeEntries : List (String × Json) → ℕ
  | [] => 0
  | (key, value) :: rest => bytes (quoted key) + 2 + size value + sizeEntries rest

end

theorem size_int_of_nonneg {value : ℤ} (nonneg : 0 ≤ value) :
    (Json.int value).size = (digits value).length := by
  rw [size, write, bytes_writeInt nonneg]
  all_goals simp

mutual

theorem bytes_write_le : (value : Json) → bytes (write value) ≤ size value
  | .null => by rw [size] <;> simp
  | .bool _ => by rw [size] <;> simp
  | .int _ => by rw [size] <;> simp
  | .float _ => by rw [size] <;> simp
  | .str _ => by rw [size] <;> simp
  | .list [] => by
    rw [size, sizeItems, write]
    decide
  | .list (item :: rest) => by
    have head := bytes_write_le item
    have tail := bytes_writeItems_le rest
    have bracket : Char.utf8Size '[' = 1 := rfl
    rw [size, sizeItems, write, bytes_cons, bytes_append, bracket]
    omega
  | .dict [] => by
    rw [size, sizeEntries, write]
    decide
  | .dict ((key, value) :: rest) => by
    have head := bytes_write_le value
    have tail := bytes_writeEntries_le rest
    have brace : Char.utf8Size '{' = 1 := rfl
    have colon : Char.utf8Size ':' = 1 := rfl
    rw [size, sizeEntries, write, bytes_cons, bytes_append, bytes_cons, bytes_append, brace, colon]
    omega

theorem bytes_writeItems_le : (items : List Json) → bytes (writeItems items) ≤ 1 + sizeItems items
  | [] => by
    rw [sizeItems, writeItems]
    decide
  | item :: rest => by
    have head := bytes_write_le item
    have tail := bytes_writeItems_le rest
    have comma : Char.utf8Size ',' = 1 := rfl
    rw [sizeItems, writeItems, bytes_cons, bytes_append, comma]
    omega

theorem bytes_writeEntries_le : (entries : List (String × Json)) →
    bytes (writeEntries entries) ≤ 1 + sizeEntries entries
  | [] => by
    rw [sizeEntries, writeEntries]
    decide
  | (key, value) :: rest => by
    have head := bytes_write_le value
    have tail := bytes_writeEntries_le rest
    have comma : Char.utf8Size ',' = 1 := rfl
    have colon : Char.utf8Size ':' = 1 := rfl
    rw [sizeEntries, writeEntries, bytes_cons, bytes_append, bytes_cons, bytes_append, comma, colon]
    omega

end

theorem sizeItems_eq_sum (items : List Json) :
    sizeItems items = (items.map fun item => 1 + size item).sum := by
  induction items with
  | nil => rfl
  | cons item rest ih => rw [sizeItems, ih, List.map_cons, List.sum_cons]

theorem sizeEntries_eq_sum (entries : List (String × Json)) :
    sizeEntries entries =
      (entries.map fun entry => bytes (quoted entry.1) + 2 + size entry.2).sum := by
  induction entries with
  | nil => rfl
  | cons entry rest ih => rw [sizeEntries, ih, List.map_cons, List.sum_cons]

mutual

/-- The bound does not depend on the order of entries. -/
theorem size_sorted : (value : Json) → size (sorted value) = size value
  | .null => by simp only [sorted]
  | .bool _ => by simp only [sorted]
  | .int _ => by simp only [sorted]
  | .float _ => by simp only [sorted]
  | .str _ => by simp only [sorted]
  | .list items => by rw [sorted, size, size, sizeItems_sorted items]
  | .dict entries => by
    rw [sorted, size, size, ← sizeEntries_sorted entries, sizeEntries_eq_sum, sizeEntries_eq_sum]
    exact congrArg (2 + ·) ((perm_sortBy Prod.fst (sortedEntries entries)).map _).sum_eq

theorem sizeItems_sorted : (items : List Json) → sizeItems (sortedItems items) = sizeItems items
  | [] => by rw [sortedItems]
  | item :: rest => by
    rw [sortedItems, sizeItems, sizeItems, size_sorted item, sizeItems_sorted rest]

theorem sizeEntries_sorted : (entries : List (String × Json)) →
    sizeEntries (sortedEntries entries) = sizeEntries entries
  | [] => by rw [sortedEntries]
  | (_, value) :: rest => by
    rw [sortedEntries, sizeEntries, sizeEntries, size_sorted value, sizeEntries_sorted rest]

end

/-- The canonical text of a value is no longer than the bound. -/
theorem utf8ByteSize_dumps_le (value : Json) : (dumps value).utf8ByteSize ≤ size value := by
  rw [dumps, utf8ByteSize_ofList]
  exact (bytes_write_le _).trans (size_sorted value).le

/-- Items of bounded size. -/
theorem sizeItems_le {items : List Json} {bound : ℕ} (each : ∀ item ∈ items, size item ≤ bound) :
    sizeItems items ≤ items.length * (1 + bound) := by
  rw [sizeItems_eq_sum, ← smul_eq_mul, ← List.length_map (fun item => 1 + size item)]
  apply List.sum_le_card_nsmul
  intro amount member
  obtain ⟨item, listed, rfl⟩ := List.mem_map.mp member
  exact Nat.add_le_add_left (each item listed) 1

end Library.Json
