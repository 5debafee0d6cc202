import Endure.Library.SortBy

/-!
# JSON values and their compact texts

Values as a decoder yields them, and the compact text of a value: no blanks, every character
that needs no escape written as itself. Sorting the entries of every object first makes the
text a function of the value up to the order of its entries.
-/

namespace Library

/-- A JSON value. A number with a fraction or an exponent is kept as its text. -/
inductive Json where
  | null
  | bool (value : Bool)
  | int (value : ℤ)
  | float (literal : String)
  | str (text : String)
  | list (items : List Json)
  | dict (entries : List (String × Json))

namespace Json

/-! ### Texts -/

/-- A character inside a string: quotes, backslashes and control characters are escaped. -/
def escape (c : Char) : List Char :=
  if c = '"' then ['\\', '"']
  else if c = '\\' then ['\\', '\\']
  else if c = '\n' then ['\\', 'n']
  else if c = '\r' then ['\\', 'r']
  else if c = '\t' then ['\\', 't']
  else if c = '\x08' then ['\\', 'b']
  else if c = '\x0c' then ['\\', 'f']
  else if c.toNat < 32 then
    ['\\', 'u', '0', '0', Nat.digitChar (c.toNat / 16), Nat.digitChar (c.toNat % 16)]
  else [c]

/-- A string between quotes, the closing one included. -/
def quoted (text : String) : List Char := '"' :: (text.toList.flatMap escape ++ ['"'])

/-- The decimal digits of the magnitude of an integer. -/
def digits (value : ℤ) : List Char := Nat.toDigits 10 value.natAbs

def writeInt (value : ℤ) : List Char := if value < 0 then '-' :: digits value else digits value

mutual

/-- The compact text of a value. -/
def write : Json → List Char
  | .null => ['n', 'u', 'l', 'l']
  | .bool true => ['t', 'r', 'u', 'e']
  | .bool false => ['f', 'a', 'l', 's', 'e']
  | .int value => writeInt value
  | .float literal => literal.toList
  | .str text => quoted text
  | .list [] => ['[', ']']
  | .list (item :: rest) => '[' :: (write item ++ writeItems rest)
  | .dict [] => ['{', '}']
  | .dict ((key, value) :: rest) => '{' :: (quoted key ++ ':' :: (write value ++ writeEntries rest))

/-- The items after the first, up to the closing bracket. -/
def writeItems : List Json → List Char
  | [] => [']']
  | item :: rest => ',' :: (write item ++ writeItems rest)

/-- The entries after the first, up to the closing brace. -/
def writeEntries : List (String × Json) → List Char
  | [] => ['}']
  | (key, value) :: rest => ',' :: (quoted key ++ ':' :: (write value ++ writeEntries rest))

end

mutual

/-- The value with the entries of every object sorted by key. -/
def sorted : Json → Json
  | .list items => .list (sortedItems items)
  | .dict entries => .dict (sortBy Prod.fst (sortedEntries entries))
  | other => other

def sortedItems : List Json → List Json
  | [] => []
  | item :: rest => sorted item :: sortedItems rest

def sortedEntries : List (String × Json) → List (String × Json)
  | [] => []
  | (key, value) :: rest => (key, sorted value) :: sortedEntries rest

end

/-- The compact text of a value with sorted keys. -/
def dumps (value : Json) : String := String.ofList (write (sorted value))

/-! ### Values that are read back -/

mutual

/-- No fraction, no key twice in an object, and no integer of more digits than a limit, where
zero is no limit. -/
def Readable (limit : ℕ) : Json → Prop
  | .float _ => False
  | .int value => limit = 0 ∨ (digits value).length ≤ limit
  | .list items => ReadableItems limit items
  | .dict entries => (entries.map Prod.fst).Nodup ∧ ReadableEntries limit entries
  | _ => True

def ReadableItems (limit : ℕ) : List Json → Prop
  | [] => True
  | item :: rest => Readable limit item ∧ ReadableItems limit rest

def ReadableEntries (limit : ℕ) : List (String × Json) → Prop
  | [] => True
  | (_, value) :: rest => Readable limit value ∧ ReadableEntries limit rest

end

variable {limit : ℕ}

theorem readableItems_iff {items : List Json} :
    ReadableItems limit items ↔ ∀ item ∈ items, Readable limit item := by
  induction items with
  | nil => simp [ReadableItems]
  | cons item rest ih => rw [ReadableItems, ih, List.forall_mem_cons]

theorem readableEntries_iff {entries : List (String × Json)} :
    ReadableEntries limit entries ↔ ∀ entry ∈ entries, Readable limit entry.2 := by
  induction entries with
  | nil => simp [ReadableEntries]
  | cons entry rest ih => rw [ReadableEntries, ih, List.forall_mem_cons]

theorem sortedItems_eq_map (items : List Json) : sortedItems items = items.map sorted := by
  induction items with
  | nil => rw [sortedItems, List.map_nil]
  | cons item rest ih => rw [sortedItems, ih, List.map_cons]

theorem sortedEntries_eq_map (entries : List (String × Json)) :
    sortedEntries entries = entries.map fun entry => (entry.1, sorted entry.2) := by
  induction entries with
  | nil => rw [sortedEntries, List.map_nil]
  | cons entry rest ih => rw [sortedEntries, ih, List.map_cons]

theorem keys_sortedEntries (entries : List (String × Json)) :
    (sortedEntries entries).map Prod.fst = entries.map Prod.fst := by
  rw [sortedEntries_eq_map, List.map_map]
  rfl

mutual

/-- Sorting keeps a value readable. -/
theorem readable_sorted : (value : Json) → Readable limit value → Readable limit (sorted value)
  | .null, readable => by simpa only [sorted] using readable
  | .bool _, readable => by simpa only [sorted] using readable
  | .int _, readable => by simpa only [sorted] using readable
  | .float _, readable => by simpa only [sorted] using readable
  | .str _, readable => by simpa only [sorted] using readable
  | .list items, readable => by
    rw [sorted, Readable]
    rw [Readable] at readable
    exact readable_sortedItems items readable
  | .dict entries, readable => by
    rw [sorted, Readable, readableEntries_iff]
    rw [Readable] at readable
    have each := readableEntries_iff.mp (readable_sortedEntries entries readable.2)
    refine ⟨nodup_map_sortBy ?_, ?_⟩
    · rw [keys_sortedEntries]
      exact readable.1
    · intro entry member
      exact each entry (mem_sortBy.mp member)

theorem readable_sortedItems : (items : List Json) → ReadableItems limit items →
    ReadableItems limit (sortedItems items)
  | [], _ => by rw [sortedItems, ReadableItems]; trivial
  | item :: rest, readable => by
    rw [ReadableItems] at readable
    rw [sortedItems, ReadableItems]
    exact ⟨readable_sorted item readable.1, readable_sortedItems rest readable.2⟩

theorem readable_sortedEntries : (entries : List (String × Json)) → ReadableEntries limit entries →
    ReadableEntries limit (sortedEntries entries)
  | [], _ => by rw [sortedEntries, ReadableEntries]; trivial
  | (_, value) :: rest, readable => by
    rw [ReadableEntries] at readable
    rw [sortedEntries, ReadableEntries]
    exact ⟨readable_sorted value readable.1, readable_sortedEntries rest readable.2⟩

end

/-- An object. -/
def IsDict (value : Json) : Prop := ∃ entries, value = .dict entries

theorem isDict_sorted {value : Json} (isDict : IsDict value) : IsDict (sorted value) := by
  obtain ⟨entries, rfl⟩ := isDict
  exact ⟨_, by rw [sorted]⟩

end Json

end Library
