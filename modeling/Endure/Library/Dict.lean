import Mathlib

/-!
# Insertion-ordered dictionaries

A dictionary lists its entries in the order their keys were first written and
holds at most one entry a key. Writing a key that is present replaces its value
in place; writing a new one appends it. The same structure serves as a keyed
table whose primary key admits one row.
-/

namespace Library

/-- Entries in insertion order, at most one a key. -/
structure Dict (κ ν : Type*) where
  entries : List (κ × ν)
  nodup : (entries.map Prod.fst).Nodup

namespace Dict

variable {κ ν ω : Type*}

/-- The dictionary without entries. -/
def empty : Dict κ ν := ⟨[], List.nodup_nil⟩

instance : Inhabited (Dict κ ν) := ⟨empty⟩

/-- The keys in insertion order. -/
def keys (d : Dict κ ν) : List κ := d.entries.map Prod.fst

/-- The values in insertion order. -/
def values (d : Dict κ ν) : List ν := d.entries.map Prod.snd

theorem keys_nodup (d : Dict κ ν) : d.keys.Nodup := d.nodup

/-- Rewrite every value, keeping keys and order. -/
def map (d : Dict κ ν) (f : κ → ν → ω) : Dict κ ω where
  entries := d.entries.map fun entry => (entry.1, f entry.1 entry.2)
  nodup := by
    rw [List.map_map]
    exact d.nodup

@[simp] theorem keys_map (d : Dict κ ν) (f : κ → ν → ω) : (d.map f).keys = d.keys := by
  simp only [keys, map, List.map_map]
  rfl

/-- Keep the entries that satisfy a test. -/
def filter (d : Dict κ ν) (p : κ → ν → Bool) : Dict κ ν where
  entries := d.entries.filter fun entry => p entry.1 entry.2
  nodup := d.nodup.sublist (List.filter_sublist.map Prod.fst)

theorem eq_of_entries {d e : Dict κ ν} (same : d.entries = e.entries) : d = e := by
  obtain ⟨entries, nodup⟩ := d
  cases same
  rfl

theorem entries_filter (d : Dict κ ν) (p : κ → ν → Bool) :
    (d.filter p).entries = d.entries.filter fun entry => p entry.1 entry.2 := rfl

theorem entries_map (d : Dict κ ν) (f : κ → ν → ω) :
    (d.map f).entries = d.entries.map fun entry => (entry.1, f entry.1 entry.2) := rfl

theorem filter_filter (d : Dict κ ν) (p q : κ → ν → Bool) :
    (d.filter p).filter q = d.filter fun key value => q key value && p key value :=
  eq_of_entries List.filter_filter

theorem filter_congr {d : Dict κ ν} {p q : κ → ν → Bool}
    (agree : ∀ entry ∈ d.entries, p entry.1 entry.2 = q entry.1 entry.2) :
    d.filter p = d.filter q :=
  eq_of_entries (List.filter_congr agree)

theorem map_map {μ : Type*} (d : Dict κ ν) (f : κ → ν → ω) (g : κ → ω → μ) :
    (d.map f).map g = d.map fun key value => g key (f key value) :=
  eq_of_entries List.map_map

theorem map_congr {d : Dict κ ν} {f g : κ → ν → ω}
    (agree : ∀ entry ∈ d.entries, f entry.1 entry.2 = g entry.1 entry.2) : d.map f = d.map g :=
  eq_of_entries (List.map_congr_left fun entry member => congrArg (Prod.mk entry.1)
    (agree entry member))

variable [DecidableEq κ]

/-- The value under a key, if any. -/
def get? (d : Dict κ ν) (key : κ) : Option ν :=
  (d.entries.find? fun entry => entry.1 = key).map Prod.snd

/-- The value under a key, or a default. -/
def getD (d : Dict κ ν) (key : κ) (default : ν) : ν := (d.get? key).getD default

/-- Whether a key has an entry. -/
def contains (d : Dict κ ν) (key : κ) : Bool := (d.get? key).isSome

@[simp] theorem get?_empty (key : κ) : (empty : Dict κ ν).get? key = none := rfl

private theorem find?_of_nodup {entries : List (κ × ν)} (nodup : (entries.map Prod.fst).Nodup)
    {key : κ} {value : ν} (member : (key, value) ∈ entries) :
    entries.find? (fun entry => entry.1 = key) = some (key, value) := by
  induction entries with
  | nil => simp at member
  | cons entry rest ih =>
    rw [List.map_cons, List.nodup_cons] at nodup
    rcases List.mem_cons.mp member with rfl | later
    · simp
    · have other : entry.1 ≠ key := fun same =>
        nodup.1 (same ▸ List.mem_map.mpr ⟨(key, value), later, rfl⟩)
      simpa [List.find?_cons, other] using ih nodup.2 later

/-- Lookup finds exactly the entries. -/
theorem get?_eq_some_iff {d : Dict κ ν} {key : κ} {value : ν} :
    d.get? key = some value ↔ (key, value) ∈ d.entries := by
  constructor
  · intro found
    obtain ⟨⟨key', value'⟩, located, rfl⟩ := Option.map_eq_some_iff.mp found
    have same : key' = key := by simpa using List.find?_some located
    exact same ▸ List.mem_of_find?_eq_some located
  · intro member
    rw [get?, find?_of_nodup d.nodup member, Option.map_some]

theorem get?_eq_none_iff {d : Dict κ ν} {key : κ} : d.get? key = none ↔ key ∉ d.keys := by
  rw [get?, Option.map_eq_none_iff, List.find?_eq_none, keys, List.mem_map]
  constructor
  · rintro absent ⟨entry, member, rfl⟩
    exact absent entry member (by simp)
  · intro absent entry member same
    exact absent ⟨entry, member, by simpa using same⟩

theorem mem_keys_iff {d : Dict κ ν} {key : κ} : key ∈ d.keys ↔ ∃ value, d.get? key = some value := by
  rw [← not_iff_not, ← get?_eq_none_iff]
  cases d.get? key <;> simp

@[simp] theorem contains_iff {d : Dict κ ν} {key : κ} : d.contains key = true ↔ key ∈ d.keys := by
  rw [contains, Option.isSome_iff_exists, mem_keys_iff]

@[simp] theorem get?_map (d : Dict κ ν) (f : κ → ν → ω) (key : κ) :
    (d.map f).get? key = (d.get? key).map (f key) := by
  cases found : d.get? key with
  | none =>
    rw [Option.map_none, get?_eq_none_iff, keys_map]
    exact get?_eq_none_iff.mp found
  | some value =>
    rw [Option.map_some, get?_eq_some_iff]
    exact List.mem_map.mpr ⟨(key, value), get?_eq_some_iff.mp found, rfl⟩

theorem getD_of_notMem {d : Dict κ ν} {key : κ} (absent : key ∉ d.keys) (default : ν) :
    d.getD key default = default := by
  rw [getD, get?_eq_none_iff.mpr absent, Option.getD_none]

/-- The values are the lookups of the keys. -/
theorem values_eq_map_keys (d : Dict κ ν) (default : ν) :
    d.values = d.keys.map fun key => d.getD key default := by
  rw [values, keys, List.map_map]
  refine List.map_congr_left fun entry member => ?_
  rw [Function.comp_apply, getD, get?_eq_some_iff.mpr (show (entry.1, entry.2) ∈ d.entries from member),
    Option.getD_some]

theorem get?_filter (d : Dict κ ν) (p : κ → ν → Bool) (key : κ) :
    (d.filter p).get? key = (d.get? key).filter (p key) := by
  cases found : d.get? key with
  | none =>
    rw [Option.filter_none, get?_eq_none_iff]
    intro member
    obtain ⟨entry, kept, rfl⟩ := List.mem_map.mp member
    exact get?_eq_none_iff.mp found (List.mem_map.mpr ⟨entry, (List.mem_filter.mp kept).1, rfl⟩)
  | some value =>
    have member := get?_eq_some_iff.mp found
    by_cases passes : p key value
    · rw [Option.filter_some, if_pos passes, get?_eq_some_iff]
      exact List.mem_filter.mpr ⟨member, passes⟩
    · rw [Option.filter_some, if_neg passes, get?_eq_none_iff]
      intro inside
      obtain ⟨⟨key', value'⟩, kept, rfl⟩ := List.mem_map.mp inside
      obtain ⟨original, accepted⟩ := List.mem_filter.mp kept
      have same : value' = value :=
        Option.some.inj ((get?_eq_some_iff.mpr original).symm.trans found)
      exact passes (same ▸ accepted)

theorem mem_values_filter {d : Dict κ ν} {p : κ → ν → Bool} {value : ν} :
    value ∈ (d.filter p).values ↔ ∃ key, d.get? key = some value ∧ p key value = true := by
  rw [values, List.mem_map]
  constructor
  · rintro ⟨⟨key, _⟩, member, rfl⟩
    obtain ⟨listed, passes⟩ := List.mem_filter.mp member
    exact ⟨key, get?_eq_some_iff.mpr listed, passes⟩
  · rintro ⟨key, found, passes⟩
    exact ⟨(key, value), List.mem_filter.mpr ⟨get?_eq_some_iff.mp found, passes⟩, rfl⟩

/-! ### Dictionaries that agree on a part -/

section Agreement

omit [DecidableEq κ] in
/-- What a test accepts within a part is the same in dictionaries that agree on the part. -/
theorem filter_eq_of_filter_eq {d e : Dict κ ν} {part test : κ → ν → Bool}
    (same : d.filter part = e.filter part)
    (within : ∀ key value, test key value = true → part key value = true) :
    d.filter test = e.filter test := by
  have narrow (d : Dict κ ν) : (d.filter part).filter test = d.filter test := by
    rw [filter_filter]
    refine filter_congr fun entry _ => ?_
    by_cases accepted : test entry.1 entry.2 = true
    · rw [accepted, within _ _ accepted, Bool.and_true]
    · rw [Bool.not_eq_true] at accepted
      rw [accepted, Bool.false_and]
  rw [← narrow d, same, narrow e]

/-- So is what is found under a key of the part. -/
theorem get?_eq_of_filter_eq {d e : Dict κ ν} {part : κ → ν → Bool}
    (same : d.filter part = e.filter part) {key : κ} (within : ∀ value, part key value = true) :
    d.get? key = e.get? key := by
  have narrow (d : Dict κ ν) : (d.filter part).get? key = d.get? key := by
    rw [get?_filter]
    cases d.get? key with
    | none => rfl
    | some value => rw [Option.filter_some, if_pos (within value)]
  rw [← narrow d, same, narrow e]

end Agreement

/-- Write one entry: in place when the key is present, at the end otherwise. -/
def set (d : Dict κ ν) (key : κ) (value : ν) : Dict κ ν :=
  if present : key ∈ d.keys then
    d.map fun other old => if other = key then value else old
  else
    { entries := d.entries ++ [(key, value)]
      nodup := by
        rw [List.map_append, List.map_cons, List.map_nil]
        exact d.nodup.append (List.nodup_singleton key)
          (List.disjoint_singleton.mpr present) }

@[simp] theorem get?_set (d : Dict κ ν) (key other : κ) (value : ν) :
    (d.set key value).get? other = if other = key then some value else d.get? other := by
  by_cases present : key ∈ d.keys
  · rw [set, dif_pos present, get?_map]
    by_cases same : other = key
    · obtain ⟨old, found⟩ := mem_keys_iff.mp present
      simp [same, found]
    · simp [same]
  · have appended : (d.set key value).entries = d.entries ++ [(key, value)] := by
      rw [set, dif_neg present]
    by_cases same : other = key
    · rw [if_pos same, get?_eq_some_iff, appended, same]
      simp
    · rw [if_neg same]
      ext candidate
      rw [get?_eq_some_iff, get?_eq_some_iff, appended]
      simp [same]

/-- What a key holds after a write relates to what it held, when what is written relates to what it
replaces. -/
theorem exists_get?_set {related : ν → ν → Prop} {d : Dict κ ν} {key other : κ} {value old new : ν}
    (found : d.get? key = some value) (held : d.get? other = some old) (stays : related value value)
    (writes : related old new) :
    ∃ kept, (d.set other new).get? key = some kept ∧ related value kept := by
  rw [get?_set]
  split
  · next here =>
    subst here
    obtain rfl := Option.some.inj (found.symm.trans held)
    exact ⟨new, rfl, writes⟩
  · exact ⟨value, found, stays⟩

theorem mem_keys_set {d : Dict κ ν} {key other : κ} {value : ν} :
    other ∈ (d.set key value).keys ↔ other = key ∨ other ∈ d.keys := by
  rw [mem_keys_iff, mem_keys_iff, get?_set]
  by_cases same : other = key <;> simp [same]

theorem values_filter_set {d : Dict κ ν} {key : κ} (absent : key ∉ d.keys) (value : ν)
    (p : κ → ν → Bool) : ((d.set key value).filter p).values =
      (d.filter p).values ++ if p key value then [value] else [] := by
  have appended : (d.set key value).entries = d.entries ++ [(key, value)] := by
    rw [set, dif_neg absent]
  by_cases passes : p key value <;> simp [values, filter, appended, passes]

/-- Two dictionaries with the same keys in the same order and the same lookups are equal. -/
theorem eq_of_get? {d e : Dict κ ν} (keys : d.keys = e.keys) (agree : ∀ key, d.get? key = e.get? key) :
    d = e := by
  have listed (d : Dict κ ν) : d.entries = d.keys.filterMap fun key => (d.get? key).map (key, ·) := by
    rw [Dict.keys, List.filterMap_map]
    conv_lhs => rw [← List.filterMap_some (l := d.entries)]
    refine (List.filterMap_congr fun entry member => ?_)
    rw [Function.comp_apply, get?_eq_some_iff.mpr (show (entry.1, entry.2) ∈ d.entries from member),
      Option.map_some]
  apply eq_of_entries
  rw [listed d, listed e, keys]
  exact List.filterMap_congr fun key _ => by rw [agree]

theorem entries_set_of_mem {d : Dict κ ν} {key : κ} (present : key ∈ d.keys) (value : ν) :
    (d.set key value).entries =
      d.entries.map fun entry => (entry.1, if entry.1 = key then value else entry.2) := by
  rw [set, dif_pos present]
  rfl

theorem entries_set_of_notMem {d : Dict κ ν} {key : κ} (absent : key ∉ d.keys) (value : ν) :
    (d.set key value).entries = d.entries ++ [(key, value)] := by
  rw [set, dif_neg absent]

/-- A write outside a selection of keys leaves the selection. -/
theorem filter_set_of_neg (d : Dict κ ν) {key : κ} (value : ν) {p : κ → Bool}
    (outside : p key = false) :
    (d.set key value).filter (fun other _ => p other) = d.filter fun other _ => p other := by
  apply eq_of_entries
  by_cases present : key ∈ d.keys
  · rw [entries_filter, entries_filter, entries_set_of_mem present, List.filter_map]
    conv_rhs => rw [← List.map_id (List.filter _ _)]
    refine List.map_congr_left fun entry member => ?_
    have inside := (List.mem_filter.mp member).2
    rw [if_neg]
    · rfl
    · rintro rfl
      exact Bool.false_ne_true (outside.symm.trans inside)
  · rw [entries_filter, entries_filter, entries_set_of_notMem present, List.filter_append]
    simp [outside]

/-- A write within a selection of keys commutes with it. -/
theorem filter_set_of_pos (d : Dict κ ν) {key : κ} (value : ν) {p : κ → Bool}
    (inside : p key = true) :
    (d.set key value).filter (fun other _ => p other) =
      (d.filter fun other _ => p other).set key value := by
  have keys : key ∈ (d.filter fun other _ => p other).keys ↔ key ∈ d.keys := by
    rw [mem_keys_iff, mem_keys_iff, get?_filter]
    simp [Option.filter_eq_some_iff, inside]
  apply eq_of_entries
  by_cases present : key ∈ d.keys
  · rw [entries_set_of_mem (keys.mpr present), entries_filter, entries_filter,
      entries_set_of_mem present, List.filter_map]
    rfl
  · rw [entries_set_of_notMem fun member => present (keys.mp member), entries_filter,
      entries_filter, entries_set_of_notMem present, List.filter_append]
    simp [inside]

theorem map_set (d : Dict κ ν) (key : κ) (value : ν) (f : κ → ν → ω) :
    (d.set key value).map f = (d.map f).set key (f key value) := by
  apply eq_of_entries
  by_cases present : key ∈ d.keys
  · rw [entries_set_of_mem ((d.keys_map f).symm ▸ present), entries_map, entries_map,
      entries_set_of_mem present, List.map_map, List.map_map]
    refine List.map_congr_left fun entry _ => ?_
    by_cases same : entry.1 = key <;> simp [same]
  · rw [entries_set_of_notMem fun member => present ((d.keys_map f) ▸ member), entries_map,
      entries_map, entries_set_of_notMem present, List.map_append, List.map_singleton]

/-- Drop the entry under a key. -/
def erase (d : Dict κ ν) (key : κ) : Dict κ ν := d.filter fun other _ => other ≠ key

/-- Remove the entries under a list of keys. -/
def eraseAll (d : Dict κ ν) (keys : List κ) : Dict κ ν := keys.foldl erase d

/-- Make the entry under a key the newest. -/
def moveToEnd (d : Dict κ ν) (key : κ) : Dict κ ν :=
  match d.get? key with
  | none => d
  | some value => (d.erase key).set key value

/-- Drop the oldest entries until no more than a number are left. -/
def keepNewest (d : Dict κ ν) (bound : ℕ) : Dict κ ν where
  entries := d.entries.drop (d.entries.length - bound)
  nodup := d.nodup.sublist ((List.drop_sublist _ _).map Prod.fst)

theorem get?_erase (d : Dict κ ν) (key other : κ) :
    (d.erase key).get? other = if other = key then none else d.get? other := by
  rw [erase, get?_filter]
  by_cases same : other = key
  · simp [same]
  · cases d.get? other <;> simp [same]

theorem get?_eraseAll (d : Dict κ ν) (keys : List κ) (other : κ) :
    (d.eraseAll keys).get? other = if other ∈ keys then none else d.get? other := by
  induction keys generalizing d with
  | nil => rfl
  | cons key keys ih =>
    rw [eraseAll, List.foldl_cons, ← eraseAll, ih, get?_erase]
    by_cases same : other = key <;> by_cases listed : other ∈ keys <;> simp [same, listed]

@[simp] theorem get?_moveToEnd (d : Dict κ ν) (key other : κ) :
    (d.moveToEnd key).get? other = d.get? other := by
  rw [moveToEnd]
  split
  · rfl
  · next value found =>
    rw [get?_set, get?_erase]
    by_cases same : other = key
    · rw [if_pos same, same, found]
    · rw [if_neg same, if_neg same]

theorem get?_of_keepNewest {d : Dict κ ν} {bound : ℕ} {key : κ} {value : ν}
    (kept : (d.keepNewest bound).get? key = some value) : d.get? key = some value := by
  rw [get?_eq_some_iff] at kept ⊢
  exact List.mem_of_mem_drop kept

/-- Append a value to the list under its key. -/
def push (d : Dict κ (List ν)) (key : κ) (value : ν) : Dict κ (List ν) :=
  d.set key (d.getD key [] ++ [value])

/-- Collect values under their keys, in order. -/
def collect (entries : List (κ × ν)) : Dict κ (List ν) :=
  entries.foldl (fun d entry => d.push entry.1 entry.2) empty

theorem getD_push (d : Dict κ (List ν)) (key other : κ) (value : ν) :
    (d.push key value).getD other [] =
      if other = key then d.getD other [] ++ [value] else d.getD other [] := by
  rw [push, getD, get?_set]
  by_cases same : other = key
  · simp [same]
  · simp [same, getD]

theorem getD_collect (entries : List (κ × ν)) (key : κ) :
    (collect entries).getD key [] = (entries.filter fun entry => entry.1 = key).map Prod.snd := by
  have from_any : ∀ d : Dict κ (List ν),
      (entries.foldl (fun d entry => d.push entry.1 entry.2) d).getD key [] =
        d.getD key [] ++ (entries.filter fun entry => entry.1 = key).map Prod.snd := by
    induction entries with
    | nil => simp
    | cons entry rest ih =>
      intro d
      rw [List.foldl_cons, ih, getD_push]
      by_cases same : key = entry.1
      · simp [same]
      · simp [same, Ne.symm same]
  exact from_any empty

theorem mem_keys_collect {entries : List (κ × ν)} {key : κ} :
    key ∈ (collect entries).keys ↔ key ∈ entries.map Prod.fst := by
  have from_any : ∀ d : Dict κ (List ν),
      key ∈ (entries.foldl (fun d entry => d.push entry.1 entry.2) d).keys ↔
        key ∈ d.keys ∨ key ∈ entries.map Prod.fst := by
    induction entries with
    | nil => simp
    | cons entry rest ih =>
      intro d
      rw [List.foldl_cons, ih, push, mem_keys_set, List.map_cons, List.mem_cons]
      tauto
  rw [collect, from_any]
  simp [keys, empty]

/-- Write a list of entries in order, later ones replacing earlier ones. -/
def setAll (d : Dict κ ν) (entries : List (κ × ν)) : Dict κ ν :=
  entries.foldl (fun acc entry => acc.set entry.1 entry.2) d

/-- Build a dictionary from a list of entries. -/
def ofEntries (entries : List (κ × ν)) : Dict κ ν := empty.setAll entries

/-- Write every entry of a second dictionary. -/
def update (d e : Dict κ ν) : Dict κ ν := d.setAll e.entries

theorem get?_setAll_of_notMem (entries : List (κ × ν)) (d : Dict κ ν) {key : κ}
    (absent : key ∉ entries.map Prod.fst) : (d.setAll entries).get? key = d.get? key := by
  induction entries generalizing d with
  | nil => rfl
  | cons entry rest ih =>
    rw [List.map_cons, List.mem_cons, not_or] at absent
    rw [setAll, List.foldl_cons, ← setAll, ih _ absent.2, get?_set, if_neg absent.1]

theorem get?_setAll_of_mem {entries : List (κ × ν)} (nodup : (entries.map Prod.fst).Nodup)
    (d : Dict κ ν) {key : κ} {value : ν} (member : (key, value) ∈ entries) :
    (d.setAll entries).get? key = some value := by
  induction entries generalizing d with
  | nil => simp at member
  | cons entry rest ih =>
    rw [List.map_cons, List.nodup_cons] at nodup
    rw [setAll, List.foldl_cons, ← setAll]
    rcases List.mem_cons.mp member with rfl | later
    · rw [get?_setAll_of_notMem _ _ nodup.1, get?_set, if_pos rfl]
    · exact ih nodup.2 _ later

/-- An update takes the second dictionary's value wherever it has one. -/
theorem get?_update (d e : Dict κ ν) (key : κ) :
    (d.update e).get? key = (e.get? key).or (d.get? key) := by
  cases found : e.get? key with
  | none =>
    rw [update, get?_setAll_of_notMem _ _ (get?_eq_none_iff.mp found), Option.none_or]
  | some value =>
    rw [update, get?_setAll_of_mem e.nodup _ (get?_eq_some_iff.mp found), Option.some_or]

/-- Writing a list whose entries agree with a function of the key looks up that
function on the listed keys. -/
theorem get?_setAll_of_agree {entries : List (κ × ν)} {f : κ → Option ν}
    (agree : ∀ entry ∈ entries, f entry.1 = some entry.2) (d : Dict κ ν) (key : κ) :
    (d.setAll entries).get? key = if key ∈ entries.map Prod.fst then f key else d.get? key := by
  induction entries generalizing d with
  | nil => rfl
  | cons entry rest ih =>
    rw [setAll, List.foldl_cons, ← setAll,
      ih fun later member => agree later (List.mem_cons_of_mem _ member), get?_set]
    by_cases later : key ∈ rest.map Prod.fst
    · simp [later]
    · by_cases same : key = entry.1
      · simp [same, agree entry List.mem_cons_self]
      · simp [later, same]

theorem mem_of_get?_ofEntries {entries : List (κ × ν)} {key : κ}
    {value : ν} (found : (ofEntries entries).get? key = some value) :
    (key, value) ∈ entries := by
  have held (d : Dict κ ν) (found : (d.setAll entries).get? key = some value) :
      d.get? key = some value ∨ (key, value) ∈ entries := by
    clear * - found
    induction entries generalizing d with
    | nil => exact .inl found
    | cons entry rest ih =>
      rcases ih (d.set entry.1 entry.2) found with before | later
      · rw [get?_set] at before
        split at before
        next same =>
          cases before
          exact .inr (same ▸ List.mem_cons_self)
        · exact .inl before
      · exact .inr (List.mem_cons_of_mem entry later)
  exact (held empty found).resolve_left (by simp)

theorem get?_ofEntries_of_agree {entries : List (κ × ν)} {f : κ → Option ν}
    (agree : ∀ entry ∈ entries, f entry.1 = some entry.2) (key : κ) :
    (ofEntries entries).get? key = if key ∈ entries.map Prod.fst then f key else none :=
  get?_setAll_of_agree agree empty key

theorem get?_ofEntries_of_nodup {entries : List (κ × ν)} (nodup : (entries.map Prod.fst).Nodup)
    {key : κ} {value : ν} : (ofEntries entries).get? key = some value ↔ (key, value) ∈ entries := by
  constructor
  · intro found
    by_cases present : key ∈ entries.map Prod.fst
    · obtain ⟨⟨_, other⟩, member, rfl⟩ := List.mem_map.mp present
      have same := get?_setAll_of_mem nodup empty member
      rw [ofEntries, same] at found
      cases found
      exact member
    · rw [ofEntries, get?_setAll_of_notMem _ _ present, get?_empty] at found
      cases found
  · exact fun member => get?_setAll_of_mem nodup empty member

/-- Where entries of one key agree, lookup finds exactly the entries. -/
theorem get?_ofEntries_of_functional {entries : List (κ × ν)}
    (functional : ∀ entry ∈ entries, ∀ entry' ∈ entries, entry.1 = entry'.1 → entry.2 = entry'.2)
    {key : κ} {value : ν} : (ofEntries entries).get? key = some value ↔ (key, value) ∈ entries := by
  let first (key : κ) : Option ν := (entries.find? fun other => other.1 = key).map Prod.snd
  have agree : ∀ entry ∈ entries, first entry.1 = some entry.2 := by
    intro entry member
    dsimp only [first]
    cases found : entries.find? fun other => other.1 = entry.1 with
    | none =>
      have missing := List.find?_eq_none.mp found entry member
      simp at missing
    | some other =>
      have same : other.1 = entry.1 := by simpa using List.find?_some found
      exact congrArg some (functional _ (List.mem_of_find?_eq_some found) _ member same)
  constructor
  · exact mem_of_get?_ofEntries
  · intro member
    rw [get?_ofEntries_of_agree agree, if_pos (List.mem_map.mpr ⟨_, member, rfl⟩)]
    exact agree _ member

/-- Entries with distinct keys are kept as they are. -/
theorem entries_ofEntries {entries : List (κ × ν)} (nodup : (entries.map Prod.fst).Nodup) :
    (ofEntries entries).entries = entries := by
  have appended (d : Dict κ ν) (fresh : ∀ entry ∈ entries, entry.1 ∉ d.keys) :
      (d.setAll entries).entries = d.entries ++ entries := by
    induction entries generalizing d with
    | nil => exact (List.append_nil _).symm
    | cons entry rest ih =>
      rw [List.map_cons, List.nodup_cons] at nodup
      have absent := fresh entry (List.mem_cons_self ..)
      have written := entries_set_of_notMem absent entry.2
      change ((d.set entry.1 entry.2).setAll rest).entries = _
      rw [ih nodup.2, written, List.append_assoc]
      · rfl
      · intro later member
        have keys : (d.set entry.1 entry.2).keys = d.keys ++ [entry.1] := by
          simp only [Dict.keys, written, List.map_append, List.map_cons, List.map_nil]
        rw [keys, List.mem_append, List.mem_singleton]
        rintro (earlier | same)
        · exact fresh later (List.mem_cons_of_mem _ member) earlier
        · exact nodup.1 (same ▸ List.mem_map_of_mem member)
  exact appended empty fun _ _ member => by cases member

/-- Building from some keys and what a function gives for them looks up the function there. -/
theorem get?_ofEntries_filterMap (listed : List κ) (f : κ → Option ν) (key : κ) :
    (ofEntries (listed.filterMap fun key => (f key).map fun value => (key, value))).get? key =
      if key ∈ listed then f key else none := by
  have agree : ∀ entry ∈ listed.filterMap fun key => (f key).map fun value => (key, value),
      f entry.1 = some entry.2 := by
    intro entry member
    obtain ⟨source, -, found⟩ := List.mem_filterMap.mp member
    obtain ⟨value, known, rfl⟩ := Option.map_eq_some_iff.mp found
    exact known
  rw [get?_ofEntries_of_agree agree]
  by_cases present : key ∈ listed
  · rw [if_pos present]
    split
    · rfl
    · next absent =>
      cases known : f key with
      | none => rfl
      | some value =>
        refine absurd (List.mem_map.mpr ⟨(key, value), ?_, rfl⟩) absent
        exact List.mem_filterMap.mpr ⟨key, present, by rw [known, Option.map_some]⟩
  · rw [if_neg present, if_neg]
    intro inside
    obtain ⟨entry, member, rfl⟩ := List.mem_map.mp inside
    obtain ⟨source, listed, found⟩ := List.mem_filterMap.mp member
    obtain ⟨value, -, rfl⟩ := Option.map_eq_some_iff.mp found
    exact present listed

/-- Write one entry unless its key is taken. -/
def insertIfAbsent (d : Dict κ ν) (key : κ) (value : ν) : Dict κ ν :=
  if d.contains key then d else d.set key value

/-- Write a list of entries in order, each unless its key is taken. -/
def insertAllIfAbsent (d : Dict κ ν) (entries : List (κ × ν)) : Dict κ ν :=
  entries.foldl (fun acc entry => acc.insertIfAbsent entry.1 entry.2) d

theorem get?_insertIfAbsent (d : Dict κ ν) (key other : κ) (value : ν) :
    (d.insertIfAbsent key value).get? other =
      (d.get? other).or (if other = key then some value else none) := by
  rw [insertIfAbsent]
  by_cases taken : d.contains key = true
  · rw [if_pos taken]
    by_cases same : other = key
    · obtain ⟨held, found⟩ := mem_keys_iff.mp (contains_iff.mp taken)
      rw [same, found, Option.some_or]
    · rw [if_neg same, Option.or_none]
  · rw [if_neg taken, get?_set]
    by_cases same : other = key
    · have absent : d.get? other = none :=
        same ▸ get?_eq_none_iff.mpr fun member => taken (contains_iff.mpr member)
      rw [if_pos same, if_pos same, absent, Option.none_or]
    · rw [if_neg same, if_neg same, Option.or_none]

/-- A lookup in a list of entries that agree with a function. -/
theorem lookup_of_agree {entries : List (κ × ν)} {f : κ → Option ν}
    (agree : ∀ entry ∈ entries, f entry.1 = some entry.2) (key : κ) :
    entries.lookup key = if key ∈ entries.map Prod.fst then f key else none := by
  induction entries with
  | nil => rfl
  | cons entry rest ih =>
    obtain ⟨name, value⟩ := entry
    rw [List.lookup_cons]
    by_cases same : key = name
    · subst same
      have first : key ∈ ((key, value) :: rest).map Prod.fst := List.mem_cons_self
      rw [beq_self_eq_true, if_pos first]
      exact (agree (key, value) List.mem_cons_self).symm
    · rw [beq_eq_false_iff_ne.mpr same, ih fun entry member => agree entry (.tail _ member)]
      simp only [List.map_cons, List.mem_cons, same, false_or]

theorem mem_of_lookup {entries : List (κ × ν)} {key : κ} {value : ν}
    (found : entries.lookup key = some value) : (key, value) ∈ entries := by
  obtain ⟨first, rest, split, -⟩ := List.lookup_eq_some_iff.mp found
  rw [split]
  exact List.mem_append_right _ List.mem_cons_self

/-- Inserting a list of entries writes the first one of each free key. -/
theorem get?_insertAllIfAbsent (entries : List (κ × ν)) (d : Dict κ ν) (key : κ) :
    (d.insertAllIfAbsent entries).get? key = (d.get? key).or (entries.lookup key) := by
  induction entries generalizing d with
  | nil => exact (Option.or_none ..).symm
  | cons entry rest ih =>
    obtain ⟨first, value⟩ := entry
    rw [insertAllIfAbsent, List.foldl_cons, ← insertAllIfAbsent, ih, get?_insertIfAbsent,
      Option.or_assoc]
    by_cases same : key = first
    · rw [if_pos same, Option.some_or, same, List.lookup_cons_self]
    · rw [if_neg same, Option.none_or, List.lookup_cons, beq_eq_false_iff_ne.mpr same]

theorem get?_insertAllIfAbsent_of_notMem {entries : List (κ × ν)} {key : κ}
    (absent : key ∉ entries.map Prod.fst) (d : Dict κ ν) :
    (d.insertAllIfAbsent entries).get? key = d.get? key := by
  rw [get?_insertAllIfAbsent, List.lookup_eq_none_iff.mpr, Option.or_none]
  intro entry member
  rw [bne_iff_ne]
  rintro rfl
  exact absent (List.mem_map_of_mem member)

theorem get?_insertAllIfAbsent_of_eq_some {d : Dict κ ν} {key : κ} {value : ν}
    (found : d.get? key = some value) (entries : List (κ × ν)) :
    (d.insertAllIfAbsent entries).get? key = some value := by
  rw [get?_insertAllIfAbsent, found, Option.some_or]

theorem isSome_get?_insertAllIfAbsent (entries : List (κ × ν)) (d : Dict κ ν) (key : κ) :
    ((d.insertAllIfAbsent entries).get? key).isSome ↔
      (d.get? key).isSome ∨ key ∈ entries.map Prod.fst := by
  rw [get?_insertAllIfAbsent, Option.isSome_or, Bool.or_eq_true]
  refine or_congr_right ?_
  rw [List.lookup_isSome_iff, List.mem_map]
  constructor
  · rintro ⟨entry, member, same⟩
    exact ⟨entry, member, (beq_iff_eq.mp same).symm⟩
  · rintro ⟨entry, member, rfl⟩
    exact ⟨entry, member, beq_self_eq_true _⟩

/-- Adding up the entries in any order of the keys is the sum over the key set. -/
theorem sum_perm_keys [AddCommMonoid ν] (d : Dict κ ν) {order : List κ} (perm : order.Perm d.keys) :
    order.foldl (fun total key => total + d.getD key 0) 0 =
      ∑ key ∈ d.keys.toFinset, d.getD key 0 := by
  rw [List.sum_toFinset _ d.keys_nodup, ← (perm.map _).sum_eq, List.sum_eq_foldl, List.foldl_map]

/-! ### Ordered selections -/

section Select

variable {α β : Type*} [LinearOrder α]

/-- The entries a test picks, as pairs in the order of their first components. -/
def select (d : Dict κ ν) (f : κ → ν → Option (α × β)) : List (α × β) :=
  (d.entries.filterMap fun entry => f entry.1 entry.2).insertionSort fun first second =>
    first.1 ≤ second.1

theorem mem_select {d : Dict κ ν} {f : κ → ν → Option (α × β)} {item : α × β} :
    item ∈ d.select f ↔ ∃ key value, d.get? key = some value ∧ f key value = some item := by
  rw [select, (List.perm_insertionSort _ _).mem_iff, List.mem_filterMap]
  constructor
  · rintro ⟨⟨key, value⟩, member, picked⟩
    exact ⟨key, value, get?_eq_some_iff.mpr member, picked⟩
  · rintro ⟨key, value, found, picked⟩
    exact ⟨(key, value), get?_eq_some_iff.mp found, picked⟩

omit [DecidableEq κ] in
/-- Dictionaries that agree on a part have the same selections within it. -/
theorem select_eq_of_filter_eq {d e : Dict κ ν} {part : κ → ν → Bool}
    (same : d.filter part = e.filter part) {f : κ → ν → Option (α × β)}
    (within : ∀ key value, part key value = false → f key value = none) :
    d.select f = e.select f := by
  have narrow (d : Dict κ ν) : (d.filter part).select f = d.select f := by
    rw [select, select, entries_filter, List.filterMap_filter]
    congr 1
    refine List.filterMap_congr fun entry _ => ?_
    by_cases inside : part entry.1 entry.2 = true
    · rw [if_pos inside]
    · rw [if_neg inside, within _ _ (Bool.not_eq_true _ ▸ inside)]
  rw [← narrow d, same, narrow e]

/-- Each first component comes from one key only. -/
def Separates (f : κ → ν → Option (α × β)) : Prop :=
  ∀ key key' value value' a b b', f key value = some (a, b) → f key' value' = some (a, b') →
    key = key'

omit [DecidableEq κ] [LinearOrder α] in
private theorem filterMap_fst_nodup (d : Dict κ ν) {f : κ → ν → Option (α × β)}
    (separates : Separates f) :
    ((d.entries.filterMap fun entry => f entry.1 entry.2).map Prod.fst).Nodup := by
  obtain ⟨entries, nodup⟩ := d
  induction entries with
  | nil => exact List.nodup_nil
  | cons entry rest ih =>
    obtain ⟨fresh, nodup⟩ := List.nodup_cons.mp (List.map_cons .. ▸ nodup)
    have later := ih nodup
    cases picked : f entry.1 entry.2 with
    | none => simpa [List.filterMap_cons, picked] using later
    | some item =>
      simp only [List.filterMap_cons, picked, List.map_cons, List.nodup_cons]
      refine ⟨fun repeated => fresh ?_, later⟩
      obtain ⟨other, member, same⟩ := List.mem_map.mp repeated
      obtain ⟨source, inside, made⟩ := List.mem_filterMap.mp member
      have key := separates entry.1 source.1 entry.2 source.2 item.1 item.2 other.2 picked
        (by rw [made, ← same])
      exact key ▸ List.mem_map_of_mem inside

omit [DecidableEq κ] in
theorem select_fst_nodup (d : Dict κ ν) {f : κ → ν → Option (α × β)} (separates : Separates f) :
    ((d.select f).map Prod.fst).Nodup :=
  ((List.perm_insertionSort _ _).map _).nodup_iff.mpr (filterMap_fst_nodup d separates)

omit [LinearOrder α] in
private theorem lookup_eq_some_iff_of_nodup [DecidableEq α] {items : List (α × β)}
    (nodup : (items.map Prod.fst).Nodup) {a : α} {b : β} :
    items.lookup a = some b ↔ (a, b) ∈ items := by
  induction items with
  | nil => simp
  | cons item rest ih =>
    obtain ⟨first, second⟩ := item
    obtain ⟨fresh, later⟩ := List.nodup_cons.mp (List.map_cons .. ▸ nodup)
    by_cases same : a = first
    · have absent : (a, b) ∉ rest := fun member =>
        fresh (same ▸ List.mem_map.mpr ⟨(a, b), member, rfl⟩)
      simp [same ▸ absent, same, eq_comm]
    · simp [List.lookup_cons, beq_eq_false_iff_ne.mpr same, ih later, same]

omit [DecidableEq κ] in
/-- Looking a first component up in a selection finds the pair it is in. -/
theorem lookup_select {d : Dict κ ν} {f : κ → ν → Option (α × β)} (separates : Separates f)
    {a : α} {b : β} : (d.select f).lookup a = some b ↔ (a, b) ∈ d.select f :=
  lookup_eq_some_iff_of_nodup (select_fst_nodup d separates)

omit [DecidableEq κ] in
/-- Two selections are equal once they hold the same pairs. -/
theorem select_eq_of_mem_iff {μ : Type*} {d : Dict κ ν} {e : Dict κ μ}
    {f : κ → ν → Option (α × β)} {g : κ → μ → Option (α × β)} (separates : Separates f)
    (separates' : Separates g) (same : ∀ item, item ∈ d.select f ↔ item ∈ e.select g) :
    d.select f = e.select g := by
  have : Std.Total fun first second : α × β => first.1 ≤ second.1 :=
    ⟨fun first second => le_total first.1 second.1⟩
  have : IsTrans (α × β) fun first second => first.1 ≤ second.1 :=
    ⟨fun _ _ _ left right => left.trans right⟩
  refine List.Perm.eq_of_pairwise (fun first second left right below above => ?_)
    (List.pairwise_insertionSort _ _) (List.pairwise_insertionSort _ _)
    ((List.perm_ext_iff_of_nodup (List.Nodup.of_map _ (d.select_fst_nodup separates))
      (List.Nodup.of_map _ (e.select_fst_nodup separates'))).mpr same)
  -- Two pairs with one first component are the same entry.
  have listed := (same first).mp left
  exact List.inj_on_of_nodup_map (e.select_fst_nodup separates') listed right (le_antisymm below above)

end Select

end Dict

end Library
