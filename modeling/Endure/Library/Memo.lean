import Endure.Library.Dict

/-!
# Caches of what is right

A cache holds a value for some of the keys, and every value it holds is right for its key. It
may be cut, extended by what is found, or rebuilt for other keys from what it still holds.
-/

namespace Library.Memo

variable {κ ν : Type*} [DecidableEq κ] {right right' : κ → ν → Prop} {cache : Dict κ ν}

/-- Everything a cache holds is right. -/
def Holds (right : κ → ν → Prop) (cache : Dict κ ν) : Prop :=
  ∀ key value, cache.get? key = some value → right key value

theorem holds_empty : Holds right Dict.empty := by
  intro key value found
  cases found

theorem Holds.mono (holds : Holds right cache)
    (implies : ∀ key value, right key value → right' key value) : Holds right' cache :=
  fun key value found => implies key value (holds key value found)

theorem Holds.set (holds : Holds right cache) {key : κ} {value : ν} (is : right key value) :
    Holds right (cache.set key value) := by
  intro other found same
  rw [Dict.get?_set] at same
  by_cases own : other = key
  · rw [if_pos own] at same
    cases same
    exact own ▸ is
  · rw [if_neg own] at same
    exact holds other found same

theorem Holds.filter (holds : Holds right cache) (kept : κ → ν → Bool) :
    Holds right (cache.filter kept) := by
  intro key value found
  rw [Dict.get?_filter, Option.filter_eq_some_iff] at found
  exact holds key value found.1

/-! ### Rebuilding -/

/-- The cache of some keys: what is held already is kept, the rest is computed. -/
def rebuild (cache : Dict κ ν) (compute : κ → ν) (keys : List κ) : Dict κ ν :=
  Dict.ofEntries (keys.map fun key => (key, cache.getD key (compute key)))

/-- New keys are written at the end. -/
theorem entries_setAll {entries : List (κ × ν)} (d : Dict κ ν)
    (nodup : (d.keys ++ entries.map Prod.fst).Nodup) :
    (d.setAll entries).entries = d.entries ++ entries := by
  induction entries generalizing d with
  | nil => exact (List.append_nil _).symm
  | cons entry rest ih =>
    have absent : entry.1 ∉ d.keys := by
      intro present
      exact (List.nodup_append.mp nodup).2.2 _ present _ List.mem_cons_self rfl
    have appended : (d.set entry.1 entry.2).entries = d.entries ++ [entry] := by
      rw [Dict.set, dif_neg absent]
    change ((d.set entry.1 entry.2).setAll rest).entries = _
    rw [ih, appended, List.append_assoc, List.singleton_append]
    rw [Dict.keys, appended, List.map_append, List.append_assoc]
    exact nodup

theorem entries_ofEntries {entries : List (κ × ν)} (nodup : (entries.map Prod.fst).Nodup) :
    (Dict.ofEntries entries).entries = entries := by
  rw [Dict.ofEntries, entries_setAll]
  · rfl
  · exact nodup

section Rebuild

variable {compute : κ → ν} {keys : List κ}

/-- What a cache of computed values lacks is computed, so all is as computed. -/
theorem entries_rebuild (holds : Holds (fun key value => value = compute key) cache)
    (nodup : keys.Nodup) :
    (rebuild cache compute keys).entries = keys.map fun key => (key, compute key) := by
  have recalled (key : κ) : cache.getD key (compute key) = compute key := by
    rw [Dict.getD]
    cases found : cache.get? key with
    | none => rfl
    | some value => exact holds key value found
  simp only [rebuild, recalled]
  apply entries_ofEntries
  rw [List.map_map]
  exact (List.map_id keys).symm ▸ nodup

theorem values_rebuild (holds : Holds (fun key value => value = compute key) cache)
    (nodup : keys.Nodup) : (rebuild cache compute keys).values = keys.map compute := by
  rw [Dict.values, entries_rebuild holds nodup, List.map_map]
  rfl

/-- A rebuilt cache holds the computed values of its keys. -/
theorem holds_rebuild (holds : Holds (fun key value => value = compute key) cache)
    (nodup : keys.Nodup) :
    Holds (fun key value => key ∈ keys ∧ value = compute key) (rebuild cache compute keys) := by
  intro key value found
  rw [Dict.get?_eq_some_iff, entries_rebuild holds nodup] at found
  obtain ⟨other, member, same⟩ := List.mem_map.mp found
  cases same
  exact ⟨member, rfl⟩

end Rebuild

end Library.Memo
