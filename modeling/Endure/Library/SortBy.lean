import Mathlib

/-!
# Sorting by a key

A stable sort by what a key function gives. Where the keys are distinct the result depends on
the items alone and not on the order they came in.
-/

namespace Library

variable {α κ : Type*} [LinearOrder κ]

/-- The items in the order of their keys. -/
def sortBy (key : α → κ) (items : List α) : List α :=
  items.insertionSort fun a b => key a ≤ key b

variable {key : α → κ} {items items' : List α}

theorem perm_sortBy (key : α → κ) (items : List α) : (sortBy key items).Perm items :=
  List.perm_insertionSort _ _

@[simp] theorem mem_sortBy {item : α} : item ∈ sortBy key items ↔ item ∈ items :=
  (perm_sortBy key items).mem_iff

@[simp] theorem length_sortBy : (sortBy key items).length = items.length :=
  (perm_sortBy key items).length_eq

theorem pairwise_sortBy (key : α → κ) (items : List α) :
    (sortBy key items).Pairwise fun a b => key a ≤ key b := by
  have total : Std.Total fun a b : α => key a ≤ key b := ⟨fun a b => le_total (key a) (key b)⟩
  have trans : IsTrans α fun a b => key a ≤ key b := ⟨fun _ _ _ => le_trans⟩
  exact List.pairwise_insertionSort _ _

theorem nodup_map_sortBy (nodup : (items.map key).Nodup) : ((sortBy key items).map key).Nodup :=
  ((perm_sortBy key items).map key).nodup_iff.mpr nodup

/-- Sorted items are left as they are. -/
theorem sortBy_eq_self (sorted : items.Pairwise fun a b => key a ≤ key b) :
    sortBy key items = items := List.Pairwise.insertionSort_eq sorted

@[simp] theorem sortBy_sortBy : sortBy key (sortBy key items) = sortBy key items :=
  sortBy_eq_self (pairwise_sortBy key items)

/-- With distinct keys the order of the items does not matter. -/
theorem sortBy_eq_of_perm (nodup : (items.map key).Nodup) (perm : items.Perm items') :
    sortBy key items = sortBy key items' := by
  have antisymm : ∀ a b, a ∈ sortBy key items → b ∈ sortBy key items' → key a ≤ key b →
      key b ≤ key a → a = b := by
    intro a b memberA memberB below above
    exact List.inj_on_of_nodup_map nodup (mem_sortBy.mp memberA)
      (perm.mem_iff.mpr (mem_sortBy.mp memberB)) (le_antisymm below above)
  exact ((perm_sortBy key items).trans (perm.trans (perm_sortBy key items').symm)).eq_of_pairwise
    antisymm (pairwise_sortBy key items) (pairwise_sortBy key items')

/-- Sorting a mapped list by a key that the map keeps. -/
theorem map_sortBy {β : Type*} (key : α → κ) (key' : β → κ) {f : α → β}
    (keeps : ∀ item, key' (f item) = key item) (items : List α) :
    (sortBy key items).map f = sortBy key' (items.map f) := by
  induction items with
  | nil => rfl
  | cons item items ih =>
    have insert (sorted : List α) :
        (sorted.orderedInsert (fun a b => key a ≤ key b) item).map f =
          (sorted.map f).orderedInsert (fun a b => key' a ≤ key' b) (f item) := by
      clear ih
      induction sorted with
      | nil => rfl
      | cons other sorted ih =>
        rw [List.orderedInsert, List.map_cons, List.orderedInsert, keeps, keeps]
        split_ifs
        · rfl
        · rw [List.map_cons, ih]
    change ((sortBy key items).orderedInsert _ item).map f = _
    rw [insert, ih]
    rfl

end Library
