import Mathlib

/-!
# First-come assignment over a window

A window lists rounds newest first, and a round labels some elements. Every element
keeps the label of the oldest round that labels it, under that round's age. Rounds
that become newer only shift the ages, a round that leaves at the old end frees only
the elements it had, and two elements share an assignment by what the rounds make
equal, whatever the labels are called.
-/

namespace Library.FirstCome

variable {α β γ : Type*}

/-- The age and the label of the oldest round that labels an element. -/
def assign : List (α → Option β) → α → Option (ℕ × β)
  | [], _ => none
  | newest :: older, a =>
    match assign older a with
    | some (age, label) => some (age + 1, label)
    | none => (newest a).map (0, ·)

variable {rounds newer kept older : List (α → Option β)} {newest oldest : α → Option β} {a b : α}
  {age : ℕ} {label : β}

theorem assign_cons_of_some (found : assign older a = some (age, label)) :
    assign (newest :: older) a = some (age + 1, label) := by
  rw [assign, found]

/-- No round of the window labels an element that is not assigned. -/
theorem assign_eq_none : assign rounds a = none ↔ ∀ round ∈ rounds, round a = none := by
  induction rounds with
  | nil => simp [assign]
  | cons newest older ih =>
    rw [List.forall_mem_cons, ← ih]
    cases found : assign older a with
    | some slot => simp [assign, found]
    | none => simp [assign, found]

/-- Who is assigned and by which round: the label comes from that round, and no older
round labels the element. -/
theorem assign_eq_some : assign rounds a = some (age, label) ↔
    (∃ round, rounds[age]? = some round ∧ round a = some label) ∧
      ∀ round ∈ rounds.drop (age + 1), round a = none := by
  induction rounds generalizing age label with
  | nil => simp [assign]
  | cons newest older ih =>
    rw [List.drop_succ_cons]
    cases age with
    | zero =>
      rw [List.drop_zero, ← assign_eq_none]
      cases found : assign older a with
      | some slot => simp [assign, found]
      | none => simp [assign, found]
    | succ age =>
      rw [List.getElem?_cons_succ, ← ih]
      cases found : assign older a with
      | some slot => simp [assign, found, Prod.ext_iff]
      | none => simp [assign, found]

/-! ### Sliding the window -/

/-- Newer rounds only make an assignment older. -/
theorem assign_append_of_some (found : assign kept a = some (age, label)) :
    assign (newer ++ kept) a = some (age + newer.length, label) := by
  induction newer with
  | nil => exact found
  | cons newest rest ih =>
    rw [List.cons_append, assign_cons_of_some ih, List.length_cons, Nat.add_assoc]

/-- Whoever the older rounds leave free is assigned by the newer ones alone. -/
theorem assign_append_of_none (free : assign kept a = none) :
    assign (newer ++ kept) a = assign newer a := by
  induction newer with
  | nil => exact free
  | cons newest rest ih => rw [List.cons_append, assign, assign, ih]

/-- An assignment by a round that stays is the same without the older rounds. -/
theorem assign_of_append (found : assign (kept ++ older) a = some (age, label))
    (stays : age < kept.length) : assign kept a = some (age, label) := by
  cases free : assign older a with
  | some slot =>
    obtain ⟨oldAge, oldLabel⟩ := slot
    rw [assign_append_of_some free] at found
    obtain ⟨rfl, rfl⟩ := Prod.mk.inj (Option.some.inj found)
    omega
  | none => rw [← assign_append_of_none free, found]

/-- The age of an assignment is a round of the window. -/
theorem lt_length_of_assign (found : assign rounds a = some (age, label)) : age < rounds.length := by
  obtain ⟨⟨round, located, -⟩, -⟩ := assign_eq_some.mp found
  exact (List.getElem?_eq_some_iff.mp located).1

/-- Two elements with one assignment keep one under newer rounds, and others do not join
them unless they were free. -/
theorem assign_append_eq_iff (found : assign kept a = some (age, label)) :
    assign (newer ++ kept) b = assign (newer ++ kept) a ↔ assign kept b = assign kept a := by
  rw [assign_append_of_some found, found]
  cases other : assign kept b with
  | some slot =>
    obtain ⟨otherAge, otherLabel⟩ := slot
    rw [assign_append_of_some other]
    simp
  | none =>
    rw [assign_append_of_none other]
    constructor
    · intro same
      have short := lt_length_of_assign same
      omega
    · intro same
      cases same

/-! ### Names of labels -/

/-- Two labellings of one round tell apart the same elements. -/
structure SameClasses (first : α → Option β) (second : α → Option γ) : Prop where
  isSome_iff : ∀ a, (first a).isSome ↔ (second a).isSome
  eq_iff : ∀ a b, first a = first b ↔ second a = second b

theorem isSome_assign_cons : (assign (newest :: older) a).isSome ↔
    (assign older a).isSome ∨ (newest a).isSome := by
  cases found : assign older a with
  | some slot => simp [assign, found]
  | none => simp [assign, found]

/-- Two elements share an assignment when they did among the older rounds, or when these
leave both free and the newest round labels them alike. -/
theorem assign_cons_eq_iff : assign (newest :: older) a = assign (newest :: older) b ↔
    (assign older a).isSome ∧ assign older a = assign older b ∨
      ¬(assign older a).isSome ∧ ¬(assign older b).isSome ∧ newest a = newest b := by
  have inj : Function.Injective fun own : β => ((0 : ℕ), own) := fun _ _ same => (Prod.mk.inj same).2
  rw [assign, assign]
  cases left : assign older a with
  | some slot =>
    cases right : assign older b with
    | some slot' => simp [Prod.ext_iff]
    | none => cases newest b <;> simp
  | none =>
    cases right : assign older b with
    | some slot' => cases newest a <;> simp
    | none => simpa using (Option.map_injective inj).eq_iff

/-- What the labels are called does not show in who shares an assignment. -/
theorem assign_congr {first : List (α → Option β)} {second : List (α → Option γ)}
    (same : List.Forall₂ SameClasses first second) (a b : α) :
    ((assign first a).isSome ↔ (assign second a).isSome) ∧
      (assign first a = assign first b ↔ assign second a = assign second b) := by
  induction same generalizing a b with
  | nil => simp [assign]
  | cons classes _ ih =>
    constructor
    · rw [isSome_assign_cons, isSome_assign_cons, (ih a a).1, classes.isSome_iff a]
    · rw [assign_cons_eq_iff, assign_cons_eq_iff, (ih a b).1, (ih b b).1, (ih a b).2,
        classes.eq_iff a b]

end Library.FirstCome
