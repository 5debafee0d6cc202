import Mathlib

/-!
# Computations that check as they go

What a sequence of checks and steps that may fail has established once it has
succeeded.
-/

namespace Library.Checked

universe u

variable {ε : Type*} {α β : Type u}

/-- Fail with an error unless a condition holds. -/
def ensure (condition : Prop) [Decidable condition] (error : ε) : Except ε Unit :=
  if condition then .ok () else .error error

@[simp] theorem ensure_eq_ok {condition : Prop} [Decidable condition] {error : ε} {done : Unit} :
    ensure condition error = .ok done ↔ condition := by
  by_cases holds : condition <;> simp [ensure, holds]

/-- A check that holds may be left out. -/
theorem ensure_bind {condition : Prop} [Decidable condition] {error : ε}
    {result : Type} {next : Unit → Except ε result} (holds : condition) :
    (ensure condition error >>= next) = next () := by
  rw [ensure, if_pos holds]
  rfl

/-- A sequence succeeds when its first part does and its second does on the result. -/
theorem bind_eq_ok {first : Except ε α} {next : α → Except ε β} {result : β} :
    first >>= next = .ok result ↔ ∃ value, first = .ok value ∧ next value = .ok result := by
  cases first with
  | error raised =>
    constructor
    · intro failed
      cases failed
    · rintro ⟨_, failed, -⟩
      cases failed
  | ok value =>
    constructor
    · exact fun done => ⟨value, rfl, done⟩
    · rintro ⟨_, same, done⟩
      cases same
      exact done

theorem map_eq_ok {first : Except ε α} {f : α → β} {result : β} :
    first.map f = .ok result ↔ ∃ value, first = .ok value ∧ f value = result := by
  cases first <;> simp [Except.map]

/-- A result that is kept as an option is one that was reached. -/
theorem toOption_eq_some {computed : Except ε α} {result : α} :
    computed.toOption = some result ↔ computed = .ok result := by
  cases computed with
  | error raised => exact ⟨nofun, nofun⟩
  | ok value => rw [Except.toOption, Option.some.injEq, Except.ok.injEq]

/-- A check repeated over a list succeeds when every one does. -/
theorem forM_eq_ok {γ : Type*} {check : γ → Except ε Unit} {items : List γ} {done : Unit} :
    items.forM check = .ok done ↔ ∀ item ∈ items, check item = .ok () := by
  induction items with
  | nil => simp [List.forM, pure, Except.pure]
  | cons item rest ih =>
    change (check item >>= fun _ => rest.forM check) = .ok done ↔ _
    rw [bind_eq_ok, List.forall_mem_cons]
    constructor
    · rintro ⟨_, first, later⟩
      exact ⟨first, ih.mp later⟩
    · rintro ⟨first, later⟩
      exact ⟨(), first, ih.mpr later⟩

/-- Computations that agree up to a view of their results continue alike when the view decides
how. -/
theorem bind_eq_of_map_eq {γ : Type*} {first second : Except ε α} {f : α → γ}
    (same : first.map f = second.map f) {next next' : α → Except ε β}
    (agree : ∀ value value', first = .ok value → second = .ok value' → f value = f value' →
      next value = next' value') : (first >>= next) = (second >>= next') := by
  cases first with
  | error raised =>
    cases second with
    | error raised' =>
      cases same
      rfl
    | ok value' => cases same
  | ok value =>
    cases second with
    | error raised' => cases same
    | ok value' => exact agree value value' rfl rfl (Except.ok.inj same)

/-- Computations that agree on every item of a list agree on the list. -/
theorem mapM_congr {γ : Type*} {step step' : γ → Except ε α} {items : List γ}
    (agree : ∀ item ∈ items, step item = step' item) : items.mapM step = items.mapM step' := by
  induction items with
  | nil => rfl
  | cons item rest ih =>
    rw [List.mapM_cons, List.mapM_cons, agree item List.mem_cons_self,
      ih fun other member => agree other (List.mem_cons_of_mem item member)]

/-- A computation repeated over a list succeeds with the list of its results. -/
theorem mapM_eq_ok {γ : Type*} {step : γ → Except ε α} {items : List γ} {results : List α} :
    items.mapM step = .ok results ↔ List.Forall₂ (step · = .ok ·) items results := by
  induction items generalizing results with
  | nil =>
    rw [List.mapM_nil, List.forall₂_nil_left_iff]
    exact ⟨fun done => (Except.ok.inj done).symm, fun none => by rw [none]; rfl⟩
  | cons item rest ih =>
    rw [List.mapM_cons, bind_eq_ok, List.forall₂_cons_left_iff]
    constructor
    · rintro ⟨first, made, done⟩
      obtain ⟨later, madeRest, same⟩ := bind_eq_ok.mp done
      exact ⟨first, later, made, ih.mp madeRest, (Except.ok.inj same).symm⟩
    · rintro ⟨first, later, made, madeRest, rfl⟩
      exact ⟨first, made, bind_eq_ok.mpr ⟨later, ih.mpr madeRest, rfl⟩⟩

/-- A lookup repeated over a list succeeds with the list of what it finds. -/
theorem mapM_eq_some {γ : Type*} {step : γ → Option α} {items : List γ} {results : List α} :
    items.mapM step = some results ↔ List.Forall₂ (step · = some ·) items results := by
  induction items generalizing results with
  | nil =>
    rw [List.mapM_nil, List.forall₂_nil_left_iff]
    exact ⟨fun done => (Option.some.inj done).symm, fun none => by rw [none]; rfl⟩
  | cons item rest ih =>
    rw [List.mapM_cons, Option.bind_eq_bind, Option.bind_eq_some_iff, List.forall₂_cons_left_iff]
    constructor
    · rintro ⟨first, found, done⟩
      obtain ⟨later, foundRest, same⟩ := Option.bind_eq_some_iff.mp done
      exact ⟨first, later, found, ih.mp foundRest, (Option.some.inj same).symm⟩
    · rintro ⟨first, later, found, foundRest, rfl⟩
      exact ⟨first, found, Option.bind_eq_some_iff.mpr ⟨later, ih.mpr foundRest, rfl⟩⟩

section Results

variable {γ : Type*} {step : γ → Except ε α} {items : List γ} {results : List α}

/-- Every item has its result. -/
theorem exists_result (done : items.mapM step = .ok results) {item : γ} (member : item ∈ items) :
    ∃ result ∈ results, step item = .ok result := by
  have matched := mapM_eq_ok.mp done
  induction matched with
  | nil => cases member
  | cons made _ ih =>
    cases member with
    | head => exact ⟨_, List.mem_cons_self, made⟩
    | tail _ later =>
      obtain ⟨result, inside, same⟩ := ih (mapM_eq_ok.mpr ‹_›) later
      exact ⟨result, List.mem_cons_of_mem _ inside, same⟩

/-- Every result comes from an item. -/
theorem exists_item (done : items.mapM step = .ok results) {result : α}
    (member : result ∈ results) : ∃ item ∈ items, step item = .ok result := by
  have matched := mapM_eq_ok.mp done
  induction matched with
  | nil => cases member
  | cons made _ ih =>
    cases member with
    | head => exact ⟨_, List.mem_cons_self, made⟩
    | tail _ later =>
      obtain ⟨item, inside, same⟩ := ih (mapM_eq_ok.mpr ‹_›) later
      exact ⟨item, List.mem_cons_of_mem _ inside, same⟩

/-- What the results carry of their items, in the items' order. -/
theorem map_eq_of_mapM {δ : Type*} {f : α → δ} {g : γ → δ}
    (carried : ∀ item result, step item = .ok result → f result = g item)
    (done : items.mapM step = .ok results) : results.map f = items.map g := by
  have matched := mapM_eq_ok.mp done
  induction matched with
  | nil => rfl
  | cons made _ ih =>
    rw [List.map_cons, List.map_cons, carried _ _ made, ih (mapM_eq_ok.mpr ‹_›)]

/-- The whole succeeds when every item does. -/
theorem exists_mapM_eq_ok (each : ∀ item ∈ items, ∃ result, step item = .ok result) :
    ∃ results, items.mapM step = .ok results := by
  induction items with
  | nil => exact ⟨[], rfl⟩
  | cons item rest ih =>
    obtain ⟨first, made⟩ := each item List.mem_cons_self
    obtain ⟨later, madeRest⟩ := ih fun other inside => each other (List.mem_cons_of_mem _ inside)
    exact ⟨first :: later, mapM_eq_ok.mpr (.cons made (mapM_eq_ok.mp madeRest))⟩

end Results

end Library.Checked
