import Mathlib

/-!
# One pass with a running peak

A pass over a list keeps the greatest element seen and the greatest value that a function of
the peak and the current element has taken. When the function rises with its first argument,
that is its greatest value over all pairs of an element and one at or after it.
-/

namespace Library.RunningPeak

variable {α β : Type*} [LinearOrder α] [LinearOrder β]

/-! ### The peak of a list -/

theorem le_foldr_max {xs : List α} {x : α} (member : x ∈ xs) (start : α) :
    x ≤ xs.foldr max start := by
  induction xs with
  | nil => exact absurd member List.not_mem_nil
  | cons first rest ih =>
    rcases List.mem_cons.mp member with rfl | later
    · exact le_max_left _ _
    · exact le_max_of_le_right (ih later)

/-- The peak is the start or an element. -/
theorem foldr_max_eq_or_mem (xs : List α) (start : α) :
    xs.foldr max start = start ∨ xs.foldr max start ∈ xs := by
  induction xs with
  | nil => exact .inl rfl
  | cons first rest ih =>
    rw [List.foldr_cons]
    rcases max_choice first (rest.foldr max start) with own | later
    · rw [own]
      exact .inr List.mem_cons_self
    · rw [later]
      exact ih.imp id (List.mem_cons_of_mem first)

/-- With an element above the start, the peak is an element and above the start. -/
theorem foldr_max_mem {xs : List α} {x start : α} (member : x ∈ xs) (above : start < x) :
    start < xs.foldr max start ∧ xs.foldr max start ∈ xs := by
  have peak := above.trans_le (le_foldr_max member start)
  exact ⟨peak, (foldr_max_eq_or_mem xs start).resolve_left peak.ne'⟩

/-! ### Passes -/

/-- An element stands at or before another in a list. -/
def AtOrBefore (xs : List α) (first second : α) : Prop :=
  ∃ i j : ℕ, i ≤ j ∧ xs[i]? = some first ∧ xs[j]? = some second

/-- The peak and the worst value after a pass. -/
def scan (f : α → α → β) (state : α × β) (xs : List α) : α × β :=
  xs.foldl (fun state x => (max state.1 x, max state.2 (f (max state.1 x) x))) state

omit [LinearOrder α] in
theorem atOrBefore_cons {x first second : α} {rest : List α} :
    AtOrBefore (x :: rest) first second ↔
      first = x ∧ second ∈ x :: rest ∨ AtOrBefore rest first second := by
  constructor
  · rintro ⟨i, j, before, one, other⟩
    cases i with
    | zero =>
      have same : first = x := by simpa using one.symm
      exact .inl ⟨same, List.mem_of_getElem? other⟩
    | succ i =>
      cases j with
      | zero => omega
      | succ j => exact .inr ⟨i, j, by omega, one, other⟩
  · rintro (⟨rfl, member⟩ | ⟨i, j, before, one, other⟩)
    · obtain ⟨j, other⟩ := List.getElem?_of_mem member
      exact ⟨0, j, j.zero_le, rfl, other⟩
    · exact ⟨i + 1, j + 1, by omega, one, other⟩

omit [LinearOrder α] in
/-- Removing elements keeps the order of the others. -/
theorem AtOrBefore.of_sublist {xs ys : List α} {first second : α}
    (before : AtOrBefore xs first second) (part : xs.Sublist ys) :
    AtOrBefore ys first second := by
  induction part with
  | slnil => exact before
  | cons y _ ih => exact atOrBefore_cons.mpr (.inr (ih before))
  | cons_cons x part ih =>
    rw [atOrBefore_cons] at before ⊢
    rcases before with ⟨same, member⟩ | later
    · exact .inl ⟨same, (part.cons_cons x).subset member⟩
    · exact .inr (ih later)

omit [LinearOrder α] in
theorem AtOrBefore.mem {xs : List α} {first second : α} (before : AtOrBefore xs first second) :
    first ∈ xs ∧ second ∈ xs := by
  obtain ⟨i, j, -, one, other⟩ := before
  exact ⟨List.mem_of_getElem? one, List.mem_of_getElem? other⟩

section Greatest

variable {f : α → α → β} {valid : Set α}

/-- The values a pass from a peak can meet. -/
def Values (f : α → α → β) (peak : α) (xs : List α) : Set β :=
  {value | ∃ first second, (first = peak ∧ second ∈ xs ∨ AtOrBefore xs first second) ∧
    value = f first second}

/-- A pass finds the greatest of its start and the values it meets. -/
theorem isGreatest_scan
    (rises : ∀ low ∈ valid, ∀ high ∈ valid, low ≤ high → ∀ x ∈ valid, f low x ≤ f high x)
    {peak : α} (starts : peak ∈ valid) {xs : List α} (all : ∀ x ∈ xs, x ∈ valid) (worst : β) :
    IsGreatest (insert worst (Values f peak xs)) (scan f (peak, worst) xs).2 := by
  induction xs generalizing peak worst with
  | nil =>
    refine ⟨Set.mem_insert _ _, ?_⟩
    rintro value (rfl | ⟨first, second, ⟨-, member⟩ | before, -⟩)
    · exact le_rfl
    · cases member
    · cases before.mem.1
  | cons x rest ih =>
    have here := all x List.mem_cons_self
    have higher : max peak x ∈ valid := by
      rcases max_choice peak x with same | same
      · rwa [same]
      · rwa [same]
    obtain ⟨member, upper⟩ := ih higher (fun y later => all y (List.mem_cons_of_mem _ later))
      (max worst (f (max peak x) x))
    change IsGreatest _ (scan f (max peak x, max worst (f (max peak x) x)) rest).2
    generalize (scan f (max peak x, max worst (f (max peak x) x)) rest).2 = found at member upper
    -- The peak is one of the two, so its values are values of the longer list.
    have peaks (second : α) (later : second ∈ x :: rest) :
        f (max peak x) second ∈ Values f peak (x :: rest) := by
      rcases max_choice peak x with same | same
      · rw [same]
        exact ⟨peak, second, .inl ⟨rfl, later⟩, rfl⟩
      · rw [same]
        exact ⟨x, second, .inr (atOrBefore_cons.mpr (.inl ⟨rfl, later⟩)), rfl⟩
    -- Neither falls short of the value under the peak.
    have covered (low : α) (known : low ∈ valid) (under : low ≤ max peak x) (second : α)
        (later : second ∈ x :: rest) : f low second ≤ found := by
      refine (rises low known _ higher under second (all second later)).trans ?_
      rcases List.mem_cons.mp later with rfl | later
      · exact (le_max_right _ _).trans (upper (Set.mem_insert _ _))
      · exact upper (.inr ⟨_, second, .inl ⟨rfl, later⟩, rfl⟩)
    constructor
    · rcases member with start | ⟨first, second, ⟨rfl, later⟩ | before, value⟩
      · rcases max_choice worst (f (max peak x) x) with same | same
        · exact .inl (start.trans same)
        · exact .inr (start.trans same ▸ peaks x List.mem_cons_self)
      · exact .inr (value ▸ peaks second (List.mem_cons_of_mem _ later))
      · exact .inr ⟨first, second, .inr (atOrBefore_cons.mpr (.inr before)), value⟩
    · rintro value (rfl | ⟨first, second, ⟨rfl, later⟩ | before, rfl⟩)
      · exact (le_max_left _ _).trans (upper (Set.mem_insert _ _))
      · exact covered first starts (le_max_left _ _) second later
      · rcases atOrBefore_cons.mp before with ⟨rfl, later⟩ | before
        · exact covered first here (le_max_right _ _) second later
        · exact upper (.inr ⟨first, second, .inr before, rfl⟩)

/-- A pass that starts at the first element finds the greatest value over all pairs, when the
start is no more than what an element makes with itself. -/
theorem isGreatest_scan_head
    (rises : ∀ low ∈ valid, ∀ high ∈ valid, low ≤ high → ∀ x ∈ valid, f low x ≤ f high x)
    {x : α} {rest : List α} (all : ∀ y ∈ x :: rest, y ∈ valid) {worst : β}
    (floor : worst = f x x) :
    IsGreatest {value | ∃ first second, AtOrBefore (x :: rest) first second ∧
      value = f first second} (scan f (x, worst) (x :: rest)).2 := by
  have same : insert worst (Values f x (x :: rest)) =
      {value | ∃ first second, AtOrBefore (x :: rest) first second ∧ value = f first second} := by
    ext value
    constructor
    · rintro (rfl | ⟨first, second, ⟨rfl, member⟩ | before, rfl⟩)
      · exact ⟨x, x, atOrBefore_cons.mpr (.inl ⟨rfl, List.mem_cons_self⟩), floor⟩
      · exact ⟨first, second, atOrBefore_cons.mpr (.inl ⟨rfl, member⟩), rfl⟩
      · exact ⟨first, second, before, rfl⟩
    · rintro ⟨first, second, before, rfl⟩
      exact .inr ⟨first, second, .inr before, rfl⟩
  rw [← same]
  exact isGreatest_scan rises (all x List.mem_cons_self) all worst

end Greatest

/-- A monotone change of the elements that the function does not see moves only the peak. -/
theorem scan_map {f : α → α → β} {g : α → α} (mono : Monotone g)
    (unseen : ∀ first second, f (g first) (g second) = f first second) (peak : α) (worst : β)
    (xs : List α) : scan f (g peak, worst) (xs.map g) =
      (g (scan f (peak, worst) xs).1, (scan f (peak, worst) xs).2) := by
  induction xs generalizing peak worst with
  | nil => rfl
  | cons x rest ih =>
    change scan f (max (g peak) (g x), max worst (f (max (g peak) (g x)) (g x))) (rest.map g) = _
    rw [← mono.map_max, unseen, ih]
    rfl

end Library.RunningPeak
