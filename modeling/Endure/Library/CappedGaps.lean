import Mathlib

/-!
# Averages weighted by capped gaps

Samples taken at growing positions are averaged with weights: a sample counts for the gap
that it closes, up to a cap. The average stays between the least and the greatest sample,
is the plain average when every gap reaches the cap, and one more sample inside a short gap
only divides the weight of the gap.
-/

namespace Library.CappedGaps

/-! ### Weighted sums -/

section Sums

variable {K : Type*} [CommRing K]

def weightedSum (weights : List ℕ) (values : List K) : K :=
  (List.zipWith (fun (weight : ℕ) value => value * (weight : K)) weights values).sum

@[simp] theorem weightedSum_nil (values : List K) : weightedSum [] values = 0 := rfl

@[simp] theorem weightedSum_cons (weight : ℕ) (weights : List ℕ) (value : K) (values : List K) :
    weightedSum (weight :: weights) (value :: values) =
      value * weight + weightedSum weights values := by
  rw [weightedSum, List.zipWith_cons_cons, List.sum_cons]
  rfl

theorem weightedSum_append {weights : List ℕ} {values : List K}
    (paired : weights.length = values.length) (weights' : List ℕ) (values' : List K) :
    weightedSum (weights ++ weights') (values ++ values') =
      weightedSum weights values + weightedSum weights' values' := by
  rw [weightedSum, List.zipWith_append paired, List.sum_append]
  rfl

/-- Equal weights come out of the sum. -/
theorem weightedSum_of_const {weight : ℕ} {weights : List ℕ} {values : List K}
    (paired : weights.length = values.length) (constant : ∀ w ∈ weights, w = weight) :
    weightedSum weights values = weight * values.sum := by
  induction weights generalizing values with
  | nil =>
    rw [List.length_eq_zero_iff.mp paired.symm]
    simp
  | cons first rest ih =>
    cases values with
    | nil => exact absurd paired (by simp)
    | cons value values =>
      have tail := ih (Nat.succ_injective paired) fun w member =>
        constant w (List.mem_cons_of_mem first member)
      rw [weightedSum_cons, tail, constant first List.mem_cons_self, List.sum_cons]
      ring

variable [LinearOrder K] [IsStrictOrderedRing K]

/-- Weights from a lower bound of the values on bound the sum from below. -/
theorem le_weightedSum {low : K} {weights : List ℕ} {values : List K}
    (paired : weights.length = values.length) (bounded : ∀ value ∈ values, low ≤ value) :
    low * (weights.sum : ℕ) ≤ weightedSum weights values := by
  induction weights generalizing values with
  | nil => simp
  | cons first rest ih =>
    cases values with
    | nil => exact absurd paired (by simp)
    | cons value values =>
      have tail := ih (Nat.succ_injective paired) fun v member =>
        bounded v (List.mem_cons_of_mem value member)
      have head : low * (first : K) ≤ value * first :=
        mul_le_mul_of_nonneg_right (bounded value List.mem_cons_self) first.cast_nonneg
      rw [weightedSum_cons, List.sum_cons, Nat.cast_add, mul_add]
      exact add_le_add head tail

theorem weightedSum_le {high : K} {weights : List ℕ} {values : List K}
    (paired : weights.length = values.length) (bounded : ∀ value ∈ values, value ≤ high) :
    weightedSum weights values ≤ high * (weights.sum : ℕ) := by
  induction weights generalizing values with
  | nil => simp
  | cons first rest ih =>
    cases values with
    | nil => exact absurd paired (by simp)
    | cons value values =>
      have tail := ih (Nat.succ_injective paired) fun v member =>
        bounded v (List.mem_cons_of_mem value member)
      have head : value * (first : K) ≤ high * first :=
        mul_le_mul_of_nonneg_right (bounded value List.mem_cons_self) first.cast_nonneg
      rw [weightedSum_cons, List.sum_cons, Nat.cast_add, mul_add]
      exact add_le_add head tail

end Sums

/-! ### Weights -/

/-- The gap that each position closes, up to a cap. -/
def gapWeights (cap start : ℕ) (positions : List ℕ) : List ℕ :=
  List.zipWith (fun previous position => min (position - previous) cap)
    (start :: positions) positions

/-- The positions grow from the start on. -/
def Ascending (start : ℕ) (positions : List ℕ) : Prop := (start :: positions).IsChain (· < ·)

variable {cap start position : ℕ} {positions rest before after : List ℕ}

@[simp] theorem gapWeights_nil : gapWeights cap start [] = [] := rfl

@[simp] theorem gapWeights_cons : gapWeights cap start (position :: rest) =
    min (position - start) cap :: gapWeights cap position rest := rfl

@[simp] theorem length_gapWeights :
    (gapWeights cap start positions).length = positions.length := by
  rw [gapWeights, List.length_zipWith, List.length_cons]
  omega

theorem ascending_cons :
    Ascending start (position :: rest) ↔ start < position ∧ Ascending position rest :=
  List.isChain_cons_cons

instance : Decidable (Ascending start positions) :=
  inferInstanceAs (Decidable ((start :: positions).IsChain (· < ·)))

/-- The weights after some positions start from the last of these. -/
theorem gapWeights_append : gapWeights cap start (before ++ after) =
    gapWeights cap start before ++ gapWeights cap (before.getLastD start) after := by
  induction before generalizing start with
  | nil => rfl
  | cons first rest ih =>
    rw [List.cons_append, gapWeights_cons, ih, gapWeights_cons, List.cons_append,
      List.getLastD_cons]

theorem ascending_append : Ascending start (before ++ after) ↔
    Ascending start before ∧ Ascending (before.getLastD start) after := by
  induction before generalizing start with
  | nil => exact (and_iff_right (List.isChain_singleton start)).symm
  | cons first rest ih =>
    rw [List.cons_append, ascending_cons, ih, ascending_cons, List.getLastD_cons, and_assoc]

/-- Every position past the start has weight. -/
theorem gapWeights_sum_pos (capped : 0 < cap) (ascending : Ascending start positions)
    (sampled : positions ≠ []) : 0 < (gapWeights cap start positions).sum := by
  cases positions with
  | nil => exact absurd rfl sampled
  | cons position rest =>
    have past := (ascending_cons.mp ascending).1
    rw [gapWeights_cons, List.sum_cons]
    omega

/-- Gaps of the cap or more all weigh the cap. -/
theorem eq_cap_of_mem_gapWeights
    (wide : (start :: positions).IsChain fun previous position => previous + cap ≤ position)
    {weight : ℕ} (member : weight ∈ gapWeights cap start positions) : weight = cap := by
  induction positions generalizing start with
  | nil => exact absurd member List.not_mem_nil
  | cons position rest ih =>
    obtain ⟨gap, later⟩ := List.isChain_cons_cons.mp wide
    rw [gapWeights_cons] at member
    rcases List.mem_cons.mp member with rfl | inner
    · omega
    · exact ih later inner

/-! ### One more sample -/

/-- A sample inside a gap keeps the order. -/
theorem ascending_insert {extra : ℕ} (past : before.getLastD start < extra)
    (short : extra < position) (ascending : Ascending start (before ++ position :: after)) :
    Ascending start (before ++ extra :: position :: after) := by
  obtain ⟨earlier, later⟩ := ascending_append.mp ascending
  refine ascending_append.mpr ⟨earlier, ascending_cons.mpr ⟨past, ?_⟩⟩
  exact ascending_cons.mpr ⟨short, (ascending_cons.mp later).2⟩

/-- A sample inside a gap of at most the cap takes over its part of the weight. -/
theorem gapWeights_insert {extra : ℕ} (past : before.getLastD start < extra)
    (short : extra < position) (gap : position - before.getLastD start ≤ cap) :
    (gapWeights cap start (before ++ extra :: position :: after)).sum =
      (gapWeights cap start (before ++ position :: after)).sum := by
  simp only [gapWeights_append, gapWeights_cons, List.sum_append, List.sum_cons]
  omega

/-- Its value replaces that of the sample after it on this part. -/
theorem weightedSum_insert {K : Type*} [CommRing K] {extra : ℕ} {x value : K}
    {earlier later : List K} (paired : before.length = earlier.length)
    (past : before.getLastD start < extra) (short : extra < position)
    (gap : position - before.getLastD start ≤ cap) :
    weightedSum (gapWeights cap start (before ++ extra :: position :: after))
        (earlier ++ x :: value :: later) =
      weightedSum (gapWeights cap start (before ++ position :: after))
        (earlier ++ value :: later) +
      (x - value) * ((extra - before.getLastD start : ℕ) : K) := by
  have lengths : (gapWeights cap start before).length = earlier.length := by
    rw [length_gapWeights, paired]
  have whole : min (position - before.getLastD start) cap =
      (extra - before.getLastD start) + (position - extra) := by omega
  have left : min (extra - before.getLastD start) cap = extra - before.getLastD start := by omega
  have right : min (position - extra) cap = position - extra := by omega
  simp only [gapWeights_append, gapWeights_cons, weightedSum_append lengths, weightedSum_cons,
    whole, left, right]
  push_cast
  ring

end Library.CappedGaps
