import Endure.Library.Checked
import Endure.Library.Dict
import Endure.Library.DecimalRounding
import Endure.Library.WeightedMedian

/-!
# Weighted-median aggregation

The model of `endure/aggregation/consensus.py`: the weighted median of a cell's
samples in 28-digit decimal arithmetic, and its dispersion. Samples are taken in
the order of their values, and the weights are summed in that order with a
rounding after every addition.
-/

namespace Endure.Aggregation

open Library Library.Checked Library.DecimalRounding Library.WeightedMedian

/-- Why a cell has no consensus. -/
inductive ConsensusError
  | medianOfNothing
  | negativeDispersion
  | noSubmitters
  deriving DecidableEq

/-- Epsilon weight for miners without resolved history. -/
def minConsensusWeight : ℚ := 1 / 100

/-- The rounding of `TR_CONTEXT`. -/
def trRound (x : ℚ) : ℚ := roundDigits 28 x

/-- Samples in Python's order of tuples. -/
def sortedSamples (values : List (ℤ × ℚ)) : List (ℤ × ℚ) :=
  values.insertionSort fun first second => toLex first ≤ toLex second

/-- Median of integer values under decimal weights; deterministic on ties. -/
def weightedMedian (values : List (ℤ × ℚ)) : Except ConsensusError ℤ :=
  match sortedSamples values with
  | [] => .error .medianOfNothing
  | least :: rest =>
    let ordered := least :: rest
    let total := runningSum trRound ordered
    if total ≤ 0 then .ok (ordered.getD ((ordered.length - 1) / 2) least).1
    else
      match crossing trRound (trRound (total / 2)) 0 ordered with
      | some value => .ok value
      | none => .ok (ordered.getLastD least).1

/-- The absolute deviations of the samples from a median. -/
def deviations (values : List (ℤ × ℚ)) (median : ℤ) : List (ℤ × ℚ) :=
  values.map fun sample => (|sample.1 - median|, sample.2)

/-- The weighted median of the absolute deviations. -/
def weightedMad (values : List (ℤ × ℚ)) (median : ℤ) : Except ConsensusError ℤ :=
  weightedMedian (deviations values median)

/-- Blend weight for one hotkey, floored so unproven miners still count. -/
def consensusWeight (blends : Dict String ℚ) (hotkey : String) : ℚ :=
  max (blends.getD hotkey 0) minConsensusWeight

/-- Weighted median, dispersion and sample count of one cell. -/
structure CellAggregate where
  median : ℤ
  dispersion : ℤ
  count : ℕ
  deriving DecidableEq

/-- The single consensus policy for a bucketed cell. -/
def aggregateCell (entries : List (ℤ × ℚ)) : Except ConsensusError CellAggregate := do
  let median ← weightedMedian entries
  let dispersion ← weightedMad entries median
  return ⟨median, dispersion, entries.length⟩

/-! ### The order of the samples -/

theorem sortedSamples_perm (values : List (ℤ × ℚ)) : (sortedSamples values).Perm values :=
  List.perm_insertionSort _ _

theorem sortedSamples_pairwise (values : List (ℤ × ℚ)) :
    (sortedSamples values).Pairwise fun first second => toLex first ≤ toLex second := by
  have total : Std.Total fun first second : ℤ × ℚ => toLex first ≤ toLex second :=
    ⟨fun first second => le_total (toLex first) (toLex second)⟩
  have trans : IsTrans (ℤ × ℚ) fun first second => toLex first ≤ toLex second :=
    ⟨fun _ _ _ left right => left.trans right⟩
  exact List.pairwise_insertionSort _ _

/-- The values are read in increasing order. -/
theorem sortedSamples_ordered (values : List (ℤ × ℚ)) :
    (sortedSamples values).Pairwise fun first second => first.1 ≤ second.1 := by
  refine (sortedSamples_pairwise values).imp ?_
  intro first second below
  rcases Prod.Lex.toLex_le_toLex.mp below with less | ⟨same, -⟩
  · exact less.le
  · exact same.le

/-- Reordered samples are read in the same order. -/
theorem sortedSamples_congr {first second : List (ℤ × ℚ)} (perm : first.Perm second) :
    sortedSamples first = sortedSamples second :=
  List.Perm.eq_of_pairwise
    (fun _ _ _ _ below above => toLex.injective (le_antisymm below above))
    (sortedSamples_pairwise first) (sortedSamples_pairwise second)
    ((sortedSamples_perm first).trans (perm.trans (sortedSamples_perm second).symm))

theorem weightedMedian_perm {first second : List (ℤ × ℚ)} (perm : first.Perm second) :
    weightedMedian first = weightedMedian second := by
  rw [weightedMedian, weightedMedian, sortedSamples_congr perm]

theorem weightedMad_perm {first second : List (ℤ × ℚ)} (perm : first.Perm second) (median : ℤ) :
    weightedMad first median = weightedMad second median :=
  weightedMedian_perm (perm.map _)

/-! ### The rounding of the context -/

/-- The relative error of one operation: half a unit of the 28th digit. -/
def unitRoundoff : ℚ := 5 / 10 ^ 28

/-- The factor an exact sum of weights may shrink by over a cell of so many samples. -/
def lowFactor (count : ℕ) : ℚ := (1 - unitRoundoff) ^ (count + 1)

/-- The factor an exact sum of weights may grow by over a cell of so many samples. -/
def highFactor (count : ℕ) : ℚ := (1 + unitRoundoff) ^ (count + 1)

theorem unitRoundoff_pos : 0 < unitRoundoff := by
  norm_num [unitRoundoff]

theorem unitRoundoff_lt_one : unitRoundoff < 1 := by
  norm_num [unitRoundoff]

theorem lowFactor_pos (count : ℕ) : 0 < lowFactor count :=
  pow_pos (sub_pos.mpr unitRoundoff_lt_one) _

theorem highFactor_pos (count : ℕ) : 0 < highFactor count :=
  pow_pos (add_pos zero_lt_one unitRoundoff_pos) _

theorem trRound_relative {x : ℚ} (nonneg : 0 ≤ x) :
    (1 - unitRoundoff) * x ≤ trRound x ∧ trRound x ≤ (1 + unitRoundoff) * x := by
  have near := abs_roundDigits_sub_le 28 x
  have half : (10 : ℚ) ^ (1 - (28 : ℕ) : ℤ) / 2 = unitRoundoff := by
    norm_num [unitRoundoff, zpow_neg]
  rw [abs_of_nonneg nonneg, half, abs_le] at near
  rw [trRound]
  constructor <;> linarith [near.1, near.2]

/-- Every weight has its digits at or above one decimal place, and half of their sum
fits the context: no sum of weights is rounded. -/
def FitsContext (values : List (ℤ × ℚ)) : Prop :=
  ∃ place : ℤ, (∀ sample ∈ values, ∃ m : ℕ, sample.2 = m * (10 : ℚ) ^ place) ∧
    total values < 2 * 10 ^ 27 * (10 : ℚ) ^ place

/-- A sum of weights on one decimal place is on it as well. -/
theorem exists_total_eq {values : List (ℤ × ℚ)} {place : ℤ}
    (digits : ∀ sample ∈ values, ∃ m : ℕ, sample.2 = m * (10 : ℚ) ^ place) :
    ∃ m : ℕ, total values = m * (10 : ℚ) ^ place := by
  induction values with
  | nil => exact ⟨0, by simp⟩
  | cons sample values ih =>
    obtain ⟨here, there⟩ := List.forall_mem_cons.mp digits
    obtain ⟨first, weight⟩ := here
    obtain ⟨rest, sum⟩ := ih there
    refine ⟨first + rest, ?_⟩
    rw [total_cons, weight, sum]
    push_cast
    ring

theorem trRound_eq_self {m : ℕ} {place : ℤ} (short : m < 10 ^ 28) :
    trRound (m * (10 : ℚ) ^ place) = m * (10 : ℚ) ^ place := by
  have bound : |(m : ℤ)| < 10 ^ 28 := by
    rw [Nat.abs_cast]
    exact_mod_cast short
  have kept := @roundDigits_eq_self 28 m place bound
  rw [Int.cast_natCast] at kept
  exact kept

variable {values : List (ℤ × ℚ)} {low high : ℚ}

/-- The median under sums that follow the exact ones within two factors. -/
theorem weightedMedian_of_tracks (nonneg : ∀ sample ∈ values, 0 ≤ sample.2)
    (lowNonneg : 0 ≤ low) (highNonneg : 0 ≤ high)
    (tracks : Tracks trRound low high (sortedSamples values))
    (positive : 0 < runningSum trRound (sortedSamples values))
    (lower : low * (total values / 2) ≤ trRound (runningSum trRound (sortedSamples values) / 2))
    (upper : trRound (runningSum trRound (sortedSamples values) / 2) ≤ high * (total values / 2)) :
    ∃ median, weightedMedian values = .ok median ∧ Halves low high values median := by
  have perm := sortedSamples_perm values
  have inside : ∀ sample ∈ sortedSamples values, 0 ≤ sample.2 := fun sample member =>
    nonneg sample (perm.subset member)
  set ordered := sortedSamples values with hordered
  rw [← total_perm perm] at lower upper
  obtain ⟨down, up⟩ := trRound_relative (half_pos positive).le
  have small := unitRoundoff_lt_one
  have bound : 0 < trRound (runningSum trRound ordered / 2) :=
    lt_of_lt_of_le (mul_pos (sub_pos.mpr small) (half_pos positive)) down
  -- half of the sum is within the sum, whichever way it is rounded
  have reached : trRound (runningSum trRound ordered / 2) ≤ runningSum trRound ordered := by
    nlinarith
  obtain ⟨median, found, halves⟩ := halves_crossing inside (sortedSamples_ordered values) lowNonneg
    highNonneg tracks bound lower upper reached
  refine ⟨median, ?_, halves.perm perm⟩
  rw [weightedMedian, ← hordered]
  cases split : ordered with
  | nil =>
    rw [split] at positive
    exact absurd positive (lt_irrefl _)
  | cons least rest =>
    rw [split] at positive found
    simp only [if_neg (not_le.mpr positive), found]

/-- Under the rounding of the context, up to its factors for the number of samples. -/
theorem weightedMedian_halves (nonneg : ∀ sample ∈ values, 0 ≤ sample.2)
    (positive : 0 < total values) :
    ∃ median, weightedMedian values = .ok median ∧
      Halves (lowFactor values.length) (highFactor values.length) values median := by
  have perm := sortedSamples_perm values
  have small := unitRoundoff_lt_one
  have roundoff := unitRoundoff_pos
  have inside : ∀ sample ∈ sortedSamples values, 0 ≤ sample.2 := fun sample member =>
    nonneg sample (perm.subset member)
  -- every partial sum is off by a factor for each addition
  have tracks := tracks_of_relative (sub_nonneg.mpr small.le) (sub_le_self 1 roundoff.le)
    (le_add_of_nonneg_right roundoff.le) (fun _ => trRound_relative) inside
  obtain ⟨low, high⟩ := tracks _ List.prefix_rfl
  rw [perm.length_eq, total_perm perm] at low high
  have sum : 0 < runningSum trRound (sortedSamples values) :=
    lt_of_lt_of_le (mul_pos (pow_pos (sub_pos.mpr small) _) positive) low
  -- halving the sum rounds once more
  obtain ⟨down, up⟩ := trRound_relative (half_pos sum).le
  have shrunk : lowFactor values.length = (1 - unitRoundoff) ^ values.length * (1 - unitRoundoff) :=
    pow_succ _ _
  have grown : highFactor values.length = (1 + unitRoundoff) ^ values.length * (1 + unitRoundoff) :=
    pow_succ _ _
  refine weightedMedian_of_tracks nonneg (lowFactor_pos _).le (highFactor_pos _).le ?_ sum ?_ ?_
  · rw [perm.length_eq] at tracks
    refine tracks.mono inside ?_ ?_
    · rw [shrunk]
      exact mul_le_of_le_one_right (pow_nonneg (sub_nonneg.mpr small.le) _) (by linarith)
    · rw [grown]
      exact le_mul_of_one_le_right (pow_nonneg (by linarith) _) (by linarith)
  · calc lowFactor values.length * (total values / 2)
        = (1 - unitRoundoff) * ((1 - unitRoundoff) ^ values.length * total values / 2) := by
          rw [shrunk]
          ring
      _ ≤ (1 - unitRoundoff) * (runningSum trRound (sortedSamples values) / 2) := by
          apply mul_le_mul_of_nonneg_left _ (sub_nonneg.mpr small.le)
          linarith
      _ ≤ _ := down
  · calc trRound (runningSum trRound (sortedSamples values) / 2)
        ≤ (1 + unitRoundoff) * (runningSum trRound (sortedSamples values) / 2) := up
      _ ≤ (1 + unitRoundoff) * ((1 + unitRoundoff) ^ values.length * total values / 2) := by
          apply mul_le_mul_of_nonneg_left _ (by linarith)
          linarith
      _ = _ := by
          rw [grown]
          ring

/-- Exactly, when the sums of the weights fit the context. -/
theorem weightedMedian_halves_of_fits (nonneg : ∀ sample ∈ values, 0 ≤ sample.2)
    (positive : 0 < total values) (fits : FitsContext values) :
    ∃ median, weightedMedian values = .ok median ∧ Halves 1 1 values median := by
  obtain ⟨place, digits, short⟩ := fits
  have perm := sortedSamples_perm values
  have unit : (0 : ℚ) < (10 : ℚ) ^ place := zpow_pos (by norm_num) _
  have inside : ∀ sample ∈ sortedSamples values, 0 ≤ sample.2 := fun sample member =>
    nonneg sample (perm.subset member)
  have kept : ∀ part, part <+: sortedSamples values → trRound (total part) = total part := by
    rintro part ⟨rest, split⟩
    have onPlace : ∀ sample ∈ part, ∃ m : ℕ, sample.2 = m * (10 : ℚ) ^ place :=
      fun sample member => digits sample (perm.subset (split ▸ List.mem_append_left rest member))
    obtain ⟨m, sum⟩ := exists_total_eq onPlace
    have whole : total part ≤ total values := by
      rw [← total_perm perm, ← split, total_append]
      refine le_add_of_nonneg_right (total_nonneg fun sample member => ?_)
      exact inside sample (split ▸ List.mem_append_right part member)
    have bound : (m : ℚ) < 2 * 10 ^ 27 := by
      rw [sum] at whole
      exact lt_of_mul_lt_mul_right (whole.trans_lt short) unit.le
    rw [sum]
    refine trRound_eq_self (lt_trans (by exact_mod_cast bound : m < 2 * 10 ^ 27) (by norm_num))
  have tracks := tracks_of_exact kept
  have exact' : runningSum trRound (sortedSamples values) = total values := by
    obtain ⟨low, high⟩ := tracks _ List.prefix_rfl
    rw [← total_perm perm]
    linarith
  -- Half of the sum has one digit more, at the next place.
  have half : trRound (total values / 2) = total values / 2 := by
    obtain ⟨m, sum⟩ := exists_total_eq digits
    have bound : (m : ℚ) < 2 * 10 ^ 27 := by
      rw [sum] at short
      exact lt_of_mul_lt_mul_right short unit.le
    have below : m < 2 * 10 ^ 27 := by exact_mod_cast bound
    have written : total values / 2 = (5 * m : ℕ) * (10 : ℚ) ^ (place - 1) := by
      rw [sum, zpow_sub_one₀ (by norm_num)]
      push_cast
      ring
    rw [written]
    exact trRound_eq_self (by omega)
  rw [← exact'] at half
  apply weightedMedian_of_tracks nonneg zero_le_one zero_le_one tracks
  · rw [exact']
    exact positive
  · rw [half, exact', one_mul]
  · rw [half, exact', one_mul]

/-! ### Median and dispersion of a cell -/

/-- A cell's median halves the samples and its dispersion the deviations from it. -/
structure Aggregates (low high : ℚ) (values : List (ℤ × ℚ)) (cell : CellAggregate) : Prop where
  median : Halves low high values cell.median
  dispersion : Halves low high (deviations values cell.median) cell.dispersion
  count : cell.count = values.length

@[simp] theorem length_deviations (values : List (ℤ × ℚ)) (median : ℤ) :
    (deviations values median).length = values.length :=
  List.length_map _

@[simp] theorem total_deviations (values : List (ℤ × ℚ)) (median : ℤ) :
    total (deviations values median) = total values := by
  rw [total, total, deviations, List.map_map]
  rfl

theorem deviations_nonneg (nonneg : ∀ sample ∈ values, 0 ≤ sample.2) (median : ℤ) :
    ∀ sample ∈ deviations values median, 0 ≤ sample.2 := by
  intro sample member
  obtain ⟨sampled, inside, rfl⟩ := List.mem_map.mp member
  exact nonneg sampled inside

theorem FitsContext.deviations (fits : FitsContext values) (median : ℤ) :
    FitsContext (deviations values median) := by
  obtain ⟨place, digits, short⟩ := fits
  refine ⟨place, fun sample member => ?_, by rwa [total_deviations]⟩
  obtain ⟨sampled, inside, rfl⟩ := List.mem_map.mp member
  exact digits sampled inside

theorem aggregateCell_eq_ok {cell : CellAggregate} :
    aggregateCell values = .ok cell ↔ weightedMedian values = .ok cell.median ∧
      weightedMedian (deviations values cell.median) = .ok cell.dispersion ∧
      cell.count = values.length := by
  rw [aggregateCell, bind_eq_ok]
  constructor
  · rintro ⟨median, found, rest⟩
    obtain ⟨dispersion, spread, same⟩ := bind_eq_ok.mp rest
    obtain rfl := Except.ok.inj same
    exact ⟨found, spread, rfl⟩
  · rintro ⟨found, spread, count⟩
    refine ⟨cell.median, found, bind_eq_ok.mpr ⟨cell.dispersion, spread, ?_⟩⟩
    rw [← count]
    rfl

theorem aggregateCell_perm {first second : List (ℤ × ℚ)} (perm : first.Perm second) :
    aggregateCell first = aggregateCell second := by
  simp only [aggregateCell, weightedMedian_perm perm, weightedMad_perm perm, perm.length_eq]

/-- Every cell with weight has its aggregate. -/
theorem exists_aggregateCell (nonneg : ∀ sample ∈ values, 0 ≤ sample.2)
    (positive : 0 < total values) :
    ∃ cell, aggregateCell values = .ok cell ∧
      Aggregates (lowFactor values.length) (highFactor values.length) values cell ∧
      (FitsContext values → Aggregates 1 1 values cell) := by
  obtain ⟨median, found, halves⟩ := weightedMedian_halves nonneg positive
  have spreadPositive : 0 < total (deviations values median) := by rwa [total_deviations]
  have spreadNonneg := deviations_nonneg nonneg median
  obtain ⟨dispersion, spread, spreads⟩ := weightedMedian_halves spreadNonneg spreadPositive
  rw [length_deviations] at spreads
  refine ⟨⟨median, dispersion, values.length⟩, aggregateCell_eq_ok.mpr ⟨found, spread, rfl⟩,
    ⟨halves, spreads, rfl⟩, fun fits => ?_⟩
  obtain ⟨exactMedian, found', exactly⟩ := weightedMedian_halves_of_fits nonneg positive fits
  obtain ⟨exactDispersion, spread', spreadsExactly⟩ :=
    weightedMedian_halves_of_fits spreadNonneg spreadPositive (fits.deviations median)
  rw [found, Except.ok.injEq] at found'
  rw [spread, Except.ok.injEq] at spread'
  exact ⟨found' ▸ exactly, spread' ▸ spreadsExactly, rfl⟩

end Endure.Aggregation
