import Endure.Library.CappedGaps
import Endure.Scoring.Observables

/-!
# Block-weighted means

The estimators of the price and of the liquidity depth in
`endure/scoring/risk/observables.py`: every snapshot counts for the blocks since the one
before it, up to one cadence. Decimal arithmetic is exact.
-/

namespace Endure.Scoring

open Library.DecimalRounding Library.CappedGaps

def raoPerTao : ℚ := 1000000000

/-- The division of decimals, with its error. -/
def decimalDiv (dividend divisor : ℚ) : Except ArchiveError ℚ :=
  if divisor = 0 then .error .invalidOperation else .ok (dividend / divisor)

/-- The sum, the weight and the last block after one snapshot of the loop. -/
def blockWeightedStep (state : ℚ × ℕ × ℕ) (item : AlphaPriceSnapshot × ℚ) :
    Except ArchiveError (ℚ × ℕ × ℕ) :=
  let (weightedSum, totalWeight, previousBlock) := state
  let (snapshot, value) := item
  if snapshot.block ≤ previousBlock then
    .error (.alphaMarketDataError "price snapshots must be ascending by block")
  else
    let weight := min (snapshot.block - previousBlock) canonicalAlphaSnapshotCadenceBlocks
    .ok (weightedSum + value * weight, totalWeight + weight, snapshot.block)

def blockWeightedDecimal (series : List AlphaPriceSnapshot) (windowStartBlock : ℕ)
    (values : List ℚ) : Except ArchiveError ℤ :=
  match series with
  | [] => .error (.alphaMarketDataError "weighted series must not be empty")
  | first :: _ =>
    if series.length ≠ values.length then
      .error (.alphaMarketDataError "weighted values must match snapshots")
    else if first.block ≤ windowStartBlock then
      .error (.alphaMarketDataError "first weighted snapshot must follow window_start_block")
    else do
      let (weightedSum, totalWeight, _) ←
        (series.zip values).foldlM blockWeightedStep (0, 0, windowStartBlock)
      let mean ← decimalDiv weightedSum totalWeight
      return quantizeInt mean

/-- Block-weighted mean price in RAO. -/
def twapPriceRao (series : List AlphaPriceSnapshot) (windowStartBlock : ℕ) :
    Except ArchiveError ℤ :=
  blockWeightedDecimal series windowStartBlock
    (series.map fun snapshot => snapshot.priceTaoPerAlpha * raoPerTao)

/-- Block-weighted mean TAO reserve in RAO. -/
def liquidityDepthRao (series : List AlphaPriceSnapshot) (windowStartBlock : ℕ) :
    Except ArchiveError ℤ :=
  blockWeightedDecimal series windowStartBlock
    (series.map fun snapshot => (snapshot.taoReserveRao : ℚ))

/-! ### The loop -/

/-- The blocks of some snapshots. -/
def blocksOf (series : List AlphaPriceSnapshot) : List ℕ := series.map (·.block)

/-- The series that the estimators take: not empty, past the window's start and ascending. -/
def Accepted (windowStartBlock : ℕ) (series : List AlphaPriceSnapshot) : Prop :=
  series ≠ [] ∧ Ascending windowStartBlock (blocksOf series)

/-- The weights of the snapshots of a series. -/
def blockWeights (windowStartBlock : ℕ) (series : List AlphaPriceSnapshot) : List ℕ :=
  gapWeights canonicalAlphaSnapshotCadenceBlocks windowStartBlock (blocksOf series)

/-- The weighted sum of a value of the snapshots, before any division or rounding. -/
def blockWeightedSum (value : AlphaPriceSnapshot → ℚ) (windowStartBlock : ℕ)
    (series : List AlphaPriceSnapshot) : ℚ :=
  weightedSum (blockWeights windowStartBlock series) (series.map value)

variable {value : AlphaPriceSnapshot → ℚ} {windowStartBlock : ℕ}
  {series : List AlphaPriceSnapshot}

theorem length_blockWeights :
    (blockWeights windowStartBlock series).length = (series.map value).length := by
  rw [blockWeights, length_gapWeights, blocksOf, List.length_map, List.length_map]

section Cons

variable {snapshot : AlphaPriceSnapshot}

theorem ascending_blocksOf_cons : Ascending windowStartBlock (blocksOf (snapshot :: series)) ↔
    windowStartBlock < snapshot.block ∧ Ascending snapshot.block (blocksOf series) :=
  ascending_cons

theorem blockWeights_cons : blockWeights windowStartBlock (snapshot :: series) =
    min (snapshot.block - windowStartBlock) canonicalAlphaSnapshotCadenceBlocks ::
      blockWeights snapshot.block series :=
  rfl

theorem blockWeightedSum_cons : blockWeightedSum value windowStartBlock (snapshot :: series) =
    value snapshot * (min (snapshot.block - windowStartBlock)
      canonicalAlphaSnapshotCadenceBlocks : ℕ) +
      blockWeightedSum value snapshot.block series := by
  rw [blockWeightedSum, blockWeights_cons, List.map_cons, weightedSum_cons]
  rfl

end Cons

/-- The loop adds the weighted values and the weights of an ascending series, and stops at
the first block out of order in any other. -/
theorem foldlM_blockWeightedStep (total : ℚ) (weight : ℕ) :
    (series.zip (series.map value)).foldlM blockWeightedStep (total, weight, windowStartBlock) =
      if Ascending windowStartBlock (blocksOf series) then
        .ok (total + blockWeightedSum value windowStartBlock series,
          weight + (blockWeights windowStartBlock series).sum,
          (blocksOf series).getLastD windowStartBlock)
      else .error (.alphaMarketDataError "price snapshots must be ascending by block") := by
  induction series generalizing total weight windowStartBlock with
  | nil =>
    have trivial : Ascending windowStartBlock (blocksOf []) := List.isChain_singleton _
    rw [if_pos trivial]
    simp [blockWeightedSum, blockWeights, blocksOf, pure, Except.pure]
  | cons snapshot rest ih =>
    rw [List.map_cons, List.zip_cons_cons, List.foldlM_cons, blockWeightedStep]
    simp only
    by_cases past : snapshot.block ≤ windowStartBlock
    -- a block at or before the last one stops the loop
    · have stuck : ¬ Ascending windowStartBlock (blocksOf (snapshot :: rest)) := by
        intro ascending
        have := (ascending_blocksOf_cons.mp ascending).1
        omega
      rw [if_pos past, if_neg stuck]
      rfl
    · rw [if_neg past]
      have same : Ascending windowStartBlock (blocksOf (snapshot :: rest)) ↔
          Ascending snapshot.block (blocksOf rest) :=
        ascending_blocksOf_cons.trans (and_iff_right (by omega))
      change (rest.zip (rest.map value)).foldlM blockWeightedStep _ = _
      rw [ih]
      simp only [same]
      split
      · rw [blockWeightedSum_cons, blockWeights_cons, List.sum_cons, add_assoc, add_assoc,
          blocksOf, blocksOf, List.map_cons, List.getLastD_cons]
      · rfl

/-- An accepted series has weight. -/
theorem blockWeights_sum_pos (accepted : Accepted windowStartBlock series) :
    0 < (blockWeights windowStartBlock series).sum := by
  have sampled : blocksOf series ≠ [] := fun none => accepted.1 (List.map_eq_nil_iff.mp none)
  exact gapWeights_sum_pos (by decide) accepted.2 sampled

/-- The estimate of an accepted series is its weighted mean, rounded once. -/
theorem blockWeightedDecimal_of_accepted (accepted : Accepted windowStartBlock series) :
    blockWeightedDecimal series windowStartBlock (series.map value) =
      .ok (roundHalfEven (blockWeightedSum value windowStartBlock series /
        ((blockWeights windowStartBlock series).sum : ℕ))) := by
  have weighted := blockWeights_sum_pos accepted
  have run := @foldlM_blockWeightedStep value windowStartBlock series 0 0
  rw [if_pos accepted.2, zero_add, zero_add] at run
  obtain ⟨sampled, ascending⟩ := accepted
  obtain ⟨first, rest, rfl⟩ := List.exists_cons_of_ne_nil sampled
  have past : ¬ first.block ≤ windowStartBlock := by
    have := (ascending_blocksOf_cons.mp ascending).1
    omega
  have divides : (((blockWeights windowStartBlock (first :: rest)).sum : ℕ) : ℚ) ≠ 0 :=
    Nat.cast_ne_zero.mpr weighted.ne'
  unfold blockWeightedDecimal
  simp only
  rw [if_neg (by simp), if_neg past, run]
  simp only [bind, Except.bind, decimalDiv, if_neg divides, pure, Except.pure, quantizeInt]

/-- Any other series is refused by a check. -/
theorem blockWeightedDecimal_of_not_accepted (refused : ¬ Accepted windowStartBlock series) :
    ∃ message, blockWeightedDecimal series windowStartBlock (series.map value) =
      .error (.alphaMarketDataError message) := by
  cases series with
  | nil => exact ⟨_, rfl⟩
  | cons first rest =>
    have unordered : ¬ Ascending windowStartBlock (blocksOf (first :: rest)) :=
      fun ascending => refused ⟨List.cons_ne_nil first rest, ascending⟩
    unfold blockWeightedDecimal
    simp only
    rw [if_neg (by simp)]
    split
    · exact ⟨_, rfl⟩
    · rw [foldlM_blockWeightedStep, if_neg unordered]
      exact ⟨_, rfl⟩

/-- The validated series whose first snapshot follows the window's start is accepted. -/
theorem AlphaPriceSeries.accepted (series : AlphaPriceSeries)
    (follows : windowStartBlock < series.firstBlock) :
    Accepted windowStartBlock series.snapshots := by
  obtain ⟨source, netuid, snapshots, sourced, sampled, ofPool, ascending⟩ := series
  obtain ⟨first, rest, rfl⟩ := List.exists_cons_of_ne_nil sampled
  exact ⟨sampled, ascending_blocksOf_cons.mpr ⟨follows, ascending⟩⟩

/-! ### The estimators -/

/-- An estimator that averages a value of the snapshots with block weights. -/
structure IsBlockWeightedMean (value : AlphaPriceSnapshot → ℚ)
    (estimate : List AlphaPriceSnapshot → ℕ → Except ArchiveError ℤ) : Prop where
  /-- It takes exactly the accepted series. -/
  accepts : ∀ series windowStartBlock,
    (∃ mean, estimate series windowStartBlock = .ok mean) ↔ Accepted windowStartBlock series
  /-- It never divides by zero. -/
  divides : ∀ series windowStartBlock,
    estimate series windowStartBlock ≠ .error .invalidOperation
  /-- It is the weighted mean, rounded half to even once. -/
  mean : ∀ series windowStartBlock, Accepted windowStartBlock series →
    estimate series windowStartBlock =
      .ok (roundHalfEven (blockWeightedSum value windowStartBlock series /
        ((blockWeights windowStartBlock series).sum : ℕ)))
  /-- It lies between the roundings of the least and of the greatest value. -/
  between : ∀ series windowStartBlock mean, estimate series windowStartBlock = .ok mean →
    ∃ low ∈ series, ∃ high ∈ series,
      (∀ snapshot ∈ series, value low ≤ value snapshot ∧ value snapshot ≤ value high) ∧
      roundHalfEven (value low) ≤ mean ∧ mean ≤ roundHalfEven (value high)
  /-- It is the plain average when no gap is under one cadence. -/
  plain : ∀ series windowStartBlock, series ≠ [] →
    (windowStartBlock :: blocksOf series).IsChain
      (fun previous block => previous + canonicalAlphaSnapshotCadenceBlocks ≤ block) →
    estimate series windowStartBlock =
      .ok (roundHalfEven ((series.map value).sum / (series.length : ℕ)))
  /-- One more snapshot inside a gap of at most one cadence keeps the weight, and moves the
  sum by at most the gap times the distance of the two values. -/
  insert : ∀ before snapshot after extra windowStartBlock,
    Accepted windowStartBlock (before ++ snapshot :: after) →
    (blocksOf before).getLastD windowStartBlock < extra.block → extra.block < snapshot.block →
    snapshot.block - (blocksOf before).getLastD windowStartBlock ≤
      canonicalAlphaSnapshotCadenceBlocks →
    Accepted windowStartBlock (before ++ extra :: snapshot :: after) ∧
    (blockWeights windowStartBlock (before ++ extra :: snapshot :: after)).sum =
      (blockWeights windowStartBlock (before ++ snapshot :: after)).sum ∧
    |blockWeightedSum value windowStartBlock (before ++ extra :: snapshot :: after) -
      blockWeightedSum value windowStartBlock (before ++ snapshot :: after)| ≤
      (snapshot.block - (blocksOf before).getLastD windowStartBlock : ℕ) *
        |value extra - value snapshot|

/-- Some snapshot has the least value of a series, and some the greatest. -/
theorem exists_extreme_snapshots (value : AlphaPriceSnapshot → ℚ)
    {series : List AlphaPriceSnapshot} (sampled : series ≠ []) :
    ∃ low ∈ series, ∃ high ∈ series,
      ∀ snapshot ∈ series, value low ≤ value snapshot ∧ value snapshot ≤ value high := by
  have nonempty : series.toFinset.Nonempty := List.toFinset_nonempty_iff series |>.mpr sampled
  obtain ⟨low, lowest, below⟩ := series.toFinset.exists_min_image value nonempty
  obtain ⟨high, highest, above⟩ := series.toFinset.exists_max_image value nonempty
  refine ⟨low, List.mem_toFinset.mp lowest, high, List.mem_toFinset.mp highest, ?_⟩
  intro snapshot member
  have present := List.mem_toFinset.mpr member
  exact ⟨below snapshot present, above snapshot present⟩

/-- The weighted mean lies between any bounds of the values. -/
theorem blockWeightedSum_div_mem {low high : ℚ} (accepted : Accepted windowStartBlock series)
    (bounded : ∀ snapshot ∈ series, low ≤ value snapshot ∧ value snapshot ≤ high) :
    low ≤ blockWeightedSum value windowStartBlock series /
        ((blockWeights windowStartBlock series).sum : ℕ) ∧
      blockWeightedSum value windowStartBlock series /
        ((blockWeights windowStartBlock series).sum : ℕ) ≤ high := by
  have weighted : (0 : ℚ) < ((blockWeights windowStartBlock series).sum : ℕ) :=
    Nat.cast_pos.mpr (blockWeights_sum_pos accepted)
  constructor
  · rw [le_div_iff₀ weighted]
    refine le_weightedSum length_blockWeights fun v member => ?_
    obtain ⟨snapshot, inside, rfl⟩ := List.mem_map.mp member
    exact (bounded snapshot inside).1
  · rw [div_le_iff₀ weighted]
    refine weightedSum_le length_blockWeights fun v member => ?_
    obtain ⟨snapshot, inside, rfl⟩ := List.mem_map.mp member
    exact (bounded snapshot inside).2

/-- With no gap under one cadence every snapshot weighs the same. -/
theorem blockWeightedSum_div_of_wide (sampled : series ≠ [])
    (wide : (windowStartBlock :: blocksOf series).IsChain
      fun previous block => previous + canonicalAlphaSnapshotCadenceBlocks ≤ block) :
    Accepted windowStartBlock series ∧
      blockWeightedSum value windowStartBlock series /
        ((blockWeights windowStartBlock series).sum : ℕ) =
      (series.map value).sum / (series.length : ℕ) := by
  have cadence : 0 < canonicalAlphaSnapshotCadenceBlocks := by decide
  have constant : ∀ weight ∈ blockWeights windowStartBlock series,
      weight = canonicalAlphaSnapshotCadenceBlocks := fun weight => eq_cap_of_mem_gapWeights wide
  have total : (blockWeights windowStartBlock series).sum =
      series.length * canonicalAlphaSnapshotCadenceBlocks := by
    rw [List.eq_replicate_of_mem constant, List.sum_replicate, @length_blockWeights value, List.length_map,
      smul_eq_mul]
  refine ⟨⟨sampled, wide.imp fun previous block gap => by omega⟩, ?_⟩
  rw [blockWeightedSum, weightedSum_of_const length_blockWeights constant, total, Nat.cast_mul,
    mul_comm, mul_div_mul_right _ _ (Nat.cast_ne_zero.mpr cadence.ne')]

theorem blockWeightedSum_insert {before after : List AlphaPriceSnapshot}
    {snapshot extra : AlphaPriceSnapshot}
    (past : (blocksOf before).getLastD windowStartBlock < extra.block)
    (short : extra.block < snapshot.block)
    (gap : snapshot.block - (blocksOf before).getLastD windowStartBlock ≤
      canonicalAlphaSnapshotCadenceBlocks) :
    |blockWeightedSum value windowStartBlock (before ++ extra :: snapshot :: after) -
      blockWeightedSum value windowStartBlock (before ++ snapshot :: after)| ≤
      (snapshot.block - (blocksOf before).getLastD windowStartBlock : ℕ) *
        |value extra - value snapshot| := by
  have paired : (blocksOf before).length = (before.map value).length := by
    rw [blocksOf, List.length_map, List.length_map]
  have moved := @weightedSum_insert _ windowStartBlock _ (blocksOf before) (blocksOf after) ℚ _ _
    (value extra) (value snapshot) _ (after.map value) paired past short gap
  have closer : ((extra.block - (blocksOf before).getLastD windowStartBlock : ℕ) : ℚ) ≤
      ((snapshot.block - (blocksOf before).getLastD windowStartBlock : ℕ) : ℚ) := by
    exact_mod_cast (by omega)
  have change : blockWeightedSum value windowStartBlock (before ++ extra :: snapshot :: after) -
      blockWeightedSum value windowStartBlock (before ++ snapshot :: after) =
      (value extra - value snapshot) *
        (extra.block - (blocksOf before).getLastD windowStartBlock : ℕ) := by
    simp only [blockWeightedSum, blockWeights, blocksOf, List.map_append, List.map_cons]
      at moved ⊢
    rw [moved, add_sub_cancel_left]
  rw [change, abs_mul, Nat.abs_cast, mul_comm]
  exact mul_le_mul_of_nonneg_right closer (abs_nonneg _)

/-- The estimator of a value is its block-weighted mean. -/
theorem blockWeightedDecimal_isMean (value : AlphaPriceSnapshot → ℚ) :
    IsBlockWeightedMean value fun series windowStartBlock =>
      blockWeightedDecimal series windowStartBlock (series.map value) where
  accepts series windowStartBlock := by
    refine ⟨fun ⟨mean, found⟩ => ?_, fun accepted =>
      ⟨_, blockWeightedDecimal_of_accepted accepted⟩⟩
    by_contra refused
    obtain ⟨message, error⟩ := @blockWeightedDecimal_of_not_accepted value _ _ refused
    cases found.symm.trans error
  divides series windowStartBlock divided := by
    by_cases accepted : Accepted windowStartBlock series
    · cases divided.symm.trans (blockWeightedDecimal_of_accepted accepted)
    · obtain ⟨message, error⟩ := @blockWeightedDecimal_of_not_accepted value _ _ accepted
      cases divided.symm.trans error
  mean series windowStartBlock accepted := blockWeightedDecimal_of_accepted accepted
  between series windowStartBlock mean found := by
    by_cases accepted : Accepted windowStartBlock series
    · cases found.symm.trans (blockWeightedDecimal_of_accepted accepted)
      obtain ⟨low, lowest, high, highest, bounded⟩ := exists_extreme_snapshots value accepted.1
      obtain ⟨above, below⟩ := blockWeightedSum_div_mem accepted bounded
      exact ⟨low, lowest, high, highest, bounded, roundHalfEven_mono above,
        roundHalfEven_mono below⟩
    · obtain ⟨message, error⟩ := @blockWeightedDecimal_of_not_accepted value _ _ accepted
      cases found.symm.trans error
  plain series windowStartBlock sampled wide := by
    obtain ⟨accepted, average⟩ := @blockWeightedSum_div_of_wide value _ _ sampled wide
    rw [← average]
    exact blockWeightedDecimal_of_accepted accepted
  insert before snapshot after extra windowStartBlock accepted past short gap := by
    refine ⟨⟨by simp, ?_⟩, ?_, blockWeightedSum_insert past short gap⟩
    · have ascending := accepted.2
      simp only [blocksOf, List.map_append, List.map_cons] at ascending past ⊢
      exact ascending_insert past short ascending
    · simp only [blockWeights, blocksOf, List.map_append, List.map_cons] at past gap ⊢
      exact gapWeights_insert past short gap

/-- **The price and the depth are block-weighted means.** Both estimators take exactly the
ascending series past the window's start, never divide by zero and round the mean with
weights capped at a cadence once; they stay between the roundings of the extreme values, are
plain averages of wide series, and feel a further snapshot in a short gap only by its
distance. -/
theorem estimators_areBlockWeighted :
    IsBlockWeightedMean (fun snapshot => snapshot.priceTaoPerAlpha * raoPerTao) twapPriceRao ∧
    IsBlockWeightedMean (fun snapshot => (snapshot.taoReserveRao : ℚ)) liquidityDepthRao :=
  ⟨blockWeightedDecimal_isMean _, blockWeightedDecimal_isMean _⟩

-- Weights of 10, 90 and 600 blocks, the last gap being cut.
example : twapPriceRao [pricedAt 100 1 (by norm_num), pricedAt 190 3 (by norm_num),
    pricedAt 1000 5 (by norm_num)] 90 = .ok 4685714286 := by decide +kernel

end Endure.Scoring
