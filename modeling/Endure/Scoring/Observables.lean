import Endure.Library.RunningPeak
import Endure.Scoring.MarketData

/-!
# Realized values

The estimator of the drawdown in `endure/scoring/risk/observables.py`. Decimal arithmetic is
exact.
-/

namespace Endure.Scoring

open Library.DecimalRounding Library.RunningPeak

def quantizeInt (value : ℚ) : ℤ := roundHalfEven value

/-- Peak-to-trough drawdown in bps, in one pass. -/
def maxDrawdownBps (series : List AlphaPriceSnapshot) : Except ArchiveError ℤ :=
  match series with
  | [] => .error (.alphaMarketDataError "drawdown series must not be empty")
  | first :: _ =>
    let (_, worst) := series.foldl (fun (peak, worst) snapshot =>
      let price := snapshot.priceTaoPerAlpha
      let peak := max peak price
      let drawdown := 1 - price / peak
      (peak, max worst drawdown)) (first.priceTaoPerAlpha, 0)
    .ok (quantizeInt (worst * 10000))

/-- The drop from an earlier price to a later one, as a part of the earlier. -/
def drop (earlier later : ℚ) : ℚ := 1 - later / earlier

/-- The prices of a series. -/
def pricesOf (series : List AlphaPriceSnapshot) : List ℚ := series.map (·.priceTaoPerAlpha)

/-- The worst drop that a pass over some prices finds. -/
def worstDrop (prices : List ℚ) : ℚ := (scan drop (prices.headD 0, 0) prices).2

theorem pos_of_mem_pricesOf {series : List AlphaPriceSnapshot} {price : ℚ}
    (member : price ∈ pricesOf series) : 0 < price := by
  obtain ⟨snapshot, -, rfl⟩ := List.mem_map.mp member
  exact snapshot.priced

theorem maxDrawdownBps_eq {series : List AlphaPriceSnapshot} (sampled : series ≠ []) :
    maxDrawdownBps series = .ok (quantizeInt (worstDrop (pricesOf series) * 10000)) := by
  cases series with
  | nil => exact absurd rfl sampled
  | cons first rest =>
    have pass : ∀ (snapshots : List AlphaPriceSnapshot) (state : ℚ × ℚ),
        snapshots.foldl (fun (peak, worst) snapshot =>
          (max peak snapshot.priceTaoPerAlpha,
            max worst (1 - snapshot.priceTaoPerAlpha / max peak snapshot.priceTaoPerAlpha)))
          state = scan drop state (pricesOf snapshots) := by
      intro snapshots state
      rw [scan, pricesOf, List.foldl_map]
      rfl
    rw [maxDrawdownBps]
    simp only
    rw [pass]
    rfl

/-- A drop from a higher price is no smaller. -/
theorem drop_mono {low high price : ℚ} (positive : 0 < low) (higher : low ≤ high)
    (priced : 0 < price) : drop low price ≤ drop high price := by
  rw [drop, drop]
  have shrinks : price / high ≤ price / low := by gcongr
  linarith

/-- The pass finds the worst drop between a price and one at or after it. -/
theorem isGreatest_worstDrop {prices : List ℚ} (priced : ∀ price ∈ prices, 0 < price)
    (sampled : prices ≠ []) :
    IsGreatest {value | ∃ earlier later, AtOrBefore prices earlier later ∧
      value = drop earlier later} (worstDrop prices) := by
  cases prices with
  | nil => exact absurd rfl sampled
  | cons first rest =>
    have level : 0 = drop first first := by
      rw [drop, div_self (priced first List.mem_cons_self).ne', sub_self]
    have rises : ∀ low ∈ Set.Ioi (0 : ℚ), ∀ high ∈ Set.Ioi (0 : ℚ), low ≤ high →
        ∀ price ∈ Set.Ioi (0 : ℚ), drop low price ≤ drop high price :=
      fun low positive high _ higher price priced => drop_mono positive higher priced
    exact isGreatest_scan_head rises priced level

/-- Fewer prices have no worse drop. -/
theorem worstDrop_le_of_sublist {fewer prices : List ℚ} (priced : ∀ price ∈ prices, 0 < price)
    (part : fewer.Sublist prices) (sampled : fewer ≠ []) :
    worstDrop fewer ≤ worstDrop prices := by
  have more : prices ≠ [] := fun none => sampled (List.sublist_nil.mp (none ▸ part))
  obtain ⟨⟨earlier, later, before, worst⟩, -⟩ :=
    isGreatest_worstDrop (fun price member => priced price (part.subset member)) sampled
  rw [worst]
  exact (isGreatest_worstDrop priced more).2 ⟨earlier, later, before.of_sublist part, rfl⟩

/-- Drops do not depend on the unit of the prices. -/
theorem worstDrop_scale {factor : ℚ} (positive : 0 < factor) (prices : List ℚ) :
    worstDrop (prices.map (factor * ·)) = worstDrop prices := by
  have head : (prices.map (factor * ·)).headD 0 = factor * prices.headD 0 := by
    cases prices with
    | nil => exact (mul_zero factor).symm
    | cons first rest => rfl
  have unseen (earlier later : ℚ) : drop (factor * earlier) (factor * later) =
      drop earlier later := by
    rw [drop, drop, mul_div_mul_left _ _ positive.ne']
  rw [worstDrop, worstDrop, head,
    scan_map (fun low high higher => mul_le_mul_of_nonneg_left higher positive.le) unseen]

/-- No drop is larger than the price it starts from. -/
theorem worstDrop_mem {prices : List ℚ} (priced : ∀ price ∈ prices, 0 < price)
    (sampled : prices ≠ []) : worstDrop prices ∈ Set.Icc (0 : ℚ) 1 := by
  obtain ⟨⟨earlier, later, before, worst⟩, upper⟩ := isGreatest_worstDrop priced sampled
  constructor
  · obtain ⟨first, rest, rfl⟩ := List.exists_cons_of_ne_nil sampled
    refine upper ⟨first, first, atOrBefore_cons.mpr (.inl ⟨rfl, List.mem_cons_self⟩), ?_⟩
    rw [drop, div_self (priced first List.mem_cons_self).ne', sub_self]
  · have left := div_pos (priced later before.mem.2) (priced earlier before.mem.1)
    rw [worst, drop]
    linarith

theorem quantizeInt_mono {value value' : ℚ} (rises : value ≤ value') :
    quantizeInt (value * 10000) ≤ quantizeInt (value' * 10000) :=
  roundHalfEven_mono (mul_le_mul_of_nonneg_right rises (by norm_num))

/-- **The drawdown is its definition.** One pass over a series of positive prices gives the
greatest drop, in bps, from a price to one at or after it, rounded once. It lies between 0 and
10000, does not see the unit of the prices, and only grows when the series is extended at
either end, or samples are put back. -/
theorem maxDrawdownBps_spec (series : List AlphaPriceSnapshot) (sampled : series ≠ []) :
    ∃ (worst : ℚ) (bps : ℤ), maxDrawdownBps series = .ok bps ∧
      IsGreatest {value | ∃ (i j : ℕ) (earlier later : AlphaPriceSnapshot), i ≤ j ∧
        series[i]? = some earlier ∧ series[j]? = some later ∧
        value = 10000 * (1 - later.priceTaoPerAlpha / earlier.priceTaoPerAlpha)} worst ∧
      bps = roundHalfEven worst ∧ 0 ≤ bps ∧ bps ≤ 10000 ∧
      (∀ factor : ℚ, 0 < factor → ∀ scaled : List AlphaPriceSnapshot,
        scaled.map (·.priceTaoPerAlpha) = series.map (factor * ·.priceTaoPerAlpha) →
        maxDrawdownBps scaled = .ok bps) ∧
      (∀ before after : List AlphaPriceSnapshot, ∃ more : ℤ,
        maxDrawdownBps (before ++ series ++ after) = .ok more ∧ bps ≤ more) ∧
      ∀ fewer : List AlphaPriceSnapshot, fewer.Sublist series → fewer ≠ [] → ∃ less : ℤ,
        maxDrawdownBps fewer = .ok less ∧ less ≤ bps := by
  have nonempty (some : List AlphaPriceSnapshot) (sampled : some ≠ []) : pricesOf some ≠ [] :=
    fun none => sampled (List.map_eq_nil_iff.mp none)
  -- fewer samples have fewer drops to choose from, and rounding is monotone
  have shrinks (fewer more : List AlphaPriceSnapshot) (part : fewer.Sublist more)
      (sampled : fewer ≠ []) :
      quantizeInt (worstDrop (pricesOf fewer) * 10000) ≤
        quantizeInt (worstDrop (pricesOf more) * 10000) :=
    quantizeInt_mono (worstDrop_le_of_sublist (fun _ => pos_of_mem_pricesOf)
      (part.map _) (nonempty fewer sampled))
  obtain ⟨low, high⟩ := worstDrop_mem (fun _ => pos_of_mem_pricesOf) (nonempty series sampled)
  refine ⟨worstDrop (pricesOf series) * 10000, _, maxDrawdownBps_eq sampled, ?_, rfl, ?_, ?_,
    ?_, ?_, ?_⟩
  · obtain ⟨⟨_, _, ⟨i, j, before, one, other⟩, worst⟩, upper⟩ :=
      isGreatest_worstDrop (fun _ => pos_of_mem_pricesOf) (nonempty series sampled)
    rw [pricesOf, List.getElem?_map, Option.map_eq_some_iff] at one other
    obtain ⟨earlier, one, rfl⟩ := one
    obtain ⟨later, other, rfl⟩ := other
    refine ⟨⟨i, j, earlier, later, before, one, other, ?_⟩, ?_⟩
    · rw [worst, drop, mul_comm]
    · rintro value ⟨i, j, earlier, later, before, one, other, rfl⟩
      have bound := upper ⟨earlier.priceTaoPerAlpha, later.priceTaoPerAlpha,
        ⟨i, j, before, by rw [pricesOf, List.getElem?_map, one, Option.map_some],
          by rw [pricesOf, List.getElem?_map, other, Option.map_some]⟩, rfl⟩
      rw [drop] at bound
      linarith
  · have := quantizeInt_mono low
    rwa [zero_mul, quantizeInt, ← Int.cast_zero, roundHalfEven_intCast] at this
  · have bound := quantizeInt_mono high
    have whole : quantizeInt (1 * 10000) = 10000 := by
      rw [one_mul]
      exact roundHalfEven_intCast 10000
    rwa [whole] at bound
  · intro factor positive scaled same
    -- a factor on every price cancels in every drop
    have scaled_eq : pricesOf scaled = (pricesOf series).map (factor * ·) := by
      rw [pricesOf, same, pricesOf, List.map_map]
      rfl
    have some : scaled ≠ [] := by
      rintro rfl
      exact sampled (List.map_eq_nil_iff.mp same.symm)
    rw [maxDrawdownBps_eq some, scaled_eq, worstDrop_scale positive]
  · intro before after
    have part : series.Sublist (before ++ series ++ after) :=
      (List.sublist_append_right before series).trans (List.sublist_append_left _ after)
    have some : before ++ series ++ after ≠ [] :=
      fun none => sampled (List.sublist_nil.mp (none ▸ part))
    exact ⟨_, maxDrawdownBps_eq some, shrinks _ _ part sampled⟩
  · intro fewer part some
    exact ⟨_, maxDrawdownBps_eq some, shrinks _ _ part some⟩

/-- A snapshot at a positive price. -/
def pricedAt (block : ℕ) (price : ℚ) (priced : 0 < price) : AlphaPriceSnapshot :=
  ⟨44, block, price, 1000, priced, by decide⟩

/-- Prices 1, 0.8, 1.2 and 0.9. -/
def fourPrices : List AlphaPriceSnapshot :=
  [pricedAt 10 1 (by norm_num), pricedAt 20 (4 / 5) (by norm_num),
    pricedAt 30 (6 / 5) (by norm_num), pricedAt 40 (9 / 10) (by norm_num)]

/-- The worst drop is the quarter from 1.2 to 0.9, and no samples fewer have a worse one. -/
theorem maxDrawdownBps_spec_fourPrices : maxDrawdownBps fourPrices = .ok 2500 ∧
    ∀ fewer : List AlphaPriceSnapshot, fewer.Sublist fourPrices → fewer ≠ [] → ∃ less : ℤ,
      maxDrawdownBps fewer = .ok less ∧ less ≤ 2500 := by
  have quarter : maxDrawdownBps fourPrices = .ok 2500 := by decide +kernel
  obtain ⟨worst, bps, found, -, -, -, -, -, -, fewer⟩ :=
    maxDrawdownBps_spec fourPrices (by simp [fourPrices])
  cases found.symm.trans quarter
  exact ⟨quarter, fewer⟩

end Endure.Scoring
