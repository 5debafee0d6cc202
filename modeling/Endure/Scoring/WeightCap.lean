import Endure.Library.Clipping
import Endure.Library.RunningPeak
import Endure.Scoring.WeightProcessing

/-!
# What the weight cap does

`normalize_max_weight` of `endure/scoring/weight_processing.py` finds its cutoff from running
sums over the sorted shares. For positive weights under a feasible limit the outcome is the
weights clipped at one level and divided by what is left.
-/

namespace Endure.Scoring

open Library.Clipping Library.RunningPeak

/-! ### The running sums -/

section sorted

variable {shares : List ℚ}

/-- The test of the source: a share counts as below the cap. -/
def countsBelow (shares : List ℚ) (limit share : ℚ) : Bool :=
  share / (clipped shares share + epsilon) < limit

end sorted

/-! ### The cutoff -/

theorem epsilon_pos : 0 < epsilon := by norm_num [epsilon]

section cutoff

variable {shares : List ℚ} {limit : ℚ}

/-- What the counted shares leave for each of the others, before the slack. -/
def cutoffShare (shares : List ℚ) (limit : ℚ) : ℚ :=
  (limit * (shares.filter (countsBelow shares limit)).sum - epsilon) /
    (1 - limit * (shares.length - shares.countP (countsBelow shares limit)))

end cutoff

/-! ### Capping -/

section capping

variable {weights : List ℚ} {limit : ℚ}

/-- The shares of the total in ascending order. -/
def sortedShares (weights : List ℚ) : List ℚ :=
  (weights.insertionSort (· ≤ ·)).map (· / weights.sum)

/-- The weights cut to the cutoff. -/
def cappedWeights (weights : List ℚ) (limit : ℚ) : List ℚ :=
  weights.map fun weight => min weight (cutoffShare (sortedShares weights) limit * weights.sum)

/-- Weights within the limit are only normalized. -/
example : normalizeMaxWeight [1, 2, 3, 4] (1 / 2) = [1 / 10, 1 / 5, 3 / 10, 2 / 5] := by
  decide +kernel

/-- A share in the slack: one of four weights holds nearly everything, and three come out above the
limit of three tenths. -/
example : normalizeMaxWeight [1, 32, 32, 99999935] (3 / 10) =
    [7 / 292, 95 / 292, 95 / 292, 95 / 292] := by
  decide +kernel

end capping

end Endure.Scoring
