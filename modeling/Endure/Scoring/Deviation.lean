import Mathlib

/-!
# Deviation scores

The asymmetric bounded-linear score of `endure/scoring/assessment_orchestrator.py`
and the parameters it reads. Decimal arithmetic is exact.
-/

namespace Endure.Scoring

/-- Which side of the target is the dangerous one. -/
inductive AggressiveDirection
  | higher
  | lower
  deriving DecidableEq

/-- How a deviation is measured before the bands apply. -/
inductive DeviationMode
  | absolute
  | relative
  deriving DecidableEq

/-- The scoring parameters of an output, within the bounds every schema checks. -/
structure AssessmentScoringSpec where
  graceBand : ℤ
  cutoff : ℤ
  aggressiveDirection : AggressiveDirection
  lenientMultiplier : ℚ
  deviationMode : DeviationMode
  scoredLive : Bool
  graceBand_nonneg : 0 ≤ graceBand
  graceBand_lt_cutoff : graceBand < cutoff
  one_le_lenientMultiplier : 1 ≤ lenientMultiplier

/-- The score of a deviation's magnitude under a cutoff. -/
def boundedLinear (graceBand effectiveCutoff magnitude : ℚ) : ℚ :=
  if magnitude ≤ graceBand then 1
  else if effectiveCutoff ≤ magnitude then 0
  else 1 - (magnitude - graceBand) / (effectiveCutoff - graceBand)

/-- Asymmetric bounded-linear score in `[0, 1]`. -/
def deviationScore (submitted target : ℤ) (spec : AssessmentScoringSpec) : ℚ :=
  let deviation := submitted - target
  if spec.deviationMode = .relative ∧ target = 0 then
    if deviation = 0 then 1 else 0
  else
    let magnitude : ℚ := match spec.deviationMode with
      | .relative => |(deviation : ℚ)| / |(target : ℚ)| * 10000
      | .absolute => |(deviation : ℚ)|
    let onAggressiveSide := match spec.aggressiveDirection with
      | .higher => decide (0 < deviation)
      | .lower => decide (deviation < 0)
    let effectiveCutoff : ℚ :=
      if onAggressiveSide then spec.cutoff else spec.cutoff * spec.lenientMultiplier
    boundedLinear spec.graceBand effectiveCutoff magnitude

theorem boundedLinear_mem {graceBand effectiveCutoff magnitude : ℚ}
    (wide : graceBand < effectiveCutoff) :
    boundedLinear graceBand effectiveCutoff magnitude ∈ Set.Icc (0 : ℚ) 1 := by
  rw [boundedLinear]
  split_ifs with within beyond
  · exact ⟨zero_le_one, le_refl 1⟩
  · exact ⟨le_refl 0, zero_le_one⟩
  · have width : 0 < effectiveCutoff - graceBand := sub_pos.mpr wide
    rw [not_le] at within beyond
    have small : (magnitude - graceBand) / (effectiveCutoff - graceBand) ≤ 1 :=
      (div_le_one width).mpr (by linarith)
    have nonneg : 0 ≤ (magnitude - graceBand) / (effectiveCutoff - graceBand) :=
      div_nonneg (by linarith) width.le
    exact ⟨by linarith, by linarith⟩

/-- Every deviation scores between zero and one. -/
theorem deviationScore_mem (submitted target : ℤ) (spec : AssessmentScoringSpec) :
    deviationScore submitted target spec ∈ Set.Icc (0 : ℚ) 1 := by
  have grace : (0 : ℚ) ≤ spec.graceBand := Int.cast_nonneg spec.graceBand_nonneg
  have narrow : (spec.graceBand : ℚ) < spec.cutoff := Int.cast_lt.mpr spec.graceBand_lt_cutoff
  have lenient : (spec.cutoff : ℚ) ≤ spec.cutoff * spec.lenientMultiplier :=
    le_mul_of_one_le_right (by linarith) spec.one_le_lenientMultiplier
  simp only [deviationScore]
  split_ifs
  · exact ⟨zero_le_one, le_refl 1⟩
  · exact ⟨le_refl 0, zero_le_one⟩
  · exact boundedLinear_mem narrow
  · exact boundedLinear_mem (narrow.trans_le lenient)

/-- Why a scoring pass raises. -/
inductive ScoringError
  | notScoredLive
  | unknownOutput
  | missingUniverse
  | malformedUniverse
  | resolver
  | emptyActiveSet
  deriving DecidableEq

/-- Score one output; only live outputs may be scored. -/
def scoreOutput (submitted target : ℤ) (spec : AssessmentScoringSpec) : Except ScoringError ℚ :=
  if spec.scoredLive then .ok (deviationScore submitted target spec) else .error .notScoredLive

end Endure.Scoring
