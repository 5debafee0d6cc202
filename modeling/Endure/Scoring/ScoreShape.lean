import Endure.Library.Checked
import Endure.Scoring.Deviation
import Endure.Scoring.Weights

/-!
# The shape of the scores

The parameters that `endure/assessment/schemas/wire.py` admits, and what they make of the
deviation score: a curve that falls on either side of the target, faster on the aggressive
one. The averages of `endure/scoring/weights.py` keep within the scores and rise with each of
them.
-/

namespace Endure.Scoring

open Library.Checked

/-- The values of a specification that are checked. -/
structure ParameterBounds where
  scoringWeightPositive : Bool
  graceBand : ℤ
  cutoff : ℤ
  lenientMultiplierAtLeastOne : Bool
  confidenceFloorBps : ℤ
  maxConfidenceBps : ℤ
  minValue : ℤ
  maxValue : Option ℤ

/-- Validate shared scoring-spec invariants for assessment schemas. -/
def validateParameterBounds (bounds : ParameterBounds) : Except String Unit := do
  ensure (bounds.scoringWeightPositive = true) "scoring_weight must be positive"
  ensure (0 ≤ bounds.graceBand) "grace_band must be non-negative"
  ensure (bounds.graceBand < bounds.cutoff) "cutoff must be greater than grace_band"
  ensure (bounds.lenientMultiplierAtLeastOne = true) "lenient_multiplier must be >= 1"
  ensure (0 ≤ bounds.confidenceFloorBps ∧ bounds.confidenceFloorBps ≤ bounds.maxConfidenceBps)
    ("confidence_floor_bps must be inside [0, " ++ toString bounds.maxConfidenceBps ++ "]")
  ensure (0 ≤ bounds.minValue) "min_value must be non-negative"
  ensure (∀ maxValue ∈ bounds.maxValue, bounds.minValue ≤ maxValue)
    "max_value must be >= min_value"

/-- The parameters of an output, before they are checked. -/
structure BaseParameterSpec where
  scoringWeight : ℚ
  graceBand : ℤ
  cutoff : ℤ
  aggressiveDirection : AggressiveDirection
  lenientMultiplier : ℚ
  deviationMode : DeviationMode
  confidenceFloorBps : ℤ
  scoredLive : Bool
  minValue : ℤ
  maxValue : Option ℤ

namespace BaseParameterSpec

variable (parameters : BaseParameterSpec)

def bounds : ParameterBounds where
  scoringWeightPositive := 0 < parameters.scoringWeight
  graceBand := parameters.graceBand
  cutoff := parameters.cutoff
  lenientMultiplierAtLeastOne := 1 ≤ parameters.lenientMultiplier
  confidenceFloorBps := parameters.confidenceFloorBps
  maxConfidenceBps := 10000
  minValue := parameters.minValue
  maxValue := parameters.maxValue

variable {parameters}

/-- Parameters that pass leave a grace band inside the cutoff and a multiplier of at least
one. -/
theorem of_validate (valid : validateParameterBounds parameters.bounds = .ok ()) :
    0 ≤ parameters.graceBand ∧ parameters.graceBand < parameters.cutoff ∧
      1 ≤ parameters.lenientMultiplier := by
  simp only [validateParameterBounds, bind_eq_ok, ensure_eq_ok, exists_const] at valid
  obtain ⟨-, nonneg, narrow, lenient, -⟩ := valid
  exact ⟨nonneg, narrow, of_decide_eq_true lenient⟩

/-- The specification that is scored by. -/
def scoringSpec (valid : validateParameterBounds parameters.bounds = .ok ()) :
    AssessmentScoringSpec where
  graceBand := parameters.graceBand
  cutoff := parameters.cutoff
  aggressiveDirection := parameters.aggressiveDirection
  lenientMultiplier := parameters.lenientMultiplier
  deviationMode := parameters.deviationMode
  scoredLive := parameters.scoredLive
  graceBand_nonneg := (of_validate valid).1
  graceBand_lt_cutoff := (of_validate valid).2.1
  one_le_lenientMultiplier := (of_validate valid).2.2

end BaseParameterSpec

/-! ## The curve of magnitudes -/

section BoundedLinear

variable {graceBand cutoff cutoff' magnitude magnitude' : ℚ}

theorem boundedLinear_of_le (within : magnitude ≤ graceBand) :
    boundedLinear graceBand cutoff magnitude = 1 := by
  rw [boundedLinear, if_pos within]

theorem boundedLinear_of_between (outside : graceBand < magnitude) (inside : magnitude < cutoff) :
    boundedLinear graceBand cutoff magnitude =
      (cutoff - magnitude) / (cutoff - graceBand) := by
  rw [boundedLinear, if_neg (not_le.mpr outside), if_neg (not_le.mpr inside)]
  have width : cutoff - graceBand ≠ 0 := by linarith
  field_simp
  ring

theorem boundedLinear_of_cutoff_le (wide : graceBand < cutoff) (beyond : cutoff ≤ magnitude) :
    boundedLinear graceBand cutoff magnitude = 0 := by
  rw [boundedLinear, if_neg (not_le.mpr (wide.trans_le beyond)), if_pos beyond]

/-- Strictly inside the cutoff the score is positive. -/
theorem boundedLinear_pos (inside : magnitude < cutoff) :
    0 < boundedLinear graceBand cutoff magnitude := by
  rcases le_or_gt magnitude graceBand with within | outside
  · rw [boundedLinear_of_le within]
    exact one_pos
  · rw [boundedLinear_of_between outside inside]
    apply div_pos <;> linarith

/-- A larger magnitude scores no more. -/
theorem boundedLinear_antitone (wide : graceBand < cutoff) :
    Antitone (boundedLinear graceBand cutoff) := by
  intro near far further
  rcases le_or_gt near graceBand with within | outside
  · rw [boundedLinear_of_le within]
    exact (boundedLinear_mem wide).2
  · rcases le_or_gt cutoff far with beyond | inside
    · rw [boundedLinear_of_cutoff_le wide beyond]
      exact (boundedLinear_mem wide).1
    · rw [boundedLinear_of_between (outside.trans_le further) inside,
        boundedLinear_of_between outside (further.trans_lt inside)]
      apply div_le_div_of_nonneg_right <;> linarith

/-- A wider cutoff scores no less. -/
theorem boundedLinear_mono_cutoff (wide : graceBand < cutoff) (wider : cutoff ≤ cutoff') :
    boundedLinear graceBand cutoff magnitude ≤ boundedLinear graceBand cutoff' magnitude := by
  rcases le_or_gt magnitude graceBand with within | outside
  · rw [boundedLinear_of_le within, boundedLinear_of_le within]
  · rcases le_or_gt cutoff magnitude with beyond | inside
    · rw [boundedLinear_of_cutoff_le wide beyond]
      exact (boundedLinear_mem (wide.trans_le wider)).1
    · -- Both ramps run from the grace band, the wider one less steeply.
      rw [boundedLinear_of_between outside inside,
        boundedLinear_of_between outside (inside.trans_le wider),
        div_le_div_iff₀ (by linarith) (by linarith)]
      nlinarith

end BoundedLinear

namespace AssessmentScoringSpec

variable (spec : AssessmentScoringSpec)

/-- Whether deviations from a target are measured: relative to zero they are not. -/
def Measures (target : ℤ) : Prop := ¬(spec.deviationMode = .relative ∧ target = 0)

/-- The magnitude of a submission's deviation from a target. -/
def magnitude (submitted target : ℤ) : ℚ :=
  match spec.deviationMode with
  | .relative => |((submitted - target : ℤ) : ℚ)| / |(target : ℚ)| * 10000
  | .absolute => |((submitted - target : ℤ) : ℚ)|

/-- Whether a submission lies on the aggressive side of a target. -/
def onAggressiveSide (submitted target : ℤ) : Bool :=
  match spec.aggressiveDirection with
  | .higher => 0 < submitted - target
  | .lower => submitted - target < 0

/-- The cutoff on a submission's side of a target. -/
def effectiveCutoff (submitted target : ℤ) : ℚ :=
  if spec.onAggressiveSide submitted target then spec.cutoff
  else spec.cutoff * spec.lenientMultiplier

/-- The submission at a distance from a target on its aggressive side. -/
def aggressively (target distance : ℤ) : ℤ :=
  match spec.aggressiveDirection with
  | .higher => target + distance
  | .lower => target - distance

/-- The submission at a distance from a target on its other side. -/
def leniently (target distance : ℤ) : ℤ :=
  match spec.aggressiveDirection with
  | .higher => target - distance
  | .lower => target + distance

variable {spec} {target : ℤ}

theorem cutoffs (spec : AssessmentScoringSpec) : (spec.graceBand : ℚ) < spec.cutoff ∧
    (spec.cutoff : ℚ) ≤ spec.cutoff * spec.lenientMultiplier := by
  have grace : (0 : ℚ) ≤ spec.graceBand := Int.cast_nonneg spec.graceBand_nonneg
  have narrow : (spec.graceBand : ℚ) < spec.cutoff := Int.cast_lt.mpr spec.graceBand_lt_cutoff
  exact ⟨narrow, le_mul_of_one_le_right (by linarith) spec.one_le_lenientMultiplier⟩

/-- On either side the grace band ends before the cutoff. -/
theorem graceBand_lt_effectiveCutoff (submitted target : ℤ) :
    (spec.graceBand : ℚ) < spec.effectiveCutoff submitted target := by
  obtain ⟨narrow, lenient⟩ := spec.cutoffs
  rw [effectiveCutoff]
  split
  · exact narrow
  · exact narrow.trans_le lenient

/-- A measured deviation is scored by its magnitude under its side's cutoff. -/
theorem deviationScore_of_measures (measured : spec.Measures target) (submitted : ℤ) :
    deviationScore submitted target spec =
      boundedLinear spec.graceBand (spec.effectiveCutoff submitted target)
        (spec.magnitude submitted target) := by
  rw [deviationScore]
  simp only
  rw [if_neg measured]
  rfl

theorem deviationScore_of_not_measures (unmeasured : ¬spec.Measures target) (submitted : ℤ) :
    deviationScore submitted target spec = if submitted = target then 1 else 0 := by
  rw [deviationScore]
  simp only
  rw [if_pos (not_not.mp unmeasured)]
  exact if_congr sub_eq_zero rfl rfl

/-- Deviations of no smaller size have no smaller magnitude. -/
theorem magnitude_mono {near far : ℤ} (further : |near - target| ≤ |far - target|) :
    spec.magnitude near target ≤ spec.magnitude far target := by
  have size : |((near - target : ℤ) : ℚ)| ≤ |((far - target : ℤ) : ℚ)| := by
    exact_mod_cast further
  rw [magnitude, magnitude]
  cases spec.deviationMode with
  | absolute => exact size
  | relative =>
    simp only
    gcongr

@[simp] theorem magnitude_self : spec.magnitude target target = 0 := by
  rw [magnitude]
  cases spec.deviationMode with
  | absolute => simp
  | relative => simp

/-- The target itself scores one. -/
theorem deviationScore_self : deviationScore target target spec = 1 := by
  by_cases measured : spec.Measures target
  · rw [deviationScore_of_measures measured, magnitude_self]
    exact boundedLinear_of_le (Int.cast_nonneg spec.graceBand_nonneg)
  · rw [deviationScore_of_not_measures measured, if_pos rfl]

/-- Further from the target on one side the score is no higher. -/
theorem deviationScore_le_of_further {near far : ℤ}
    (side : target ≤ near ∧ near ≤ far ∨ far ≤ near ∧ near ≤ target) :
    deviationScore far target spec ≤ deviationScore near target spec := by
  rcases eq_or_ne near target with rfl | apart
  · rw [deviationScore_self]
    exact (deviationScore_mem far near spec).2
  · by_cases measured : spec.Measures target
    · have same : spec.effectiveCutoff far target = spec.effectiveCutoff near target := by
        have sides : spec.onAggressiveSide far target = spec.onAggressiveSide near target := by
          rw [onAggressiveSide, onAggressiveSide]
          cases spec.aggressiveDirection with
          | higher =>
            refine decide_eq_decide.mpr ?_
            omega
          | lower =>
            refine decide_eq_decide.mpr ?_
            omega
        rw [effectiveCutoff, effectiveCutoff, sides]
      have further : |near - target| ≤ |far - target| := by
        rcases side with ⟨above, beyond⟩ | ⟨beyond, below⟩
        · rw [abs_of_nonneg (by omega), abs_of_nonneg (by omega)]
          omega
        · rw [abs_of_nonpos (by omega), abs_of_nonpos (by omega)]
          omega
      rw [deviationScore_of_measures measured, deviationScore_of_measures measured, same]
      exact boundedLinear_antitone (graceBand_lt_effectiveCutoff near target)
        (magnitude_mono further)
    · rw [deviationScore_of_not_measures measured, if_neg (by omega)]
      exact (deviationScore_mem near target spec).1

section Sides

variable {distance : ℤ}

theorem onAggressiveSide_aggressively (positive : 0 < distance) :
    spec.onAggressiveSide (spec.aggressively target distance) target = true := by
  rw [onAggressiveSide, aggressively]
  cases spec.aggressiveDirection with
  | higher => simpa using positive
  | lower => simpa using positive

theorem onAggressiveSide_leniently (positive : 0 < distance) :
    spec.onAggressiveSide (spec.leniently target distance) target = false := by
  rw [onAggressiveSide, leniently]
  cases spec.aggressiveDirection with
  | higher => simpa using positive.le
  | lower => simpa using positive.le

theorem abs_aggressively_sub : |spec.aggressively target distance - target| = |distance| := by
  rw [aggressively]
  cases spec.aggressiveDirection with
  | higher => simp
  | lower => simp

theorem abs_leniently_sub : |spec.leniently target distance - target| = |distance| := by
  rw [leniently]
  cases spec.aggressiveDirection with
  | higher => simp
  | lower => simp

/-- At one distance the aggressive side scores no more than the other. -/
theorem deviationScore_aggressively_le (positive : 0 < distance) :
    deviationScore (spec.aggressively target distance) target spec ≤
      deviationScore (spec.leniently target distance) target spec := by
  have sizes : |spec.aggressively target distance - target| =
      |spec.leniently target distance - target| := by
    rw [abs_aggressively_sub, abs_leniently_sub]
  by_cases measured : spec.Measures target
  · have same : spec.magnitude (spec.aggressively target distance) target =
        spec.magnitude (spec.leniently target distance) target :=
      le_antisymm (magnitude_mono sizes.le) (magnitude_mono sizes.ge)
    rw [deviationScore_of_measures measured, deviationScore_of_measures measured, same,
      effectiveCutoff, effectiveCutoff, onAggressiveSide_aggressively positive,
      onAggressiveSide_leniently positive]
    exact boundedLinear_mono_cutoff spec.cutoffs.1 spec.cutoffs.2
  · have apart : spec.aggressively target distance ≠ target := by
      intro same
      have size := @abs_aggressively_sub spec target distance
      rw [same, sub_self, abs_zero] at size
      exact positive.ne (abs_eq_zero.mp size.symm).symm
    rw [deviationScore_of_not_measures measured, if_neg apart]
    exact (deviationScore_mem _ target spec).1

end Sides

end AssessmentScoringSpec

/-! ## Averages of scores -/

/-- The average after some observations, from the zero prior. -/
def emaOf (alpha : ℚ) (observations : List ℚ) : Option ℚ :=
  observations.foldl (fun previous observation => some (emaUpdate alpha previous observation)) none

section Ema

variable {alpha : ℚ}

/-- An average of two amounts within the scores is within the scores. -/
theorem emaUpdate_mem {previous : Option ℚ} {observation : ℚ}
    (factor : alpha ∈ Set.Icc (0 : ℚ) 1) (prior : previous.getD 0 ∈ Set.Icc (0 : ℚ) 1)
    (observed : observation ∈ Set.Icc (0 : ℚ) 1) :
    emaUpdate alpha previous observation ∈ Set.Icc (0 : ℚ) 1 :=
  convex_Icc (0 : ℚ) 1 observed prior factor.1 (sub_nonneg.mpr factor.2)
    (add_sub_cancel alpha 1)

theorem emaUpdate_mono {previous previous' : Option ℚ} {observation observation' : ℚ}
    (factor : alpha ∈ Set.Icc (0 : ℚ) 1) (prior : previous.getD 0 ≤ previous'.getD 0)
    (rises : observation ≤ observation') :
    emaUpdate alpha previous observation ≤ emaUpdate alpha previous' observation' := by
  have rest := sub_nonneg.mpr factor.2
  have weight := factor.1
  rw [emaUpdate, emaUpdate]
  gcongr

theorem emaOf_mem (factor : alpha ∈ Set.Icc (0 : ℚ) 1) {observations : List ℚ}
    (observed : ∀ observation ∈ observations, observation ∈ Set.Icc (0 : ℚ) 1) :
    (emaOf alpha observations).getD 0 ∈ Set.Icc (0 : ℚ) 1 := by
  induction observations using List.reverseRecOn with
  | nil => exact ⟨le_rfl, zero_le_one⟩
  | append_singleton earlier last ih =>
    rw [emaOf, List.foldl_append]
    exact emaUpdate_mem factor
      (ih fun observation member => observed observation (List.mem_append_left _ member))
      (observed last (by simp))

theorem emaOf_mono (factor : alpha ∈ Set.Icc (0 : ℚ) 1) {observations observations' : List ℚ}
    (rises : List.Forall₂ (· ≤ ·) observations observations') :
    (emaOf alpha observations).getD 0 ≤ (emaOf alpha observations').getD 0 := by
  have from_any : ∀ previous previous' : Option ℚ, previous.getD 0 ≤ previous'.getD 0 →
      (observations.foldl (fun previous observation =>
        some (emaUpdate alpha previous observation)) previous).getD 0 ≤
      (observations'.foldl (fun previous observation =>
        some (emaUpdate alpha previous observation)) previous').getD 0 := by
    induction rises with
    | nil => exact fun _ _ prior => prior
    | cons rise _ ih => exact fun _ _ prior => ih _ _ (emaUpdate_mono factor prior rise)
  exact from_any none none le_rfl

end Ema

/-- **The deviation score is a sound score.** Under parameters that pass their checks it lies
between zero and one, is one at the target and within the grace band, falls away from the
target on either side, is positive inside its side's cutoff, and is no higher on the
aggressive side than at the same distance on the other; relative to a target of zero only the
exact value scores. An average of scores stays between zero and one and rises with each of
them. -/
theorem deviationScore_sound (parameters : BaseParameterSpec)
    (valid : validateParameterBounds parameters.bounds = .ok ()) (target : ℤ) :
    let spec := parameters.scoringSpec valid
    (∀ submitted, deviationScore submitted target spec ∈ Set.Icc (0 : ℚ) 1) ∧
    deviationScore target target spec = 1 ∧
    (∀ submitted, spec.Measures target → spec.magnitude submitted target ≤ spec.graceBand →
      deviationScore submitted target spec = 1) ∧
    (∀ near far, target ≤ near ∧ near ≤ far ∨ far ≤ near ∧ near ≤ target →
      deviationScore far target spec ≤ deviationScore near target spec) ∧
    (∀ submitted, spec.Measures target →
      spec.magnitude submitted target < spec.effectiveCutoff submitted target →
      0 < deviationScore submitted target spec) ∧
    (∀ distance, 0 < distance →
      deviationScore (spec.aggressively target distance) target spec ≤
        deviationScore (spec.leniently target distance) target spec) ∧
    (spec.deviationMode = .relative → target = 0 → ∀ submitted,
      deviationScore submitted target spec = if submitted = target then 1 else 0) ∧
    ∀ alpha ∈ Set.Icc (0 : ℚ) 1, ∀ scores : List ℚ, (∀ score ∈ scores, score ∈ Set.Icc (0 : ℚ) 1) →
      (emaOf alpha scores).getD 0 ∈ Set.Icc (0 : ℚ) 1 ∧
      ∀ higher : List ℚ, List.Forall₂ (· ≤ ·) scores higher →
        (emaOf alpha scores).getD 0 ≤ (emaOf alpha higher).getD 0 := by
  intro spec
  refine ⟨fun submitted => deviationScore_mem submitted target spec,
    AssessmentScoringSpec.deviationScore_self, fun submitted measured within => ?_,
    fun near far side => AssessmentScoringSpec.deviationScore_le_of_further side,
    fun submitted measured inside => ?_,
    fun distance positive => AssessmentScoringSpec.deviationScore_aggressively_le positive,
    fun relative zero submitted => ?_,
    fun alpha factor scores observed =>
      ⟨emaOf_mem factor observed, fun higher rises => emaOf_mono factor rises⟩⟩
  · rw [AssessmentScoringSpec.deviationScore_of_measures measured, boundedLinear_of_le within]
  · rw [AssessmentScoringSpec.deviationScore_of_measures measured]
    exact boundedLinear_pos inside
  -- relative to a target of zero no deviation is measured
  · exact AssessmentScoringSpec.deviationScore_of_not_measures
      (fun measured => measured ⟨relative, zero⟩) submitted

/-- Parameters with a grace band of 5 and a cutoff of 20, twice as far on the lenient side. -/
def narrowHigher : BaseParameterSpec where
  scoringWeight := 1
  graceBand := 5
  cutoff := 20
  aggressiveDirection := .higher
  lenientMultiplier := 2
  deviationMode := .absolute
  confidenceFloorBps := 0
  scoredLive := true
  minValue := 0
  maxValue := none

theorem validate_narrowHigher : validateParameterBounds narrowHigher.bounds = .ok () := by
  decide +kernel

/-- At distance 15 the aggressive side scores a third, and the other side no less. -/
theorem deviationScore_sound_narrowHigher :
    deviationScore 115 100 (narrowHigher.scoringSpec validate_narrowHigher) = 1 / 3 ∧
      deviationScore 115 100 (narrowHigher.scoringSpec validate_narrowHigher) ≤
        deviationScore 85 100 (narrowHigher.scoringSpec validate_narrowHigher) :=
  ⟨by decide +kernel,
    (deviationScore_sound narrowHigher validate_narrowHigher 100).2.2.2.2.2.1 15 (by decide)⟩

end Endure.Scoring
