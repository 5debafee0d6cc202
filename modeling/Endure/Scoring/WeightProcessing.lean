import Endure.Library.Rounding

/-!
# Scores under chain limits, encoded as u16

The model of `endure/scoring/weight_processing.py`, with exact rationals in place
of 28-digit decimals. A candidate is normalized, cut to the chain's limits and
scaled so that its largest entry is the largest u16; each group of UIDs rounds as
one entry.
-/

namespace Endure.Scoring

open Library.Rounding

/-- The largest u16. -/
def u16Max : ℤ := 65535

/-- The smallest weight that pads a vector below the chain's minimum length. -/
def minNonZeroWeight : ℚ := 1 / 100000

/-- The slack of the cap computation. -/
def epsilon : ℚ := 1 / 10000000

/-- What `weight_processing` raises `ValueError` for. -/
inductive WeightError
  | lengthMismatch (uids weights : ℕ)
  | negativeWeight (weights : List ℚ)
  | uidOutsideMetagraph (size : ℕ) (uids : List ℕ)
  | repeatedUids (uids : List ℕ)
  | groupedTwice
  | emptyQuantile
  deriving DecidableEq

/-- Clamp negative scores before normalization; all nonpositive means abstain. -/
def normalizeScores (scores : List ℚ) : List ℚ :=
  let clamped := scores.map fun score => if 0 < score then score else 0
  let norm := clamped.sum
  if norm ≤ 0 then List.replicate scores.length 0 else clamped.map (· / norm)

/-- Normalized raw weights, or none to abstain when no score is positive. -/
def emissionCandidate (scores : List ℚ) : Option (List ℚ) :=
  let rawWeights := normalizeScores scores
  if rawWeights.any (0 < ·) then some rawWeights else none

/-- Normalize to a total of one, the last weight taking up what is missing. -/
def normalizeToUnit (weights : List ℚ) : List ℚ :=
  if weights = [] then []
  else
    let total := weights.sum
    let normalized :=
      if total = 0 then List.replicate weights.length (1 / (weights.length : ℚ))
      else weights.map (· / total)
    let correction := 1 - normalized.sum
    normalized.dropLast ++ [normalized.getLastD 0 + correction]

/-- The interpolated quantile of a nonempty list. -/
def decimalQuantile (values : List ℚ) (q : ℚ) : Except WeightError ℚ :=
  let ordered := values.insertionSort (· ≤ ·)
  if ordered.length = 0 then .error .emptyQuantile
  else if ordered.length = 1 then .ok (ordered.getD 0 0)
  else
    let position := q * (ordered.length - 1 : ℕ)
    let lowerIndex := ⌊position⌋.toNat
    let upperIndex := min (lowerIndex + 1) (ordered.length - 1)
    let fraction := position - lowerIndex
    let lower := ordered.getD lowerIndex 0
    let upper := ordered.getD upperIndex 0
    .ok (lower + (upper - lower) * fraction)

/-- The running sums of a list. -/
def cumulativeSum (values : List ℚ) : List ℚ := (values.scanl (· + ·) 0).tail

/-- Normalize and cap weights, or use uniform weights if the cap is infeasible. -/
def normalizeMaxWeight (weights : List ℚ) (limit : ℚ) : List ℚ :=
  if weights = [] then []
  else
    let total := weights.sum
    if total = 0 ∨ weights.length * limit ≤ 1 then
      -- no weight at all, or a limit that nothing can meet: uniform weights
      List.replicate weights.length (1 / (weights.length : ℚ))
    else
      let values := weights.insertionSort (· ≤ ·)
      let valueSum := values.sum
      let estimation := values.map (· / valueSum)
      if estimation.foldr max (estimation.getLastD 0) ≤ limit then normalizeToUnit weights
      else
        let cumsum := cumulativeSum estimation
        let estimationSum := estimation.zipIdx.map fun entry =>
          ((values.length : ℚ) - entry.2 - 1) * entry.1
        -- a share counts while it stays below the limit with every later one cut down to it
        let nValues := (estimation.zip (estimationSum.zip cumsum)).countP fun entry =>
          entry.1 / (entry.2.1 + entry.2.2 + epsilon) < limit
        if nValues = 0 then normalizeToUnit weights
        else
          let denominator := 1 - limit * ((estimation.length : ℚ) - nValues)
          if denominator ≤ 0 then normalizeToUnit weights
          else
            let cutoffScale := (limit * cumsum.getD (nValues - 1) 0 - epsilon) / denominator
            let cutoff := cutoffScale * valueSum
            let cappedWeights := weights.map fun weight => min weight cutoff
            if cappedWeights.sum = 0 then
              List.replicate cappedWeights.length (1 / (cappedWeights.length : ℚ))
            else normalizeToUnit cappedWeights

/-- Apply chain constraints to an explicit UID and weight mapping. Metagraph UIDs
occupy `range metagraphSize`; floor padding expands a sparse mapping to them. -/
def processWeights (uids : List ℕ) (weights : List ℚ) (metagraphSize minAllowedWeights : ℕ)
    (maxWeightLimit : ℚ) (excludeQuantile : ℕ) : Except WeightError (List ℕ × List ℚ) :=
  if uids.length ≠ weights.length then .error (.lengthMismatch uids.length weights.length)
  else if uids.any (metagraphSize ≤ ·) then .error (.uidOutsideMetagraph metagraphSize uids)
  else if metagraphSize = 0 then .ok ([], [])
  else
    let nonZeroPairs := (uids.zip weights).filter fun pair => 0 < pair.2
    if nonZeroPairs.length = 0 ∨ metagraphSize < minAllowedWeights then
      .ok (List.range metagraphSize,
        List.replicate metagraphSize (1 / (metagraphSize : ℚ)))
    else if nonZeroPairs.length < minAllowedWeights then
      -- too few weights: every UID gets a floor, and those weights on top of it
      let padded := nonZeroPairs.foldl
        (fun (acc : List ℚ) pair => acc.set pair.1 (acc.getD pair.1 0 + pair.2))
        (List.replicate metagraphSize minNonZeroWeight)
      .ok (List.range metagraphSize, normalizeMaxWeight padded maxWeightLimit)
    else
      let nonZeroWeights := nonZeroPairs.map Prod.snd
      -- the exclusion never leaves fewer weights than are allowed
      let quantile : ℚ := excludeQuantile / 65535
      let maxExclude := max 0
        (((nonZeroWeights.length : ℚ) - minAllowedWeights) / nonZeroWeights.length)
      match decimalQuantile nonZeroWeights (min quantile maxExclude) with
      | .error raised => .error raised
      | .ok lowestQuantile =>
        let filteredPairs := nonZeroPairs.filter fun pair => lowestQuantile ≤ pair.2
        .ok (filteredPairs.map Prod.fst,
          normalizeMaxWeight (filteredPairs.map Prod.snd) maxWeightLimit)

/-- Protocol constant: no low-weight quantile exclusion before chain limits. -/
def emissionExcludeQuantile : ℕ := 0

/-- Each group's positions in `uids`, in the group's order. UIDs absent from
`uids` are skipped. -/
def groupPositions (uids : List ℕ) (groups : List (List ℕ)) :
    Except WeightError (List (List ℕ)) :=
  if groups = [] then .ok []
  else if ¬ uids.Nodup then .error (.repeatedUids uids)
  else if ¬ groups.flatten.Nodup then .error .groupedTwice
  else .ok (groups.map fun group => (group.filter (· ∈ uids)).map fun uid => uids.idxOf uid)

/-- Scale weights so that the largest one is the largest u16. -/
def scaledWeights (weights : List ℚ) : List ℚ :=
  let maxWeight := weights.foldr max 0
  weights.map fun weight => weight / maxWeight * u16Max

/-- Round one group as one entry: its members round down, and the units their
remainders round half up to go one each to the largest remainders. -/
def roundGroup (scaled : List ℚ) (units : List ℤ) (members : List ℕ) : List ℤ :=
  let floors := fun index => ⌊scaled.getD index 0⌋
  let remainders := fun index => scaled.getD index 0 - floors index
  let spare := roundHalfUp ((members.map remainders).insertionSort (· ≤ ·)).sum
  -- Equal remainders keep the group's order.
  let ranked := members.insertionSort fun i j => remainders j ≤ remainders i
  (shareOut floors ranked spare).foldl (fun acc entry => acc.set entry.1 entry.2) units

/-- Drop the entries that rounded to zero. -/
def emitted (uids : List ℕ) (units : List ℤ) : List ℕ × List ℤ :=
  let kept := (uids.zip units).filter fun entry => entry.2 ≠ 0
  (kept.map Prod.fst, kept.map Prod.snd)

/-- Scale weights to u16, round half up, and omit rounded zeros. Each group rounds
as one entry. -/
def convertWeightsAndUidsForEmit (uids : List ℕ) (weights : List ℚ) (groups : List (List ℕ)) :
    Except WeightError (List ℕ × List ℤ) :=
  if uids.length ≠ weights.length then .error (.lengthMismatch uids.length weights.length)
  else if weights.any (· < 0) then .error (.negativeWeight weights)
  else if weights.sum = 0 then .ok ([], [])
  else
    let scaled := scaledWeights weights
    match groupPositions uids groups with
    | .error raised => .error raised
    | .ok positions =>
      .ok (emitted uids (positions.foldl (roundGroup scaled) (scaled.map roundHalfUp)))

/-- Chain-constrained processed weights and their u16 submission form. -/
structure ChainWeightVector where
  processedUids : List ℕ
  processedWeights : List ℚ
  uintUids : List ℕ
  uintWeights : List ℤ
  deriving DecidableEq

/-- Apply chain limits to an emission candidate, then encode it as u16. -/
def chainWeightVector (rawWeights : List ℚ) (uids : List ℕ)
    (metagraphSize minAllowedWeights : ℕ) (maxWeightLimit : ℚ) (groups : List (List ℕ)) :
    Except WeightError ChainWeightVector :=
  match processWeights uids rawWeights metagraphSize minAllowedWeights maxWeightLimit
      emissionExcludeQuantile with
  | .error raised => .error raised
  | .ok (processedUids, processedWeights) =>
    match convertWeightsAndUidsForEmit processedUids processedWeights groups with
    | .error raised => .error raised
    | .ok (uintUids, uintWeights) =>
      .ok { processedUids, processedWeights, uintUids, uintWeights }

/-! ### Normalization -/

private theorem sum_map_div (weights : List ℚ) (total : ℚ) :
    (weights.map (· / total)).sum = weights.sum / total := by
  induction weights with
  | nil => simp
  | cons weight rest ih => rw [List.map_cons, List.sum_cons, List.sum_cons, ih, add_div]

/-- In exact arithmetic nothing is missing from a normalized list. -/
theorem normalizeToUnit_of_ne {weights : List ℚ} (nonzero : weights.sum ≠ 0) :
    normalizeToUnit weights = weights.map (· / weights.sum) := by
  have filled : weights ≠ [] := fun empty => by
    rw [empty, List.sum_nil] at nonzero
    exact nonzero rfl
  have unit : (weights.map (· / weights.sum)).sum = 1 := by
    rw [sum_map_div, div_self nonzero]
  have some_last : weights.map (· / weights.sum) ≠ [] := by simpa using filled
  rw [normalizeToUnit, if_neg filled]
  simp only [if_neg nonzero]
  rw [unit, sub_self, add_zero, List.getLastD_eq_getLast?, List.getLast?_eq_getLast_of_ne_nil some_last,
    Option.getD_some, List.dropLast_append_getLast]

theorem normalizeToUnit_eq {weights : List ℚ} (positive : 0 < weights.sum) :
    normalizeToUnit weights = weights.map (· / weights.sum) :=
  normalizeToUnit_of_ne positive.ne'

/-- The chain maximum of one leaves a positive list merely normalized. -/
theorem normalizeMaxWeight_one {weights : List ℚ} (filled : weights ≠ [])
    (positive : ∀ weight ∈ weights, 0 < weight) :
    normalizeMaxWeight weights 1 = weights.map (· / weights.sum) := by
  have total : 0 < weights.sum := List.sum_pos _ positive filled
  rw [normalizeMaxWeight, if_neg filled]
  by_cases single : weights.length = 1
  · obtain ⟨weight, rfl⟩ := List.length_eq_one_iff.mp single
    have own : weight ≠ 0 := (positive weight List.mem_cons_self).ne'
    simp [own]
  -- with two weights or more a limit of one can be kept
  · have several : ¬ ((weights.length : ℚ) * 1 ≤ 1) := by
      have more : 1 < weights.length := by
        have := List.length_pos_iff.mpr filled
        omega
      have counted : (1 : ℚ) < weights.length := by exact_mod_cast more
      rw [mul_one, not_le]
      exact counted
    have perm := List.perm_insertionSort (· ≤ ·) weights
    have sameSum : (weights.insertionSort (· ≤ ·)).sum = weights.sum := perm.sum_eq
    -- no share is over one, whatever the fold starts from
    have capped : ((weights.insertionSort (· ≤ ·)).map (· / weights.sum)).foldr max
        (((weights.insertionSort (· ≤ ·)).map (· / weights.sum)).getLastD 0) ≤ 1 := by
      have each : ∀ share ∈ (weights.insertionSort (· ≤ ·)).map (· / weights.sum), share ≤ 1 := by
        intro share member
        obtain ⟨weight, listed, rfl⟩ := List.mem_map.mp member
        rw [div_le_one total]
        exact List.single_le_sum (fun other inside => (positive other inside).le) weight
          (perm.mem_iff.mp listed)
      have lastBelow : ((weights.insertionSort (· ≤ ·)).map (· / weights.sum)).getLastD 0 ≤ 1 := by
        rw [List.getLastD_eq_getLast?]
        cases found : ((weights.insertionSort (· ≤ ·)).map (· / weights.sum)).getLast? with
        | none => simp
        | some share => exact each share (List.mem_of_getLast? found)
      generalize (weights.insertionSort (· ≤ ·)).map (· / weights.sum) = shares at *
      generalize shares.getLastD 0 = start at *
      induction shares with
      | nil => exact lastBelow
      | cons share rest ih =>
        exact max_le (each share List.mem_cons_self)
          (ih fun other inside => each other (List.mem_cons_of_mem _ inside))
    simp only [total.ne', several, or_self, if_false, sameSum]
    rw [if_pos capped, normalizeToUnit_eq total]

/-- The zero quantile is the least value. -/
theorem decimalQuantile_zero {values : List ℚ} (filled : values ≠ []) :
    ∃ least, decimalQuantile values 0 = .ok least ∧ ∀ value ∈ values, least ≤ value := by
  have perm := List.perm_insertionSort (· ≤ ·) values
  have sorted := List.pairwise_insertionSort (r := fun a b : ℚ => a ≤ b) values
  have least : ∀ value ∈ values, (values.insertionSort (· ≤ ·)).getD 0 0 ≤ value := by
    intro value member
    have inside := perm.mem_iff.mpr member
    cases shape : values.insertionSort (· ≤ ·) with
    | nil =>
      rw [shape] at inside
      exact absurd inside List.not_mem_nil
    | cons first rest =>
      rw [shape] at inside sorted
      rw [List.getD_cons_zero]
      cases List.mem_cons.mp inside with
      | inl same => exact same.ge
      | inr later => exact (List.pairwise_cons.mp sorted).1 value later
  refine ⟨_, ?_, least⟩
  have counted : (values.insertionSort (· ≤ ·)).length ≠ 0 := by
    rw [perm.length_eq]
    exact (List.length_pos_iff.mpr filled).ne'
  simp only [decimalQuantile, if_neg counted, zero_mul, Int.floor_zero, Int.toNat_zero,
    Nat.cast_zero, sub_zero, mul_zero, add_zero, ite_self]

/-- A candidate scales the positive scores by one positive factor and keeps no other. -/
theorem emissionCandidate_eq_some {scores raw : List ℚ}
    (candidate : emissionCandidate scores = some raw) :
    ∃ norm : ℚ, 0 < norm ∧ raw.any (0 < ·) ∧
      raw = scores.map fun score => (if 0 < score then score else 0) / norm := by
  simp only [emissionCandidate] at candidate
  split_ifs at candidate with positive
  obtain rfl := Option.some.inj candidate
  refine ⟨(scores.map fun score => if 0 < score then score else 0).sum, ?_, positive, ?_⟩
  · by_contra nothing
    rw [normalizeScores, if_pos (not_lt.mp nothing)] at positive
    simp at positive
  · rw [normalizeScores, if_neg, List.map_map]
    · rfl
    · intro nothing
      rw [normalizeScores, if_pos nothing] at positive
      simp at positive

/-- Nonnegative scores with a positive total are merely normalized. -/
theorem emissionCandidate_of_nonneg {scores : List ℚ} (nonneg : ∀ score ∈ scores, 0 ≤ score)
    (positive : 0 < scores.sum) :
    emissionCandidate scores = some (scores.map (· / scores.sum)) := by
  have clamped : (scores.map fun score => if 0 < score then score else 0) = scores := by
    refine (List.map_congr_left fun score member => ?_).trans (List.map_id' scores)
    split_ifs with above
    · rfl
    · exact le_antisymm (nonneg score member) (not_lt.mp above)
  have normalized : normalizeScores scores = scores.map (· / scores.sum) := by
    rw [normalizeScores, clamped]
    exact if_neg (not_le.mpr positive)
  have found : (scores.map (· / scores.sum)).any (0 < ·) = true := by
    by_contra none
    rw [Bool.not_eq_true, List.any_eq_false] at none
    have unit : (scores.map (· / scores.sum)).sum = 1 := by
      rw [sum_map_div, div_self positive.ne']
    have nothing : ((scores.map (· / scores.sum)).map fun share => share).sum ≤
        ((scores.map (· / scores.sum)).map fun _ => (0 : ℚ)).sum :=
      List.sum_le_sum fun share member => by simpa using none share member
    rw [List.map_id', unit, List.map_const', List.sum_replicate, smul_zero] at nothing
    exact absurd nothing (by norm_num)
  rw [emissionCandidate, normalized, if_pos found]

/-! ### Chain limits of one -/

/-- The UIDs with a positive weight, in order. -/
def positiveUids (weights : List ℚ) : List ℕ :=
  (List.range weights.length).filter fun uid => 0 < weights.getD uid 0

theorem mem_positiveUids {weights : List ℚ} {uid : ℕ} :
    uid ∈ positiveUids weights ↔ 0 < weights.getD uid 0 := by
  rw [positiveUids, List.mem_filter, List.mem_range, decide_eq_true_eq, and_iff_right_iff_imp]
  intro positive
  by_contra outside
  rw [List.getD_eq_default _ _ (not_lt.mp outside)] at positive
  exact lt_irrefl _ positive

theorem positiveUids_nodup (weights : List ℚ) : (positiveUids weights).Nodup :=
  List.nodup_range.filter _

private theorem zip_range (weights : List ℚ) : (List.range weights.length).zip weights =
    (List.range weights.length).map fun uid => (uid, weights.getD uid 0) := by
  refine List.ext_getElem (by simp) fun i inside _ => ?_
  have bound : i < weights.length := by simpa using inside
  simp [bound]

private theorem zip_range_filter (weights : List ℚ) :
    ((List.range weights.length).zip weights).filter (fun pair => 0 < pair.2) =
      (positiveUids weights).map fun uid => (uid, weights.getD uid 0) := by
  rw [zip_range, List.filter_map, positiveUids]
  rfl

/-- The weights of the positive UIDs. -/
def positiveWeights (weights : List ℚ) : List ℚ :=
  (positiveUids weights).map fun uid => weights.getD uid 0

theorem positiveWeights_pos {weights : List ℚ} : ∀ weight ∈ positiveWeights weights, 0 < weight := by
  intro weight member
  obtain ⟨uid, listed, rfl⟩ := List.mem_map.mp member
  exact mem_positiveUids.mp listed

/-- Under a chain minimum and maximum of one, every positive weight keeps its
share and its UID, and nothing else stays. -/
theorem processWeights_one {weights : List ℚ} (some_positive : positiveUids weights ≠ []) :
    processWeights (List.range weights.length) weights weights.length 1 1
      emissionExcludeQuantile =
    .ok (positiveUids weights,
      (positiveWeights weights).map (· / (positiveWeights weights).sum)) := by
  have counted : (positiveUids weights).length ≠ 0 := (List.length_pos_iff.mpr some_positive).ne'
  have network : weights.length ≠ 0 := by
    intro hzero
    rw [positiveUids, hzero] at some_positive
    exact some_positive rfl
  have within : (List.range weights.length).any (weights.length ≤ ·) = false := by
    rw [List.any_eq_false]
    intro uid member
    simpa using member
  have filled : positiveWeights weights ≠ [] := by
    rwa [positiveWeights, Ne, List.map_eq_nil_iff]
  -- a quantile of zero excludes no weight
  have noExclusion : min (((emissionExcludeQuantile : ℕ) : ℚ) / 65535)
      (max 0 (((positiveUids weights).length - (1 : ℕ)) / (positiveUids weights).length : ℚ)) =
      0 := by
    rw [emissionExcludeQuantile, Nat.cast_zero, zero_div]
    exact min_eq_left (le_max_left _ _)
  obtain ⟨least, quantile, below⟩ := decimalQuantile_zero filled
  rw [processWeights, if_neg (by simp), within]
  simp only [Bool.false_eq_true, if_false, network, zip_range_filter, List.length_map, counted,
    false_or]
  rw [if_neg (by omega), if_neg (by omega)]
  have weightsOf : ((positiveUids weights).map fun uid => (uid, weights.getD uid 0)).map Prod.snd =
      positiveWeights weights := by
    rw [List.map_map]
    rfl
  rw [weightsOf, noExclusion, quantile]
  have all : ((positiveUids weights).map fun uid => (uid, weights.getD uid 0)).filter
      (fun pair => least ≤ pair.2) =
      (positiveUids weights).map fun uid => (uid, weights.getD uid 0) := by
    rw [List.filter_eq_self]
    intro pair member
    obtain ⟨uid, listed, rfl⟩ := List.mem_map.mp member
    rw [decide_eq_true_eq]
    exact below _ (List.mem_map.mpr ⟨uid, listed, rfl⟩)
  simp only [all, weightsOf]
  rw [normalizeMaxWeight_one filled positiveWeights_pos]
  simp [List.map_map, Function.comp_def]

/-! ### The encoder -/

section Encoder

/-- Positions written by a list of distinct writes. -/
private theorem getD_foldl_set (writes : List (ℕ × ℤ)) (units : List ℤ) :
    (writes.foldl (fun acc entry => acc.set entry.1 entry.2) units).length = units.length ∧
    (∀ index ∉ writes.map Prod.fst,
      (writes.foldl (fun acc entry => acc.set entry.1 entry.2) units).getD index 0 =
        units.getD index 0) ∧
    ((writes.map Prod.fst).Nodup → ∀ entry ∈ writes, entry.1 < units.length →
      (writes.foldl (fun acc entry => acc.set entry.1 entry.2) units).getD entry.1 0 =
        entry.2) := by
  induction writes generalizing units with
  | nil => simp
  | cons write rest ih =>
    obtain ⟨length, others, written⟩ := ih (units.set write.1 write.2)
    rw [List.foldl_cons]
    refine ⟨by rw [length, List.length_set], ?_, ?_⟩
    · intro index absent
      rw [List.map_cons, List.mem_cons, not_or] at absent
      rw [others index absent.2, List.getD_eq_getElem?_getD, List.getElem?_set_ne (Ne.symm absent.1),
        ← List.getD_eq_getElem?_getD]
    · intro nodup entry member bound
      rw [List.map_cons, List.nodup_cons] at nodup
      cases List.mem_cons.mp member with
      | inl same =>
        subst same
        rw [others _ nodup.1, List.getD_eq_getElem?_getD, List.getElem?_set_self bound,
          Option.getD_some]
      | inr later => exact written nodup.2 entry later (by rwa [List.length_set])

@[simp] theorem length_roundGroup (scaled : List ℚ) (units : List ℤ) (members : List ℕ) :
    (roundGroup scaled units members).length = units.length :=
  (getD_foldl_set _ units).1

/-- Rounding one group more keeps a rounding balanced. -/
theorem balanced_roundGroup {scaled : List ℚ} {units : List ℤ} {members : List ℕ}
    {groups : List (List ℕ)}
    (balanced : Balanced (fun i => scaled.getD i 0) (fun i => units.getD i 0) groups
      (Finset.range units.length))
    (nodup : members.Nodup) (inside : ∀ i ∈ members, i < units.length)
    (apart : ∀ group ∈ groups, group.Disjoint members) :
    Balanced (fun i => scaled.getD i 0) (fun i => (roundGroup scaled units members).getD i 0)
      (members :: groups) (Finset.range units.length) := by
  let amount := fun i => scaled.getD i 0
  let ranked := members.insertionSort fun i j => Int.fract (amount j) ≤ Int.fract (amount i)
  have perm : ranked.Perm members := List.perm_insertionSort _ _
  have sorted : ranked.Pairwise fun i j => Int.fract (amount j) ≤ Int.fract (amount i) := by
    have : Std.Total fun i j => Int.fract (amount j) ≤ Int.fract (amount i) :=
      ⟨fun i j => le_total _ _⟩
    have : IsTrans ℕ fun i j => Int.fract (amount j) ≤ Int.fract (amount i) :=
      ⟨fun _ _ _ first second => second.trans first⟩
    exact List.pairwise_insertionSort _ _
  have rounded := groupRounded_shareOut amount perm sorted
  set writes := shareOut (fun i => ⌊amount i⌋) ranked
    (roundHalfUp (members.map fun i => Int.fract (amount i)).sum) with hwrites
  have sameSum : ((members.map fun i => Int.fract (amount i)).insertionSort (· ≤ ·)).sum =
      (members.map fun i => Int.fract (amount i)).sum :=
    (List.perm_insertionSort _ _).sum_eq
  -- the source sums the sorted fractions, and their sum does not depend on the order
  have unfolded : roundGroup scaled units members =
      writes.foldl (fun acc entry => acc.set entry.1 entry.2) units := by
    rw [hwrites, ← sameSum]
    rfl
  obtain ⟨-, others, written⟩ := getD_foldl_set writes units
  have keysNodup : (writes.map Prod.fst).Nodup := rounded.keys.nodup_iff.mpr nodup
  refine balanced.round_group rounded nodup apart ?_ ?_
  · intro entry member
    have listed : entry.1 ∈ members :=
      rounded.keys.mem_iff.mp (List.mem_map.mpr ⟨entry, member, rfl⟩)
    rw [unfolded]
    exact written keysNodup entry member (inside _ listed)
  · intro index absent
    rw [unfolded]
    exact others index fun listed => absent (rounded.keys.mem_iff.mp listed)

/-- Rounding disjoint groups in turn keeps a rounding balanced. -/
theorem balanced_foldl_roundGroup {scaled : List ℚ} {units : List ℤ} {groups positions : List (List ℕ)}
    (balanced : Balanced (fun i => scaled.getD i 0) (fun i => units.getD i 0) groups
      (Finset.range units.length))
    (nodup : positions.flatten.Nodup) (inside : ∀ i ∈ positions.flatten, i < units.length)
    (apart : ∀ group ∈ groups, ∀ members ∈ positions, group.Disjoint members) :
    (positions.foldl (roundGroup scaled) units).length = units.length ∧
    Balanced (fun i => scaled.getD i 0)
      (fun i => (positions.foldl (roundGroup scaled) units).getD i 0)
      (positions.reverse ++ groups) (Finset.range units.length) := by
  induction positions generalizing units groups with
  | nil => exact ⟨rfl, balanced⟩
  | cons members rest ih =>
    rw [List.flatten_cons, List.nodup_append'] at nodup
    obtain ⟨own, later, separate⟩ := nodup
    -- the first group joins those that are rounded, and the rest are apart from it too
    have step := balanced_roundGroup balanced own
      (fun i member => inside i (List.mem_append_left _ member))
      fun group listed => apart group listed members List.mem_cons_self
    rw [← length_roundGroup scaled units members] at step
    obtain ⟨length, done⟩ := ih step later
      (fun i member => by
        rw [length_roundGroup]
        exact inside i (List.mem_append_right _ member))
      (fun group listed others member => by
        cases List.mem_cons.mp listed with
        | inl same =>
          exact same ▸ fun i left right =>
            separate left (List.mem_flatten.mpr ⟨others, member, right⟩)
        | inr earlier => exact apart group earlier others (List.mem_cons_of_mem _ member))
    rw [length_roundGroup] at length done
    rw [List.foldl_cons, List.reverse_cons, List.append_assoc]
    exact ⟨length, done⟩

/-- One group's units share out its rounded total, and no other entry changes. -/
theorem apportioned_roundGroup {scaled : List ℚ} {units : List ℤ} {members : List ℕ}
    (nonneg : ∀ i ∈ members, 0 ≤ scaled.getD i 0) (nodup : members.Nodup)
    (inside : ∀ i ∈ members, i < units.length) :
    Apportioned (fun i => scaled.getD i 0) members
        (fun i => (roundGroup scaled units members).getD i 0) ∧
      ∀ i ∉ members, (roundGroup scaled units members).getD i 0 = units.getD i 0 := by
  let amount := fun i => scaled.getD i 0
  let ranked := members.insertionSort fun i j => Int.fract (amount j) ≤ Int.fract (amount i)
  have perm : ranked.Perm members := List.perm_insertionSort _ _
  have sorted : ranked.Pairwise fun i j => Int.fract (amount j) ≤ Int.fract (amount i) := by
    have : Std.Total fun i j => Int.fract (amount j) ≤ Int.fract (amount i) :=
      ⟨fun i j => le_total _ _⟩
    have : IsTrans ℕ fun i j => Int.fract (amount j) ≤ Int.fract (amount i) :=
      ⟨fun _ _ _ first second => second.trans first⟩
    exact List.pairwise_insertionSort _ _
  set writes := shareOut (fun i => ⌊amount i⌋) ranked
    (roundHalfUp (members.map fun i => Int.fract (amount i)).sum) with hwrites
  have sameSum : ((members.map fun i => Int.fract (amount i)).insertionSort (· ≤ ·)).sum =
      (members.map fun i => Int.fract (amount i)).sum :=
    (List.perm_insertionSort _ _).sum_eq
  have unfolded : roundGroup scaled units members =
      writes.foldl (fun acc entry => acc.set entry.1 entry.2) units := by
    rw [hwrites, ← sameSum]
    rfl
  have keys : (writes.map Prod.fst).Perm members := by
    rw [hwrites, map_fst_shareOut]
    exact perm
  obtain ⟨-, others, written⟩ := getD_foldl_set writes units
  constructor
  · refine apportioned_shareOut nonneg perm sorted fun entry member => ?_
    have listed : entry.1 ∈ members := keys.mem_iff.mp (List.mem_map.mpr ⟨entry, member, rfl⟩)
    rw [unfolded]
    exact written (keys.nodup_iff.mpr nodup) entry member (inside _ listed)
  · intro index absent
    rw [unfolded]
    exact others index fun listed => absent (keys.mem_iff.mp listed)

/-- Rounding disjoint groups in turn shares out every group's rounded total, and the
entries in no group keep their own. -/
theorem apportioned_foldl_roundGroup {scaled : List ℚ} {units : List ℤ} {positions : List (List ℕ)}
    (nonneg : ∀ i, 0 ≤ scaled.getD i 0) (nodup : positions.flatten.Nodup)
    (inside : ∀ i ∈ positions.flatten, i < units.length) :
    (positions.foldl (roundGroup scaled) units).length = units.length ∧
    (∀ members ∈ positions, Apportioned (fun i => scaled.getD i 0) members
      (fun i => (positions.foldl (roundGroup scaled) units).getD i 0)) ∧
    ∀ i ∉ positions.flatten,
      (positions.foldl (roundGroup scaled) units).getD i 0 = units.getD i 0 := by
  induction positions generalizing units with
  | nil => simp
  | cons members rest ih =>
    rw [List.flatten_cons, List.nodup_append'] at nodup
    obtain ⟨own, later, separate⟩ := nodup
    obtain ⟨shared, others⟩ := apportioned_roundGroup (fun i _ => nonneg i) own
      fun i member => inside i (List.mem_append_left _ member)
    obtain ⟨length, apportioned, kept⟩ := ih later fun i member => by
      rw [length_roundGroup scaled units members]
      exact inside i (List.mem_append_right _ member)
    rw [length_roundGroup] at length
    rw [List.foldl_cons]
    refine ⟨length, fun group listed => ?_, fun i absent => ?_⟩
    · cases List.mem_cons.mp listed with
      | inr listed => exact apportioned group listed
      | inl same =>
        -- The later groups leave this one's units alone.
        subst same
        exact shared.congr fun i member => kept i fun grouped => separate member grouped
    · rw [List.flatten_cons, List.mem_append, not_or] at absent
      rw [kept i absent.2, others i absent.1]

/-- The positions of each group's listed UIDs. -/
def positionsOf (uids : List ℕ) (groups : List (List ℕ)) : List (List ℕ) :=
  groups.map fun group => (group.filter (· ∈ uids)).map fun uid => uids.idxOf uid

theorem mem_flatten_positionsOf {uids : List ℕ} {groups : List (List ℕ)} {index : ℕ} :
    index ∈ (positionsOf uids groups).flatten ↔
      ∃ uid ∈ groups.flatten, uid ∈ uids ∧ uids.idxOf uid = index := by
  rw [positionsOf, List.mem_flatten]
  constructor
  · rintro ⟨positions, listed, inside⟩
    obtain ⟨group, source, rfl⟩ := List.mem_map.mp listed
    obtain ⟨uid, member, rfl⟩ := List.mem_map.mp inside
    obtain ⟨member, known⟩ := List.mem_filter.mp member
    exact ⟨uid, List.mem_flatten.mpr ⟨group, source, member⟩, by simpa using known, rfl⟩
  · rintro ⟨uid, source, known, rfl⟩
    obtain ⟨group, source, member⟩ := List.mem_flatten.mp source
    refine ⟨_, List.mem_map.mpr ⟨group, source, rfl⟩, List.mem_map.mpr ⟨uid, ?_, rfl⟩⟩
    exact List.mem_filter.mpr ⟨member, by simpa using known⟩

theorem positionsOf_nodup (uids : List ℕ) {groups : List (List ℕ)}
    (disjoint : groups.flatten.Nodup) : (positionsOf uids groups).flatten.Nodup := by
  induction groups with
  | nil => exact List.nodup_nil
  | cons group rest ih =>
    rw [List.flatten_cons, List.nodup_append'] at disjoint
    obtain ⟨own, later, separate⟩ := disjoint
    have split : (positionsOf uids (group :: rest)).flatten =
        ((group.filter (· ∈ uids)).map fun uid => uids.idxOf uid) ++
          (positionsOf uids rest).flatten := rfl
    rw [split, List.nodup_append']
    refine ⟨?_, ih later, ?_⟩
    · refine List.Nodup.map_on (fun first left second _ same => ?_) (own.filter _)
      exact List.idxOf_inj (by simpa using (List.mem_filter.mp left).2) |>.mp same
    · intro index left right
      obtain ⟨first, member, rfl⟩ := List.mem_map.mp left
      obtain ⟨second, listed, known, same⟩ := mem_flatten_positionsOf.mp right
      obtain rfl : second = first := List.idxOf_inj known |>.mp same
      exact separate (List.mem_filter.mp member).1 listed

/-- Scaled weights of nonnegative weights are nonnegative. -/
theorem scaledWeights_nonneg {weights : List ℚ} (nonneg : ∀ weight ∈ weights, 0 ≤ weight) :
    ∀ scaled ∈ scaledWeights weights, 0 ≤ scaled := by
  intro scaled member
  obtain ⟨weight, listed, rfl⟩ := List.mem_map.mp member
  have top : 0 ≤ weights.foldr max 0 := by
    clear member listed nonneg weight
    induction weights with
    | nil => exact le_rfl
    | cons weight rest ih => exact le_max_of_le_right ih
  exact mul_nonneg (div_nonneg (nonneg weight listed) top) (by norm_num [u16Max])

@[simp] theorem length_scaledWeights (weights : List ℚ) :
    (scaledWeights weights).length = weights.length := List.length_map _

theorem groupPositions_eq {uids : List ℕ} {groups : List (List ℕ)} (nodup : uids.Nodup)
    (disjoint : groups.flatten.Nodup) : groupPositions uids groups = .ok (positionsOf uids groups) := by
  by_cases none : groups = []
  · rw [groupPositions, if_pos none, none]
    rfl
  · rw [groupPositions, if_neg none, if_neg (not_not.mpr nodup), if_neg (not_not.mpr disjoint)]
    rfl

/-- The units of every position, before the zeros are dropped. -/
def roundedUnits (uids : List ℕ) (weights : List ℚ) (groups : List (List ℕ)) : List ℤ :=
  (positionsOf uids groups).foldl (roundGroup (scaledWeights weights))
    ((scaledWeights weights).map roundHalfUp)

/-- The encoder succeeds on distinct UIDs, disjoint groups and nonnegative weights
with a positive total. -/
theorem convertWeightsAndUidsForEmit_eq_emitted {uids : List ℕ} {weights : List ℚ}
    {groups : List (List ℕ)} (lengths : uids.length = weights.length)
    (nonneg : ∀ weight ∈ weights, 0 ≤ weight) (total : weights.sum ≠ 0)
    (nodup : uids.Nodup) (disjoint : groups.flatten.Nodup) :
    convertWeightsAndUidsForEmit uids weights groups =
      .ok (emitted uids (roundedUnits uids weights groups)) := by
  have noNegative : weights.any (· < 0) = false := by
    rw [List.any_eq_false]
    intro weight member
    simpa using nonneg weight member
  rw [convertWeightsAndUidsForEmit, if_neg (not_not.mpr lengths), noNegative,
    if_neg Bool.false_ne_true, if_neg total, groupPositions_eq nodup disjoint]
  rfl

/-- On distinct UIDs, disjoint groups and nonnegative weights with a positive total
the encoder drops the zeros of one balanced rounding of the scaled
weights. -/
theorem convertWeightsAndUidsForEmit_eq {uids : List ℕ} {weights : List ℚ}
    {groups : List (List ℕ)} (lengths : uids.length = weights.length)
    (nonneg : ∀ weight ∈ weights, 0 ≤ weight) (total : weights.sum ≠ 0)
    (nodup : uids.Nodup) (disjoint : groups.flatten.Nodup) :
    ∃ units : List ℤ, units.length = uids.length ∧
      Balanced (fun i => (scaledWeights weights).getD i 0) (fun i => units.getD i 0)
        (positionsOf uids groups) (Finset.range uids.length) ∧
      convertWeightsAndUidsForEmit uids weights groups = .ok (emitted uids units) := by
  set scaled := scaledWeights weights with hscaled
  have sizes : (scaled.map roundHalfUp).length = uids.length := by
    rw [List.length_map, hscaled, length_scaledWeights, lengths]
  have entryNonneg : ∀ i, 0 ≤ scaled.getD i 0 := fun i => by
    by_cases bound : i < scaled.length
    · rw [List.getD_eq_getElem _ _ bound]
      exact scaledWeights_nonneg nonneg _ (List.getElem_mem bound)
    · rw [List.getD_eq_default _ _ (not_lt.mp bound)]
  -- before any group is rounded, rounding each entry by itself is balanced
  have start : Balanced (fun i => scaled.getD i 0) (fun i => (scaled.map roundHalfUp).getD i 0) []
      (Finset.range (scaled.map roundHalfUp).length) := by
    refine balanced_roundHalfUp (fun i _ => entryNonneg i) fun i member => ?_
    have bound : i < scaled.length := by simpa using member
    simp [bound]
  obtain ⟨length, balanced⟩ := balanced_foldl_roundGroup start (positionsOf_nodup uids disjoint)
    (fun i member => by
      obtain ⟨uid, -, known, rfl⟩ := mem_flatten_positionsOf.mp member
      rw [sizes]
      exact List.idxOf_lt_length_of_mem known)
    (fun _ listed => absurd listed List.not_mem_nil)
  refine ⟨_, length.trans sizes, ?_, ?_⟩
  · rw [sizes] at balanced
    exact balanced.of_subset fun group member => by simpa using member
  · exact convertWeightsAndUidsForEmit_eq_emitted lengths nonneg total nodup disjoint

/-! ### Dropping the zeros -/

theorem emitted_cons (uid : ℕ) (uids : List ℕ) (unit : ℤ) (units : List ℤ) :
    emitted (uid :: uids) (unit :: units) =
      if unit = 0 then emitted uids units
      else (uid :: (emitted uids units).1, unit :: (emitted uids units).2) := by
  by_cases hzero : unit = 0 <;> simp [emitted, hzero]

/-- The emitted UIDs are listed ones, in the same order. -/
theorem emitted_sublist (uids : List ℕ) (units : List ℤ) : (emitted uids units).1.Sublist uids := by
  induction uids generalizing units with
  | nil => exact List.Sublist.refl _
  | cons uid uids ih =>
    cases units with
    | nil => exact List.nil_sublist _
    | cons unit units =>
      rw [emitted_cons]
      split_ifs
      · exact (ih units).cons uid
      · exact (ih units).cons_cons uid

theorem length_emitted (uids : List ℕ) (units : List ℤ) :
    (emitted uids units).1.length = (emitted uids units).2.length := by
  rw [emitted, List.length_map, List.length_map]

/-- The emitted units are exactly the nonzero ones. -/
theorem mem_emitted_units {uids : List ℕ} {units : List ℤ} (lengths : units.length = uids.length)
    {unit : ℤ} : unit ∈ (emitted uids units).2 ↔ unit ∈ units ∧ unit ≠ 0 := by
  induction uids generalizing units with
  | nil => simp [emitted, List.length_eq_zero_iff.mp lengths]
  | cons uid uids ih =>
    cases units with
    | nil => simp at lengths
    | cons first units =>
      have rest := @ih units (by simpa using lengths)
      rw [emitted_cons, List.mem_cons]
      split_ifs with hzero
      · rw [rest]
        constructor
        · exact fun found => ⟨Or.inr found.1, found.2⟩
        · rintro ⟨rfl | found, nonzero⟩
          · exact absurd hzero nonzero
          · exact ⟨found, nonzero⟩
      · rw [List.mem_cons, rest]
        constructor
        · rintro (rfl | found)
          · exact ⟨Or.inl rfl, hzero⟩
          · exact ⟨Or.inr found.1, found.2⟩
        · rintro ⟨same | found, nonzero⟩
          · exact Or.inl same
          · exact Or.inr ⟨found, nonzero⟩

/-- The processed UIDs are distinct when the given ones are. -/
theorem processWeights_nodup {uids processedUids : List ℕ} {weights processedWeights : List ℚ}
    {size minAllowed quantile : ℕ} {limit : ℚ} (nodup : uids.Nodup)
    (processed : processWeights uids weights size minAllowed limit quantile =
      .ok (processedUids, processedWeights)) : processedUids.Nodup := by
  have pairs (keep keep' : ℕ × ℚ → Bool) :
      ((((uids.zip weights).filter keep).filter keep').map Prod.fst).Nodup := by
    -- zipping can only drop UIDs at the end
    have listed : ((uids.zip weights).map Prod.fst).Sublist uids := by
      clear processed nodup
      induction uids generalizing weights with
      | nil => exact List.Sublist.refl _
      | cons uid uids ih =>
        cases weights with
        | nil => exact List.nil_sublist _
        | cons weight weights =>
          have rest : ((uids.zip weights).map Prod.fst).Sublist uids := ih
          exact rest.cons_cons uid
    exact (((List.filter_sublist.trans List.filter_sublist).map _).trans listed).nodup nodup
  -- every outcome but the last gives no UIDs or all of a range
  simp only [processWeights] at processed
  split at processed
  · cases processed
  split at processed
  · cases processed
  split at processed
  · cases processed
    exact List.nodup_nil
  split at processed
  · cases processed
    exact List.nodup_range
  split at processed
  · cases processed
    exact List.nodup_range
  split at processed
  · cases processed
  · cases processed
    exact pairs _ _

/-- What is sent is some of what is processed, and a weight for each UID. -/
theorem chainWeightVector_spec {uids : List ℕ} {raw : List ℚ} {size minAllowed : ℕ} {limit : ℚ}
    {groups : List (List ℕ)} {vector : ChainWeightVector} (nodup : uids.Nodup)
    (encoded : chainWeightVector raw uids size minAllowed limit groups = .ok vector) :
    vector.processedUids.Nodup ∧ vector.uintUids.Sublist vector.processedUids ∧
      vector.uintUids.length = vector.uintWeights.length := by
  rw [chainWeightVector] at encoded
  split at encoded
  · cases encoded
  next processedUids processedWeights processed =>
  split at encoded
  · cases encoded
  next uintUids uintWeights converted =>
  cases encoded
  refine ⟨processWeights_nodup nodup processed, ?_⟩
  rw [convertWeightsAndUidsForEmit] at converted
  split at converted
  · cases converted
  split at converted
  · cases converted
  split at converted
  · cases converted
    exact ⟨List.nil_sublist _, rfl⟩
  simp only at converted
  split at converted
  · cases converted
  · obtain ⟨rfl, rfl⟩ := Prod.ext_iff.mp (Except.ok.inj converted)
    exact ⟨emitted_sublist _ _, length_emitted _ _⟩

/-- Dropping zeros keeps the total. -/
theorem sum_emitted {uids : List ℕ} {units : List ℤ} (lengths : units.length = uids.length) :
    (emitted uids units).2.sum = units.sum := by
  induction uids generalizing units with
  | nil => simp [emitted, List.length_eq_zero_iff.mp lengths]
  | cons uid uids ih =>
    cases units with
    | nil => simp at lengths
    | cons first units =>
      have rest := @ih units (by simpa using lengths)
      rw [emitted_cons, List.sum_cons]
      split_ifs with hzero
      · rw [rest, hzero, zero_add]
      · rw [List.sum_cons, rest]

/-- A UID's emitted unit is the one at its position; it is emitted unless zero. -/
theorem emitted_at {uids : List ℕ} {units : List ℤ} (lengths : units.length = uids.length)
    (nodup : uids.Nodup) {uid : ℕ} (member : uid ∈ uids) :
    (uid ∈ (emitted uids units).1 ↔ units.getD (uids.idxOf uid) 0 ≠ 0) ∧
      (emitted uids units).2.getD ((emitted uids units).1.idxOf uid) 0 =
        units.getD (uids.idxOf uid) 0 := by
  induction uids generalizing units with
  | nil => exact absurd member List.not_mem_nil
  | cons first uids ih =>
    cases units with
    | nil => simp at lengths
    | cons unit units =>
      obtain ⟨fresh, nodup⟩ := List.nodup_cons.mp nodup
      have shorter : units.length = uids.length := by simpa using lengths
      by_cases same : first = uid
      · subst same
        -- no UID is listed twice, so the rest does not emit this one
        have absent : first ∉ (emitted uids units).1 := fun listed =>
          fresh ((emitted_sublist uids units).subset listed)
        rw [emitted_cons, List.idxOf_cons_self]
        by_cases hzero : unit = 0
        · rw [if_pos hzero]
          refine ⟨by simp [absent, hzero], ?_⟩
          rw [List.idxOf_of_notMem absent, length_emitted, List.getD_eq_default _ _ le_rfl,
            List.getD_cons_zero, hzero]
        · rw [if_neg hzero]
          simp [hzero]
      · have later : uid ∈ uids := (List.mem_cons.mp member).resolve_left (Ne.symm same)
        obtain ⟨listed, value⟩ := ih shorter nodup later
        rw [emitted_cons, List.idxOf_cons_ne _ same, List.getD_cons_succ]
        split_ifs with hzero
        · exact ⟨listed, value⟩
        · refine ⟨?_, ?_⟩
          · rw [List.mem_cons, or_iff_right (Ne.symm same), listed]
          · rw [List.idxOf_cons_ne _ same, List.getD_cons_succ, value]

/-- Distinct UIDs paired with their units. -/
theorem zip_eq_map {uids : List ℕ} {units : List ℤ} (lengths : units.length = uids.length)
    (nodup : uids.Nodup) :
    uids.zip units = uids.map fun uid => (uid, units.getD (uids.idxOf uid) 0) := by
  refine List.ext_getElem (by simp [lengths]) fun i inside _ => ?_
  have bound : i < uids.length := by simpa [lengths] using inside
  have bound' : i < units.length := lengths ▸ bound
  rw [List.getElem_zip, List.getElem_map, nodup.idxOf_getElem i bound,
    List.getD_eq_getElem _ _ bound']

/-- Exactly the UIDs with a nonzero unit are emitted, in order, each with its unit. -/
theorem emitted_eq {uids : List ℕ} {units : List ℤ} (lengths : units.length = uids.length)
    (nodup : uids.Nodup) :
    emitted uids units =
      (uids.filter fun uid => units.getD (uids.idxOf uid) 0 ≠ 0,
        (uids.filter fun uid => units.getD (uids.idxOf uid) 0 ≠ 0).map fun uid =>
          units.getD (uids.idxOf uid) 0) := by
  have kept : ∀ sub : List ℕ, (sub.map fun uid => (uid, units.getD (uids.idxOf uid) 0)).filter
      (fun entry => entry.2 ≠ 0) =
        (sub.filter fun uid => units.getD (uids.idxOf uid) 0 ≠ 0).map fun uid =>
          (uid, units.getD (uids.idxOf uid) 0) := fun sub => by
    rw [List.filter_map]
    rfl
  simp only [emitted, zip_eq_map lengths nodup, kept, List.map_map]
  refine Prod.ext ?_ rfl
  exact List.map_id' _

end Encoder

end Endure.Scoring
