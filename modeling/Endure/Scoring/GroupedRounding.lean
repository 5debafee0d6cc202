import Endure.Library.RunningPeak
import Endure.Scoring.WeightProcessing

/-!
# What the u16 encoding does to every UID

Each group of UIDs rounds as one entry and every other UID on its own, the largest
entry is the largest u16, and exactly the zeros are left out. A group's total is a
matter of its members only, whatever their order and that of the groups.
-/

namespace Endure.Scoring

open Library.Rounding Library.RunningPeak

/-- A UID's weight, scaled so that the largest one is the largest u16. -/
def maxUpscaled (uids : List ℕ) (weights : List ℚ) (uid : ℕ) : ℚ :=
  (scaledWeights weights).getD (uids.idxOf uid) 0

/-- A group's UIDs that are in the vector, in the group's order. -/
def listedMembers (uids group : List ℕ) : List ℕ := group.filter (· ∈ uids)

/-- The units an encoding gives the UIDs of its vector. -/
structure EncodesGroups (uids : List ℕ) (weights : List ℚ) (groups : List (List ℕ))
    (unit : ℕ → ℤ) : Prop where
  converted : convertWeightsAndUidsForEmit uids weights groups =
    .ok (uids.filter fun uid => unit uid ≠ 0, (uids.filter fun uid => unit uid ≠ 0).map unit)
  grouped : ∀ group ∈ groups,
    Apportioned (maxUpscaled uids weights) (listedMembers uids group) unit
  ungrouped : ∀ uid ∈ uids, uid ∉ groups.flatten →
    unit uid = roundHalfUp (maxUpscaled uids weights uid)
  bounds : ∀ uid ∈ uids, 0 ≤ unit uid ∧ unit uid ≤ u16Max
  largest : ∀ uid ∈ uids, maxUpscaled uids weights uid = u16Max → unit uid = u16Max
  top : ∃ uid ∈ uids, maxUpscaled uids weights uid = u16Max

/-! ### Scaling -/

variable {weights : List ℚ}

/-- Scaling puts every weight between zero and the largest u16, which it reaches. -/
theorem scaledWeights_bounds (nonneg : ∀ weight ∈ weights, 0 ≤ weight)
    (positive : 0 < weights.sum) :
    (u16Max : ℚ) ∈ scaledWeights weights ∧ ∀ i, 0 ≤ (scaledWeights weights).getD i 0 ∧
      (scaledWeights weights).getD i 0 ≤ u16Max := by
  obtain ⟨weight, listed, own⟩ : ∃ weight ∈ weights, 0 < weight := by
    by_contra none
    push Not at none
    exact positive.ne' (List.sum_eq_zero fun weight member =>
      le_antisymm (none weight member) (nonneg weight member))
  obtain ⟨above, member⟩ := foldr_max_mem listed own
  have u16 : (0 : ℚ) < u16Max := by norm_num [u16Max]
  constructor
  · refine List.mem_map.mpr ⟨_, member, ?_⟩
    rw [div_self above.ne', one_mul]
  · intro i
    by_cases inside : i < (scaledWeights weights).length
    · rw [List.getD_eq_getElem _ _ inside]
      have listed := List.getElem_mem inside
      refine ⟨scaledWeights_nonneg nonneg _ listed, ?_⟩
      obtain ⟨weight, source, same⟩ := List.mem_map.mp listed
      have part : weight / weights.foldr max 0 ≤ 1 := (div_le_one above).mpr (le_foldr_max source 0)
      rw [← same]
      exact (mul_le_mul_of_nonneg_right part u16.le).trans (one_mul _).le
    · rw [List.getD_eq_default _ _ (not_lt.mp inside)]
      exact ⟨le_rfl, u16.le⟩

/-! ### Units -/

variable {uids : List ℕ} {groups : List (List ℕ)}

/-- A position is in a group exactly when its UID is. -/
theorem idxOf_mem_positionsOf {uid : ℕ} (listed : uid ∈ uids) :
    uids.idxOf uid ∈ (positionsOf uids groups).flatten ↔ uid ∈ groups.flatten := by
  rw [mem_flatten_positionsOf]
  constructor
  · rintro ⟨other, grouped, known, same⟩
    rwa [List.idxOf_inj known |>.mp same] at grouped
  · intro grouped
    exact ⟨uid, grouped, listed, rfl⟩

/-- Every unit stays between zero and the largest u16. -/
theorem unit_bounds {amount : ℚ} {unit : ℤ} (nonneg : 0 ≤ amount) (below : amount ≤ u16Max)
    (next : unit = ⌊amount⌋ ∨ unit = ⌊amount⌋ + 1 ∧ Int.fract amount ≠ 0) :
    0 ≤ unit ∧ unit ≤ u16Max := by
  have low : 0 ≤ ⌊amount⌋ := Int.floor_nonneg.mpr nonneg
  have high : ⌊amount⌋ ≤ u16Max := Int.floor_le_iff.mpr (by linarith)
  rcases next with rfl | ⟨rfl, fractional⟩
  · exact ⟨low, high⟩
  · refine ⟨by omega, ?_⟩
    have strict : ⌊amount⌋ < u16Max := by
      apply lt_of_le_of_ne high
      intro same
      apply fractional
      have whole : amount = u16Max := le_antisymm below (by
        rw [← same]
        exact Int.floor_le amount)
      rw [whole, Int.fract_intCast]
    omega

/-- The encoding of nonnegative weights with a positive total over distinct UIDs, under
disjoint groups. -/
theorem encodesGroups_roundedUnits (lengths : uids.length = weights.length)
    (nonneg : ∀ weight ∈ weights, 0 ≤ weight) (positive : 0 < weights.sum)
    (distinct : uids.Nodup) (disjoint : groups.flatten.Nodup) :
    EncodesGroups uids weights groups fun uid =>
      (roundedUnits uids weights groups).getD (uids.idxOf uid) 0 := by
  obtain ⟨top, within⟩ := scaledWeights_bounds nonneg positive
  have sizes : ((scaledWeights weights).map roundHalfUp).length = uids.length := by
    rw [List.length_map, length_scaledWeights, lengths]
  have places : ∀ i ∈ (positionsOf uids groups).flatten,
      i < ((scaledWeights weights).map roundHalfUp).length := by
    intro i member
    obtain ⟨uid, -, known, rfl⟩ := mem_flatten_positionsOf.mp member
    rw [sizes]
    exact List.idxOf_lt_length_of_mem known
  obtain ⟨length, apportioned, others⟩ :=
    apportioned_foldl_roundGroup (fun i => (within i).1) (positionsOf_nodup uids disjoint) places
  have length' : (roundedUnits uids weights groups).length = uids.length := length.trans sizes
  have grouped : ∀ group ∈ groups, Apportioned (maxUpscaled uids weights) (listedMembers uids group)
      fun uid => (roundedUnits uids weights groups).getD (uids.idxOf uid) 0 := fun group member =>
    (apportioned _ (List.mem_map_of_mem member)).of_map
  have ungrouped : ∀ uid ∈ uids, uid ∉ groups.flatten →
      (roundedUnits uids weights groups).getD (uids.idxOf uid) 0 =
        roundHalfUp (maxUpscaled uids weights uid) := by
    intro uid listed alone
    have bound : uids.idxOf uid < (scaledWeights weights).length := by
      rw [length_scaledWeights, ← lengths]
      exact List.idxOf_lt_length_of_mem listed
    have bound' : uids.idxOf uid < ((scaledWeights weights).map roundHalfUp).length := by
      rwa [List.length_map]
    have kept := others (uids.idxOf uid) fun inside =>
      alone ((idxOf_mem_positionsOf listed).mp inside)
    rw [roundedUnits, kept, maxUpscaled, List.getD_eq_getElem _ _ bound',
      List.getD_eq_getElem _ _ bound, List.getElem_map]
  -- A grouped UID's unit is its floor, or one more if it has a remainder.
  have next : ∀ uid ∈ uids, uid ∈ groups.flatten →
      (roundedUnits uids weights groups).getD (uids.idxOf uid) 0 =
          ⌊maxUpscaled uids weights uid⌋ ∨
        (roundedUnits uids weights groups).getD (uids.idxOf uid) 0 =
            ⌊maxUpscaled uids weights uid⌋ + 1 ∧ Int.fract (maxUpscaled uids weights uid) ≠ 0 := by
    intro uid listed inGroup
    obtain ⟨group, member, inside⟩ := List.mem_flatten.mp inGroup
    have present : uid ∈ listedMembers uids group :=
      List.mem_filter.mpr ⟨inside, by simpa using listed⟩
    by_cases whole : Int.fract (maxUpscaled uids weights uid) = 0
    · exact Or.inl ((grouped group member).whole uid present whole)
    · exact ((grouped group member).floor_or_succ uid present).imp_right fun raised => ⟨raised, whole⟩
  refine ⟨?_, grouped, ungrouped, ?_, ?_, ?_⟩
  · rw [convertWeightsAndUidsForEmit_eq_emitted lengths nonneg positive.ne' distinct disjoint,
      emitted_eq length' distinct]
  · intro uid listed
    obtain ⟨low, high⟩ := within (uids.idxOf uid)
    by_cases inGroup : uid ∈ groups.flatten
    · exact unit_bounds low high (next uid listed inGroup)
    · rw [ungrouped uid listed inGroup]
      exact ⟨roundHalfUp_nonneg low, roundHalfUp_le low high⟩
  · intro uid listed same
    by_cases inGroup : uid ∈ groups.flatten
    · rcases next uid listed inGroup with floor | ⟨-, fractional⟩
      · rw [floor, same, Int.floor_intCast]
      · rw [same, Int.fract_intCast] at fractional
        exact absurd rfl fractional
    · have next := adjacent_roundHalfUp (within (uids.idxOf uid)).1
      rw [ungrouped uid listed inGroup]
      rw [maxUpscaled] at same ⊢
      rw [same] at next ⊢
      exact next.eq_of_int
  · obtain ⟨i, inside, same⟩ := List.mem_iff_getElem.mp top
    have bound : i < uids.length := by
      rw [lengths, ← length_scaledWeights]
      exact inside
    refine ⟨uids[i], List.getElem_mem bound, ?_⟩
    rw [maxUpscaled, distinct.idxOf_getElem i bound, List.getD_eq_getElem _ _ inside, same]

/-- Every nonnegative weight vector with a positive total over distinct UIDs encodes under
every family of disjoint groups, and a group's total depends on its members only. -/
theorem grouped_rounding (lengths : uids.length = weights.length)
    (nonneg : ∀ weight ∈ weights, 0 ≤ weight) (positive : 0 < weights.sum)
    (distinct : uids.Nodup) (disjoint : groups.flatten.Nodup) :
    (∃ unit, EncodesGroups uids weights groups unit) ∧
      (∀ unit, EncodesGroups uids weights groups unit →
        (∀ emittedUnit ∈ (uids.filter fun uid => unit uid ≠ 0).map unit,
          1 ≤ emittedUnit ∧ emittedUnit ≤ u16Max) ∧
        u16Max ∈ (uids.filter fun uid => unit uid ≠ 0).map unit) ∧
      ∀ groups' : List (List ℕ), ∀ unit unit', EncodesGroups uids weights groups unit →
        EncodesGroups uids weights groups' unit' →
          ∀ group ∈ groups, ∀ group' ∈ groups', group'.Perm group →
            ((listedMembers uids group').map unit').sum =
              ((listedMembers uids group).map unit).sum := by
  refine ⟨⟨_, encodesGroups_roundedUnits lengths nonneg positive distinct disjoint⟩, ?_, ?_⟩
  · intro unit encodes
    constructor
    · intro emittedUnit member
      obtain ⟨uid, kept, rfl⟩ := List.mem_map.mp member
      obtain ⟨listed, nonzero⟩ := List.mem_filter.mp kept
      have nonzero : unit uid ≠ 0 := by simpa using nonzero
      obtain ⟨low, high⟩ := encodes.bounds uid listed
      omega
    -- the largest weight scales to the top unit whatever group it is in
    · obtain ⟨uid, listed, scaled⟩ := encodes.top
      have same := encodes.largest uid listed scaled
      refine List.mem_map.mpr ⟨uid, List.mem_filter.mpr ⟨listed, ?_⟩, same⟩
      rw [same]
      decide
  · intro groups' unit unit' encodes encodes' group member group' member' perm
    -- both totals round the same members' sum
    have reordered : (listedMembers uids group').Perm (listedMembers uids group) := perm.filter _
    rw [(encodes'.grouped group' member').total, (encodes.grouped group member).total,
      (reordered.map _).sum_eq]

/-- Three pooled UIDs beside the largest one. -/
theorem grouped_rounding_pool :
    convertWeightsAndUidsForEmit [4, 5, 6, 0] [3 / 100000, 2 / 100000, 1 / 100000, 1] [[4, 5, 6]] =
        .ok ([4, 5, 6, 0], [2, 1, 1, 65535]) ∧
      ∃ unit, EncodesGroups [4, 5, 6, 0] [3 / 100000, 2 / 100000, 1 / 100000, 1] [[4, 5, 6]] unit :=
  ⟨by decide +kernel,
    (grouped_rounding (by decide) (by norm_num) (by norm_num) (by decide) (by decide)).1⟩

end Endure.Scoring
