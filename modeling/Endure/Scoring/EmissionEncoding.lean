import Endure.Library.RunningPeak
import Endure.Scoring.OwnerVote

/-!
# The planner, the encoder and the recheck agree

A planned vector survives the chain's limits and the u16 encoding, and the recheck
made before sending accepts it. The owner's u16 entry differs from its rate by the
rounding of single entries and whole pools only.
-/

namespace Endure.Scoring

open Library.Checked Library.Rounding Library.RunningPeak

/-! ### Scaling -/

section Scaling

variable {weights : List ℚ}

/-- Scaling multiplies every weight by one positive factor, puts the largest at the
largest u16 and no other above it. -/
theorem scaledWeights_spec (filled : weights ≠ []) (positive : ∀ weight ∈ weights, 0 < weight) :
    ∃ factor : ℚ, 0 < factor ∧ scaledWeights weights = weights.map (factor * ·) ∧
      (u16Max : ℚ) ∈ scaledWeights weights ∧ ∀ scaled ∈ scaledWeights weights, scaled ≤ u16Max := by
  obtain ⟨above, member⟩ := foldr_max_mem (List.head_mem filled) (positive _ (List.head_mem filled))
  have u16 : (0 : ℚ) < u16Max := by norm_num [u16Max]
  refine ⟨u16Max / weights.foldr max 0, div_pos u16 above, ?_, ?_, ?_⟩
  · exact List.map_congr_left fun weight _ => by ring
  · refine List.mem_map.mpr ⟨_, member, ?_⟩
    rw [div_self above.ne', one_mul]
  · intro scaled inside
    obtain ⟨weight, listed, rfl⟩ := List.mem_map.mp inside
    have part : weight / weights.foldr max 0 ≤ 1 := (div_le_one above).mpr (le_foldr_max listed 0)
    exact (mul_le_mul_of_nonneg_right part u16.le).trans (one_mul _).le

end Scaling

/-! ### Balanced units -/

section Units

variable {scaled : List ℚ} {units : List ℤ} {groups : List (List ℕ)}

private theorem sum_eq_sum_range_getD {K : Type*} [AddCommMonoid K] (items : List K) :
    items.sum = ∑ i ∈ Finset.range items.length, items.getD i 0 := by
  rw [← Fin.sum_univ_getElem, Finset.sum_range fun i => items.getD i 0]
  exact Finset.sum_congr rfl fun i _ => (List.getD_eq_getElem _ 0 i.isLt).symm

/-- Units next to amounts between zero and the largest u16 stay between them. -/
theorem units_bounds (lengths : units.length = scaled.length)
    (balanced : Balanced (fun i => scaled.getD i 0) (fun i => units.getD i 0) groups
      (Finset.range scaled.length))
    (nonneg : ∀ amount ∈ scaled, 0 ≤ amount) (below : ∀ amount ∈ scaled, amount ≤ u16Max)
    {unit : ℤ} (member : unit ∈ units) : 0 ≤ unit ∧ unit ≤ u16Max := by
  obtain ⟨i, bound, rfl⟩ := List.mem_iff_getElem.mp member
  have inside : i < scaled.length := lengths ▸ bound
  have next := balanced.adjacent i (Finset.mem_range.mpr inside)
  rw [List.getD_eq_getElem _ _ bound, List.getD_eq_getElem _ _ inside] at next
  have amount := List.getElem_mem inside
  exact ⟨next.ge (by exact_mod_cast nonneg _ amount), next.le (below _ amount)⟩

/-- An amount at the largest u16 rounds to it. -/
theorem u16Max_mem_units (lengths : units.length = scaled.length)
    (balanced : Balanced (fun i => scaled.getD i 0) (fun i => units.getD i 0) groups
      (Finset.range scaled.length))
    (top : (u16Max : ℚ) ∈ scaled) : u16Max ∈ units := by
  obtain ⟨i, inside, same⟩ := List.mem_iff_getElem.mp top
  have next := balanced.adjacent i (Finset.mem_range.mpr inside)
  rw [List.getD_eq_getElem _ _ inside, same, List.getD_eq_getElem _ _ (lengths ▸ inside)] at next
  exact next.eq_of_int ▸ List.getElem_mem _

/-- The unit of an entry in no group misses its part of the total by at most what
rounding every entry costs. -/
theorem deviation_le (lengths : units.length = scaled.length)
    (balanced : Balanced (fun i => scaled.getD i 0) (fun i => units.getD i 0) groups
      (Finset.range scaled.length))
    {owner : ℕ} (inside : owner < scaled.length) (alone : owner ∉ groups.flatten)
    (bounded : ∀ i ∈ groups.flatten, i < scaled.length)
    {n : ℕ} (small : n ≤ 10000) (part : (n : ℚ) * scaled.sum = 10000 * scaled.getD owner 0) :
    2 * |10000 * units.getD owner 0 - n * units.sum| ≤ 10000 * (scaled.length : ℤ) := by
  -- the owner is in no group and is rounded alone
  have one : |(units.getD owner 0 : ℚ) - scaled.getD owner 0| ≤ 1 / 2 := by
    have total := balanced.total {owner} (by simpa using inside) fun group listed => Or.inr (by
      rw [Finset.disjoint_singleton_right, List.mem_toFinset]
      exact fun grouped => alone (List.mem_flatten.mpr ⟨group, listed, grouped⟩))
    simpa using total
  -- the others are rounded group by group, off by half a unit each in all
  have rest := balanced.total (Finset.range scaled.length \ {owner}) Finset.sdiff_subset
    fun group listed => Or.inl fun i member => by
      have grouped := List.mem_flatten.mpr ⟨group, listed, List.mem_toFinset.mp member⟩
      rw [Finset.mem_sdiff, Finset.mem_range, Finset.mem_singleton]
      exact ⟨bounded i grouped, fun same => alone (same ▸ grouped)⟩
  have counted : ((Finset.range scaled.length \ {owner}).card : ℚ) = scaled.length - 1 := by
    rw [Finset.card_sdiff_of_subset (by simpa using inside), Finset.card_range,
      Finset.card_singleton, Nat.cast_sub (by omega), Nat.cast_one]
  have split : (units.sum : ℚ) - scaled.sum =
      ∑ i ∈ Finset.range scaled.length \ {owner}, ((units.getD i 0 : ℚ) - scaled.getD i 0) +
        ((units.getD owner 0 : ℚ) - scaled.getD owner 0) := by
    have single := Finset.sum_sdiff (f := fun i => (units.getD i 0 : ℚ) - scaled.getD i 0)
      (show {owner} ⊆ Finset.range scaled.length by simpa using inside)
    rw [Finset.sum_singleton] at single
    rw [single, Finset.sum_sub_distrib, sum_eq_sum_range_getD units,
      sum_eq_sum_range_getD scaled, lengths]
    push_cast
    rfl
  set others := ∑ i ∈ Finset.range scaled.length \ {owner}, ((units.getD i 0 : ℚ) - scaled.getD i 0)
  set own := (units.getD owner 0 : ℚ) - scaled.getD owner 0 with hown
  -- the deviation is the owner's error and the others' error, weighted by the rate
  have error : (10000 * units.getD owner 0 - n * units.sum : ℚ) =
      (10000 - n) * own - n * others := by
    rw [hown]
    linear_combination -part - (n : ℚ) * split
  have smallQ : (n : ℚ) ≤ 10000 := by exact_mod_cast small
  have nNonneg : (0 : ℚ) ≤ n := Nat.cast_nonneg n
  have bound : |(10000 * units.getD owner 0 - n * units.sum : ℚ)| ≤
      (10000 - n) * (1 / 2) + n * ((scaled.length - 1) / 2) := by
    rw [error]
    calc |(10000 - n) * own - n * others|
        ≤ |(10000 - n) * own| + |n * others| := abs_sub _ _
      _ = (10000 - n) * |own| + n * |others| := by
          rw [abs_mul, abs_mul, abs_of_nonneg (sub_nonneg.mpr smallQ), abs_of_nonneg nNonneg]
      _ ≤ _ := by
          rw [counted] at rest
          gcongr
  have least : (1 : ℚ) ≤ scaled.length := by
    have : 1 ≤ scaled.length := by omega
    exact_mod_cast this
  have whole : (2 : ℚ) * |(10000 * units.getD owner 0 - n * units.sum : ℚ)| ≤
      10000 * scaled.length := by
    have product : (n : ℚ) * (scaled.length - 1) ≤ 10000 * (scaled.length - 1) :=
      mul_le_mul_of_nonneg_right smallQ (by linarith)
    linarith
  exact_mod_cast whole

end Units

/-! ### Pools -/

/-- The UIDs of disjoint pools are distinct and earn. -/
theorem poolUids_flatten {pools : List (List Hotkey)} (disjoint : pools.flatten.Nodup)
    (hotkeys : List Hotkey) (withheld : Finset ℕ) :
    (poolUids pools hotkeys withheld).flatten.Nodup ∧
      ∀ uid ∈ (poolUids pools hotkeys withheld).flatten, uid ∉ withheld := by
  let listed := fun hotkey => (uidOf hotkeys hotkey).filter fun uid => uid ∉ withheld
  have listed_spec : ∀ {hotkey uid}, listed hotkey = some uid →
      hotkeys[uid]? = some hotkey ∧ uid ∉ withheld := by
    intro hotkey uid found
    obtain ⟨known, earns⟩ := Option.filter_eq_some_iff.mp found
    exact ⟨mem_uidsOf.mp (List.mem_of_getLast? known), by simpa using earns⟩
  have flat : (pools.map fun pool => pool.filterMap listed).flatten =
      pools.flatten.filterMap listed := by
    rw [← List.flatMap_def, List.filterMap_flatten]
    rfl
  have every : ((pools.map fun pool => pool.filterMap listed).flatten).Nodup := by
    rw [flat]
    -- a UID has one hotkey, so distinct hotkeys have distinct UIDs
    refine disjoint.filterMap fun first second uid left right => ?_
    have same := (listed_spec left).1.symm.trans (listed_spec right).1
    exact Option.some.inj same
  -- small groups are dropped and the rest sorted, which only drops and reorders UIDs
  have sub : (poolUids pools hotkeys withheld).flatten.Subperm
      (pools.map fun pool => pool.filterMap listed).flatten := by
    refine List.Subperm.trans (List.Perm.subperm ?_) (List.Sublist.subperm
      (List.Sublist.flatten (List.filter_sublist (p := fun group => 1 < group.length))))
    exact (List.perm_insertionSort _ _).flatten
  refine ⟨?_, fun uid member => ?_⟩
  · obtain ⟨order, perm, sublist⟩ := sub
    exact perm.nodup_iff.mp (every.sublist sublist)
  · have inside := sub.subset member
    rw [flat] at inside
    obtain ⟨hotkey, -, found⟩ := List.mem_filterMap.mp inside
    exact (listed_spec found).2

/-! ### The encoded vector -/

/-- One encoding of a candidate under chain limits of one: the amounts its positive
weights scale to, and the units they round to. -/
structure Encoding (raw : List ℚ) (groups : List (List ℕ)) (vector : ChainWeightVector)
    (scaled : List ℚ) (units : List ℤ) : Prop where
  factor : ∃ factor : ℚ, 0 < factor ∧ scaled = (positiveWeights raw).map (factor * ·)
  top : (u16Max : ℚ) ∈ scaled
  below : ∀ amount ∈ scaled, amount ≤ u16Max
  lengths : units.length = scaled.length
  balanced : Balanced (fun i => scaled.getD i 0) (fun i => units.getD i 0)
    (positionsOf (positiveUids raw) groups) (Finset.range scaled.length)
  uids : vector.uintUids = (emitted (positiveUids raw) units).1
  weights : vector.uintWeights = (emitted (positiveUids raw) units).2

/-- A candidate with a positive weight is encoded. -/
theorem chainWeightVector_one {raw : List ℚ} {groups : List (List ℕ)}
    (some_positive : positiveUids raw ≠ []) (disjoint : groups.flatten.Nodup) :
    ∃ vector scaled units,
      chainWeightVector raw (List.range raw.length) raw.length 1 1 groups = .ok vector ∧
        Encoding raw groups vector scaled units := by
  have filled : positiveWeights raw ≠ [] := by
    rwa [positiveWeights, Ne, List.map_eq_nil_iff]
  have total : 0 < (positiveWeights raw).sum := List.sum_pos _ positiveWeights_pos filled
  set processed := (positiveWeights raw).map (· / (positiveWeights raw).sum) with hprocessed
  have processedPos : ∀ weight ∈ processed, 0 < weight := by
    intro weight member
    obtain ⟨own, listed, rfl⟩ := List.mem_map.mp member
    exact div_pos (positiveWeights_pos own listed) total
  have processedFilled : processed ≠ [] := by
    rwa [hprocessed, Ne, List.map_eq_nil_iff]
  have lengths : (positiveUids raw).length = processed.length := by
    rw [hprocessed, positiveWeights, List.length_map, List.length_map]
  obtain ⟨units, length, balanced, encoded⟩ := convertWeightsAndUidsForEmit_eq lengths
    (fun weight member => (processedPos weight member).le)
    (List.sum_pos _ processedPos processedFilled).ne' (positiveUids_nodup raw) disjoint
  -- scaling is by one positive factor and makes the largest weight the top unit
  obtain ⟨factor, positive, scaledBy, top, below⟩ := scaledWeights_spec processedFilled processedPos
  have sizes : (scaledWeights processed).length = (positiveUids raw).length := by
    rw [length_scaledWeights, lengths]
  refine ⟨⟨positiveUids raw, processed, (emitted (positiveUids raw) units).1,
    (emitted (positiveUids raw) units).2⟩, scaledWeights processed, units, ?_,
    ⟨factor / (positiveWeights raw).sum, div_pos positive total, ?_⟩, top, below,
    length.trans sizes.symm, sizes ▸ balanced, rfl, rfl⟩
  · rw [chainWeightVector, processWeights_one some_positive]
    simp only [← hprocessed, encoded]
  · rw [scaledBy, hprocessed, List.map_map]
    exact List.map_congr_left fun weight _ => by
      rw [Function.comp_apply]
      ring

namespace Encoding

variable {raw : List ℚ} {groups : List (List ℕ)} {vector : ChainWeightVector} {scaled : List ℚ}
  {units : List ℤ}

theorem length_eq (encoding : Encoding raw groups vector scaled units) :
    units.length = (positiveUids raw).length := by
  obtain ⟨factor, -, rfl⟩ := encoding.factor
  rw [encoding.lengths, List.length_map, positiveWeights, List.length_map]

/-- Only positive weights are sent. -/
theorem pos_of_mem (encoding : Encoding raw groups vector scaled units) {uid : ℕ}
    (member : uid ∈ vector.uintUids) : 0 < raw.getD uid 0 := by
  rw [encoding.uids] at member
  exact mem_positiveUids.mp ((emitted_sublist _ _).subset member)

theorem uids_nodup (encoding : Encoding raw groups vector scaled units) :
    vector.uintUids.Nodup := by
  rw [encoding.uids]
  exact (positiveUids_nodup raw).sublist (emitted_sublist _ _)

/-- Every unit sent is a positive u16. -/
theorem weight_bounds (encoding : Encoding raw groups vector scaled units) {weight : ℤ}
    (member : weight ∈ vector.uintWeights) : 0 < weight ∧ weight ≤ u16Max := by
  rw [encoding.weights, mem_emitted_units encoding.length_eq] at member
  obtain ⟨factor, positive, same⟩ := encoding.factor
  have nonneg : ∀ amount ∈ scaled, 0 ≤ amount := by
    intro amount inside
    rw [same] at inside
    obtain ⟨own, listed, rfl⟩ := List.mem_map.mp inside
    exact (mul_pos positive (positiveWeights_pos own listed)).le
  obtain ⟨lower, upper⟩ := units_bounds encoding.lengths encoding.balanced nonneg encoding.below
    member.1
  exact ⟨lt_of_le_of_ne lower (Ne.symm member.2), upper⟩

/-- The largest u16 is sent. -/
theorem top_mem (encoding : Encoding raw groups vector scaled units) :
    u16Max ∈ vector.uintWeights := by
  rw [encoding.weights, mem_emitted_units encoding.length_eq]
  exact ⟨u16Max_mem_units encoding.lengths encoding.balanced encoding.top, by decide⟩

theorem sum_weights (encoding : Encoding raw groups vector scaled units) :
    vector.uintWeights.sum = units.sum := by
  rw [encoding.weights, sum_emitted encoding.length_eq]

/-- A positive UID's scaled amount is its share of the scaled total. -/
theorem share_scaled (encoding : Encoding raw groups vector scaled units)
    (nonneg : ∀ weight ∈ raw, 0 ≤ weight) {uid : ℕ} (member : uid ∈ positiveUids raw) :
    scaled.getD ((positiveUids raw).idxOf uid) 0 = share raw uid * scaled.sum := by
  obtain ⟨factor, -, rfl⟩ := encoding.factor
  have located := List.idxOf_lt_length_of_mem member
  have entry : ((positiveWeights raw).map (factor * ·)).getD ((positiveUids raw).idxOf uid) 0 =
      factor * raw.getD uid 0 := by
    rw [positiveWeights, List.map_map, List.getD_eq_getElem _ _ (by simpa using located),
      List.getElem_map, List.getElem_idxOf, Function.comp_apply]
  -- the entries left out are zero
  have total : (positiveWeights raw).sum = raw.sum := by
    rw [sum_eq_sum_range_getD raw, positiveWeights, ← List.sum_toFinset _ (positiveUids_nodup raw)]
    refine Finset.sum_subset (fun other inside => ?_) fun other inside outside => ?_
    · rw [Finset.mem_range]
      have positive := mem_positiveUids.mp (List.mem_toFinset.mp inside)
      by_contra beyond
      rw [List.getD_eq_default _ _ (not_lt.mp beyond)] at positive
      exact lt_irrefl _ positive
    · rw [List.mem_toFinset, mem_positiveUids, not_lt] at outside
      rw [Finset.mem_range] at inside
      refine le_antisymm outside ?_
      rw [List.getD_eq_getElem _ _ inside]
      exact nonneg _ (List.getElem_mem inside)
  have positive : 0 < raw.sum := by
    rw [← total]
    refine List.sum_pos _ positiveWeights_pos fun none => ?_
    rw [positiveWeights, List.map_eq_nil_iff] at none
    rw [none] at member
    exact absurd member List.not_mem_nil
  rw [entry, List.sum_map_mul_left, List.map_id', total, share, div_mul_eq_mul_div,
    eq_div_iff positive.ne']
  ring

/-- A UID outside every group whose share is `n` basis points is sent near it. -/
theorem share_sent (encoding : Encoding raw groups vector scaled units)
    (nonneg : ∀ weight ∈ raw, 0 ≤ weight) {owner n : ℕ} (alone : owner ∉ groups.flatten)
    (small : n ≤ 10000) (part : share raw owner = n / 10000) :
    2 * |10000 * vector.uintWeights.getD (vector.uintUids.idxOf owner) 0 -
        n * vector.uintWeights.sum| ≤ 10000 * ((positiveUids raw).length : ℤ) ∧
      (0 < n → owner ∈ vector.uintUids) := by
  by_cases member : owner ∈ positiveUids raw
  · have located : (positiveUids raw).idxOf owner < scaled.length := by
      rw [← encoding.lengths, encoding.length_eq]
      exact List.idxOf_lt_length_of_mem member
    have ofTotal := encoding.share_scaled nonneg member
    rw [part] at ofTotal
    have apart : (positiveUids raw).idxOf owner ∉
        (positionsOf (positiveUids raw) groups).flatten := by
      intro grouped
      obtain ⟨uid, listed, known, same⟩ := mem_flatten_positionsOf.mp grouped
      exact alone (List.idxOf_inj known |>.mp same ▸ listed)
    obtain ⟨listed, value⟩ := emitted_at encoding.length_eq (positiveUids_nodup raw) member
    have deviation := deviation_le encoding.lengths encoding.balanced located apart
      (fun i inside => by
        obtain ⟨uid, -, known, rfl⟩ := mem_flatten_positionsOf.mp inside
        rw [← encoding.lengths, encoding.length_eq]
        exact List.idxOf_lt_length_of_mem known)
      small (by rw [ofTotal]; ring)
    refine ⟨?_, fun positive => ?_⟩
    -- the uids are those of the positive weights, in order
    · rwa [encoding.sum_weights, encoding.uids, encoding.weights, value, ← encoding.length_eq,
        encoding.lengths]
    · -- A share of one basis point of at least 65535 units is several units.
      rw [encoding.uids, listed]
      have total : (65535 : ℚ) ≤ scaled.sum := by
        refine (List.single_le_sum (fun amount inside => ?_) _ encoding.top).trans' (by
          norm_num [u16Max])
        obtain ⟨factor, above, same⟩ := encoding.factor
        rw [same] at inside
        obtain ⟨own, own_mem, rfl⟩ := List.mem_map.mp inside
        exact (mul_pos above (positiveWeights_pos own own_mem)).le
      have one : (1 : ℚ) ≤ n := by exact_mod_cast positive
      have several : ((1 : ℤ) : ℚ) ≤ scaled.getD ((positiveUids raw).idxOf owner) 0 := by
        rw [ofTotal]
        push_cast
        nlinarith
      have := (encoding.balanced.adjacent _ (Finset.mem_range.mpr located)).ge several
      omega
  · have absent : owner ∉ vector.uintUids := fun sent =>
      member (mem_positiveUids.mpr (encoding.pos_of_mem sent))
    -- a uid that is not sent has no weight, so its share is zero
    have nothing : n = 0 := by
      have zero : raw.getD owner 0 = 0 := by
        refine le_antisymm (not_lt.mp fun above => member (mem_positiveUids.mpr above)) ?_
        by_cases inside : owner < raw.length
        · rw [List.getD_eq_getElem _ _ inside]
          exact nonneg _ (List.getElem_mem inside)
        · rw [List.getD_eq_default _ _ (not_lt.mp inside)]
      rw [share, zero, zero_div, eq_comm, div_eq_zero_iff] at part
      simpa using part
    refine ⟨?_, fun positive => absurd nothing positive.ne'⟩
    have sameLength : vector.uintUids.length = vector.uintWeights.length := by
      rw [encoding.uids, encoding.weights, length_emitted]
    rw [List.idxOf_of_notMem absent, sameLength, List.getD_eq_default _ _ le_rfl, nothing]
    simp

end Encoding

/-! ### Planned vectors -/

/-- A vector with nonnegative entries whose owner's share is its burn rate. -/
structure BurnsRate (ownerUid burnBps size : ℕ) (weights : List ℚ) : Prop where
  length : weights.length = size
  nonneg : ∀ weight ∈ weights, 0 ≤ weight
  positive : 0 < weights.sum
  small : burnBps ≤ 10000
  owner : share weights ownerUid = burnBps / 10000

theorem sum_oneHot {size ownerUid : ℕ} (registered : ownerUid < size) :
    (oneHot size ownerUid).sum = 1 := by
  rw [sum_eq_sum_range_getD, length_oneHot]
  simp only [getD_oneHot registered]
  rw [Finset.sum_ite_eq' (Finset.range size) ownerUid fun _ => (1 : ℚ),
    if_pos (Finset.mem_range.mpr registered)]

theorem burnsRate_oneHot {size ownerUid : ℕ} (registered : ownerUid < size) :
    BurnsRate ownerUid fullBurnBps size (oneHot size ownerUid) where
  length := length_oneHot size ownerUid
  nonneg := by
    intro weight member
    obtain ⟨uid, -, rfl⟩ := List.mem_map.mp member
    split_ifs <;> norm_num
  positive := by
    rw [sum_oneHot registered]
    norm_num
  small := le_rfl
  owner := by
    rw [share, sum_oneHot registered, getD_oneHot registered, if_pos rfl]
    norm_num [fullBurnBps, burnBpsDenominator]

/-- An allotted vector burns its rate. -/
theorem Allots.burnsRate {ownerUid burnBps : ℕ} {earned weights : List ℚ}
    (allots : Allots ownerUid burnBps earned weights) (earnedNonneg : ∀ score ∈ earned, 0 ≤ score)
    (small : burnBps ≤ 10000) : BurnsRate ownerUid burnBps earned.length weights where
  length := allots.length
  nonneg := by
    intro weight member
    obtain ⟨uid, bound, rfl⟩ := List.mem_iff_getElem.mp member
    have rateNonneg : (0 : ℚ) ≤ burnBps / 10000 := by positivity
    have restNonneg : (0 : ℚ) ≤ 1 - burnBps / 10000 := by
      have : (burnBps : ℚ) ≤ 10000 := by exact_mod_cast small
      rw [sub_nonneg, div_le_one (by norm_num)]
      exact this
    have part : 0 ≤ share weights uid := by
      by_cases same : uid = ownerUid
      · rw [same, allots.owner]
        exact rateNonneg
      · rw [allots.others uid same]
        refine mul_nonneg restNonneg (div_nonneg ?_ allots.earnedPositive.le)
        rw [List.getD_eq_getElem _ _ (allots.length ▸ bound)]
        exact earnedNonneg _ (List.getElem_mem _)
    rw [share, List.getD_eq_getElem _ _ bound] at part
    by_contra negative
    exact absurd (div_neg_of_neg_of_pos (not_le.mp negative) allots.positive) (not_lt.mpr part)
  positive := allots.positive
  small := small
  owner := allots.owner

/-- Normalizing changes neither the shares nor which entries are positive. -/
theorem share_normalized {weights : List ℚ} (positive : 0 < weights.sum) (uid : ℕ) :
    share (weights.map (· / weights.sum)) uid = share weights uid ∧
      (weights.map (· / weights.sum)).getD uid 0 = share weights uid := by
  have unit : (weights.map (· / weights.sum)).sum = 1 := by
    rw [show (weights.map (· / weights.sum)) = weights.map (fun weight => weight * weights.sum⁻¹) from
      List.map_congr_left fun _ _ => div_eq_mul_inv _ _, List.sum_map_mul_right, List.map_id']
    exact mul_inv_cancel₀ positive.ne'
  have entry : (weights.map (· / weights.sum)).getD uid 0 = share weights uid := by
    rw [share, List.getD_eq_getElem?_getD, List.getElem?_map, List.getD_eq_getElem?_getD]
    cases weights[uid]? <;> simp
  exact ⟨by rw [share, unit, div_one, entry], entry⟩

/-- What the encoder sends for a vector that burns its rate. -/
structure Sent (ownerUid burnBps size : ℕ) (weights : List ℚ) (vector : ChainWeightVector) :
    Prop where
  filled : vector.uintWeights ≠ []
  lengths : vector.uintUids.length = vector.uintWeights.length
  nodup : vector.uintUids.Nodup
  positive : ∀ uid ∈ vector.uintUids, uid < size ∧ 0 < weights.getD uid 0
  bounds : ∀ weight ∈ vector.uintWeights, 0 < weight ∧ weight ≤ u16Max
  top : u16Max ∈ vector.uintWeights
  owner : 0 < burnBps → ownerUid ∈ vector.uintUids
  deviation : 2 * |10000 * vector.uintWeights.getD (vector.uintUids.idxOf ownerUid) 0 -
    burnBps * vector.uintWeights.sum| ≤ 10000 * ((size : ℤ) + 1)

/-- A vector that burns its rate passes the candidate step and the encoder. -/
theorem BurnsRate.sent {ownerUid burnBps size : ℕ} {weights : List ℚ} {groups : List (List ℕ)}
    (burns : BurnsRate ownerUid burnBps size weights) (disjoint : groups.flatten.Nodup)
    (alone : ownerUid ∉ groups.flatten) :
    ∃ raw vector, emissionCandidate weights = some raw ∧
      chainWeightVector raw (List.range size) size 1 1 groups = .ok vector ∧
      Sent ownerUid burnBps size weights vector := by
  have normalized := share_normalized burns.positive
  set raw := weights.map (· / weights.sum) with hraw
  have rawNonneg : ∀ weight ∈ raw, 0 ≤ weight := by
    intro weight member
    obtain ⟨own, listed, rfl⟩ := List.mem_map.mp member
    exact div_nonneg (burns.nonneg own listed) burns.positive.le
  have rawLength : raw.length = size := by
    rw [hraw, List.length_map, burns.length]
  have pos_iff (uid : ℕ) : 0 < raw.getD uid 0 → 0 < weights.getD uid 0 := by
    rw [(normalized uid).2, share]
    exact fun above => (div_pos_iff_of_pos_right burns.positive).mp above
  -- a positive total has a positive entry, so the encoder keeps one
  have some_positive : positiveUids raw ≠ [] := by
    obtain ⟨uid, inside, above⟩ := Finset.exists_lt_of_sum_lt (s := Finset.range weights.length)
      (f := fun _ => (0 : ℚ)) (g := fun uid => weights.getD uid 0) (by
        rw [← sum_eq_sum_range_getD]
        simpa using burns.positive)
    refine List.ne_nil_of_mem (a := uid) (mem_positiveUids.mpr ?_)
    rw [(normalized uid).2]
    exact div_pos above burns.positive
  obtain ⟨vector, scaled, units, encoded, encoding⟩ := chainWeightVector_one some_positive disjoint
  rw [rawLength] at encoded
  obtain ⟨deviation, owner⟩ := encoding.share_sent rawNonneg alone burns.small
    ((normalized ownerUid).1.trans burns.owner)
  refine ⟨raw, vector, emissionCandidate_of_nonneg burns.nonneg burns.positive, encoded, ?_, ?_,
    encoding.uids_nodup, ?_, fun weight => encoding.weight_bounds, encoding.top_mem, owner, ?_⟩
  · exact List.ne_nil_of_mem encoding.top_mem
  · rw [encoding.uids, encoding.weights, length_emitted]
  · intro uid member
    have above := pos_iff uid (encoding.pos_of_mem member)
    refine ⟨?_, above⟩
    by_contra beyond
    rw [List.getD_eq_default _ _ (burns.length ▸ not_lt.mp beyond)] at above
    exact lt_irrefl _ above
  -- the error grows with the entries kept, which are no more than the UIDs
  · have few : (positiveUids raw).length ≤ size := by
      rw [← rawLength, ← List.length_range (n := raw.length)]
      exact List.length_filter_le _ _
    refine deviation.trans ?_
    have : ((positiveUids raw).length : ℤ) ≤ size := by exact_mod_cast few
    omega

/-- A vector with everything on the owner is sent as the owner's largest u16. -/
theorem Sent.oneHot {ownerUid size : ℕ} {vector : ChainWeightVector} (registered : ownerUid < size)
    (sent : Sent ownerUid fullBurnBps size (oneHot size ownerUid) vector) :
    vector.uintUids = [ownerUid] ∧ vector.uintWeights = [u16Max] := by
  have only : ∀ uid ∈ vector.uintUids, uid = ownerUid := by
    intro uid member
    by_contra other
    have above := (sent.positive uid member).2
    rw [getD_oneHot registered, if_neg other] at above
    exact lt_irrefl _ above
  have uids : vector.uintUids = [ownerUid] := by
    have owner := sent.owner (by decide)
    have nodup := sent.nodup
    -- no UID is sent twice, so the owner is the only entry
    cases shape : vector.uintUids with
    | nil => simp [shape] at owner
    | cons first rest =>
      rw [shape] at only nodup
      obtain rfl := only first List.mem_cons_self
      cases rest with
      | nil => rfl
      | cons second rest =>
        obtain rfl := only second (List.mem_cons_of_mem _ List.mem_cons_self)
        simp at nodup
  have one := sent.lengths
  rw [uids, List.length_singleton] at one
  obtain ⟨weight, single⟩ := List.length_eq_one_iff.mp one.symm
  have top := sent.top
  rw [single, List.mem_singleton] at top
  exact ⟨uids, by rw [single, top]⟩

section Plan

variable {mode : EmissionMode} {network : OwnerVoteNetwork} {snapshot : ChainSnapshot}
  {chainIdentity : String} {netuid block validatorUid : ℤ} {validatorHotkey : Hotkey}
  {scores : List ℚ} {ownerCommitment : Option OwnerCommitment} {pools : List (List Hotkey)}
  {plan : EmissionPlan}

/-- A planned rate is the committed one when another UID has a payable score in a
scored plan, and the full burn otherwise. -/
theorem burnBps_of_commitment {localHotkeys : List Hotkey} {vote : NetworkPlan} {ownerUid n : ℕ}
    {commitment : OwnerCommitment} {published : String} (nonneg : ∀ score ∈ scores, 0 ≤ score)
    (planned : planNetwork mode network snapshot chainIdentity netuid localHotkeys scores
      (some commitment) = .ok vote)
    (resolved : localOwnerUid network chainIdentity netuid snapshot localHotkeys = .ok ownerUid)
    (text : commitmentText commitment.record = some published)
    (valid : burnCommitmentText n = .ok published) :
    ((mode = .scored ∧ ∃ uid, 0 < payable snapshot ownerUid scores uid) → vote.burnBps = n) ∧
      (¬ (mode = .scored ∧ ∃ uid, 0 < payable snapshot ownerUid scores uid) →
        vote.burnBps = fullBurnBps) := by
  obtain ⟨resolver, rate, resolved', ofMode, ofRate, vector, -, -⟩ := planNetwork_eq_ok planned
  obtain rfl : resolver = ownerUid := Except.ok.inj (resolved'.symm.trans resolved)
  have ownerZero : (earnedScores scores vote.withheld).getD resolver 0 = 0 := by
    rw [getD_earnedScores, if_pos (mem_modeWithheld ofMode)]
  obtain ⟨bounded, instructed⟩ := plannedRate_eq_ok ofRate
  have cases := voteNetworkWeights_eq_ok (earnedScores_nonneg nonneg vote.withheld) ownerZero
    bounded vector
  constructor
  · rintro ⟨scored, uid, earns⟩
    rw [modeWithheld, if_pos scored] at ofMode
    have entry := @getD_earnedScores_eq_payable _ _ _ scores ofMode uid
    have inside : uid < (earnedScores scores vote.withheld).length := by
      rw [length_earnedScores]
      exact (lt_of_payable_pos earns).1
    rw [List.getD_eq_getElem _ _ inside] at entry
    -- another UID earns, so the vote does not fall back to the full burn for want of scores
    have found : (earnedScores scores vote.withheld).any (0 < ·) = true :=
      List.any_eq_true.mpr ⟨_, List.getElem_mem inside, by simpa [entry] using earns⟩
    have rateIs : rate = n := by
      simp only [plannedRate, scored, found, decide_true, Bool.and_true, Option.isSome_some,
        and_self, if_true, observedBurnRate, bind_eq_ok, require_eq_ok, pure, Except.pure,
        Except.ok.injEq, text, parseBurnRate_burnCommitmentText valid] at ofRate
      obtain ⟨_, -, _, -, same⟩ := ofRate
      exact same.symm
    cases cases with
    | inl shared => exact shared.2.1.trans rateIs
    | inr alone =>
      have full : rate = fullBurnBps := by
        by_contra less
        rw [alone.1 (lt_of_le_of_ne bounded less)] at found
        exact Bool.false_ne_true found
      rw [alone.2.1, ← full, rateIs]
  · intro idle
    cases cases with
    | inr alone => exact alone.2.1
    | inl shared =>
      -- a rate below the full burn is only taken in a scored plan with something earned
      obtain ⟨scored, -⟩ := instructed shared.1
      rw [Bool.and_eq_true, decide_eq_true_eq] at scored
      obtain ⟨scored, found⟩ := scored
      rw [modeWithheld, if_pos scored] at ofMode
      obtain ⟨score, member, above⟩ := List.any_eq_true.mp found
      obtain ⟨uid, inside, rfl⟩ := List.mem_iff_getElem.mp member
      refine absurd ⟨scored, uid, ?_⟩ idle
      rw [← getD_earnedScores_eq_payable ofMode, List.getD_eq_getElem _ _ inside]
      simpa using above

/-- A shared vote pays no withheld UID, the owner its burn apart. -/
theorem SharedVote.not_earningWithheld {ownerUid : ℕ} {vote : NetworkPlan}
    {recipient : OwnerVoteRecipient}
    (shared : SharedVote mode snapshot ownerUid scores ownerCommitment vote)
    (sameUid : recipient.uid = ownerUid) (sameBurn : recipient.burnBps = vote.burnBps)
    (sameWithheld : recipient.withheld = vote.withheld) (nonneg : ∀ score ∈ scores, 0 ≤ score)
    {uid : ℕ} (positive : 0 < vote.weights.getD uid 0) : uid ∉ earningWithheld recipient := by
  intro withheld
  rw [earningWithheld, sameUid, sameBurn, sameWithheld] at withheld
  by_cases owner : uid = ownerUid
  · -- The owner's own entry is positive only where it has a burn.
    subst owner
    split_ifs at withheld with free
    · have nothing := shared.allots.owner
      rw [free, Nat.cast_zero, zero_div, share, div_eq_zero_iff] at nothing
      cases nothing with
      | inl zero => exact positive.ne' zero
      | inr zero => exact shared.allots.positive.ne' zero
    · exact (Finset.mem_sdiff.mp withheld).2 (Finset.mem_singleton_self _)
  · have earns := lt_of_payable_pos (shared.payable_pos nonneg owner positive)
    have held : uid ∈ vote.withheld := by
      split_ifs at withheld
      · exact withheld
      · exact (Finset.mem_sdiff.mp withheld).1
    cases ((chainWithheldUids_eq_ok shared.withheld).2 uid).mp held with
    | inl same => exact owner same
    | inr under =>
      rw [earns.2.2.2] at under
      exact Bool.false_ne_true under

/-- The share check accepts what is sent for a vector that burns its rate. -/
theorem Sent.recheckOwnerBurnShare {recipient : OwnerVoteRecipient} {hotkeys : List Hotkey}
    {weights : List ℚ} {vector : ChainWeightVector}
    (sent : Sent recipient.uid recipient.burnBps hotkeys.length weights vector) :
    recheckOwnerBurnShare recipient hotkeys vector.uintUids vector.uintWeights = .ok () := by
  simp only [Scoring.recheckOwnerBurnShare, bind_eq_ok, require_eq_ok]
  refine ⟨(), ⟨sent.filled, sent.lengths, sent.nodup, sent.owner,
    fun uid member => (sent.positive uid member).1, sent.bounds, sent.top⟩, ?_⟩
  split_ifs
  · rw [require_eq_ok]
    exact sent.deviation
  · rfl

/-- The planner, the encoder and the recheck agree: a plan that carries a vector is
encoded without failure under chain limits of one, the recheck accepts the result,
and the owner's u16 share is the plan's burn rate up to rounding. That rate is the
committed one as soon as a UID that is not withheld scores. -/
theorem planned_vector_accepted
    (sized : scores.length = snapshot.hotkeys.length) (nonneg : ∀ score ∈ scores, 0 ≤ score)
    (disjoint : pools.flatten.Nodup)
    (planned : planEmission mode (some network) (some snapshot) block chainIdentity netuid
      validatorUid validatorHotkey snapshot.hotkeys scores ownerCommitment pools = .ok plan)
    (carries : plan.weights ≠ []) :
    ∃ recipient raw vector, plan.recipient = some recipient ∧
      plan.burnBps = some recipient.burnBps ∧
      snapshot.hotkeys[recipient.uid]? = snapshot.ownerHotkey ∧
      (∀ commitment n published, ownerCommitment = some commitment →
        commitmentText commitment.record = some published →
        burnCommitmentText n = .ok published →
        ((mode = .scored ∧ ∃ uid, 0 < payable snapshot recipient.uid scores uid) →
          recipient.burnBps = n) ∧
        (¬ (mode = .scored ∧ ∃ uid, 0 < payable snapshot recipient.uid scores uid) →
          recipient.burnBps = 10000)) ∧
      emissionCandidate plan.weights = some raw ∧
      chainWeightVector raw (List.range snapshot.hotkeys.length) snapshot.hotkeys.length 1 1
        plan.groups = .ok vector ∧
      recheckOwnerVote recipient chainIdentity netuid snapshot.hotkeys vector.uintUids
        vector.uintWeights (some 1) (some 1) = .ok () ∧
      2 * |10000 * vector.uintWeights.getD (vector.uintUids.idxOf recipient.uid) 0 -
          recipient.burnBps * vector.uintWeights.sum| ≤
        10000 * ((snapshot.hotkeys.length : ℤ) + 1) ∧
      (0 < recipient.burnBps → recipient.uid ∈ vector.uintUids) ∧
      (∀ uid ∈ vector.uintUids, uid ≠ recipient.uid → underOwnerColdkey snapshot uid = false) ∧
      (recipient.burnBps = 10000 →
        vector.uintUids = [recipient.uid] ∧ vector.uintWeights = [65535]) := by
  obtain ⟨snapshot, vote, same, -, agree, voted, result⟩ := planEmission_eq_ok planned
  cases same
  cases waiting : vote.needsCommitment with
  -- a plan that waits for the commitment carries no weight
  | true =>
    simp only [waiting, if_true] at result
    exact absurd result.1 carries
  | false =>
    simp only [waiting, Bool.false_eq_true, if_false] at result
    obtain ⟨weightsIs, recipientIs, burnIs, -, groupsIs⟩ := result
    obtain ⟨ownerUid, resolved, vector⟩ := planNetwork_cases nonneg voted
    obtain ⟨resolver, -, resolved', ofMode, -, -, recipient, -⟩ := planNetwork_eq_ok voted
    obtain rfl : resolver = ownerUid := Except.ok.inj (resolved'.symm.trans resolved)
    obtain ⟨onChain, registered, local'⟩ := localOwnerUid_eq_ok.mp resolved
    have isOwner : some (snapshot.hotkeys.getD resolver "") = snapshot.ownerHotkey := by
      rw [← local', List.getD_eq_getElem _ _ registered, List.getElem?_eq_getElem registered]
    obtain ⟨distinct, earning⟩ := poolUids_flatten disjoint snapshot.hotkeys vote.withheld
    -- the owner's uid is withheld from the pools in every mode
    have alone : resolver ∉ plan.groups.flatten := fun grouped =>
      earning resolver (groupsIs ▸ grouped) (mem_modeWithheld ofMode)
    -- the owner has it all, or its commitment and the scores share it
    have burns : BurnsRate resolver vote.burnBps snapshot.hotkeys.length vote.weights := by
      cases vector with
      | inr single => exact single.1 ▸ single.2.2 ▸ burnsRate_oneHot single.2.1
      | inl shared =>
        obtain ⟨_, -, instructs⟩ := shared.instructed
        have := shared.allots.burnsRate (earnedScores_nonneg nonneg vote.withheld)
          instructs.below.le
        rwa [length_earnedScores, sized] at this
    -- the encoder needs the rate only, whichever plan it comes from
    obtain ⟨raw, encoded, candidate, chain, sent⟩ := burns.sent (groupsIs ▸ distinct) alone
    have accepts : recheckOwnerVote vote.recipient chainIdentity netuid snapshot.hotkeys
        encoded.uintUids encoded.uintWeights (some 1) (some 1) = .ok () := by
      rw [recipient]
      simp only [recheckOwnerVote, bind_eq_ok, require_eq_ok, isOwner]
      refine ⟨resolver, onChain, (), rfl, (), by simp, ?_⟩
      cases vector with
      | inr single =>
        rw [if_neg (not_not.mpr single.1), require_eq_ok]
        rw [single.1, single.2.2] at sent
        exact sent.oneHot registered
      | inl shared =>
        obtain ⟨_, -, instructs⟩ := shared.instructed
        have partly : vote.burnBps ≠ fullBurnBps := instructs.below.ne
        rw [if_pos partly, bind_eq_ok]
        refine ⟨(), Sent.recheckOwnerBurnShare sent, ?_⟩
        rw [require_eq_ok]
        exact fun uid member => shared.not_earningWithheld rfl rfl rfl nonneg
          (sent.positive uid member).2
    have recipientUid : vote.recipient.uid = resolver := by rw [recipient]
    have recipientBurn : vote.recipient.burnBps = vote.burnBps := by rw [recipient]
    rw [weightsIs, recipientIs, burnIs]
    refine ⟨vote.recipient, raw, encoded, rfl, by rw [recipientBurn], ?_, ?_, candidate, chain,
      accepts, ?_, ?_, ?_, ?_⟩
    · rw [recipientUid, local']
    · intro commitment n published read text valid
      rw [recipientUid, recipientBurn]
      rw [read] at voted
      exact burnBps_of_commitment nonneg voted resolved text valid
    · rw [recipientUid, recipientBurn]
      exact sent.deviation
    · rw [recipientUid, recipientBurn]
      exact sent.owner
    · intro uid member other
      rw [recipientUid] at other
      have positive := (sent.positive uid member).2
      cases vector with
      | inr single =>
        rw [single.2.2, getD_oneHot registered, if_neg other] at positive
        exact absurd positive (lt_irrefl _)
      | inl shared =>
        exact (lt_of_payable_pos (shared.payable_pos nonneg other positive)).2.2.2
    · intro full
      rw [recipientBurn] at full
      rw [recipientUid]
      cases vector with
      | inr single =>
        rw [single.1, single.2.2] at sent
        exact sent.oneHot registered
      | inl shared =>
        obtain ⟨_, -, instructs⟩ := shared.instructed
        exact absurd full instructs.below.ne

end Plan

/-- The quarter-burn plan is encoded and accepted. -/
theorem quarterPlan_accepted :
    ∃ recipient raw vector, quarterPlan.recipient = some recipient ∧
      emissionCandidate quarterPlan.weights = some raw ∧
      chainWeightVector raw (List.range 3) 3 1 1 quarterPlan.groups = .ok vector ∧
      recheckOwnerVote recipient "0xab" 7 voteSnapshot.hotkeys vector.uintUids
        vector.uintWeights (some 1) (some 1) = .ok () := by
  obtain ⟨recipient, raw, vector, known, -, -, -, candidate, encoded, accepted, -⟩ :=
    planned_vector_accepted (by decide) (by decide +kernel) (by decide)
      voteOn_quarterBurn (by decide)
  exact ⟨recipient, raw, vector, known, candidate, encoded, accepted⟩

/-- The owner's commitment to burn nothing. -/
def zeroBurn : OwnerCommitment where
  hotkey := "owner"
  block := 900
  record := .dict [(.str "info", .dict [(.str "fields", .list
    [.dict [(.str "Raw17", .str "0x656e647572652e6275726e5f6270733d30")]])])]

/-- Where only the owner's alias scores, the whole vote burns although the owner
committed to burn nothing. -/
theorem full_burn_despite_zeroBurn :
    commitmentText zeroBurn.record = some "endure.burn_bps=0" ∧
    burnCommitmentText 0 = .ok "endure.burn_bps=0" ∧
    ∃ plan raw vector,
      planEmission .scored (some .testnet) (some voteSnapshot) 900 "0xab" 7 1 "miner"
        voteSnapshot.hotkeys [0, 0, 1] (some zeroBurn) [] = .ok plan ∧
      plan.due = true ∧ emissionCandidate plan.weights = some raw ∧
      chainWeightVector raw (List.range 3) 3 1 1 plan.groups = .ok vector ∧
      ¬ 2 * |10000 * vector.uintWeights.getD (vector.uintUids.idxOf 0) 0 -
          (0 : ℤ) * vector.uintWeights.sum| ≤ 10000 * ((voteSnapshot.hotkeys.length : ℤ) + 1) := by
  refine ⟨by decide +kernel, by decide +kernel, ⟨true, true, 201, [1, 0, 0],
    some ⟨.testnet, "owner", 0, 10000, some "cold", {0, 2}⟩, some 10000, none, []⟩, [1, 0, 0],
    ⟨[0], [1], [0], [65535]⟩, ?_, rfl, ?_, ?_, ?_⟩
  · decide +kernel
  · decide +kernel
  · decide +kernel
  · decide +kernel

end Endure.Scoring
