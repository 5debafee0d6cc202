import Endure.Scoring.Copying

/-!
# What levelling leaves to every hotkey and every operator

A pool keeps one common cut below its sharpened scores and weighs what its best
member would weigh if the others did not exist. Over pools held fixed, an operator
that raises scores of its own hotkeys never loses share, even where a hotkey
overtakes its pool's best member and moves the pool's weight and the normalizer.
-/

namespace Endure.Scoring

open Library Library.Levelling

/-- The scores without a pool's members other than one. -/
def withoutRivals (scores : Dict Hotkey ℚ) (pool : List Hotkey) (member : Hotkey) : Dict Hotkey ℚ :=
  scores.filter fun key _ => key ∉ pool ∨ key = member

variable {scores scores' : Dict Hotkey ℚ} {gamma : ℕ} {pools : List (List Hotkey)}
  {pool : List Hotkey}

theorem sharpened_eq (sharp : 1 ≤ gamma) (scores : Dict Hotkey ℚ) (key : Hotkey) :
    sharpened scores gamma key = scores.getD key 0 ^ gamma := by
  rw [sharpened, Dict.getD, Dict.getD, Dict.get?_map]
  cases scores.get? key with
  | some score => rfl
  | none =>
    rw [Option.map_none, Option.getD_none, zero_pow (by omega)]

theorem getD_nonneg (nonneg : ∀ score ∈ scores.values, 0 ≤ score) (key : Hotkey) :
    0 ≤ scores.getD key 0 := by
  rw [Dict.getD]
  cases found : scores.get? key with
  | none => exact le_rfl
  | some score =>
    exact nonneg score (List.mem_map.mpr ⟨_, Dict.get?_eq_some_iff.mp found, rfl⟩)

/-! ### One pool -/

/-- A pool's members together keep its largest sharpened score. -/
theorem sum_pool (gamma : ℕ) (nonneg : ∀ score ∈ scores.values, 0 ≤ score)
    (disjoint : pools.Pairwise List.Disjoint) (listed : pool ∈ pools) :
    ∑ key ∈ pool.toFinset, (sharpenedScores scores gamma pools).getD key 0 =
      best pool.toFinset (sharpened scores gamma) := by
  rw [← (levels_sharpenedLevel nonneg gamma pool).total]
  refine Finset.sum_congr rfl fun key member => ?_
  exact getD_sharpenedScores_of_mem nonneg gamma disjoint listed (List.mem_toFinset.mp member)

/-- The best member's sharpened score is the pool's largest. -/
theorem best_eq_sharpened (nonneg : ∀ score ∈ scores.values, 0 ≤ score) (sharp : 1 ≤ gamma)
    {member : Hotkey} (pooled : member ∈ pool)
    (leads : ∀ other ∈ pool, scores.getD other 0 ≤ scores.getD member 0) :
    best pool.toFinset (sharpened scores gamma) = sharpened scores gamma member := by
  apply le_antisymm
  · refine best_le (sharpened_nonneg nonneg gamma member) fun other inside => ?_
    rw [sharpened_eq sharp, sharpened_eq sharp]
    exact pow_le_pow_left₀ (getD_nonneg nonneg other) (leads other (List.mem_toFinset.mp inside)) _
  · exact le_best (List.mem_toFinset.mpr pooled)

/-- The levelling loop finds the one cut that leaves nonnegative members their largest
amount. -/
theorem levelToBest_spec {members : Dict Hotkey ℚ} (nonneg : ∀ value ∈ members.values, 0 ≤ value) :
    ∃ cut, 0 ≤ cut ∧
      (∀ key, (levelToBest members).get? key = (members.get? key).map fun value =>
        max (value - cut) 0) ∧
      ∑ key ∈ members.keys.toFinset, (levelToBest members).getD key 0 =
        best members.keys.toFinset (fun key => members.getD key 0) ∧
      ∀ other, 0 ≤ other → 0 < best members.keys.toFinset (fun key => members.getD key 0) →
        ∑ key ∈ members.keys.toFinset, max (members.getD key 0 - other) 0 =
          best members.keys.toFinset (fun key => members.getD key 0) → other = cut := by
  have values := members.values_eq_map_keys 0
  obtain ⟨low, sum⟩ := levelOf_spec members.values nonneg
  have levels : Levels members.keys.toFinset (fun key => members.getD key 0)
      (levelOf members.values) := by
    refine ⟨low, ?_⟩
    rw [values, List.map_map, ← values] at sum
    rw [List.sum_toFinset _ members.keys_nodup, best_toFinset, ← values]
    exact sum
  have lookup : ∀ key, (levelToBest members).get? key = (members.get? key).map fun value =>
      max (value - levelOf members.values) 0 := fun key => by
    rw [levelToBest, Dict.get?_map]
  refine ⟨levelOf members.values, low, lookup, ?_, fun other otherLow positive balanced => ?_⟩
  · rw [← levels.total]
    refine Finset.sum_congr rfl fun key member => ?_
    obtain ⟨value, found⟩ := Dict.mem_keys_iff.mp (List.mem_toFinset.mp member)
    rw [Dict.getD, lookup, Dict.getD, found]
    rfl
  · have other_levels : Levels members.keys.toFinset (fun key => members.getD key 0) other :=
      ⟨otherLow, balanced⟩
    exact other_levels.unique levels positive

/-! ### Without a pool's other members -/

theorem get?_withoutRivals (scores : Dict Hotkey ℚ) (pool : List Hotkey) (member key : Hotkey) :
    (withoutRivals scores pool member).get? key =
      if key ∉ pool ∨ key = member then scores.get? key else none := by
  rw [withoutRivals, Dict.get?_filter]
  by_cases stays : key ∉ pool ∨ key = member
  · rw [if_pos stays]
    cases scores.get? key with
    | none => rfl
    | some score => rw [Option.filter_some, if_pos (by simpa using stays)]
  · rw [if_neg stays]
    cases scores.get? key with
    | none => rfl
    | some score => rw [Option.filter_some, if_neg (by simpa using stays)]

theorem sharpened_withoutRivals (scores : Dict Hotkey ℚ) (gamma : ℕ) (pool : List Hotkey)
    (member key : Hotkey) : sharpened (withoutRivals scores pool member) gamma key =
      if key ∉ pool ∨ key = member then sharpened scores gamma key else 0 := by
  rw [sharpened, sharpened, Dict.getD, Dict.getD, Dict.get?_map, Dict.get?_map, get?_withoutRivals]
  split_ifs <;> rfl

theorem withoutRivals_nonneg (nonneg : ∀ score ∈ scores.values, 0 ≤ score) (pool : List Hotkey)
    (member : Hotkey) : ∀ score ∈ (withoutRivals scores pool member).values, 0 ≤ score := by
  intro score inside
  obtain ⟨key, found, -⟩ := Dict.mem_values_filter.mp inside
  exact nonneg score (List.mem_map.mpr ⟨_, Dict.get?_eq_some_iff.mp found, rfl⟩)

/-- Hotkeys outside the pool keep their sharpened scores. -/
theorem getD_sharpenedScores_withoutRivals (nonneg : ∀ score ∈ scores.values, 0 ≤ score)
    (disjoint : pools.Pairwise List.Disjoint) (listed : pool ∈ pools) (member : Hotkey)
    {key : Hotkey} (outside : key ∉ pool) :
    (sharpenedScores (withoutRivals scores pool member) gamma pools).getD key 0 =
      (sharpenedScores scores gamma pools).getD key 0 := by
  have own : sharpened (withoutRivals scores pool member) gamma key = sharpened scores gamma key := by
    rw [sharpened_withoutRivals, if_pos (Or.inl outside)]
  by_cases pooled : ∃ other ∈ pools, key ∈ other
  · obtain ⟨other, otherListed, inside⟩ := pooled
    have symmetric : Std.Symm fun first second : List Hotkey => first.Disjoint second :=
      ⟨fun _ _ separate => separate.symm⟩
    have apart : other.Disjoint pool := by
      apply disjoint.forall otherListed listed
      intro same
      exact outside (same ▸ inside)
    -- The other pool's members are all there, so its level is the same.
    have level : sharpenedLevel (withoutRivals scores pool member) gamma other =
        sharpenedLevel scores gamma other := by
      refine poolLevel_congr fun mate inOther => ?_
      rw [Dict.get?_map, Dict.get?_map, get?_withoutRivals,
        if_pos (Or.inl fun shared => apart inOther shared)]
    rw [getD_sharpenedScores_of_mem (withoutRivals_nonneg nonneg pool member) gamma disjoint
        otherListed inside, getD_sharpenedScores_of_mem nonneg gamma disjoint otherListed inside,
      level, own]
  · push Not at pooled
    rw [getD_sharpenedScores_of_notMem _ _ pooled, getD_sharpenedScores_of_notMem _ _ pooled, own]

/-- Alone in its pool, a member keeps its whole sharpened score. -/
theorem getD_sharpenedScores_alone (gamma : ℕ) (nonneg : ∀ score ∈ scores.values, 0 ≤ score)
    (disjoint : pools.Pairwise List.Disjoint) (listed : pool ∈ pools) {member : Hotkey}
    (pooled : member ∈ pool) :
    (sharpenedScores (withoutRivals scores pool member) gamma pools).getD member 0 =
        sharpened scores gamma member ∧
      ∑ key ∈ pool.toFinset,
          (sharpenedScores (withoutRivals scores pool member) gamma pools).getD key 0 =
        sharpened scores gamma member := by
  have nonneg' := withoutRivals_nonneg nonneg pool member
  -- without its rivals the member is the only one of the pool with a score
  have amounts : ∀ key ∈ pool, key ≠ member →
      sharpened (withoutRivals scores pool member) gamma key = 0 := by
    intro key inside other
    rw [sharpened_withoutRivals, if_neg (by tauto)]
  have own : sharpened (withoutRivals scores pool member) gamma member =
      sharpened scores gamma member := by
    rw [sharpened_withoutRivals, if_pos (Or.inr rfl)]
  have largest : best pool.toFinset (sharpened (withoutRivals scores pool member) gamma) =
      sharpened scores gamma member := by
    apply le_antisymm
    · refine best_le (sharpened_nonneg nonneg gamma member) fun key inside => ?_
      by_cases same : key = member
      · rw [same, own]
      · rw [amounts key (List.mem_toFinset.mp inside) same]
        exact sharpened_nonneg nonneg gamma member
    · rw [← own]
      exact le_best (List.mem_toFinset.mpr pooled)
  have whole := sum_pool gamma nonneg' disjoint listed
  rw [largest] at whole
  refine ⟨?_, whole⟩
  rw [← whole]
  symm
  apply Finset.sum_eq_single_of_mem member (List.mem_toFinset.mpr pooled)
  intro key inside other
  rw [getD_sharpenedScores_of_mem nonneg' gamma disjoint listed (List.mem_toFinset.mp inside),
    amounts key (List.mem_toFinset.mp inside) other]
  exact kept_of_le (levels_sharpenedLevel nonneg' gamma pool).nonneg

/-- A pool weighs what its best member would if the others did not exist. -/
theorem shareOf_pool (nonneg : ∀ score ∈ scores.values, 0 ≤ score) (sharp : 1 ≤ gamma)
    (disjoint : pools.Pairwise List.Disjoint) (listed : pool ∈ pools) {member : Hotkey}
    (pooled : member ∈ pool)
    (leads : ∀ other ∈ pool, scores.getD other 0 ≤ scores.getD member 0) :
    shareOf (normalizeWeights scores gamma pools) pool.toFinset =
      (normalizeWeights (withoutRivals scores pool member) gamma pools).getD member 0 := by
  obtain ⟨alone, poolAlone⟩ :=
    getD_sharpenedScores_alone gamma nonneg disjoint listed pooled
  have whole := sum_pool gamma nonneg disjoint listed
  rw [best_eq_sharpened nonneg sharp pooled leads] at whole
  -- The totals agree inside the pool and outside it.
  let everyone := scores.keys.toFinset ∪ pool.toFinset
  have remaining : (withoutRivals scores pool member).keys.toFinset ⊆ everyone := by
    intro key inside
    obtain ⟨score, found⟩ := Dict.mem_keys_iff.mp (List.mem_toFinset.mp inside)
    rw [get?_withoutRivals] at found
    split_ifs at found
    exact Finset.mem_union_left _ (List.mem_toFinset.mpr (Dict.mem_keys_iff.mpr ⟨score, found⟩))
  have total := totalWeight_eq_sum_of_subset scores gamma pools
    (Finset.subset_union_left : _ ⊆ everyone)
  have total' := totalWeight_eq_sum_of_subset (withoutRivals scores pool member) gamma pools remaining
  have inside : everyone.filter (· ∈ pool) = pool.toFinset := by
    ext key
    simp only [everyone, Finset.mem_filter, Finset.mem_union, List.mem_toFinset]
    tauto
  have same : totalWeight (sharpenedScores (withoutRivals scores pool member) gamma pools) =
      totalWeight (sharpenedScores scores gamma pools) := by
    rw [total, total', ← Finset.sum_filter_add_sum_filter_not everyone (· ∈ pool),
      ← Finset.sum_filter_add_sum_filter_not everyone (· ∈ pool), inside, whole, poolAlone]
    congr 1
    refine Finset.sum_congr rfl fun key member' => ?_
    exact getD_sharpenedScores_withoutRivals nonneg disjoint listed member
      (Finset.mem_filter.mp member').2
  rw [shareOf_normalizeWeights, whole, getD_normalizeWeights, alone, same]

/-! ### The whole vector -/

/-- A positive score leaves a positive total. -/
theorem totalWeight_pos (nonneg : ∀ score ∈ scores.values, 0 ≤ score) (sharp : 1 ≤ gamma)
    (disjoint : pools.Pairwise List.Disjoint) (scored : ∃ score ∈ scores.values, score ≠ 0) :
    0 < totalWeight (sharpenedScores scores gamma pools) := by
  obtain ⟨score, member, nonzero⟩ := scored
  obtain ⟨⟨key, value⟩, entry, rfl⟩ := List.mem_map.mp member
  have found : scores.get? key = some value := Dict.get?_eq_some_iff.mpr entry
  have own : 0 < sharpened scores gamma key := by
    rw [sharpened_eq sharp, Dict.getD, found]
    exact pow_pos (lt_of_le_of_ne (nonneg value member) (Ne.symm nonzero)) _
  have each := getD_sharpenedScores_nonneg nonneg gamma disjoint
  -- a pool keeps its best amount, and a hotkey outside every pool keeps its own
  by_cases pooled : ∃ pool ∈ pools, key ∈ pool
  · obtain ⟨pool, listed, inside⟩ := pooled
    rw [totalWeight_eq_sum_of_subset scores gamma pools
      (Finset.subset_union_left : _ ⊆ scores.keys.toFinset ∪ pool.toFinset)]
    calc 0 < sharpened scores gamma key := own
      _ ≤ best pool.toFinset (sharpened scores gamma) := le_best (List.mem_toFinset.mpr inside)
      _ = _ := (sum_pool gamma nonneg disjoint listed).symm
      _ ≤ _ := Finset.sum_le_sum_of_subset_of_nonneg Finset.subset_union_right
        fun other _ _ => each other
  · push Not at pooled
    rw [totalWeight_eq_sum_of_subset scores gamma pools (Finset.Subset.refl _)]
    have present : key ∈ scores.keys.toFinset :=
      List.mem_toFinset.mpr (Dict.mem_keys_iff.mpr ⟨value, found⟩)
    rw [← getD_sharpenedScores_of_notMem scores gamma pooled] at own
    exact own.trans_le (Finset.single_le_sum (fun other _ => each other) present)

/-- Weights over a positive total add up to one. -/
theorem sum_normalizeWeights (positive : 0 < totalWeight (sharpenedScores scores gamma pools)) :
    (normalizeWeights scores gamma pools).values.sum = 1 := by
  have keys : (normalizeWeights scores gamma pools).keys =
      (sharpenedScores scores gamma pools).keys := by
    rw [normalizeWeights]
    simp only [if_neg positive.ne', Dict.keys_map]
  rw [Dict.values_eq_map_keys _ 0, ← List.sum_toFinset _ (Dict.keys_nodup _), keys]
  rw [Finset.sum_congr rfl fun key _ => getD_normalizeWeights scores gamma pools key,
    ← Finset.sum_div, ← totalWeight_eq_sum, div_self positive.ne']

/-- Disjoint pools of nonnegative scores are levelled to their best members: in each, one
cut leaves the members the largest sharpened score, and no other hotkey is cut; the loop
finds the cut for any members; and a positive score makes the weights add up to one, each
pool weighing what its best member would without the others. -/
theorem levelling_spec (nonneg : ∀ score ∈ scores.values, 0 ≤ score) (sharp : 1 ≤ gamma)
    (disjoint : pools.Pairwise List.Disjoint) :
    (∀ pool ∈ pools, ∃ cut, 0 ≤ cut ∧
      (∀ key ∈ pool, key ∈ scores.keys → (sharpenedScores scores gamma pools).get? key =
        some (max (scores.getD key 0 ^ gamma - cut) 0)) ∧
      ∑ key ∈ pool.toFinset, (sharpenedScores scores gamma pools).getD key 0 =
        best pool.toFinset fun key => scores.getD key 0 ^ gamma) ∧
    (∀ members : Dict Hotkey ℚ, (∀ value ∈ members.values, 0 ≤ value) → ∃ cut, 0 ≤ cut ∧
      (∀ key, (levelToBest members).get? key = (members.get? key).map fun value =>
        max (value - cut) 0) ∧
      ∑ key ∈ members.keys.toFinset, (levelToBest members).getD key 0 =
        best members.keys.toFinset (fun key => members.getD key 0) ∧
      ∀ other, 0 ≤ other → 0 < best members.keys.toFinset (fun key => members.getD key 0) →
        ∑ key ∈ members.keys.toFinset, max (members.getD key 0 - other) 0 =
          best members.keys.toFinset (fun key => members.getD key 0) → other = cut) ∧
    (∀ key, (∀ pool ∈ pools, key ∉ pool) → (sharpenedScores scores gamma pools).get? key =
      (scores.get? key).map (· ^ gamma)) ∧
    (∀ key, (normalizeWeights scores gamma pools).getD key 0 =
      (sharpenedScores scores gamma pools).getD key 0 /
        totalWeight (sharpenedScores scores gamma pools)) ∧
    ((∃ score ∈ scores.values, score ≠ 0) →
      (normalizeWeights scores gamma pools).values.sum = 1 ∧
      ∀ pool ∈ pools, ∀ member ∈ pool,
        (∀ other ∈ pool, scores.getD other 0 ≤ scores.getD member 0) →
          shareOf (normalizeWeights scores gamma pools) pool.toFinset =
            (normalizeWeights (withoutRivals scores pool member) gamma pools).getD member 0) := by
  refine ⟨fun pool listed => ?_, fun members => levelToBest_spec, fun key unpooled => ?_,
    getD_normalizeWeights scores gamma pools, fun scored => ?_⟩
  -- the pools are disjoint, so each is levelled once
  · have levels := levels_sharpenedLevel nonneg gamma pool
    refine ⟨sharpenedLevel scores gamma pool, levels.nonneg, fun key inside present => ?_, ?_⟩
    · obtain ⟨score, found⟩ := Dict.mem_keys_iff.mp present
      rw [sharpenedScores, get?_foldl_levelPool_of_mem disjoint _ listed inside, Dict.get?_map,
        Dict.getD, found]
      rfl
    · rw [sum_pool gamma nonneg disjoint listed, funext (sharpened_eq sharp scores)]
  · rw [sharpenedScores, get?_foldl_levelPool_of_notMem _ unpooled, Dict.get?_map]
  · refine ⟨sum_normalizeWeights (totalWeight_pos nonneg sharp disjoint scored), ?_⟩
    intro pool listed member pooled leads
    exact shareOf_pool nonneg sharp disjoint listed pooled leads

/-- A pool of two beside a hotkey of its own. -/
def pairScores : Dict Hotkey ℚ := ⟨[("best", 1), ("weaker", 1 / 2), ("solo", 1)], by decide⟩

/-- The pool weighs as much as the hotkey outside it. -/
theorem levelling_spec_pair :
    (normalizeWeights pairScores 3 [["best", "weaker"]]).entries =
        [("best", 15 / 32), ("weaker", 1 / 32), ("solo", 1 / 2)] ∧
      shareOf (normalizeWeights pairScores 3 [["best", "weaker"]]) ["best", "weaker"].toFinset =
        (normalizeWeights (withoutRivals pairScores ["best", "weaker"] "best") 3
          [["best", "weaker"]]).getD "best" 0 :=
  ⟨by decide +kernel,
    ((levelling_spec (by decide +kernel) (by decide) (List.pairwise_singleton _ _)).2.2.2.2
      (by decide +kernel)).2 ["best", "weaker"] (by decide) "best" (by decide) (by decide +kernel)⟩

/-! ### Raised scores -/

/-- Raised scores of owned hotkeys keep every other hotkey at or below its amount. -/
theorem getD_sharpenedScores_le_of_raise (nonneg : ∀ score ∈ scores.values, 0 ≤ score)
    (nonneg' : ∀ score ∈ scores'.values, 0 ≤ score) (sharp : 1 ≤ gamma)
    (disjoint : pools.Pairwise List.Disjoint)
    (raised : ∀ key, scores.getD key 0 ≤ scores'.getD key 0) {key : Hotkey}
    (same : scores'.getD key 0 = scores.getD key 0) :
    (sharpenedScores scores' gamma pools).getD key 0 ≤
      (sharpenedScores scores gamma pools).getD key 0 := by
  have amount : sharpened scores' gamma key = sharpened scores gamma key := by
    rw [sharpened_eq sharp, sharpened_eq sharp, same]
  by_cases pooled : ∃ pool ∈ pools, key ∈ pool
  · obtain ⟨pool, listed, inside⟩ := pooled
    rw [getD_sharpenedScores_of_mem nonneg' gamma disjoint listed inside,
      getD_sharpenedScores_of_mem nonneg gamma disjoint listed inside]
    refine (levels_sharpenedLevel nonneg gamma pool).kept_le_of_raise
      (levels_sharpenedLevel nonneg' gamma pool) (fun other _ => ?_) (List.mem_toFinset.mpr inside)
      amount
    rw [sharpened_eq sharp, sharpened_eq sharp]
    exact pow_le_pow_left₀ (getD_nonneg nonneg other) (raised other) _
  · push Not at pooled
    rw [getD_sharpenedScores_of_notMem _ _ pooled, getD_sharpenedScores_of_notMem _ _ pooled, amount]

/-- Raised scores of owned hotkeys keep the owned amounts together at least as large. -/
theorem sum_sharpenedScores_le_of_raise (nonneg : ∀ score ∈ scores.values, 0 ≤ score)
    (nonneg' : ∀ score ∈ scores'.values, 0 ≤ score) (sharp : 1 ≤ gamma)
    (disjoint : pools.Pairwise List.Disjoint) (owned : Finset Hotkey)
    (raised : ∀ key, scores.getD key 0 ≤ scores'.getD key 0)
    (others : ∀ key ∉ owned, scores'.getD key 0 = scores.getD key 0) :
    ∑ key ∈ owned, (sharpenedScores scores gamma pools).getD key 0 ≤
      ∑ key ∈ owned, (sharpenedScores scores' gamma pools).getD key 0 := by
  have amounts : ∀ key, sharpened scores gamma key ≤ sharpened scores' gamma key := by
    intro key
    rw [sharpened_eq sharp, sharpened_eq sharp]
    exact pow_le_pow_left₀ (getD_nonneg nonneg key) (raised key) _
  refine sum_le_sum_of_pools disjoint owned (fun pool listed => ?_) fun key _ unpooled => ?_
  -- inside a pool the raise pays by the levelling, outside all of them by itself
  · have level := levels_sharpenedLevel nonneg gamma pool
    have level' := levels_sharpenedLevel nonneg' gamma pool
    have grows := level.sum_kept_le_of_raise owned level' (fun key _ => amounts key)
      fun key _ outside => by rw [sharpened_eq sharp, sharpened_eq sharp, others key outside]
    refine le_trans (le_of_eq ?_) (grows.trans (le_of_eq ?_))
    · refine Finset.sum_congr rfl fun key member => ?_
      have inside := List.mem_toFinset.mp (Finset.mem_filter.mp member).1
      exact getD_sharpenedScores_of_mem nonneg gamma disjoint listed inside
    · refine Finset.sum_congr rfl fun key member => ?_
      have inside := List.mem_toFinset.mp (Finset.mem_filter.mp member).1
      exact (getD_sharpenedScores_of_mem nonneg' gamma disjoint listed inside).symm
  · rw [getD_sharpenedScores_of_notMem _ _ unpooled, getD_sharpenedScores_of_notMem _ _ unpooled]
    exact amounts key

/-- An operator that raises scores of its own hotkeys never loses share, and a single
hotkey's share never falls when only its own score rises. -/
theorem better_score_never_costs (nonneg : ∀ score ∈ scores.values, 0 ≤ score)
    (nonneg' : ∀ score ∈ scores'.values, 0 ≤ score) (sharp : 1 ≤ gamma)
    (disjoint : pools.Pairwise List.Disjoint) (owned : Finset Hotkey)
    (raised : ∀ key ∈ owned, scores.getD key 0 ≤ scores'.getD key 0)
    (others : ∀ key ∉ owned, scores'.getD key 0 = scores.getD key 0) :
    shareOf (normalizeWeights scores gamma pools) owned ≤
        shareOf (normalizeWeights scores' gamma pools) owned ∧
      ∀ key, owned = {key} → (normalizeWeights scores gamma pools).getD key 0 ≤
        (normalizeWeights scores' gamma pools).getD key 0 := by
  have everywhere : ∀ key, scores.getD key 0 ≤ scores'.getD key 0 := by
    intro key
    by_cases inside : key ∈ owned
    · exact raised key inside
    · exact (others key inside).ge
  have grows := sum_sharpenedScores_le_of_raise nonneg nonneg' sharp disjoint owned everywhere others
  -- the total is split into what the operator owns, which grows, and the rest, which shrinks
  let everyone := scores.keys.toFinset ∪ (scores'.keys.toFinset ∪ owned)
  have ownedIn : owned ⊆ everyone :=
    Finset.subset_union_right.trans Finset.subset_union_right
  have shrinks : ∑ key ∈ everyone \ owned, (sharpenedScores scores' gamma pools).getD key 0 ≤
      ∑ key ∈ everyone \ owned, (sharpenedScores scores gamma pools).getD key 0 :=
    Finset.sum_le_sum fun key member => getD_sharpenedScores_le_of_raise nonneg nonneg' sharp disjoint
      everywhere (others key (Finset.mem_sdiff.mp member).2)
  have split (powered : Dict Hotkey ℚ) := Finset.sum_sdiff (f := fun key => powered.getD key 0) ownedIn
  have share : shareOf (normalizeWeights scores gamma pools) owned ≤
      shareOf (normalizeWeights scores' gamma pools) owned := by
    rw [shareOf_normalizeWeights, shareOf_normalizeWeights,
      totalWeight_eq_sum_of_subset scores gamma pools (Finset.subset_union_left : _ ⊆ everyone),
      totalWeight_eq_sum_of_subset scores' gamma pools
        (Finset.subset_union_left.trans Finset.subset_union_right : _ ⊆ everyone),
      ← split, ← split, add_comm, add_comm (∑ key ∈ everyone \ owned, _)]
    refine share_mono (Finset.sum_nonneg fun key _ => ?_) grows
      (Finset.sum_nonneg fun key _ => ?_) shrinks
    · exact getD_sharpenedScores_nonneg nonneg gamma disjoint key
    · exact getD_sharpenedScores_nonneg nonneg' gamma disjoint key
  refine ⟨share, ?_⟩
  rintro key rfl
  rw [shareOf, shareOf, Finset.sum_singleton, Finset.sum_singleton] at share
  exact share

/-- The weaker member of a pool overtakes its best one and gains by it. -/
theorem better_score_never_costs_overtaking :
    (normalizeWeights pairScores 3 [["best", "weaker"]]).getD "weaker" 0 ≤
      (normalizeWeights (pairScores.set "weaker" 2) 3 [["best", "weaker"]]).getD "weaker" 0 :=
  (better_score_never_costs (by decide +kernel) (by decide +kernel) (by decide)
    (List.pairwise_singleton _ _)
    {"weaker"} (by decide +kernel) (by
      intro key outside
      rw [Dict.getD, Dict.getD, Dict.get?_set, if_neg (by simpa using outside)])).2 "weaker" rfl

end Endure.Scoring
