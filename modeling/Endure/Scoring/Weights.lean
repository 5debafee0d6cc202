import Endure.Library.Dict
import Endure.Library.Levelling

/-!
# Score-to-weight transformations

The model of `endure/scoring/weights.py`, with exact rationals in place of
28-digit decimals. Identical-forecast pools are cut down to what their best
member weighs alone: the loop of `levelToBest` finds one common cut, and over
disjoint pools the cuts do not interfere.
-/

namespace Endure.Scoring

open Library Library.Levelling

/-- A miner's identity on the network. -/
abbrev Hotkey := String

/-- `ema_update` at the factor `alpha = 1 - 2 ** (-1 / half_life_rounds)`, with a
zero prior for new miners. -/
def emaUpdate (alpha : ℚ) (previous : Option ℚ) (observation : ℚ) : ℚ :=
  alpha * observation + (1 - alpha) * previous.getD 0

/-- The loop of `_level_to_best` after `count` values adding up to `total`:
`level` is the last candidate that stayed below its own value. -/
def levelLoop (best : ℚ) : List ℚ → ℕ → ℚ → ℚ → ℚ
  | [], _, _, level => level
  | value :: rest, count, total, level =>
    let candidate := (total + value - best) / (count + 1 : ℕ)
    if value ≤ candidate then level
    else levelLoop best rest (count + 1) (total + value) candidate

/-- The cut `_level_to_best` settles on for a list of amounts. -/
def levelOf (amounts : List ℚ) : ℚ :=
  let ordered := amounts.insertionSort (· ≥ ·)
  levelLoop (ordered.headD 0) ordered 0 0 0

/-- Cut every member by one level so the pool keeps its largest weight. -/
def levelToBest (members : Dict Hotkey ℚ) : Dict Hotkey ℚ :=
  members.map fun _ value => max (value - levelOf members.values) 0

/-- The scored members of one pool with their sharpened scores. -/
def poolMembers (powered : Dict Hotkey ℚ) (pool : List Hotkey) : Dict Hotkey ℚ :=
  Dict.ofEntries (pool.filterMap fun key => (powered.get? key).map fun value => (key, value))

/-- Level the scored members of one pool, leaving every other hotkey alone. -/
def levelPool (powered : Dict Hotkey ℚ) (pool : List Hotkey) : Dict Hotkey ℚ :=
  powered.update (levelToBest (poolMembers powered pool))

/-- The sharpened scores after every pool is levelled in turn. -/
def sharpenedScores (scores : Dict Hotkey ℚ) (gamma : ℕ) (pools : List (List Hotkey)) :
    Dict Hotkey ℚ :=
  pools.foldl levelPool (scores.map fun _ score => score ^ gamma)

/-- The sum of all values, added up in key order. -/
def totalWeight (powered : Dict Hotkey ℚ) : ℚ :=
  (powered.keys.insertionSort (· ≤ ·)).foldl (fun total key => total + powered.getD key 0) 0

/-- Normalize sharpened scores into deterministic emission weights. -/
def normalizeWeights (scores : Dict Hotkey ℚ) (gamma : ℕ) (pools : List (List Hotkey)) :
    Dict Hotkey ℚ :=
  let powered := sharpenedScores scores gamma pools
  let total := totalWeight powered
  if total = 0 then scores.map fun _ _ => 0 else powered.map fun _ value => value / total

/-! ### The levelling loop -/

/-- What the loop returns once at least one value is read: it never goes below
the level it started from, it stays below every amount that bounds the values
still to read, and with it the values read and those to come keep the best one. -/
theorem levelLoop_spec (best : ℚ) (rest : List ℚ) (ordered : rest.Pairwise (· ≥ ·))
    {count : ℕ} (started : 0 < count) {total level : ℚ}
    (balanced : total - count * level = best) :
    level ≤ levelLoop best rest count total level ∧
      (∀ bound, level ≤ bound → (∀ value ∈ rest, value ≤ bound) →
        levelLoop best rest count total level ≤ bound) ∧
      total - count * levelLoop best rest count total level +
        (rest.map (kept (levelLoop best rest count total level))).sum = best := by
  induction rest generalizing count total level with
  | nil => exact ⟨le_rfl, fun _ below _ => below, by simpa [levelLoop] using balanced⟩
  | cons value rest ih =>
    obtain ⟨below, ordered⟩ := List.pairwise_cons.mp ordered
    have positive : (0 : ℚ) < (count + 1 : ℕ) := by positivity
    set candidate := (total + value - best) / (count + 1 : ℕ) with hcandidate
    have weighted : candidate * (count + 1 : ℕ) = total + value - best :=
      div_mul_cancel₀ _ positive.ne'
    push_cast at weighted
    have counted : (0 : ℚ) < count := by exact_mod_cast started
    by_cases stop : value ≤ candidate
    · -- The value, and every later one, lies at or below the level reached.
      have reached : value ≤ level := by
        by_contra above
        rw [not_le] at above
        nlinarith
      have loop : levelLoop best (value :: rest) count total level = level := by
        simp only [levelLoop]
        rw [← hcandidate, if_pos stop]
      rw [loop]
      refine ⟨le_rfl, fun _ bounded _ => bounded, ?_⟩
      have nothing : ∀ amount ∈ (value :: rest).map (kept level), amount = 0 := by
        intro amount member
        obtain ⟨later, inside, rfl⟩ := List.mem_map.mp member
        rcases List.mem_cons.mp inside with rfl | inside
        · exact kept_of_le reached
        · exact kept_of_le ((below later inside).trans reached)
      rw [List.sum_eq_zero nothing, add_zero, balanced]
    · rw [not_le] at stop
      -- the value is above its candidate, so taking it in raises the level
      have risen : level ≤ candidate := by nlinarith
      have loop : levelLoop best (value :: rest) count total level =
          levelLoop best rest (count + 1) (total + value) candidate := by
        simp only [levelLoop]
        rw [← hcandidate, if_neg (not_le.mpr stop)]
      rw [loop]
      have rebalanced : total + value - (count + 1 : ℕ) * candidate = best := by
        push_cast
        linarith
      obtain ⟨lower, upper, kept_eq⟩ := ih ordered (Nat.succ_pos count) rebalanced
      set final := levelLoop best rest (count + 1) (total + value) candidate
      refine ⟨risen.trans lower, fun bound _ bounded => ?_, ?_⟩
      · exact upper bound (stop.le.trans (bounded value List.mem_cons_self))
          fun later inside => bounded later (List.mem_cons_of_mem _ inside)
      · have under : final ≤ value := upper value stop.le below
        rw [List.map_cons, List.sum_cons, kept_of_ge under]
        push_cast at kept_eq
        linarith

/-- The cut is nonnegative and leaves a list of nonnegative amounts exactly its
largest one. -/
theorem levelOf_spec (amounts : List ℚ) (nonneg : ∀ amount ∈ amounts, 0 ≤ amount) :
    0 ≤ levelOf amounts ∧
      (amounts.map (kept (levelOf amounts))).sum = amounts.foldr max 0 := by
  have perm := List.perm_insertionSort (· ≥ ·) amounts
  have sorted := List.pairwise_insertionSort (r := fun a b : ℚ => a ≥ b) amounts
  have largest : amounts.foldr max 0 = (amounts.insertionSort (· ≥ ·)).foldr max 0 :=
    (perm.foldr_eq 0).symm
  have same : (amounts.map (kept (levelOf amounts))).sum =
      ((amounts.insertionSort (· ≥ ·)).map (kept (levelOf amounts))).sum :=
    ((perm.map _).sum_eq).symm
  -- both sides are about the amounts, not their order, so the sorted list stands for them
  rw [largest, same]
  cases shape : amounts.insertionSort (· ≥ ·) with
  | nil => simp [levelOf, shape, levelLoop]
  | cons best rest =>
    rw [shape] at sorted perm
    obtain ⟨below, ordered⟩ := List.pairwise_cons.mp sorted
    have bestNonneg : 0 ≤ best := nonneg best (perm.mem_iff.mp List.mem_cons_self)
    have top : (best :: rest).foldr max 0 = best := by
      rw [List.foldr_cons, max_eq_left]
      clear shape perm sorted ordered
      induction rest with
      | nil => exact bestNonneg
      | cons value rest ih =>
        exact max_le (below value List.mem_cons_self)
          (ih fun later inside => below later (List.mem_cons_of_mem _ inside))
    rw [top]
    by_cases zero : best ≤ 0
    · -- All amounts are zero, and the loop stops at its first value.
      have level : levelOf amounts = 0 := by
        simp [levelOf, shape, levelLoop, zero]
      rw [level]
      refine ⟨le_rfl, ?_⟩
      rw [List.sum_eq_zero, le_antisymm zero bestNonneg]
      intro amount member
      obtain ⟨value, inside, rfl⟩ := List.mem_map.mp member
      rcases List.mem_cons.mp inside with rfl | inside
      · exact kept_of_le zero
      · exact kept_of_le ((below value inside).trans zero)
    · have level : levelOf amounts = levelLoop best rest 1 best 0 := by
        simp [levelOf, shape, levelLoop, zero]
      -- the invariant of the loop where it starts, at the best amount
      have balanced : best - (1 : ℕ) * 0 = best := by simp
      obtain ⟨lower, upper, kept_eq⟩ := levelLoop_spec best rest ordered one_pos balanced
      rw [level]
      have under : levelLoop best rest 1 best 0 ≤ best :=
        upper best bestNonneg below
      refine ⟨lower, ?_⟩
      rw [List.map_cons, List.sum_cons, kept_of_ge under]
      push_cast at kept_eq
      linarith

/-! ### One pool -/

/-- The cut one pool settles on. -/
def poolLevel (powered : Dict Hotkey ℚ) (pool : List Hotkey) : ℚ :=
  levelOf (poolMembers powered pool).values

theorem get?_poolMembers (powered : Dict Hotkey ℚ) (pool : List Hotkey) (key : Hotkey) :
    (poolMembers powered pool).get? key = if key ∈ pool then powered.get? key else none := by
  have agree : ∀ entry ∈ pool.filterMap fun key => (powered.get? key).map fun value => (key, value),
      powered.get? entry.1 = some entry.2 := by
    intro entry member
    obtain ⟨listed, -, made⟩ := List.mem_filterMap.mp member
    obtain ⟨value, found, rfl⟩ := Option.map_eq_some_iff.mp made
    exact found
  rw [poolMembers, Dict.get?_ofEntries_of_agree agree]
  by_cases pooled : key ∈ pool
  · rw [if_pos pooled]
    split_ifs with listed
    · rfl
    · cases found : powered.get? key with
      | none => rfl
      | some value =>
        refine absurd (List.mem_map.mpr ⟨(key, value), ?_, rfl⟩) listed
        exact List.mem_filterMap.mpr ⟨key, pooled, by rw [found, Option.map_some]⟩
  · rw [if_neg pooled, if_neg]
    intro listed
    obtain ⟨entry, member, rfl⟩ := List.mem_map.mp listed
    obtain ⟨source, inside, made⟩ := List.mem_filterMap.mp member
    obtain ⟨value, -, rfl⟩ := Option.map_eq_some_iff.mp made
    exact pooled inside

/-- A pool's members lose its level; every other hotkey keeps its score. -/
theorem get?_levelPool (powered : Dict Hotkey ℚ) (pool : List Hotkey) (key : Hotkey) :
    (levelPool powered pool).get? key =
      if key ∈ pool then (powered.get? key).map (kept (poolLevel powered pool))
      else powered.get? key := by
  rw [levelPool, Dict.get?_update, levelToBest, Dict.get?_map, get?_poolMembers]
  by_cases pooled : key ∈ pool
  · rw [if_pos pooled, if_pos pooled]
    cases powered.get? key <;> rfl
  · rw [if_neg pooled, if_neg pooled, Option.map_none, Option.none_or]

/-- The level depends only on the scores of the pool's own hotkeys. -/
theorem poolLevel_congr {first second : Dict Hotkey ℚ} {pool : List Hotkey}
    (agree : ∀ key ∈ pool, first.get? key = second.get? key) :
    poolLevel first pool = poolLevel second pool := by
  have same : poolMembers first pool = poolMembers second pool := by
    rw [poolMembers, poolMembers]
    congr 1
    exact List.filterMap_congr fun key member => by rw [agree key member]
  rw [poolLevel, poolLevel, same]

/-- The level of a pool levels its hotkeys, an unscored one counting as zero. -/
theorem levels_poolLevel {powered : Dict Hotkey ℚ} (nonneg : ∀ key, 0 ≤ powered.getD key 0)
    (pool : List Hotkey) :
    Levels pool.toFinset (fun key => powered.getD key 0) (poolLevel powered pool) := by
  have member_iff (key : Hotkey) : key ∈ (poolMembers powered pool).keys ↔
      key ∈ pool ∧ key ∈ powered.keys := by
    rw [Dict.mem_keys_iff, Dict.mem_keys_iff, get?_poolMembers]
    by_cases pooled : key ∈ pool <;> simp [pooled]
  have agree : ∀ key ∈ pool, (poolMembers powered pool).getD key 0 = powered.getD key 0 := by
    intro key pooled
    rw [Dict.getD, Dict.getD, get?_poolMembers, if_pos pooled]
  have own : Levels (poolMembers powered pool).keys.toFinset
      (fun key => (poolMembers powered pool).getD key 0) (poolLevel powered pool) := by
    have values := (poolMembers powered pool).values_eq_map_keys 0
    have spec := levelOf_spec (poolMembers powered pool).values (by
      rw [values]
      intro amount member
      obtain ⟨key, inside, rfl⟩ := List.mem_map.mp member
      exact agree key ((member_iff key).mp inside).1 ▸ nonneg key)
    rw [← poolLevel, values, List.map_map] at spec
    refine ⟨spec.1, ?_⟩
    rw [List.sum_toFinset _ (poolMembers powered pool).keys_nodup, best_toFinset]
    exact spec.2
  refine own.extend ?_ ?_ ?_
  · intro key member
    exact List.mem_toFinset.mpr ((member_iff key).mp (List.mem_toFinset.mp member)).1
  · intro key member
    exact (agree key ((member_iff key).mp (List.mem_toFinset.mp member)).1).symm
  · intro key pooled outside
    refine Dict.getD_of_notMem (fun scored => outside ?_) 0
    exact List.mem_toFinset.mpr ((member_iff key).mpr ⟨List.mem_toFinset.mp pooled, scored⟩)

/-! ### Disjoint pools -/

theorem mem_keys_levelPool (powered : Dict Hotkey ℚ) (pool : List Hotkey) (key : Hotkey) :
    key ∈ (levelPool powered pool).keys ↔ key ∈ powered.keys := by
  rw [Dict.mem_keys_iff, Dict.mem_keys_iff, get?_levelPool]
  by_cases pooled : key ∈ pool <;> simp [pooled]

/-- Levelling leaves a hotkey of no pool alone. -/
theorem get?_foldl_levelPool_of_notMem {pools : List (List Hotkey)} (powered : Dict Hotkey ℚ)
    {key : Hotkey} (unpooled : ∀ pool ∈ pools, key ∉ pool) :
    (pools.foldl levelPool powered).get? key = powered.get? key := by
  induction pools generalizing powered with
  | nil => rfl
  | cons pool rest ih =>
    rw [List.foldl_cons, ih _ fun later member => unpooled later (List.mem_cons_of_mem _ member),
      get?_levelPool, if_neg (unpooled pool List.mem_cons_self)]

/-- Levelling disjoint pools in turn cuts each pool's members by the level that
the pool has alone. -/
theorem get?_foldl_levelPool_of_mem {pools : List (List Hotkey)}
    (disjoint : pools.Pairwise List.Disjoint) (powered : Dict Hotkey ℚ)
    {pool : List Hotkey} (member : pool ∈ pools) {key : Hotkey} (pooled : key ∈ pool) :
    (pools.foldl levelPool powered).get? key =
      (powered.get? key).map (kept (poolLevel powered pool)) := by
  induction pools generalizing powered with
  | nil => simp at member
  | cons first rest ih =>
    obtain ⟨apart, disjoint⟩ := List.pairwise_cons.mp disjoint
    rw [List.foldl_cons]
    rcases List.mem_cons.mp member with rfl | later
    · rw [get?_foldl_levelPool_of_notMem _ fun other inside shared =>
        (apart other inside) pooled shared, get?_levelPool, if_pos pooled]
    · have untouched : ∀ other ∈ pool, (levelPool powered first).get? other = powered.get? other :=
        fun other inside => by
          rw [get?_levelPool, if_neg fun shared => (apart pool later) shared inside]
      rw [ih disjoint _ later, untouched key pooled, poolLevel_congr untouched]

/-! ### Shares -/

/-- A hotkey's score raised to `gamma`, zero when it has none. -/
def sharpened (scores : Dict Hotkey ℚ) (gamma : ℕ) (key : Hotkey) : ℚ :=
  (scores.map fun _ score => score ^ gamma).getD key 0

theorem sharpened_nonneg {scores : Dict Hotkey ℚ} (nonneg : ∀ score ∈ scores.values, 0 ≤ score)
    (gamma : ℕ) (key : Hotkey) : 0 ≤ sharpened scores gamma key := by
  rw [sharpened, Dict.getD, Dict.get?_map]
  cases found : scores.get? key with
  | none => exact le_rfl
  | some score =>
    exact pow_nonneg (nonneg score (List.mem_map.mpr ⟨_, Dict.get?_eq_some_iff.mp found, rfl⟩)) _

theorem mem_keys_sharpenedScores (scores : Dict Hotkey ℚ) (gamma : ℕ) (pools : List (List Hotkey))
    (key : Hotkey) : key ∈ (sharpenedScores scores gamma pools).keys ↔ key ∈ scores.keys := by
  have general : ∀ powered : Dict Hotkey ℚ,
      key ∈ (pools.foldl levelPool powered).keys ↔ key ∈ powered.keys := by
    induction pools with
    | nil => exact fun _ => Iff.rfl
    | cons pool rest ih =>
      intro powered
      rw [List.foldl_cons, ih, mem_keys_levelPool]
  rw [sharpenedScores, general, Dict.keys_map]

/-- A hotkey of no pool keeps its sharpened score. -/
theorem getD_sharpenedScores_of_notMem (scores : Dict Hotkey ℚ) (gamma : ℕ)
    {pools : List (List Hotkey)} {key : Hotkey} (unpooled : ∀ pool ∈ pools, key ∉ pool) :
    (sharpenedScores scores gamma pools).getD key 0 = sharpened scores gamma key := by
  rw [sharpenedScores, Dict.getD, get?_foldl_levelPool_of_notMem _ unpooled, sharpened, Dict.getD]

/-- The level one pool has on the sharpened scores. -/
def sharpenedLevel (scores : Dict Hotkey ℚ) (gamma : ℕ) (pool : List Hotkey) : ℚ :=
  poolLevel (scores.map fun _ score => score ^ gamma) pool

/-- A member of one of several disjoint pools keeps what its pool's level leaves. -/
theorem getD_sharpenedScores_of_mem {scores : Dict Hotkey ℚ}
    (nonneg : ∀ score ∈ scores.values, 0 ≤ score) (gamma : ℕ) {pools : List (List Hotkey)}
    (disjoint : pools.Pairwise List.Disjoint) {pool : List Hotkey} (member : pool ∈ pools)
    {key : Hotkey} (pooled : key ∈ pool) :
    (sharpenedScores scores gamma pools).getD key 0 =
      kept (sharpenedLevel scores gamma pool) (sharpened scores gamma key) := by
  rw [sharpenedScores, Dict.getD, get?_foldl_levelPool_of_mem disjoint _ member pooled,
    sharpened, Dict.getD, sharpenedLevel]
  cases (scores.map fun _ score => score ^ gamma).get? key with
  | some value => rfl
  | none =>
    have level := (levels_poolLevel (sharpened_nonneg nonneg gamma) pool).nonneg
    exact (kept_of_le level).symm

theorem getD_sharpenedScores_nonneg {scores : Dict Hotkey ℚ}
    (nonneg : ∀ score ∈ scores.values, 0 ≤ score) (gamma : ℕ) {pools : List (List Hotkey)}
    (disjoint : pools.Pairwise List.Disjoint) (key : Hotkey) :
    0 ≤ (sharpenedScores scores gamma pools).getD key 0 := by
  by_cases pooled : ∃ pool ∈ pools, key ∈ pool
  · obtain ⟨pool, member, inside⟩ := pooled
    rw [getD_sharpenedScores_of_mem nonneg gamma disjoint member inside]
    exact kept_nonneg _ _
  · push Not at pooled
    rw [getD_sharpenedScores_of_notMem _ _ pooled]
    exact sharpened_nonneg nonneg gamma key

theorem levels_sharpenedLevel {scores : Dict Hotkey ℚ}
    (nonneg : ∀ score ∈ scores.values, 0 ≤ score) (gamma : ℕ) (pool : List Hotkey) :
    Levels pool.toFinset (sharpened scores gamma) (sharpenedLevel scores gamma pool) :=
  levels_poolLevel (sharpened_nonneg nonneg gamma) pool

/-- The order in which the total is added up does not show. -/
theorem totalWeight_eq_sum (powered : Dict Hotkey ℚ) :
    totalWeight powered = ∑ key ∈ powered.keys.toFinset, powered.getD key 0 :=
  powered.sum_perm_keys (List.perm_insertionSort _ _)

/-- A weight is the hotkey's part of the sharpened total, zero when the total is. -/
theorem getD_normalizeWeights (scores : Dict Hotkey ℚ) (gamma : ℕ) (pools : List (List Hotkey))
    (key : Hotkey) :
    (normalizeWeights scores gamma pools).getD key 0 =
      (sharpenedScores scores gamma pools).getD key 0 /
        totalWeight (sharpenedScores scores gamma pools) := by
  rw [normalizeWeights]
  split_ifs with hzero
  · rw [hzero, div_zero, Dict.getD, Dict.get?_map]
    cases scores.get? key <;> rfl
  · rw [Dict.getD, Dict.get?_map, Dict.getD]
    cases (sharpenedScores scores gamma pools).get? key <;> simp

end Endure.Scoring
