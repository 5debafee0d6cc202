import Endure.Scoring.Weights

/-!
# Joining a pool of identical forecasts

An operator moves hotkeys that are in no pool into one pool, by copying its
forecast. The pool is levelled anew, so its previous members lose no more than
the arriving hotkeys give up, and an operator whose share grows held more than
half of the vector already.
-/

namespace Endure.Scoring

open Library Library.Levelling

/-- What a set of hotkeys holds of a weight vector together. -/
def shareOf (weights : Dict Hotkey ℚ) (owned : Finset Hotkey) : ℚ :=
  ∑ key ∈ owned, weights.getD key 0

/-- The joining hotkeys enter one existing pool, or form a new one with a single
hotkey that was in none. The third argument is the pool's previous members. -/
inductive Joins (joining : Finset Hotkey) (pools : List (List Hotkey)) :
    Finset Hotkey → List (List Hotkey) → Prop
  | existing {pool enlarged : List Hotkey} {rest pools' : List (List Hotkey)}
      (before : pools.Perm (pool :: rest)) (after : pools'.Perm (enlarged :: rest))
      (members : enlarged.toFinset = pool.toFinset ∪ joining) :
      Joins joining pools pool.toFinset pools'
  | fresh {partner : Hotkey} {formed : List Hotkey} {pools' : List (List Hotkey)}
      (outside : partner ∉ joining) (unpooled : ∀ pool ∈ pools, partner ∉ pool)
      (after : pools'.Perm (formed :: pools))
      (members : formed.toFinset = insert partner joining) :
      Joins joining pools {partner} pools'

/-- What a move into one pool does to an assignment of amounts: the pool is
levelled before and after it, and no other hotkey's amount changes. -/
structure Relevelled (amount before after : Hotkey → ℚ) (previous joining : Finset Hotkey)
    (cut cut' : ℚ) : Prop where
  disjoint : Disjoint previous joining
  levels : Levels previous amount cut
  joined : Levels (previous ∪ joining) amount cut'
  before_previous : ∀ key ∈ previous, before key = kept cut (amount key)
  before_joining : ∀ key ∈ joining, before key = amount key
  after_pool : ∀ key ∈ previous ∪ joining, after key = kept cut' (amount key)
  elsewhere : ∀ key ∉ previous ∪ joining, after key = before key

section Moves

variable {scores : Dict Hotkey ℚ} {gamma : ℕ} {pools pools' : List (List Hotkey)}
  {previous joining : Finset Hotkey}

private theorem pairwise_disjoint_perm {first second : List (List Hotkey)}
    (perm : first.Perm second) (disjoint : first.Pairwise List.Disjoint) :
    second.Pairwise List.Disjoint :=
  (perm.pairwise_iff fun apart => apart.symm).mp disjoint

/-- A hotkey outside a changed pool keeps its amount when the other pools stay. -/
private theorem getD_sharpenedScores_congr (nonneg : ∀ score ∈ scores.values, 0 ≤ score)
    (disjoint : pools.Pairwise List.Disjoint) (disjoint' : pools'.Pairwise List.Disjoint)
    {key : Hotkey} (same : ∀ pool, key ∈ pool → (pool ∈ pools ↔ pool ∈ pools')) :
    (sharpenedScores scores gamma pools').getD key 0 =
      (sharpenedScores scores gamma pools).getD key 0 := by
  by_cases pooled : ∃ pool ∈ pools, key ∈ pool
  · obtain ⟨pool, listed, inside⟩ := pooled
    rw [getD_sharpenedScores_of_mem nonneg gamma disjoint listed inside,
      getD_sharpenedScores_of_mem nonneg gamma disjoint' ((same pool inside).mp listed) inside]
  · push Not at pooled
    rw [getD_sharpenedScores_of_notMem _ _ pooled,
      getD_sharpenedScores_of_notMem _ _ fun pool listed inside =>
        pooled pool ((same pool inside).mpr listed) inside]

/-- The pools stay disjoint through the move. -/
theorem Joins.disjoint (disjoint : pools.Pairwise List.Disjoint)
    (unpooled : ∀ key ∈ joining, ∀ pool ∈ pools, key ∉ pool)
    (joins : Joins joining pools previous pools') : pools'.Pairwise List.Disjoint := by
  cases joins with
  | @existing pool enlarged rest _ before after members =>
    obtain ⟨apart, disjointRest⟩ := List.pairwise_cons.mp (pairwise_disjoint_perm before disjoint)
    refine pairwise_disjoint_perm after.symm (List.pairwise_cons.mpr ⟨?_, disjointRest⟩)
    intro other member key inside shared
    rw [← List.mem_toFinset, members, Finset.mem_union, List.mem_toFinset] at inside
    cases inside with
    | inl old => exact apart other member old shared
    | inr new =>
      exact unpooled key new other (before.mem_iff.mpr (List.mem_cons_of_mem _ member)) shared
  | @fresh partner formed _ outside alone after members =>
    refine pairwise_disjoint_perm after.symm (List.pairwise_cons.mpr ⟨?_, disjoint⟩)
    intro other member key inside shared
    rw [← List.mem_toFinset, members, Finset.mem_insert] at inside
    cases inside with
    | inl same => exact alone other member (same ▸ shared)
    | inr new => exact unpooled key new other member shared

/-- Every move into a pool relevels that pool and nothing else. -/
theorem Joins.relevelled (gamma : ℕ) (nonneg : ∀ score ∈ scores.values, 0 ≤ score)
    (disjoint : pools.Pairwise List.Disjoint)
    (unpooled : ∀ key ∈ joining, ∀ pool ∈ pools, key ∉ pool)
    (joins : Joins joining pools previous pools') :
    ∃ cut cut', Relevelled (sharpened scores gamma)
      (fun key => (sharpenedScores scores gamma pools).getD key 0)
      (fun key => (sharpenedScores scores gamma pools').getD key 0) previous joining cut cut' := by
  have disjoint' := joins.disjoint disjoint unpooled
  cases joins with
  -- the copiers join a pool: it is relevelled and every other pool stays
  | @existing pool enlarged rest _ before after members =>
    have listed : pool ∈ pools := before.mem_iff.mpr List.mem_cons_self
    have mem_enlarged (key : Hotkey) : key ∈ enlarged ↔ key ∈ pool ∨ key ∈ joining := by
      rw [← List.mem_toFinset, members, Finset.mem_union, List.mem_toFinset]
    have listed' : enlarged ∈ pools' := after.mem_iff.mpr List.mem_cons_self
    refine ⟨sharpenedLevel scores gamma pool, sharpenedLevel scores gamma enlarged, ?_, ?_, ?_, ?_,
      ?_, ?_, ?_⟩
    · rw [Finset.disjoint_left]
      exact fun key old new => unpooled key new pool listed (List.mem_toFinset.mp old)
    · exact levels_sharpenedLevel nonneg gamma pool
    · exact members ▸ levels_sharpenedLevel nonneg gamma enlarged
    · intro key member
      exact getD_sharpenedScores_of_mem nonneg gamma disjoint listed (List.mem_toFinset.mp member)
    · exact fun key member => getD_sharpenedScores_of_notMem _ _ (unpooled key member)
    · intro key member
      rw [← members, List.mem_toFinset] at member
      exact getD_sharpenedScores_of_mem nonneg gamma disjoint' listed' member
    · intro key outside
      rw [← members, List.mem_toFinset] at outside
      refine getD_sharpenedScores_congr nonneg disjoint disjoint' fun other inside => ?_
      rw [before.mem_iff, after.mem_iff, List.mem_cons, List.mem_cons]
      have notPool : other ≠ pool := fun same =>
        outside ((mem_enlarged key).mpr (Or.inl (same ▸ inside)))
      have notEnlarged : other ≠ enlarged := fun same => outside (same ▸ inside)
      simp only [notPool, notEnlarged, false_or]
  -- the copiers form a pool with a miner that was in none
  | @fresh partner formed _ outside alone after members =>
    have listed' : formed ∈ pools' := after.mem_iff.mpr List.mem_cons_self
    have union : ({partner} : Finset Hotkey) ∪ joining = formed.toFinset := by
      rw [members, Finset.insert_eq]
    refine ⟨0, sharpenedLevel scores gamma formed, ?_, ?_, ?_, ?_, ?_, ?_, ?_⟩
    · exact Finset.disjoint_singleton_left.mpr outside
    · exact levels_singleton (sharpened_nonneg nonneg gamma partner)
    · exact union ▸ levels_sharpenedLevel nonneg gamma formed
    · intro key member
      rw [Finset.mem_singleton.mp member, kept_zero_cut (sharpened_nonneg nonneg gamma partner)]
      exact getD_sharpenedScores_of_notMem _ _ alone
    · exact fun key member => getD_sharpenedScores_of_notMem _ _ (unpooled key member)
    · intro key member
      rw [union, List.mem_toFinset] at member
      exact getD_sharpenedScores_of_mem nonneg gamma disjoint' listed' member
    · intro key elsewhere
      rw [union, List.mem_toFinset] at elsewhere
      refine getD_sharpenedScores_congr nonneg disjoint disjoint' fun other inside => ?_
      have notFormed : other ≠ formed := fun same => elsewhere (same ▸ inside)
      rw [after.mem_iff, List.mem_cons]
      simp only [notFormed, false_or]

end Moves

namespace Relevelled

variable {amount before after : Hotkey → ℚ} {previous joining : Finset Hotkey} {cut cut' : ℚ}

/-- The previous members lose at most what the joining ones give up. -/
theorem loss_le_given_up (moved : Relevelled amount before after previous joining cut cut')
    (nonneg : ∀ key, 0 ≤ amount key) :
    ∑ key ∈ previous, (before key - after key) ≤ ∑ key ∈ joining, (before key - after key) := by
  have loss : ∑ key ∈ previous, (before key - after key) =
      ∑ key ∈ previous, (kept cut (amount key) - kept cut' (amount key)) :=
    Finset.sum_congr rfl fun key member => by
      rw [moved.before_previous key member,
        moved.after_pool key (Finset.mem_union_left _ member)]
  have given : ∑ key ∈ joining, (before key - after key) =
      ∑ key ∈ joining, (amount key - kept cut' (amount key)) :=
    Finset.sum_congr rfl fun key member => by
      rw [moved.before_joining key member,
        moved.after_pool key (Finset.mem_union_right _ member)]
  rw [loss, given]
  exact Levels.loss_le_given_up moved.disjoint (fun key _ => nonneg key) moved.levels moved.joined

/-- No previous member gains by the move. -/
theorem after_le_before (moved : Relevelled amount before after previous joining cut cut')
    {key : Hotkey} (member : key ∈ previous) : after key ≤ before key := by
  rw [moved.before_previous key member, moved.after_pool key (Finset.mem_union_left _ member)]
  exact moved.levels.kept_le_of_join moved.disjoint moved.joined member

/-- A sum over a set that holds every joining hotkey drops by what the joining
hotkeys give up and what the set's previous members lose. -/
theorem sum_after (moved : Relevelled amount before after previous joining cut cut')
    {owned : Finset Hotkey} (inside : joining ⊆ owned) :
    ∑ key ∈ owned, after key = ∑ key ∈ owned, before key -
      ∑ key ∈ joining, (before key - after key) -
      ∑ key ∈ owned ∩ previous, (before key - after key) := by
  have apart : Disjoint joining (owned ∩ previous) :=
    moved.disjoint.symm.mono_right Finset.inter_subset_right
  have subset : joining ∪ owned ∩ previous ⊆ owned :=
    Finset.union_subset inside Finset.inter_subset_left
  have changed : ∑ key ∈ owned, (before key - after key) =
      ∑ key ∈ joining ∪ owned ∩ previous, (before key - after key) := by
    refine (Finset.sum_subset subset fun key member outside => ?_).symm
    rw [moved.elsewhere key, sub_self]
    rw [Finset.mem_union, Finset.mem_inter] at outside
    rw [Finset.mem_union]
    tauto
  rw [Finset.sum_union apart, Finset.sum_sub_distrib] at changed
  linarith

end Relevelled

/-- Hotkeys without a score add nothing, so the total runs over any larger set. -/
theorem totalWeight_eq_sum_of_subset (scores : Dict Hotkey ℚ) (gamma : ℕ)
    (pools : List (List Hotkey)) {everyone : Finset Hotkey}
    (covers : scores.keys.toFinset ⊆ everyone) :
    totalWeight (sharpenedScores scores gamma pools) =
      ∑ key ∈ everyone, (sharpenedScores scores gamma pools).getD key 0 := by
  have keys : (sharpenedScores scores gamma pools).keys.toFinset = scores.keys.toFinset := by
    ext key
    rw [List.mem_toFinset, List.mem_toFinset, mem_keys_sharpenedScores]
  rw [totalWeight_eq_sum, keys]
  refine Finset.sum_subset covers fun key _ outside => Dict.getD_of_notMem ?_ 0
  rwa [mem_keys_sharpenedScores, ← List.mem_toFinset]

/-- A set's share is its part of the sharpened total. -/
theorem shareOf_normalizeWeights (scores : Dict Hotkey ℚ) (gamma : ℕ)
    (pools : List (List Hotkey)) (owned : Finset Hotkey) :
    shareOf (normalizeWeights scores gamma pools) owned =
      (∑ key ∈ owned, (sharpenedScores scores gamma pools).getD key 0) /
        totalWeight (sharpenedScores scores gamma pools) := by
  rw [shareOf, Finset.sum_div]
  exact Finset.sum_congr rfl fun key _ => getD_normalizeWeights scores gamma pools key

/-- Copying pays no operator that holds at most half of the vector: if the
joining hotkeys' owner gains share, it held more than half before. The previous
members of the pool lose at most the sharpened score the joining ones give up. -/
theorem copying_never_pays_at_most_half (scores : Dict Hotkey ℚ)
    (nonneg : ∀ score ∈ scores.values, 0 ≤ score) (gamma : ℕ)
    {pools pools' : List (List Hotkey)} (disjoint : pools.Pairwise List.Disjoint)
    (owned : Finset Hotkey) {joining previous : Finset Hotkey} (inside : joining ⊆ owned)
    (unpooled : ∀ key ∈ joining, ∀ pool ∈ pools, key ∉ pool)
    (joins : Joins joining pools previous pools') :
    (shareOf (normalizeWeights scores gamma pools) owned <
        shareOf (normalizeWeights scores gamma pools') owned →
      1 / 2 < shareOf (normalizeWeights scores gamma pools) owned) ∧
    ∑ key ∈ previous, ((sharpenedScores scores gamma pools).getD key 0 -
        (sharpenedScores scores gamma pools').getD key 0) ≤
      ∑ key ∈ joining, ((sharpenedScores scores gamma pools).getD key 0 -
        (sharpenedScores scores gamma pools').getD key 0) := by
  obtain ⟨cut, cut', moved⟩ := joins.relevelled gamma nonneg disjoint unpooled
  have amountNonneg := sharpened_nonneg nonneg gamma
  have lost_le := moved.loss_le_given_up amountNonneg
  refine ⟨fun gain => ?_, lost_le⟩
  set before := fun key => (sharpenedScores scores gamma pools).getD key 0 with hbefore
  set after := fun key => (sharpenedScores scores gamma pools').getD key 0 with hafter
  let everyone := scores.keys.toFinset ∪ (owned ∪ previous)
  have ownedIn : owned ⊆ everyone := Finset.subset_union_left.trans Finset.subset_union_right
  have previousIn : everyone ∩ previous = previous := Finset.inter_eq_right.mpr
    (Finset.subset_union_right.trans Finset.subset_union_right)
  have total := totalWeight_eq_sum_of_subset scores gamma pools
    (Finset.subset_union_left : _ ⊆ everyone)
  have total' := totalWeight_eq_sum_of_subset scores gamma pools'
    (Finset.subset_union_left : _ ⊆ everyone)
  -- The vector loses what the joining and the previous members lose together.
  have everyoneAfter := moved.sum_after (inside.trans ownedIn)
  rw [previousIn] at everyoneAfter
  have ownedAfter := moved.sum_after inside
  have keeps : ∀ key ∈ previous, 0 ≤ before key - after key := fun key member =>
    sub_nonneg.mpr (moved.after_le_before member)
  have held : 0 ≤ ∑ key ∈ owned, before key := Finset.sum_nonneg fun key _ =>
    getD_sharpenedScores_nonneg nonneg gamma disjoint key
  have remains : 0 ≤ ∑ key ∈ everyone, after key := Finset.sum_nonneg fun key _ =>
    getD_sharpenedScores_nonneg nonneg gamma (joins.disjoint disjoint unpooled) key
  rw [shareOf_normalizeWeights, shareOf_normalizeWeights, total, total', ownedAfter,
    everyoneAfter] at gain
  rw [shareOf_normalizeWeights, total]
  refine half_lt_share_of_gain (Finset.sum_nonneg keeps) lost_le
    (Finset.sum_nonneg fun key member => keeps key (Finset.mem_inter.mp member).2) held ?_ gain
  exact everyoneAfter ▸ remains

/-- Three scored hotkeys, one of them far ahead. -/
def majorityScores : Dict Hotkey ℚ := ⟨[("a", 1), ("b", 1), ("x", 10)], by decide⟩

/-- The owner of the leading hotkey gains by a copy, holding eleven twelfths before it. -/
theorem copying_pays_majority :
    (shareOf (normalizeWeights majorityScores 1 []) {"b", "x"} <
        shareOf (normalizeWeights majorityScores 1 [["a", "b"]]) {"b", "x"} ∧
      1 / 2 < shareOf (normalizeWeights majorityScores 1 []) {"b", "x"}) ∧
    ∑ key ∈ {"a"}, ((sharpenedScores majorityScores 1 []).getD key 0 -
        (sharpenedScores majorityScores 1 [["a", "b"]]).getD key 0) ≤
      ∑ key ∈ {"b"}, ((sharpenedScores majorityScores 1 []).getD key 0 -
        (sharpenedScores majorityScores 1 [["a", "b"]]).getD key 0) := by
  have gain : shareOf (normalizeWeights majorityScores 1 []) {"b", "x"} <
      shareOf (normalizeWeights majorityScores 1 [["a", "b"]]) {"b", "x"} := by
    decide +kernel
  have joins : Joins {"b"} [] {"a"} [["a", "b"]] :=
    Joins.fresh (by decide) (by simp) (List.Perm.refl _) (by decide)
  obtain ⟨half, lost_le⟩ := copying_never_pays_at_most_half majorityScores
    (by decide +kernel) 1 List.Pairwise.nil {"b", "x"} (by decide) (by simp) joins
  exact ⟨⟨gain, half gain⟩, lost_le⟩

end Endure.Scoring
