import Mathlib

/-!
# Cutting a family down to its best member

A cut takes one common amount from every member of a finite family, or all of a
member's own amount when that is less. A cut levels the family when what remains
adds up to the family's largest amount.

When further members join a levelled family and the enlarged family is levelled
anew, no earlier member keeps more than before, and the earlier members together
lose at most what the joining members give up.
-/

namespace Library.Levelling

variable {ι K : Type*} [Field K] [LinearOrder K]

/-- What remains of an amount after a cut that never goes below zero. -/
def kept (cut amount : K) : K := max (amount - cut) 0

theorem kept_nonneg (cut amount : K) : 0 ≤ kept cut amount := le_max_right _ _

theorem sub_le_kept (cut amount : K) : amount - cut ≤ kept cut amount := le_max_left _ _

/-- The largest amount of a family, zero for the empty one. -/
def best (s : Finset ι) (f : ι → K) : K := s.fold max 0 f

theorem best_nonneg (s : Finset ι) (f : ι → K) : 0 ≤ best s f :=
  (Finset.le_fold_max _).mpr (Or.inl le_rfl)

theorem le_best {s : Finset ι} {f : ι → K} {i : ι} (member : i ∈ s) : f i ≤ best s f :=
  (Finset.le_fold_max _).mpr (Or.inr ⟨i, member, le_rfl⟩)

theorem best_le {s : Finset ι} {f : ι → K} {bound : K} (nonneg : 0 ≤ bound)
    (bounded : ∀ i ∈ s, f i ≤ bound) : best s f ≤ bound :=
  (Finset.fold_max_le _).mpr ⟨nonneg, bounded⟩

theorem best_mono [DecidableEq ι] {s t : Finset ι} {f : ι → K} (subset : s ⊆ t) :
    best s f ≤ best t f :=
  best_le (best_nonneg _ _) fun _ member => le_best (subset member)

/-- A positive best amount is some member's own. -/
theorem exists_eq_best {s : Finset ι} {f : ι → K} (positive : 0 < best s f) :
    ∃ i ∈ s, f i = best s f := by
  rcases (Finset.le_fold_max _).mp (le_refl (best s f)) with hzero | ⟨i, member, attained⟩
  · exact absurd positive (not_lt.mpr hzero)
  · exact ⟨i, member, le_antisymm (le_best member) attained⟩

/-- Over a list of keys the best amount is a running maximum. -/
theorem best_toFinset [DecidableEq ι] (keys : List ι) (f : ι → K) :
    best keys.toFinset f = (keys.map f).foldr max 0 := by
  induction keys with
  | nil => rfl
  | cons key rest ih =>
    rw [List.toFinset_cons, best, Finset.fold_insert_idem, ← best, ih, List.map_cons,
      List.foldr_cons]

variable [IsStrictOrderedRing K]

theorem kept_of_le {cut amount : K} (below : amount ≤ cut) : kept cut amount = 0 :=
  max_eq_right (sub_nonpos.mpr below)

theorem kept_of_ge {cut amount : K} (above : cut ≤ amount) : kept cut amount = amount - cut :=
  max_eq_left (sub_nonneg.mpr above)

theorem kept_le {cut amount : K} (cutNonneg : 0 ≤ cut) (nonneg : 0 ≤ amount) :
    kept cut amount ≤ amount :=
  max_le (sub_le_self _ cutNonneg) nonneg

@[simp] theorem kept_zero_cut {amount : K} (nonneg : 0 ≤ amount) : kept 0 amount = amount := by
  rw [kept_of_ge nonneg, sub_zero]

theorem kept_anti {low high : K} (ordered : low ≤ high) (amount : K) :
    kept high amount ≤ kept low amount :=
  max_le_max_right 0 (sub_le_sub_left ordered amount)

theorem kept_mono (cut : K) : Monotone (kept cut) := fun _ _ ordered =>
  max_le_max_right 0 (sub_le_sub_right ordered cut)

/-- A nonnegative cut whose remainders add up to the largest amount. -/
structure Levels (s : Finset ι) (f : ι → K) (cut : K) : Prop where
  nonneg : 0 ≤ cut
  total : ∑ i ∈ s, kept cut (f i) = best s f

/-- Zero levels a family of one. -/
theorem levels_singleton [DecidableEq ι] {f : ι → K} {i : ι} (nonneg : 0 ≤ f i) :
    Levels {i} f 0 where
  nonneg := le_rfl
  total := by
    rw [Finset.sum_singleton, kept_zero_cut nonneg, best, Finset.fold_singleton,
      max_eq_left nonneg]

/-- Members without an amount neither move the level nor keep anything. -/
theorem Levels.extend [DecidableEq ι] {s t : Finset ι} {f g : ι → K} {cut : K}
    (levels : Levels s f cut) (subset : s ⊆ t) (agree : ∀ i ∈ s, g i = f i)
    (nothing : ∀ i ∈ t, i ∉ s → g i = 0) : Levels t g cut where
  nonneg := levels.nonneg
  total := by
    have same : best t g = best s f := by
      apply le_antisymm
      · refine best_le (best_nonneg _ _) fun i member => ?_
        by_cases inside : i ∈ s
        · exact agree i inside ▸ le_best inside
        · exact nothing i member inside ▸ best_nonneg _ _
      · exact best_le (best_nonneg _ _) fun i member => agree i member ▸ le_best (subset member)
    rw [same, ← levels.total, ← Finset.sum_subset subset]
    · exact Finset.sum_congr rfl fun i member => by rw [agree i member]
    · intro i member outside
      rw [nothing i member outside]
      exact kept_of_le levels.nonneg

/-- A level lies below a positive best amount. -/
theorem Levels.lt_best {s : Finset ι} {f : ι → K} {cut : K} (levels : Levels s f cut)
    (positive : 0 < best s f) : cut < best s f := by
  by_contra reached
  have nothing : ∑ i ∈ s, kept cut (f i) = 0 :=
    Finset.sum_eq_zero fun i member =>
      kept_of_le ((le_best member).trans (not_lt.mp reached))
  exact positive.ne' (levels.total.symm.trans nothing)

/-- Raising amounts never lowers the level of a family with a positive amount. -/
theorem Levels.mono [DecidableEq ι] {s : Finset ι} {f g : ι → K} {cut cut' : K}
    (levels : Levels s f cut) (raised : Levels s g cut') (ordered : ∀ i ∈ s, f i ≤ g i)
    (positive : 0 < best s f) : cut ≤ cut' := by
  have grows : best s f ≤ best s g :=
    best_le (best_nonneg _ _) fun i member => (ordered i member).trans (le_best member)
  obtain ⟨top, inside, attained⟩ := exists_eq_best positive
  obtain ⟨top', inside', attained'⟩ := exists_eq_best (positive.trans_le grows)
  have below := levels.lt_best positive
  have below' := raised.lt_best (positive.trans_le grows)
  by_contra lower
  rw [not_le] at lower
  -- All but the best member keep the level between them, and more under a lower cut.
  have rest : ∑ i ∈ s.erase top', kept cut (f i) ≤ ∑ i ∈ s.erase top', kept cut' (g i) :=
    Finset.sum_le_sum fun i member =>
      (kept_anti lower.le (f i)).trans (kept_mono cut' (ordered i (Finset.mem_of_mem_erase member)))
  have split := Finset.sum_erase_add s (fun i => kept cut (f i)) inside'
  have split' := Finset.sum_erase_add s (fun i => kept cut' (g i)) inside'
  have most : kept cut (f top') ≤ kept cut (f top) := kept_mono cut (by
    rw [attained]
    exact le_best inside')
  rw [levels.total] at split
  rw [raised.total, attained', kept_of_ge below'.le] at split'
  rw [attained, kept_of_ge below.le] at most
  linarith

/-- A family with a positive amount has one level. -/
theorem Levels.unique [DecidableEq ι] {s : Finset ι} {f : ι → K} {cut cut' : K}
    (levels : Levels s f cut) (levels' : Levels s f cut') (positive : 0 < best s f) :
    cut = cut' :=
  le_antisymm (levels.mono levels' (fun _ _ => le_rfl) positive)
    (levels'.mono levels (fun _ _ => le_rfl) positive)

section Raising

variable [DecidableEq ι] {s : Finset ι} {f g : ι → K} {cut cut' : K}

/-- A member whose own amount stays keeps no more when others' amounts rise. -/
theorem Levels.kept_le_of_raise (levels : Levels s f cut) (raised : Levels s g cut')
    (ordered : ∀ i ∈ s, f i ≤ g i) {i : ι} (member : i ∈ s) (same : g i = f i) :
    kept cut' (g i) ≤ kept cut (f i) := by
  rcases (best_nonneg s f).eq_or_lt with hzero | positive
  · have nothing : g i ≤ cut' := by
      rw [same]
      exact (le_best member).trans (hzero ▸ raised.nonneg)
    rw [kept_of_le nothing]
    exact kept_nonneg _ _
  · rw [same]
    exact kept_anti (levels.mono raised ordered positive) (f i)

/-- Members that raise their amounts together keep no less of the pool. -/
theorem Levels.sum_kept_le_of_raise (owned : Finset ι) (levels : Levels s f cut) (raised : Levels s g cut')
    (ordered : ∀ i ∈ s, f i ≤ g i) (others : ∀ i ∈ s, i ∉ owned → g i = f i) :
    ∑ i ∈ s with i ∈ owned, kept cut (f i) ≤ ∑ i ∈ s with i ∈ owned, kept cut' (g i) := by
  have grows : best s f ≤ best s g :=
    best_le (best_nonneg _ _) fun i member => (ordered i member).trans (le_best member)
  have rest : ∑ i ∈ s with i ∉ owned, kept cut' (g i) ≤ ∑ i ∈ s with i ∉ owned, kept cut (f i) := by
    refine Finset.sum_le_sum fun i member => ?_
    obtain ⟨inside, outside⟩ := Finset.mem_filter.mp member
    exact levels.kept_le_of_raise raised ordered inside (others i inside outside)
  have split := Finset.sum_filter_add_sum_filter_not s (· ∈ owned) fun i => kept cut (f i)
  have split' := Finset.sum_filter_add_sum_filter_not s (· ∈ owned) fun i => kept cut' (g i)
  rw [levels.total] at split
  rw [raised.total] at split'
  linarith

end Raising

/-- Sums over a set compare when they do over its part of every pool and outside all. -/
theorem sum_le_sum_of_pools [DecidableEq ι] {f g : ι → K} {pools : List (List ι)}
    (disjoint : pools.Pairwise List.Disjoint) (owned : Finset ι)
    (pooled : ∀ pool ∈ pools, ∑ i ∈ pool.toFinset with i ∈ owned, f i ≤
      ∑ i ∈ pool.toFinset with i ∈ owned, g i)
    (unpooled : ∀ i ∈ owned, (∀ pool ∈ pools, i ∉ pool) → f i ≤ g i) :
    ∑ i ∈ owned, f i ≤ ∑ i ∈ owned, g i := by
  -- By induction on the pools: the first one's part is split off the set.
  induction pools generalizing owned with
  | nil => exact Finset.sum_le_sum fun i member => unpooled i member (by simp)
  | cons pool rest ih =>
    obtain ⟨apart, disjoint⟩ := List.pairwise_cons.mp disjoint
    have part : pool.toFinset.filter (· ∈ owned) = owned.filter (· ∈ pool) := by
      ext i
      simp [and_comm]
    have first := pooled pool List.mem_cons_self
    rw [part] at first
    have later : ∑ i ∈ owned with i ∉ pool, f i ≤ ∑ i ∈ owned with i ∉ pool, g i := by
      refine ih disjoint _ (fun other listed => ?_) fun i member alone => ?_
      · have same : other.toFinset.filter (· ∈ owned.filter (· ∉ pool)) =
            other.toFinset.filter (· ∈ owned) := by
          refine Finset.filter_congr fun i member => ?_
          rw [Finset.mem_filter, and_iff_left_iff_imp]
          exact fun _ shared => apart other listed shared (List.mem_toFinset.mp member)
        rw [same]
        exact pooled other (List.mem_cons_of_mem _ listed)
      · obtain ⟨inside, outside⟩ := Finset.mem_filter.mp member
        refine unpooled i inside fun other listed => ?_
        cases List.mem_cons.mp listed with
        | inl same => exact same ▸ outside
        | inr listed => exact alone other listed
    have split := Finset.sum_filter_add_sum_filter_not owned (· ∈ pool) f
    have split' := Finset.sum_filter_add_sum_filter_not owned (· ∈ pool) g
    linarith

/-- A share grows when its part does and the rest shrinks. -/
theorem share_mono {held held' rest rest' : K} (heldNonneg : 0 ≤ held) (grows : held ≤ held')
    (restNonneg : 0 ≤ rest') (shrinks : rest' ≤ rest) :
    held / (held + rest) ≤ held' / (held' + rest') := by
  rcases heldNonneg.eq_or_lt with hzero | positive
  · rw [← hzero, zero_div]
    exact div_nonneg (heldNonneg.trans grows) (add_nonneg (heldNonneg.trans grows) restNonneg)
  · rw [div_le_div_iff₀ (by linarith) (by linarith)]
    have crossed : held * rest' ≤ held' * rest :=
      mul_le_mul grows shrinks restNonneg (heldNonneg.trans grows)
    linarith

section Joining

variable [DecidableEq ι] {members joining : Finset ι} {f : ι → K} {cut cut' : K}

/-- Joining never lowers the level of a family with a positive amount. -/
theorem Levels.le_of_join (disjoint : Disjoint members joining)
    (levels : Levels members f cut) (joined : Levels (members ∪ joining) f cut')
    (positive : 0 < best members f) : cut ≤ cut' := by
  by_contra lower
  rw [not_le] at lower
  have below := levels.lt_best positive
  have grows : best members f ≤ best (members ∪ joining) f :=
    best_mono Finset.subset_union_left
  have split := joined.total
  rw [Finset.sum_union disjoint] at split
  have kept_le_kept : ∀ i ∈ members, kept cut (f i) ≤ kept cut' (f i) :=
    fun i _ => kept_anti lower.le (f i)
  have retained : best members f ≤ ∑ i ∈ members, kept cut' (f i) :=
    levels.total ▸ Finset.sum_le_sum kept_le_kept
  have others : 0 ≤ ∑ i ∈ joining, kept cut' (f i) :=
    Finset.sum_nonneg fun i _ => kept_nonneg _ _
  obtain ⟨top, inside, attained⟩ := exists_eq_best (positive.trans_le grows)
  rcases Finset.mem_union.mp inside with old | new
  · -- The best member is an old one: it keeps strictly more under the lower cut.
    have same : best (members ∪ joining) f = best members f :=
      le_antisymm (attained ▸ le_best old) grows
    have strict : kept cut (f top) < kept cut' (f top) := by
      rw [attained, same, kept_of_ge below.le, kept_of_ge (lower.le.trans below.le)]
      linarith
    have more := Finset.sum_lt_sum kept_le_kept ⟨top, old, strict⟩
    rw [levels.total] at more
    linarith
  · -- The best member joined: it alone keeps all but the cut.
    have alone : best (members ∪ joining) f - cut' ≤ ∑ i ∈ joining, kept cut' (f i) :=
      attained ▸ (sub_le_kept cut' (f top)).trans
        (Finset.single_le_sum (f := fun i => kept cut' (f i))
          (fun i _ => kept_nonneg _ _) new)
    linarith

/-- An earlier member keeps no more after others join. -/
theorem Levels.kept_le_of_join (disjoint : Disjoint members joining)
    (levels : Levels members f cut) (joined : Levels (members ∪ joining) f cut')
    {i : ι} (member : i ∈ members) : kept cut' (f i) ≤ kept cut (f i) := by
  rcases (best_nonneg members f).eq_or_lt with hzero | positive
  · have nothing : f i ≤ cut' := (le_best member).trans (hzero ▸ joined.nonneg)
    rw [kept_of_le nothing]
    exact kept_nonneg _ _
  · exact kept_anti (levels.le_of_join disjoint joined positive) (f i)

/-- Earlier members together lose at most what the joining members give up. -/
theorem Levels.loss_le_given_up (disjoint : Disjoint members joining)
    (nonneg : ∀ i ∈ members ∪ joining, 0 ≤ f i)
    (levels : Levels members f cut) (joined : Levels (members ∪ joining) f cut') :
    ∑ i ∈ members, (kept cut (f i) - kept cut' (f i)) ≤
      ∑ i ∈ joining, (f i - kept cut' (f i)) := by
  -- nobody is paid more than its own amount, so none of the joining gains
  have giving : ∀ i ∈ joining, 0 ≤ f i - kept cut' (f i) := fun i member =>
    sub_nonneg.mpr (kept_le joined.nonneg (nonneg i (Finset.mem_union_right _ member)))
  rw [Finset.sum_sub_distrib, levels.total]
  rcases (best_nonneg members f).eq_or_lt with hzero | positive
  · rw [← hzero, zero_sub]
    exact (neg_nonpos.mpr (Finset.sum_nonneg fun i _ => kept_nonneg _ _)).trans
      (Finset.sum_nonneg giving)
  have grows : best members f ≤ best (members ∪ joining) f :=
    best_mono Finset.subset_union_left
  have below := joined.lt_best (positive.trans_le grows)
  have split := joined.total
  rw [Finset.sum_union disjoint] at split
  obtain ⟨top, inside, attained⟩ := exists_eq_best (positive.trans_le grows)
  rcases Finset.mem_union.mp inside with old | new
  · -- The best member is an old one: all that its mates lose, the joining keep.
    have same : best (members ∪ joining) f = best members f :=
      le_antisymm (attained ▸ le_best old) grows
    have own : best members f - cut' ≤ ∑ i ∈ members, kept cut' (f i) :=
      same ▸ attained ▸ (sub_le_kept cut' (f top)).trans
        (Finset.single_le_sum (f := fun i => kept cut' (f i))
          (fun i _ => kept_nonneg _ _) old)
    have within : ∑ i ∈ joining, kept cut' (f i) ≤ cut' := by linarith
    rcases (Finset.sum_nonneg fun i (_ : i ∈ joining) =>
      kept_nonneg cut' (f i)).eq_or_lt with hnothing | something
    · have given := Finset.sum_nonneg giving
      linarith
    · obtain ⟨keeper, member, keeps⟩ := Finset.exists_lt_of_sum_lt
        (s := joining) (f := fun _ => (0 : K)) (g := fun i => kept cut' (f i))
        (by simpa using something)
      have above : cut' ≤ f keeper := by
        by_contra under
        rw [kept_of_le (not_le.mp under).le] at keeps
        exact lt_irrefl _ keeps
      have pays : cut' ≤ ∑ i ∈ joining, (f i - kept cut' (f i)) := by
        have single := Finset.single_le_sum giving member
        rwa [kept_of_ge above, sub_sub_cancel] at single
      linarith
  · -- The best member joined and gives up the whole cut.
    have pays : cut' ≤ ∑ i ∈ joining, (f i - kept cut' (f i)) := by
      have single := Finset.single_le_sum giving new
      rwa [attained, kept_of_ge below.le, sub_sub_cancel] at single
    obtain ⟨leader, member, leads⟩ := exists_eq_best positive
    have own : best members f - cut' ≤ ∑ i ∈ members, kept cut' (f i) :=
      leads ▸ (sub_le_kept cut' (f leader)).trans
        (Finset.single_le_sum (f := fun i => kept cut' (f i))
          (fun i _ => kept_nonneg _ _) member)
    linarith

end Joining

/-- A share that grows while its holders lose part of a shrinking total, and the
others lose at most what the holders lose, exceeded one half. -/
theorem half_lt_share_of_gain {held total given lost own : K}
    (lostNonneg : 0 ≤ lost) (lost_le : lost ≤ given) (ownNonneg : 0 ≤ own)
    (heldNonneg : 0 ≤ held) (totalNonneg : 0 ≤ total - given - lost)
    (gain : held / total < (held - given - own) / (total - given - lost)) :
    1 / 2 < held / total := by
  have shrunk : 0 < total - given - lost := by
    rcases totalNonneg.eq_or_lt with hzero | positive
    · rw [← hzero, div_zero] at gain
      exact absurd gain (not_lt.mpr (div_nonneg heldNonneg (by linarith)))
    · exact positive
  have positive : 0 < total := by linarith
  rw [div_lt_div_iff₀ positive shrunk] at gain
  rw [lt_div_iff₀ positive]
  have paid : 0 ≤ own * total := mul_nonneg ownNonneg positive.le
  have shared : held * lost ≤ held * given := mul_le_mul_of_nonneg_left lost_le heldNonneg
  have scaled : given * total < 2 * held * given := by nlinarith
  rcases (lostNonneg.trans lost_le).eq_or_lt with hnothing | something
  · rw [← hnothing] at scaled
    simp at scaled
  · have := lt_of_mul_lt_mul_left (by linarith : given * total < given * (2 * held)) something.le
    linarith

end Library.Levelling
