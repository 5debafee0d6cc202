import Mathlib

/-!
# Weighted medians

A weighted median of weighted samples is a sample with less than half of the
weight below it and at least half of the weight at or below it. It is found by
adding the weights up in the order of the values until half of the total is
reached. Sums that are rounded after every addition give the two inequalities up
to the factors the rounding errors add up to. A group that holds more than half
of the weight, by the same factors, keeps the median within its own values.
-/

namespace Library.WeightedMedian

variable {α K : Type*} [Field K]

/-- The weight of all samples. -/
def total (samples : List (α × K)) : K := (samples.map Prod.snd).sum

/-- Sum weights one by one, rounding after every addition. -/
def runningSum (round : K → K) (samples : List (α × K)) : K :=
  samples.foldl (fun sum sample => round (sum + sample.2)) 0

variable {round : K → K} {samples first second : List (α × K)} {value : α} {low high : K}

@[simp] theorem total_nil : total ([] : List (α × K)) = 0 := rfl

@[simp] theorem total_cons (sample : α × K) (samples : List (α × K)) :
    total (sample :: samples) = sample.2 + total samples := by
  simp [total]

@[simp] theorem total_append (first second : List (α × K)) :
    total (first ++ second) = total first + total second := by
  simp [total]

theorem total_perm (perm : first.Perm second) : total first = total second :=
  (perm.map Prod.snd).sum_eq

@[simp] theorem runningSum_nil : runningSum round ([] : List (α × K)) = 0 := rfl

@[simp] theorem runningSum_append_singleton (samples : List (α × K)) (sample : α × K) :
    runningSum round (samples ++ [sample]) = round (runningSum round samples + sample.2) := by
  simp [runningSum]

variable [LinearOrder K] [IsStrictOrderedRing K]

theorem total_nonneg (nonneg : ∀ sample ∈ samples, 0 ≤ sample.2) : 0 ≤ total samples := by
  apply List.sum_nonneg
  intro weight member
  obtain ⟨sample, inside, rfl⟩ := List.mem_map.mp member
  exact nonneg sample inside

/-- Dropping samples from a list of nonnegative weights lowers its weight. -/
theorem total_filter_le (nonneg : ∀ sample ∈ samples, 0 ≤ sample.2) (keep : α × K → Bool) :
    total (samples.filter keep) ≤ total samples := by
  induction samples with
  | nil => simp
  | cons sample samples ih =>
    obtain ⟨here, there⟩ := List.forall_mem_cons.mp nonneg
    have rest := ih there
    by_cases kept : keep sample
    · rw [List.filter_cons_of_pos kept, total_cons, total_cons]
      linarith
    · rw [List.filter_cons_of_neg kept, total_cons]
      linarith

/-! ### The search -/

/-- The first value at which the sum that started from `cumulative` reaches a bound. -/
def crossing (round : K → K) (bound : K) : K → List (α × K) → Option α
  | _, [] => none
  | cumulative, (value, weight) :: rest =>
    if bound ≤ round (cumulative + weight) then some value
    else crossing round bound (round (cumulative + weight)) rest

omit [IsStrictOrderedRing K] in
/-- Where the search stops: before the value it finds the sum is short of the bound,
with the value it is not. -/
theorem exists_crossing {bound : K} (positive : 0 < bound)
    (reached : bound ≤ runningSum round samples) :
    ∃ before value weight after, samples = before ++ (value, weight) :: after ∧
      crossing round bound 0 samples = some value ∧ runningSum round before < bound ∧
      bound ≤ runningSum round (before ++ [(value, weight)]) := by
  -- By induction on what is still to be read, after a part whose sum is short of the bound.
  have search : ∀ (rest read : List (α × K)), runningSum round read < bound →
      bound ≤ runningSum round (read ++ rest) →
      ∃ before value weight after, read ++ rest = before ++ (value, weight) :: after ∧
        crossing round bound (runningSum round read) rest = some value ∧
        runningSum round before < bound ∧
        bound ≤ runningSum round (before ++ [(value, weight)]) := by
    intro rest
    induction rest with
    | nil =>
      intro read short reached
      rw [List.append_nil] at reached
      exact absurd reached (not_le.mpr short)
    | cons sample rest ih =>
      intro read short reached
      have next : round (runningSum round read + sample.2) = runningSum round (read ++ [sample]) :=
        (runningSum_append_singleton read sample).symm
      by_cases crosses : bound ≤ runningSum round (read ++ [sample])
      · refine ⟨read, sample.1, sample.2, rest, rfl, ?_, short, crosses⟩
        rw [crossing, next, if_pos crosses]
      · have again : read ++ sample :: rest = (read ++ [sample]) ++ rest := by simp
        rw [again] at reached ⊢
        obtain ⟨before, value, weight, after, split, found, low, high⟩ :=
          ih (read ++ [sample]) (not_le.mp crosses) reached
        refine ⟨before, value, weight, after, split, ?_, low, high⟩
        rw [crossing, next, if_neg crosses, found]
  exact search samples [] positive reached

/-! ### Rounding errors -/

/-- The rounded sum of every leading part stays within two factors of the exact one. -/
def Tracks (round : K → K) (low high : K) (samples : List (α × K)) : Prop :=
  ∀ part, part <+: samples → low * total part ≤ runningSum round part ∧
    runningSum round part ≤ high * total part

theorem Tracks.mono {low' high' : K} (tracks : Tracks round low high samples)
    (nonneg : ∀ sample ∈ samples, 0 ≤ sample.2) (lower : low' ≤ low) (higher : high ≤ high') :
    Tracks round low' high' samples := by
  intro part leading
  have mass : 0 ≤ total part := total_nonneg fun sample member =>
    nonneg sample (leading.subset member)
  obtain ⟨below, above⟩ := tracks part leading
  exact ⟨(mul_le_mul_of_nonneg_right lower mass).trans below,
    above.trans (mul_le_mul_of_nonneg_right higher mass)⟩

/-- A rounding with a bounded relative error keeps the running sums within powers of
its two factors. -/
theorem tracks_of_relative {down up : K} (downNonneg : 0 ≤ down) (downLe : down ≤ 1) (leUp : 1 ≤ up)
    (relative : ∀ sum, 0 ≤ sum → down * sum ≤ round sum ∧ round sum ≤ up * sum)
    (nonneg : ∀ sample ∈ samples, 0 ≤ sample.2) :
    Tracks round (down ^ samples.length) (up ^ samples.length) samples := by
  -- By induction on the part: one addition more costs one factor more.
  have powers : ∀ part : List (α × K), (∀ sample ∈ part, 0 ≤ sample.2) →
      down ^ part.length * total part ≤ runningSum round part ∧
        runningSum round part ≤ up ^ part.length * total part := by
    intro part
    induction part using List.reverseRecOn with
    | nil => simp
    | append_singleton part sample ih =>
      intro nonneg
      have weight : 0 ≤ sample.2 := nonneg sample (by simp)
      have earlier : ∀ sample ∈ part, 0 ≤ sample.2 := fun sample member =>
        nonneg sample (List.mem_append_left _ member)
      obtain ⟨lower, upper⟩ := ih earlier
      have mass := total_nonneg earlier
      have downPower : down ^ part.length ≤ 1 := pow_le_one₀ downNonneg downLe
      have upPower : 1 ≤ up ^ part.length := one_le_pow₀ leUp
      have downWeight : down ^ part.length * sample.2 ≤ sample.2 := mul_le_of_le_one_left weight downPower
      have upWeight : sample.2 ≤ up ^ part.length * sample.2 := le_mul_of_one_le_left weight upPower
      have sumNonneg : 0 ≤ runningSum round part + sample.2 :=
        add_nonneg (le_trans (mul_nonneg (pow_nonneg downNonneg _) mass) lower) weight
      obtain ⟨low, high⟩ := relative _ sumNonneg
      rw [runningSum_append_singleton, List.length_append, List.length_singleton, total_append,
        total_cons, total_nil, add_zero, pow_succ', pow_succ', mul_assoc, mul_assoc]
      constructor
      · refine le_trans (mul_le_mul_of_nonneg_left ?_ downNonneg) low
        linarith
      · refine le_trans high (mul_le_mul_of_nonneg_left ?_ (zero_le_one.trans leUp))
        linarith
  intro part leading
  have inside : ∀ sample ∈ part, 0 ≤ sample.2 := fun sample member =>
    nonneg sample (leading.subset member)
  obtain ⟨lower, upper⟩ := powers part inside
  have mass := total_nonneg inside
  constructor
  · refine le_trans (mul_le_mul_of_nonneg_right ?_ mass) lower
    exact pow_le_pow_of_le_one downNonneg downLe leading.length_le
  · refine upper.trans (mul_le_mul_of_nonneg_right ?_ mass)
    exact pow_le_pow_right₀ leUp leading.length_le

omit [IsStrictOrderedRing K] in
/-- Sums that are never rounded are exact. -/
theorem tracks_of_exact (exact' : ∀ part, part <+: samples → round (total part) = total part) :
    Tracks round 1 1 samples := by
  -- By induction on the part, each sum is the exact one before it is rounded.
  have sums : ∀ part : List (α × K), part <+: samples → runningSum round part = total part := by
    intro part
    induction part using List.reverseRecOn with
    | nil => simp
    | append_singleton part sample ih =>
      intro leading
      have shorter : part <+: samples := (List.prefix_append part [sample]).trans leading
      have grown : total part + sample.2 = total (part ++ [sample]) := by simp
      rw [runningSum_append_singleton, ih shorter, grown, exact' _ leading]
  intro part leading
  rw [sums part leading, one_mul]
  exact ⟨le_rfl, le_rfl⟩

/-! ### Halving the weight -/

variable [LinearOrder α]

/-- The weight of the samples with a value below another. -/
def below (samples : List (α × K)) (value : α) : K :=
  total (samples.filter fun sample => sample.1 < value)

/-- The weight of the samples with a value at or below another. -/
def upTo (samples : List (α × K)) (value : α) : K :=
  total (samples.filter fun sample => sample.1 ≤ value)

/-- A sample halves the weight up to a lower and an upper factor. -/
structure Halves (low high : K) (samples : List (α × K)) (value : α) : Prop where
  sampled : value ∈ samples.map Prod.fst
  below_lt : low * below samples value < high * (total samples / 2)
  le_upTo : low * (total samples / 2) ≤ high * upTo samples value

omit [LinearOrder K] [IsStrictOrderedRing K] in
theorem below_perm (perm : first.Perm second) (value : α) : below first value = below second value :=
  total_perm (perm.filter _)

omit [LinearOrder K] [IsStrictOrderedRing K] in
theorem upTo_perm (perm : first.Perm second) (value : α) : upTo first value = upTo second value :=
  total_perm (perm.filter _)

omit [IsStrictOrderedRing K] in
/-- Halving does not depend on the order of the samples. -/
theorem Halves.perm (halves : Halves low high first value) (perm : first.Perm second) :
    Halves low high second value where
  sampled := (perm.map Prod.fst).subset halves.sampled
  below_lt := by
    rw [← below_perm perm, ← total_perm perm]
    exact halves.below_lt
  le_upTo := by
    rw [← upTo_perm perm, ← total_perm perm]
    exact halves.le_upTo

/-- The search over values in order finds a sample that halves the weight. -/
theorem halves_crossing {bound : K} (nonneg : ∀ sample ∈ samples, 0 ≤ sample.2)
    (ordered : samples.Pairwise fun first second => first.1 ≤ second.1)
    (lowNonneg : 0 ≤ low) (highNonneg : 0 ≤ high) (tracks : Tracks round low high samples)
    (positive : 0 < bound) (lower : low * (total samples / 2) ≤ bound)
    (upper : bound ≤ high * (total samples / 2)) (reached : bound ≤ runningSum round samples) :
    ∃ value, crossing round bound 0 samples = some value ∧ Halves low high samples value := by
  obtain ⟨before, value, weight, after, split, found, short, crosses⟩ :=
    exists_crossing positive reached
  refine ⟨value, found, ?_⟩
  subst split
  obtain ⟨orderedBefore, orderedAfter, across⟩ := List.pairwise_append.mp ordered
  obtain ⟨ahead, -⟩ := List.pairwise_cons.mp orderedAfter
  have nonnegBefore : ∀ sample ∈ before, 0 ≤ sample.2 := fun sample member =>
    nonneg sample (List.mem_append_left _ member)
  have nonnegAfter : ∀ sample ∈ after, 0 ≤ sample.2 := fun sample member =>
    nonneg sample (List.mem_append_right _ (List.mem_cons_of_mem _ member))
  -- Every value below the one found lies before it.
  have belowBefore : below (before ++ (value, weight) :: after) value ≤ total before := by
    have none : after.filter (fun sample => sample.1 < value) = [] := by
      rw [List.filter_eq_nil_iff]
      intro sample member
      simpa using ahead sample member
    rw [below, List.filter_append, total_append, List.filter_cons_of_neg (by simp), none, total_nil,
      add_zero]
    exact total_filter_le nonnegBefore _
  -- Every value up to and with the one found is at or below it.
  have upToAfter : total (before ++ [(value, weight)]) ≤
      upTo (before ++ (value, weight) :: after) value := by
    have all : before.filter (fun sample => sample.1 ≤ value) = before := by
      rw [List.filter_eq_self]
      intro sample member
      simpa using across sample member (value, weight) List.mem_cons_self
    have rest : 0 ≤ total (after.filter fun sample => sample.1 ≤ value) :=
      total_nonneg fun sample member => nonnegAfter sample (List.mem_filter.mp member).1
    rw [upTo, List.filter_append, all, List.filter_cons_of_pos (by simp)]
    simp only [total_append, total_cons, total_nil]
    linarith
  refine ⟨by simp, ?_, ?_⟩
  · calc low * below (before ++ (value, weight) :: after) value
        ≤ low * total before := by gcongr
      _ ≤ runningSum round before := (tracks before (List.prefix_append _ _)).1
      _ < bound := short
      _ ≤ _ := upper
  · have part : before ++ [(value, weight)] <+: before ++ (value, weight) :: after :=
      ⟨after, by simp⟩
    calc low * (total (before ++ (value, weight) :: after) / 2)
        ≤ bound := lower
      _ ≤ runningSum round (before ++ [(value, weight)]) := crosses
      _ ≤ high * total (before ++ [(value, weight)]) := (tracks _ part).2
      _ ≤ _ := by gcongr

/-! ### Groups that hold most of the weight -/

/-- A group of samples that holds more than half of the weight keeps every halving
value between its own values. -/
theorem Halves.between (halves : Halves low high samples value)
    (nonneg : ∀ sample ∈ samples, 0 ≤ sample.2) (lowPositive : 0 < low) (highPositive : 0 < high)
    {group others : List (α × K)} (split : samples.Perm (group ++ others))
    (majority : high * (total samples / 2) < low * total group) :
    (∃ sample ∈ group, sample.1 ≤ value) ∧ ∃ sample ∈ group, value ≤ sample.1 := by
  have whole : total samples = total group + total others := by
    rw [total_perm split, total_append]
  have nonneg' : ∀ sample ∈ group ++ others, 0 ≤ sample.2 := fun sample member =>
    nonneg sample (split.symm.subset member)
  have nonnegGroup : ∀ sample ∈ group, 0 ≤ sample.2 := fun sample member =>
    nonneg' sample (List.mem_append_left _ member)
  have nonnegOthers : ∀ sample ∈ others, 0 ≤ sample.2 := fun sample member =>
    nonneg' sample (List.mem_append_right _ member)
  have mass := total_nonneg nonneg
  constructor
  · by_contra above
    push Not at above
    -- Only the others can lie at or below the value.
    have none : group.filter (fun sample => sample.1 ≤ value) = [] := by
      rw [List.filter_eq_nil_iff]
      intro sample member
      simpa using above sample member
    have few : upTo samples value ≤ total others := by
      rw [upTo_perm split, upTo, List.filter_append, none, List.nil_append]
      exact total_filter_le nonnegOthers _
    have needed : low * (total samples / 2) ≤ high * total others :=
      halves.le_upTo.trans (mul_le_mul_of_nonneg_left few highPositive.le)
    have gap : low * high * total samples - high ^ 2 * (total samples / 2) -
        low ^ 2 * (total samples / 2) = - (low - high) ^ 2 * (total samples / 2) := by ring
    have square := mul_nonneg (sq_nonneg (low - high)) (div_nonneg mass zero_le_two)
    nlinarith [mul_lt_mul_of_pos_left majority highPositive, mul_le_mul_of_nonneg_left needed lowPositive.le]
  · by_contra under
    push Not at under
    -- The whole group lies below the value.
    have all : group.filter (fun sample => sample.1 < value) = group := by
      rw [List.filter_eq_self]
      intro sample member
      simpa using under sample member
    have many : total group ≤ below samples value := by
      rw [below_perm split, below, List.filter_append, all, total_append]
      have rest : 0 ≤ total (others.filter fun sample => sample.1 < value) :=
        total_nonneg fun sample member => nonnegOthers sample (List.mem_filter.mp member).1
      linarith
    have fewer := halves.below_lt
    have more : low * total group ≤ low * below samples value := by gcongr
    linarith

end Library.WeightedMedian
