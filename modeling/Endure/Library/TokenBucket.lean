import Mathlib

/-!
# Token buckets

A bucket holds at most its capacity of tokens and is refilled at a constant rate. Every
departure takes one token. Callers are served in the order they come, each as early as the
bucket allows.

## Main results

* `Serves.unique` — the departures are determined by the arrivals
* `Serves.count_le` — an interval of length `w` sees at most `capacity + rate * w` departures
* `Serves.eq_of_stocked` — callers that find a token each are not delayed
-/

namespace Library

/-- A bucket's capacity and the rate it is refilled at. -/
structure TokenBucket (K : Type*) where
  capacity : K
  rate : K

namespace TokenBucket

/-- The tokens in a bucket right after its last departure. -/
structure Level (K : Type*) where
  tokens : K
  instant : K

variable {K : Type*} [Field K] [LinearOrder K]

/-- The tokens at an instant after the last departure. -/
def tokensAt (bucket : TokenBucket K) (level : Level K) (instant : K) : K :=
  min bucket.capacity (level.tokens + bucket.rate * (instant - level.instant))

/-- Take one token. -/
def spend (bucket : TokenBucket K) (level : Level K) (instant : K) : Level K :=
  ⟨bucket.tokensAt level instant - 1, instant⟩

/-- The instants at which a caller that arrived at `arrival` can depart. -/
def CanDepart (bucket : TokenBucket K) (level : Level K) (arrival : K) : Set K :=
  {instant | arrival ≤ instant ∧ level.instant ≤ instant ∧ 1 ≤ bucket.tokensAt level instant}

/-- The callers depart one after the other, each as early as it can. -/
inductive Serves (bucket : TokenBucket K) : Level K → List K → List K → Prop
  | nil (level) : Serves bucket level [] []
  | cons {level arrival departure arrivals departures} :
      IsLeast (bucket.CanDepart level arrival) departure →
      Serves bucket (bucket.spend level departure) arrivals departures →
      Serves bucket level (arrival :: arrivals) (departure :: departures)

/-- The level of a full bucket. -/
def full (bucket : TokenBucket K) (instant : K) : Level K := ⟨bucket.capacity, instant⟩

/-- The instant at which a bucket is full again. -/
def fullAt (bucket : TokenBucket K) (level : Level K) : K :=
  level.instant + (bucket.capacity - level.tokens) / bucket.rate

variable {bucket : TokenBucket K} {level : Level K} {arrivals departures : List K}

theorem tokensAt_le_capacity (instant : K) : bucket.tokensAt level instant ≤ bucket.capacity :=
  min_le_left _ _

theorem tokensAt_le (instant : K) :
    bucket.tokensAt level instant ≤ level.tokens + bucket.rate * (instant - level.instant) :=
  min_le_right _ _

namespace Serves

/-- The departures are determined by the arrivals. -/
theorem unique {departures' : List K} (serves : bucket.Serves level arrivals departures)
    (serves' : bucket.Serves level arrivals departures') : departures = departures' := by
  induction serves generalizing departures' with
  | nil => cases serves'; rfl
  | cons least _ ih =>
    cases serves' with
    | cons least' rest' =>
      have same := least.unique least'
      subst same
      rw [ih rest']

/-- No caller departs before the last one did. -/
theorem le_departure (serves : bucket.Serves level arrivals departures) :
    ∀ departure ∈ departures, level.instant ≤ departure := by
  induction serves with
  | nil => simp
  | cons least _ ih =>
    intro departure member
    have first := least.1.2.1
    rcases List.mem_cons.mp member with rfl | later
    · exact first
    · exact first.trans (ih departure later)

/-- One departure for each caller. -/
theorem length_eq (serves : bucket.Serves level arrivals departures) :
    departures.length = arrivals.length := by
  induction serves with
  | nil => rfl
  | cons _ _ ih => rw [List.length_cons, List.length_cons, ih]

variable [IsStrictOrderedRing K]

/-- Up to an instant the departures take what was there and what was refilled. -/
theorem count_le_of_level (serves : bucket.Serves level arrivals departures)
    (positive : 0 < bucket.rate) (stocked : 0 ≤ level.tokens) {upTo : K}
    (started : level.instant ≤ upTo) :
    (departures.countP (· ≤ upTo) : K) ≤ level.tokens + bucket.rate * (upTo - level.instant) := by
  induction serves with
  | nil =>
    have := mul_nonneg positive.le (sub_nonneg.mpr started)
    simp only [List.countP_nil, Nat.cast_zero]
    linarith
  | @cons level arrival departure arrivals departures least rest ih =>
    have token := least.1.2.2
    have refilled : bucket.tokensAt level departure ≤ _ := tokensAt_le departure
    by_cases inTime : departure ≤ upTo
    · have later := ih (sub_nonneg.mpr token) inTime
      rw [List.countP_cons_of_pos (by simpa using inTime), Nat.cast_succ]
      simp only [spend] at later
      linarith
    · -- everything after this departure is too late as well
      have none : (departure :: departures).countP (· ≤ upTo) = 0 := by
        apply List.countP_eq_zero.mpr
        intro other member
        have : departure ≤ other := by
          rcases List.mem_cons.mp member with rfl | after
          · exact le_rfl
          · exact rest.le_departure other after
        simpa using (not_le.mp inTime).trans_le this
      have := mul_nonneg positive.le (sub_nonneg.mpr started)
      rw [none, Nat.cast_zero]
      linarith

/-- An interval of length `width` sees at most `capacity + rate * width` departures. -/
theorem count_le (serves : bucket.Serves level arrivals departures) (positive : 0 < bucket.rate)
    (roomy : 0 ≤ bucket.capacity) (start : K) {width : K} (forward : 0 ≤ width) :
    (departures.countP (fun departure => start ≤ departure ∧ departure ≤ start + width) : K) ≤
      bucket.capacity + bucket.rate * width := by
  have widened := mul_nonneg positive.le forward
  induction serves with
  | nil =>
    simp only [List.countP_nil, Nat.cast_zero]
    linarith
  | @cons level arrival departure arrivals departures least rest ih =>
    by_cases before : departure < start
    -- a departure before the interval spends nothing in it
    · rw [List.countP_cons_of_neg (by simp [before])]
      exact ih
    · have onward := not_lt.mp before
      -- no one leaves before the first in the interval, so only its end bounds the others
      have later : departures.countP (fun other => start ≤ other ∧ other ≤ start + width) =
          departures.countP (· ≤ start + width) := by
        apply List.countP_congr
        intro other member
        have := onward.trans (rest.le_departure other member)
        simp [this]
      by_cases inTime : departure ≤ start + width
      -- the level left after the first departure bounds the others
      · have counted := rest.count_le_of_level positive (sub_nonneg.mpr least.1.2.2) inTime
        have held := @tokensAt_le_capacity _ _ _ bucket level departure
        have shorter : bucket.rate * (start + width - departure) ≤ bucket.rate * width := by
          gcongr
          linarith
        rw [List.countP_cons_of_pos (by simp [onward, inTime]), later, Nat.cast_succ]
        simp only [spend] at counted
        linarith
      · have none : departures.countP (· ≤ start + width) = 0 := by
          apply List.countP_eq_zero.mpr
          intro other member
          have : departure ≤ other := rest.le_departure other member
          simpa using (not_le.mp inTime).trans_le this
        rw [List.countP_cons_of_neg (by simp [inTime]), later, none, Nat.cast_zero]
        linarith

/-- Callers that find a token each when the first of them comes are not delayed. -/
theorem eq_of_stocked (serves : bucket.Serves level arrivals departures)
    (positive : 0 < bucket.rate) (ordered : arrivals.Pairwise (· ≤ ·))
    (after : ∀ arrival ∈ arrivals, level.instant ≤ arrival)
    (stocked : ∀ arrival ∈ arrivals, (arrivals.length : K) ≤ bucket.tokensAt level arrival) :
    departures = arrivals := by
  induction serves with
  | nil => rfl
  | @cons level arrival departure arrivals departures least rest ih =>
    have one : (1 : K) ≤ (arrivals.length : K) + 1 := le_add_of_nonneg_left (Nat.cast_nonneg _)
    have held := stocked arrival List.mem_cons_self
    rw [List.length_cons, Nat.cast_succ] at held
    have atOnce : arrival ∈ bucket.CanDepart level arrival :=
      ⟨le_rfl, after arrival List.mem_cons_self, one.trans held⟩
    have same : departure = arrival := le_antisymm (least.2 atOnce) least.1.1
    subst same
    rw [List.pairwise_cons] at ordered
    congr 1
    apply ih ordered.2 ordered.1
    intro other member
    have refilled := mul_nonneg positive.le (sub_nonneg.mpr (ordered.1 other member))
    have := @tokensAt_le_capacity _ _ _ bucket level departure
    simp only [tokensAt, spend] at held this refilled ⊢
    apply le_min <;> linarith

/-- Cut a run of callers in two. -/
theorem append_inv {first second : List K}
    (serves : bucket.Serves level (first ++ second) departures) :
    ∃ level' early late, departures = early ++ late ∧ bucket.Serves level first early ∧
      bucket.Serves level' second late ∧
      (early = [] ∧ level' = level ∨ ∃ last ∈ early, level'.instant = last ∧
        0 ≤ level'.tokens) := by
  induction first generalizing level departures with
  | nil => exact ⟨level, [], departures, rfl, .nil level, serves, Or.inl ⟨rfl, rfl⟩⟩
  | cons arrival first ih =>
    cases serves with
    | @cons _ _ departure _ departures least rest =>
      obtain ⟨level', early, late, rfl, served, onward, ended⟩ := ih rest
      refine ⟨level', departure :: early, late, rfl, .cons least served, onward, Or.inr ?_⟩
      rcases ended with ⟨rfl, rfl⟩ | ⟨last, member, facts⟩
      · exact ⟨departure, List.mem_cons_self, rfl, sub_nonneg.mpr least.1.2.2⟩
      · exact ⟨last, List.mem_cons_of_mem _ member, facts⟩

end Serves

/-! ### When a bucket is full again -/

section fullAt

variable [IsStrictOrderedRing K]

omit [LinearOrder K] [IsStrictOrderedRing K] in
@[simp] theorem fullAt_full (instant : K) : bucket.fullAt (bucket.full instant) = instant := by
  simp [fullAt, full]

/-- A token is there from the time at which the bucket lacks all but one of its tokens. -/
theorem one_le_tokensAt_iff (positive : 0 < bucket.rate) (roomy : 1 ≤ bucket.capacity) (instant : K) :
    1 ≤ bucket.tokensAt level instant ↔
      bucket.fullAt level - (bucket.capacity - 1) / bucket.rate ≤ instant := by
  have gap : bucket.fullAt level - (bucket.capacity - 1) / bucket.rate =
      level.instant + (1 - level.tokens) / bucket.rate := by
    unfold fullAt
    ring
  have wait : level.instant + (1 - level.tokens) / bucket.rate ≤ instant ↔
      1 - level.tokens ≤ (instant - level.instant) * bucket.rate := by
    rw [← div_le_iff₀ positive, le_sub_iff_add_le']
  rw [gap, wait, tokensAt, le_min_iff, and_iff_right roomy, mul_comm, sub_le_iff_le_add']

/-- A departure puts the next full bucket off by the time one token takes. -/
theorem fullAt_spend (positive : 0 < bucket.rate) (instant : K) :
    bucket.fullAt (bucket.spend level instant) =
      max (bucket.fullAt level) instant + 1 / bucket.rate := by
  have missing : bucket.capacity ≤ level.tokens + bucket.rate * (instant - level.instant) ↔
      bucket.fullAt level ≤ instant := by
    rw [fullAt, ← le_sub_iff_add_le', div_le_iff₀ positive, sub_le_iff_le_add', mul_comm]
  have nonzero := positive.ne'
  by_cases filled : bucket.fullAt level ≤ instant
  · rw [max_eq_right filled]
    simp only [fullAt, spend, tokensAt, min_eq_left (missing.mpr filled)]
    ring
  · rw [max_eq_left (not_le.mp filled).le]
    simp only [fullAt, spend, tokensAt, min_eq_right (not_le.mp (missing.not.mpr filled)).le]
    field_simp
    ring

end fullAt

end TokenBucket
end Library
