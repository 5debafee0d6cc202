import Endure.Library.TokenBucket

/-!
# The message limiter

`RpcMessageLimiter` of `endure/base/rate_gate.py`: a shaper of outbound messages that keeps one
theoretical arrival time. A caller reads the clock and reserves its slot under the lock, then
sleeps outside it. The clock is a rational number of seconds.
-/

namespace Endure.Base

open Library

structure RpcMessageLimiter where
  interval : ℚ
  burstSlack : ℚ
  nextArrival : Option ℚ
  deriving DecidableEq

namespace RpcMessageLimiter

/-- A limiter that has let nothing through yet. -/
def create (ratePerSecond : ℚ) (burst : ℤ) : Except String RpcMessageLimiter :=
  if ratePerSecond ≤ 0 then .error "rate_per_second must be positive"
  else if burst < 1 then .error "burst must be at least 1"
  else
    let interval := 1 / ratePerSecond
    .ok { interval, burstSlack := interval * (burst - 1), nextArrival := none }

/-- Reserve a slot at a clock reading: how long the caller has to wait, and the limiter after. -/
def acquire (limiter : RpcMessageLimiter) (now : ℚ) : ℚ × RpcMessageLimiter :=
  let arrival := limiter.nextArrival.getD now
  let wait := arrival - limiter.burstSlack - now
  (wait, { limiter with nextArrival := some ((if now < arrival then arrival else now) +
    limiter.interval) })

/-- The instant a message is sent at: the caller sleeps when it has to wait. -/
def sendInstant (now wait : ℚ) : ℚ := if 0 < wait then now + wait else now

/-- The send instants of callers that read the clock one after the other under the lock. Sleeping
callers overlap freely, since no sleep holds the lock. -/
def sends (limiter : RpcMessageLimiter) : List ℚ → List ℚ
  | [] => []
  | now :: readings =>
    let (wait, limiter) := limiter.acquire now
    sendInstant now wait :: limiter.sends readings

/-- The bucket a limiter stands for. -/
def bucket (ratePerSecond : ℚ) (burst : ℤ) : TokenBucket ℚ := ⟨burst, ratePerSecond⟩

/-! ### The bucket behind the arrival time -/

/-- A caller is sent at the later of its reading and its slot. -/
theorem sendInstant_acquire (limiter : RpcMessageLimiter) (now : ℚ) :
    sendInstant now (limiter.acquire now).1 =
      max now (limiter.nextArrival.getD now - limiter.burstSlack) := by
  have wait : (limiter.acquire now).1 =
    limiter.nextArrival.getD now - limiter.burstSlack - now := rfl
  rw [wait, sendInstant]
  by_cases waits : 0 < limiter.nextArrival.getD now - limiter.burstSlack - now
  · rw [if_pos waits, max_eq_right (by linarith)]
    ring
  · rw [if_neg waits, max_eq_left (by linarith)]

/-- A limiter stands for a bucket at a level from a clock reading on: its arrival time is the
instant at which the bucket is full again, and no slot lies before the last departure. -/
structure StandsFor (limiter : RpcMessageLimiter) (bucket : TokenBucket ℚ)
    (level : TokenBucket.Level ℚ) (reading : ℚ) : Prop where
  interval : limiter.interval = 1 / bucket.rate
  slack : limiter.burstSlack = (bucket.capacity - 1) / bucket.rate
  arrival : ∀ now, reading ≤ now →
    max (limiter.nextArrival.getD now) now = max (bucket.fullAt level) now
  departed : ∀ now, reading ≤ now →
    level.instant ≤ max now (limiter.nextArrival.getD now - limiter.burstSlack)

namespace StandsFor

variable {limiter : RpcMessageLimiter} {bucket : TokenBucket ℚ} {level : TokenBucket.Level ℚ}
  {reading now : ℚ}

/-- The slots of the limiter and of the bucket are the same. -/
theorem slot (stands : limiter.StandsFor bucket level reading) (positive : 0 < bucket.rate)
    (roomy : 1 ≤ bucket.capacity) (onward : reading ≤ now) :
    max now (limiter.nextArrival.getD now - limiter.burstSlack) =
      max now (bucket.fullAt level - (bucket.capacity - 1) / bucket.rate) := by
  have slack : 0 ≤ (bucket.capacity - 1) / bucket.rate :=
    div_nonneg (sub_nonneg.mpr roomy) positive.le
  have same := stands.arrival now onward
  rw [stands.slack]
  grind

/-- A caller is sent as early as the bucket allows. -/
theorem isLeast (stands : limiter.StandsFor bucket level reading) (positive : 0 < bucket.rate)
    (roomy : 1 ≤ bucket.capacity) (onward : reading ≤ now) :
    IsLeast (bucket.CanDepart level now) (sendInstant now (limiter.acquire now).1) := by
  have departed := stands.departed now onward
  rw [sendInstant_acquire]
  rw [stands.slot positive roomy onward] at departed ⊢
  constructor
  · exact ⟨le_max_left _ _, departed,
      (TokenBucket.one_le_tokensAt_iff positive roomy _).mpr (le_max_right _ _)⟩
  · intro other ⟨arrived, _, token⟩
    exact max_le arrived ((TokenBucket.one_le_tokensAt_iff positive roomy _).mp token)

/-- After a send the limiter stands for the bucket with one token less. -/
theorem acquire (stands : limiter.StandsFor bucket level reading) (positive : 0 < bucket.rate)
    (roomy : 1 ≤ bucket.capacity) (onward : reading ≤ now) :
    (limiter.acquire now).2.StandsFor bucket
      (bucket.spend level (sendInstant now (limiter.acquire now).1)) now := by
  have slack : 0 ≤ (bucket.capacity - 1) / bucket.rate :=
    div_nonneg (sub_nonneg.mpr roomy) positive.le
  have interval : 0 < 1 / bucket.rate := one_div_pos.mpr positive
  have same := stands.arrival now onward
  have slot := stands.slot positive roomy onward
  have next : (limiter.acquire now).2.nextArrival =
      some (max (bucket.fullAt level) now + 1 / bucket.rate) := by
    rw [← same, ← stands.interval, RpcMessageLimiter.acquire]
    grind
  -- a delayed caller leaves before the bucket is full
  have full : bucket.fullAt (bucket.spend level (sendInstant now (limiter.acquire now).1)) =
      max (bucket.fullAt level) now + 1 / bucket.rate := by
    rw [TokenBucket.fullAt_spend positive, sendInstant_acquire, slot]
    grind
  refine ⟨stands.interval, stands.slack, ?_, ?_⟩
  · intro later _
    rw [next, full, Option.getD_some]
  · intro later after
    have kept : (limiter.acquire now).2.burstSlack = (bucket.capacity - 1) / bucket.rate :=
      stands.slack
    rw [next, kept, Option.getD_some, sendInstant_acquire, slot]
    simp only [TokenBucket.spend]
    grind

/-- Callers that read a clock which never goes back are served by the bucket. -/
theorem serves (stands : limiter.StandsFor bucket level reading) (positive : 0 < bucket.rate)
    (roomy : 1 ≤ bucket.capacity) {readings : List ℚ} (ordered : readings.Pairwise (· ≤ ·))
    (onward : ∀ now ∈ readings, reading ≤ now) :
    bucket.Serves level readings (limiter.sends readings) := by
  induction readings generalizing limiter level reading with
  | nil => exact .nil level
  | cons now readings ih =>
    rw [List.pairwise_cons] at ordered
    have first := onward now List.mem_cons_self
    exact .cons (stands.isLeast positive roomy first)
      (ih (stands.acquire positive roomy first) ordered.2 ordered.1)

end StandsFor

/-- What a limiter is built with. -/
theorem create_eq_ok {ratePerSecond : ℚ} {burst : ℤ} {limiter : RpcMessageLimiter}
    (created : create ratePerSecond burst = .ok limiter) :
    0 < ratePerSecond ∧ 1 ≤ burst ∧
      limiter = ⟨1 / ratePerSecond, 1 / ratePerSecond * (burst - 1), none⟩ := by
  rw [create] at created
  split_ifs at created with stopped empty
  cases created
  exact ⟨not_le.mp stopped, not_lt.mp empty, rfl⟩

/-- A new limiter stands for a full bucket. -/
theorem standsFor_of_create {ratePerSecond : ℚ} {burst : ℤ} {limiter : RpcMessageLimiter}
    (created : create ratePerSecond burst = .ok limiter) (start : ℚ) :
    limiter.StandsFor (bucket ratePerSecond burst)
      ((bucket ratePerSecond burst).full start) start := by
  obtain ⟨positive, nonempty, rfl⟩ := create_eq_ok created
  refine ⟨rfl, ?_, ?_, ?_⟩
  · exact one_div_mul_eq_div _ _
  · intro now onward
    rw [TokenBucket.fullAt_full, Option.getD_none, max_self, max_eq_right onward]
  · intro now onward
    exact onward.trans (le_max_left _ _)

/-- The send instants of a limiter are those of a token bucket of its burst, full at the start
and refilled at its rate, that serves the callers in lock order as early as possible. No interval
of length `width` sees more than `burst + rate * width` sends, and after an idle period of
`burst / rate` the next `burst` callers are not delayed. -/
theorem limiter_is_token_bucket {ratePerSecond : ℚ} {burst : ℤ} {limiter : RpcMessageLimiter}
    (created : create ratePerSecond burst = .ok limiter) {readings : List ℚ}
    (ordered : readings.Pairwise (· ≤ ·)) :
    (∀ start, (∀ now ∈ readings, start ≤ now) → ∀ departures,
      (bucket ratePerSecond burst).Serves ((bucket ratePerSecond burst).full start) readings
        departures ↔ departures = limiter.sends readings) ∧
    (∀ start width, 0 ≤ width →
      ((limiter.sends readings).countP (fun sent => start ≤ sent ∧ sent ≤ start + width) : ℚ) ≤
        burst + ratePerSecond * width) ∧
    ∀ earlier next, readings = earlier ++ next → (next.length : ℤ) ≤ burst →
      (∀ sent ∈ limiter.sends earlier, ∀ now ∈ next, sent + burst / ratePerSecond ≤ now) →
      limiter.sends readings = limiter.sends earlier ++ next := by
  obtain ⟨positive, nonempty, -⟩ := create_eq_ok created
  have roomy : (1 : ℚ) ≤ (bucket ratePerSecond burst).capacity := by
    change (1 : ℚ) ≤ (burst : ℚ)
    exact_mod_cast nonempty
  have run : ∀ start readings, List.Pairwise (· ≤ ·) readings → (∀ now ∈ readings, start ≤ now) →
      (bucket ratePerSecond burst).Serves ((bucket ratePerSecond burst).full start) readings
        (limiter.sends readings) :=
    fun start readings ordered onward =>
      (standsFor_of_create created start).serves positive roomy ordered onward
  have exists_start : ∃ start, ∀ now ∈ readings, start ≤ now := by
    cases readings with
    | nil => exact ⟨0, by simp⟩
    | cons now readings =>
      exact ⟨now, by simpa using (List.pairwise_cons.mp ordered).1⟩
  obtain ⟨start, onward⟩ := exists_start
  refine ⟨?_, ?_, ?_⟩
  · intro start onward departures
    have served := run start readings ordered onward
    exact ⟨fun other => other.unique served, fun same => same ▸ served⟩
  · intro opening width forward
    exact (run start readings ordered onward).count_le positive (zero_le_one.trans roomy) opening
      forward
  · intro earlier next cut few idle
    subst cut
    have served := run start _ ordered onward
    rw [List.pairwise_append] at ordered
    obtain ⟨level, early, late, split, first, second, rested⟩ := served.append_inv
    have same : early = limiter.sends earlier :=
      first.unique (run start earlier ordered.1 fun now member =>
        onward now (List.mem_append_left _ member))
    -- the bucket is full again when the next caller comes
    have refilled : ∀ now ∈ next, level.instant ≤ now ∧
        (bucket ratePerSecond burst).tokensAt level now = burst := by
      intro now member
      rcases rested with ⟨-, rfl⟩ | ⟨last, sent, rfl, stocked⟩
      · have after := onward now (List.mem_append_right _ member)
        have grown := mul_nonneg positive.le (sub_nonneg.mpr after)
        exact ⟨after, min_eq_left (le_add_of_nonneg_right grown)⟩
      · have late := idle level.instant (same ▸ sent) now member
        have gap : (burst : ℚ) / ratePerSecond ≤ now - level.instant := by linarith
        have grown := (div_le_iff₀' positive).mp gap
        have wait : 0 ≤ (burst : ℚ) / ratePerSecond :=
          div_nonneg (zero_le_one.trans roomy) positive.le
        exact ⟨by linarith, min_eq_left (grown.trans (le_add_of_nonneg_left stocked))⟩
    have undelayed : late = next := by
      apply second.eq_of_stocked positive ordered.2.1 fun now member => (refilled now member).1
      intro now member
      rw [(refilled now member).2]
      exact_mod_cast few
    rw [split, same, undelayed]

/-- Two a second with a burst of two: the third of four callers at once waits half a second. -/
theorem limiter_is_token_bucket_default :
    (create 2 2).map (fun limiter => limiter.sends [5, 5, 5, 5]) =
      .ok [5, 5, 11 / 2, 6] ∧
    ((bucket 2 2).Serves ((bucket 2 2).full 0) [5, 5, 5, 5] [5, 5, 11 / 2, 6] ∧
      ((⟨1 / 2, 1 / 2, none⟩ : RpcMessageLimiter).sends [5, 5, 5, 5]).countP
        (fun sent => (5 : ℚ) ≤ sent ∧ sent ≤ 5 + 1 / 2) ≤ (2 : ℚ) + 2 * (1 / 2)) := by
  have created : create 2 2 = .ok ⟨1 / 2, 1 / 2, none⟩ := by decide +kernel
  have bounds := limiter_is_token_bucket created
    (show List.Pairwise (· ≤ ·) ([5, 5, 5, 5] : List ℚ) by decide +kernel)
  refine ⟨by decide +kernel, ?_, ?_⟩
  · exact (bounds.1 0 (by decide +kernel) _).mpr (by decide +kernel)
  · exact bounds.2.1 5 (1 / 2) (by decide +kernel)

end RpcMessageLimiter

end Endure.Base
