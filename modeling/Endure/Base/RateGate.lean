import Endure.Library.Dict
import Endure.Library.Transitions

/-!
# The adaptive gate

`AdaptiveRpcGate` of `endure/base/rate_gate.py`: additive increase and multiplicative decrease
of a shared rate, a reservation for the next paced call, and a deadline before which nothing is
sent. Calls run concurrently; each reads the clock before it takes the lock, so the locked
sections of different calls interleave freely. The clock is a rational number of seconds.
-/

namespace Endure.Base

open Library Library.Transitions

def minAdaptiveRate : ℚ := 1 / 60

def maxRetryAfterSeconds : ℚ := 60

/-- Work classes ordered by validator liveness importance. -/
inductive RpcPriority
  | essential
  | metagraph
  | bestEffort
  deriving DecidableEq

/-- The fields under the lock; they are the live process-wide budget. -/
structure AdaptiveRpcGate where
  initialRate : ℚ
  adaptiveRate : ℚ
  nextRequest : ℚ
  retryAfter : ℚ
  rateLimitedTotal : ℕ
  deferredTotal : ℕ
  deriving DecidableEq

/-- What the section at the head of a call decides: the call is deferred, it sleeps and comes
back, or it runs, with a reservation when it is paced. -/
inductive Admission
  | deferred (retryAfter : ℚ)
  | paced (delay : ℚ)
  | admitted (reservation : Option ℚ)
  deriving DecidableEq

namespace AdaptiveRpcGate

def create : AdaptiveRpcGate := ⟨1, 1, 0, 0, 0, 0⟩

/-- A fresh worker generation with the budget of this one. -/
def replacement (gate : AdaptiveRpcGate) : AdaptiveRpcGate :=
  { create with
    adaptiveRate := gate.adaptiveRate
    nextRequest := gate.nextRequest
    retryAfter := gate.retryAfter
    rateLimitedTotal := gate.rateLimitedTotal
    deferredTotal := gate.deferredTotal }

/-- The section at the head of a call, at a reading taken before the lock. -/
def admitCall (gate : AdaptiveRpcGate) (priority : RpcPriority) (now : ℚ) :
    Admission × AdaptiveRpcGate :=
  if now < gate.retryAfter then
    (.deferred gate.retryAfter, { gate with deferredTotal := gate.deferredTotal + 1 })
  else if priority = .essential then (.admitted none, gate)
  else if gate.nextRequest - now ≤ 0 then
    let reservation := now + 1 / gate.adaptiveRate
    (.admitted (some reservation), { gate with nextRequest := reservation })
  else (.paced (gate.nextRequest - now), gate)

/-- The delay of a throttle response that names one. -/
def retryAfterSeconds (named : Option ℚ) : Option ℚ := named.map (min · maxRetryAfterSeconds)

/-- Halve the rate and hold everything back until the retry deadline. -/
def recordRateLimit (gate : AdaptiveRpcGate) (named : Option ℚ) (now : ℚ) : AdaptiveRpcGate :=
  let adaptiveRate := max minAdaptiveRate (gate.adaptiveRate * (1 / 2))
  let delay := (retryAfterSeconds named).getD (1 / adaptiveRate)
  let retryAfter := max gate.retryAfter (now + delay)
  { gate with
    rateLimitedTotal := gate.rateLimitedTotal + 1
    adaptiveRate, retryAfter
    nextRequest := max gate.nextRequest retryAfter }

/-- Raise the rate. Only a call whose reservation is still the newest one may move it back. -/
def recordSuccess (gate : AdaptiveRpcGate) (now : ℚ) (reservation : Option ℚ) : AdaptiveRpcGate :=
  if now < gate.retryAfter then gate
  else
    let adaptiveRate := min gate.initialRate (gate.adaptiveRate + gate.initialRate / 8)
    let recovered := now + 1 / adaptiveRate
    { gate with
      adaptiveRate
      nextRequest :=
        if some gate.nextRequest = reservation then recovered
        else max gate.nextRequest recovered }

end AdaptiveRpcGate

/-! ### Interleavings -/

/-- A call that runs its operation. -/
structure InFlight where
  priority : RpcPriority
  admittedAt : ℚ
  reservation : Option ℚ
  deriving DecidableEq

/-- The gate in use, the calls that run under it, and the paced call it admitted last, with the
reading that admitted it. -/
structure GateWorld where
  gate : AdaptiveRpcGate
  inFlight : Dict ℕ InFlight
  newest : Option (ℕ × ℚ)

/-- The locked sections of the calls, and the replacement of the gate. -/
inductive GateEvent
  | enter (call : ℕ) (priority : RpcPriority) (now : ℚ)
  | throttled (call : ℕ) (named : Option ℚ) (now : ℚ)
  | succeeded (call : ℕ) (now : ℚ)
  | failed (call : ℕ)
  | replaced

namespace GateWorld

def start : GateWorld := ⟨.create, Dict.empty, none⟩

/-- A call passes the head section. -/
def enter (world : GateWorld) (call : ℕ) (priority : RpcPriority) (now : ℚ) : GateWorld :=
  match world.gate.admitCall priority now with
  | (.admitted reservation, gate) =>
    { gate
      inFlight := world.inFlight.set call ⟨priority, now, reservation⟩
      newest := if priority = .essential then world.newest else some (call, now) }
  | (_, gate) => { world with gate }

/-- A call succeeds; essential ones leave the budget alone. -/
def succeed (world : GateWorld) (call : ℕ) (now : ℚ) : GateWorld :=
  match world.inFlight.get? call with
  | none => world
  | some running =>
    { world with
      gate := if running.priority = .essential then world.gate
        else world.gate.recordSuccess now running.reservation
      inFlight := world.inFlight.erase call }

/-- One event. The calls of a replaced gate end under it and no longer touch the new one. -/
def apply (event : GateEvent) (world : GateWorld) : GateWorld :=
  match event with
  | .enter call priority now => world.enter call priority now
  | .throttled call named now =>
    { world with
      gate := world.gate.recordRateLimit named now
      inFlight := world.inFlight.erase call }
  | .succeeded call now => world.succeed call now
  | .failed call => { world with inFlight := world.inFlight.erase call }
  | .replaced => { world with gate := world.gate.replacement, inFlight := Dict.empty }

/-- What can come next: a call enters before it runs, and it reads the clock again, which never
goes back, when its operation has ended. -/
def Possible (event : GateEvent) (world : GateWorld) : Prop :=
  match event with
  | .enter call _ _ => world.inFlight.get? call = none
  | .throttled call _ now | .succeeded call now =>
    ∃ running, world.inFlight.get? call = some running ∧ running.admittedAt ≤ now
  | .failed call => (world.inFlight.get? call).isSome
  | .replaced => True

/-- An event admits a call. -/
def Admits (event : GateEvent) (world : GateWorld) (call : ℕ) (priority : RpcPriority) (now : ℚ) :
    Prop :=
  event = .enter call priority now ∧ ∃ reservation,
    (world.gate.admitCall priority now).1 = .admitted reservation

end GateWorld

/-! ### The sections -/

namespace AdaptiveRpcGate

variable {gate : AdaptiveRpcGate} {now : ℚ}

/-- A replacement starts with the whole budget. -/
theorem replacement_eq (whole : gate.initialRate = 1) : gate.replacement = gate := by
  cases gate
  cases whole
  rfl

/-- The rate is inside its limits. -/
structure Limited (gate : AdaptiveRpcGate) : Prop where
  initial : gate.initialRate = 1
  lower : minAdaptiveRate ≤ gate.adaptiveRate
  upper : gate.adaptiveRate ≤ 1

theorem one_le_one_div {rate : ℚ} (lower : minAdaptiveRate ≤ rate) (upper : rate ≤ 1) :
    1 ≤ 1 / rate := by
  have positive : 0 < rate := lt_of_lt_of_le (by norm_num [minAdaptiveRate]) lower
  rw [le_div_iff₀ positive, one_mul]
  exact upper

/-- What admits a call: the deadline has passed, and a paced call's reservation has come. -/
theorem admitCall_admitted {priority : RpcPriority} {reservation : Option ℚ}
    {later : AdaptiveRpcGate}
    (admitted : gate.admitCall priority now = (.admitted reservation, later)) :
    gate.retryAfter ≤ now ∧
      (priority = .essential ∧ later = gate ∨
        priority ≠ .essential ∧ gate.nextRequest ≤ now ∧
          reservation = some (now + 1 / gate.adaptiveRate) ∧
          later = { gate with nextRequest := now + 1 / gate.adaptiveRate }) := by
  rw [admitCall] at admitted
  by_cases early : now < gate.retryAfter
  · rw [if_pos early] at admitted
    cases admitted
  rw [if_neg early] at admitted
  by_cases essential : priority = .essential
  · rw [if_pos essential] at admitted
    cases admitted
    exact ⟨not_lt.mp early, Or.inl ⟨essential, rfl⟩⟩
  rw [if_neg essential] at admitted
  by_cases due : gate.nextRequest - now ≤ 0
  · rw [if_pos due] at admitted
    cases admitted
    exact ⟨not_lt.mp early, Or.inr ⟨essential, sub_nonpos.mp due, rfl, rfl⟩⟩
  · rw [if_neg due] at admitted
    cases admitted

/-- A call that is not admitted leaves the rate, the reservation and the deadline alone. -/
theorem admitCall_not_admitted {priority : RpcPriority} {admission : Admission}
    {later : AdaptiveRpcGate} (decided : gate.admitCall priority now = (admission, later))
    (refused : ∀ reservation, admission ≠ .admitted reservation) :
    ∃ deferredTotal, later = { gate with deferredTotal } := by
  rw [admitCall] at decided
  split_ifs at decided with early essential due <;> cases decided
  · exact ⟨_, rfl⟩
  · exact absurd rfl (refused none)
  · exact absurd rfl (refused _)
  · exact ⟨_, rfl⟩

theorem Limited.recordRateLimit (limited : gate.Limited) (named : Option ℚ) :
    (gate.recordRateLimit named now).Limited := by
  refine ⟨limited.initial, le_max_left _ _, max_le (by norm_num [minAdaptiveRate]) ?_⟩
  have := limited.upper
  have : 0 < gate.adaptiveRate :=
    lt_of_lt_of_le (by norm_num [minAdaptiveRate]) limited.lower
  linarith

/-- A throttle response moves nothing back. -/
theorem le_recordRateLimit (named : Option ℚ) :
    gate.retryAfter ≤ (gate.recordRateLimit named now).retryAfter ∧
      gate.nextRequest ≤ (gate.recordRateLimit named now).nextRequest :=
  ⟨le_max_left _ _, le_max_left _ _⟩

theorem Limited.recordSuccess (limited : gate.Limited) (reservation : Option ℚ) :
    (gate.recordSuccess now reservation).Limited := by
  have lower := limited.lower
  have upper := limited.upper
  rw [AdaptiveRpcGate.recordSuccess]
  split_ifs
  · exact limited
  all_goals
    refine ⟨limited.initial, ?_, ?_⟩
    · simp only [limited.initial]
      norm_num [minAdaptiveRate] at lower ⊢
      linarith
    · simp only [limited.initial]
      exact min_le_left _ _

@[simp] theorem recordSuccess_retryAfter (reservation : Option ℚ) :
    (gate.recordSuccess now reservation).retryAfter = gate.retryAfter := by
  rw [AdaptiveRpcGate.recordSuccess]
  split_ifs <;> rfl

/-- A success moves the next request back only when the reservation is still the newest. -/
theorem le_recordSuccess {reservation : Option ℚ} (older : reservation ≠ some gate.nextRequest) :
    gate.nextRequest ≤ (gate.recordSuccess now reservation).nextRequest := by
  simp only [AdaptiveRpcGate.recordSuccess, if_neg older.symm]
  split_ifs
  · exact le_rfl
  · exact le_max_left _ _

/-- A success keeps the distance from an admission that it comes after. -/
theorem spaced_recordSuccess (limited : gate.Limited) {reservation : Option ℚ} {last : ℚ}
    (spaced : last + 1 ≤ gate.nextRequest) (after : last ≤ now) :
    last + 1 ≤ (gate.recordSuccess now reservation).nextRequest := by
  by_cases held : now < gate.retryAfter
  · rw [AdaptiveRpcGate.recordSuccess, if_pos held]
    exact spaced
  · have later : (gate.recordSuccess now reservation).Limited := limited.recordSuccess reservation
    have gap := one_le_one_div later.lower later.upper
    simp only [AdaptiveRpcGate.recordSuccess, if_neg held] at gap ⊢
    split_ifs
    · linarith
    · exact spaced.trans (le_max_left _ _)

end AdaptiveRpcGate

/-! ### Runs -/

namespace GateWorld

variable {world : GateWorld}

/-- What holds in every interleaving: the next request is at least a second after the newest
paced admission, and every other paced call in flight holds a reservation from before it. -/
structure Holds (world : GateWorld) : Prop where
  limited : world.gate.Limited
  spaced : ∀ call last, world.newest = some (call, last) → last + 1 ≤ world.gate.nextRequest
  pending : ∀ call running, world.inFlight.get? call = some running →
    running.priority ≠ .essential → ∃ newest last reservation,
      world.newest = some (newest, last) ∧ running.reservation = some reservation ∧
      reservation ≤ world.gate.nextRequest ∧
      if call = newest then running.admittedAt = last else reservation ≤ last

theorem holds_start : start.Holds where
  limited := ⟨rfl, by decide +kernel, le_rfl⟩
  spaced := by simp [start]
  pending := by simp [start]

/-- A call that ends keeps the invariant when the gate keeps its distance from the newest
admission and moves back only for the newest call. -/
theorem Holds.finish (holds : world.Holds) (call : ℕ) {gate : AdaptiveRpcGate}
    (limited : gate.Limited)
    (spaced : ∀ newest last, world.newest = some (newest, last) → last + 1 ≤ gate.nextRequest)
    (onward : (∃ last, world.newest = some (call, last)) ∨
      world.gate.nextRequest ≤ gate.nextRequest) :
    Holds { world with gate, inFlight := world.inFlight.erase call } := by
  refine ⟨limited, spaced, ?_⟩
  intro other running found paced
  rw [Dict.get?_erase] at found
  split_ifs at found with same
  obtain ⟨newest, last, reservation, isNewest, reserved, below, order⟩ :=
    holds.pending other running found paced
  refine ⟨newest, last, reservation, isNewest, reserved, ?_, order⟩
  have distance := spaced newest last isNewest
  split_ifs at order with newer
  · rcases onward with ⟨last', callNewest⟩ | grown
    · -- the newest call itself has just ended
      rw [isNewest] at callNewest
      cases callNewest
      exact absurd newer same
    · exact below.trans grown
  · linarith

theorem Holds.throttled (holds : world.Holds) (call : ℕ) (named : Option ℚ) (now : ℚ) :
    (apply (.throttled call named now) world).Holds := by
  have grown : world.gate.nextRequest ≤ (world.gate.recordRateLimit named now).nextRequest :=
    (AdaptiveRpcGate.le_recordRateLimit named).2
  exact holds.finish call (holds.limited.recordRateLimit named)
    (fun newest last isNewest => (holds.spaced newest last isNewest).trans grown) (Or.inr grown)

/-- A success that comes after its own admission keeps the invariant. -/
theorem Holds.succeed (holds : world.Holds) {call : ℕ} {now : ℚ} {running : InFlight}
    (found : world.inFlight.get? call = some running) (after : running.admittedAt ≤ now) :
    (apply (.succeeded call now) world).Holds := by
  simp only [apply, GateWorld.succeed, found]
  by_cases essential : running.priority = .essential
  · rw [if_pos essential]
    exact holds.finish call holds.limited holds.spaced (Or.inr le_rfl)
  · rw [if_neg essential]
    obtain ⟨newest, last, reservation, isNewest, reserved, below, order⟩ :=
      holds.pending call running found essential
    have distance := holds.spaced newest last isNewest
    by_cases newer : call = newest
    -- its own reservation may be pulled forward, but not to before its admission
    · rw [if_pos newer] at order
      refine holds.finish call (holds.limited.recordSuccess _) ?_ (Or.inl ⟨last, newer ▸ isNewest⟩)
      intro newest' last' isNewest'
      rw [isNewest] at isNewest'
      cases isNewest'
      exact AdaptiveRpcGate.spaced_recordSuccess holds.limited distance (order ▸ after)
    · -- an older reservation is never the value of the next request
      rw [if_neg newer] at order
      have older : running.reservation ≠ some world.gate.nextRequest := by
        rw [reserved]
        intro same
        cases same
        linarith
      have grown : world.gate.nextRequest ≤
          (world.gate.recordSuccess now running.reservation).nextRequest :=
        AdaptiveRpcGate.le_recordSuccess older
      exact holds.finish call (holds.limited.recordSuccess _)
        (fun newest last isNewest => (holds.spaced newest last isNewest).trans grown)
        (Or.inr grown)

/-- An entering call keeps the invariant: a paced one is admitted once every reservation before
it has passed. -/
theorem Holds.enter (holds : world.Holds) (call : ℕ) (priority : RpcPriority) (now : ℚ) :
    (world.enter call priority now).Holds := by
  unfold GateWorld.enter
  cases decided : world.gate.admitCall priority now with
  | mk admission gate =>
    cases admission with
    | admitted reservation =>
      obtain ⟨-, ⟨essential, rfl⟩ | ⟨paced, due, rfl, rfl⟩⟩ :=
        AdaptiveRpcGate.admitCall_admitted decided
      · simp only [essential, if_true]
        refine ⟨holds.limited, holds.spaced, ?_⟩
        intro other running found urgent
        rw [Dict.get?_set] at found
        split_ifs at found
        · cases found
          exact absurd rfl urgent
        · exact holds.pending other running found urgent
      · simp only [if_neg paced]
        -- a rate of at most one leaves at least a second to the next request
        have gap := AdaptiveRpcGate.one_le_one_div holds.limited.lower holds.limited.upper
        refine ⟨⟨holds.limited.initial, holds.limited.lower, holds.limited.upper⟩, ?_, ?_⟩
        · intro newest last isNewest
          cases isNewest
          show now + 1 ≤ now + 1 / world.gate.adaptiveRate
          linarith
        · intro other running found urgent
          rw [Dict.get?_set] at found
          split_ifs at found with same
          · cases found
            exact ⟨call, now, _, rfl, rfl, le_rfl, by rw [if_pos same]⟩
          -- a pending call is older than the one admitted now
          · obtain ⟨newest, last, reservation, isNewest, reserved, below, order⟩ :=
              holds.pending other running found urgent
            refine ⟨call, now, reservation, rfl, reserved, ?_, by
              rw [if_neg same]
              exact below.trans due⟩
            show reservation ≤ now + 1 / world.gate.adaptiveRate
            linarith
    | deferred deadline =>
      obtain ⟨deferredTotal, rfl⟩ := AdaptiveRpcGate.admitCall_not_admitted decided (by simp)
      exact ⟨⟨holds.limited.initial, holds.limited.lower, holds.limited.upper⟩, holds.spaced,
        holds.pending⟩
    | paced delay =>
      obtain ⟨deferredTotal, rfl⟩ := AdaptiveRpcGate.admitCall_not_admitted decided (by simp)
      exact ⟨⟨holds.limited.initial, holds.limited.lower, holds.limited.upper⟩, holds.spaced,
        holds.pending⟩

/-- Every possible event keeps the invariant. -/
theorem Holds.step (event : GateEvent) (world : GateWorld) (possible : Possible event world)
    (holds : world.Holds) : (apply event world).Holds := by
  cases event with
  | enter call priority now => exact holds.enter call priority now
  | throttled call named now => exact holds.throttled call named now
  | succeeded call now =>
    obtain ⟨running, found, after⟩ := possible
    exact holds.succeed found after
  | failed call => exact holds.finish call holds.limited holds.spaced (Or.inr le_rfl)
  | replaced =>
    rw [apply, AdaptiveRpcGate.replacement_eq holds.limited.initial]
    exact ⟨holds.limited, holds.spaced, by simp⟩

/-- An admitted paced call is a second after the newest one, and the newest from then on. -/
theorem Holds.admitted (holds : world.Holds) {call : ℕ} {priority : RpcPriority} {now : ℚ}
    (admits : Admits (.enter call priority now) world call priority now)
    (paced : priority ≠ .essential) :
    (∀ newest last, world.newest = some (newest, last) → last + 1 ≤ now) ∧
      (apply (.enter call priority now) world).newest = some (call, now) := by
  obtain ⟨-, reservation, decided⟩ := admits
  have split : world.gate.admitCall priority now =
      (.admitted reservation, (world.gate.admitCall priority now).2) := by
    rw [← decided]
  obtain ⟨-, ⟨essential, -⟩ | ⟨-, due, -⟩⟩ := AdaptiveRpcGate.admitCall_admitted split
  · exact absurd essential paced
  · constructor
    · intro newest last isNewest
      exact (holds.spaced newest last isNewest).trans due
    · simp only [apply, GateWorld.enter]
      rw [split]
      simp only [if_neg paced]

/-- The newest paced admission is never before one that has been made. -/
def AdmittedSince (now : ℚ) (world : GateWorld) : Prop :=
  ∃ newest last, world.newest = some (newest, last) ∧ now ≤ last

theorem Holds.admittedSince (holds : world.Holds) {now : ℚ} (since : AdmittedSince now world)
    (event : GateEvent) : AdmittedSince now (apply event world) := by
  obtain ⟨newest, last, isNewest, onward⟩ := since
  cases event with
  | enter call priority reading =>
    cases decided : world.gate.admitCall priority reading with
    | mk admission gate =>
      cases admission with
      | admitted reservation =>
        -- an essential call is not paced, so it is not the newest admission
        by_cases essential : priority = .essential
        · refine ⟨newest, last, ?_, onward⟩
          simp only [apply, GateWorld.enter, decided, if_pos essential]
          exact isNewest
        · have admits : Admits (.enter call priority reading) world call priority reading :=
            ⟨rfl, reservation, by rw [decided]⟩
          have facts := holds.admitted admits essential
          refine ⟨call, reading, facts.2, ?_⟩
          have := facts.1 newest last isNewest
          linarith
      | deferred deadline =>
        refine ⟨newest, last, ?_, onward⟩
        simp only [apply, GateWorld.enter, decided]
        exact isNewest
      | paced delay =>
        refine ⟨newest, last, ?_, onward⟩
        simp only [apply, GateWorld.enter, decided]
        exact isNewest
  | throttled call named reading => exact ⟨newest, last, isNewest, onward⟩
  | succeeded call reading =>
    refine ⟨newest, last, ?_, onward⟩
    simp only [apply, GateWorld.succeed]
    split <;> exact isNewest
  | failed call => exact ⟨newest, last, isNewest, onward⟩
  | replaced => exact ⟨newest, last, isNewest, onward⟩

/-- No event moves the retry deadline back. -/
theorem Holds.retryAfter_le (holds : world.Holds) (event : GateEvent) :
    world.gate.retryAfter ≤ (apply event world).gate.retryAfter := by
  cases event with
  | enter call priority now =>
    simp only [apply, GateWorld.enter]
    cases decided : world.gate.admitCall priority now with
    | mk admission gate =>
      cases admission with
      | admitted reservation =>
        obtain ⟨-, ⟨-, rfl⟩ | ⟨-, -, -, rfl⟩⟩ := AdaptiveRpcGate.admitCall_admitted decided <;> rfl
      | deferred deadline =>
        obtain ⟨deferredTotal, rfl⟩ := AdaptiveRpcGate.admitCall_not_admitted decided (by simp)
        rfl
      | paced delay =>
        obtain ⟨deferredTotal, rfl⟩ := AdaptiveRpcGate.admitCall_not_admitted decided (by simp)
        rfl
  | throttled call named now => exact (AdaptiveRpcGate.le_recordRateLimit named).1
  | succeeded call now =>
    simp only [apply, GateWorld.succeed]
    cases world.inFlight.get? call with
    | none => exact le_rfl
    | some running => by_cases essential : running.priority = .essential <;> simp [essential]
  | failed call => exact le_rfl
  | replaced =>
    rw [apply, AdaptiveRpcGate.replacement_eq holds.limited.initial]

/-- The limits of the gate in every interleaving of its calls: the rate stays within them and the
retry deadline never moves back; no call is admitted before the deadline in force; two paced
admissions are at least a second apart; the success of an older call never moves the next request
back; and a replacement starts with the whole budget. -/
theorem gate_holds_limits {events : List GateEvent} (possible : Meets apply Possible start events) :
    let world := run apply start events
    (1 / 60 ≤ world.gate.adaptiveRate ∧ world.gate.adaptiveRate ≤ 1) ∧
    world.gate.replacement = world.gate ∧
    (∀ event, Possible event world →
      world.gate.retryAfter ≤ (apply event world).gate.retryAfter) ∧
    (∀ call priority now, Admits (.enter call priority now) world call priority now →
      world.gate.retryAfter ≤ now) ∧
    (∀ call priority now, Possible (.enter call priority now) world → priority ≠ .essential →
      Admits (.enter call priority now) world call priority now →
      ∀ between, Meets apply Possible (apply (.enter call priority now) world) between →
      ∀ call' priority' now', priority' ≠ .essential →
        Admits (.enter call' priority' now')
          (run apply (apply (.enter call priority now) world) between) call' priority' now' →
        now + 1 ≤ now') ∧
    ∀ call now, Possible (.succeeded call now) world →
      (∀ last, world.newest ≠ some (call, last)) →
      world.gate.nextRequest ≤ (apply (.succeeded call now) world).gate.nextRequest := by
  intro world
  have holds : world.Holds := run_invariant_of_meets Holds.step possible holds_start
  refine ⟨⟨holds.limited.lower, holds.limited.upper⟩,
    AdaptiveRpcGate.replacement_eq holds.limited.initial,
    fun event _ => holds.retryAfter_le event, ?_, ?_, ?_⟩
  · intro call priority now admits
    obtain ⟨-, reservation, decided⟩ := admits
    exact (AdaptiveRpcGate.admitCall_admitted
      (show world.gate.admitCall priority now = (.admitted reservation, _) by rw [← decided])).1
  · intro call priority now entering paced admits between meets call' priority' now' paced' admits'
    -- from here on the newest admission is not before this one
    have since : AdmittedSince now (apply (.enter call priority now) world) :=
      ⟨call, now, (holds.admitted admits paced).2, le_rfl⟩
    have after := run_invariant_of_meets
      (fun event world possible (both : world.Holds ∧ AdmittedSince now world) =>
        And.intro (Holds.step event world possible both.1) (both.1.admittedSince both.2 event))
      meets ⟨holds.step _ _ entering, since⟩
    obtain ⟨newest, last, isNewest, onward⟩ := after.2
    have := (after.1.admitted admits' paced').1 newest last isNewest
    linarith
  · intro call now ⟨running, found, after⟩ notNewest
    simp only [apply, GateWorld.succeed, found]
    by_cases essential : running.priority = .essential
    · rw [if_pos essential]
    · rw [if_neg essential]
      obtain ⟨newest, last, reservation, isNewest, reserved, -, order⟩ :=
        holds.pending call running found essential
      have distance := holds.spaced newest last isNewest
      -- a late success of an older call may not pull the next request forward
      have older : call ≠ newest := by
        intro same
        subst same
        exact notNewest last isNewest
      rw [if_neg older] at order
      apply AdaptiveRpcGate.le_recordSuccess
      rw [reserved]
      intro same
      cases same
      linarith

/-- Two paced calls, a late success of the first, a throttle response for the second. -/
def lateSuccess : List GateEvent :=
  [.enter 0 .metagraph 10, .enter 1 .bestEffort 11, .succeeded 0 15, .throttled 1 (some 90) 16]

theorem gate_holds_limits_lateSuccess :
    (run apply start lateSuccess).gate = ⟨1, 1 / 2, 76, 76, 1, 0⟩ ∧
      (1 / 60 ≤ (run apply start lateSuccess).gate.adaptiveRate ∧
        (run apply start lateSuccess).gate.adaptiveRate ≤ 1) := by
  have possible : Meets apply Possible start lateSuccess := by
    refine ⟨rfl, ?_, ?_, ?_, trivial⟩
    · simp only [Possible]
      decide +kernel
    · exact ⟨⟨.metagraph, 10, some 11⟩, by decide +kernel, by norm_num⟩
    · exact ⟨⟨.bestEffort, 11, some 12⟩, by decide +kernel, by norm_num⟩
  exact ⟨by decide +kernel, (gate_holds_limits possible).1⟩

end GateWorld

end Endure.Base
