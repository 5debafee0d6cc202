import Endure.Protocol.MinerService
import Endure.Protocol.Validation
import Endure.Storage.RoundRuns

/-!
# Windows, phases and the closing tick

`endure/protocol/round_engine.py` and the fixed daily clock of
`endure/protocol/schedulers.py`: the windows of a day, the phase of a round at an instant, and
the tick of `endure/protocol/validator_service.py` that ends the reveals. Days are counted as
date ordinals and instants in microseconds of UTC from the start of day zero.
-/

namespace Endure.Protocol

open Endure.Storage Endure.Scoring

def minute : ℤ := 60 * 1000000

def hour : ℤ := 60 * minute

def day : ℤ := 24 * hour

/-! ### Dates -/

/-- Days of a common year before a month. -/
def daysBeforeMonth (month : ℕ) : ℕ :=
  ([0, 31, 59, 90, 120, 151, 181, 212, 243, 273, 304, 334] : List ℕ).getD (month - 1) 0

/-- Year, month and day of an ordinal, the first of January of year 1 being one. -/
def ymdOfOrdinal (ordinal : ℕ) : ℕ × ℕ × ℕ :=
  let fromStart := ordinal - 1
  let n400 := fromStart / 146097
  let in400 := fromStart % 146097
  let n100 := in400 / 36524
  let in100 := in400 % 36524
  let n4 := in100 / 1461
  let in4 := in100 % 1461
  let n1 := in4 / 365
  let inYear := in4 % 365
  let year := n400 * 400 + 1 + n100 * 100 + n4 * 4 + n1
  if n1 = 4 ∨ n100 = 4 then (year - 1, 12, 31)
  else
    let leapYear := n1 = 3 ∧ (n4 ≠ 24 ∨ n100 = 3)
    let daysBefore := fun month =>
      daysBeforeMonth month + if 2 < month ∧ leapYear then 1 else 0
    -- the estimate is the month or the one after it
    let estimate := (inYear + 50) / 32
    let month := if inYear < daysBefore estimate then estimate - 1 else estimate
    (year, month, inYear - daysBefore month + 1)

/-- A number with leading zeros up to a width. -/
def zeroPadded (width value : ℕ) : String :=
  let digits := Nat.toDigits 10 value
  String.ofList (List.replicate (width - digits.length) '0' ++ digits)

/-- `date.isoformat`. -/
def isoformat (ordinal : ℤ) : String :=
  match ymdOfOrdinal ordinal.toNat with
  | (year, month, day) => zeroPadded 4 year ++ "-" ++ zeroPadded 2 month ++ "-" ++ zeroPadded 2 day

/-! ### Windows -/

/-- Boundaries relative to the close. -/
structure WindowOffsets where
  commitOpenBeforeClose : ℤ
  commitCloseBeforeClose : ℤ
  revealOpenAfterClose : ℤ
  revealCloseAfterClose : ℤ
  commit_ordered : commitCloseBeforeClose < commitOpenBeforeClose
  reveal_ordered : revealOpenAfterClose < revealCloseAfterClose

def defaultOffsets : WindowOffsets where
  commitOpenBeforeClose := 9 * hour
  commitCloseBeforeClose := 30 * minute
  revealOpenAfterClose := 30 * minute
  revealCloseAfterClose := 4 * hour
  commit_ordered := by decide
  reveal_ordered := by decide

/-- The windows of a day, anchored at 20:00. -/
def computeFixedUtcWindows (anchorDay : ℤ) (offsets : WindowOffsets) : RoundWindows :=
  let close := anchorDay * day + 20 * hour
  { roundId := isoformat anchorDay
    commitOpen := close - offsets.commitOpenBeforeClose
    commitClose := close - offsets.commitCloseBeforeClose
    t0Close := close
    revealOpen := close + offsets.revealOpenAfterClose
    revealClose := close + offsets.revealCloseAfterClose }

example : (computeFixedUtcWindows 739786 defaultOffsets).roundId = "2026-06-19" ∧
    isoformat 738945 = "2024-02-29" ∧ isoformat 1 = "0001-01-01" := by decide +kernel

/-- The phase of a round at an instant: inclusive opens, inclusive closes. -/
def phaseAt (now : ℤ) (windows : RoundWindows) : RoundPhase :=
  if now < windows.commitOpen then .preOpen
  else if now ≤ windows.commitClose then .commit
  else if now < windows.revealOpen then .awaitingClose
  else if now ≤ windows.revealClose then .reveal
  else .closed

/-- The scheduler that anchors rounds at 20:00 every calendar day. -/
structure FixedUtcScheduler where
  offsets : WindowOffsets

/-- The window of the day an instant falls on, when the instant is inside it. -/
def FixedUtcScheduler.activeWindow (scheduler : FixedUtcScheduler) (now : ℤ) :
    Option RoundWindows :=
  let windows := computeFixedUtcWindows (now / day) scheduler.offsets
  if windows.commitOpen ≤ now ∧ now ≤ windows.revealClose then some windows else none

/-! ### The tick over one round -/

/-- What a tick calls on: the consensus of the frozen bundles, the time stamp, and the
resolution of a revealed round's horizons, which says whether anything was scored and what
failed. -/
structure RoundProgram where
  consensusRows : List (Hotkey × Option String) → Option (List AssessmentConsensusRow)
  isoformat : ℤ → String
  resolveDue : RoundKey → RoundWindows → ℤ → Store → (Bool × Option String) × Store

/-- Advance one round: publish and reveal an open round past its reveal close, then resolve
what is due of a revealed one. -/
def advanceOneRound (program : RoundProgram) (round : RoundKey) (now : ℤ) (store : Store) :
    Except StorageError ((Bool × Option String) × Store) :=
  match store.roundWindows round with
  | none => .ok ((false, none), store)
  | some windows =>
    if store.roundState round = some .open ∧ windows.revealClose < now then do
      let (_, store) ← store.publishAssessmentConsensusFromAcceptedBundlesAndReveal round
        program.consensusRows (program.isoformat now)
      return program.resolveDue round windows now store
    else if store.roundState round = some .revealed ∨
        store.roundState round = some .partiallyScored then
      .ok (program.resolveDue round windows now store)
    else .ok ((false, none), store)

/-! ### Phases and windows -/

section phases

variable {now : ℤ} {windows : RoundWindows}

/-- Windows whose boundaries are in order. -/
structure Ordered (windows : RoundWindows) : Prop where
  commit : windows.commitOpen ≤ windows.commitClose
  gap : windows.commitClose < windows.revealOpen
  reveal : windows.revealOpen ≤ windows.revealClose

theorem ordered_computeFixedUtcWindows (anchorDay : ℤ) :
    Ordered (computeFixedUtcWindows anchorDay defaultOffsets) := by
  constructor <;> simp only [computeFixedUtcWindows, defaultOffsets, hour, minute] <;> omega

theorem phaseAt_eq_commit_iff :
    phaseAt now windows = .commit ↔ windows.commitOpen ≤ now ∧ now ≤ windows.commitClose := by
  unfold phaseAt
  split_ifs <;> simp <;> omega

theorem phaseAt_eq_reveal_iff (ordered : Ordered windows) :
    phaseAt now windows = .reveal ↔ windows.revealOpen ≤ now ∧ now ≤ windows.revealClose := by
  have := ordered.commit
  have := ordered.gap
  unfold phaseAt
  split_ifs <;> simp <;> omega

theorem phaseAt_eq_closed_iff (ordered : Ordered windows) :
    phaseAt now windows = .closed ↔ windows.revealClose < now := by
  have := ordered.commit
  have := ordered.gap
  have := ordered.reveal
  unfold phaseAt
  split_ifs <;> simp <;> omega

/-- A round is under way from its commit open to its reveal close. -/
theorem under_way_iff (ordered : Ordered windows) :
    (phaseAt now windows ≠ .preOpen ∧ phaseAt now windows ≠ .closed) ↔
      windows.commitOpen ≤ now ∧ now ≤ windows.revealClose := by
  rw [Ne, Ne, phaseAt_eq_closed_iff ordered]
  have : phaseAt now windows = .preOpen ↔ now < windows.commitOpen := by
    unfold phaseAt
    split_ifs <;> simp_all
  rw [this]
  omega

end phases

/-! ### The time checks of the verdicts -/

section verdicts

variable {payload : Type} {codec : Codec payload} {roundId schemaId bundleHash : String}
  {specVersion : ℤ} {now : ℤ}

/-- The checks both verdicts make before they look at the clock. -/
def ClearsHeader (codec : Codec payload) (roundId schemaId : String) (specVersion : ℤ) : Prop :=
  isCanonicalRoundId roundId = true ∧ specVersion = currentVersionKey ∧
    (codec.registry schemaId).isSome

/-- A commit is late exactly when it clears the header outside its window. -/
theorem validateCommit_late_iff {commitOpen commitClose : ℤ} :
    (validateCommit codec roundId schemaId specVersion bundleHash now commitOpen
        commitClose).rejectionCode = some .lateCommit ↔
      ClearsHeader codec roundId schemaId specVersion ∧ ¬(commitOpen ≤ now ∧ now ≤ commitClose) := by
  unfold validateCommit ClearsHeader
  split_ifs <;> simp_all [Verdict.reject, Verdict.accept, Option.isSome_iff_ne_none]

theorem commitOpen_of_accepted {commitOpen commitClose : ℤ}
    (accepted : (validateCommit codec roundId schemaId specVersion bundleHash now commitOpen
      commitClose).accepted = true) : commitOpen ≤ now ∧ now ≤ commitClose := by
  by_contra outside
  unfold validateCommit at accepted
  rw [if_pos outside] at accepted
  split_ifs at accepted <;> cases accepted

theorem classifyValidationError_ne_late (errors : List String) :
    classifyValidationError errors ≠ .lateReveal := by
  unfold classifyValidationError
  split_ifs <;> decide

/-- No check after the clock calls a reveal late. -/
theorem validateRevealPreimage_not_late (entry : SchemaRegistryEntry payload)
    (bundleJson nonceHex committed : String) (minerHotkey : Hotkey) (tickers : List String) :
    (validateRevealPreimage codec entry roundId schemaId bundleJson nonceHex committed minerHotkey
      tickers).rejectionCode ≠ some .lateReveal := by
  unfold validateRevealPreimage validateRevealBundle
  repeat' split
  all_goals simp [Verdict.reject, Verdict.accept, classifyValidationError_ne_late]

/-- A reveal is late exactly when it clears the header and the payload caps outside its window. -/
theorem validateReveal_late_iff {revealOpen revealClose : ℤ} {bundleJson nonceHex : String}
    {committed : Option String} {minerHotkey : Hotkey} {tickers : List String} :
    (validateReveal codec roundId schemaId specVersion bundleJson nonceHex committed minerHotkey now
        revealOpen revealClose tickers).rejectionCode = some .lateReveal ↔
      (ClearsHeader codec roundId schemaId specVersion ∧
        revealPayloadRejection bundleJson nonceHex = none) ∧
      ¬(revealOpen ≤ now ∧ now ≤ revealClose) := by
  unfold validateReveal ClearsHeader
  by_cases canonical : isCanonicalRoundId roundId = true
  · by_cases current : specVersion = currentVersionKey
    · cases codec.registry schemaId with
      | none => simp [canonical, current, Verdict.reject]
      | some entry =>
        cases refused : revealPayloadRejection bundleJson nonceHex with
        | some code =>
          have : code = .payloadTooLarge := by
            unfold revealPayloadRejection at refused
            split_ifs at refused
            exact (Option.some.inj refused).symm
          simp [canonical, current, this, Verdict.reject]
        | none =>
          by_cases inside : revealOpen ≤ now ∧ now ≤ revealClose
          · cases committed with
            | none => simp [canonical, current, inside, Verdict.reject]
            | some committed =>
              simp [canonical, current, inside, validateRevealPreimage_not_late]
          · simp [canonical, current, inside, Verdict.reject]
    · simp [canonical, current, Verdict.reject]
  · simp [canonical, Verdict.reject]

end verdicts

/-! ### The clock against the round -/

/-- What one day's window and one instant have to do with each other: the scheduler is inside
the window exactly while the round is under way, the verdicts' time checks pass exactly in
their phases, and a tick ends the reveals only when none is accepted any more. -/
structure ClockAgrees (anchorDay now : ℤ) (windows : RoundWindows) : Prop where
  active : (FixedUtcScheduler.mk defaultOffsets).activeWindow now = some windows ↔
    phaseAt now windows ≠ .preOpen ∧ phaseAt now windows ≠ .closed
  commits : ∀ (payload : Type) (codec : Codec payload) roundId schemaId specVersion bundleHash,
    ClearsHeader codec roundId schemaId specVersion →
      ((validateCommit codec roundId schemaId specVersion bundleHash now windows.commitOpen
        windows.commitClose).rejectionCode ≠ some .lateCommit ↔ phaseAt now windows = .commit)
  reveals : ∀ (payload : Type) (codec : Codec payload) roundId schemaId specVersion bundleJson
    nonceHex committed minerHotkey tickers, ClearsHeader codec roundId schemaId specVersion →
      revealPayloadRejection bundleJson nonceHex = none →
      ((validateReveal codec roundId schemaId specVersion bundleJson nonceHex committed
        minerHotkey now windows.revealOpen windows.revealClose tickers).rejectionCode ≠
          some .lateReveal ↔ phaseAt now windows = .reveal)
  closing : ∀ program round store outcome later, store.roundWindows round = some windows →
    store.roundState round = some .open →
    advanceOneRound program round now store = .ok (outcome, later) →
    later.roundState round ≠ some .open →
    ∀ (payload : Type) (codec : Codec payload) roundId schemaId specVersion bundleJson nonceHex
      committed minerHotkey tickers,
      (validateReveal codec roundId schemaId specVersion bundleJson nonceHex committed
        minerHotkey now windows.revealOpen windows.revealClose tickers).accepted = false
  actable : ∀ (payload : Type) (codec : Codec payload) roundId schemaId specVersion,
    (∀ bundleHash, (validateCommit codec roundId schemaId specVersion bundleHash now
        windows.commitOpen windows.commitClose).accepted = true →
      (FixedUtcScheduler.mk defaultOffsets).activeWindow now = some windows ∧
        phaseAt now windows = .commit) ∧
    ∀ bundleJson nonceHex committed minerHotkey tickers,
      (validateReveal codec roundId schemaId specVersion bundleJson nonceHex committed minerHotkey
        now windows.revealOpen windows.revealClose tickers).accepted = true →
      (FixedUtcScheduler.mk defaultOffsets).activeWindow now = some windows ∧
        phaseAt now windows = .reveal

section clock

variable {anchorDay now : ℤ}

/-- The scheduler names a day's window on that day only. -/
theorem activeWindow_eq_some_iff :
    (FixedUtcScheduler.mk defaultOffsets).activeWindow now =
        some (computeFixedUtcWindows anchorDay defaultOffsets) ↔
      now / day = anchorDay ∧
        (computeFixedUtcWindows anchorDay defaultOffsets).commitOpen ≤ now ∧
        now ≤ (computeFixedUtcWindows anchorDay defaultOffsets).revealClose := by
  simp only [FixedUtcScheduler.activeWindow]
  constructor
  · intro named
    split_ifs at named with inside
    have same := Option.some.inj named
    have sameDay : now / day = anchorDay := by
      have := congrArg RoundWindows.t0Close same
      simp only [computeFixedUtcWindows, day, hour, minute] at this ⊢
      omega
    rw [sameDay] at inside
    exact ⟨sameDay, inside⟩
  · rintro ⟨sameDay, inside⟩
    rw [sameDay, if_pos inside]

/-- An instant inside a day's window is on that day, or it is the midnight that ends it. -/
theorem day_of_inside (opened : (computeFixedUtcWindows anchorDay defaultOffsets).commitOpen ≤ now)
    (notClosed : now ≤ (computeFixedUtcWindows anchorDay defaultOffsets).revealClose) :
    now / day = anchorDay ↔ now ≠ (anchorDay + 1) * day := by
  simp only [computeFixedUtcWindows, defaultOffsets, day, hour, minute] at *
  omega

/-- The midnight that ends a day is inside its window. -/
theorem inside_at_midnight :
    (computeFixedUtcWindows anchorDay defaultOffsets).commitOpen ≤ (anchorDay + 1) * day ∧
      (anchorDay + 1) * day ≤ (computeFixedUtcWindows anchorDay defaultOffsets).revealClose := by
  simp only [computeFixedUtcWindows, defaultOffsets, day, hour, minute]
  omega

/-- A tick that ends the reveals of an open round runs after the reveal close. -/
theorem closed_of_advanceOneRound {program : RoundProgram} {round : RoundKey} {store later : Store}
    {windows : RoundWindows} {outcome : Bool × Option String}
    (opened : store.roundWindows round = some windows)
    (isOpen : store.roundState round = some .open)
    (done : advanceOneRound program round now store = .ok (outcome, later))
    (ended : later.roundState round ≠ some .open) : windows.revealClose < now := by
  by_contra early
  simp only [advanceOneRound, opened, isOpen, early, and_false, if_false, Option.some.injEq,
    reduceCtorEq, or_self] at done
  cases done
  exact ended isOpen

/-- A reveal is accepted inside its window only. -/
theorem not_accepted_of_outside {payload : Type} {codec : Codec payload}
    {roundId schemaId bundleJson nonceHex : String} {specVersion revealOpen revealClose : ℤ}
    {committed : Option String} {minerHotkey : Hotkey} {tickers : List String}
    (outside : revealClose < now) :
    (validateReveal codec roundId schemaId specVersion bundleJson nonceHex committed minerHotkey now
      revealOpen revealClose tickers).accepted = false := by
  by_contra accepted
  have inside := validateReveal_accepted (Bool.not_eq_false _ ▸ accepted)
  omega

/-- The clock, the phases, the verdicts and the closing tick agree about a day at every instant
but the midnight that ends it: the reveals are still open then, and the scheduler has moved on
to the next day. -/
theorem clockAgrees_iff :
    ClockAgrees anchorDay now (computeFixedUtcWindows anchorDay defaultOffsets) ↔
      now ≠ (anchorDay + 1) * day := by
  have ordered := ordered_computeFixedUtcWindows anchorDay
  constructor
  · intro agrees midnight
    -- at that midnight the reveals are open, and the clock names the next day
    have inside := @inside_at_midnight anchorDay
    rw [← midnight] at inside
    have named := activeWindow_eq_some_iff.mp (agrees.active.mpr ((under_way_iff ordered).mpr inside))
    exact (day_of_inside inside.1 inside.2).mp named.1 midnight
  · intro elsewhere
    have active : (FixedUtcScheduler.mk defaultOffsets).activeWindow now =
        some (computeFixedUtcWindows anchorDay defaultOffsets) ↔
        (computeFixedUtcWindows anchorDay defaultOffsets).commitOpen ≤ now ∧
          now ≤ (computeFixedUtcWindows anchorDay defaultOffsets).revealClose := by
      rw [activeWindow_eq_some_iff]
      constructor
      · exact fun named => named.2
      · exact fun inside => ⟨(day_of_inside inside.1 inside.2).mpr elsewhere, inside⟩
    refine ⟨active.trans (under_way_iff ordered).symm, ?_, ?_, ?_, ?_⟩
    · intro payload codec roundId schemaId specVersion bundleHash clears
      rw [phaseAt_eq_commit_iff, Ne, validateCommit_late_iff, not_and_not_right]
      exact ⟨fun punctual => punctual clears, fun inside _ => inside⟩
    · intro payload codec roundId schemaId specVersion bundleJson nonceHex committed minerHotkey
        tickers clears fits
      rw [phaseAt_eq_reveal_iff ordered, Ne, validateReveal_late_iff, not_and_not_right]
      exact ⟨fun punctual => punctual ⟨clears, fits⟩, fun inside _ => inside⟩
    · intro program round store outcome later opened isOpen done ended payload codec roundId
        schemaId specVersion bundleJson nonceHex committed minerHotkey tickers
      exact not_accepted_of_outside (closed_of_advanceOneRound opened isOpen done ended)
    · intro payload codec roundId schemaId specVersion
      have := ordered.commit
      have := ordered.gap
      have := ordered.reveal
      constructor
      · intro bundleHash accepted
        have inside := commitOpen_of_accepted accepted
        exact ⟨active.mpr ⟨inside.1, by omega⟩, phaseAt_eq_commit_iff.mpr inside⟩
      · intro bundleJson nonceHex committed minerHotkey tickers accepted
        have inside := (validateReveal_accepted accepted).2
        exact ⟨active.mpr ⟨by omega, inside.2⟩, (phaseAt_eq_reveal_iff ordered).mpr inside⟩

/-- At the first instant of 2 January 2024 a reveal for the day before is still in time, and the
scheduler has no active window. -/
theorem no_window_at_reveal_close :
    ¬ClockAgrees 738886 (738887 * day) (computeFixedUtcWindows 738886 defaultOffsets) ∧
      (computeFixedUtcWindows 738886 defaultOffsets).roundId = "2024-01-01" ∧
      phaseAt (738887 * day) (computeFixedUtcWindows 738886 defaultOffsets) = .reveal ∧
      (FixedUtcScheduler.mk defaultOffsets).activeWindow (738887 * day) = none := by
  refine ⟨?_, by decide +kernel, by decide +kernel, by decide +kernel⟩
  intro agrees
  have named := agrees.active.mpr (by decide +kernel)
  rw [show (FixedUtcScheduler.mk defaultOffsets).activeWindow (738887 * day) = none by
    decide +kernel] at named
  cases named

end clock

end Endure.Protocol
