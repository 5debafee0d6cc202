import Endure.Library.Checked

/-!
# The epoch schedule of CR4

`endure/base/cr4_schedule.py`: from the epoch state of a subnet at a block, the deadline of
a commitment's reveal is found by running epochs forward to the one after its reveal
period.
-/

namespace Endure.Emission

open Library.Checked

def commitInclusionBlockOffset : ℤ := 1

def maxRevealPeriodEpochs : ℤ := 100

def maxTempoBlocks : ℤ := 50400

/-- Chain values cannot produce a bounded CR4 schedule. -/
structure Cr4ScheduleError where
  message : String
  deriving DecidableEq

structure Cr4EpochSchedule where
  lastEpochBlock : ℤ
  pendingEpochAt : ℤ
  subnetEpochIndex : ℤ
  tempo : ℤ
  blocksSinceLastStep : ℤ
  currentBlock : ℤ
  deriving DecidableEq

namespace Cr4EpochSchedule

variable (schedule : Cr4EpochSchedule)

def runsEpoch (block : ℤ) : Bool :=
  0 < schedule.pendingEpochAt ∧ schedule.pendingEpochAt ≤ block ∨
    maxTempoBlocks < schedule.blocksSinceLastStep ∨
    schedule.tempo ≤ block - schedule.lastEpochBlock

def epochBeforeCoinbase (block : ℤ) : ℤ :=
  schedule.subnetEpochIndex + if schedule.runsEpoch block then 1 else 0

/-- Run the epoch of a block. -/
def advance (block : ℤ) : Cr4EpochSchedule :=
  { schedule with
    lastEpochBlock := block
    pendingEpochAt := 0
    subnetEpochIndex := schedule.subnetEpochIndex + 1
    blocksSinceLastStep := 0
    currentBlock := block }

def nextEpochBlock : ℤ :=
  let byTempo := schedule.lastEpochBlock + schedule.tempo
  let forced := schedule.currentBlock +
    max 1 (maxTempoBlocks - schedule.blocksSinceLastStep + 1)
  let earliest := min byTempo forced
  max (schedule.currentBlock + 1)
    (if 0 < schedule.pendingEpochAt then min earliest schedule.pendingEpochAt else earliest)

/-- Run epochs forward, at most a number of them, to the start of the target epoch. -/
def findEpochStart (targetEpoch : ℤ) : ℕ → Cr4EpochSchedule → Except Cr4ScheduleError ℤ
  | 0, _ => .error ⟨"CR4 reveal schedule exceeded its bounded search"⟩
  | bound + 1, state =>
    let epochBlock := state.nextEpochBlock
    if state.subnetEpochIndex + 1 = targetEpoch ∧ state.runsEpoch epochBlock then .ok epochBlock
    else
      let advanced := state.advance epochBlock
      if advanced.subnetEpochIndex = targetEpoch then .ok (epochBlock + 1)
      else findEpochStart targetEpoch bound advanced

def epochStartAfterCommit (epochsAfterCommit : ℤ) : Except Cr4ScheduleError ℤ :=
  if schedule.tempo ≤ 0 ∨ epochsAfterCommit ≤ 0 then
    .error ⟨"CR4 epoch schedule requires positive tempo and reveal period"⟩
  else
    let inclusionBlock := schedule.currentBlock + commitInclusionBlockOffset
    let commitEpoch := schedule.epochBeforeCoinbase inclusionBlock
    findEpochStart (commitEpoch + epochsAfterCommit) (epochsAfterCommit + 1).toNat schedule

def cr4RevealDeadlineBlock (revealPeriodEpochs finalityMarginBlocks : ℤ) :
    Except Cr4ScheduleError ℤ :=
  if finalityMarginBlocks < 0 then .error ⟨"finality margin must be non-negative"⟩
  else if maxRevealPeriodEpochs < revealPeriodEpochs then
    .error ⟨"CR4 reveal period exceeds evidence bound"⟩
  else (schedule.epochStartAfterCommit (revealPeriodEpochs + 1)).map (· + finalityMarginBlocks)

/-- The next epoch block lies after the current block. -/
theorem lt_nextEpochBlock : schedule.currentBlock < schedule.nextEpochBlock := by
  have := le_max_left (schedule.currentBlock + 1)
    (if 0 < schedule.pendingEpochAt then
      min (min (schedule.lastEpochBlock + schedule.tempo) (schedule.currentBlock +
        max 1 (maxTempoBlocks - schedule.blocksSinceLastStep + 1))) schedule.pendingEpochAt
    else min (schedule.lastEpochBlock + schedule.tempo) (schedule.currentBlock +
      max 1 (maxTempoBlocks - schedule.blocksSinceLastStep + 1)))
  simp only [nextEpochBlock]
  omega

variable {schedule}

theorem lt_findEpochStart {targetEpoch start : ℤ} {bound : ℕ}
    (found : findEpochStart targetEpoch bound schedule = .ok start) :
    schedule.currentBlock < start := by
  induction bound generalizing schedule with
  | zero => cases found
  | succ bound ih =>
    have next := schedule.lt_nextEpochBlock
    rw [findEpochStart] at found
    simp only at found
    split at found
    · cases found
      exact next
    · split at found
      · cases found
        omega
      · exact next.trans (ih found)

theorem lt_epochStartAfterCommit {epochs start : ℤ}
    (found : schedule.epochStartAfterCommit epochs = .ok start) :
    schedule.currentBlock < start := by
  rw [epochStartAfterCommit] at found
  split at found
  · cases found
  · exact lt_findEpochStart found

/-- A reveal deadline lies more than the margin after the current block. -/
theorem lt_cr4RevealDeadlineBlock {revealPeriodEpochs margin deadline : ℤ}
    (found : schedule.cr4RevealDeadlineBlock revealPeriodEpochs margin = .ok deadline) :
    schedule.currentBlock + margin < deadline := by
  rw [cr4RevealDeadlineBlock] at found
  split at found
  · cases found
  · split at found
    · cases found
    · obtain ⟨start, started, rfl⟩ := map_eq_ok.mp found
      have := lt_epochStartAfterCommit started
      omega

/-- The blocks from one epoch to the next when nothing is pending. -/
def epochGap (schedule : Cr4EpochSchedule) : ℤ := min schedule.tempo (maxTempoBlocks + 1)

theorem nextEpochBlock_advance (positive : 0 < schedule.tempo) (block : ℤ) :
    (schedule.advance block).nextEpochBlock = block + schedule.epochGap := by
  simp only [nextEpochBlock, advance, epochGap, maxTempoBlocks, lt_irrefl, if_false]
  omega

/-- The search ends within one epoch for each that is ahead, and no epoch comes early. -/
theorem exists_findEpochStart (schedule : Cr4EpochSchedule) (targetEpoch : ℤ) (bound : ℕ)
    (positive : 0 < schedule.tempo) (ahead : schedule.subnetEpochIndex < targetEpoch)
    (within : targetEpoch ≤ schedule.subnetEpochIndex + bound) : ∃ start,
      findEpochStart targetEpoch bound schedule = .ok start ∧
      schedule.nextEpochBlock +
        (targetEpoch - schedule.subnetEpochIndex - 1) * schedule.epochGap ≤ start := by
  induction bound generalizing schedule with
  | zero =>
    push_cast at within
    omega
  | succ bound ih =>
    rw [findEpochStart]
    simp only
    by_cases last : schedule.subnetEpochIndex + 1 = targetEpoch
    · -- The epoch that runs next is the target, now or a block later.
      have none : targetEpoch - schedule.subnetEpochIndex - 1 = 0 := by omega
      rw [none, zero_mul, add_zero]
      split
      · exact ⟨_, rfl, le_rfl⟩
      · rw [if_pos (by exact last)]
        exact ⟨_, rfl, by omega⟩
    -- one epoch nearer to the target, and one epoch's blocks later
    · have index : (schedule.advance schedule.nextEpochBlock).subnetEpochIndex =
          schedule.subnetEpochIndex + 1 := rfl
      rw [if_neg (fun both => last both.1), if_neg (by rw [index]; exact last)]
      obtain ⟨start, found, bound⟩ := ih (schedule.advance schedule.nextEpochBlock) positive
         (by rw [index]; omega) (by rw [index]; push_cast at within; omega)
      refine ⟨start, found, le_trans (le_of_eq ?_) bound⟩
      rw [nextEpochBlock_advance positive, index]
      change _ = schedule.nextEpochBlock + schedule.epochGap + _ * schedule.epochGap
      ring

/-- With a positive tempo an epoch after the commitment's is found, and each epoch in between
takes its blocks. -/
theorem exists_epochStartAfterCommit (schedule : Cr4EpochSchedule) (epochs : ℤ)
    (positive : 0 < schedule.tempo)
    (later : 0 < epochs) : ∃ start, schedule.epochStartAfterCommit epochs = .ok start ∧
      schedule.currentBlock + 1 + (epochs - 1) * schedule.epochGap ≤ start := by
  rw [epochStartAfterCommit, if_neg (by omega)]
  simp only
  -- an epoch in the block of the commitment counts already
  have commits : schedule.subnetEpochIndex ≤
        schedule.epochBeforeCoinbase (schedule.currentBlock + commitInclusionBlockOffset) ∧
      schedule.epochBeforeCoinbase (schedule.currentBlock + commitInclusionBlockOffset) ≤
        schedule.subnetEpochIndex + 1 := by
    rw [epochBeforeCoinbase]
    split
    · omega
    · omega
  generalize schedule.epochBeforeCoinbase (schedule.currentBlock + commitInclusionBlockOffset) =
    commitEpoch at commits
  obtain ⟨start, found, bound⟩ := schedule.exists_findEpochStart (commitEpoch + epochs)
    (epochs + 1).toNat positive (by omega) (by omega)
  refine ⟨start, found, le_trans ?_ bound⟩
  have next := schedule.lt_nextEpochBlock
  have gap : 0 ≤ schedule.epochGap := by
    rw [epochGap, maxTempoBlocks]
    omega
  have waits := mul_le_mul_of_nonneg_right
    (show epochs - 1 ≤ commitEpoch + epochs - schedule.subnetEpochIndex - 1 by omega) gap
  omega

/-- No epoch after the commitment's starts before the ones in between are over. -/
theorem le_epochStartAfterCommit {epochs start : ℤ}
    (found : schedule.epochStartAfterCommit epochs = .ok start) :
    schedule.currentBlock + 1 + (epochs - 1) * schedule.epochGap ≤ start := by
  have admitted := found
  rw [epochStartAfterCommit] at admitted
  split at admitted
  · cases admitted
  · next possible =>
    obtain ⟨first, same, bound⟩ :=
      schedule.exists_epochStartAfterCommit epochs (by omega) (by omega)
    cases found.symm.trans same
    exact bound

/-- A reveal deadline is found exactly for a positive tempo and a period within the bound. -/
theorem cr4RevealDeadlineBlock_eq_ok {revealPeriodEpochs margin : ℤ} (safe : 0 ≤ margin) :
    (∃ deadline, schedule.cr4RevealDeadlineBlock revealPeriodEpochs margin = .ok deadline) ↔
      0 < schedule.tempo ∧ 0 ≤ revealPeriodEpochs ∧
        revealPeriodEpochs ≤ maxRevealPeriodEpochs := by
  rw [cr4RevealDeadlineBlock, if_neg (not_lt.mpr safe)]
  constructor
  · rintro ⟨deadline, found⟩
    split at found
    · cases found
    · obtain ⟨start, started, -⟩ := map_eq_ok.mp found
      rw [epochStartAfterCommit] at started
      split at started
      · cases started
      · omega
  · rintro ⟨positive, period, bounded⟩
    obtain ⟨start, found, -⟩ := schedule.exists_epochStartAfterCommit (revealPeriodEpochs + 1)
      positive (by omega)
    rw [if_neg (not_lt.mpr bounded), found]
    exact ⟨_, rfl⟩

end Cr4EpochSchedule

end Endure.Emission
