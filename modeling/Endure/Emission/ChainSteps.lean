import Mathlib.Logic.Function.Iterate
import Mathlib.Order.Bounds.Basic
import Endure.Emission.EpochSchedule

/-!
# The chain block by block

`endure/base/cr4_schedule.py` jumps from epoch to epoch. What the jumps stand for is the
chain taking one block at a time: a block counts one more since the last step and runs an
epoch if one is due.
-/

namespace Endure.Emission

open Library.Checked

namespace Cr4EpochSchedule

/-- The schedule with the next block counted, before it runs an epoch. -/
def countBlock (schedule : Cr4EpochSchedule) : Cr4EpochSchedule :=
  { schedule with
    blocksSinceLastStep := schedule.blocksSinceLastStep + 1
    currentBlock := schedule.currentBlock + 1 }

/-- Whether the next block runs an epoch. -/
def nextBlockRuns (schedule : Cr4EpochSchedule) : Bool :=
  schedule.countBlock.runsEpoch schedule.countBlock.currentBlock

/-- The chain takes its next block. -/
def takeBlock (schedule : Cr4EpochSchedule) : Cr4EpochSchedule :=
  if schedule.nextBlockRuns then
    schedule.countBlock.advance schedule.countBlock.currentBlock
  else schedule.countBlock

/-- The schedule after a block, reached by taking every block up to it. -/
def after (schedule : Cr4EpochSchedule) (block : ℤ) : Cr4EpochSchedule :=
  takeBlock^[(block - schedule.currentBlock).toNat] schedule

/-- The epoch index that a block sees before its own coinbase. -/
def indexSeenAt (schedule : Cr4EpochSchedule) (block : ℤ) : ℤ :=
  (schedule.after (block - 1)).epochBeforeCoinbase block

/-- Whether a block runs an epoch. -/
def epochAt (schedule : Cr4EpochSchedule) (block : ℤ) : Bool :=
  (schedule.after (block - 1)).nextBlockRuns

theorem runsEpoch_iff (schedule : Cr4EpochSchedule) (block : ℤ) :
    schedule.runsEpoch block = true ↔
      (0 < schedule.pendingEpochAt ∧ schedule.pendingEpochAt ≤ block) ∨
        maxTempoBlocks < schedule.blocksSinceLastStep ∨
        schedule.tempo ≤ block - schedule.lastEpochBlock := by
  rw [runsEpoch]
  exact decide_eq_true_iff

@[simp]
theorem takeBlock_currentBlock (schedule : Cr4EpochSchedule) :
    schedule.takeBlock.currentBlock = schedule.currentBlock + 1 := by
  rw [takeBlock]
  split
  · rfl
  · rfl

section After

variable (schedule : Cr4EpochSchedule)

@[simp]
theorem after_currentBlock_self : schedule.after schedule.currentBlock = schedule := by
  simp [after]

theorem after_succ {block : ℤ} (later : schedule.currentBlock ≤ block) :
    schedule.after (block + 1) = (schedule.after block).takeBlock := by
  have steps : (block + 1 - schedule.currentBlock).toNat =
      (block - schedule.currentBlock).toNat + 1 := by omega
  rw [after, steps, Function.iterate_succ_apply', after]

theorem after_currentBlock {block : ℤ} (later : schedule.currentBlock ≤ block) :
    (schedule.after block).currentBlock = block := by
  induction block, later using Int.leInduction with
  | base => rw [after_currentBlock_self]
  | succ block later ih => rw [after_succ _ later, takeBlock_currentBlock, ih]

/-- Taking the blocks in two runs. -/
theorem after_after {middle block : ℤ} (reached : schedule.currentBlock ≤ middle)
    (later : middle ≤ block) : (schedule.after middle).after block = schedule.after block := by
  have stands := schedule.after_currentBlock reached
  induction block, later using Int.leInduction with
  | base =>
    have stays := (schedule.after middle).after_currentBlock_self
    rwa [stands] at stays
  | succ block later ih =>
    rw [after_succ _ (by omega), after_succ _ (by omega), ih]

end After

/-! ## The blocks before the next epoch -/

/-- The schedule at a block when no block up to it ran an epoch. -/
def waiting (schedule : Cr4EpochSchedule) (block : ℤ) : Cr4EpochSchedule :=
  { schedule with
    blocksSinceLastStep := schedule.blocksSinceLastStep + (block - schedule.currentBlock)
    currentBlock := block }

section Jump

variable (schedule : Cr4EpochSchedule)

theorem countBlock_waiting (block : ℤ) :
    (schedule.waiting block).countBlock = schedule.waiting (block + 1) := by
  simp only [countBlock, waiting, Cr4EpochSchedule.mk.injEq, true_and, and_true]
  omega

/-- A waiting subnet runs its epoch as soon as the next epoch block is reached. -/
theorem nextBlockRuns_waiting {block : ℤ} (later : schedule.currentBlock ≤ block) :
    (schedule.waiting block).nextBlockRuns = true ↔ schedule.nextEpochBlock ≤ block + 1 := by
  rw [nextBlockRuns, countBlock_waiting, runsEpoch_iff]
  simp only [waiting, nextEpochBlock]
  -- The three triggers are the three candidates of the next epoch block.
  by_cases pending : 0 < schedule.pendingEpochAt
  · rw [if_pos pending]
    omega
  · rw [if_neg pending]
    omega

/-- Until the next epoch block the subnet waits. -/
theorem after_eq_waiting {block : ℤ} (later : schedule.currentBlock ≤ block)
    (early : block < schedule.nextEpochBlock) :
    schedule.after block = schedule.waiting block := by
  induction block, later using Int.leInduction with
  | base =>
    rw [after_currentBlock_self]
    simp [waiting]
  | succ block later ih =>
    have quiet : ¬(schedule.waiting block).nextBlockRuns = true := by
      rw [nextBlockRuns_waiting _ later]
      omega
    rw [after_succ _ later, ih (by omega), takeBlock, if_neg quiet, countBlock_waiting]

/-- At the next epoch block the chain runs the epoch that the jump runs. -/
theorem after_nextEpochBlock :
    schedule.after schedule.nextEpochBlock = schedule.advance schedule.nextEpochBlock := by
  have next := schedule.lt_nextEpochBlock
  have split : schedule.nextEpochBlock = schedule.nextEpochBlock - 1 + 1 := by omega
  have runs : (schedule.waiting (schedule.nextEpochBlock - 1)).nextBlockRuns = true :=
    (schedule.nextBlockRuns_waiting (by omega)).mpr (by omega)
  conv_lhs => rw [split]
  rw [after_succ _ (by omega), after_eq_waiting _ (by omega) (by omega), takeBlock, if_pos runs,
    countBlock_waiting]
  rw [← split]
  rfl

/-- A jump lands on the first block that runs an epoch. -/
theorem isLeast_nextEpochBlock :
    IsLeast {block | schedule.currentBlock < block ∧ schedule.epochAt block = true}
      schedule.nextEpochBlock := by
  have next := schedule.lt_nextEpochBlock
  constructor
  · refine ⟨next, ?_⟩
    rw [epochAt, after_eq_waiting _ (by omega) (by omega), nextBlockRuns_waiting _ (by omega)]
    omega
  · rintro block ⟨later, runs⟩
    by_contra early
    rw [epochAt, after_eq_waiting _ (by omega) (by omega), nextBlockRuns_waiting _ (by omega)]
      at runs
    omega

end Jump

/-! ## The index before the coinbase -/

section IndexSeen

variable (schedule : Cr4EpochSchedule)

/-- What a waiting subnet shows before the coinbase, it also runs. -/
theorem nextEpochBlock_le_of_runsEpoch {block : ℤ} (later : schedule.currentBlock < block)
    (shown : (schedule.waiting (block - 1)).runsEpoch block = true) :
    schedule.nextEpochBlock ≤ block := by
  have runs : (schedule.waiting (block - 1)).nextBlockRuns = true := by
    rw [nextBlockRuns, countBlock_waiting, runsEpoch_iff]
    rw [runsEpoch_iff] at shown
    simp only [waiting] at shown ⊢
    rw [sub_add_cancel]
    omega
  have := (schedule.nextBlockRuns_waiting (by omega)).mp runs
  omega

theorem indexSeenAt_of_lt {block : ℤ} (later : schedule.currentBlock < block)
    (early : block < schedule.nextEpochBlock) :
    schedule.indexSeenAt block = schedule.subnetEpochIndex := by
  have hidden : ¬(schedule.waiting (block - 1)).runsEpoch block = true := fun shown => by
    have := schedule.nextEpochBlock_le_of_runsEpoch later shown
    omega
  rw [indexSeenAt, after_eq_waiting _ (by omega) (by omega), epochBeforeCoinbase, if_neg hidden]
  exact add_zero _

/-- At the next epoch block the index shows the epoch exactly if the schedule, which has not
counted the blocks in between, says so. -/
theorem indexSeenAt_nextEpochBlock :
    schedule.indexSeenAt schedule.nextEpochBlock =
      schedule.epochBeforeCoinbase schedule.nextEpochBlock := by
  have next := schedule.lt_nextEpochBlock
  have same : (schedule.waiting (schedule.nextEpochBlock - 1)).runsEpoch
      schedule.nextEpochBlock = schedule.runsEpoch schedule.nextEpochBlock := by
    -- The forced trigger holds early only if it forces the very next block.
    have forced : schedule.nextEpochBlock ≤ schedule.currentBlock +
        max 1 (maxTempoBlocks - schedule.blocksSinceLastStep + 1) := by
      simp only [nextEpochBlock]
      split
      · omega
      · omega
    rw [Bool.eq_iff_iff, runsEpoch_iff, runsEpoch_iff]
    simp only [waiting]
    omega
  rw [indexSeenAt, after_eq_waiting _ (by omega) (by omega), epochBeforeCoinbase, same]
  rfl

theorem indexSeenAt_of_gt {block : ℤ} (later : schedule.nextEpochBlock < block) :
    schedule.indexSeenAt block =
      (schedule.advance schedule.nextEpochBlock).indexSeenAt block := by
  rw [indexSeenAt, indexSeenAt, ← after_nextEpochBlock,
    after_after _ (schedule.lt_nextEpochBlock).le (by omega)]

/-- The search finds the first block that sees the target epoch. -/
theorem isLeast_findEpochStart {targetEpoch start : ℤ} {bound : ℕ}
    (ahead : schedule.subnetEpochIndex < targetEpoch)
    (found : findEpochStart targetEpoch bound schedule = .ok start) :
    IsLeast {block | schedule.currentBlock < block ∧
      targetEpoch ≤ schedule.indexSeenAt block} start := by
  induction bound generalizing schedule with
  | zero => cases found
  | succ bound ih =>
    have next := schedule.lt_nextEpochBlock
    have seen := schedule.indexSeenAt_nextEpochBlock
    rw [epochBeforeCoinbase] at seen
    -- No block up to the next epoch sees the target early.
    have waits : ∀ block, schedule.currentBlock < block →
        targetEpoch ≤ schedule.indexSeenAt block → schedule.nextEpochBlock ≤ block := by
      intro block later reaches
      by_contra early
      rw [schedule.indexSeenAt_of_lt later (by omega)] at reaches
      omega
    rw [findEpochStart] at found
    simp only at found
    split at found
    · next last =>
      cases found
      rw [if_pos last.2] at seen
      refine ⟨⟨next, by omega⟩, ?_⟩
      rintro block ⟨later, reaches⟩
      exact waits block later reaches
    · next unseen =>
      -- The epoch is run, and the block itself has not seen the target.
      have index : (schedule.advance schedule.nextEpochBlock).subnetEpochIndex =
          schedule.subnetEpochIndex + 1 := rfl
      have passes : ∀ block, schedule.currentBlock < block →
          targetEpoch ≤ schedule.indexSeenAt block → schedule.nextEpochBlock < block := by
        intro block later reaches
        refine lt_of_le_of_ne (waits block later reaches) fun same => unseen ?_
        rw [← same, seen] at reaches
        split at reaches
        · next shown => exact ⟨by omega, shown⟩
        · omega
      split at found
      · next run =>
        cases found
        refine ⟨⟨by omega, ?_⟩, ?_⟩
        · rw [schedule.indexSeenAt_of_gt (by omega), indexSeenAt, add_sub_cancel_right]
          change _ ≤ ((schedule.advance schedule.nextEpochBlock).after
            (schedule.advance schedule.nextEpochBlock).currentBlock).epochBeforeCoinbase _
          rw [after_currentBlock_self, epochBeforeCoinbase, run]
          split
          · omega
          · omega
        · rintro block ⟨later, reaches⟩
          have := passes block later reaches
          omega
      · next short =>
        obtain ⟨⟨after, reaches⟩, first⟩ :=
          ih (schedule.advance schedule.nextEpochBlock) (by rw [index] at short ⊢; omega) found
        have after : schedule.nextEpochBlock < start := after
        refine ⟨⟨by omega, by rwa [schedule.indexSeenAt_of_gt after]⟩, ?_⟩
        rintro block ⟨later, sees⟩
        have past := passes block later sees
        exact first ⟨past, by rwa [← schedule.indexSeenAt_of_gt past]⟩

/-- The commitment is included in the block after the current one, and sees the index that
this block sees. -/
theorem indexSeenAt_inclusion : schedule.indexSeenAt (schedule.currentBlock + 1) =
    schedule.epochBeforeCoinbase (schedule.currentBlock + commitInclusionBlockOffset) := by
  rw [indexSeenAt, add_sub_cancel_right, after_currentBlock_self]
  rfl

theorem isLeast_epochStartAfterCommit {epochs start : ℤ}
    (found : schedule.epochStartAfterCommit epochs = .ok start) :
    IsLeast {block | schedule.currentBlock + 1 < block ∧
      schedule.indexSeenAt (schedule.currentBlock + 1) + epochs ≤ schedule.indexSeenAt block}
      start := by
  rw [epochStartAfterCommit] at found
  split at found
  · cases found
  · next possible =>
    have commits : schedule.subnetEpochIndex ≤
        schedule.indexSeenAt (schedule.currentBlock + 1) := by
      rw [indexSeenAt_inclusion, epochBeforeCoinbase]
      split
      · omega
      · omega
    simp only at found
    rw [← indexSeenAt_inclusion] at found
    obtain ⟨⟨later, reaches⟩, first⟩ := schedule.isLeast_findEpochStart (by omega) found
    -- The inclusion block sees its own index, short of the target.
    have apart : ∀ block, schedule.currentBlock < block →
        schedule.indexSeenAt (schedule.currentBlock + 1) + epochs ≤ schedule.indexSeenAt block →
        schedule.currentBlock + 1 < block := by
      intro block later reaches
      refine lt_of_le_of_ne (by omega) fun same => ?_
      rw [← same] at reaches
      omega
    refine ⟨⟨apart start later reaches, reaches⟩, ?_⟩
    rintro block ⟨later, reaches⟩
    exact first ⟨by omega, reaches⟩

/-- A reveal deadline is the margin after the first block that sees the index of the inclusion
block left behind by more than the reveal period. -/
theorem isLeast_of_cr4RevealDeadlineBlock {revealPeriodEpochs margin deadline : ℤ}
    (found : schedule.cr4RevealDeadlineBlock revealPeriodEpochs margin = .ok deadline) :
    IsLeast {block | schedule.currentBlock + 1 < block ∧
      schedule.indexSeenAt (schedule.currentBlock + 1) + revealPeriodEpochs + 1 ≤
        schedule.indexSeenAt block} (deadline - margin) := by
  rw [cr4RevealDeadlineBlock] at found
  split at found
  · cases found
  · split at found
    · cases found
    · obtain ⟨start, started, rfl⟩ := map_eq_ok.mp found
      have least := schedule.isLeast_epochStartAfterCommit started
      rwa [← add_assoc, ← add_sub_cancel_right start margin] at least

/-- A longer reveal period gives no earlier deadline. -/
theorem cr4RevealDeadlineBlock_mono {shorter longer margin deadline deadline' : ℤ}
    (grows : shorter ≤ longer)
    (found : schedule.cr4RevealDeadlineBlock shorter margin = .ok deadline)
    (found' : schedule.cr4RevealDeadlineBlock longer margin = .ok deadline') :
    deadline ≤ deadline' := by
  have first := schedule.isLeast_of_cr4RevealDeadlineBlock found
  have later := schedule.isLeast_of_cr4RevealDeadlineBlock found'
  have := later.mono first fun block sees => ⟨sees.1, by have := sees.2; omega⟩
  omega

end IndexSeen

/-- **The schedule is the chain, block by block.** With a positive tempo the search ends and
its deadline is the margin after the first block past the inclusion whose index, before the
coinbase, is past the inclusion's by the reveal period and one. From every block reached, a
jump lands on the first later block that runs an epoch, in the state the chain has there.
A longer reveal period gives no earlier deadline. -/
theorem cr4RevealDeadlineBlock_spec (schedule : Cr4EpochSchedule)
    (positive : 0 < schedule.tempo) :
    (∀ revealPeriodEpochs margin : ℤ, 0 ≤ revealPeriodEpochs →
      revealPeriodEpochs ≤ maxRevealPeriodEpochs → 0 ≤ margin → ∃ start,
        schedule.cr4RevealDeadlineBlock revealPeriodEpochs margin = .ok (start + margin) ∧
        IsLeast {block | schedule.currentBlock + 1 < block ∧
          schedule.indexSeenAt (schedule.currentBlock + 1) + revealPeriodEpochs + 1 ≤
            schedule.indexSeenAt block} start) ∧
      (∀ reached : ℤ, schedule.currentBlock ≤ reached →
        IsLeast {block | reached < block ∧ schedule.epochAt block = true}
          (schedule.after reached).nextEpochBlock ∧
        schedule.after (schedule.after reached).nextEpochBlock =
          (schedule.after reached).advance (schedule.after reached).nextEpochBlock) ∧
      ∀ shorter longer margin deadline deadline' : ℤ, shorter ≤ longer →
        schedule.cr4RevealDeadlineBlock shorter margin = .ok deadline →
        schedule.cr4RevealDeadlineBlock longer margin = .ok deadline' →
        deadline ≤ deadline' := by
  refine ⟨?_, ?_, ?_⟩
  · intro revealPeriodEpochs margin period bounded safe
    -- with a positive tempo the search succeeds for every period that is allowed
    obtain ⟨deadline, found⟩ :=
      (cr4RevealDeadlineBlock_eq_ok safe).mpr ⟨positive, period, bounded⟩
    exact ⟨deadline - margin, by rw [sub_add_cancel, found],
      schedule.isLeast_of_cr4RevealDeadlineBlock found⟩
  · intro reached later
    have stands := schedule.after_currentBlock later
    have least := (schedule.after reached).isLeast_nextEpochBlock
    have lands := (schedule.after reached).after_nextEpochBlock
    have next := (schedule.after reached).lt_nextEpochBlock
    rw [stands] at least next
    refine ⟨?_, ?_⟩
    · -- Blocks past the one reached are taken from there.
      have same : {block | reached < block ∧ (schedule.after reached).epochAt block = true} =
          {block | reached < block ∧ schedule.epochAt block = true} := by
        ext block
        refine and_congr_right fun past => ?_
        rw [epochAt, epochAt, schedule.after_after later (by omega)]
      rwa [same] at least
    · rwa [schedule.after_after later next.le] at lands
  · intro shorter longer margin deadline deadline' grows found found'
    exact schedule.cr4RevealDeadlineBlock_mono grows found found'

/-- At tempo one with an epoch pending in the inclusion block. -/
theorem cr4RevealDeadlineBlock_spec_pending :
    (∀ revealPeriodEpochs margin : ℤ, 0 ≤ revealPeriodEpochs →
      revealPeriodEpochs ≤ maxRevealPeriodEpochs → 0 ≤ margin → ∃ start,
        cr4RevealDeadlineBlock ⟨4, 5, 7, 1, 3, 4⟩ revealPeriodEpochs margin =
          .ok (start + margin) ∧
        IsLeast {block | 4 + 1 < block ∧
          indexSeenAt ⟨4, 5, 7, 1, 3, 4⟩ (4 + 1) + revealPeriodEpochs + 1 ≤
            indexSeenAt ⟨4, 5, 7, 1, 3, 4⟩ block} start) ∧
      cr4RevealDeadlineBlock ⟨4, 5, 7, 1, 3, 4⟩ 1 12 = .ok 19 :=
  ⟨(cr4RevealDeadlineBlock_spec ⟨4, 5, 7, 1, 3, 4⟩ (by decide)).1, by decide⟩

end Cr4EpochSchedule

end Endure.Emission
