import Endure.Emission.EpochSchedule
import Endure.Emission.Transactions
import Endure.Scoring.WeightProcessing

/-!
# Emission attempts

How `endure/base/validator.py` builds a prepared attempt from an encoded vector, what it
makes of the outcome of the SDK call, and how `neurons/validator.py` stores either.
-/

namespace Endure.Emission

open Library Library.Checked Scoring

def weightEmissionPeriodBlocks : ℤ := 128

def weightEmissionFinalityMarginBlocks : ℤ := 12

/-- The transport's record of one call of `set_weights`. -/
structure WeightEmissionAttempt where
  hotkeys : List String
  processedUids : List ℕ := []
  uintUids : List ℕ := []
  uintWeights : List ℤ := []
  status : EmissionStatus
  submissionBlock : Option ℤ := none
  baselineLastUpdateBlock : Option ℤ := none
  periodBlocks : Option ℤ := none
  confirmationState : Option ConfirmationState := none
  chainIdentity : Option String := none
  netuid : Option ℤ := none
  validatorUid : Option ℤ := none
  validatorHotkey : Option String := none
  submissionMode : Option SubmissionMode := none
  intentHash : Option String := none
  protocolVersionKey : Option ℤ := none
  commitmentHash : Option String := none
  revealRound : Option ℤ := none
  confirmationDeadlineBlock : Option ℤ := none
  cr4RevealDeadlineBlock : Option ℤ := none

structure WeightSubmissionResult where
  status : EmissionStatus
  confirmationState : ConfirmationState
  submissionMode : SubmissionMode
  commitmentHash : Option String
  revealRound : Option ℤ
  confirmationDeadlineBlock : Option ℤ
  cr4RevealDeadlineBlock : Option ℤ

structure WeightIntentMetadata where
  baselineLastUpdateBlock : ℤ
  submissionBlock : ℤ
  chainIdentity : String
  netuid : ℤ
  validatorUid : ℤ
  validatorHotkey : String
  submissionMode : SubmissionMode
  intentHash : String
  protocolVersionKey : ℤ
  cr4RevealDeadlineBlock : Option ℤ

/-- What the validator is configured with, and its wallet. -/
structure ValidatorIdentity where
  schemaId : String
  netuid : ℕ
  uid : ℕ
  hotkey : String

/-- What the metagraph of the last resync holds. -/
structure Metagraph where
  hotkeys : List String
  lastUpdate : List ℕ

/-- The epoch state and reveal period that the chain reports at a block; block numbers are
unsigned. -/
structure EpochReads where
  schedule : Cr4EpochSchedule
  revealPeriodEpochs : ℤ
  unsigned : 0 ≤ schedule.currentBlock

/-- The reveal deadline of a commitment at the block the chain was read at. -/
def EpochReads.cr4RevealDeadlineAt (reads : EpochReads) : Except Cr4ScheduleError ℤ :=
  reads.schedule.cr4RevealDeadlineBlock reads.revealPeriodEpochs
    weightEmissionFinalityMarginBlocks

/-- What the chain answers while an intent is prepared. -/
structure IntentReads where
  submissionBlock : ℕ
  chainIdentity : String
  commitRevealEnabled : Bool
  epoch : EpochReads

namespace ValidatorIdentity

variable (validator : ValidatorIdentity) (metagraph : Metagraph)

/-- The last update of the validator's UID, which must be its wallet's. -/
def weightSubmissionBaseline : Except LedgerError ℕ := do
  ensure (validator.uid < metagraph.lastUpdate.length)
    (.runtime ("validator uid " ++ toString validator.uid ++ " is outside the metagraph"))
  ensure (metagraph.hotkeys[validator.uid]? = some validator.hotkey)
    (.runtime "validator uid does not match the wallet hotkey")
  pure (metagraph.lastUpdate.getD validator.uid 0)

/-- The targets of a vector, with the hotkeys that hold its UIDs. -/
def weightTargets (uintUids : List ℕ) (uintWeights : List ℤ) :
    Except LedgerError (List WeightTarget) := do
  ensure (uintUids.length = uintWeights.length) (.value "zip() arguments differ in length")
  (uintUids.zip uintWeights).mapM fun (uid, weight) =>
    match metagraph.hotkeys[uid]? with
    | some hotkey => .ok ⟨uid, hotkey, weight⟩
    | none => .error (.index "list index out of range")

def prepareWeightIntent (digest : Digest) (reads : IntentReads) (uintUids : List ℕ)
    (uintWeights : List ℤ) : Except LedgerError WeightIntentMetadata := do
  let baselineLastUpdateBlock ← validator.weightSubmissionBaseline metagraph
  let submissionMode := if reads.commitRevealEnabled then SubmissionMode.cr4 else .direct
  -- only a CR4 call waits for a reveal
  let cr4RevealDeadline ← match submissionMode with
    | .direct => pure none
    | .cr4 =>
      match reads.epoch.cr4RevealDeadlineAt with
      | .ok deadline => pure (some deadline)
      | .error raised => .error (.value raised.message)
  let targets ← weightTargets metagraph uintUids uintWeights
  pure {
    baselineLastUpdateBlock
    submissionBlock := reads.submissionBlock
    chainIdentity := reads.chainIdentity
    netuid := validator.netuid
    validatorUid := validator.uid
    validatorHotkey := validator.hotkey
    submissionMode
    intentHash := weightIntentHash digest
      { chainIdentity := reads.chainIdentity
        netuid := validator.netuid
        validatorUid := validator.uid
        validatorHotkey := validator.hotkey
        targets } (some currentVersionKey)
    protocolVersionKey := currentVersionKey
    cr4RevealDeadlineBlock := cr4RevealDeadline }

end ValidatorIdentity

/-- The attempt that is prepared for a vector and its intent. -/
def preparedAttempt (hotkeys : List String) (vector : ChainWeightVector)
    (intent : WeightIntentMetadata) : WeightEmissionAttempt where
  hotkeys
  processedUids := vector.processedUids
  uintUids := vector.uintUids
  uintWeights := vector.uintWeights
  status := .error
  submissionBlock := some intent.submissionBlock
  baselineLastUpdateBlock := some intent.baselineLastUpdateBlock
  periodBlocks := some weightEmissionPeriodBlocks
  confirmationState := some .prepared
  chainIdentity := some intent.chainIdentity
  netuid := some intent.netuid
  validatorUid := some intent.validatorUid
  validatorHotkey := some intent.validatorHotkey
  submissionMode := some intent.submissionMode
  intentHash := some intent.intentHash
  protocolVersionKey := some intent.protocolVersionKey
  confirmationDeadlineBlock := some (intent.submissionBlock + weightEmissionPeriodBlocks +
    weightEmissionFinalityMarginBlocks)
  cr4RevealDeadlineBlock := intent.cr4RevealDeadlineBlock

/-- The attempt of a run that failed before it had an intent. -/
def abandonedAttempt (hotkeys : List String) (vector : Option ChainWeightVector) :
    WeightEmissionAttempt where
  hotkeys
  processedUids := (vector.map ChainWeightVector.processedUids).getD []
  uintUids := (vector.map ChainWeightVector.uintUids).getD []
  uintWeights := (vector.map ChainWeightVector.uintWeights).getD []
  status := .error

namespace WeightEmissionAttempt

variable (attempt : WeightEmissionAttempt)

/-- The audit rows: one for each processed UID, with its u16 weight when it is sent. -/
def emissionRows : List WeightEmissionRow :=
  let u16ByUid := Dict.ofEntries (attempt.uintUids.zip attempt.uintWeights)
  attempt.processedUids.map fun uid =>
    { minerHotkey := attempt.hotkeys.getD uid ""
      uid
      weightU16 := u16ByUid.get? uid
      emitted := false
      confirmed := false }

/-- The arguments an attempt is recorded with. -/
def recorded (schemaId : String) (status : EmissionStatus)
    (confirmationState : Option ConfirmationState) (confirmationDeadlineBlock : Option ℤ) :
    WeightEmission where
  schemaId
  status
  rows := attempt.emissionRows
  submissionBlock := attempt.submissionBlock
  confirmationState
  confirmationDeadlineBlock
  cr4RevealDeadlineBlock := attempt.cr4RevealDeadlineBlock
  baselineLastUpdateBlock := attempt.baselineLastUpdateBlock
  periodBlocks := attempt.periodBlocks
  chainIdentity := attempt.chainIdentity
  netuid := attempt.netuid
  validatorUid := attempt.validatorUid
  validatorHotkey := attempt.validatorHotkey
  submissionMode := attempt.submissionMode
  intentHash := attempt.intentHash
  protocolVersionKey := attempt.protocolVersionKey
  commitmentHash := attempt.commitmentHash
  revealRound := attempt.revealRound

section Sent

variable {attempt} (nodup : attempt.uintUids.Nodup)
  (lengths : attempt.uintUids.length = attempt.uintWeights.length)

include nodup lengths

/-- A UID is given the weight that is sent for it. -/
theorem get?_u16ByUid {sent : ℕ} {weight : ℤ} :
    (Dict.ofEntries (attempt.uintUids.zip attempt.uintWeights)).get? sent = some weight ↔
      (sent, weight) ∈ attempt.uintUids.zip attempt.uintWeights := by
  have keys : (attempt.uintUids.zip attempt.uintWeights).map Prod.fst = attempt.uintUids :=
    List.map_fst_zip lengths.le
  exact Dict.get?_ofEntries_of_nodup (keys.symm ▸ nodup)

variable (processed : attempt.uintUids ⊆ attempt.processedUids)

include processed

/-- The rows carry exactly the vector that is sent, when it is part of what was processed. -/
theorem mem_emissionRows {uid weight : ℤ} {hotkey : String} :
    (∃ row ∈ attempt.emissionRows, row.uid = uid ∧ row.minerHotkey = hotkey ∧
      row.weightU16 = some weight) ↔
    ∃ sent : ℕ, uid = sent ∧ (sent, weight) ∈ attempt.uintUids.zip attempt.uintWeights ∧
      attempt.hotkeys.getD sent "" = hotkey := by
  simp only [emissionRows, List.mem_map]
  constructor
  · rintro ⟨_, ⟨sent, -, rfl⟩, rfl, rfl, weighs⟩
    exact ⟨sent, rfl, (get?_u16ByUid nodup lengths).mp weighs, rfl⟩
  · rintro ⟨sent, rfl, member, rfl⟩
    have inside : sent ∈ attempt.processedUids := processed (List.of_mem_zip member).1
    exact ⟨_, ⟨sent, inside, rfl⟩, rfl, rfl, (get?_u16ByUid nodup lengths).mpr member⟩

end Sent

/-- What is recorded before the SDK call. -/
def prepared (schemaId : String) : WeightEmission :=
  attempt.recorded schemaId .error (some .prepared) attempt.confirmationDeadlineBlock

/-- What is recorded of a vector that the recheck refused to send. -/
def refused (schemaId : String) : WeightEmission :=
  attempt.recorded schemaId .failed (some .failed) none

/-- What is recorded of a run that failed before its intent. -/
def abandoned (schemaId : String) : WeightEmission :=
  attempt.recorded schemaId attempt.status (some .failed) attempt.confirmationDeadlineBlock

end WeightEmissionAttempt

/-- How the SDK call ends. An accepted call may return the metadata of a commitment. -/
inductive SdkOutcome
  | accepted (commitment : Option (String × ℤ))
  | rejected
  | deferred
  | throttled
  | restartRequired
  | stalled
  | raised

/-- What is read after the call: a block, and the epoch state at it; either may fail. -/
structure RefreshReads where
  sampledAfterSubmission : Option ℕ
  epoch : Option EpochReads

/-- The refreshed reveal deadline, when the chain answers. -/
def RefreshReads.revealDeadline (reads : RefreshReads) : Option ℤ :=
  reads.epoch.bind fun epoch => epoch.cr4RevealDeadlineAt.toOption

namespace WeightEmissionAttempt

variable (attempt : WeightEmissionAttempt)

/-- The inclusion deadline that a block sampled after the call leaves. -/
def extendedDeadline (sampledAfterSubmission : ℕ) : ℤ :=
  let sampledDeadline := sampledAfterSubmission + weightEmissionPeriodBlocks +
    weightEmissionFinalityMarginBlocks
  match attempt.confirmationDeadlineBlock with
  | none => sampledDeadline
  | some fallback =>
    max fallback (min sampledDeadline
      (fallback + weightEmissionPeriodBlocks - weightEmissionFinalityMarginBlocks))

def postSubmissionDeadlines (reads : RefreshReads) : Option ℤ × Option ℤ :=
  match reads.sampledAfterSubmission with
  | none => (attempt.confirmationDeadlineBlock, attempt.cr4RevealDeadlineBlock)
  | some sampled =>
    if attempt.submissionMode ≠ some .cr4 then
      (some (attempt.extendedDeadline sampled), attempt.cr4RevealDeadlineBlock)
    else
      match reads.revealDeadline with
      | none => (some (attempt.extendedDeadline sampled), attempt.cr4RevealDeadlineBlock)
      | some refreshed =>
        -- A missing deadline and a deadline of zero are both falsy.
        let prepared := match attempt.cr4RevealDeadlineBlock with
          | none => refreshed
          | some deadline => if deadline = 0 then refreshed else deadline
        (some (attempt.extendedDeadline sampled), some (max prepared refreshed))

/-- The result of a call that may have reached the chain. -/
def ambiguousResult (reads : RefreshReads) : WeightSubmissionResult :=
  let deadlines := attempt.postSubmissionDeadlines reads
  { status := .error
    confirmationState := .ambiguous
    submissionMode := attempt.submissionMode.getD .direct
    commitmentHash := none
    revealRound := none
    confirmationDeadlineBlock := deadlines.1
    cr4RevealDeadlineBlock := deadlines.2 }

/-- What the outcome of the SDK call makes of an attempt; `none` where the call's exception
is raised on. -/
def submitPreparedWeights (reads : RefreshReads) : SdkOutcome → Option WeightSubmissionResult
  | .deferred | .restartRequired => none
  | .throttled | .stalled | .raised => some (attempt.ambiguousResult reads)
  | .rejected => some
      { status := .failed
        confirmationState := .failed
        submissionMode := attempt.submissionMode.getD .direct
        commitmentHash := none
        revealRound := none
        confirmationDeadlineBlock := none
        cr4RevealDeadlineBlock := none }
  | .accepted none =>
    -- accepted without commitment metadata: a CR4 call cannot be matched later
    if attempt.submissionMode = some .cr4 then
      some { attempt.ambiguousResult reads with submissionMode := .cr4 }
    else some
      { attempt.ambiguousResult reads with
        status := .submitted
        confirmationState := .submitted
        submissionMode := .direct }
  | .accepted (some (commitmentHash, revealRound)) => some
      { attempt.ambiguousResult reads with
        status := .submitted
        confirmationState := .submitted
        submissionMode := .cr4
        commitmentHash := some commitmentHash
        revealRound := some revealRound }

/-- The transition of the prepared batch after the call; `none` where the attempt has no
state, and the completion raises. -/
def completion (batchId : ℕ) (reads : RefreshReads) (outcome : SdkOutcome) :
    Option AttemptTransition :=
  match attempt.submitPreparedWeights reads outcome, outcome with
  | some submission, _ => some
      { batchId
        status := submission.status
        confirmationState := submission.confirmationState
        submissionMode := submission.submissionMode
        commitmentHash := submission.commitmentHash
        revealRound := submission.revealRound
        confirmationDeadlineBlock := submission.confirmationDeadlineBlock
        cr4RevealDeadlineBlock := submission.cr4RevealDeadlineBlock }
  | none, .deferred => some
      { batchId
        status := .failed
        confirmationState := .failed
        submissionMode := attempt.submissionMode.getD .direct
        commitmentHash := none
        revealRound := none
        confirmationDeadlineBlock := none
        cr4RevealDeadlineBlock := attempt.cr4RevealDeadlineBlock }
  | none, _ => none

end WeightEmissionAttempt

end Endure.Emission
