import Endure.Emission.SingleFlight

/-!
# Preparing an attempt

What the ledger makes of the attempt that the emitter prepares: with no open batch it is
stored, unless the epoch that reveals it starts before its inclusion window is over.
-/

namespace Endure.Emission

open Library Library.Checked Scoring

/-! ### The intent -/

/-- The reveal deadline that is read for an intent: one of the chain's schedule in CR4 mode. -/
def IntentReads.Schedules (reads : IntentReads) (deadline : Option ℤ) : Prop :=
  if reads.commitRevealEnabled then
    ∃ block, reads.epoch.cr4RevealDeadlineAt = .ok block ∧ deadline = some block
  else deadline = none

namespace ValidatorIdentity

variable {validator : ValidatorIdentity} {metagraph : Metagraph} {digest : Digest}
  {reads : IntentReads} {uintUids : List ℕ} {uintWeights : List ℤ} {targets : List WeightTarget}
  {intent : WeightIntentMetadata}

/-- The targets are the vector's pairs with the hotkeys that hold their UIDs. -/
theorem mem_weightTargets (made : weightTargets metagraph uintUids uintWeights = .ok targets)
    {target : WeightTarget} : target ∈ targets ↔ ∃ uid : ℕ, target.uid = uid ∧
      (uid, target.weight) ∈ uintUids.zip uintWeights ∧
        metagraph.hotkeys[uid]? = some target.hotkey := by
  rw [weightTargets] at made
  obtain ⟨_, -, made⟩ := bind_eq_ok.mp made
  constructor
  · intro member
    obtain ⟨⟨uid, weight⟩, paired, held⟩ := exists_item made member
    simp only at held
    split at held
    · next hotkey known =>
      cases held
      exact ⟨uid, rfl, paired, known⟩
    · cases held
  · rintro ⟨uid, named, paired, known⟩
    obtain ⟨result, member, held⟩ := exists_result made paired
    simp only [known] at held
    cases held
    obtain ⟨_, _, _⟩ := target
    cases named
    exact member

theorem weightTargets_uid (made : weightTargets metagraph uintUids uintWeights = .ok targets) :
    targets.map WeightTarget.uid = uintUids.map fun uid : ℕ => (uid : ℤ) := by
  rw [weightTargets] at made
  obtain ⟨_, lengths, made⟩ := bind_eq_ok.mp made
  have keys : (uintUids.zip uintWeights).map Prod.fst = uintUids :=
    List.map_fst_zip (ensure_eq_ok.mp lengths).le
  calc targets.map WeightTarget.uid
      = (uintUids.zip uintWeights).map fun pair => (pair.1 : ℤ) := by
        refine map_eq_of_mapM (fun pair result held => ?_) made
        simp only at held
        split at held
        · cases held
          rfl
        · cases held
    _ = ((uintUids.zip uintWeights).map Prod.fst).map fun uid : ℕ => (uid : ℤ) :=
        (List.map_map ..).symm
    _ = uintUids.map fun uid : ℕ => (uid : ℤ) := by rw [keys]

/-- An intent is what was read of the chain, with the hash of its vector. -/
theorem prepareWeightIntent_eq_ok
    (done : validator.prepareWeightIntent metagraph digest reads uintUids uintWeights =
      .ok intent) :
    ∃ targets deadline, weightTargets metagraph uintUids uintWeights = .ok targets ∧
      reads.Schedules deadline ∧
      intent =
        { baselineLastUpdateBlock := (metagraph.lastUpdate.getD validator.uid 0 : ℕ)
          submissionBlock := reads.submissionBlock
          chainIdentity := reads.chainIdentity
          netuid := validator.netuid
          validatorUid := validator.uid
          validatorHotkey := validator.hotkey
          submissionMode := if reads.commitRevealEnabled then .cr4 else .direct
          intentHash := weightIntentHash digest
            { chainIdentity := reads.chainIdentity
              netuid := validator.netuid
              validatorUid := validator.uid
              validatorHotkey := validator.hotkey
              targets } (some currentVersionKey)
          protocolVersionKey := currentVersionKey
          cr4RevealDeadlineBlock := deadline } := by
  rw [prepareWeightIntent] at done
  obtain ⟨baseline, last, done⟩ := bind_eq_ok.mp done
  rw [weightSubmissionBaseline] at last
  obtain ⟨_, -, last⟩ := bind_eq_ok.mp last
  obtain ⟨_, -, last⟩ := bind_eq_ok.mp last
  cases last
  cases enabled : reads.commitRevealEnabled with
  -- without commit-reveal there is no reveal to wait for
  | false =>
    simp only [enabled, Bool.false_eq_true, if_false, pure_bind] at done
    obtain ⟨targets, made, done⟩ := bind_eq_ok.mp done
    cases done
    exact ⟨targets, none, made, by rw [IntentReads.Schedules, if_neg (by simp [enabled])], rfl⟩
  | true =>
    simp only [enabled, if_true, pure_bind] at done
    split at done
    -- a CR4 schedule that is not known stops the preparation
    · next block found =>
      obtain ⟨targets, made, done⟩ := bind_eq_ok.mp done
      cases done
      refine ⟨targets, some block, made, ?_, rfl⟩
      rw [IntentReads.Schedules, if_pos enabled]
      exact ⟨block, found, rfl⟩
    · cases done

end ValidatorIdentity

/-! ### The emission that is recorded -/

section Prepared

variable {metagraph : Metagraph} {vector : ChainWeightVector} {targets : List WeightTarget}
  {intent : WeightIntentMetadata} {schemaId : String}

/-- Each processed UID has its own row. -/
theorem emissionRows_uid_nodup (nodup : vector.processedUids.Nodup) :
    ((preparedAttempt metagraph.hotkeys vector intent).emissionRows.map
      WeightEmissionRow.uid).Nodup := by
  rw [WeightEmissionAttempt.emissionRows, List.map_map]
  exact nodup.map Nat.cast_injective

/-- The weighted rows are the targets that the intent hashes, in another order. -/
theorem rowTargets_perm (nodup : vector.processedUids.Nodup)
    (sublist : vector.uintUids.Sublist vector.processedUids)
    (lengths : vector.uintUids.length = vector.uintWeights.length)
    (made : ValidatorIdentity.weightTargets metagraph vector.uintUids vector.uintWeights =
      .ok targets) :
    (rowTargets (preparedAttempt metagraph.hotkeys vector intent).emissionRows).Perm targets := by
  have distinct : (targets.map WeightTarget.uid).Nodup := by
    rw [ValidatorIdentity.weightTargets_uid made]
    exact (sublist.nodup nodup).map Nat.cast_injective
  have rows : ((rowTargets (preparedAttempt metagraph.hotkeys vector intent).emissionRows).map
      WeightTarget.uid).Nodup :=
    (rowTargets_uid_sublist _).nodup (emissionRows_uid_nodup nodup)
  refine (List.perm_ext_iff_of_nodup (List.Nodup.of_map _ rows) (List.Nodup.of_map _ distinct)).mpr
    fun target => ?_
  rw [mem_rowTargets, WeightEmissionAttempt.mem_emissionRows (sublist.nodup nodup) lengths
    sublist.subset, ValidatorIdentity.mem_weightTargets made]
  constructor
  · rintro ⟨sent, named, paired, held⟩
    -- Every UID that is sent has a hotkey, since the intent was made.
    rw [ValidatorIdentity.weightTargets] at made
    obtain ⟨_, -, made⟩ := bind_eq_ok.mp made
    obtain ⟨result, -, known⟩ := exists_result made paired
    simp only at known
    split at known
    · next hotkey found =>
      refine ⟨sent, named, paired, ?_⟩
      rw [← held, List.getD_eq_getElem?_getD]
      change metagraph.hotkeys[sent]? = some (metagraph.hotkeys[sent]?.getD "")
      rw [found, Option.getD_some]
    · cases known
  · rintro ⟨sent, named, paired, known⟩
    refine ⟨sent, named, paired, ?_⟩
    change metagraph.hotkeys.getD sent "" = target.hotkey
    rw [List.getD_eq_getElem?_getD, known, Option.getD_some]

/-- The block numbers of an intent are those of a chain, and its reveal is not before its
submission. -/
structure WeightIntentMetadata.Numbered (intent : WeightIntentMetadata) : Prop where
  baseline : 0 ≤ intent.baselineLastUpdateBlock
  since : intent.baselineLastUpdateBlock ≤ intent.submissionBlock
  netuid : 0 ≤ intent.netuid
  uid : 0 ≤ intent.validatorUid
  reveal : ∀ deadline ∈ intent.cr4RevealDeadlineBlock, 0 ≤ deadline

/-- The numbers of a prepared emission are refused for their reveal deadline only. -/
theorem validateNumbers_prepared (numbered : intent.Numbered) :
    ((preparedAttempt metagraph.hotkeys vector intent).prepared schemaId).validateNumbers =
      ensure (∀ reveal ∈ intent.cr4RevealDeadlineBlock, intent.submissionBlock +
          weightEmissionPeriodBlocks + weightEmissionFinalityMarginBlocks ≤ reveal)
        (.value "CR4 reveal deadline precedes inclusion deadline") := by
  -- each of the eight numbers is nonnegative or missing
  have positive : ((preparedAttempt metagraph.hotkeys vector intent).prepared
      schemaId).nonNegative.find? (fun entry => entry.2.any (· < 0)) = none := by
    rw [List.find?_eq_none]
    have submission := numbered.baseline.trans numbered.since
    have deadline : 0 ≤ intent.submissionBlock + weightEmissionPeriodBlocks +
        weightEmissionFinalityMarginBlocks := by
      rw [weightEmissionPeriodBlocks, weightEmissionFinalityMarginBlocks]
      omega
    intro entry member
    simp only [WeightEmission.nonNegative, WeightEmissionAttempt.prepared,
      WeightEmissionAttempt.recorded, preparedAttempt, List.mem_cons, List.not_mem_nil,
      or_false] at member
    rcases member with rfl | rfl | rfl | rfl | rfl | rfl | rfl | rfl
    · simpa using submission
    · simpa using numbered.baseline
    · simpa using deadline
    · cases stands : intent.cr4RevealDeadlineBlock with
      | none => simp
      | some reveal => simpa using numbered.reveal reveal stands
    · simpa using numbered.netuid
    · simpa using numbered.uid
    · simp
    · simp
  -- the checks before the one of the reveal deadline all pass
  rw [WeightEmission.validateNumbers, positive]
  simp only [WeightEmissionAttempt.prepared, WeightEmissionAttempt.recorded, preparedAttempt,
    Option.mem_def, Option.some.injEq, forall_eq']
  rw [ensure_bind (by decide), ensure_bind numbered.since,
    ensure_bind (by rw [weightEmissionFinalityMarginBlocks]; omega),
    ensure_bind (by rw [weightEmissionPeriodBlocks, weightEmissionFinalityMarginBlocks]; omega)]

theorem validateTransport_prepared :
    ((preparedAttempt metagraph.hotkeys vector intent).prepared schemaId).validateTransport =
      .ok () := rfl

/-- The evidence of a prepared emission is complete, and its hash is that of its rows. -/
theorem validateEvidence_prepared {digest : Digest}
    (hex : ∀ version payload, isDigest (digest version payload).toList = true)
    (perm : (rowTargets (preparedAttempt metagraph.hotkeys vector intent).emissionRows).Perm targets)
    (hashed : intent.intentHash = weightIntentHash digest
      { chainIdentity := intent.chainIdentity
        netuid := intent.netuid
        validatorUid := intent.validatorUid
        validatorHotkey := intent.validatorHotkey
        targets } (some currentVersionKey))
    (keyed : intent.protocolVersionKey = (currentVersionKey : ℕ)) :
    ((preparedAttempt metagraph.hotkeys vector intent).prepared schemaId).validateEvidence digest =
      .ok () := by
  have versioned : recordedProtocolVersion intent.intentHash = some (some currentVersionKey) := by
    rw [hashed]
    exact recordedProtocolVersion_weightIntentHash (hex _ _)
  have unsent : ¬((preparedAttempt metagraph.hotkeys vector intent).prepared schemaId).rows.any
      (fun row => row.emitted ∨ row.confirmed) = true := by
    rw [List.any_eq_true]
    rintro ⟨row, member, sent⟩
    obtain ⟨uid, -, rfl⟩ := List.mem_map.mp member
    cases sent
  rw [WeightEmission.validateEvidence, ensure_bind (fun _ => ⟨rfl, rfl, rfl, rfl, rfl⟩),
    ensure_bind (by rfl), ensure_bind (by intro absent; cases absent), ensure_bind unsent]
  change WeightEmission.validateIntent _ digest _ intent.intentHash = .ok ()
  rw [WeightEmission.validateIntent, versioned]
  simp only
  rw [ensure_bind (by rintro version ⟨⟩; exact ⟨rfl, congrArg some keyed⟩),
    ensure_bind (by intro absent; cases absent),
    ensure_eq_ok, hashed]
  exact (weightIntentHash_of_perm digest perm _).symm

/-- The batch of a prepared emission passes the checks of the table. -/
theorem checked_prepared (numbered : intent.Numbered) :
    ((preparedAttempt metagraph.hotkeys vector intent).prepared schemaId).batch.Checked where
  submissionBlock _ := by
    rintro ⟨⟩
    exact numbered.baseline.trans numbered.since
  baselineBlock _ := by
    rintro ⟨⟩
    exact numbered.baseline
  periodBlocks _ := by
    rintro ⟨⟩
    decide
  deadlineBlock _ := by
    rintro ⟨⟩
    have := numbered.baseline.trans numbered.since
    rw [weightEmissionPeriodBlocks, weightEmissionFinalityMarginBlocks]
    omega
  netuid _ := by
    rintro ⟨⟩
    exact numbered.netuid
  validatorUid _ := by
    rintro ⟨⟩
    exact numbered.uid
  revealRound := nofun
  commitmentObservedBlock := nofun
  commitmentObservedLastUpdateBlock := nofun
  openFields _ := ⟨⟨rfl, rfl, rfl, rfl, rfl, rfl, rfl, rfl, rfl⟩, rfl⟩
  resolutionFields settled := by
    rcases settled with ⟨⟨⟩⟩ | ⟨⟨⟩⟩
  cr4Metadata := .inl ⟨rfl, rfl⟩
  safeDeadline := by
    rintro _ ⟨⟩ _ ⟨⟩ _ ⟨⟩
    rw [weightEmissionPeriodBlocks, weightEmissionFinalityMarginBlocks]
    omega
  submissionAfterBaseline := by
    rintro _ ⟨⟩ _ ⟨⟩
    exact numbered.since
  statusState := ⟨fun _ => rfl, nofun, nofun⟩
  confirmedAt := ⟨nofun, nofun⟩

end Prepared

/-- The epoch that reveals a CR4 submission starts before its inclusion window is over. -/
def IntentReads.RevealsEarly (reads : IntentReads) : Prop :=
  reads.commitRevealEnabled = true ∧ ∃ start,
    reads.epoch.schedule.epochStartAfterCommit (reads.epoch.revealPeriodEpochs + 1) = .ok start ∧
      start < reads.submissionBlock + weightEmissionPeriodBlocks

/-- A reveal deadline lies the finality margin after the start of its epoch. -/
theorem cr4RevealDeadlineAt_eq_ok {epoch : EpochReads} {deadline : ℤ}
    (found : epoch.cr4RevealDeadlineAt = .ok deadline) :
    epoch.schedule.epochStartAfterCommit (epoch.revealPeriodEpochs + 1) =
      .ok (deadline - weightEmissionFinalityMarginBlocks) := by
  rw [EpochReads.cr4RevealDeadlineAt, Cr4EpochSchedule.cr4RevealDeadlineBlock] at found
  split at found
  · cases found
  split at found
  · cases found
  obtain ⟨start, started, rfl⟩ := map_eq_ok.mp found
  rw [started, add_sub_cancel_right]

section Recorded

variable {validator : ValidatorIdentity} {digest : Digest} {ledger : Ledger}
  {intentReads : IntentReads} {deadline : Option ℤ}

/-- The reveal deadline that is read is not before the inclusion deadline unless its epoch starts
early. -/
theorem not_revealsEarly_iff (scheduled : intentReads.Schedules deadline) :
    ¬intentReads.RevealsEarly ↔ ∀ reveal ∈ deadline, (intentReads.submissionBlock : ℤ) +
      weightEmissionPeriodBlocks + weightEmissionFinalityMarginBlocks ≤ reveal := by
  rw [IntentReads.Schedules] at scheduled
  split at scheduled
  · next enabled =>
    obtain ⟨block, found, rfl⟩ := scheduled
    have started := cr4RevealDeadlineAt_eq_ok found
    constructor
    · rintro timely _ ⟨⟩
      by_contra early
      exact timely ⟨enabled, _, started, by omega⟩
    · rintro timely ⟨-, start, other, early⟩
      cases started.symm.trans other
      have := timely block rfl
      omega
  · next disabled =>
    subst scheduled
    exact ⟨fun _ => nofun, fun _ both => disabled both.1⟩

/-- No epoch starts early that is at least the inclusion window away. -/
theorem not_revealsEarly_of_le (here : intentReads.epoch.schedule.currentBlock =
      intentReads.submissionBlock)
    (long : weightEmissionPeriodBlocks ≤
      intentReads.epoch.revealPeriodEpochs * intentReads.epoch.schedule.epochGap + 1) :
    ¬intentReads.RevealsEarly := by
  rintro ⟨-, start, started, early⟩
  have bound := Cr4EpochSchedule.le_epochStartAfterCommit started
  rw [add_sub_cancel_right] at bound
  omega

/-- What is known of an attempt that the emitter prepares. -/
structure Drafted (validator : ValidatorIdentity) (digest : Digest) (metagraph : Metagraph)
    (intentReads : IntentReads) (vector : ChainWeightVector) (intent : WeightIntentMetadata)
    (targets : List WeightTarget) : Prop where
  baseline : intent.baselineLastUpdateBlock = (metagraph.lastUpdate.getD validator.uid 0 : ℕ)
  numbered : intent.baselineLastUpdateBlock ≤ intent.submissionBlock → intent.Numbered
  nodup : vector.processedUids.Nodup
  perm : (rowTargets (preparedAttempt metagraph.hotkeys vector intent).emissionRows).Perm targets
  hashed : intent.intentHash = weightIntentHash digest
    { chainIdentity := intent.chainIdentity
      netuid := intent.netuid
      validatorUid := intent.validatorUid
      validatorHotkey := intent.validatorHotkey
      targets } (some currentVersionKey)
  keyed : intent.protocolVersionKey = (currentVersionKey : ℕ)
  submission : intent.submissionBlock = intentReads.submissionBlock
  scheduled : intentReads.Schedules intent.cr4RevealDeadlineBlock
  mode : intent.cr4RevealDeadlineBlock.isSome = true ↔ intent.submissionMode = .cr4

theorem drafted_of_emitWeightCandidate {reads : EmissionReads} {attempt : WeightEmissionAttempt}
    (made : emitWeightCandidate validator digest reads = .attempt attempt) :
    ∃ intentReads vector intent targets, reads.intent = some intentReads ∧
      attempt = preparedAttempt reads.metagraph.hotkeys vector intent ∧
      Drafted validator digest reads.metagraph intentReads vector intent targets := by
  obtain ⟨raw, minAllowed, limit, vector, intentReads, intent, encoded, known, prepared, rfl⟩ :=
    emitWeightCandidate_eq_attempt made
  obtain ⟨nodup, sublist, lengths⟩ := chainWeightVector_spec List.nodup_range encoded
  obtain ⟨targets, deadline, weighted, scheduled, rfl⟩ :=
    ValidatorIdentity.prepareWeightIntent_eq_ok prepared
  refine ⟨intentReads, vector, _, targets, known, rfl, rfl, fun since => ⟨Int.natCast_nonneg _, since,
    Int.natCast_nonneg _, Int.natCast_nonneg _, ?_⟩, nodup,
    rowTargets_perm nodup sublist lengths weighted, rfl, rfl, rfl, scheduled, ?_⟩
  · -- Block numbers are unsigned, and the deadline lies after one.
    intro reveal named
    rw [IntentReads.Schedules] at scheduled
    split at scheduled
    · obtain ⟨block, found, rfl⟩ := scheduled
      cases named
      have after := Cr4EpochSchedule.lt_cr4RevealDeadlineBlock found
      have unsigned := intentReads.epoch.unsigned
      rw [weightEmissionFinalityMarginBlocks] at after
      omega
    · rw [scheduled] at named
      cases named
  · rw [IntentReads.Schedules] at scheduled
    split at scheduled
    · next enabled =>
      obtain ⟨block, -, rfl⟩ := scheduled
      exact ⟨fun _ => if_pos enabled, fun _ => rfl⟩
    · next disabled =>
      rw [scheduled]
      simp [disabled]

namespace Drafted

variable {metagraph : Metagraph} {vector : ChainWeightVector} {intent : WeightIntentMetadata}
  {targets : List WeightTarget} {schemaId : String}
  (drafted : Drafted validator digest metagraph intentReads vector intent targets)

include drafted

theorem timely_iff : ¬intentReads.RevealsEarly ↔ ∀ reveal ∈ intent.cr4RevealDeadlineBlock,
    intent.submissionBlock + weightEmissionPeriodBlocks + weightEmissionFinalityMarginBlocks ≤
      reveal := by
  rw [drafted.submission]
  exact not_revealsEarly_iff drafted.scheduled

theorem revealMode : ((preparedAttempt metagraph.hotkeys vector intent).prepared
    schemaId).cr4RevealDeadlineBlock.isSome = true →
      ((preparedAttempt metagraph.hotkeys vector intent).prepared schemaId).submissionMode =
        some .cr4 :=
  fun given => congrArg some (drafted.mode.mp given)

theorem since (since : metagraph.lastUpdate.getD validator.uid 0 ≤ intentReads.submissionBlock) :
    intent.baselineLastUpdateBlock ≤ intent.submissionBlock := by
  rw [drafted.baseline, drafted.submission]
  exact Int.ofNat_le.mpr since

/-- A draft whose reveal epoch does not start early is stored. -/
theorem exists_record (hex : ∀ version payload, isDigest (digest version payload).toList = true)
    (numbered : intent.Numbered) (alone : ledger.openBatches schemaId = []) (timely : ¬intentReads.RevealsEarly) :
    ∃ later, ledger.recordWeightEmission digest
      ((preparedAttempt metagraph.hotkeys vector intent).prepared schemaId) =
        .ok (ledger.nextId, later) := by
  refine Ledger.exists_recordWeightEmission ⟨drafted.revealMode, validateTransport_prepared, ?_,
    validateEvidence_prepared hex drafted.perm drafted.hashed drafted.keyed⟩
    (checked_prepared numbered) alone (emissionRows_uid_nodup drafted.nodup)
  rw [validateNumbers_prepared numbered, ensure_eq_ok]
  exact drafted.timely_iff.mp timely

/-- A draft whose reveal epoch starts early is refused. -/
theorem record_eq_error (numbered : intent.Numbered) (early : intentReads.RevealsEarly) :
    ledger.recordWeightEmission digest
      ((preparedAttempt metagraph.hotkeys vector intent).prepared schemaId) =
        .error (.value "CR4 reveal deadline precedes inclusion deadline") := by
  have untimely := mt drafted.timely_iff.mpr (not_not.mpr early)
  rw [Ledger.recordWeightEmission, ensure_bind drafted.revealMode, validateTransport_prepared,
    validateNumbers_prepared numbered, ensure, if_neg untimely]
  rfl

end Drafted

/-- With no open batch, the attempt that the emitter prepares is stored unless its reveal epoch
starts before its inclusion window is over, and is then refused for that. The epoch does not
start early where the reveal period spans the inclusion window. -/
theorem prepared_attempt_recorded
    (hex : ∀ version payload, isDigest (digest version payload).toList = true)
    {reads : EmissionReads} {attempt : WeightEmissionAttempt}
    (made : emitWeightCandidate validator digest reads = .attempt attempt)
    (read : reads.intent = some intentReads)
    (since : reads.metagraph.lastUpdate.getD validator.uid 0 ≤ intentReads.submissionBlock)
    (alone : ledger.openBatches validator.schemaId = []) :
    (¬intentReads.RevealsEarly → ∃ later, ledger.recordWeightEmission digest
      (attempt.prepared validator.schemaId) = .ok (ledger.nextId, later)) ∧
    (intentReads.RevealsEarly → ledger.recordWeightEmission digest
      (attempt.prepared validator.schemaId) =
        .error (.value "CR4 reveal deadline precedes inclusion deadline")) ∧
    (intentReads.epoch.schedule.currentBlock = intentReads.submissionBlock →
      weightEmissionPeriodBlocks ≤
        intentReads.epoch.revealPeriodEpochs * intentReads.epoch.schedule.epochGap + 1 →
      ¬intentReads.RevealsEarly) := by
  obtain ⟨_, vector, intent, targets, known, rfl, drafted⟩ := drafted_of_emitWeightCandidate made
  cases read.symm.trans known
  have numbered := drafted.numbered (drafted.since since)
  exact ⟨drafted.exists_record hex numbered alone, drafted.record_eq_error numbered,
    not_revealsEarly_of_le⟩

end Recorded

/-! ### A long tempo and a short one -/

/-- The emitter has an attempt to store. -/
def Preparation.isAttempt : Preparation → Bool
  | .attempt _ => true
  | _ => false

theorem Preparation.exists_of_isAttempt {preparation : Preparation}
    (is : preparation.isAttempt = true) : ∃ attempt, preparation = .attempt attempt := by
  cases preparation with
  | attempt attempt => exact ⟨attempt, rfl⟩
  | nothing => cases is
  | failed emission => cases is

namespace Tempo

def validator : ValidatorIdentity := ⟨"v1", 5, 0, "validator"⟩

def zeros : Digest := fun _ _ =>
  "0000000000000000000000000000000000000000000000000000000000000000"

/-- A chain at block 100 whose subnet runs an epoch every so many blocks and reveals after one. -/
def intentReads (tempo : ℤ) : IntentReads where
  submissionBlock := 100
  chainIdentity := "chain"
  commitRevealEnabled := true
  epoch :=
    { schedule := ⟨95, 0, 7, tempo, 5, 100⟩
      revealPeriodEpochs := 1
      unsigned := show (0 : ℤ) ≤ 100 by decide }

def reads (tempo : ℤ) : EmissionReads where
  weights := [0, 1]
  groups := []
  metagraph := ⟨["validator", "miner"], [90, 0]⟩
  limits := some (1, 1)
  intent := some (intentReads tempo)
  recheck := .passes

theorem hex (version : Option ℕ) (payload : IntentPayload) :
    isDigest (zeros version payload).toList = true := by
  rw [zeros]
  decide +kernel

end Tempo

open Tempo in
/-- With an epoch every 360 blocks the attempt is stored. -/
theorem long_tempo_recorded : ∃ attempt later,
    emitWeightCandidate validator zeros (reads 360) = .attempt attempt ∧
    Ledger.empty.recordWeightEmission zeros (attempt.prepared validator.schemaId) =
      .ok (1, later) := by
  obtain ⟨attempt, made⟩ := Preparation.exists_of_isAttempt
    (show (emitWeightCandidate validator zeros (reads 360)).isAttempt = true by decide +kernel)
  have recorded := @prepared_attempt_recorded validator zeros Ledger.empty (intentReads 360) hex
    (reads 360) attempt made rfl (by decide) rfl
  obtain ⟨later, done⟩ := recorded.1 (recorded.2.2 rfl (by decide))
  exact ⟨attempt, later, made, done⟩

open Tempo in
/-- With an epoch every ten blocks the ledger refuses what the emitter prepares. -/
theorem short_tempo_refused : ¬∀ reads intentReads attempt,
    emitWeightCandidate validator zeros reads = .attempt attempt →
    reads.intent = some intentReads →
    reads.metagraph.lastUpdate.getD validator.uid 0 ≤ intentReads.submissionBlock →
    ∃ stored, Ledger.empty.recordWeightEmission zeros (attempt.prepared validator.schemaId) =
      .ok stored := by
  intro accepted
  obtain ⟨attempt, made⟩ := Preparation.exists_of_isAttempt
    (show (emitWeightCandidate validator zeros (reads 10)).isAttempt = true by decide +kernel)
  obtain ⟨stored, done⟩ := accepted _ _ _ made rfl (by decide)
  obtain ⟨_, vector, intent, targets, known, rfl, drafted⟩ := drafted_of_emitWeightCandidate made
  cases known
  have numbered := drafted.numbered (drafted.since (by decide))
  rw [validator, drafted.record_eq_error numbered ⟨rfl, 115, rfl, by decide⟩] at done
  cases done

end Endure.Emission
