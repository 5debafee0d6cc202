import Endure.Emission.Preparation

/-!
# Deadlines after the call

What the SDK call and the reads after it leave of the deadlines that a batch was recorded
with, and that every later transaction leaves them alone.
-/

namespace Endure.Emission

open Library Library.Checked Library.Transitions Scoring

/-! ### Other transactions -/

/-- A batch whose deadlines and mode are those of an earlier one, and that is open only if that
was. -/
structure Batch.SameDeadlines (earlier later : Batch) : Prop where
  submissionBlock : later.submissionBlock = earlier.submissionBlock
  periodBlocks : later.periodBlocks = earlier.periodBlocks
  confirmation : later.confirmationDeadlineBlock = earlier.confirmationDeadlineBlock
  reveal : later.cr4RevealDeadlineBlock = earlier.cr4RevealDeadlineBlock
  mode : later.submissionMode = earlier.submissionMode
  stillOpen : later.isOpen = true → earlier.isOpen = true

theorem Batch.SameDeadlines.refl (batch : Batch) : batch.SameDeadlines batch :=
  ⟨rfl, rfl, rfl, rfl, rfl, id⟩

theorem Batch.SameDeadlines.trans {first second third : Batch}
    (earlier : first.SameDeadlines second) (later : second.SameDeadlines third) :
    first.SameDeadlines third where
  submissionBlock := later.submissionBlock.trans earlier.submissionBlock
  periodBlocks := later.periodBlocks.trans earlier.periodBlocks
  confirmation := later.confirmation.trans earlier.confirmation
  reveal := later.reveal.trans earlier.reveal
  mode := later.mode.trans earlier.mode
  stillOpen isOpen := earlier.stillOpen (later.stillOpen isOpen)

variable {digest : Digest} {ledger : Ledger} {id : ℕ} {batch : Batch}

/-- Only the transition of its attempt changes the deadlines of a batch. -/
theorem Effect.sameDeadlines {operation : LedgerOperation} {later : Ledger}
    (effect : Effect digest ledger operation later)
    (away : ∀ transition, operation = .transition transition → transition.batchId ≠ id)
    (found : ledger.batches.get? id = some batch) :
    ∃ kept, later.batches.get? id = some kept ∧ batch.SameDeadlines kept := by
  have written {other : ℕ} {old new : Batch} (held : ledger.batches.get? other = some old)
      (same : old.SameDeadlines new) :
      ∃ kept, (ledger.batches.set other new).get? id = some kept ∧ batch.SameDeadlines kept :=
    Dict.exists_get?_set found held (.refl batch) same
  cases effect with
  | unchanged => exact ⟨batch, found, .refl batch⟩
  | inserted accepted batches nodup rows =>
    refine ⟨batch, ?_, .refl batch⟩
    rw [batches, Dict.get?_set, if_neg (Ledger.ne_nextId found), found]
  | @moved transition old admits valid held prepared =>
    refine ⟨batch, ?_, .refl batch⟩
    rw [Ledger.batches_put, Dict.get?_set, if_neg fun here => away transition rfl here.symm, found]
  | resolved valid held schema isOpen decided outcome =>
    cases outcome with
    | kept => exact ⟨batch, found, .refl batch⟩
    | observed => exact written held ⟨rfl, rfl, rfl, rfl, rfl, fun _ => isOpen⟩
    | confirmed => exact written held ⟨rfl, rfl, rfl, rfl, rfl, fun _ => isOpen⟩
    | unconfirmed => exact written held ⟨rfl, rfl, rfl, rfl, rfl, fun _ => isOpen⟩
  | scanned admits held isOpen => exact written held ⟨rfl, rfl, rfl, rfl, rfl, fun _ => isOpen⟩

/-- No transition among some operations is of a batch. -/
def LeavesAttempt (id : ℕ) (operations : List LedgerOperation) : Prop :=
  ∀ transition, .transition transition ∈ operations → transition.batchId ≠ id

theorem run_sameDeadlines {operations : List LedgerOperation} (leaves : LeavesAttempt id operations)
    (found : ledger.batches.get? id = some batch) :
    ∃ kept, (run (perform digest) ledger operations).batches.get? id = some kept ∧
      batch.SameDeadlines kept := by
  induction operations generalizing ledger batch with
  | nil => exact ⟨batch, found, .refl batch⟩
  | cons operation rest ih =>
    obtain ⟨next, held, same⟩ := (effect_perform digest ledger operation).sameDeadlines
      (fun transition made => leaves transition (made ▸ List.mem_cons_self)) found
    obtain ⟨kept, last, later⟩ :=
      ih (fun transition member => leaves transition (List.mem_cons_of_mem _ member)) held
    exact ⟨kept, last, same.trans later⟩

/-! ### The transition -/

/-- What a transition is checked for. -/
theorem AttemptTransition.validate_eq_ok {transition : AttemptTransition} :
    transition.validate = .ok () ↔
      (transition.confirmationState = .submitted ∨ transition.confirmationState = .ambiguous ∨
        transition.confirmationState = .failed) ∧
      ¬(transition.confirmationState = .submitted ∧ transition.status ≠ .submitted ∨
        transition.confirmationState = .ambiguous ∧ transition.status ≠ .error) ∧
      (transition.confirmationState = .failed →
        transition.status = .failed ∨ transition.status = .error) ∧
      transition.commitmentHash.isNone = transition.revealRound.isNone ∧
      (transition.commitmentHash.isSome → transition.submissionMode = .cr4) ∧
      (transition.cr4RevealDeadlineBlock.isSome → transition.submissionMode = .cr4) := by
  rw [validate]
  simp only [bind_eq_ok, ensure_eq_ok, exists_const]

/-- The deadlines a transition leaves lie within the period's bounds. -/
structure AttemptTransition.Bounded (transition : AttemptTransition) (batch : Batch) : Prop where
  confirmation : ∃ deadline, transition.confirmationDeadline batch.confirmationDeadlineBlock =
    some deadline ∧ 0 ≤ deadline
  safe : (transition.change batch).SafeDeadline

/-- A valid transition within the bounds leaves a prepared batch as the table has it. -/
theorem AttemptTransition.checked_change {transition : AttemptTransition} (checked : batch.Checked)
    (prepared : batch.confirmationState = some .prepared) (valid : transition.validate = .ok ())
    (round : ∀ revealRound ∈ transition.revealRound, 0 ≤ revealRound)
    (bounded : transition.Bounded batch) : (transition.change batch).Checked := by
  obtain ⟨state, transport, failed, together, committed, -⟩ := validate_eq_ok.mp valid
  have isOpen : batch.isOpen = true := by
    rw [Batch.isOpen, prepared]
    rfl
  have identity := (checked.openFields isOpen).1
  obtain ⟨deadline, confirmation, positive⟩ := bounded.confirmation
  have identified : (transition.change batch).HasIdentity :=
    ⟨identity.1, identity.2.1, identity.2.2.1, identity.2.2.2.1, identity.2.2.2.2.1,
      identity.2.2.2.2.2.1, identity.2.2.2.2.2.2.1, rfl, identity.2.2.2.2.2.2.2.2⟩
  exact
    { submissionBlock := checked.submissionBlock
      baselineBlock := checked.baselineBlock
      periodBlocks := checked.periodBlocks
      deadlineBlock := by
        intro block stands
        cases confirmation.symm.trans stands
        exact positive
      netuid := checked.netuid
      validatorUid := checked.validatorUid
      revealRound := round
      commitmentObservedBlock := checked.commitmentObservedBlock
      commitmentObservedLastUpdateBlock := checked.commitmentObservedLastUpdateBlock
      openFields := fun _ => ⟨identified, by
        change (transition.confirmationDeadline batch.confirmationDeadlineBlock).isSome = true
        rw [confirmation]
        rfl⟩
      resolutionFields := fun _ => identified
      cr4Metadata := by
        cases commitment : transition.commitmentHash with
        | none =>
          rw [commitment] at together
          exact .inl ⟨commitment, Option.isNone_iff_eq_none.mp together.symm⟩
        | some hash =>
          rw [commitment] at together committed
          refine .inr ⟨?_, by rw [change, commitment]; rfl, ?_⟩
          · rw [change, committed rfl]
            intro direct
            cases direct
          · rw [change, ← Option.not_isNone, ← together]
            rfl
      safeDeadline := bounded.safe
      submissionAfterBaseline := checked.submissionAfterBaseline
      -- no transition leads to prepared or confirmed
      statusState := by
        simp only [change, Option.some.injEq]
        refine ⟨fun either => ?_, fun submitted => ?_, failed⟩
        · rcases either with never | ambiguous
          · rcases state with other | other | other <;> cases never.symm.trans other
          · by_contra status
            exact transport (.inr ⟨ambiguous, status⟩)
        · by_contra status
          exact transport (.inl ⟨submitted, status⟩)
      confirmedAt := by
        have unset : batch.confirmedAt.isSome = true ↔ False := by
          rw [checked.confirmedAt, prepared]
          simp
        simp only [change, unset, Option.some.injEq, false_iff]
        intro confirmed
        rcases state with other | other | other <;> cases confirmed.symm.trans other }

/-- A prepared batch is moved on when the table admits what the transition leaves. -/
theorem Ledger.transition_eq_ok {transition : AttemptTransition}
    (valid : transition.validate = .ok ())
    (found : ledger.batches.get? transition.batchId = some batch)
    (prepared : batch.confirmationState = some .prepared)
    (checked : (transition.change batch).Checked) : ∃ later,
      ledger.transitionWeightEmissionAttempt transition = .ok later ∧
        later.batches = ledger.batches.set transition.batchId (transition.change batch) := by
  have isOpen : batch.isOpen = true := by
    rw [Batch.isOpen, prepared]
    rfl
  have admits : ledger.Admits transition.batchId (transition.change batch) :=
    ⟨checked, fun _ entry member stillOpen schema =>
      ledger.openUnique _ _ _ _ (Dict.get?_eq_some_iff.mpr member) found stillOpen isOpen schema⟩
  refine ⟨ledger.put _ _ admits, ?_, rfl⟩
  rw [transitionWeightEmissionAttempt, valid, updateWhere, found]
  simp only
  rw [if_pos (by rw [prepared]; rfl), write_eq_ok.mpr ⟨admits, rfl⟩]
  rfl

/-! ### What the call leaves -/

/-- The deadlines of a batch are what its recording enforced: the inclusion deadline is not before
the recorded one and lies within the period's bounds, the reveal deadline is not before the
recorded one, and while a CR4 batch is open its reveal deadline is not before its inclusion
deadline. -/
structure Batch.KeepsDeadlines (recorded batch : Batch) : Prop where
  confirmation : ∃ first deadline submission period,
    recorded.confirmationDeadlineBlock = some first ∧
    batch.confirmationDeadlineBlock = some deadline ∧ batch.submissionBlock = some submission ∧
    batch.periodBlocks = some period ∧ first ≤ deadline ∧ submission + period ≤ deadline ∧
    deadline ≤ submission + 2 * period
  reveal : ∀ first, recorded.cr4RevealDeadlineBlock = some first →
    ∃ deadline, batch.cr4RevealDeadlineBlock = some deadline ∧ first ≤ deadline
  cr4 : batch.isOpen = true → batch.submissionMode = some .cr4 → ∃ reveal deadline,
    batch.cr4RevealDeadlineBlock = some reveal ∧
    batch.confirmationDeadlineBlock = some deadline ∧ deadline ≤ reveal

theorem Batch.SameDeadlines.keeps {recorded earlier later : Batch}
    (same : earlier.SameDeadlines later) (keeps : recorded.KeepsDeadlines earlier) :
    recorded.KeepsDeadlines later := by
  obtain ⟨submissionBlock, periodBlocks, confirmation, reveal, mode, stillOpen⟩ := same
  refine ⟨?_, ?_, fun isOpen inCr4 => ?_⟩
  · rw [submissionBlock, periodBlocks, confirmation]
    exact keeps.confirmation
  · rw [reveal]
    exact keeps.reveal
  · rw [reveal, confirmation]
    rw [mode] at inCr4
    exact keeps.cr4 (stillOpen isOpen) inCr4

/-- The inclusion deadline after a block sampled past the submission: what has passed since
extends it, by one period less the margin at most. -/
def inclusionDeadline (submissionBlock : ℤ) : Option ℕ → ℤ
  | none => submissionBlock + weightEmissionPeriodBlocks + weightEmissionFinalityMarginBlocks
  | some sampled => submissionBlock + weightEmissionPeriodBlocks +
      weightEmissionFinalityMarginBlocks + max 0 (min (sampled - submissionBlock)
        (weightEmissionPeriodBlocks - weightEmissionFinalityMarginBlocks))

namespace WeightEmissionAttempt

/-- Where a block was sampled after the call, the prepared or the refreshed reveal deadline is not
before the inclusion deadline that it leaves. -/
def CoversInclusion (attempt : WeightEmissionAttempt) (reads : RefreshReads) : Prop :=
  ∀ sampled, reads.sampledAfterSubmission = some sampled →
    ∀ submission, attempt.submissionBlock = some submission →
      ∃ reveal, (attempt.cr4RevealDeadlineBlock = some reveal ∨
          reads.revealDeadline = some reveal) ∧
        inclusionDeadline submission (some sampled) ≤ reveal

/-- An attempt that may have reached the chain is known to be direct or has its reveal covered;
commitment metadata that the table refuses leaves the attempt prepared. -/
def StaysRevealable (attempt : WeightEmissionAttempt) (reads : RefreshReads) : SdkOutcome → Prop
  | .rejected | .deferred | .restartRequired => True
  | .accepted (some (_, revealRound)) => 0 ≤ revealRound →
      attempt.submissionMode = some .cr4 ∧ attempt.CoversInclusion reads
  | .accepted none | .throttled | .stalled | .raised =>
    attempt.submissionMode = some .cr4 → attempt.CoversInclusion reads

end WeightEmissionAttempt

/-- The ledger after the call of a recorded attempt and the hook that completes it. -/
def Ledger.afterCall (ledger : Ledger) (digest : Digest) (attempt : WeightEmissionAttempt)
    (id : ℕ) (reads : RefreshReads) (outcome : SdkOutcome) : Ledger :=
  match attempt.completion id reads outcome with
  | none => ledger
  | some transition => perform digest (.transition transition) ledger

section Call

variable {hotkeys : List String} {vector : ChainWeightVector} {intent : WeightIntentMetadata}
  {schemaId : String} {reads : RefreshReads}

/-- The reveal deadline after the reads that follow the call. -/
def RefreshReads.laterReveal (reads : RefreshReads) (reveal : ℤ) : ℤ :=
  match reads.sampledAfterSubmission, reads.revealDeadline with
  | some _, some refreshed => max reveal refreshed
  | _, _ => reveal

theorem RefreshReads.le_laterReveal (reads : RefreshReads) (reveal : ℤ) :
    reveal ≤ reads.laterReveal reveal := by
  rw [laterReveal]
  split
  · exact le_max_left _ _
  · exact le_rfl

/-- The inclusion deadline stays between one and two periods after the submission, and never moves
back. -/
theorem inclusionDeadline_bounds (submission : ℤ) (sampled : Option ℕ) :
    submission + weightEmissionPeriodBlocks + weightEmissionFinalityMarginBlocks ≤
        inclusionDeadline submission sampled ∧
      inclusionDeadline submission sampled ≤ submission + 2 * weightEmissionPeriodBlocks := by
  rw [weightEmissionPeriodBlocks, weightEmissionFinalityMarginBlocks]
  cases sampled with
  | none =>
    simp only [inclusionDeadline, weightEmissionPeriodBlocks, weightEmissionFinalityMarginBlocks]
    omega
  | some block =>
    simp only [inclusionDeadline, weightEmissionPeriodBlocks, weightEmissionFinalityMarginBlocks]
    omega

/-- A reveal deadline that is not before the inclusion deadline is positive. -/
theorem positive_of_timely (started : 0 ≤ intent.submissionBlock)
    (timely : ∀ reveal ∈ intent.cr4RevealDeadlineBlock,
      inclusionDeadline intent.submissionBlock none ≤ reveal) :
    ∀ reveal ∈ intent.cr4RevealDeadlineBlock, 0 < reveal := by
  intro reveal scheduled
  have := timely reveal scheduled
  rw [inclusionDeadline, weightEmissionPeriodBlocks, weightEmissionFinalityMarginBlocks] at this
  omega

/-- What the reads after the call make of a prepared attempt's deadlines. -/
theorem postSubmissionDeadlines_eq
    (mode : intent.cr4RevealDeadlineBlock.isSome = true ↔ intent.submissionMode = .cr4)
    (positive : ∀ reveal ∈ intent.cr4RevealDeadlineBlock, 0 < reveal) :
    (preparedAttempt hotkeys vector intent).postSubmissionDeadlines reads =
      (some (inclusionDeadline intent.submissionBlock reads.sampledAfterSubmission),
        intent.cr4RevealDeadlineBlock.map reads.laterReveal) := by
  have sent : (preparedAttempt hotkeys vector intent).submissionMode = some intent.submissionMode :=
    rfl
  have extended (block : ℕ) : (preparedAttempt hotkeys vector intent).extendedDeadline block =
      inclusionDeadline intent.submissionBlock (some block) := by
    simp only [WeightEmissionAttempt.extendedDeadline, preparedAttempt, inclusionDeadline,
      weightEmissionPeriodBlocks, weightEmissionFinalityMarginBlocks]
    omega
  rw [WeightEmissionAttempt.postSubmissionDeadlines, sent]
  cases sampled : reads.sampledAfterSubmission with
  | none =>
    -- without a sample the reveal deadline is the prepared one
    have still : reads.laterReveal = id := by
      funext reveal
      rw [RefreshReads.laterReveal, sampled]
      rfl
    rw [still, Option.map_id]
    rfl
  | some block =>
    simp only [extended]
    by_cases cr4 : intent.submissionMode = .cr4
    · obtain ⟨reveal, scheduled⟩ := Option.isSome_iff_exists.mp (mode.mpr cr4)
      have stored : (preparedAttempt hotkeys vector intent).cr4RevealDeadlineBlock = some reveal :=
        scheduled
      rw [if_neg (by simp [cr4]), stored, scheduled, Option.map_some, RefreshReads.laterReveal,
        sampled]
      cases reads.revealDeadline with
      | none => rfl
      | some refreshed =>
        -- a reveal deadline of zero would read as none
        have := positive reveal scheduled
        simp only
        rw [if_neg (by omega)]
    · have none : intent.cr4RevealDeadlineBlock = none :=
        Option.not_isSome_iff_eq_none.mp fun given => cr4 (mode.mp given)
      rw [if_pos (by simpa using cr4), none]
      exact congrArg _ none

/-- The prepared attempt's reveal is covered exactly when the later reveal deadline is not before
the inclusion deadline. -/
theorem coversInclusion_iff {reveal : ℤ} (scheduled : intent.cr4RevealDeadlineBlock = some reveal)
    (timely : inclusionDeadline intent.submissionBlock none ≤ reveal) :
    (preparedAttempt hotkeys vector intent).CoversInclusion reads ↔
      inclusionDeadline intent.submissionBlock reads.sampledAfterSubmission ≤
        reads.laterReveal reveal := by
  have stored : (preparedAttempt hotkeys vector intent).cr4RevealDeadlineBlock = some reveal :=
    scheduled
  rw [WeightEmissionAttempt.CoversInclusion, stored, RefreshReads.laterReveal]
  cases sampled : reads.sampledAfterSubmission with
  | none => simpa using timely
  | some block =>
    constructor
    · intro covers
      obtain ⟨deadline, either, below⟩ := covers block rfl intent.submissionBlock rfl
      rcases either with same | refreshed
      · cases same
        split
        · exact le_max_of_le_left below
        · exact below
      · rw [refreshed]
        exact le_max_of_le_right below
    · rintro covered _ ⟨⟩ _ ⟨⟩
      cases refreshed : reads.revealDeadline with
      | none =>
        rw [refreshed] at covered
        exact ⟨reveal, .inl rfl, covered⟩
      | some later =>
        rw [refreshed] at covered
        rcases le_max_iff.mp covered with first | second
        · exact ⟨reveal, .inl rfl, first⟩
        · exact ⟨later, .inr rfl, second⟩

variable (mode : intent.cr4RevealDeadlineBlock.isSome = true ↔ intent.submissionMode = .cr4)
  (timely : ∀ reveal ∈ intent.cr4RevealDeadlineBlock,
    inclusionDeadline intent.submissionBlock none ≤ reveal)

include mode timely

/-- A batch whose deadlines are the recorded ones keeps them. -/
theorem keepsDeadlines_of_same {batch : Batch}
    (confirmation : batch.confirmationDeadlineBlock =
      some (inclusionDeadline intent.submissionBlock none))
    (reveal : batch.cr4RevealDeadlineBlock = intent.cr4RevealDeadlineBlock)
    (submissionBlock : batch.submissionBlock = some intent.submissionBlock)
    (period : batch.periodBlocks = some weightEmissionPeriodBlocks)
    (sent : batch.isOpen = true → batch.submissionMode = some intent.submissionMode) :
    ((preparedAttempt hotkeys vector intent).prepared schemaId).batch.KeepsDeadlines batch where
  confirmation := by
    have bounds := inclusionDeadline_bounds intent.submissionBlock none
    refine ⟨_, _, _, _, rfl, confirmation, submissionBlock, period, le_rfl, ?_, bounds.2⟩
    have := bounds.1
    rw [weightEmissionFinalityMarginBlocks] at this
    omega
  reveal first stored := ⟨first, reveal.trans stored, le_rfl⟩
  cr4 isOpen inCr4 := by
    have cr4 : intent.submissionMode = .cr4 := Option.some.inj ((sent isOpen).symm.trans inCr4)
    obtain ⟨deadline, scheduled⟩ := Option.isSome_iff_exists.mp (mode.mpr cr4)
    exact ⟨deadline, _, reveal.trans scheduled, confirmation, timely deadline scheduled⟩

variable (transition : AttemptTransition)
  (found : ledger.batches.get? transition.batchId =
    some ((preparedAttempt hotkeys vector intent).prepared schemaId).batch)
  (valid : transition.validate = .ok ())

include found valid

/-- A call that is known to have failed closes the batch with its deadlines. -/
theorem keepsDeadlines_of_failed (digest : Digest) (failed : transition.confirmationState = .failed)
    (uncommitted : transition.revealRound = none)
    (confirmation : transition.confirmationDeadlineBlock = none)
    (reveal : transition.cr4RevealDeadlineBlock = none ∨
      transition.cr4RevealDeadlineBlock = intent.cr4RevealDeadlineBlock) :
    ∃ batch, (perform digest (.transition transition) ledger).batches.get? transition.batchId =
        some batch ∧
      ((preparedAttempt hotkeys vector intent).prepared schemaId).batch.KeepsDeadlines batch := by
  have checked := ledger.checked _ _ found
  -- the transition brings no deadline of its own, so the batch keeps its prepared one
  have stored : transition.confirmationDeadline
      ((preparedAttempt hotkeys vector intent).prepared
        schemaId).batch.confirmationDeadlineBlock =
        some (inclusionDeadline intent.submissionBlock none) := by
    rw [AttemptTransition.confirmationDeadline, confirmation]
    rfl
  obtain ⟨later, done, batches⟩ := Ledger.transition_eq_ok valid found rfl
    (AttemptTransition.checked_change checked rfl valid (by rw [uncommitted]; nofun)
      ⟨⟨_, stored, by
        have := checked.deadlineBlock _ rfl
        exact this⟩, by
        intro deadline held
        rw [AttemptTransition.change, stored] at held
        cases held
        exact checked.safeDeadline _ rfl⟩)
  refine ⟨_, by rw [perform, done, batches, Dict.get?_set, if_pos rfl], ?_⟩
  refine keepsDeadlines_of_same mode timely stored ?_ rfl rfl fun isOpen => ?_
  · change transition.revealDeadline intent.cr4RevealDeadlineBlock = intent.cr4RevealDeadlineBlock
    rw [AttemptTransition.revealDeadline]
    rcases reveal with none | same
    · rw [none]
    · rw [same]
      cases intent.cr4RevealDeadlineBlock with
      | none => rfl
      | some deadline => exact congrArg some (max_self deadline)
  · rw [Batch.isOpen, AttemptTransition.change, failed] at isOpen
    cases isOpen

/-- A call that may have reached the chain keeps the deadlines unless its batch becomes one of CR4
without a covered reveal. -/
theorem keepsDeadlines_of_open (digest : Digest) (reads : RefreshReads) (still : transition.confirmationState.isOpen = true)
    (round : ∀ revealRound ∈ transition.revealRound, 0 ≤ revealRound)
    (deadlines : (transition.confirmationDeadlineBlock, transition.cr4RevealDeadlineBlock) =
      (preparedAttempt hotkeys vector intent).postSubmissionDeadlines reads) :
    ∃ batch, (perform digest (.transition transition) ledger).batches.get? transition.batchId =
        some batch ∧
      (((preparedAttempt hotkeys vector intent).prepared schemaId).batch.KeepsDeadlines batch ↔
        (transition.submissionMode = .cr4 → intent.submissionMode = .cr4 ∧
          (preparedAttempt hotkeys vector intent).CoversInclusion reads)) := by
  have checked := ledger.checked _ _ found
  have started : 0 ≤ intent.submissionBlock := checked.submissionBlock _ rfl
  have bounds := inclusionDeadline_bounds intent.submissionBlock reads.sampledAfterSubmission
  have positive := positive_of_timely started timely
  obtain ⟨confirmation, reveal⟩ :=
    Prod.mk.inj (deadlines.trans (postSubmissionDeadlines_eq mode positive))
  have stored : transition.confirmationDeadline
      ((preparedAttempt hotkeys vector intent).prepared
        schemaId).batch.confirmationDeadlineBlock =
        some (inclusionDeadline intent.submissionBlock reads.sampledAfterSubmission) := by
    rw [AttemptTransition.confirmationDeadline, confirmation]
    exact congrArg some (max_eq_right bounds.1)
  have kept : transition.revealDeadline intent.cr4RevealDeadlineBlock =
      intent.cr4RevealDeadlineBlock.map reads.laterReveal := by
    rw [AttemptTransition.revealDeadline, reveal]
    cases intent.cr4RevealDeadlineBlock with
    | none => rfl
    | some deadline => exact congrArg some (max_eq_right (reads.le_laterReveal deadline))
  have within : intent.submissionBlock + weightEmissionPeriodBlocks ≤
      inclusionDeadline intent.submissionBlock reads.sampledAfterSubmission := by
    have := bounds.1
    rw [weightEmissionFinalityMarginBlocks] at this
    omega
  -- the later deadlines pass the checks of the table, so the transition is written
  obtain ⟨later, done, batches⟩ := Ledger.transition_eq_ok valid found rfl
    (AttemptTransition.checked_change checked rfl valid round
      ⟨⟨_, stored, by
        rw [weightEmissionPeriodBlocks] at within
        omega⟩, by
        intro deadline held
        rw [AttemptTransition.change, stored] at held
        cases held
        rintro _ ⟨⟩ _ ⟨⟩
        exact ⟨within, bounds.2⟩⟩)
  refine ⟨_, by rw [perform, done, batches, Dict.get?_set, if_pos rfl], ?_⟩
  constructor
  · intro keeps becomes
    obtain ⟨deadline, inclusion, held, included, above⟩ := keeps.cr4 still (congrArg some becomes)
    cases stored.symm.trans included
    obtain ⟨first, scheduled, rfl⟩ := Option.map_eq_some_iff.mp (kept.symm.trans held)
    exact ⟨mode.mp (by rw [scheduled]; rfl),
      (coversInclusion_iff scheduled (timely first scheduled)).mpr above⟩
  · intro covered
    refine ⟨⟨_, _, _, _, rfl, stored, rfl, rfl, bounds.1, within, bounds.2⟩,
      fun first scheduled => ?_, fun _ becomes => ?_⟩
    · have scheduled : intent.cr4RevealDeadlineBlock = some first := scheduled
      exact ⟨_, kept.trans (by rw [scheduled, Option.map_some]), reads.le_laterReveal first⟩
    · obtain ⟨cr4, covers⟩ := covered (Option.some.inj becomes)
      obtain ⟨first, scheduled⟩ := Option.isSome_iff_exists.mp (mode.mpr cr4)
      exact ⟨_, _, kept.trans (by rw [scheduled, Option.map_some]), stored,
        (coversInclusion_iff scheduled (timely first scheduled)).mp covers⟩

end Call

section AfterCall

variable {hotkeys : List String} {vector : ChainWeightVector} {intent : WeightIntentMetadata}
  {schemaId : String} {reads : RefreshReads}
  (mode : intent.cr4RevealDeadlineBlock.isSome = true ↔ intent.submissionMode = .cr4)
  (timely : ∀ reveal ∈ intent.cr4RevealDeadlineBlock,
    inclusionDeadline intent.submissionBlock none ≤ reveal)
  (found : ledger.batches.get? id =
    some ((preparedAttempt hotkeys vector intent).prepared schemaId).batch)

include mode timely found

/-- The reads after the call leave a reveal deadline in CR4 mode only. -/
theorem revealMode_post :
    ((preparedAttempt hotkeys vector intent).postSubmissionDeadlines reads).2.isSome = true →
      intent.submissionMode = .cr4 := by
  have started : 0 ≤ intent.submissionBlock := (ledger.checked _ _ found).submissionBlock _ rfl
  rw [postSubmissionDeadlines_eq mode (positive_of_timely started timely), Option.isSome_map]
  exact mode.mp

/-- An ambiguous call keeps the deadlines unless it is of CR4 without a covered reveal. -/
theorem keepsDeadlines_of_ambiguous (digest : Digest) (reads : RefreshReads) : ∃ batch,
    (perform digest (.transition
      { batchId := id
        status := .error
        confirmationState := .ambiguous
        submissionMode := intent.submissionMode
        commitmentHash := none
        revealRound := none
        confirmationDeadlineBlock :=
          ((preparedAttempt hotkeys vector intent).postSubmissionDeadlines reads).1
        cr4RevealDeadlineBlock :=
          ((preparedAttempt hotkeys vector intent).postSubmissionDeadlines reads).2 })
      ledger).batches.get? id = some batch ∧
    (((preparedAttempt hotkeys vector intent).prepared schemaId).batch.KeepsDeadlines batch ↔
      (some intent.submissionMode = some SubmissionMode.cr4 →
        (preparedAttempt hotkeys vector intent).CoversInclusion reads)) := by
  obtain ⟨batch, held, keeps⟩ := keepsDeadlines_of_open mode timely
    { batchId := id
      status := .error
      confirmationState := .ambiguous
      submissionMode := intent.submissionMode
      commitmentHash := none
      revealRound := none
      confirmationDeadlineBlock :=
        ((preparedAttempt hotkeys vector intent).postSubmissionDeadlines reads).1
      cr4RevealDeadlineBlock :=
        ((preparedAttempt hotkeys vector intent).postSubmissionDeadlines reads).2 }
    found (AttemptTransition.validate_eq_ok.mpr (by simpa using revealMode_post mode timely found))
    digest reads rfl nofun rfl
  refine ⟨batch, held, keeps.trans ?_⟩
  rw [Option.some.injEq]
  exact forall_congr' fun cr4 => and_iff_right cr4

/-- After the call the batch keeps its deadlines exactly when its attempt stays revealable. -/
theorem keepsDeadlines_afterCall (digest : Digest) (reads : RefreshReads) (outcome : SdkOutcome) :
    ∃ batch,
    (ledger.afterCall digest (preparedAttempt hotkeys vector intent) id reads
      outcome).batches.get? id = some batch ∧
    (((preparedAttempt hotkeys vector intent).prepared schemaId).batch.KeepsDeadlines batch ↔
      (preparedAttempt hotkeys vector intent).StaysRevealable reads outcome) := by
  have sent : (preparedAttempt hotkeys vector intent).submissionMode = some intent.submissionMode :=
    rfl
  cases outcome with
  | restartRequired =>
    exact ⟨_, found, iff_of_true (keepsDeadlines_of_same mode timely rfl rfl rfl rfl fun _ => rfl)
      trivial⟩
  -- a failed attempt keeps the deadlines of the prepared one
  | rejected =>
    obtain ⟨batch, held, keeps⟩ := keepsDeadlines_of_failed mode timely
      ⟨id, .failed, .failed, intent.submissionMode, none, none, none, none⟩ found
      (AttemptTransition.validate_eq_ok.mpr (by simp)) digest rfl rfl rfl (.inl rfl)
    exact ⟨batch, held, iff_of_true keeps trivial⟩
  | deferred =>
    obtain ⟨batch, held, keeps⟩ := keepsDeadlines_of_failed mode timely
      ⟨id, .failed, .failed, intent.submissionMode, none, none, none,
        intent.cr4RevealDeadlineBlock⟩ found
      (AttemptTransition.validate_eq_ok.mpr (by simp [mode])) digest rfl rfl rfl (.inr rfl)
    exact ⟨batch, held, iff_of_true keeps trivial⟩
  -- nobody knows whether the chain took these calls
  | throttled => exact keepsDeadlines_of_ambiguous mode timely found digest reads
  | stalled => exact keepsDeadlines_of_ambiguous mode timely found digest reads
  | raised => exact keepsDeadlines_of_ambiguous mode timely found digest reads
  | accepted commitment =>
    cases commitment with
    | none =>
      by_cases cr4 : intent.submissionMode = .cr4
      · -- An accepted CR4 call without metadata is ambiguous.
        have ambiguous := keepsDeadlines_of_ambiguous mode timely found digest reads
        rw [cr4] at ambiguous sent
        simp only [Ledger.afterCall, WeightEmissionAttempt.completion,
          WeightEmissionAttempt.submitPreparedWeights, sent, if_true]
        obtain ⟨batch, held, keeps⟩ := ambiguous
        refine ⟨batch, held, keeps.trans ?_⟩
        rw [WeightEmissionAttempt.StaysRevealable, sent]
      · have direct : (preparedAttempt hotkeys vector intent).submissionMode ≠ some .cr4 :=
          fun same => cr4 (Option.some.inj same)
        simp only [Ledger.afterCall, WeightEmissionAttempt.completion,
          WeightEmissionAttempt.submitPreparedWeights, if_neg direct]
        obtain ⟨batch, held, keeps⟩ := keepsDeadlines_of_open mode timely
          ⟨id, .submitted, .submitted, .direct, none, none,
            ((preparedAttempt hotkeys vector intent).postSubmissionDeadlines reads).1,
            ((preparedAttempt hotkeys vector intent).postSubmissionDeadlines reads).2⟩ found
          (AttemptTransition.validate_eq_ok.mpr (by
            simpa using fun given => cr4 (revealMode_post mode timely found given)))
          digest reads rfl nofun rfl
        exact ⟨batch, held, keeps.trans (iff_of_true nofun fun same => absurd same direct)⟩
    | some metadata =>
      obtain ⟨commitmentHash, revealRound⟩ := metadata
      simp only [Ledger.afterCall, WeightEmissionAttempt.completion,
        WeightEmissionAttempt.submitPreparedWeights]
      by_cases numbered : 0 ≤ revealRound
      · obtain ⟨batch, held, keeps⟩ := keepsDeadlines_of_open mode timely
          ⟨id, .submitted, .submitted, .cr4, some commitmentHash, some revealRound,
            ((preparedAttempt hotkeys vector intent).postSubmissionDeadlines reads).1,
            ((preparedAttempt hotkeys vector intent).postSubmissionDeadlines reads).2⟩ found
          (AttemptTransition.validate_eq_ok.mpr (by simp)) digest reads rfl
          (by rintro _ ⟨⟩; exact numbered) rfl
        refine ⟨batch, held, keeps.trans ?_⟩
        rw [WeightEmissionAttempt.StaysRevealable, sent, Option.some.injEq]
        exact ⟨fun covered _ => covered rfl, fun covered _ => covered numbered⟩
      · -- The table refuses a negative round, and the batch stays prepared.
        refine ⟨((preparedAttempt hotkeys vector intent).prepared schemaId).batch, ?_, iff_of_true
          (keepsDeadlines_of_same mode timely rfl rfl rfl rfl fun _ => rfl)
          fun round => absurd round numbered⟩
        simp only [perform]
        split
        · next later done =>
          obtain ⟨-, batch, admits, -, -, -⟩ := Ledger.transitionWeightEmissionAttempt_eq_ok done
          exact absurd (admits.1.revealRound revealRound rfl) numbered
        · exact found

end AfterCall

/-- No emission is recorded whose reveal deadline is before its inclusion deadline. -/
theorem WeightEmission.Accepted.timely {emission : WeightEmission}
    (accepted : emission.Accepted digest) : ∀ reveal ∈ emission.cr4RevealDeadlineBlock,
      ∀ deadline ∈ emission.confirmationDeadlineBlock, deadline ≤ reveal := by
  have numbers := accepted.numbers
  rw [validateNumbers] at numbers
  split at numbers
  · cases numbers
  · simp only [bind_eq_ok, ensure_eq_ok, exists_const] at numbers
    exact numbers.2.2.2.2

/-- The batch that the emitter records is there after the call. -/
theorem exists_afterCall {validator : ValidatorIdentity} {digest : Digest}
    {ledger inserted : Ledger} {reads : EmissionReads} {attempt : WeightEmissionAttempt} {id : ℕ}
    (made : emitWeightCandidate validator digest reads = .attempt attempt)
    (recorded : ledger.recordWeightEmission digest (attempt.prepared validator.schemaId) =
      .ok (id, inserted)) (refresh : RefreshReads) (outcome : SdkOutcome) :
    ∃ batch,
      (inserted.afterCall digest attempt id refresh outcome).batches.get? id = some batch ∧
      ((attempt.prepared validator.schemaId).batch.KeepsDeadlines batch ↔
        attempt.StaysRevealable refresh outcome) := by
  obtain ⟨_, vector, intent, targets, -, rfl, drafted⟩ := drafted_of_emitWeightCandidate made
  obtain ⟨rfl, accepted, -, batches, -⟩ := Ledger.recordWeightEmission_eq_ok recorded
  exact keepsDeadlines_afterCall drafted.mode
    (fun reveal scheduled => accepted.timely reveal scheduled _ rfl)
    (show inserted.batches.get? ledger.nextId = _ by rw [batches, Dict.get?_set, if_pos rfl])
    digest refresh outcome

/-- Of a batch that the emitter records, the deadlines stay what the recording enforced, through
the outcome of the call and every later transaction, exactly when the attempt stays revealable. -/
theorem deadlines_kept_iff {validator : ValidatorIdentity} {digest : Digest}
    {ledger inserted : Ledger} {reads : EmissionReads} {attempt : WeightEmissionAttempt} {id : ℕ}
    (made : emitWeightCandidate validator digest reads = .attempt attempt)
    (recorded : ledger.recordWeightEmission digest (attempt.prepared validator.schemaId) =
      .ok (id, inserted)) (refresh : RefreshReads) (outcome : SdkOutcome) :
    (∀ operations batch, LeavesAttempt id operations →
      (run (perform digest) (inserted.afterCall digest attempt id refresh outcome)
        operations).batches.get? id = some batch →
      (attempt.prepared validator.schemaId).batch.KeepsDeadlines batch) ↔
    attempt.StaysRevealable refresh outcome := by
  obtain ⟨batch, held, keeps⟩ := exists_afterCall made recorded refresh outcome
  rw [← keeps]
  constructor
  · exact fun always => always [] batch nofun held
  · intro kept operations later leaves found
    obtain ⟨last, same, unchanged⟩ := run_sameDeadlines leaves held
    cases found.symm.trans same
    exact unchanged.keeps kept

/-! ### A direct attempt -/

namespace Tempo

/-- The reads of an attempt while commit-reveal is off. -/
def directReads : EmissionReads :=
  { reads 360 with intent := some { intentReads 360 with commitRevealEnabled := false } }

/-- A direct attempt that is recorded in an empty ledger. -/
theorem exists_recorded : ∃ attempt inserted,
    emitWeightCandidate validator zeros directReads = .attempt attempt ∧
    Ledger.empty.recordWeightEmission zeros (attempt.prepared validator.schemaId) =
      .ok (1, inserted) ∧ attempt.submissionMode = some .direct := by
  obtain ⟨attempt, made⟩ := Preparation.exists_of_isAttempt
    (show (emitWeightCandidate validator zeros directReads).isAttempt = true by decide +kernel)
  obtain ⟨_, vector, intent, targets, known, rfl, drafted⟩ := drafted_of_emitWeightCandidate made
  cases known
  have scheduled := drafted.scheduled
  have direct : intent.submissionMode ≠ .cr4 := fun cr4 => by
    have given := drafted.mode.mpr cr4
    rw [show intent.cr4RevealDeadlineBlock = none from scheduled] at given
    cases given
  have alone : Ledger.empty.openBatches validator.schemaId = [] := rfl
  obtain ⟨inserted, recorded⟩ := drafted.exists_record hex
    (drafted.numbered (drafted.since (by decide))) alone fun both => by cases both.1
  refine ⟨_, inserted, made, recorded, ?_⟩
  cases mode : intent.submissionMode with
  | direct => exact congrArg some mode
  | cr4 => exact absurd mode direct

end Tempo

open Tempo in
/-- A direct attempt whose call is answered without metadata is there after every later
transaction that leaves it, with its deadlines. -/
theorem direct_call_keeps_deadlines : ∃ attempt inserted,
    emitWeightCandidate validator zeros directReads = .attempt attempt ∧
    Ledger.empty.recordWeightEmission zeros (attempt.prepared validator.schemaId) =
      .ok (1, inserted) ∧
    ∀ operations, LeavesAttempt 1 operations → ∃ batch,
      (run (perform zeros) (inserted.afterCall zeros attempt 1 ⟨some 104, none⟩ (.accepted none))
        operations).batches.get? 1 = some batch ∧
      (attempt.prepared validator.schemaId).batch.KeepsDeadlines batch := by
  obtain ⟨attempt, inserted, made, recorded, direct⟩ := exists_recorded
  have kept := (deadlines_kept_iff made recorded ⟨some 104, none⟩ (.accepted none)).mpr
    fun cr4 => by cases direct.symm.trans cr4
  refine ⟨attempt, inserted, made, recorded, fun operations leaves => ?_⟩
  obtain ⟨batch, held, -⟩ := exists_afterCall made recorded ⟨some 104, none⟩ (.accepted none)
  obtain ⟨last, same, -⟩ := run_sameDeadlines leaves held
  exact ⟨last, same, kept operations last leaves same⟩

open Tempo in
/-- A direct attempt whose call is answered with metadata becomes a CR4 batch without a reveal
deadline. -/
theorem commitment_without_reveal_deadline : ∃ attempt inserted batch,
    emitWeightCandidate validator zeros directReads = .attempt attempt ∧
    Ledger.empty.recordWeightEmission zeros (attempt.prepared validator.schemaId) =
      .ok (1, inserted) ∧
    (inserted.afterCall zeros attempt 1 ⟨some 104, none⟩
      (.accepted (some ("commitment", 43)))).batches.get? 1 = some batch ∧
    ¬(attempt.prepared validator.schemaId).batch.KeepsDeadlines batch := by
  obtain ⟨attempt, inserted, made, recorded, direct⟩ := exists_recorded
  obtain ⟨batch, held, keeps⟩ := exists_afterCall made recorded ⟨some 104, none⟩
    (.accepted (some ("commitment", 43)))
  refine ⟨_, inserted, batch, made, recorded, held, fun kept => ?_⟩
  cases direct.symm.trans (keeps.mp kept (by decide)).1

end Endure.Emission
