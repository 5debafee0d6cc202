import Endure.Emission.Transactions

/-!
# Resolving open emissions

`resolve_weight_emission_confirmations` of `endure/storage/repository.py`: one snapshot of
the finalized chain decides on the open batch of a schema, directly or through the
commitments and reveals of CR4.
-/

namespace Endure.Emission

open Library Library.Checked

structure WeightCommitEvidence where
  validatorHotkey : String
  commitBlock : ℤ
  commitmentHash : String
  revealRound : ℤ
  deriving DecidableEq

structure WeightRevealEvidence where
  validatorHotkey : String
  netuid : ℤ
  revealBlock : ℤ
  deriving DecidableEq

/-- What was read of the finalized chain. -/
structure WeightEmissionChainSnapshot where
  chainIdentity : String
  netuid : ℤ
  validatorUid : ℤ
  validatorHotkey : String
  block : ℤ
  lastUpdateBlock : ℤ
  weights : List (ℤ × ℤ)
  commitments : List WeightCommitEvidence
  reveals : List WeightRevealEvidence
  hotkeys : List (ℤ × String)
  revealScanComplete : Bool := true
  deriving DecidableEq

structure WeightResolutionDecision where
  confirm : Bool := false
  unconfirm : Bool := false
  observedCommitBlock : Option ℤ := none
  observedLastUpdateBlock : Option ℤ := none
  observedCommitmentHash : Option String := none
  observedRevealRound : Option ℤ := none
  deriving DecidableEq

/-- The counts a resolution returns. -/
structure WeightEmissionConfirmationResolution where
  confirmed : ℕ
  unconfirmed : ℕ
  deriving DecidableEq

namespace WeightEmissionChainSnapshot

variable (snapshot : WeightEmissionChainSnapshot)

def validateWeightChainSnapshot : Except LedgerError Unit := do
  ensure (0 ≤ snapshot.block ∧ 0 ≤ snapshot.lastUpdateBlock)
    (.value "finalized weight evidence blocks must be non-negative")
  ensure (snapshot.lastUpdateBlock ≤ snapshot.block)
    (.value "last update exceeds finalized block")
  ensure (∀ commit ∈ snapshot.commitments, commit.commitBlock ≤ snapshot.block)
    (.value "commitment block exceeds finalized block")
  ensure (∀ reveal ∈ snapshot.reveals, reveal.revealBlock ≤ snapshot.block)
    (.value "reveal block exceeds finalized block")
  ensure (snapshot.hotkeys.map Prod.fst).Nodup
    (.value "finalized hotkey UIDs must be unique")
  ensure (snapshot.weights.map Prod.fst).Nodup
    (.value "finalized weight UIDs must be unique")

/-- The finalized vector and hotkeys are those of the targets, which are in the order of
their UIDs. -/
def vectorMatches (expectedTargets : List WeightTarget) : Bool :=
  expectedTargets.map (fun target => (target.uid, target.weight)) =
      snapshot.weights.insertionSort (fun first second => toLex first ≤ toLex second) ∧
    ∀ target ∈ expectedTargets,
      (Dict.ofEntries snapshot.hotkeys).get? target.uid = some target.hotkey

/-- A stored hash is the one recomputed from the snapshot's identity and the targets. -/
def intentMatches (digest : Digest) (expectedTargets : List WeightTarget)
    (storedIntentHash : String) : Bool :=
  match recordedProtocolVersion storedIntentHash with
  | none => false
  | some version =>
    (version = none ∨ version = some currentVersionKey) ∧
      storedIntentHash = weightIntentHash digest
        { chainIdentity := snapshot.chainIdentity
          netuid := snapshot.netuid
          validatorUid := snapshot.validatorUid
          validatorHotkey := snapshot.validatorHotkey
          targets := expectedTargets } version

/-- The batch was made under the snapshot's chain, netuid, UID and hotkey. -/
def identityMatches (batch : Batch) : Bool :=
  batch.chainIdentity = some snapshot.chainIdentity ∧ batch.netuid = some snapshot.netuid ∧
    batch.validatorUid = some snapshot.validatorUid ∧
    batch.validatorHotkey = some snapshot.validatorHotkey

/-- The head is past a block, when there is one. -/
def past (block : Option ℤ) : Bool := block.any (· < snapshot.block)

/-- A batch of another identity ends once the head is past its deadlines. -/
def foreignWeightResolution (batch : Batch) : WeightResolutionDecision :=
  let deadlines := batch.confirmationDeadlineBlock.toList ++ batch.cr4RevealDeadlineBlock.toList
  { unconfirm := snapshot.past deadlines.max? }

def directWeightResolution (submissionBlock baselineBlock : ℤ) (deadline : Option ℤ)
    (finalityMarginBlocks : ℤ) (vectorMatches : Bool) : WeightResolutionDecision :=
  let expiryBlock := deadline.map (· - finalityMarginBlocks)
  let confirm : Bool := expiryBlock.any (snapshot.lastUpdateBlock ≤ ·) ∧
    max submissionBlock baselineBlock < snapshot.lastUpdateBlock ∧ vectorMatches
  { confirm, unconfirm := !confirm && snapshot.past deadline }

/-- The commitments of the validator that fall into the batch's inclusion window and agree
with the metadata it has. -/
def candidates (submissionBlock periodBlocks finalityMarginBlocks : ℤ) (deadline : Option ℤ)
    (commitmentHash : Option String) (revealRound : Option ℤ) : List WeightCommitEvidence :=
  let inclusionDeadline :=
    (deadline.map (· - finalityMarginBlocks)).getD (submissionBlock + periodBlocks)
  snapshot.commitments.filter fun commit =>
    commit.validatorHotkey = snapshot.validatorHotkey ∧
      submissionBlock ≤ commit.commitBlock ∧ commit.commitBlock ≤ inclusionDeadline ∧
      (commitmentHash = none ∧ revealRound = none ∨
        some commit.commitmentHash = commitmentHash ∧ some commit.revealRound = revealRound)

/-- The snapshot shows a reveal of the validator on its subnet, from the observed commitment
or else the submission on, and up to the reveal deadline. -/
def revealMatches (submissionBlock : ℤ) (observedBlock revealDeadline : Option ℤ) : Bool :=
  snapshot.reveals.any fun reveal =>
    reveal.validatorHotkey = snapshot.validatorHotkey ∧ reveal.netuid = snapshot.netuid ∧
      observedBlock.getD submissionBlock ≤ reveal.revealBlock ∧
      revealDeadline.all (reveal.revealBlock ≤ ·)

def cr4WeightResolution (submissionBlock periodBlocks : ℤ)
    (deadline revealDeadline : Option ℤ) (finalityMarginBlocks : ℤ)
    (commitmentHash : Option String) (revealRound observedBlock observedLastUpdateBlock : Option ℤ)
    (vectorMatches revealScanComplete : Bool) : WeightResolutionDecision :=
  let found := snapshot.candidates submissionBlock periodBlocks finalityMarginBlocks deadline
    commitmentHash revealRound
  -- several commits fit: none is believed, and only time decides
  if 1 < found.length then { unconfirm := snapshot.past deadline }
  else
    let matchingCommit := found.head?
    if snapshot.revealMatches submissionBlock observedBlock revealDeadline ∧ vectorMatches then
      { confirm := true }
    else
      let expiryDeadline := revealDeadline.or deadline
      match matchingCommit, observedBlock with
      -- first sight of the commit: observe it, decide later
      | some commit, none =>
        { observedCommitBlock := some commit.commitBlock
          observedLastUpdateBlock := some snapshot.lastUpdateBlock
          observedCommitmentHash :=
            if commitmentHash = none then some commit.commitmentHash else none
          observedRevealRound := if revealRound = none then some commit.revealRound else none }
      | _, _ =>
        if observedBlock.isSome ∧ observedLastUpdateBlock.isSome then
          { unconfirm := revealScanComplete && matchingCommit.isNone &&
              snapshot.past expiryDeadline }
        else { unconfirm := revealScanComplete && snapshot.past expiryDeadline }

/-- The decision on an open batch with its targets. The rows of the table that lack a
submission, a baseline, or a period are not open ones. -/
def weightResolution (digest : Digest) (finalityMarginBlocks : ℤ) (batch : Batch)
    (expectedTargets : List WeightTarget) : Except LedgerError WeightResolutionDecision :=
  if ¬snapshot.identityMatches batch then .ok (snapshot.foreignWeightResolution batch)
  else
    match batch.submissionBlock, batch.baselineLastUpdateBlock with
    | some submissionBlock, some baselineBlock =>
      if snapshot.block < max submissionBlock baselineBlock then .ok {}
      else
        let vectorMatches := snapshot.vectorMatches expectedTargets &&
          -- A missing hash reads as the text `None`, which has neither form.
          snapshot.intentMatches digest expectedTargets (batch.intentHash.getD "None")
        if batch.submissionMode = some .direct then
          .ok (snapshot.directWeightResolution submissionBlock baselineBlock
            batch.confirmationDeadlineBlock finalityMarginBlocks vectorMatches)
        else
          match batch.periodBlocks with
          | none => .error (.type "int() argument must be a number, not 'NoneType'")
          | some periodBlocks =>
            .ok (snapshot.cr4WeightResolution submissionBlock periodBlocks
              batch.confirmationDeadlineBlock batch.cr4RevealDeadlineBlock finalityMarginBlocks
              batch.commitmentHash batch.revealRound batch.commitmentObservedBlock
              batch.commitmentObservedLastUpdateBlock vectorMatches snapshot.revealScanComplete)
    | _, _ => .ok {}

end WeightEmissionChainSnapshot

/-- The batch with a commitment observed. -/
def observedBy (decision : WeightResolutionDecision) (batch : Batch) : Batch :=
  { batch with
    commitmentObservedBlock := decision.observedCommitBlock
    commitmentObservedLastUpdateBlock := decision.observedLastUpdateBlock
    commitmentHash := decision.observedCommitmentHash.or batch.commitmentHash
    revealRound := decision.observedRevealRound.or batch.revealRound }

/-- The batch confirmed. -/
def confirmedAs (confirmedAt : String) (batch : Batch) : Batch :=
  { batch with confirmationState := some .confirmed, confirmedAt := some confirmedAt }

/-- The batch given up. -/
def unconfirmedAs (batch : Batch) : Batch :=
  { batch with confirmationState := some .unconfirmed }

/-- The UID, hotkey and weight of a batch's row, if it carries a weight. -/
def weightedRow (id : ℕ) (key : ℕ × ℤ) (row : EmissionRow) : Option (ℤ × String × ℤ) :=
  if key.1 = id then row.weightU16.map fun weight => (key.2, row.minerHotkey, weight) else none

namespace Ledger

variable (ledger : Ledger)

/-- The weighted rows of a batch in the order of their UIDs. -/
def expectedWeightTargets (id : ℕ) : List WeightTarget :=
  (ledger.rows.select (weightedRow id)).map fun (uid, hotkey, weight) => ⟨uid, hotkey, weight⟩

/-- Carry a decision out on the batch whose state was read; with the ledger come the
numbers of confirmed and unconfirmed batches. -/
def applyWeightResolution (id : ℕ) (confirmationState : Option ConfirmationState)
    (decision : WeightResolutionDecision) (confirmedAt : String) :
    Except LedgerError (Ledger × ℕ × ℕ) := do
  -- compare and swap: another resolution may have moved the batch on
  let condition (batch : Batch) : Bool := batch.confirmationState = confirmationState
  if decision.observedCommitBlock.isSome then
    let observed ← ledger.updateWhere id condition (observedBy decision)
    pure (observed.getD ledger, 0, 0)
  else if decision.confirm then
    match ← ledger.updateWhere id condition (confirmedAs confirmedAt) with
    | none => pure (ledger, 0, 0)
    | some confirmed => pure (confirmed.markEmitted id, 1, 0)
  else if decision.unconfirm then
    match ← ledger.updateWhere id condition unconfirmedAs with
    | none => pure (ledger, 0, 0)
    | some unconfirmed => pure (unconfirmed, 0, 1)
  else pure (ledger, 0, 0)

/-- Decide on one open batch. -/
def resolveBatch (digest : Digest) (snapshot : WeightEmissionChainSnapshot)
    (finalityMarginBlocks : ℤ) (confirmedAt : String) (id : ℕ) (batch : Batch) :
    Except LedgerError (Ledger × ℕ × ℕ) := do
  let decision ← snapshot.weightResolution digest finalityMarginBlocks batch
    (ledger.expectedWeightTargets id)
  ledger.applyWeightResolution id batch.confirmationState decision confirmedAt

/-- Resolve every open emission of a schema with one snapshot. -/
def resolveWeightEmissionConfirmations (digest : Digest) (schemaId : String)
    (snapshot : WeightEmissionChainSnapshot) (finalityMarginBlocks : ℤ) (confirmedAt : String) :
    Except LedgerError (Ledger × WeightEmissionConfirmationResolution) := do
  ensure (0 ≤ finalityMarginBlocks) (.value "finality_margin_blocks must be non-negative")
  snapshot.validateWeightChainSnapshot
  let (resolved, confirmed, unconfirmed) ← (ledger.openBatches schemaId).foldlM
    (fun (current, confirmed, unconfirmed) (id, batch) => do
      let (later, newlyConfirmed, newlyUnconfirmed) ←
        current.resolveBatch digest snapshot finalityMarginBlocks confirmedAt id batch
      pure (later, confirmed + newlyConfirmed, unconfirmed + newlyUnconfirmed)) (ledger, 0, 0)
  pure (resolved, ⟨confirmed, unconfirmed⟩)

variable {ledger} {id : ℕ}

theorem mem_select_weightedRow {rows : Dict (ℕ × ℤ) EmissionRow} {uid weight : ℤ} {hotkey : String} :
    (uid, hotkey, weight) ∈ rows.select (weightedRow id) ↔ ∃ row,
      rows.get? (id, uid) = some row ∧ row.minerHotkey = hotkey ∧ row.weightU16 = some weight := by
  rw [Dict.mem_select]
  constructor
  · rintro ⟨⟨batchId, other⟩, row, held, picked⟩
    rw [weightedRow] at picked
    split at picked
    · next here =>
      obtain ⟨carried, weighs, same⟩ := Option.map_eq_some_iff.mp picked
      cases same
      cases here
      exact ⟨row, held, rfl, weighs⟩
    · cases picked
  · rintro ⟨row, held, rfl, weighs⟩
    exact ⟨(id, uid), row, held, by simp [weightedRow, weighs]⟩

theorem mem_expectedWeightTargets {target : WeightTarget} :
    target ∈ ledger.expectedWeightTargets id ↔ ∃ row,
      ledger.rows.get? (id, target.uid) = some row ∧ row.minerHotkey = target.hotkey ∧
        row.weightU16 = some target.weight := by
  obtain ⟨uid, hotkey, weight⟩ := target
  rw [← mem_select_weightedRow, expectedWeightTargets, List.mem_map]
  constructor
  · rintro ⟨_, member, same⟩
    cases same
    exact member
  · exact fun member => ⟨_, member, rfl⟩

theorem separates_weightedRow : Dict.Separates (weightedRow id) := by
  rintro ⟨batchId, uid⟩ ⟨batchId', uid'⟩ row row' a b b' picked picked'
  simp only [weightedRow] at picked picked'
  split at picked
  · next here =>
    split at picked'
    · next here' =>
      obtain ⟨_, -, same⟩ := Option.map_eq_some_iff.mp picked
      obtain ⟨_, -, same'⟩ := Option.map_eq_some_iff.mp picked'
      cases same
      cases same'
      rw [here, here']
    · cases picked'
  · cases picked

theorem expectedWeightTargets_uid : (ledger.expectedWeightTargets id).map WeightTarget.uid =
    (ledger.rows.select (weightedRow id)).map Prod.fst := by
  rw [expectedWeightTargets, List.map_map]
  rfl

theorem expectedWeightTargets_nodup :
    ((ledger.expectedWeightTargets id).map WeightTarget.uid).Nodup := by
  rw [expectedWeightTargets_uid]
  exact Dict.select_fst_nodup _ separates_weightedRow

theorem expectedWeightTargets_sorted :
    ((ledger.expectedWeightTargets id).map WeightTarget.uid).Pairwise (· ≤ ·) := by
  rw [expectedWeightTargets_uid, List.pairwise_map]
  exact List.pairwise_insertionSort _ _

/-- Ledgers whose rows of a batch carry the same have the same targets of it. -/
theorem expectedWeightTargets_congr {later : Ledger}
    (same : ∀ uid, ((later.rows.get? (id, uid)).map fun row => (row.minerHotkey, row.weightU16)) =
      (ledger.rows.get? (id, uid)).map fun row => (row.minerHotkey, row.weightU16)) :
    later.expectedWeightTargets id = ledger.expectedWeightTargets id := by
  have carries (rows : Dict (ℕ × ℤ) EmissionRow) (uid weight : ℤ) (hotkey : String) :
      (uid, hotkey, weight) ∈ rows.select (weightedRow id) ↔
        ((rows.get? (id, uid)).map fun row => (row.minerHotkey, row.weightU16)) =
          some (hotkey, some weight) := by
    rw [mem_select_weightedRow, Option.map_eq_some_iff]
    simp only [Prod.mk.injEq]
  rw [expectedWeightTargets, expectedWeightTargets,
    Dict.select_eq_of_mem_iff separates_weightedRow separates_weightedRow]
  rintro ⟨uid, hotkey, weight⟩
  rw [carries, carries, same]

end Ledger

namespace WeightEmissionChainSnapshot

variable {snapshot : WeightEmissionChainSnapshot}

/-- The vector of targets in the order of distinct UIDs matches when the finalized pairs
are exactly theirs. -/
theorem vectorMatches_iff {targets : List WeightTarget}
    (nodup : (targets.map WeightTarget.uid).Nodup)
    (sorted : (targets.map WeightTarget.uid).Pairwise (· ≤ ·)) :
    snapshot.vectorMatches targets = true ↔
      snapshot.weights.Perm (targets.map fun target => (target.uid, target.weight)) ∧
        ∀ target ∈ targets,
          (Dict.ofEntries snapshot.hotkeys).get? target.uid = some target.hotkey := by
  have total : Std.Total fun first second : ℤ × ℤ => toLex first ≤ toLex second :=
    ⟨fun first second => le_total (toLex first) (toLex second)⟩
  have trans : IsTrans (ℤ × ℤ) fun first second => toLex first ≤ toLex second :=
    ⟨fun _ _ _ left right => left.trans right⟩
  have ordered : (targets.map fun target => (target.uid, target.weight)).Pairwise
      fun first second => toLex first ≤ toLex second := by
    rw [List.Nodup, List.pairwise_map] at nodup
    rw [List.pairwise_map] at sorted ⊢
    refine (nodup.and sorted).imp fun ⟨apart, below⟩ => ?_
    exact Prod.Lex.toLex_le_toLex.mpr (.inl (lt_of_le_of_ne below apart))
  rw [vectorMatches, decide_eq_true_eq]
  refine and_congr_left' ⟨fun same => ?_, fun perm => ?_⟩
  · rw [same]
    exact (List.perm_insertionSort _ _).symm
  · exact List.Perm.eq_of_pairwise
      (fun first second _ _ below above => toLex.injective (le_antisymm below above)) ordered
      (List.pairwise_insertionSort _ _) (perm.symm.trans (List.perm_insertionSort _ _).symm)

end WeightEmissionChainSnapshot

/-- What a resolution makes of the batch it decides on. -/
inductive ResolutionOutcome (ledger : Ledger) (id : ℕ) (batch : Batch)
    (decision : WeightResolutionDecision) (confirmedAt : String) : Ledger → Prop
  | kept : decision.observedCommitBlock = none → decision.confirm = false →
      decision.unconfirm = false → ResolutionOutcome ledger id batch decision confirmedAt ledger
  | observed (admits : ledger.Admits id (observedBy decision batch)) :
      decision.observedCommitBlock.isSome = true →
      ResolutionOutcome ledger id batch decision confirmedAt (ledger.put id _ admits)
  | confirmed (admits : ledger.Admits id (confirmedAs confirmedAt batch)) :
      decision.observedCommitBlock = none → decision.confirm = true →
      ResolutionOutcome ledger id batch decision confirmedAt
        ((ledger.put id _ admits).markEmitted id)
  | unconfirmed (admits : ledger.Admits id (unconfirmedAs batch)) :
      decision.observedCommitBlock = none → decision.confirm = false →
      decision.unconfirm = true →
      ResolutionOutcome ledger id batch decision confirmedAt (ledger.put id _ admits)

namespace Ledger

variable {ledger : Ledger} {id : ℕ} {batch : Batch}

/-- An update of a batch in the state that was read is never missed. -/
theorem updateWhere_read {change : Batch → Batch} {result : Option Ledger}
    (found : ledger.batches.get? id = some batch)
    (done : ledger.updateWhere id
      (fun other => other.confirmationState = batch.confirmationState) change = .ok result) :
    ∃ admits, result = some (ledger.put id (change batch) admits) := by
  rcases updateWhere_cases done with ⟨-, missed⟩ | ⟨other, admits, here, -, rfl⟩
  · have := missed batch found
    simp at this
  · obtain rfl := Option.some.inj (here.symm.trans found)
    exact ⟨admits, rfl⟩

theorem applyWeightResolution_eq_ok {decision : WeightResolutionDecision} {confirmedAt : String}
    {later : Ledger} {confirmed unconfirmed : ℕ} (found : ledger.batches.get? id = some batch)
    (done : ledger.applyWeightResolution id batch.confirmationState decision confirmedAt =
      .ok (later, confirmed, unconfirmed)) :
    ResolutionOutcome ledger id batch decision confirmedAt later := by
  simp only [applyWeightResolution] at done
  split at done
  · next observes =>
    obtain ⟨result, updated, done⟩ := bind_eq_ok.mp done
    obtain ⟨admits, rfl⟩ := updateWhere_read found updated
    cases done
    exact .observed admits observes
  · next unseen =>
    have unseen : decision.observedCommitBlock = none := by simpa using unseen
    split at done
    · next confirms =>
      obtain ⟨result, updated, done⟩ := bind_eq_ok.mp done
      obtain ⟨admits, rfl⟩ := updateWhere_read found updated
      cases done
      exact .confirmed admits unseen confirms
    · next refuses =>
      have refuses : decision.confirm = false := by simpa using refuses
      split at done
      · next gives =>
        obtain ⟨result, updated, done⟩ := bind_eq_ok.mp done
        obtain ⟨admits, rfl⟩ := updateWhere_read found updated
        cases done
        exact .unconfirmed admits unseen refuses gives
      · next holds =>
        cases done
        exact .kept unseen refuses (by simpa using holds)

/-- A resolution decides on the one open batch of its schema, if there is one. -/
theorem resolveWeightEmissionConfirmations_eq_ok {digest : Digest} {schemaId confirmedAt : String}
    {snapshot : WeightEmissionChainSnapshot} {margin : ℤ}
    {result : Ledger × WeightEmissionConfirmationResolution}
    (done : ledger.resolveWeightEmissionConfirmations digest schemaId snapshot margin
      confirmedAt = .ok result) :
    0 ≤ margin ∧ snapshot.validateWeightChainSnapshot = .ok () ∧
      ((result.1 = ledger ∧ ledger.openBatches schemaId = []) ∨ ∃ id batch decision,
        ledger.openBatches schemaId = [(id, batch)] ∧
        snapshot.weightResolution digest margin batch (ledger.expectedWeightTargets id) =
          .ok decision ∧
        ResolutionOutcome ledger id batch decision confirmedAt result.1) := by
  rw [resolveWeightEmissionConfirmations] at done
  obtain ⟨_, margins, done⟩ := bind_eq_ok.mp done
  obtain ⟨_, valid, done⟩ := bind_eq_ok.mp done
  obtain ⟨⟨resolved, confirmed, unconfirmed⟩, folded, done⟩ := bind_eq_ok.mp done
  cases done
  refine ⟨ensure_eq_ok.mp margins, valid, ?_⟩
  rcases ledger.openBatches_cases schemaId with none | ⟨id, batch, one⟩
  · rw [none] at folded
    cases folded
    exact .inl ⟨rfl, none⟩
  · rw [one, List.foldlM_cons] at folded
    obtain ⟨first, stepped, folded⟩ := bind_eq_ok.mp folded
    cases folded
    obtain ⟨⟨later, newly, lost⟩, body, same⟩ := bind_eq_ok.mp stepped
    cases same
    obtain ⟨decision, decided, applied⟩ := bind_eq_ok.mp body
    have found := (mem_openBatches.mp (show (id, batch) ∈ ledger.openBatches schemaId by
      simp [one])).1
    exact .inr ⟨id, batch, decision, one, decided, applyWeightResolution_eq_ok found applied⟩

end Ledger

end Endure.Emission
