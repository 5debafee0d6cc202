import Endure.Emission.RevealScan

/-!
# Runs of the reveal scan

Over any sequence of emissions and resync iterations, the blocks that the cursor of an open
batch has passed are one range from its submission on. Unless several commitments match a
batch, it is given up only when that range, with the window at hand, reaches its reveal
deadline and no window has shown its reveal.
-/

namespace Endure.Emission

open Library Library.Checked Library.Transitions

/-! ### The decision -/

namespace WeightEmissionChainSnapshot

variable {snapshot : WeightEmissionChainSnapshot} {margin submission period : ℤ}
  {deadline revealDeadline revealRound observed observedLastUpdate : Option ℤ}
  {commitmentHash : Option String} {vectorMatches complete : Bool}

/-- With one matching commitment at most, a decision that does not confirm has seen no reveal
of the vector. -/
theorem cr4WeightResolution_unseen
    (single : (snapshot.candidates submission period margin deadline commitmentHash
      revealRound).length ≤ 1)
    (refuses : (snapshot.cr4WeightResolution submission period deadline revealDeadline margin
      commitmentHash revealRound observed observedLastUpdate vectorMatches complete).confirm =
        false) :
    ¬(snapshot.revealMatches submission observed revealDeadline = true ∧ vectorMatches = true) := by
  intro seen
  simp only [cr4WeightResolution] at refuses
  rw [if_neg (not_lt.mpr single), if_pos seen] at refuses
  cases refuses

/-- With one matching commitment at most, only a complete scan past the deadline gives a batch
up. -/
theorem cr4WeightResolution_unconfirm
    (single : (snapshot.candidates submission period margin deadline commitmentHash
      revealRound).length ≤ 1)
    (gives : (snapshot.cr4WeightResolution submission period deadline revealDeadline margin
      commitmentHash revealRound observed observedLastUpdate vectorMatches complete).unconfirm =
        true) :
    complete = true ∧ snapshot.past (revealDeadline.or deadline) = true := by
  simp only [cr4WeightResolution] at gives
  rw [if_neg (not_lt.mpr single)] at gives
  split at gives
  · cases gives
  · split at gives
    · cases gives
    · split at gives
      · simp only [Bool.and_eq_true] at gives
        exact ⟨gives.1.1, gives.2⟩
      · simpa using gives

/-- With several, the head past the confirmation deadline is enough. -/
theorem cr4WeightResolution_of_several
    (several : 1 < (snapshot.candidates submission period margin deadline commitmentHash
      revealRound).length) :
    (snapshot.cr4WeightResolution submission period deadline revealDeadline margin
      commitmentHash revealRound observed observedLastUpdate vectorMatches complete).unconfirm =
        snapshot.past deadline := by
  simp only [cr4WeightResolution]
  rw [if_pos several]

end WeightEmissionChainSnapshot

/-- Several finalized commitments of the validator match a batch within its inclusion window. -/
def SeveralCommitments (batch : Batch) (snapshot : WeightEmissionChainSnapshot) : Prop :=
  ∃ submission period, batch.submissionBlock = some submission ∧ batch.periodBlocks = some period ∧
    1 < (snapshot.candidates submission period weightEmissionFinalityMarginBlocks
      batch.confirmationDeadlineBlock batch.commitmentHash batch.revealRound).length

/-- A batch was made by the validator on a chain. -/
def Batch.BelongsTo (batch : Batch) (validator : ValidatorIdentity) (chainIdentity : String) :
    Prop :=
  batch.chainIdentity = some chainIdentity ∧ batch.netuid = some (validator.netuid : ℤ) ∧
    batch.validatorUid = some (validator.uid : ℤ) ∧
    batch.validatorHotkey = some validator.hotkey

/-- A scan shows the reveal of its batch: at a block of the window, not before the observed
commitment and up to the reveal deadline, the chain's events list the validator's reveal, while the
finalized vector and hotkeys are the persisted ones. -/
structure Scan.Shows (scan : Scan) (validator : ValidatorIdentity) (ledger : Ledger) : Prop where
  belongs : scan.batch.BelongsTo validator scan.reads.chainIdentity
  vector : (scan.reads.snapshot validator (some scan.window) []).vectorMatches
    (ledger.expectedWeightTargets scan.window.batchId) = true
  revealed : ∃ block, scan.Read block ∧ scan.reads.RevealedAt validator block ∧
    (∃ submission, scan.batch.submissionBlock = some submission ∧
      scan.batch.commitmentObservedBlock.getD submission ≤ block) ∧
    ∀ deadline, scan.batch.cr4RevealDeadlineBlock = some deadline → block ≤ deadline

/-- The stored hash of a batch is the one recomputed from its rows under its own identity. -/
def Ledger.IntentStored (ledger : Ledger) (digest : Digest) (id : ℕ) (batch : Batch) : Prop :=
  ∀ snapshot : WeightEmissionChainSnapshot, snapshot.identityMatches batch = true →
    snapshot.intentMatches digest (ledger.expectedWeightTargets id)
      (batch.intentHash.getD "None") = true

variable {digest : Digest} {ledger : Ledger} {schemaId : String} {id : ℕ} {batch : Batch}
  {submission deadline : ℤ}

/-- What is decided on an awaited batch of the snapshot's identity once it has been reached. -/
theorem weightResolution_of_awaits {snapshot : WeightEmissionChainSnapshot} {margin : ℤ}
    {decision : WeightResolutionDecision}
    (awaits : ledger.AwaitsReveal schemaId id batch submission deadline)
    (identity : snapshot.identityMatches batch = true) (reached : submission ≤ snapshot.block)
    (intent : ledger.IntentStored digest id batch)
    (decided : snapshot.weightResolution digest margin batch (ledger.expectedWeightTargets id) =
      .ok decision) :
    ∃ period, batch.periodBlocks = some period ∧
      decision = snapshot.cr4WeightResolution submission period batch.confirmationDeadlineBlock
        (some deadline) margin batch.commitmentHash batch.revealRound
        batch.commitmentObservedBlock batch.commitmentObservedLastUpdateBlock
        (snapshot.vectorMatches (ledger.expectedWeightTargets id)) snapshot.revealScanComplete := by
  have checked := ledger.checked id batch awaits.found
  obtain ⟨_, based, timed, -⟩ := (checked.openFields awaits.isOpen).1
  obtain ⟨baseline, based⟩ := Option.isSome_iff_exists.mp based
  obtain ⟨period, timed⟩ := Option.isSome_iff_exists.mp timed
  have before := checked.submissionAfterBaseline submission awaits.submissionBlock baseline based
  refine ⟨period, timed, ?_⟩
  rw [WeightEmissionChainSnapshot.weightResolution, if_neg (not_not.mpr identity),
    awaits.submissionBlock, based] at decided
  simp only at decided
  rw [if_neg (by omega), awaits.mode, if_neg (by decide), timed, intent snapshot identity,
    Bool.and_true, awaits.revealDeadline] at decided
  exact (Except.ok.inj decided).symm

/-- Where several commitments match an awaited batch, its reveal is not shown, and the head is past
the confirmation deadline only with a complete scan and past the reveal deadline. -/
structure Unhurried (validator : ValidatorIdentity) (ledger : Ledger) (batch : Batch) (deadline : ℤ)
    (reads : FinalizedReads) (window : Option Cr4RevealScanWindow)
    (snapshot : WeightEmissionChainSnapshot) : Prop where
  unseen : ∀ drawn ∈ window, ¬(Scan.mk drawn batch reads).Shows validator ledger
  complete : snapshot.past batch.confirmationDeadlineBlock = true →
    snapshot.revealScanComplete = true ∧ deadline < snapshot.block

section Resolution

variable {snapshot : WeightEmissionChainSnapshot} {resolved : Ledger} {confirmedAt : String}
  {later : Batch}

/-- With one matching commitment at most, a resolution that is shown the reveal of an awaited batch
confirms it. -/
theorem confirmed_of_reveal
    (awaits : ledger.AwaitsReveal schemaId id batch submission deadline)
    (identity : snapshot.identityMatches batch = true) (reached : submission ≤ snapshot.block)
    (intent : ledger.IntentStored digest id batch)
    (vector : snapshot.vectorMatches (ledger.expectedWeightTargets id) = true)
    (revealed : snapshot.revealMatches submission batch.commitmentObservedBlock (some deadline) =
      true)
    (single : ¬SeveralCommitments batch snapshot)
    (resolves : ledger.Resolves digest schemaId snapshot confirmedAt resolved)
    (found : resolved.batches.get? id = some later) :
    later.confirmationState = some .confirmed := by
  obtain ⟨decision, decided, outcome⟩ := resolves.outcome awaits
  obtain ⟨period, timed, rfl⟩ := weightResolution_of_awaits awaits identity reached intent decided
  have single := not_lt.mp fun more =>
    single ⟨submission, period, awaits.submissionBlock, timed, more⟩
  -- with the reveal shown and one commitment at most, only confirming is left
  cases outcome with
  | kept unobserved refuses =>
    exact (WeightEmissionChainSnapshot.cr4WeightResolution_unseen single refuses
      ⟨revealed, vector⟩).elim
  | observed admits observes =>
    simp only [WeightEmissionChainSnapshot.cr4WeightResolution] at observes
    rw [if_neg (not_lt.mpr single), if_pos ⟨revealed, vector⟩] at observes
    cases observes
  | confirmed =>
    rw [Ledger.batches_markEmitted, Ledger.batches_put, Dict.get?_set, if_pos rfl] at found
    cases found
    rfl
  | unconfirmed admits unobserved refuses =>
    exact (WeightEmissionChainSnapshot.cr4WeightResolution_unseen single refuses
      ⟨revealed, vector⟩).elim

/-- A resolution that gives an awaited batch of the snapshot's identity up has scanned it to the
end, past its reveal deadline. -/
theorem complete_of_resolves
    (awaits : ledger.AwaitsReveal schemaId id batch submission deadline)
    (identity : snapshot.identityMatches batch = true)
    (intent : ledger.IntentStored digest id batch)
    (unhurried : SeveralCommitments batch snapshot →
      snapshot.past batch.confirmationDeadlineBlock = true →
        snapshot.revealScanComplete = true ∧ deadline < snapshot.block)
    (resolves : ledger.Resolves digest schemaId snapshot confirmedAt resolved)
    (found : resolved.batches.get? id = some later)
    (unconfirmed : later.confirmationState = some .unconfirmed) :
    submission ≤ snapshot.block ∧ snapshot.revealScanComplete = true ∧ deadline < snapshot.block := by
  obtain ⟨decision, decided, outcome⟩ := resolves.outcome awaits
  have stillOpen (new : Batch) (isOpen : new.isOpen = true)
      (same : some new = some later) : False := by
    cases same
    rw [Batch.isOpen, unconfirmed] at isOpen
    cases isOpen
  have gives : decision.unconfirm = true := by
    cases outcome with
    | kept => exact (stillOpen batch awaits.isOpen (awaits.found.symm.trans found)).elim
    | observed =>
      rw [Ledger.batches_put, Dict.get?_set, if_pos rfl] at found
      exact (stillOpen (observedBy decision batch) awaits.isOpen found).elim
    | confirmed =>
      rw [Ledger.batches_markEmitted, Ledger.batches_put, Dict.get?_set, if_pos rfl] at found
      cases found
      cases unconfirmed
    | unconfirmed _ _ _ gives => exact gives
  have reached : submission ≤ snapshot.block := by
    -- Before the submission nothing is decided.
    by_contra early
    have checked := (ledger.checked id batch awaits.found).openFields awaits.isOpen
    obtain ⟨baseline, based⟩ := Option.isSome_iff_exists.mp checked.1.2.1
    rw [WeightEmissionChainSnapshot.weightResolution, if_neg (not_not.mpr identity),
      awaits.submissionBlock, based] at decided
    simp only at decided
    rw [if_pos (by omega)] at decided
    cases decided
    cases gives
  obtain ⟨period, timed, rfl⟩ := weightResolution_of_awaits awaits identity reached intent decided
  refine ⟨reached, ?_⟩
  by_cases several : 1 < (snapshot.candidates submission period weightEmissionFinalityMarginBlocks
      batch.confirmationDeadlineBlock batch.commitmentHash batch.revealRound).length
  · rw [WeightEmissionChainSnapshot.cr4WeightResolution_of_several several] at gives
    exact unhurried ⟨submission, period, awaits.submissionBlock, timed, several⟩ gives
  · obtain ⟨complete, past⟩ :=
      WeightEmissionChainSnapshot.cr4WeightResolution_unconfirm (not_lt.mp several) gives
    exact ⟨complete, by simpa [WeightEmissionChainSnapshot.past] using past⟩

end Resolution

/-- The intent of an accepted open batch is stored. -/
theorem intentStored_of_accepted {emission : WeightEmission} {later : Ledger}
    (accepted : emission.Accepted digest) (isOpen : emission.batch.isOpen = true)
    (nodup : (emission.rows.map WeightEmissionRow.uid).Nodup)
    (rows : ∀ uid held, later.rows.get? (id, uid) = some held ↔
      ∃ row ∈ emission.rows, row.uid = uid ∧ row.stored = held) :
    later.IntentStored digest id emission.batch := by
  intro snapshot identity
  obtain ⟨payload, stored, made, known, computed⟩ := accepted.intent isOpen
  obtain ⟨chainIdentity, netuid, validatorUid, validatorHotkey, hashed, targets⟩ :=
    WeightEmission.payload_eq_some made
  -- The stored targets are the payload's, in another order.
  have perm : (later.expectedWeightTargets id).Perm payload.targets := by
    rw [targets]
    refine (List.perm_ext_iff_of_nodup (List.Nodup.of_map _ Ledger.expectedWeightTargets_nodup)
      (List.Nodup.of_map _ ((rowTargets_uid_sublist emission.rows).nodup nodup))).mpr
        fun target => ?_
    rw [Ledger.mem_expectedWeightTargets, mem_rowTargets]
    constructor
    · rintro ⟨_, held, named, weighs⟩
      obtain ⟨row, member, here, rfl⟩ := (rows _ _).mp held
      exact ⟨row, member, here, named, weighs⟩
    · rintro ⟨row, member, here, named, weighs⟩
      exact ⟨row.stored, (rows _ _).mpr ⟨row, member, here, rfl⟩, named, weighs⟩
  have same := of_decide_eq_true identity
  simp only [WeightEmission.batch, chainIdentity, netuid, validatorUid, validatorHotkey,
    Option.some.injEq] at same
  rw [show emission.batch.intentHash = some stored from hashed, Option.getD_some,
    WeightEmissionChainSnapshot.intentMatches_iff, ← same.1, ← same.2.1, ← same.2.2.1, ← same.2.2.2]
  refine ⟨some currentVersionKey, .inr rfl, known, ?_⟩
  rw [computed]
  exact (weightIntentHash_of_perm digest perm _).symm

/-! ### The range that has been scanned -/

namespace ScanWorld

/-- A block was read in a window that the cursor of a batch has passed. -/
def Passed (world : ScanWorld) (id : ℕ) (block : ℤ) : Prop :=
  ∃ scan ∈ world.scanned, scan.window.batchId = id ∧ scan.Read block

/-- The blocks that a batch's cursor has passed are those from its submission to the cursor. -/
def Contiguous (world : ScanWorld) (id : ℕ) (batch : Batch) : Prop :=
  ∀ submission, batch.submissionBlock = some submission →
    (∀ cursor, batch.revealScanCursorBlock = some cursor → submission ≤ cursor) ∧
    ∀ block, world.Passed id block ↔
      submission ≤ block ∧ ∃ cursor, batch.revealScanCursorBlock = some cursor ∧ block ≤ cursor

/-- What holds of the world whatever has happened: windows are of stored batches, their blocks have
been read, a passed window has been decided on, and open batches have contiguous scans and stored
intents. -/
structure Consistent (digest : Digest) (world : ScanWorld) : Prop where
  stored : ∀ scan ∈ world.examined, (world.ledger.batches.get? scan.window.batchId).isSome = true
  read : ∀ scan ∈ world.examined, ∀ block, scan.window.startBlock ≤ block →
    block ≤ scan.window.endBlock → ∃ events, scan.reads.revealEvents block = some events
  covered : ∀ scan ∈ world.scanned, scan ∈ world.examined
  contiguous : ∀ id batch, world.ledger.batches.get? id = some batch → batch.isOpen = true →
    world.Contiguous id batch
  intents : ∀ id batch, world.ledger.batches.get? id = some batch → batch.isOpen = true →
    world.ledger.IntentStored digest id batch

theorem initial_consistent : ScanWorld.initial.Consistent digest where
  stored _ member := absurd member List.not_mem_nil
  read _ member := absurd member List.not_mem_nil
  covered _ member := absurd member List.not_mem_nil
  contiguous id batch found := by
    rw [initial, Ledger.empty, Dict.get?_empty] at found
    cases found
  intents id batch found := by
    rw [initial, Ledger.empty, Dict.get?_empty] at found
    cases found

namespace Consistent

variable {world : ScanWorld} {operation : LedgerOperation} {later : Ledger}

/-- Every transaction but the cursor's keeps the invariant. -/
theorem effect (consistent : world.Consistent digest)
    (effect : Effect digest world.ledger operation later)
    (still : ∀ id through, operation ≠ .advance id through) :
    ({ world with ledger := later } : ScanWorld).Consistent digest where
  stored scan member := effect.stored (consistent.stored scan member)
  read := consistent.read
  covered := consistent.covered
  contiguous id batch found isOpen submission submitted := by
    rcases effect.open_cases found isOpen with
      ⟨emission, -, -, rfl, rfl, -⟩ | ⟨earlier, held, wasOpen, carries, stands | ⟨through, moved, -⟩⟩
    · -- A new batch has no windows and no cursor.
      refine ⟨nofun, fun block => ⟨?_, ?_⟩⟩
      · rintro ⟨scan, member, same, -⟩
        have := consistent.stored scan (consistent.covered scan member)
        rw [same, Ledger.get?_nextId] at this
        cases this
      · rintro ⟨-, cursor, none, -⟩
        cases none
    -- the batch was there, with the cursor it has now
    · rw [carries.submissionBlock] at submitted
      rw [stands]
      exact consistent.contiguous id earlier held wasOpen submission submitted
    · exact absurd moved (still id through)
  intents id batch found isOpen := by
    rcases effect.open_cases found isOpen with
      ⟨emission, -, accepted, rfl, rfl, nodup, rows⟩ | ⟨earlier, held, wasOpen, carries, -⟩
    · exact intentStored_of_accepted accepted isOpen nodup rows
    · intro snapshot identity
      rw [effect.expectedWeightTargets (by rw [held]; rfl), carries.intentHash]
      refine consistent.intents id earlier held wasOpen snapshot ?_
      rwa [WeightEmissionChainSnapshot.identityMatches, carries.chainIdentity, carries.netuid,
        carries.validatorUid, carries.validatorHotkey] at identity

/-- Deciding on a window of a stored batch keeps the invariant. -/
theorem examine (consistent : world.Consistent digest) (scan : Scan)
    (stored : (world.ledger.batches.get? scan.window.batchId).isSome = true)
    (read : ∀ block, scan.window.startBlock ≤ block → block ≤ scan.window.endBlock →
      ∃ events, scan.reads.revealEvents block = some events) :
    ({ world with examined := world.examined ++ [scan] } : ScanWorld).Consistent digest where
  stored other member := by
    rcases List.mem_append.mp member with earlier | last
    · exact consistent.stored other earlier
    · cases List.mem_singleton.mp last
      exact stored
  read other member := by
    rcases List.mem_append.mp member with earlier | last
    · exact consistent.read other earlier
    · cases List.mem_singleton.mp last
      exact read
  covered other member := List.mem_append_left _ (consistent.covered other member)
  contiguous := consistent.contiguous
  intents := consistent.intents

/-- Moving the cursor past the next window keeps the invariant. -/
theorem advance (consistent : world.Consistent digest) {scan : Scan}
    (moved : world.ledger.advanceCr4RevealScanCursor scan.window.batchId scan.window.endBlock =
      .ok later)
    (next : ∀ batch submission, world.ledger.batches.get? scan.window.batchId = some batch →
      batch.isOpen = true → batch.submissionBlock = some submission →
      scan.window.startBlock = Ledger.nextScanBlock batch submission)
    (filled : scan.window.startBlock ≤ scan.window.endBlock) (examined : scan ∈ world.examined) :
    ({ world with ledger := later, scanned := world.scanned ++ [scan] } :
      ScanWorld).Consistent digest := by
  have passed (id : ℕ) (block : ℤ) :
      ({ world with ledger := later, scanned := world.scanned ++ [scan] } : ScanWorld).Passed id
        block ↔ world.Passed id block ∨ scan.window.batchId = id ∧
          scan.window.startBlock ≤ block ∧ block ≤ scan.window.endBlock := by
    have known : scan.Read block ↔
        scan.window.startBlock ≤ block ∧ block ≤ scan.window.endBlock :=
      and_iff_left_of_imp fun inside => consistent.read scan examined block inside.1 inside.2
    simp [Passed, or_and_right, exists_or, known]
  have effect : Effect digest world.ledger (.advance scan.window.batchId scan.window.endBlock) later := by
    have := effect_perform digest world.ledger
      (.advance scan.window.batchId scan.window.endBlock)
    rwa [perform, moved] at this
  refine ⟨fun other member => effect.stored (consistent.stored other member), consistent.read,
    ?_, ?_, ?_⟩
  · intro other member
    rcases List.mem_append.mp member with earlier | last
    · exact consistent.covered other earlier
    · cases List.mem_singleton.mp last
      exact examined
  · intro id batch found isOpen submission submitted
    rcases Ledger.advanceCr4RevealScanCursor_eq_ok moved with
      ⟨rfl, closed⟩ | ⟨old, admits, held, wasOpen, rfl⟩
    · obtain ⟨above, range⟩ := consistent.contiguous id batch found isOpen submission submitted
      refine ⟨above, fun block => ?_⟩
      rw [passed, range, or_iff_left]
      rintro ⟨rfl, -⟩
      rw [closed batch found] at isOpen
      cases isOpen
    · rw [Ledger.batches_put, Dict.get?_set] at found
      split at found
      · next here =>
        subst here
        cases found
        -- The window starts where the passed range ends.
        have submitted : old.submissionBlock = some submission := submitted
        obtain ⟨above, range⟩ := consistent.contiguous _ old held wasOpen submission submitted
        have start := next old submission held wasOpen submitted
        rw [Ledger.nextScanBlock] at start
        refine ⟨fun cursor stands => ?_, fun block => ?_⟩
        · simp only [Ledger.scannedThrough, Option.some.injEq] at stands
          have := le_max_left submission
            ((old.revealScanCursorBlock.map (· + 1)).getD submission)
          omega
        · rw [passed, range]
          simp only [Ledger.scannedThrough, Option.some.injEq, true_and, exists_eq_left']
          cases stands : old.revealScanCursorBlock with
          | none =>
            simp only [stands, Option.map_none, Option.getD_none, max_self] at start
            simp only [Option.getD_none, max_self, reduceCtorEq, false_and, exists_false, and_false,
              false_or, start]
          | some cursor =>
            have := above cursor stands
            simp only [stands, Option.map_some, Option.getD_some] at start
            simp only [Option.getD_some, Option.some.injEq, exists_eq_left']
            omega
      · next away =>
        obtain ⟨above, range⟩ := consistent.contiguous id batch found isOpen submission submitted
        refine ⟨above, fun block => ?_⟩
        rw [passed, range, or_iff_left]
        rintro ⟨same, -⟩
        exact away same.symm
  · intro id batch found isOpen snapshot identity
    rcases effect.open_cases found isOpen with
      ⟨emission, made, -⟩ | ⟨earlier, held, wasOpen, carries, -⟩
    · cases made
    · rw [effect.expectedWeightTargets (by rw [held]; rfl), carries.intentHash]
      refine consistent.intents id earlier held wasOpen snapshot ?_
      rwa [WeightEmissionChainSnapshot.identityMatches, carries.chainIdentity, carries.netuid,
        carries.validatorUid, carries.validatorHotkey] at identity

end Consistent

/-- No window that was decided on shows the reveal of a batch that is still open. -/
def Unseen (validator : ValidatorIdentity) (world : ScanWorld) : Prop :=
  ∀ scan ∈ world.examined, ∀ batch, world.ledger.batches.get? scan.window.batchId = some batch →
    batch.isOpen = true → ¬scan.Shows validator world.ledger

variable {world : ScanWorld} {validator : ValidatorIdentity} {operation : LedgerOperation}
  {later : Ledger}

/-- What a scan shows depends on the stored targets only. -/
theorem shows_congr {ledger ledger' : Ledger} {scan : Scan}
    (targets : ledger'.expectedWeightTargets scan.window.batchId =
      ledger.expectedWeightTargets scan.window.batchId) :
    scan.Shows validator ledger' ↔ scan.Shows validator ledger := by
  constructor <;> rintro ⟨belongs, vector, revealed⟩
  · exact ⟨belongs, targets ▸ vector, revealed⟩
  · exact ⟨belongs, targets.symm ▸ vector, revealed⟩

theorem Unseen.effect (unseen : world.Unseen validator) (consistent : world.Consistent digest)
    (effect : Effect digest world.ledger operation later) :
    ({ world with ledger := later } : ScanWorld).Unseen validator := by
  intro scan member batch found isOpen
  have stored := consistent.stored scan member
  rw [shows_congr (effect.expectedWeightTargets stored)]
  rcases effect.open_cases found isOpen with
    ⟨emission, -, -, fresh, -⟩ | ⟨earlier, held, wasOpen, -⟩
  · rw [fresh, Ledger.get?_nextId] at stored
    cases stored
  · exact unseen scan member earlier held wasOpen

/-- Every scan of the validator's schema that gets through its resolution meets the condition on
several commitments. -/
def MeetsScan (validator : ValidatorIdentity) (digest : Digest) (event : ScanEvent)
    (world : ScanWorld) : Prop :=
  ∀ reads confirmedAt cut, event = .scan reads confirmedAt cut → cut ≠ .beforeResolution →
    ∀ window snapshot resolved, world.scanSnapshot validator reads = some (window, snapshot) →
      world.ledger.Resolves digest validator.schemaId snapshot confirmedAt resolved →
      ∀ id batch submission deadline,
        world.ledger.AwaitsReveal validator.schemaId id batch submission deadline →
        batch.BelongsTo validator reads.chainIdentity → SeveralCommitments batch snapshot →
        Unhurried validator world.ledger batch deadline reads window snapshot

section Scans

variable {reads : FinalizedReads} {confirmedAt : String} {cut : Cut}
  {window : Cr4RevealScanWindow} {snapshot : WeightEmissionChainSnapshot} {resolved : Ledger}

/-- The batch of a window is awaited, from where its scan stands, and the head has reached it. -/
theorem awaits_of_scanSnapshot
    (read : world.scanSnapshot validator reads = some (some window, snapshot))
    (found : world.ledger.batches.get? window.batchId = some batch) :
    ∃ submission deadline,
      world.ledger.AwaitsReveal validator.schemaId window.batchId batch submission deadline ∧
      window.startBlock = Ledger.nextScanBlock batch submission ∧
      window.startBlock ≤ window.endBlock ∧ submission ≤ snapshot.block := by
  obtain ⟨drawn, revealBlocks, rfl, -⟩ := window_of_scanSnapshot read
  obtain ⟨other, submission, deadline, awaits, start, filled, below, -⟩ :=
    Ledger.awaitsReveal_of_window drawn
  cases awaits.found.symm.trans found
  refine ⟨submission, deadline, awaits, start, filled, ?_⟩
  have := le_max_left submission ((batch.revealScanCursorBlock.map (· + 1)).getD submission)
  rw [Ledger.nextScanBlock] at start
  change submission ≤ reads.block
  omega

/-- A resolution keeps the window of a batch that stays open the next one. -/
theorem next_of_resolves
    (read : world.scanSnapshot validator reads = some (some window, snapshot))
    (found : world.ledger.batches.get? window.batchId = some batch)
    (resolves : world.ledger.Resolves digest validator.schemaId snapshot confirmedAt resolved) :
    ∀ later submission, resolved.batches.get? window.batchId = some later → later.isOpen = true →
      later.submissionBlock = some submission →
      window.startBlock = Ledger.nextScanBlock later submission := by
  intro later submission held isOpen submitted
  obtain ⟨block, deadline, awaits, start, -⟩ := awaits_of_scanSnapshot read found
  rcases resolves.effect.open_cases held isOpen with
    ⟨_, made, -⟩ | ⟨earlier, old, -, carries, stands | ⟨_, made, -⟩⟩
  · cases made
  · cases old.symm.trans found
    rw [carries.submissionBlock, awaits.submissionBlock] at submitted
    cases submitted
    rw [start, Ledger.nextScanBlock, Ledger.nextScanBlock, stands]
  · cases made

/-- The blocks of a window that was read have been read. -/
theorem read_of_scanSnapshot
    (read : world.scanSnapshot validator reads = some (some window, snapshot)) {block : ℤ}
    (first : window.startBlock ≤ block) (last : block ≤ window.endBlock) :
    ∃ events, reads.revealEvents block = some events := by
  obtain ⟨-, revealBlocks, -, listed⟩ := window_of_scanSnapshot read
  exact (FinalizedReads.timelockedWeightRevealsBetween_eq_some (listed window rfl)).1 block first last

/-- Every iteration keeps the invariant. -/
theorem scan_consistent (consistent : world.Consistent digest) :
    (world.scan validator digest reads confirmedAt cut).1.Consistent digest := by
  have outcome := world.scanOutcome validator digest reads confirmedAt cut
  generalize (world.scan validator digest reads confirmedAt cut).1 = after at outcome
  cases outcome with
  | stopped => exact consistent
  | resolved _ read resolves => exact consistent.effect resolves.effect nofun
  | @examined window snapshot batch resolved _ read found resolves =>
    exact (consistent.effect resolves.effect nofun).examine ⟨window, batch, reads⟩
      (resolves.effect.stored (by rw [found]; rfl)) fun _ => read_of_scanSnapshot read
  | @advanced window snapshot batch resolved advanced _ read found resolves moved =>
    obtain ⟨_, _, _, -, filled, -⟩ := awaits_of_scanSnapshot read found
    exact ((consistent.effect resolves.effect nofun).examine ⟨window, batch, reads⟩
      (resolves.effect.stored (by rw [found]; rfl)) fun _ => read_of_scanSnapshot read).advance
        moved (next_of_resolves read found resolves) filled
          (List.mem_append_right _ (List.mem_singleton_self _))

/-- A snapshot carries what its window shows. -/
theorem snapshot_of_shows
    (read : world.scanSnapshot validator reads = some (some window, snapshot)) {ledger : Ledger}
    (shows : (Scan.mk window batch reads).Shows validator ledger) {submission deadline : ℤ}
    (submitted : batch.submissionBlock = some submission)
    (bound : batch.cr4RevealDeadlineBlock = some deadline) :
    snapshot.identityMatches batch = true ∧
      snapshot.vectorMatches (ledger.expectedWeightTargets window.batchId) = true ∧
      snapshot.revealMatches submission batch.commitmentObservedBlock (some deadline) = true := by
  obtain ⟨-, revealBlocks, rfl, listed⟩ := window_of_scanSnapshot read
  obtain ⟨belongs, vector, block, inside, revealed, ⟨start, known, since⟩, upto⟩ := shows
  cases known.symm.trans submitted
  have found : block ∈ revealBlocks := (FinalizedReads.timelockedWeightRevealsBetween_eq_some
    (listed window rfl)).2 block |>.mpr ⟨inside.1, revealed⟩
  refine ⟨decide_eq_true belongs, vector, List.any_eq_true.mpr
    ⟨⟨validator.hotkey, validator.netuid, block⟩, List.mem_map_of_mem found, ?_⟩⟩
  exact decide_eq_true ⟨rfl, rfl, since, decide_eq_true (upto deadline bound)⟩

/-- A window that is decided on has not shown the reveal, if its batch is left unconfirmed. -/
theorem not_shows_of_scan (consistent : world.Consistent digest)
    (meets : MeetsScan validator digest (.scan reads confirmedAt cut) world)
    (runs : cut ≠ .beforeResolution)
    (read : world.scanSnapshot validator reads = some (some window, snapshot))
    (found : world.ledger.batches.get? window.batchId = some batch)
    (resolves : world.ledger.Resolves digest validator.schemaId snapshot confirmedAt resolved)
    {later : Batch} (held : resolved.batches.get? window.batchId = some later)
    (unconfirmed : later.confirmationState ≠ some .confirmed) :
    ¬(Scan.mk window batch reads).Shows validator world.ledger := by
  intro shows
  obtain ⟨submission, deadline, awaits, -, -, reached⟩ := awaits_of_scanSnapshot read found
  obtain ⟨identity, vector, revealed⟩ :=
    snapshot_of_shows read shows awaits.submissionBlock awaits.revealDeadline
  by_cases several : SeveralCommitments batch snapshot
  · exact (meets reads confirmedAt cut rfl runs _ _ _ read resolves _ _ _ _ awaits shows.belongs
      several).unseen window rfl shows
  · exact unconfirmed (confirmed_of_reveal awaits identity reached
      (consistent.intents _ _ awaits.found awaits.isOpen) vector revealed several resolves held)

theorem not_confirmed_of_isOpen {later : Batch} (isOpen : later.isOpen = true) :
    later.confirmationState ≠ some .confirmed := by
  intro confirmed
  rw [Batch.isOpen, confirmed] at isOpen
  cases isOpen

/-- Moving the cursor leaves what is unseen. -/
theorem Unseen.advance {world : ScanWorld} (unseen : world.Unseen validator)
    (consistent : world.Consistent digest) {through : ℤ} {scanned : List Scan}
    {advanced : Ledger}
    (moved : world.ledger.advanceCr4RevealScanCursor id through = .ok advanced) :
    ({ world with ledger := advanced, scanned } : ScanWorld).Unseen validator := by
  have effect := effect_perform digest world.ledger (.advance id through)
  rw [perform, moved] at effect
  exact unseen.effect consistent effect

theorem scan_unseen (consistent : world.Consistent digest) (unseen : world.Unseen validator)
    (meets : MeetsScan validator digest (.scan reads confirmedAt cut) world) :
    (world.scan validator digest reads confirmedAt cut).1.Unseen validator := by
  have outcome := world.scanOutcome validator digest reads confirmedAt cut
  generalize (world.scan validator digest reads confirmedAt cut).1 = after at outcome
  -- A window just decided on joins the ones before it.
  have joins {window : Cr4RevealScanWindow} {snapshot : WeightEmissionChainSnapshot}
      {batch : Batch} {resolved : Ledger} (runs : cut ≠ .beforeResolution)
      (read : world.scanSnapshot validator reads = some (some window, snapshot))
      (found : world.ledger.batches.get? window.batchId = some batch)
      (resolves : world.ledger.Resolves digest validator.schemaId snapshot confirmedAt resolved) :
      (ScanWorld.mk resolved (world.examined ++ [⟨window, batch, reads⟩])
        world.scanned).Unseen validator := by
    intro scan member later held isOpen
    rcases List.mem_append.mp member with earlier | last
    · exact unseen.effect consistent resolves.effect scan earlier later held isOpen
    · cases List.mem_singleton.mp last
      rw [shows_congr (resolves.effect.expectedWeightTargets (by rw [found]; rfl))]
      exact not_shows_of_scan consistent meets runs read found resolves held
        (not_confirmed_of_isOpen isOpen)
  cases outcome with
  | stopped => exact unseen
  | resolved _ read resolves => exact unseen.effect consistent resolves.effect
  | @examined window snapshot batch resolved runs read found resolves =>
    exact joins runs read found resolves
  | @advanced window snapshot batch resolved advanced runs read found resolves moved =>
    exact Unseen.advance (joins runs read found resolves)
      ((consistent.effect resolves.effect nofun).examine ⟨window, batch, reads⟩
        (resolves.effect.stored (by rw [found]; rfl)) fun _ => read_of_scanSnapshot read) moved

/-- A complete scan with the head past the deadline has been through every block up to it. -/
theorem passed_of_complete (consistent : world.Consistent digest)
    (awaits : world.ledger.AwaitsReveal validator.schemaId id batch submission deadline)
    {drawn : Option Cr4RevealScanWindow}
    (read : world.scanSnapshot validator reads = some (drawn, snapshot))
    (complete : snapshot.revealScanComplete = true) (above : deadline < snapshot.block)
    {block : ℤ} (since : submission ≤ block) (upto : block ≤ deadline) :
    world.Passed id block ∨ ∃ window, drawn = some window ∧ window.batchId = id ∧
      window.startBlock ≤ block ∧ block ≤ window.endBlock := by
  obtain ⟨same, revealBlocks, rfl, -⟩ := window_of_scanSnapshot read
  change deadline < reads.block at above
  obtain ⟨below, range⟩ := consistent.contiguous id batch awaits.found awaits.isOpen submission
    awaits.submissionBlock
  rw [range]
  have whole := @Ledger.AwaitsReveal.window _ _ reads.block _ _ _ _ awaits
  rw [same, Ledger.nextScanBlock] at whole
  -- What lies before the next block to scan is passed.
  by_cases behind : ∃ cursor, batch.revealScanCursorBlock = some cursor ∧ block ≤ cursor
  · exact .inl ⟨since, behind⟩
  · refine .inr ?_
    have ahead : max submission ((batch.revealScanCursorBlock.map (· + 1)).getD submission) ≤
        block := by
      cases stands : batch.revealScanCursorBlock with
      | none => simpa [stands] using since
      | some cursor =>
        have : ¬block ≤ cursor := fun reached => behind ⟨cursor, stands, reached⟩
        simp only [Option.map_some, Option.getD_some]
        omega
    simp only at whole
    split at whole
    · next short =>
      simp only [cr4RevealScanBatchBlocks] at short
      omega
    · subst whole
      have reaches := of_decide_eq_true (show decide (deadline ≤ _) = true from complete)
      exact ⟨_, rfl, rfl, ahead, upto.trans reaches⟩

end Scans

end ScanWorld

/-- Only a resolution gives an open batch up. -/
theorem Effect.resolve_of_unconfirmed {operation : LedgerOperation} {resulting : Ledger}
    {later : Batch} (effect : Effect digest ledger operation resulting)
    (found : ledger.batches.get? id = some batch) (isOpen : batch.isOpen = true)
    (held : resulting.batches.get? id = some later)
    (unconfirmed : later.confirmationState = some .unconfirmed) :
    ∃ schemaId snapshot margin confirmedAt,
      operation = .resolve schemaId snapshot margin confirmedAt := by
  have still (same : ledger.batches.get? id = some later) : False := by
    cases same.symm.trans found
    rw [Batch.isOpen, unconfirmed] at isOpen
    cases isOpen
  cases effect with
  | unchanged => exact (still held).elim
  | inserted accepted batches nodup rows =>
    rw [batches, Dict.get?_set] at held
    split at held
    · next fresh => exact absurd fresh (Ledger.ne_nextId found)
    · exact (still held).elim
  | moved admits valid stored prepared =>
    rw [Ledger.batches_put, Dict.get?_set] at held
    split at held
    · cases held
      rcases AttemptTransition.state_cases valid with state | state | state <;>
        simp [AttemptTransition.change, state] at unconfirmed
    · exact (still held).elim
  | resolved => exact ⟨_, _, _, _, rfl⟩
  -- a scan moves the cursor alone
  | @scanned _ _ scanned admits stored wasOpen =>
    rw [Ledger.batches_put, Dict.get?_set] at held
    split at held
    · cases held
      rw [Batch.isOpen, show scanned.confirmationState = _ from unconfirmed] at wasOpen
      cases wasOpen
    · exact (still held).elim

/-- A batch's scan has read every block up to its reveal deadline, below the head, without showing
its reveal. -/
structure ScanWorld.Exhausted (world : ScanWorld) (validator : ValidatorIdentity) (id : ℕ)
    (submission deadline head : ℤ) : Prop where
  examined : ∀ block, submission ≤ block → block ≤ deadline →
    ∃ scan ∈ world.examined, scan.window.batchId = id ∧ scan.Read block
  past : deadline < head
  unseen : ∀ scan ∈ world.examined, scan.window.batchId = id → ¬scan.Shows validator world.ledger

section GivenUp

variable {world : ScanWorld} {validator : ValidatorIdentity} {reads : FinalizedReads}
  {confirmedAt : String} {cut : Cut} {snapshot : WeightEmissionChainSnapshot} {resolved : Ledger}
  {later : Batch}

/-- What a resolution that gives an awaited batch up has been through. -/
theorem exhausted_of_resolves (consistent : world.Consistent digest)
    (unseen : world.Unseen validator)
    (meets : ScanWorld.MeetsScan validator digest (.scan reads confirmedAt cut) world)
    (runs : cut ≠ .beforeResolution)
    (awaits : world.ledger.AwaitsReveal validator.schemaId id batch submission deadline)
    (belongs : batch.BelongsTo validator reads.chainIdentity)
    {drawn : Option Cr4RevealScanWindow} (own : ∀ window ∈ drawn, window.batchId = id)
    (read : world.scanSnapshot validator reads = some (drawn, snapshot))
    (resolves : world.ledger.Resolves digest validator.schemaId snapshot confirmedAt resolved)
    (held : resolved.batches.get? id = some later)
    (unconfirmed : later.confirmationState = some .unconfirmed) {after : ScanWorld}
    (targets : after.ledger.expectedWeightTargets id = world.ledger.expectedWeightTargets id)
    (examined : after.examined = world.examined ++ (drawn.map (⟨·, batch, reads⟩)).toList) :
    after.Exhausted validator id submission deadline reads.block := by
  obtain ⟨-, revealBlocks, made, -⟩ := ScanWorld.window_of_scanSnapshot read
  have identity : snapshot.identityMatches batch = true := by
    rw [made]
    exact decide_eq_true belongs
  have intent := consistent.intents id batch awaits.found awaits.isOpen
  -- giving up takes a complete scan past the reveal deadline, whichever branch did it
  obtain ⟨reached, complete, past⟩ := complete_of_resolves awaits identity intent
    (fun several => (meets reads confirmedAt cut rfl runs _ _ _ read resolves _ _ _ _ awaits belongs
      several).complete) resolves held unconfirmed
  refine ⟨fun block first last => ?_, ?_, fun scan member same => ?_⟩
  -- a block was read in an earlier window or is in the one at hand
  · rcases ScanWorld.passed_of_complete consistent awaits read complete past first last with
      ⟨scan, scanned, same, inside⟩ | ⟨window, rfl, same, inside⟩
    · exact ⟨scan, examined ▸ List.mem_append_left _ (consistent.covered scan scanned), same, inside⟩
    · exact ⟨⟨window, batch, reads⟩, examined ▸ List.mem_append_right _ (List.mem_singleton_self _),
        same, inside, ScanWorld.read_of_scanSnapshot read inside.1 inside.2⟩
  · rw [made] at past
    exact past
  · subst same
    rw [ScanWorld.shows_congr targets]
    rw [examined, List.mem_append] at member
    rcases member with earlier | last
    · exact unseen scan earlier batch awaits.found awaits.isOpen
    · obtain ⟨window, rfl, rfl⟩ := Option.map_eq_some_iff.mp (Option.mem_toList.mp last)
      exact ScanWorld.not_shows_of_scan consistent meets runs read awaits.found resolves held
        (by rw [unconfirmed]; decide)

/-- The window at hand is of the awaited batch. -/
theorem window_of_awaits {window : Cr4RevealScanWindow} {other : Batch}
    (awaits : world.ledger.AwaitsReveal validator.schemaId id batch submission deadline)
    (read : world.scanSnapshot validator reads = some (some window, snapshot))
    (found : world.ledger.batches.get? window.batchId = some other) :
    window.batchId = id ∧ other = batch := by
  obtain ⟨_, _, mine, -⟩ := ScanWorld.awaits_of_scanSnapshot read found
  have same := world.ledger.openUnique _ _ _ _ mine.found awaits.found mine.isOpen awaits.isOpen
    (mine.schema.trans awaits.schema.symm)
  subst same
  exact ⟨rfl, Option.some.inj (found.symm.trans awaits.found)⟩

/-- What a scan that gives an awaited batch up has been through. -/
theorem exhausted_of_scan (consistent : world.Consistent digest) (unseen : world.Unseen validator)
    (meets : ScanWorld.MeetsScan validator digest (.scan reads confirmedAt cut) world)
    (awaits : world.ledger.AwaitsReveal validator.schemaId id batch submission deadline)
    (belongs : batch.BelongsTo validator reads.chainIdentity)
    (held : (world.scan validator digest reads confirmedAt cut).1.ledger.batches.get? id = some later)
    (unconfirmed : later.confirmationState = some .unconfirmed) :
    (world.scan validator digest reads confirmedAt cut).1.Exhausted validator id submission deadline
      reads.block := by
  have outcome := world.scanOutcome validator digest reads confirmedAt cut
  generalize (world.scan validator digest reads confirmedAt cut).1 = after at outcome held
  have stored : (world.ledger.batches.get? id).isSome = true := by rw [awaits.found]; rfl
  cases outcome with
  | stopped =>
    cases held.symm.trans awaits.found
    have := awaits.isOpen
    rw [Batch.isOpen, unconfirmed] at this
    cases this
  | resolved runs read resolves =>
    exact exhausted_of_resolves consistent unseen meets runs awaits belongs
      (fun _ none => absurd none (Option.not_mem_none _)) read resolves held unconfirmed
      (resolves.effect.expectedWeightTargets stored) (List.append_nil _).symm
  | examined runs read found resolves =>
    obtain ⟨rfl, rfl⟩ := window_of_awaits awaits read found
    exact exhausted_of_resolves consistent unseen meets runs awaits belongs
      (fun _ this => by rw [Option.mem_some_iff.mp this]) read resolves held unconfirmed
      (resolves.effect.expectedWeightTargets stored) rfl
  | @advanced window snapshot other resolved advanced runs read found resolves moved =>
    obtain ⟨rfl, rfl⟩ := window_of_awaits awaits read found
    have effect := effect_perform digest resolved
      (.advance window.batchId window.endBlock)
    rw [perform, moved] at effect
    -- The cursor of a batch that was given up stays.
    have before : resolved.batches.get? window.batchId = some later := by
      rcases Ledger.advanceCr4RevealScanCursor_eq_ok moved with
        ⟨rfl, -⟩ | ⟨old, admits, -, wasOpen, rfl⟩
      · exact held
      · rw [Ledger.batches_put, Dict.get?_set, if_pos rfl] at held
        cases held
        rw [Batch.isOpen, show old.confirmationState = _ from unconfirmed] at wasOpen
        cases wasOpen
    refine exhausted_of_resolves consistent unseen meets runs awaits belongs
      (fun _ this => by rw [Option.mem_some_iff.mp this]) read resolves before unconfirmed ?_ rfl
    rw [effect.expectedWeightTargets (resolves.effect.stored stored),
      resolves.effect.expectedWeightTargets stored]

end GivenUp

/-- Every event keeps the invariant. -/
theorem scanStep_consistent {validator : ValidatorIdentity} (event : ScanEvent) (world : ScanWorld)
    (consistent : world.Consistent digest) :
    (scanStep validator digest event world).Consistent digest := by
  cases event with
  | record emission => exact consistent.effect (effect_perform digest world.ledger _) nofun
  | transition transition => exact consistent.effect (effect_perform digest world.ledger _) nofun
  | scan reads confirmedAt cut => exact ScanWorld.scan_consistent consistent

theorem scanStep_unseen {validator : ValidatorIdentity} (event : ScanEvent) (world : ScanWorld)
    (meets : ScanWorld.MeetsScan validator digest event world)
    (holds : world.Consistent digest ∧ world.Unseen validator) :
    (scanStep validator digest event world).Consistent digest ∧
      (scanStep validator digest event world).Unseen validator := by
  refine ⟨scanStep_consistent event world holds.1, ?_⟩
  cases event with
  | record emission => exact holds.2.effect holds.1 (effect_perform digest world.ledger _)
  | transition transition => exact holds.2.effect holds.1 (effect_perform digest world.ledger _)
  | scan reads confirmedAt cut => exact ScanWorld.scan_unseen holds.1 holds.2 meets

/-- No event moves a cursor back. -/
theorem scanStep_cursorsGrow {validator : ValidatorIdentity} (event : ScanEvent)
    (world : ScanWorld) :
    world.ledger.CursorsGrow (scanStep validator digest event world).ledger := by
  cases event with
  | record emission => exact (effect_perform digest world.ledger _).cursorsGrow
  | transition transition => exact (effect_perform digest world.ledger _).cursorsGrow
  | scan reads confirmedAt cut =>
    have outcome := world.scanOutcome validator digest reads confirmedAt cut
    rw [scanStep]
    generalize (world.scan validator digest reads confirmedAt cut).1 = after at outcome
    cases outcome with
    | stopped => exact .refl _
    | resolved _ read resolves => exact resolves.effect.cursorsGrow
    | examined _ read found resolves => exact resolves.effect.cursorsGrow
    | @advanced window snapshot batch resolved advanced _ read found resolves moved =>
      have effect := effect_perform digest resolved
        (.advance window.batchId window.endBlock)
      rw [perform, moved] at effect
      exact resolves.effect.cursorsGrow.trans effect.cursorsGrow

/-- Over every run of emissions and scans, the blocks that were read in the windows that the cursor
of an awaited batch has passed are those from its submission to the cursor, and no cursor moves
back. In a run whose scans meet the condition on several commitments, an awaited batch of the
validator is given up only by a scan with which every block up to its reveal deadline has been read,
below the head, and no window has shown its reveal. A whole resync is a run of scans. -/
theorem reveal_scan_sound (validator : ValidatorIdentity) (digest : Digest)
    (past : List ScanEvent) (event : ScanEvent) :
    let before := run (scanStep validator digest) ScanWorld.initial past
    let after := scanStep validator digest event before
    (∀ id batch submission deadline,
      after.ledger.AwaitsReveal validator.schemaId id batch submission deadline →
      ∀ block, after.Passed id block ↔
        submission ≤ block ∧ ∃ cursor, batch.revealScanCursorBlock = some cursor ∧ block ≤ cursor) ∧
    before.ledger.CursorsGrow after.ledger ∧
    (Meets (scanStep validator digest) (ScanWorld.MeetsScan validator digest) ScanWorld.initial
        (past ++ [event]) →
      ∀ id batch submission deadline later,
        before.ledger.AwaitsReveal validator.schemaId id batch submission deadline →
        after.ledger.batches.get? id = some later →
        later.confirmationState = some .unconfirmed →
        ∃ reads confirmedAt cut, event = .scan reads confirmedAt cut ∧
          (batch.BelongsTo validator reads.chainIdentity →
            after.Exhausted validator id submission deadline reads.block)) ∧
    ∀ epochLength reads cuts, ∃ count ≤ (cr4RevealScanBatchBudget epochLength).toNat,
      before.resolveWeightConfirmations validator digest epochLength reads cuts =
        run (scanStep validator digest) ScanWorld.initial
          (past ++ (List.range count).map fun n => .scan reads (cuts n).1 (cuts n).2) := by
  intro before after
  have consistent : before.Consistent digest :=
    run_invariant scanStep_consistent ScanWorld.initial_consistent past
  refine ⟨fun id batch submission deadline awaits => ?_, scanStep_cursorsGrow event before, ?_, ?_⟩
  · exact ((scanStep_consistent event before consistent).contiguous id batch awaits.found
      awaits.isOpen submission awaits.submissionBlock).2
  · intro meets id batch submission deadline later awaits held unconfirmed
    obtain ⟨met, now, -⟩ := meets_append.mp meets
    -- the invariant of the runs whose scans meet the condition carries the third clause
    have holds : before.Consistent digest ∧ before.Unseen validator :=
      run_invariant_of_meets scanStep_unseen met
        ⟨ScanWorld.initial_consistent, fun _ member => absurd member List.not_mem_nil⟩
    cases event with
    -- recording and a transition of the executor resolve no scan, so the event is a scan
    | record emission =>
      have effect := effect_perform digest before.ledger (.record emission)
      obtain ⟨_, _, _, _, never⟩ :=
        effect.resolve_of_unconfirmed awaits.found awaits.isOpen held unconfirmed
      cases never
    | transition transition =>
      have effect := effect_perform digest before.ledger (.transition transition)
      obtain ⟨_, _, _, _, never⟩ :=
        effect.resolve_of_unconfirmed awaits.found awaits.isOpen held unconfirmed
      cases never
    | scan reads confirmedAt cut =>
      exact ⟨reads, confirmedAt, cut, rfl, fun belongs =>
        exhausted_of_scan holds.1 holds.2 now awaits belongs held unconfirmed⟩
  · intro epochLength reads cuts
    obtain ⟨count, bound, same⟩ :=
      resolveWeightConfirmations_eq_run validator digest epochLength reads cuts before
    exact ⟨count, bound, by rw [same, run_append]⟩

/-- With one commitment on the chain at most, nothing is asked of a scan. -/
theorem ScanWorld.meetsScan_of_commitments {validator : ValidatorIdentity} {event : ScanEvent}
    {world : ScanWorld} (few : ∀ reads confirmedAt cut, event = .scan reads confirmedAt cut →
      reads.commitments.length ≤ 1) : ScanWorld.MeetsScan validator digest event world := by
  intro reads confirmedAt cut same _ window snapshot resolved read _ id batch _ _ _ _ several
  obtain ⟨-, revealBlocks, rfl, -⟩ := ScanWorld.window_of_scanSnapshot read
  obtain ⟨_, _, -, -, more⟩ := several
  rw [WeightEmissionChainSnapshot.candidates] at more
  have listed := more.trans_le (List.length_filter_le _ _)
  exact absurd (few reads confirmedAt cut same) (not_le.mpr listed)

/-! ### A full scan, and two commitments -/

namespace TwiceCommitted

def validator : ValidatorIdentity := ⟨"v1", 5, 7, "validator"⟩

def zeros : Digest := fun _ _ =>
  "0000000000000000000000000000000000000000000000000000000000000000"

/-- A CR4 attempt at block 100 whose reveal may come until a block. -/
def emission (revealDeadline : ℤ) : WeightEmission where
  schemaId := "v1"
  status := .error
  rows := [⟨"miner", 3, some 65535, false, false⟩]
  submissionBlock := some 100
  confirmationState := some .prepared
  confirmationDeadlineBlock := some 240
  cr4RevealDeadlineBlock := some revealDeadline
  baselineLastUpdateBlock := some 90
  periodBlocks := some 128
  chainIdentity := some "chain"
  netuid := some 5
  validatorUid := some 7
  validatorHotkey := some "validator"
  submissionMode := some .cr4
  intentHash := some (weightIntentHash zeros ⟨"chain", 5, 7, "validator", []⟩
    (some currentVersionKey))
  protocolVersionKey := some currentVersionKey

/-- The finalized chain one block past the confirmation deadline, without a commitment or a
reveal. -/
def quiet : FinalizedReads where
  chainIdentity := "chain"
  block := 241
  hotkeys := [(3, "miner"), (7, "validator")]
  lastUpdates := [0, 0, 0, 0, 0, 0, 0, 120]
  allWeights := []
  commitments := []
  revealEvents _ := some []

/-- The finalized chain with two commitments of the validator, a reveal at block 200, and the vector
of the attempt. -/
def revealed : FinalizedReads :=
  { quiet with
    allWeights := [(7, [(3, 65535)])]
    commitments := [⟨"validator", 110, "first", 43⟩, ⟨"validator", 120, "second", 44⟩]
    revealEvents := fun block => if block = 200 then some [(5, "validator")] else some [] }

/-- What comes before the last window of an attempt whose reveal may come until block 240. -/
def fourWindows : List ScanEvent :=
  .record (emission 240) :: List.replicate 4 (.scan quiet "now" .none)

def fullyScanned : ScanWorld :=
  scanStep validator zeros (.scan quiet "now" .none)
    (run (scanStep validator zeros) ScanWorld.initial fourWindows)

def before : ScanWorld := run (scanStep validator zeros) ScanWorld.initial [.record (emission 1000)]

def after : ScanWorld := scanStep validator zeros (.scan revealed "now" .none) before

end TwiceCommitted

open TwiceCommitted in
/-- Without a commitment the attempt is given up by the last of its windows. -/
theorem given_up_after_full_scan : ∃ later, fullyScanned.ledger.batches.get? 1 = some later ∧
    later.confirmationState = some .unconfirmed ∧
    fullyScanned.Exhausted validator 1 100 240 quiet.block := by
  let cursor : Batch := { (emission 240).batch with revealScanCursorBlock := some 227 }
  have found : (run (scanStep validator zeros) ScanWorld.initial fourWindows).ledger.batches.get? 1 =
      some cursor := by decide +kernel
  have held : fullyScanned.ledger.batches.get? 1 = some (unconfirmedAs cursor) := by
    decide +kernel
  have meets : Meets (scanStep validator zeros) (ScanWorld.MeetsScan validator zeros)
      ScanWorld.initial (fourWindows ++ [.scan quiet "now" .none]) := by
    refine meets_of_forall fun event member world => ScanWorld.meetsScan_of_commitments ?_
    rintro reads confirmedAt cut rfl
    have same : reads = quiet := by
      rcases List.mem_append.mp member with earlier | last
      · rcases List.mem_cons.mp earlier with recorded | scanned
        · cases recorded
        · exact (ScanEvent.scan.inj (List.eq_of_mem_replicate scanned)).1
      · exact (ScanEvent.scan.inj (List.mem_singleton.mp last)).1
    rw [same]
    exact Nat.zero_le 1
  obtain ⟨-, -, gives, -⟩ :=
    reveal_scan_sound validator zeros fourWindows (.scan quiet "now" .none)
  obtain ⟨reads, _, _, same, exhausted⟩ :=
    gives meets 1 cursor 100 240 _ ⟨found, rfl, rfl, rfl, rfl, rfl⟩ held rfl
  cases same
  exact ⟨_, held, rfl, exhausted ⟨rfl, rfl, rfl, rfl⟩⟩

open TwiceCommitted in
/-- A batch with two commitments is given up one window into its scan, although the chain holds its
vector and a reveal that no window has come to. -/
theorem given_up_mid_scan : ∃ batch later,
    before.ledger.AwaitsReveal validator.schemaId 1 batch 100 1000 ∧
    batch.BelongsTo validator revealed.chainIdentity ∧
    after.ledger.batches.get? 1 = some later ∧ later.confirmationState = some .unconfirmed ∧
    ¬after.Exhausted validator 1 100 1000 revealed.block ∧
    revealed.RevealedAt validator 200 ∧
    (revealed.snapshot validator none []).vectorMatches (before.ledger.expectedWeightTargets 1) =
      true ∧
    ∀ scan ∈ after.examined, ¬scan.Read 200 := by
  have found : before.ledger.batches.get? 1 = some (emission 1000).batch := by decide +kernel
  have held : after.ledger.batches.get? 1 = some (unconfirmedAs (emission 1000).batch) := by
    decide +kernel
  have windows : after.examined.map Scan.window = [⟨1, 100, 131, false⟩] := by decide +kernel
  refine ⟨(emission 1000).batch, _, ⟨found, rfl, rfl, rfl, rfl, rfl⟩, ⟨rfl, rfl, rfl, rfl⟩, held, rfl,
    ?_, ⟨_, rfl, List.mem_singleton_self _⟩, by decide +kernel, ?_⟩
  -- The reveal deadline is still ahead of the head.
  · intro exhausted
    have ahead : (1000 : ℤ) < 241 := exhausted.past
    omega
  · rintro scan member ⟨inside, -⟩
    have listed := windows ▸ List.mem_map_of_mem member
    rw [List.mem_singleton.mp listed] at inside
    have upto : (200 : ℤ) ≤ 131 := inside.2
    omega

end Endure.Emission
