import Endure.Emission.Attempts
import Endure.Emission.LedgerRuns

/-!
# Scanning for a reveal

The resync of `neurons/validator.py` that resolves open batches: it scans windows of
finalized blocks for reveals, decides on each window, and moves the durable cursor on, in
transactions that a failed read or a restart may cut apart.
-/

namespace Endure.Emission

open Library Library.Checked Library.Transitions

/-- What is read of the finalized chain at the start of a resync, and the reveal events of a
block, whose read may fail. -/
structure FinalizedReads where
  chainIdentity : String
  block : ℤ
  hotkeys : List (ℤ × String)
  lastUpdates : List ℤ
  allWeights : List (ℤ × List (ℤ × ℤ))
  commitments : List WeightCommitEvidence
  revealEvents : ℤ → Option (List (ℤ × String))

namespace FinalizedReads

variable (reads : FinalizedReads)

/-- The finalized UID of the validator is its wallet's. -/
def identifies (validator : ValidatorIdentity) : Bool :=
  validator.uid < reads.lastUpdates.length ∧
    (Dict.ofEntries reads.hotkeys).get? (validator.uid : ℤ) = some validator.hotkey

/-- The blocks from a start to an end at which the validator revealed on its subnet. -/
def timelockedWeightRevealsBetween (validator : ValidatorIdentity) (startBlock endBlock : ℤ) :
    Option (List ℤ) := do
  let found ← ((List.range (endBlock + 1 - startBlock).toNat).map fun offset : ℕ =>
      startBlock + offset).mapM fun block => do
    let events ← reads.revealEvents block
    pure ((events.filter fun event =>
      event.1 = (validator.netuid : ℤ) ∧ event.2 = validator.hotkey).map fun _ => block)
  pure found.flatten

/-- The events that were read of a block list a reveal of the validator on its subnet. -/
def RevealedAt (validator : ValidatorIdentity) (block : ℤ) : Prop :=
  ∃ events, reads.revealEvents block = some events ∧
    ((validator.netuid : ℤ), validator.hotkey) ∈ events

/-- The snapshot of a window with the blocks of its reveals. -/
def snapshot (validator : ValidatorIdentity) (window : Option Cr4RevealScanWindow)
    (revealBlocks : List ℤ) : WeightEmissionChainSnapshot where
  chainIdentity := reads.chainIdentity
  netuid := validator.netuid
  validatorUid := validator.uid
  validatorHotkey := validator.hotkey
  block := reads.block
  lastUpdateBlock := reads.lastUpdates.getD validator.uid 0
  weights := ((reads.allWeights.find? fun entry => entry.1 = (validator.uid : ℤ)).map Prod.snd).getD []
  commitments := reads.commitments
  reveals := revealBlocks.map fun revealBlock =>
    { validatorHotkey := validator.hotkey, netuid := validator.netuid, revealBlock }
  hotkeys := reads.hotkeys
  revealScanComplete := window.all (·.complete)

variable {reads} {validator : ValidatorIdentity} {startBlock endBlock : ℤ} {revealed : List ℤ}

/-- Blocks whose events are read one by one: the revealed ones are those whose events say so. -/
theorem mem_flatten_reveals {blocks : List ℤ} {found : List (List ℤ)}
    (read : List.Forall₂ (fun block found => (do
      let events ← reads.revealEvents block
      pure ((events.filter fun event =>
        event.1 = (validator.netuid : ℤ) ∧ event.2 = validator.hotkey).map fun _ => block)) =
          some found) blocks found) :
    (∀ block ∈ blocks, ∃ events, reads.revealEvents block = some events) ∧
      ∀ block, block ∈ found.flatten ↔ block ∈ blocks ∧ reads.RevealedAt validator block := by
  induction read with
  | nil => exact ⟨fun _ none => absurd none List.not_mem_nil, fun _ => by simp⟩
  | @cons first reveals rest _ read _ ih =>
    obtain ⟨events, listed, same⟩ := Option.bind_eq_some_iff.mp read
    cases same
    refine ⟨List.forall_mem_cons.mpr ⟨⟨events, listed⟩, ih.1⟩, fun block => ?_⟩
    rw [List.flatten_cons, List.mem_append, ih.2, List.mem_cons, or_and_right]
    apply or_congr_left
    simp only [List.mem_map, List.mem_filter, Bool.decide_and, Bool.and_eq_true,
      decide_eq_true_eq]
    constructor
    · rintro ⟨⟨netuid, hotkey⟩, ⟨member, rfl, rfl⟩, rfl⟩
      exact ⟨rfl, events, listed, member⟩
    · rintro ⟨rfl, others, listed', member⟩
      cases listed.symm.trans listed'
      exact ⟨_, ⟨member, rfl, rfl⟩, rfl⟩

/-- A window that is read has the events of each of its blocks read, and the blocks it returns are
those of the window at which the validator revealed. -/
theorem timelockedWeightRevealsBetween_eq_some
    (read : reads.timelockedWeightRevealsBetween validator startBlock endBlock = some revealed) :
    (∀ block, startBlock ≤ block → block ≤ endBlock →
      ∃ events, reads.revealEvents block = some events) ∧
    ∀ block, block ∈ revealed ↔
      (startBlock ≤ block ∧ block ≤ endBlock) ∧ reads.RevealedAt validator block := by
  obtain ⟨found, each, same⟩ := Option.bind_eq_some_iff.mp read
  cases same
  obtain ⟨known, revealed⟩ := mem_flatten_reveals (mapM_eq_some.mp each)
  have range (block : ℤ) : (block ∈ (List.range (endBlock + 1 - startBlock).toNat).map
      fun offset : ℕ => startBlock + offset) ↔ startBlock ≤ block ∧ block ≤ endBlock := by
    simp only [List.mem_map, List.mem_range]
    constructor
    · rintro ⟨offset, inside, rfl⟩
      omega
    · rintro ⟨first, last⟩
      exact ⟨(block - startBlock).toNat, by omega, by omega⟩
  refine ⟨fun block first last => known block ((range block).mpr ⟨first, last⟩), fun block => ?_⟩
  rw [revealed, range]

end FinalizedReads

/-- A window that was decided on, with the batch as it was stored and what was read of the chain. -/
structure Scan where
  window : Cr4RevealScanWindow
  batch : Batch
  reads : FinalizedReads

/-- A block of a scan's window, whose events were read. -/
def Scan.Read (scan : Scan) (block : ℤ) : Prop :=
  (scan.window.startBlock ≤ block ∧ block ≤ scan.window.endBlock) ∧
    ∃ events, scan.reads.revealEvents block = some events

/-- What is stored, the windows that were decided on, and those that the cursor has passed. -/
structure ScanWorld where
  ledger : Ledger
  examined : List Scan
  scanned : List Scan

/-- The world before the first emission. -/
def ScanWorld.initial : ScanWorld := ⟨Ledger.empty, [], []⟩

/-- Where a failed read, a failed write or a restart cuts an iteration. -/
inductive Cut
  | none
  | beforeResolution
  | beforeAdvance

namespace ScanWorld

variable (world : ScanWorld)

/-- The next window and what is decided on, when the validator is known and the window's reveals
are read. -/
def scanSnapshot (validator : ValidatorIdentity) (reads : FinalizedReads) :
    Option (Option Cr4RevealScanWindow × WeightEmissionChainSnapshot) :=
  if ¬reads.identifies validator then none
  else
    match world.ledger.cr4RevealScanWindow validator.schemaId reads.block with
    | none => some (none, reads.snapshot validator none [])
    | some window =>
      (reads.timelockedWeightRevealsBetween validator window.startBlock window.endBlock).map
        fun revealBlocks => (some window, reads.snapshot validator window revealBlocks)

/-- One iteration of a resync: read the next window, decide on it, and move the cursor on. With
the world comes whether the resync goes on. -/
def scan (validator : ValidatorIdentity) (digest : Digest) (reads : FinalizedReads)
    (confirmedAt : String) (cut : Cut) : ScanWorld × Bool :=
  match world.scanSnapshot validator reads, cut with
  | none, _ => (world, false)
  -- a crash before the resolution leaves the cursor where it was
  | some _, .beforeResolution => (world, false)
  | some (window, snapshot), cut =>
    match world.ledger.resolveWeightEmissionConfirmations digest validator.schemaId snapshot
      weightEmissionFinalityMarginBlocks confirmedAt with
    | .error _ => (world, false)
    | .ok (resolved, resolution) =>
      match window with
      | none => ({ world with ledger := resolved }, false)
      | some window =>
        -- a window counts as examined once its resolution is stored
        let scan := ((world.ledger.batches.get? window.batchId).map (⟨window, ·, reads⟩)).toList
        match cut, resolved.advanceCr4RevealScanCursor window.batchId window.endBlock with
        | .none, .ok advanced =>
          ({ ledger := advanced, examined := world.examined ++ scan, scanned := world.scanned ++ scan },
            resolution.confirmed = 0 ∧ resolution.unconfirmed = 0)
        | _, _ => ({ world with ledger := resolved, examined := world.examined ++ scan }, false)

/-- The iterations of a resync, as many as its budget. -/
def scanWindows (validator : ValidatorIdentity) (digest : Digest) (reads : FinalizedReads) :
    ℕ → (ℕ → String × Cut) → ScanWorld → ScanWorld
  | 0, _, world => world
  | budget + 1, cuts, world =>
    match world.scan validator digest reads (cuts 0).1 (cuts 0).2 with
    | (later, true) => scanWindows validator digest reads budget (fun n => cuts (n + 1)) later
    | (later, false) => later

end ScanWorld

/-- How many windows a resync may scan. -/
def cr4RevealScanBatchBudget (epochLength : ℤ) : ℤ :=
  (epochLength + 1 + cr4RevealScanBatchBlocks - 1) / cr4RevealScanBatchBlocks + 1

/-- A resync, with the times of its iterations and where each is cut. -/
def ScanWorld.resolveWeightConfirmations (validator : ValidatorIdentity) (digest : Digest)
    (epochLength : ℤ) (reads : FinalizedReads) (cuts : ℕ → String × Cut) (world : ScanWorld) :
    ScanWorld :=
  scanWindows validator digest reads (cr4RevealScanBatchBudget epochLength).toNat cuts world

/-- What happens to the ledger between and within resyncs. -/
inductive ScanEvent
  | record (emission : WeightEmission)
  | transition (transition : AttemptTransition)
  | scan (reads : FinalizedReads) (confirmedAt : String) (cut : Cut)

/-- What an event makes of the world. -/
def scanStep (validator : ValidatorIdentity) (digest : Digest) : ScanEvent → ScanWorld → ScanWorld
  | .record emission, world =>
    { world with ledger := perform digest (.record emission) world.ledger }
  | .transition transition, world =>
    { world with ledger := perform digest (.transition transition) world.ledger }
  | .scan reads confirmedAt cut, world => (world.scan validator digest reads confirmedAt cut).1

/-! ### Windows -/

namespace Ledger

variable {ledger : Ledger} {schemaId : String} {finalized : ℤ}

/-- A schema's batch that a window is drawn for: open, in CR4 mode, with a reveal deadline. -/
structure AwaitsReveal (ledger : Ledger) (schemaId : String) (id : ℕ) (batch : Batch)
    (submission deadline : ℤ) : Prop where
  found : ledger.batches.get? id = some batch
  schema : batch.schemaId = schemaId
  isOpen : batch.isOpen = true
  mode : batch.submissionMode = some .cr4
  submissionBlock : batch.submissionBlock = some submission
  revealDeadline : batch.cr4RevealDeadlineBlock = some deadline

/-- Where the scan of a batch goes on. -/
def nextScanBlock (batch : Batch) (submission : ℤ) : ℤ :=
  max submission ((batch.revealScanCursorBlock.map (· + 1)).getD submission)

/-- The batches a window may be drawn for are the awaited one. -/
theorem AwaitsReveal.listed {id : ℕ} {batch : Batch} {submission deadline : ℤ}
    (awaits : ledger.AwaitsReveal schemaId id batch submission deadline) :
    (ledger.openBatches schemaId).filter (fun entry => entry.2.submissionMode = some .cr4 ∧
      entry.2.cr4RevealDeadlineBlock.isSome) = [(id, batch)] := by
  have member : (id, batch) ∈ ledger.openBatches schemaId :=
    mem_openBatches.mpr ⟨awaits.found, awaits.schema, awaits.isOpen⟩
  rcases ledger.openBatches_cases schemaId with none | ⟨other, found, one⟩
  · rw [none] at member
    cases member
  · rw [one] at member ⊢
    cases List.mem_singleton.mp member
    simp [awaits.mode, awaits.revealDeadline]

/-- The window of an awaited batch goes from where its scan stands to at most its deadline. -/
theorem AwaitsReveal.window {id : ℕ} {batch : Batch} {submission deadline : ℤ}
    (awaits : ledger.AwaitsReveal schemaId id batch submission deadline) :
    ledger.cr4RevealScanWindow schemaId finalized =
      let startBlock := nextScanBlock batch submission
      let endBlock := min (min finalized deadline) (startBlock + cr4RevealScanBatchBlocks - 1)
      if endBlock < startBlock then none
      else some ⟨id, startBlock, endBlock, deadline ≤ endBlock⟩ := by
  rw [cr4RevealScanWindow, awaits.listed]
  simp only [awaits.submissionBlock, awaits.revealDeadline]
  rfl

/-- Every window is drawn for an awaited batch. -/
theorem awaitsReveal_of_window {window : Cr4RevealScanWindow}
    (drawn : ledger.cr4RevealScanWindow schemaId finalized = some window) :
    ∃ batch submission deadline,
      ledger.AwaitsReveal schemaId window.batchId batch submission deadline ∧
      window.startBlock = nextScanBlock batch submission ∧
      window.startBlock ≤ window.endBlock ∧ window.endBlock ≤ finalized ∧
      window.endBlock ≤ deadline ∧
      (window.complete = true ↔ deadline ≤ window.endBlock) := by
  have known := drawn
  rw [cr4RevealScanWindow] at drawn
  split at drawn
  · next id batch listed =>
    split at drawn
    · next submission deadline submitted bound =>
      -- the only candidate is the awaited batch
      have member : (id, batch) ∈ (ledger.openBatches schemaId).filter (fun entry =>
          entry.2.submissionMode = some .cr4 ∧ entry.2.cr4RevealDeadlineBlock.isSome) := by
        rw [listed]
        exact List.mem_singleton_self _
      obtain ⟨listed, mode⟩ := List.mem_filter.mp member
      obtain ⟨found, schema, isOpen⟩ := mem_openBatches.mp listed
      have awaits : ledger.AwaitsReveal schemaId id batch submission deadline :=
        ⟨found, schema, isOpen, (of_decide_eq_true mode).1, submitted, bound⟩
      rw [awaits.window] at known
      simp only at known
      split at known
      · cases known
      · cases known
        refine ⟨batch, submission, deadline, awaits, rfl, ?_, ?_, ?_, ?_⟩
        · exact not_lt.mp ‹_›
        · exact (min_le_left _ _).trans (min_le_left _ _)
        · exact (min_le_left _ _).trans (min_le_right _ _)
        · simp
    · cases drawn
  · cases drawn

end Ledger

/-- A resolution that succeeds. -/
def Ledger.Resolves (ledger : Ledger) (digest : Digest) (schemaId : String)
    (snapshot : WeightEmissionChainSnapshot) (confirmedAt : String) (resolved : Ledger) : Prop :=
  ∃ resolution, ledger.resolveWeightEmissionConfirmations digest schemaId snapshot
    weightEmissionFinalityMarginBlocks confirmedAt = .ok (resolved, resolution)

namespace Ledger.Resolves

variable {ledger resolved : Ledger} {digest : Digest} {schemaId confirmedAt : String}
  {snapshot : WeightEmissionChainSnapshot}

/-- With no open batch a resolution changes nothing, and otherwise it decides on the one there
is. -/
theorem decides (resolves : ledger.Resolves digest schemaId snapshot confirmedAt resolved) :
    (resolved = ledger ∧ ledger.openBatches schemaId = []) ∨ ∃ id batch decision,
      ledger.openBatches schemaId = [(id, batch)] ∧
      snapshot.weightResolution digest weightEmissionFinalityMarginBlocks batch
        (ledger.expectedWeightTargets id) = .ok decision ∧
      ResolutionOutcome ledger id batch decision confirmedAt resolved := by
  obtain ⟨_, done⟩ := resolves
  exact (resolveWeightEmissionConfirmations_eq_ok done).2.2

theorem effect (resolves : ledger.Resolves digest schemaId snapshot confirmedAt resolved) :
    Effect digest ledger (.resolve schemaId snapshot weightEmissionFinalityMarginBlocks confirmedAt)
      resolved := by
  rcases resolves.decides with ⟨rfl, -⟩ | ⟨id, batch, decision, one, decided, outcome⟩
  · exact .unchanged _
  · obtain ⟨found, schema, isOpen⟩ := mem_openBatches.mp
      (show (id, batch) ∈ ledger.openBatches schemaId by simp [one])
    obtain ⟨_, done⟩ := resolves
    exact .resolved (resolveWeightEmissionConfirmations_eq_ok done).2.1 found schema isOpen decided
      outcome

/-- A resolution decides on an awaited batch. -/
theorem outcome (resolves : ledger.Resolves digest schemaId snapshot confirmedAt resolved)
    {id : ℕ} {batch : Batch} {submission deadline : ℤ}
    (awaits : ledger.AwaitsReveal schemaId id batch submission deadline) :
    ∃ decision, snapshot.weightResolution digest weightEmissionFinalityMarginBlocks batch
        (ledger.expectedWeightTargets id) = .ok decision ∧
      ResolutionOutcome ledger id batch decision confirmedAt resolved := by
  have member : (id, batch) ∈ ledger.openBatches schemaId :=
    mem_openBatches.mpr ⟨awaits.found, awaits.schema, awaits.isOpen⟩
  rcases resolves.decides with ⟨-, none⟩ | ⟨other, found, decision, one, decided, outcome⟩
  · rw [none] at member
    cases member
  · rw [one] at member
    cases List.mem_singleton.mp member
    exact ⟨decision, decided, outcome⟩

end Ledger.Resolves

/-- What an iteration can make of the world. -/
inductive ScanOutcome (validator : ValidatorIdentity) (digest : Digest) (reads : FinalizedReads)
    (confirmedAt : String) (cut : Cut) (world : ScanWorld) : ScanWorld → Prop
  | stopped : ScanOutcome validator digest reads confirmedAt cut world world
  | resolved {snapshot : WeightEmissionChainSnapshot} {resolved : Ledger}
      (runs : cut ≠ .beforeResolution)
      (read : world.scanSnapshot validator reads = some (none, snapshot))
      (resolves : world.ledger.Resolves digest validator.schemaId snapshot confirmedAt resolved) :
      ScanOutcome validator digest reads confirmedAt cut world { world with ledger := resolved }
  | examined {window : Cr4RevealScanWindow} {snapshot : WeightEmissionChainSnapshot}
      {batch : Batch} {resolved : Ledger} (runs : cut ≠ .beforeResolution)
      (read : world.scanSnapshot validator reads = some (some window, snapshot))
      (found : world.ledger.batches.get? window.batchId = some batch)
      (resolves : world.ledger.Resolves digest validator.schemaId snapshot confirmedAt resolved) :
      ScanOutcome validator digest reads confirmedAt cut world
        { world with ledger := resolved, examined := world.examined ++ [⟨window, batch, reads⟩] }
  | advanced {window : Cr4RevealScanWindow} {snapshot : WeightEmissionChainSnapshot}
      {batch : Batch} {resolved advanced : Ledger} (runs : cut ≠ .beforeResolution)
      (read : world.scanSnapshot validator reads = some (some window, snapshot))
      (found : world.ledger.batches.get? window.batchId = some batch)
      (resolves : world.ledger.Resolves digest validator.schemaId snapshot confirmedAt resolved)
      (moved : resolved.advanceCr4RevealScanCursor window.batchId window.endBlock = .ok advanced) :
      ScanOutcome validator digest reads confirmedAt cut world
        { ledger := advanced
          examined := world.examined ++ [⟨window, batch, reads⟩]
          scanned := world.scanned ++ [⟨window, batch, reads⟩] }

namespace ScanWorld

variable {world : ScanWorld} {validator : ValidatorIdentity} {digest : Digest}
  {reads : FinalizedReads} {confirmedAt : String}

/-- A window that is read is the next one of the ledger, with the blocks of its reveals. -/
theorem window_of_scanSnapshot {window : Option Cr4RevealScanWindow}
    {snapshot : WeightEmissionChainSnapshot}
    (read : world.scanSnapshot validator reads = some (window, snapshot)) :
    world.ledger.cr4RevealScanWindow validator.schemaId reads.block = window ∧
      ∃ revealBlocks, snapshot = reads.snapshot validator window revealBlocks ∧
        ∀ drawn ∈ window, reads.timelockedWeightRevealsBetween validator drawn.startBlock
          drawn.endBlock = some revealBlocks := by
  rw [scanSnapshot] at read
  split at read
  · cases read
  · split at read
    · next drawn =>
      cases read
      exact ⟨drawn, _, rfl, fun _ none => absurd none (Option.not_mem_none _)⟩
    · next window drawn =>
      obtain ⟨revealBlocks, listed, same⟩ := Option.map_eq_some_iff.mp read
      cases same
      refine ⟨drawn, revealBlocks, rfl, fun other this => ?_⟩
      cases Option.mem_some_iff.mp this
      exact listed

theorem scanOutcome (world : ScanWorld) (validator : ValidatorIdentity) (digest : Digest)
    (reads : FinalizedReads) (confirmedAt : String) (cut : Cut) :
    ScanOutcome validator digest reads confirmedAt cut world
    (world.scan validator digest reads confirmedAt cut).1 := by
  unfold scan
  split
  · exact .stopped
  · exact .stopped
  · next window snapshot read runs =>
    split
    · exact .stopped
    · next resolved resolution done =>
      have resolves : world.ledger.Resolves digest validator.schemaId snapshot confirmedAt
        resolved := ⟨resolution, done⟩
      split
      · exact .resolved runs read resolves
      · next window _ =>
        obtain ⟨batch, _, _, awaits, -⟩ :=
          Ledger.awaitsReveal_of_window (window_of_scanSnapshot read).1
        simp only [awaits.found, Option.map_some, Option.toList_some]
        split
        · next moved => exact .advanced runs read awaits.found resolves moved
        · exact .examined runs read awaits.found resolves

end ScanWorld

/-- A resync is a run of at most as many iterations as its budget, all on one finalized head. -/
theorem resolveWeightConfirmations_eq_run (validator : ValidatorIdentity) (digest : Digest)
    (epochLength : ℤ) (reads : FinalizedReads) (cuts : ℕ → String × Cut) (world : ScanWorld) :
    ∃ count ≤ (cr4RevealScanBatchBudget epochLength).toNat,
      world.resolveWeightConfirmations validator digest epochLength reads cuts =
        run (scanStep validator digest) world
          ((List.range count).map fun n => .scan reads (cuts n).1 (cuts n).2) := by
  rw [ScanWorld.resolveWeightConfirmations]
  generalize (cr4RevealScanBatchBudget epochLength).toNat = budget
  induction budget generalizing cuts world with
  | zero => exact ⟨0, le_rfl, rfl⟩
  | succ budget ih =>
    rw [ScanWorld.scanWindows]
    split
    · next later more =>
      obtain ⟨count, bound, same⟩ := ih (fun n => cuts (n + 1)) later
      refine ⟨count + 1, Nat.succ_le_succ bound, ?_⟩
      rw [same, List.range_succ_eq_map, List.map_cons, List.map_map, run_cons, scanStep, more]
      rfl
    · next later more =>
      refine ⟨1, Nat.succ_le_succ (Nat.zero_le _), ?_⟩
      simp [scanStep, more]

end Endure.Emission
