import Endure.Emission.Resolution
import Endure.Library.Transitions

/-!
# Runs of the emission ledger

The transactions of the ledger in any order. A call that raises leaves the ledger as it
was, and a crash falls between two transactions, so the ledgers that occur are those of
the runs. One theorem lists what an operation can make of the ledger; terminal batches,
and what is confirmed, follow from it.
-/

namespace Endure.Emission

open Library Library.Checked Library.Transitions

/-- A transaction with its arguments. -/
inductive LedgerOperation
  | record (emission : WeightEmission)
  | transition (transition : AttemptTransition)
  | resolve (schemaId : String) (snapshot : WeightEmissionChainSnapshot)
      (finalityMarginBlocks : ℤ) (confirmedAt : String)
  | advance (batchId : ℕ) (scannedThrough : ℤ)

/-- The ledger after a transaction, which rolls back when it raises. -/
def perform (digest : Digest) : LedgerOperation → Ledger → Ledger
  | .record emission, ledger =>
    match ledger.recordWeightEmission digest emission with
    | .ok (_, later) => later
    | .error _ => ledger
  | .transition transition, ledger =>
    match ledger.transitionWeightEmissionAttempt transition with
    | .ok later => later
    | .error _ => ledger
  | .resolve schemaId snapshot finalityMarginBlocks confirmedAt, ledger =>
    match ledger.resolveWeightEmissionConfirmations digest schemaId snapshot
      finalityMarginBlocks confirmedAt with
    | .ok (later, _) => later
    | .error _ => ledger
  | .advance batchId scannedThrough, ledger =>
    match ledger.advanceCr4RevealScanCursor batchId scannedThrough with
    | .ok later => later
    | .error _ => ledger

/-- What an operation can make of a ledger. -/
inductive Effect (digest : Digest) (ledger : Ledger) : LedgerOperation → Ledger → Prop
  | unchanged (operation : LedgerOperation) : Effect digest ledger operation ledger
  | inserted {emission : WeightEmission} {later : Ledger} (accepted : emission.Accepted digest)
      (batches : later.batches = ledger.batches.set ledger.nextId emission.batch)
      (nodup : (emission.rows.map WeightEmissionRow.uid).Nodup)
      (rows : ∀ key held, later.rows.get? key = some held ↔
        ledger.rows.get? key = some held ∨
          key.1 = ledger.nextId ∧ ∃ row ∈ emission.rows, row.uid = key.2 ∧ row.stored = held) :
      Effect digest ledger (.record emission) later
  | moved {transition : AttemptTransition} {batch : Batch}
      (admits : ledger.Admits transition.batchId (transition.change batch))
      (valid : transition.validate = .ok ())
      (found : ledger.batches.get? transition.batchId = some batch)
      (prepared : batch.confirmationState = some .prepared) :
      Effect digest ledger (.transition transition) (ledger.put _ _ admits)
  | resolved {schemaId confirmedAt : String} {snapshot : WeightEmissionChainSnapshot} {margin : ℤ}
      {id : ℕ} {batch : Batch} {decision : WeightResolutionDecision} {later : Ledger}
      (valid : snapshot.validateWeightChainSnapshot = .ok ())
      (found : ledger.batches.get? id = some batch) (schema : batch.schemaId = schemaId)
      (isOpen : batch.isOpen = true)
      (decided : snapshot.weightResolution digest margin batch (ledger.expectedWeightTargets id) =
        .ok decision)
      (outcome : ResolutionOutcome ledger id batch decision confirmedAt later) :
      Effect digest ledger (.resolve schemaId snapshot margin confirmedAt) later
  | scanned {batchId : ℕ} {through : ℤ} {batch : Batch}
      (admits : ledger.Admits batchId (Ledger.scannedThrough through batch))
      (found : ledger.batches.get? batchId = some batch) (isOpen : batch.isOpen = true) :
      Effect digest ledger (.advance batchId through) (ledger.put _ _ admits)

variable {digest : Digest} {ledger : Ledger}

theorem effect_perform (digest : Digest) (ledger : Ledger) (operation : LedgerOperation) :
    Effect digest ledger operation (perform digest operation ledger) := by
  cases operation with
  | record emission =>
    rw [perform]
    split
    · next id later done =>
      obtain ⟨rfl, accepted, -, batches, nodup, rows⟩ := Ledger.recordWeightEmission_eq_ok done
      exact .inserted accepted batches nodup rows
    · exact .unchanged _
  | transition transition =>
    rw [perform]
    split
    · next later done =>
      obtain ⟨valid, batch, admits, found, prepared, rfl⟩ :=
        Ledger.transitionWeightEmissionAttempt_eq_ok done
      exact .moved admits valid found prepared
    · exact .unchanged _
  | resolve schemaId snapshot margin confirmedAt =>
    rw [perform]
    split
    · next later counts done =>
      obtain ⟨-, valid, ⟨rfl, -⟩ | ⟨id, batch, decision, one, decided, outcome⟩⟩ :=
        Ledger.resolveWeightEmissionConfirmations_eq_ok done
      · exact .unchanged _
      · obtain ⟨found, schema, isOpen⟩ := Ledger.mem_openBatches.mp
          (show (id, batch) ∈ ledger.openBatches schemaId by simp [one])
        exact .resolved valid found schema isOpen decided outcome
    · exact .unchanged _
  | advance batchId through =>
    rw [perform]
    split
    · next later done =>
      rcases Ledger.advanceCr4RevealScanCursor_eq_ok done with
        ⟨rfl, -⟩ | ⟨batch, admits, found, isOpen, rfl⟩
      · exact .unchanged _
      · exact .scanned admits found isOpen
    · exact .unchanged _

/-! ### Terminal batches -/

/-- A batch that is not open stays as it is through every operation. -/
theorem Effect.get?_of_closed {operation : LedgerOperation} {later : Ledger}
    (effect : Effect digest ledger operation later) {id : ℕ} {batch : Batch}
    (found : ledger.batches.get? id = some batch) (closed : batch.isOpen = false) :
    later.batches.get? id = some batch := by
  -- A batch that is written is new or was open.
  have elsewhere {other : ℕ} {old new : Batch} (held : ledger.batches.get? other = some old)
      (wasOpen : old.isOpen = true) : (ledger.batches.set other new).get? id = some batch := by
    rw [Dict.get?_set, if_neg, found]
    rintro rfl
    obtain rfl := Option.some.inj (found.symm.trans held)
    rw [wasOpen] at closed
    cases closed
  cases effect with
  | unchanged => exact found
  | inserted accepted batches nodup rows =>
    rw [batches, Dict.get?_set, if_neg (Ledger.ne_nextId found), found]
  | moved admits valid held prepared =>
    exact elsewhere held (by rw [Batch.isOpen, prepared]; rfl)
  | resolved valid held schema isOpen decided outcome =>
    cases outcome with
    | kept => exact found
    | observed => exact elsewhere held isOpen
    | confirmed => exact elsewhere held isOpen
    | unconfirmed => exact elsewhere held isOpen
  | scanned admits held isOpen => exact elsewhere held isOpen

theorem run_get?_of_closed (operations : List LedgerOperation) {id : ℕ} {batch : Batch}
    (found : ledger.batches.get? id = some batch) (closed : batch.isOpen = false) :
    (run (perform digest) ledger operations).batches.get? id = some batch := by
  have keeps (operation : LedgerOperation) (current : Ledger)
      (held : current.batches.get? id = some batch) :
      (perform digest operation current).batches.get? id = some batch :=
    (effect_perform digest current operation).get?_of_closed held closed
  exact run_invariant keeps found operations

/-- A batch is confirmed, unconfirmed or failed. -/
def Ledger.Settled (ledger : Ledger) (id : ℕ) : Prop :=
  ∃ batch, ledger.batches.get? id = some batch ∧
    (batch.confirmationState = some .confirmed ∨ batch.confirmationState = some .unconfirmed ∨
      batch.confirmationState = some .failed)

theorem Ledger.settled_iff {id : ℕ} : ledger.Settled id ↔ ∃ batch,
    ledger.batches.get? id = some batch ∧ batch.confirmationState.isSome = true ∧
      batch.isOpen = false := by
  refine exists_congr fun batch => and_congr_right' ?_
  rw [Batch.isOpen]
  cases batch.confirmationState with
  | none => simp
  | some state => cases state <;> simp [ConfirmationState.isOpen]

theorem Effect.settled {operation : LedgerOperation} {later : Ledger}
    (effect : Effect digest ledger operation later) {id : ℕ} (settled : ledger.Settled id) :
    later.Settled id := by
  obtain ⟨batch, found, state, closed⟩ := Ledger.settled_iff.mp settled
  exact Ledger.settled_iff.mpr ⟨batch, effect.get?_of_closed found closed, state, closed⟩

/-- A batch with a state stays stored under its id, in its schema, with a state. -/
theorem Effect.keeps {operation : LedgerOperation} {later : Ledger}
    (effect : Effect digest ledger operation later) {id : ℕ} {batch : Batch}
    (found : ledger.batches.get? id = some batch)
    (state : batch.confirmationState.isSome = true) :
    ∃ kept, later.batches.get? id = some kept ∧ kept.schemaId = batch.schemaId ∧
      kept.confirmationState.isSome = true := by
  -- an operation writes one batch and leaves the others
  have written {other : ℕ} {old new : Batch} (held : ledger.batches.get? other = some old)
      (schema : new.schemaId = old.schemaId)
      (still : old.confirmationState.isSome = true → new.confirmationState.isSome = true) :
      ∃ kept, (ledger.batches.set other new).get? id = some kept ∧
        kept.schemaId = batch.schemaId ∧ kept.confirmationState.isSome = true := by
    obtain ⟨kept, now, same, states⟩ := @Dict.exists_get?_set _ _ _ (fun earlier later : Batch =>
        later.schemaId = earlier.schemaId ∧
          (earlier.confirmationState.isSome = true → later.confirmationState.isSome = true))
      _ _ _ _ _ _ found held ⟨rfl, fun kept => kept⟩ ⟨schema, still⟩
    exact ⟨kept, now, same, states state⟩
  cases effect with
  | unchanged => exact ⟨batch, found, rfl, state⟩
  | inserted accepted batches nodup rows =>
    refine ⟨batch, ?_, rfl, state⟩
    -- a new batch gets an id that no batch had
    rw [batches, Dict.get?_set, if_neg (Ledger.ne_nextId found), found]
  | moved admits valid held prepared => exact written held rfl fun _ => rfl
  | resolved valid held schema isOpen decided outcome =>
    cases outcome with
    | kept => exact ⟨batch, found, rfl, state⟩
    | observed => exact written held rfl fun kept => kept
    | confirmed => exact written held rfl fun _ => rfl
    | unconfirmed => exact written held rfl fun _ => rfl
  | scanned admits held isOpen => exact written held rfl fun kept => kept

/-- No cursor moves back from one ledger to another. -/
def Ledger.CursorsGrow (earlier later : Ledger) : Prop :=
  ∀ id batch cursor, earlier.batches.get? id = some batch →
    batch.revealScanCursorBlock = some cursor → ∃ kept moved, later.batches.get? id = some kept ∧
      kept.revealScanCursorBlock = some moved ∧ cursor ≤ moved

theorem Ledger.CursorsGrow.refl (ledger : Ledger) : ledger.CursorsGrow ledger :=
  fun _ batch cursor found stands => ⟨batch, cursor, found, stands, le_rfl⟩

theorem Ledger.CursorsGrow.trans {first second third : Ledger} (earlier : first.CursorsGrow second)
    (later : second.CursorsGrow third) : first.CursorsGrow third := by
  intro id batch cursor found stands
  obtain ⟨kept, moved, held, stands, below⟩ := earlier id batch cursor found stands
  obtain ⟨last, further, held, stands, above⟩ := later id kept moved held stands
  exact ⟨last, further, held, stands, below.trans above⟩

theorem Effect.cursorsGrow {operation : LedgerOperation} {later : Ledger}
    (effect : Effect digest ledger operation later) : ledger.CursorsGrow later := by
  intro id batch cursor found stands
  -- an operation writes one batch and leaves the others
  have written {other : ℕ} {old new : Batch} (held : ledger.batches.get? other = some old)
      (grows : ∀ block, old.revealScanCursorBlock = some block →
        ∃ moved, new.revealScanCursorBlock = some moved ∧ block ≤ moved) :
      ∃ kept moved, (ledger.batches.set other new).get? id = some kept ∧
        kept.revealScanCursorBlock = some moved ∧ cursor ≤ moved := by
    obtain ⟨kept, now, onward⟩ := @Dict.exists_get?_set _ _ _ (fun earlier later : Batch =>
        ∀ block, earlier.revealScanCursorBlock = some block →
          ∃ moved, later.revealScanCursorBlock = some moved ∧ block ≤ moved)
      _ _ _ _ _ _ found held (fun block same => ⟨block, same, le_rfl⟩) grows
    obtain ⟨moved, stands, above⟩ := onward cursor stands
    exact ⟨kept, moved, now, stands, above⟩
  cases effect with
  | unchanged => exact ⟨batch, cursor, found, stands, le_rfl⟩
  | inserted accepted batches nodup rows =>
    refine ⟨batch, cursor, ?_, stands, le_rfl⟩
    rw [batches, Dict.get?_set, if_neg (Ledger.ne_nextId found), found]
  | moved admits valid held prepared => exact written held fun block same => ⟨block, same, le_rfl⟩
  | resolved valid held schema isOpen decided outcome =>
    cases outcome with
    | kept => exact ⟨batch, cursor, found, stands, le_rfl⟩
    | observed => exact written held fun block same => ⟨block, same, le_rfl⟩
    | confirmed => exact written held fun block same => ⟨block, same, le_rfl⟩
    | unconfirmed => exact written held fun block same => ⟨block, same, le_rfl⟩
  | scanned admits held isOpen =>
    refine written held fun block same => ⟨_, rfl, ?_⟩
    rw [same]
    exact le_max_left _ _

/-- A stored batch stays stored. -/
theorem Effect.stored {operation : LedgerOperation} {later : Ledger}
    (effect : Effect digest ledger operation later) {id : ℕ}
    (stored : (ledger.batches.get? id).isSome = true) : (later.batches.get? id).isSome = true := by
  have written (other : ℕ) (new : Batch) :
      ((ledger.batches.set other new).get? id).isSome = true := by
    rw [Dict.get?_set]
    split
    · rfl
    · exact stored
  cases effect with
  | unchanged => exact stored
  | inserted accepted batches nodup rows => exact batches ▸ written _ _
  | moved => exact written _ _
  | resolved valid held schema isOpen decided outcome =>
    cases outcome with
    | kept => exact stored
    | observed => exact written _ _
    | confirmed => exact written _ _
    | unconfirmed => exact written _ _
  | scanned => exact written _ _

/-- The targets of a stored batch stay. -/
theorem Effect.expectedWeightTargets {operation : LedgerOperation} {later : Ledger}
    (effect : Effect digest ledger operation later) {id : ℕ}
    (stored : (ledger.batches.get? id).isSome = true) :
    later.expectedWeightTargets id = ledger.expectedWeightTargets id := by
  refine Ledger.expectedWeightTargets_congr fun uid => ?_
  cases effect with
  | unchanged => rfl
  | inserted accepted batches nodup rows =>
    refine congrArg _ (Option.ext fun held => ?_)
    rw [rows]
    refine or_iff_left fun ⟨here, _⟩ => ?_
    rw [show id = ledger.nextId from here, Ledger.get?_nextId] at stored
    cases stored
  | moved => rfl
  | resolved valid held schema isOpen decided outcome =>
    cases outcome with
    | kept => rfl
    | observed => rfl
    | confirmed =>
      rw [Ledger.get?_markEmitted, Option.map_map]
      refine congrArg (fun f => Option.map f _) (funext fun row => ?_)
      simp only [Function.comp_apply]
      split <;> rfl
    | unconfirmed => rfl
  | scanned => rfl

/-- What no transaction changes of a batch. -/
structure Batch.Carries (earlier later : Batch) : Prop where
  schemaId : later.schemaId = earlier.schemaId
  submissionBlock : later.submissionBlock = earlier.submissionBlock
  chainIdentity : later.chainIdentity = earlier.chainIdentity
  netuid : later.netuid = earlier.netuid
  validatorUid : later.validatorUid = earlier.validatorUid
  validatorHotkey : later.validatorHotkey = earlier.validatorHotkey
  intentHash : later.intentHash = earlier.intentHash

/-- A batch that is open after an operation was recorded by it, or was open before; only moving
its cursor changes the cursor. -/
theorem Effect.open_cases {operation : LedgerOperation} {later : Ledger}
    (effect : Effect digest ledger operation later) {id : ℕ} {batch : Batch}
    (found : later.batches.get? id = some batch) (isOpen : batch.isOpen = true) :
    (∃ emission, operation = .record emission ∧ emission.Accepted digest ∧ id = ledger.nextId ∧
      batch = emission.batch ∧ (emission.rows.map WeightEmissionRow.uid).Nodup ∧
      ∀ uid held, later.rows.get? (id, uid) = some held ↔
        ∃ row ∈ emission.rows, row.uid = uid ∧ row.stored = held) ∨
    ∃ earlier, ledger.batches.get? id = some earlier ∧ earlier.isOpen = true ∧
      earlier.Carries batch ∧ (batch.revealScanCursorBlock = earlier.revealScanCursorBlock ∨
        ∃ through, operation = .advance id through ∧ batch.revealScanCursorBlock =
          some (max (earlier.revealScanCursorBlock.getD through) through)) := by
  have kept {old : Batch} (held : ledger.batches.get? id = some old)
      (same : some old = some batch) : ∃ earlier, ledger.batches.get? id = some earlier ∧
      earlier.isOpen = true ∧ earlier.Carries batch ∧
      (batch.revealScanCursorBlock = earlier.revealScanCursorBlock ∨
        ∃ through, operation = .advance id through ∧ batch.revealScanCursorBlock =
          some (max (earlier.revealScanCursorBlock.getD through) through)) := by
    cases same
    exact ⟨_, held, isOpen, ⟨rfl, rfl, rfl, rfl, rfl, rfl, rfl⟩, .inl rfl⟩
  -- A batch other than the one written is the old one.
  have elsewhere {other : ℕ} {new : Batch} (held : (ledger.batches.set other new).get? id =
      some batch) (away : id ≠ other) : ledger.batches.get? id = some batch := by
    rwa [Dict.get?_set, if_neg away] at held
  cases effect with
  | unchanged => exact .inr (kept found rfl)
  | inserted accepted batches nodup rows =>
    rw [batches] at found
    by_cases here : id = ledger.nextId
    · subst here
      rw [Dict.get?_set, if_pos rfl] at found
      cases found
      refine .inl ⟨_, rfl, accepted, rfl, rfl, nodup, fun uid held => ?_⟩
      rw [rows, Ledger.get?_rows_nextId]
      simp
    · exact .inr (kept (elsewhere found here) rfl)
  | @moved transition old admits valid held prepared =>
    refine .inr ?_
    by_cases here : id = transition.batchId
    · subst here
      rw [Ledger.batches_put, Dict.get?_set, if_pos rfl] at found
      cases found
      exact ⟨old, held, by rw [Batch.isOpen, prepared]; rfl, ⟨rfl, rfl, rfl, rfl, rfl, rfl, rfl⟩,
        .inl rfl⟩
    · exact kept (elsewhere found here) rfl
  | @resolved schemaId confirmedAt snapshot margin other old decision after valid held schema wasOpen
      decided outcome =>
    refine .inr ?_
    cases outcome with
    | kept => exact kept found rfl
    | observed =>
      by_cases here : id = other
      · subst here
        rw [Ledger.batches_put, Dict.get?_set, if_pos rfl] at found
        cases found
        exact ⟨old, held, wasOpen, ⟨rfl, rfl, rfl, rfl, rfl, rfl, rfl⟩, .inl rfl⟩
      · exact kept (elsewhere found here) rfl
    | confirmed =>
      by_cases here : id = other
      · subst here
        rw [Ledger.batches_markEmitted, Ledger.batches_put, Dict.get?_set, if_pos rfl] at found
        cases found
        cases isOpen
      · exact kept (elsewhere found here) rfl
    | unconfirmed =>
      by_cases here : id = other
      · subst here
        rw [Ledger.batches_put, Dict.get?_set, if_pos rfl] at found
        cases found
        cases isOpen
      · exact kept (elsewhere found here) rfl
  | @scanned batchId through old admits held wasOpen =>
    refine .inr ?_
    by_cases here : id = batchId
    · subst here
      rw [Ledger.batches_put, Dict.get?_set, if_pos rfl] at found
      cases found
      exact ⟨old, held, wasOpen, ⟨rfl, rfl, rfl, rfl, rfl, rfl, rfl⟩, .inr ⟨through, rfl, rfl⟩⟩
    · exact kept (elsewhere found here) rfl

/-! ### Confirmation -/

/-- A batch is stored and confirmed. -/
def Ledger.isConfirmed (ledger : Ledger) (id : ℕ) : Bool :=
  (ledger.batches.get? id).any (·.confirmationState = some .confirmed)

/-- The evidence of inclusion that a snapshot shows of a batch, in either mode. -/
def Included (batch : Batch) (snapshot : WeightEmissionChainSnapshot) (margin : ℤ) : Prop :=
  match batch.submissionMode with
  | some .direct => ∃ submission baseline deadline, batch.submissionBlock = some submission ∧
      batch.baselineLastUpdateBlock = some baseline ∧
      batch.confirmationDeadlineBlock = some deadline ∧
      submission < snapshot.lastUpdateBlock ∧ baseline < snapshot.lastUpdateBlock ∧
      snapshot.lastUpdateBlock ≤ deadline - margin
  | _ => ∃ submission, batch.submissionBlock = some submission ∧ ∃ reveal ∈ snapshot.reveals,
      reveal.validatorHotkey = snapshot.validatorHotkey ∧ reveal.netuid = snapshot.netuid ∧
      batch.commitmentObservedBlock.getD submission ≤ reveal.revealBlock ∧
      ∀ deadline ∈ batch.cr4RevealDeadlineBlock, reveal.revealBlock ≤ deadline

/-- A snapshot shows the chain to hold what a batch persisted. -/
structure Confirms (digest : Digest) (ledger : Ledger) (id : ℕ) (batch : Batch)
    (snapshot : WeightEmissionChainSnapshot) (margin : ℤ) : Prop where
  chainIdentity : batch.chainIdentity = some snapshot.chainIdentity
  netuid : batch.netuid = some snapshot.netuid
  validatorUid : batch.validatorUid = some snapshot.validatorUid
  validatorHotkey : batch.validatorHotkey = some snapshot.validatorHotkey
  distinct : (snapshot.weights.map Prod.fst).Nodup
  vector : ∀ uid weight, (uid, weight) ∈ snapshot.weights ↔
    ∃ row, ledger.rows.get? (id, uid) = some row ∧ row.weightU16 = some weight
  hotkeys : ∀ uid row, ledger.rows.get? (id, uid) = some row → row.weightU16.isSome = true →
    (uid, row.minerHotkey) ∈ snapshot.hotkeys
  intent : ∃ version, (version = none ∨ version = some currentVersionKey) ∧
    batch.intentHash = some (weightIntentHash digest
      { chainIdentity := snapshot.chainIdentity
        netuid := snapshot.netuid
        validatorUid := snapshot.validatorUid
        validatorHotkey := snapshot.validatorHotkey
        targets := ledger.expectedWeightTargets id } version)
  included : Included batch snapshot margin

theorem validateWeightChainSnapshot_eq_ok {snapshot : WeightEmissionChainSnapshot}
    (valid : snapshot.validateWeightChainSnapshot = .ok ()) :
    (snapshot.hotkeys.map Prod.fst).Nodup ∧ (snapshot.weights.map Prod.fst).Nodup := by
  rw [WeightEmissionChainSnapshot.validateWeightChainSnapshot] at valid
  obtain ⟨_, -, valid⟩ := bind_eq_ok.mp valid
  obtain ⟨_, -, valid⟩ := bind_eq_ok.mp valid
  obtain ⟨_, -, valid⟩ := bind_eq_ok.mp valid
  obtain ⟨_, -, valid⟩ := bind_eq_ok.mp valid
  obtain ⟨_, hotkeys, valid⟩ := bind_eq_ok.mp valid
  exact ⟨ensure_eq_ok.mp hotkeys, ensure_eq_ok.mp valid⟩

namespace WeightEmissionChainSnapshot

variable {snapshot : WeightEmissionChainSnapshot} {margin : ℤ} {batch : Batch}

theorem intentMatches_iff {targets : List WeightTarget} {stored : String} :
    snapshot.intentMatches digest targets stored = true ↔ ∃ version,
      (version = none ∨ version = some currentVersionKey) ∧
        recordedProtocolVersion stored = some version ∧
        stored = weightIntentHash digest
          { chainIdentity := snapshot.chainIdentity
            netuid := snapshot.netuid
            validatorUid := snapshot.validatorUid
            validatorHotkey := snapshot.validatorHotkey
            targets } version := by
  rw [intentMatches]
  cases recordedProtocolVersion stored with
  | none => simp
  | some version =>
    simp only [decide_eq_true_eq, Option.some.injEq]
    exact ⟨fun ⟨current, same⟩ => ⟨version, current, rfl, same⟩,
      fun ⟨_, current, same, hash⟩ => same ▸ ⟨current, hash⟩⟩

theorem recordedProtocolVersion_missing : recordedProtocolVersion "None" = none := by
  decide

/-- A direct decision confirms a matching vector that was updated in the window. -/
theorem directWeightResolution_confirm {submission baseline : ℤ} {deadline : Option ℤ}
    {vectorMatches : Bool} : (snapshot.directWeightResolution submission baseline deadline margin
      vectorMatches).confirm = true ↔ vectorMatches = true ∧ submission < snapshot.lastUpdateBlock ∧
        baseline < snapshot.lastUpdateBlock ∧
        ∃ block, deadline = some block ∧ snapshot.lastUpdateBlock ≤ block - margin := by
  cases deadline with
  | none => simp [directWeightResolution]
  | some block =>
    simp [directWeightResolution]
    tauto

theorem revealMatches_iff {submission : ℤ} {observed revealDeadline : Option ℤ} :
    snapshot.revealMatches submission observed revealDeadline = true ↔
      ∃ reveal ∈ snapshot.reveals, reveal.validatorHotkey = snapshot.validatorHotkey ∧
        reveal.netuid = snapshot.netuid ∧ observed.getD submission ≤ reveal.revealBlock ∧
        ∀ deadline ∈ revealDeadline, reveal.revealBlock ≤ deadline := by
  simp [revealMatches, Option.all_eq_true]

/-- A decision through CR4 confirms a matching vector that was revealed. -/
theorem cr4WeightResolution_confirm {submission period : ℤ}
    {deadline revealDeadline revealRound observed observedLastUpdate : Option ℤ}
    {commitmentHash : Option String} {vectorMatches complete : Bool}
    (confirms : (snapshot.cr4WeightResolution submission period deadline revealDeadline margin
      commitmentHash revealRound observed observedLastUpdate vectorMatches complete).confirm =
        true) : vectorMatches = true ∧
      snapshot.revealMatches submission observed revealDeadline = true := by
  simp only [cr4WeightResolution] at confirms
  split at confirms
  · cases confirms
  · split at confirms
    · next both => exact ⟨both.2, both.1⟩
    · split at confirms
      · cases confirms
      · split at confirms <;> cases confirms

/-- Only evidence that the chain holds the batch makes a decision confirm it. -/
theorem confirms_of_weightResolution {id : ℕ} {decision : WeightResolutionDecision}
    (valid : snapshot.validateWeightChainSnapshot = .ok ())
    (decided : snapshot.weightResolution digest margin batch (ledger.expectedWeightTargets id) =
      .ok decision)
    (confirms : decision.confirm = true) : Confirms digest ledger id batch snapshot margin := by
  obtain ⟨hotkeyUids, weightUids⟩ := validateWeightChainSnapshot_eq_ok valid
  rw [weightResolution] at decided
  split at decided
  · cases decided
    cases confirms
  next identity =>
  have identity : batch.chainIdentity = some snapshot.chainIdentity ∧
      batch.netuid = some snapshot.netuid ∧ batch.validatorUid = some snapshot.validatorUid ∧
      batch.validatorHotkey = some snapshot.validatorHotkey := by
    simpa [identityMatches] using identity
  split at decided
  swap
  · cases decided
    cases confirms
  next submission baseline submitted based =>
  split at decided
  · cases decided
    cases confirms
  -- What a matching vector and hash say, whatever the mode.
  have persisted (both : (snapshot.vectorMatches (ledger.expectedWeightTargets id) &&
      snapshot.intentMatches digest (ledger.expectedWeightTargets id)
        (batch.intentHash.getD "None")) = true)
      (included : Included batch snapshot margin) :
      Confirms digest ledger id batch snapshot margin := by
    rw [Bool.and_eq_true, vectorMatches_iff Ledger.expectedWeightTargets_nodup
      Ledger.expectedWeightTargets_sorted, intentMatches_iff] at both
    obtain ⟨⟨perm, named⟩, version, current, recorded, same⟩ := both
    refine ⟨identity.1, identity.2.1, identity.2.2.1, identity.2.2.2, weightUids,
      fun uid weight => ?_, fun uid row held weighs => ?_, ⟨version, current, ?_⟩, included⟩
    · rw [perm.mem_iff, List.mem_map]
      constructor
      · rintro ⟨target, member, same⟩
        cases same
        obtain ⟨row, held, -, weighs⟩ := Ledger.mem_expectedWeightTargets.mp member
        exact ⟨row, held, weighs⟩
      · rintro ⟨row, held, weighs⟩
        exact ⟨⟨uid, row.minerHotkey, weight⟩,
          Ledger.mem_expectedWeightTargets.mpr ⟨row, held, rfl, weighs⟩, rfl⟩
    · obtain ⟨weight, weighs⟩ := Option.isSome_iff_exists.mp weighs
      have := named ⟨uid, row.minerHotkey, weight⟩
        (Ledger.mem_expectedWeightTargets.mpr ⟨row, held, rfl, weighs⟩)
      exact (Dict.get?_ofEntries_of_nodup hotkeyUids).mp this
    · cases stored : batch.intentHash with
      | none =>
        rw [stored, Option.getD_none, recordedProtocolVersion_missing] at recorded
        cases recorded
      | some hash =>
        rw [stored, Option.getD_some] at same
        rw [same]
  simp only at decided
  split at decided
  · next direct =>
    cases decided
    obtain ⟨matching, above, later, deadline, bound, inside⟩ :=
      directWeightResolution_confirm.mp confirms
    refine persisted matching ?_
    rw [Included, direct]
    exact ⟨submission, baseline, deadline, submitted, based, bound, above, later, inside⟩
  · next indirect =>
    split at decided
    · cases decided
    · cases decided
      obtain ⟨matching, revealed⟩ := cr4WeightResolution_confirm confirms
      refine persisted matching ?_
      rw [Included]
      split
      · next direct => exact absurd direct indirect
      · exact ⟨submission, submitted, revealMatches_iff.mp revealed⟩

end WeightEmissionChainSnapshot

/-- A recorded batch is not confirmed. -/
theorem WeightEmission.Accepted.unconfirmed {emission : WeightEmission}
    (accepted : emission.Accepted digest) :
    emission.batch.confirmationState ≠ some .confirmed := by
  have transport := accepted.transport
  rw [WeightEmission.validateTransport] at transport
  obtain ⟨_, state, -⟩ := bind_eq_ok.mp transport
  exact ensure_eq_ok.mp state

/-- A transition leaves a batch submitted, ambiguous or failed. -/
theorem AttemptTransition.state_cases {transition : AttemptTransition}
    (valid : transition.validate = .ok ()) : transition.confirmationState = .submitted ∨
      transition.confirmationState = .ambiguous ∨ transition.confirmationState = .failed := by
  rw [AttemptTransition.validate] at valid
  obtain ⟨_, state, -⟩ := bind_eq_ok.mp valid
  exact ensure_eq_ok.mp state

/-- An operation confirms one batch, which was open and whose inclusion its snapshot
shows, and marks its rows; or it confirms none and marks none. -/
theorem Effect.confirmed_cases {operation : LedgerOperation} {later : Ledger}
    (effect : Effect digest ledger operation later) :
    ((∀ id, later.isConfirmed id = ledger.isConfirmed id) ∧
      ∀ key row, later.rows.get? key = some row →
        (row.emitted = true ↔ ∃ prior, ledger.rows.get? key = some prior ∧ prior.emitted = true)) ∨
    ∃ id batch schemaId snapshot margin confirmedAt,
      operation = .resolve schemaId snapshot margin confirmedAt ∧
      ledger.batches.get? id = some batch ∧ batch.schemaId = schemaId ∧ batch.isOpen = true ∧
      Confirms digest ledger id batch snapshot margin ∧
      later.batches = ledger.batches.set id (confirmedAs confirmedAt batch) ∧
      later.rows = (ledger.markEmitted id).rows := by
  -- Storing a batch that is not confirmed where none was confirms none.
  have same {id : ℕ} {old : Option Batch} {new : Batch} (held : ledger.batches.get? id = old)
      (wasNot : ∀ batch ∈ old, batch.confirmationState ≠ some .confirmed)
      (isNot : new.confirmationState ≠ some .confirmed) (other : ℕ) :
      ((ledger.batches.set id new).get? other).any (·.confirmationState = some .confirmed) =
        (ledger.batches.get? other).any (·.confirmationState = some .confirmed) := by
    rw [Dict.get?_set]
    split
    · next here =>
      rw [here, held]
      cases old with
      | none => simp [isNot]
      | some batch => simp [isNot, wasNot batch rfl]
    · rfl
  have kept (key : ℕ × ℤ) (row : EmissionRow) (held : ledger.rows.get? key = some row) :
      row.emitted = true ↔ ∃ prior, ledger.rows.get? key = some prior ∧ prior.emitted = true := by
    simp [held]
  have openNot {batch : Batch} (isOpen : batch.isOpen = true) :
      batch.confirmationState ≠ some .confirmed := by
    intro confirmed
    rw [Batch.isOpen, confirmed] at isOpen
    cases isOpen
  cases effect with
  | unchanged => exact .inl ⟨fun _ => rfl, kept⟩
  | inserted accepted batches nodup rows =>
    refine .inl ⟨fun other => ?_, fun key row held => ?_⟩
    · rw [Ledger.isConfirmed, batches]
      exact same Ledger.get?_nextId (by simp) accepted.unconfirmed other
    · rcases (rows key row).mp held with held | ⟨here, given, -, -, rfl⟩
      · exact kept key row held
      · have absent : ledger.rows.get? key = none := by
          rw [show key = (ledger.nextId, key.2) from Prod.ext here rfl]
          exact Ledger.get?_rows_nextId key.2
        simp [absent, WeightEmissionRow.stored]
  | moved admits valid found prepared =>
    refine .inl ⟨same found (fun other member confirmed => ?_) ?_, kept⟩
    · cases member
      rw [prepared] at confirmed
      cases confirmed
    · rcases AttemptTransition.state_cases valid with state | state | state <;>
        simp [AttemptTransition.change, state]
  | resolved valid found schema isOpen decided outcome =>
    cases outcome with
    | kept => exact .inl ⟨fun _ => rfl, kept⟩
    | observed admits =>
      exact .inl ⟨same found (by simpa using openNot isOpen) (openNot isOpen), kept⟩
    | confirmed admits unseen confirms =>
      exact .inr ⟨_, _, _, _, _, _, rfl, found, schema, isOpen,
        WeightEmissionChainSnapshot.confirms_of_weightResolution valid decided confirms, rfl, rfl⟩
    | unconfirmed admits =>
      exact .inl ⟨same found (by simpa using openNot isOpen) (by simp [unconfirmedAs]), kept⟩
  | scanned admits found isOpen =>
    exact .inl ⟨same found (by simpa using openNot isOpen) (openNot isOpen), kept⟩

/-- Whatever the transactions before and after an operation, at most one batch of a schema
is open, terminal batches are never changed again, and a batch becomes confirmed, and its
weighted rows emitted, only by a resolution whose snapshot shows the chain to hold it. -/
theorem weight_confirmation_ledger (digest : Digest) (initial : Ledger)
    (past : List LedgerOperation) (operation : LedgerOperation) (rest : List LedgerOperation) :
    let before := run (perform digest) initial past
    let after := perform digest operation before
    (∀ schemaId, (after.openBatches schemaId).length ≤ 1) ∧
    (∀ id batch, after.batches.get? id = some batch →
      batch.confirmationState = some .confirmed ∨ batch.confirmationState = some .unconfirmed ∨
        batch.confirmationState = some .failed →
      (run (perform digest) after rest).batches.get? id = some batch) ∧
    (∀ id, after.isConfirmed id = true → before.isConfirmed id = false →
      ∃ batch schemaId snapshot margin confirmedAt,
        operation = .resolve schemaId snapshot margin confirmedAt ∧
        before.batches.get? id = some batch ∧ batch.schemaId = schemaId ∧ batch.isOpen = true ∧
        Confirms digest before id batch snapshot margin) ∧
    ∀ id uid row, after.rows.get? (id, uid) = some row →
      (row.emitted = true ↔
        (∃ prior, before.rows.get? (id, uid) = some prior ∧ prior.emitted = true) ∨
          row.weightU16.isSome = true ∧ after.isConfirmed id = true ∧
            before.isConfirmed id = false) := by
  intro before after
  refine ⟨fun schemaId => ?_, fun id batch found ended => ?_, fun id isConfirmed wasNot => ?_,
    fun id uid row held => ?_⟩
  · rcases after.openBatches_cases schemaId with none | ⟨id, batch, one⟩
    · simp [none]
    · simp [one]
  · refine run_get?_of_closed rest found ?_
    rcases ended with state | state | state <;> rw [Batch.isOpen, state] <;> rfl
  -- an operation that confirms a batch is a resolution of an open one
  · rcases (effect_perform digest before operation).confirmed_cases with
      ⟨same, -⟩ | ⟨other, batch, schemaId, snapshot, margin, confirmedAt, made, found, schema,
        isOpen, confirms, batches, -⟩
    · rw [same, wasNot] at isConfirmed
      cases isConfirmed
    · rw [Ledger.isConfirmed, batches, Dict.get?_set] at isConfirmed
      split at isConfirmed
      · next here =>
        subst here
        exact ⟨batch, schemaId, snapshot, margin, confirmedAt, made, found, schema, isOpen, confirms⟩
      · rw [Ledger.isConfirmed] at wasNot
        rw [wasNot] at isConfirmed
        cases isConfirmed
  · rcases (effect_perform digest before operation).confirmed_cases with
      ⟨same, kept⟩ | ⟨other, batch, schemaId, snapshot, margin, confirmedAt, made, found, schema,
        isOpen, confirms, batches, rows⟩
    · rw [kept _ row held, same]
      simp
    · have wasNot : before.isConfirmed other = false := by
        rw [Ledger.isConfirmed, found]
        by_contra confirmed
        simp only [Option.any_some, decide_eq_true_eq, Bool.not_eq_false] at confirmed
        rw [Batch.isOpen, confirmed] at isOpen
        cases isOpen
      have isConfirmed (which : ℕ) : after.isConfirmed which =
          if which = other then true else before.isConfirmed which := by
        rw [Ledger.isConfirmed, batches, Dict.get?_set]
        split
        · rfl
        · rfl
      rw [rows, Ledger.get?_markEmitted] at held
      obtain ⟨prior, listed, rfl⟩ := Option.map_eq_some_iff.mp held
      rw [isConfirmed, listed]
      by_cases here : id = other
      · subst here
        by_cases weighs : prior.weightU16.isSome = true
        · simp [weighs, wasNot]
        · simp [weighs]
      · simp [here]

/-- A direct attempt is prepared, submitted, and confirmed by the vector on chain. -/
example :
    let digest : Digest := fun _ _ => "0000000000000000000000000000000000000000000000000000000000000000"
    let emission : WeightEmission :=
      { schemaId := "v1", status := .error, rows := [⟨"miner", 3, some 65535, false, false⟩]
        submissionBlock := some 100, confirmationState := some .prepared
        confirmationDeadlineBlock := some 240, baselineLastUpdateBlock := some 90
        periodBlocks := some 128, chainIdentity := some "chain", netuid := some 5
        validatorUid := some 7, validatorHotkey := some "validator", submissionMode := some .direct
        intentHash := some (weightIntentHash digest ⟨"chain", 5, 7, "validator", []⟩
          (some currentVersionKey))
        protocolVersionKey := some currentVersionKey }
    let snapshot : WeightEmissionChainSnapshot :=
      ⟨"chain", 5, 7, "validator", 130, 110, [(3, 65535)], [], [], [(3, "miner")], true⟩
    (run (perform digest) Ledger.empty [.record emission,
      .transition ⟨1, .submitted, .submitted, .direct, none, none, none, none⟩,
      .resolve "v1" snapshot 12 "now"]).isConfirmed 1 = true := by
  decide +kernel

end Endure.Emission
