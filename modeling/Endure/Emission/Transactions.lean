import Endure.Emission.Ledger

/-!
# Writing the emission ledger

`record_weight_emission` with its validation, `transition_weight_emission_attempt`, and the
window and cursor of the reveal scan, from `endure/storage/repository.py`.
-/

namespace Endure.Emission

open Library Library.Checked

/-- The words the database stores. -/
def EmissionStatus.text : EmissionStatus → String
  | submitted => "submitted"
  | failed => "failed"
  | error => "error"

def ConfirmationState.text : ConfirmationState → String
  | prepared => "prepared"
  | submitted => "submitted"
  | ambiguous => "ambiguous"
  | confirmed => "confirmed"
  | unconfirmed => "unconfirmed"
  | failed => "failed"

/-- One hotkey's audit row for one attempt. -/
structure WeightEmissionRow where
  minerHotkey : String
  uid : ℤ
  weightU16 : Option ℤ
  emitted : Bool
  confirmed : Bool
  deriving DecidableEq

/-- The targets of the rows that carry a weight. -/
def rowTargets (rows : List WeightEmissionRow) : List WeightTarget :=
  rows.filterMap fun row => row.weightU16.map (⟨row.uid, row.minerHotkey, ·⟩)

/-- The arguments of `record_weight_emission`. -/
structure WeightEmission where
  schemaId : String
  status : EmissionStatus
  rows : List WeightEmissionRow
  submissionBlock : Option ℤ := none
  confirmationState : Option ConfirmationState := none
  confirmationDeadlineBlock : Option ℤ := none
  cr4RevealDeadlineBlock : Option ℤ := none
  baselineLastUpdateBlock : Option ℤ := none
  periodBlocks : Option ℤ := none
  confirmedAt : Option String := none
  chainIdentity : Option String := none
  netuid : Option ℤ := none
  validatorUid : Option ℤ := none
  validatorHotkey : Option String := none
  submissionMode : Option SubmissionMode := none
  intentHash : Option String := none
  protocolVersionKey : Option ℤ := none
  commitmentHash : Option String := none
  revealRound : Option ℤ := none
  commitmentObservedBlock : Option ℤ := none

namespace WeightEmission

variable (emission : WeightEmission)

/-- The numbers that must not be negative, by name. -/
def nonNegative : List (String × Option ℤ) :=
  [("submission_block", emission.submissionBlock),
    ("baseline_last_update_block", emission.baselineLastUpdateBlock),
    ("confirmation_deadline_block", emission.confirmationDeadlineBlock),
    ("cr4_reveal_deadline_block", emission.cr4RevealDeadlineBlock),
    ("netuid", emission.netuid), ("validator_uid", emission.validatorUid),
    ("reveal_round", emission.revealRound),
    ("commitment_observed_block", emission.commitmentObservedBlock)]

/-- The bounds of the numbers and the order of the blocks. -/
def validateNumbers : Except LedgerError Unit := do
  match emission.nonNegative.find? fun entry => entry.2.any (· < 0) with
  | some (name, _) => .error (.value (name ++ " must be non-negative"))
  | none => pure ()
  ensure (∀ period ∈ emission.periodBlocks, 0 < period)
    (.value "period_blocks must be positive")
  ensure (∀ submission ∈ emission.submissionBlock, ∀ baseline ∈ emission.baselineLastUpdateBlock,
      baseline ≤ submission)
    (.value "submission block precedes baseline last update")
  ensure (∀ deadline ∈ emission.confirmationDeadlineBlock,
      ∀ submission ∈ emission.submissionBlock, ∀ period ∈ emission.periodBlocks,
        submission + period ≤ deadline)
    (.value "confirmation deadline precedes submission mortality")
  ensure (∀ deadline ∈ emission.confirmationDeadlineBlock,
      ∀ submission ∈ emission.submissionBlock, ∀ period ∈ emission.periodBlocks,
        deadline ≤ submission + 2 * period)
    (.value "confirmation deadline is unbounded")
  ensure (∀ reveal ∈ emission.cr4RevealDeadlineBlock,
      ∀ deadline ∈ emission.confirmationDeadlineBlock, deadline ≤ reveal)
    (.value "CR4 reveal deadline precedes inclusion deadline")

/-- The transport status agrees with the confirmation state, which is never confirmed. -/
def validateTransport : Except LedgerError Unit := do
  let state := emission.confirmationState
  let mismatch := "confirmation state '" ++ (state.map ConfirmationState.text).getD "None" ++
    "' does not match transport status '" ++ emission.status.text ++ "'"
  ensure (state ≠ some .confirmed)
    (.value "confirmed emissions may only be created by resolution")
  ensure (¬((state = some .prepared ∨ state = some .ambiguous) ∧ emission.status ≠ .error ∨
      state = some .submitted ∧ emission.status ≠ .submitted)) (.value mismatch)
  ensure (state = some .failed → emission.status = .failed ∨ emission.status = .error)
    (.value mismatch)
  ensure (emission.confirmedAt = none) (.value "confirmed_at may only be set by resolution")

/-- The emission is stored open. -/
def isOpen : Bool := emission.confirmationState.any ConfirmationState.isOpen

/-- The payload of the stored vector, when every evidence field is there. -/
def payload : Option (IntentPayload × String) :=
  match emission.chainIdentity, emission.netuid, emission.validatorUid,
    emission.validatorHotkey, emission.submissionMode, emission.intentHash with
  | some chainIdentity, some netuid, some validatorUid, some validatorHotkey, some _,
      some intentHash =>
    some ({ chainIdentity, netuid, validatorUid, validatorHotkey,
            targets := rowTargets emission.rows }, intentHash)
  | _, _, _, _, _, _ => none

/-- The intent hash is of the current key, or legacy and not open, and matches the
vector. -/
def validateIntent (digest : Digest) (payload : IntentPayload) (intentHash : String) :
    Except LedgerError Unit := do
  match recordedProtocolVersion intentHash with
  | none => .error (.value "weight intent hash has invalid versioned format")
  | some recorded =>
    ensure (∀ version ∈ recorded, version = currentVersionKey ∧
        emission.protocolVersionKey = some (currentVersionKey : ℤ))
      (.value "versioned weight intent does not use the current protocol key")
    ensure (recorded = none → emission.isOpen = false ∧ emission.protocolVersionKey = none)
      (.value "legacy weight intent cannot create an open emission or declare a key")
    ensure (intentHash = weightIntentHash digest payload recorded)
      (.value "weight intent hash does not match persisted vector")

/-- The evidence of an emission is complete and consistent. -/
def validateEvidence (digest : Digest) : Except LedgerError Unit := do
  ensure (emission.isOpen = true → emission.submissionBlock.isSome ∧
      emission.baselineLastUpdateBlock.isSome ∧ emission.periodBlocks.isSome ∧
      emission.confirmationDeadlineBlock.isSome ∧ emission.payload.isSome)
    (.value ("open confirmation requires submission, confirmation deadline, " ++
      "identity, intent, and period"))
  ensure (emission.commitmentHash.isNone = emission.revealRound.isNone)
    (.value "CR4 commitment hash and reveal round must be set together")
  ensure (emission.commitmentHash.isSome → emission.submissionMode = some .cr4)
    (.value "CR4 commitment metadata requires CR4 submission mode")
  ensure (¬emission.rows.any fun row => row.emitted ∨ row.confirmed)
    (.value "new weight rows cannot be pre-confirmed or emitted")
  match emission.payload with
  | none => pure ()
  | some (payload, intentHash) => emission.validateIntent digest payload intentHash

/-- The batch an emission is stored as. -/
def batch : Batch where
  schemaId := emission.schemaId
  status := emission.status
  submissionBlock := emission.submissionBlock
  confirmationState := emission.confirmationState
  confirmedAt := emission.confirmedAt
  confirmationDeadlineBlock := emission.confirmationDeadlineBlock
  cr4RevealDeadlineBlock := emission.cr4RevealDeadlineBlock
  revealScanCursorBlock := none
  baselineLastUpdateBlock := emission.baselineLastUpdateBlock
  periodBlocks := emission.periodBlocks
  chainIdentity := emission.chainIdentity
  netuid := emission.netuid
  validatorUid := emission.validatorUid
  validatorHotkey := emission.validatorHotkey
  submissionMode := emission.submissionMode
  intentHash := emission.intentHash
  commitmentHash := emission.commitmentHash
  revealRound := emission.revealRound
  commitmentObservedBlock := emission.commitmentObservedBlock
  commitmentObservedLastUpdateBlock := none

end WeightEmission

/-- The arguments of `transition_weight_emission_attempt`. -/
structure AttemptTransition where
  batchId : ℕ
  status : EmissionStatus
  confirmationState : ConfirmationState
  submissionMode : SubmissionMode
  commitmentHash : Option String
  revealRound : Option ℤ
  confirmationDeadlineBlock : Option ℤ
  cr4RevealDeadlineBlock : Option ℤ := none

namespace AttemptTransition

variable (transition : AttemptTransition)

/-- The outcome is one a prepared attempt can have. -/
def validate : Except LedgerError Unit := do
  let state := transition.confirmationState
  let mismatch := "confirmation state '" ++ state.text ++ "' does not match transport status '" ++
    transition.status.text ++ "'"
  ensure (state = .submitted ∨ state = .ambiguous ∨ state = .failed)
    (.value ("invalid prepared emission transition '" ++ state.text ++ "'"))
  ensure (¬(state = .submitted ∧ transition.status ≠ .submitted ∨
      state = .ambiguous ∧ transition.status ≠ .error)) (.value mismatch)
  ensure (state = .failed → transition.status = .failed ∨ transition.status = .error)
    (.value mismatch)
  ensure (transition.commitmentHash.isNone = transition.revealRound.isNone)
    (.value "CR4 commitment hash and reveal round must be set together")
  ensure (transition.commitmentHash.isSome → transition.submissionMode = .cr4)
    (.value "CR4 commitment metadata requires CR4 submission mode")
  ensure (transition.cr4RevealDeadlineBlock.isSome → transition.submissionMode = .cr4)
    (.value "CR4 reveal deadline requires CR4 submission mode")

/-- The deadline a transition leaves; SQL's `max` with a missing value is missing. -/
def confirmationDeadline (stored : Option ℤ) : Option ℤ :=
  match transition.confirmationDeadlineBlock with
  | none => stored
  | some deadline => stored.map (max · deadline)

/-- The reveal deadline a transition leaves. -/
def revealDeadline (stored : Option ℤ) : Option ℤ :=
  match transition.cr4RevealDeadlineBlock with
  | none => stored
  | some deadline => some (max (stored.getD deadline) deadline)

/-- The batch a transition leaves. -/
def change (batch : Batch) : Batch :=
  { batch with
    status := transition.status
    confirmationState := some transition.confirmationState
    submissionMode := some transition.submissionMode
    commitmentHash := transition.commitmentHash
    revealRound := transition.revealRound
    confirmationDeadlineBlock := transition.confirmationDeadline batch.confirmationDeadlineBlock
    cr4RevealDeadlineBlock := transition.revealDeadline batch.cr4RevealDeadlineBlock }

end AttemptTransition

/-- How many blocks one window of the reveal scan spans. -/
def cr4RevealScanBatchBlocks : ℤ := 32

/-- One bounded, unscanned window of reveal evidence. -/
structure Cr4RevealScanWindow where
  batchId : ℕ
  startBlock : ℤ
  endBlock : ℤ
  complete : Bool
  deriving DecidableEq

namespace Ledger

variable (ledger : Ledger)

/-- Insert a batch with its rows in one transaction. -/
def recordWeightEmission (digest : Digest) (emission : WeightEmission) :
    Except LedgerError (ℕ × Ledger) := do
  ensure (emission.cr4RevealDeadlineBlock.isSome → emission.submissionMode = some .cr4)
    (.value "CR4 reveal deadline requires CR4 submission mode")
  emission.validateTransport
  emission.validateNumbers
  emission.validateEvidence digest
  let inserted ← ledger.write ledger.nextId emission.batch
  let filled ← emission.rows.foldlM (fun current row =>
    current.insertRow ledger.nextId row.uid row.minerHotkey row.weightU16) inserted
  pure (ledger.nextId, filled)

/-- Move one durable prepared attempt on after its sole SDK call. -/
def transitionWeightEmissionAttempt (transition : AttemptTransition) :
    Except LedgerError Ledger := do
  transition.validate
  let updated ← ledger.updateWhere transition.batchId
    (fun batch => batch.confirmationState = some .prepared) transition.change
  match updated with
  | some later => pure later
  | none => .error (.runtime ("prepared weight emission " ++ toString transition.batchId ++
      " was not transitionable"))

/-- The window to scan next for the schema's open CR4 batch with a reveal deadline. -/
def cr4RevealScanWindow (schemaId : String) (finalizedBlock : ℤ) :
    Option Cr4RevealScanWindow :=
  match (ledger.openBatches schemaId).filter fun entry =>
      entry.2.submissionMode = some .cr4 ∧ entry.2.cr4RevealDeadlineBlock.isSome with
  | [(id, batch)] =>
    match batch.submissionBlock, batch.cr4RevealDeadlineBlock with
    | some submission, some revealDeadline =>
      let startBlock := max submission ((batch.revealScanCursorBlock.map (· + 1)).getD submission)
      let endBlock := min (min finalizedBlock revealDeadline)
        (startBlock + cr4RevealScanBatchBlocks - 1)
      if endBlock < startBlock then none
      else some ⟨id, startBlock, endBlock, revealDeadline ≤ endBlock⟩
    | _, _ => none
  | _ => none

/-- The batch with its cursor moved on. -/
def scannedThrough (block : ℤ) (batch : Batch) : Batch :=
  { batch with
    revealScanCursorBlock := some (max (batch.revealScanCursorBlock.getD block) block) }

/-- Move the cursor of an open batch on after a window has been scanned. -/
def advanceCr4RevealScanCursor (batchId : ℕ) (through : ℤ) : Except LedgerError Ledger :=
  (ledger.updateWhere batchId (·.isOpen) (scannedThrough through)).map (·.getD ledger)

end Ledger

theorem mem_rowTargets {rows : List WeightEmissionRow} {target : WeightTarget} :
    target ∈ rowTargets rows ↔ ∃ row ∈ rows, row.uid = target.uid ∧
      row.minerHotkey = target.hotkey ∧ row.weightU16 = some target.weight := by
  obtain ⟨uid, hotkey, weight⟩ := target
  simp only [rowTargets, List.mem_filterMap, Option.map_eq_some_iff, WeightTarget.mk.injEq]
  constructor
  · rintro ⟨row, member, _, weighs, rfl, rfl, rfl⟩
    exact ⟨row, member, rfl, rfl, weighs⟩
  · rintro ⟨row, member, rfl, rfl, weighs⟩
    exact ⟨row, member, weight, weighs, rfl, rfl, rfl⟩

theorem rowTargets_uid_sublist (rows : List WeightEmissionRow) :
    ((rowTargets rows).map WeightTarget.uid).Sublist (rows.map WeightEmissionRow.uid) := by
  induction rows with
  | nil => exact List.Sublist.refl _
  | cons row rest ih =>
    rw [List.map_cons, rowTargets, List.filterMap_cons]
    split
    · exact ih.cons _
    · next target made =>
      obtain ⟨weight, -, rfl⟩ := Option.map_eq_some_iff.mp made
      exact ih.cons_cons _

/-- The row a batch stores for an audit row. -/
def WeightEmissionRow.stored (row : WeightEmissionRow) : EmissionRow :=
  ⟨row.minerHotkey, row.weightU16, false⟩

/-- What the call checks before it opens its transaction. -/
structure WeightEmission.Accepted (emission : WeightEmission) (digest : Digest) : Prop where
  revealMode : emission.cr4RevealDeadlineBlock.isSome = true → emission.submissionMode = some .cr4
  transport : emission.validateTransport = .ok ()
  numbers : emission.validateNumbers = .ok ()
  evidence : emission.validateEvidence digest = .ok ()

namespace WeightEmission

variable {emission : WeightEmission} {digest : Digest} {payload : IntentPayload} {stored : String}

/-- A payload is made of the evidence fields and the weighted rows. -/
theorem payload_eq_some : emission.payload = some (payload, stored) →
    emission.chainIdentity = some payload.chainIdentity ∧ emission.netuid = some payload.netuid ∧
      emission.validatorUid = some payload.validatorUid ∧
      emission.validatorHotkey = some payload.validatorHotkey ∧
      emission.intentHash = some stored ∧ payload.targets = rowTargets emission.rows := by
  intro made
  rw [WeightEmission.payload] at made
  split at made
  · next chainIdentity netuid validatorUid validatorHotkey _ _ identified networked numbered named _
      hashed =>
    cases made
    exact ⟨identified, networked, numbered, named, hashed, rfl⟩
  · cases made

/-- An accepted open emission carries the current hash of its rows. -/
theorem Accepted.intent (accepted : emission.Accepted digest) (isOpen : emission.isOpen = true) :
    ∃ payload stored, emission.payload = some (payload, stored) ∧
      recordedProtocolVersion stored = some (some currentVersionKey) ∧
      stored = weightIntentHash digest payload (some currentVersionKey) := by
  have evidence := accepted.evidence
  rw [validateEvidence] at evidence
  obtain ⟨_, complete, evidence⟩ := bind_eq_ok.mp evidence
  obtain ⟨_, -, evidence⟩ := bind_eq_ok.mp evidence
  obtain ⟨_, -, evidence⟩ := bind_eq_ok.mp evidence
  obtain ⟨_, -, evidence⟩ := bind_eq_ok.mp evidence
  obtain ⟨⟨payload, stored⟩, made⟩ :=
    Option.isSome_iff_exists.mp (ensure_eq_ok.mp complete isOpen).2.2.2.2
  rw [made] at evidence
  simp only [validateIntent] at evidence
  split at evidence
  · cases evidence
  next recorded known =>
  obtain ⟨_, versioned, evidence⟩ := bind_eq_ok.mp evidence
  obtain ⟨_, legacy, evidence⟩ := bind_eq_ok.mp evidence
  cases recorded with
  | none =>
    have closed := (ensure_eq_ok.mp legacy rfl).1
    rw [isOpen] at closed
    cases closed
  | some version =>
    obtain ⟨rfl, -⟩ := ensure_eq_ok.mp versioned version rfl
    exact ⟨payload, stored, made, known, ensure_eq_ok.mp evidence⟩

end WeightEmission

namespace Ledger

variable {ledger : Ledger}

/-- Inserting rows leaves the batches and adds the rows, whose UIDs are distinct. -/
theorem insertRows_eq_ok {id : ℕ} {rows : List WeightEmissionRow} {later : Ledger}
    (done : rows.foldlM (fun current row =>
      current.insertRow id row.uid row.minerHotkey row.weightU16) ledger = .ok later) :
    later.batches = ledger.batches ∧ (rows.map WeightEmissionRow.uid).Nodup ∧
      (∀ row ∈ rows, ledger.rows.get? (id, row.uid) = none) ∧
      ∀ key held, later.rows.get? key = some held ↔ ledger.rows.get? key = some held ∨
        key.1 = id ∧ ∃ row ∈ rows, row.uid = key.2 ∧ row.stored = held := by
  induction rows generalizing ledger with
  | nil =>
    cases done
    simp
  | cons row rest ih =>
    rw [List.foldlM_cons] at done
    obtain ⟨first, inserted, done⟩ := bind_eq_ok.mp done
    obtain ⟨batches, nodup, absent, stored⟩ := ih done
    rw [insertRow] at inserted
    split at inserted
    · cases inserted
    · next missing =>
      split at inserted
      · cases inserted
        -- an insert over a row of the same key fails the transaction
        have fresh : ledger.rows.get? (id, row.uid) = none := by
          rw [Dict.get?_eq_none_iff]
          exact fun member => missing (Dict.contains_iff.mpr member)
        refine ⟨batches, ?_, ?_, fun key held => ?_⟩
        · refine List.nodup_cons.mpr ⟨fun repeated => ?_, nodup⟩
          obtain ⟨other, member, same⟩ := List.mem_map.mp repeated
          have := absent other member
          rw [Dict.get?_set, if_pos (by rw [same])] at this
          cases this
        · intro other member
          rcases List.mem_cons.mp member with rfl | later
          · exact fresh
          · have := absent other later
            rw [Dict.get?_set] at this
            split at this
            · cases this
            · exact this
        · rw [stored, Dict.get?_set]
          by_cases here : key = (id, row.uid)
          · subst here
            rw [if_pos rfl, fresh]
            simp only [Option.some.injEq, List.mem_cons, exists_eq_or_imp, true_and, reduceCtorEq,
              false_or]
            exact or_congr Iff.rfl Iff.rfl
          · have other : ¬(key.1 = id ∧ row.uid = key.2) := fun ⟨same, uid⟩ =>
              here (Prod.ext same uid.symm)
            rw [if_neg here]
            simp only [List.mem_cons, exists_eq_or_imp]
            constructor
            · rintro (held | ⟨same, later⟩)
              · exact .inl held
              · exact .inr ⟨same, .inr later⟩
            · rintro (held | ⟨same, ⟨uid, -⟩ | later⟩)
              · exact .inl held
              · exact absurd ⟨same, uid⟩ other
              · exact .inr ⟨same, later⟩
      · cases inserted

/-- Recording stores an accepted emission under a new id, with its rows. -/
theorem recordWeightEmission_eq_ok {digest : Digest} {emission : WeightEmission} {id : ℕ}
    {later : Ledger} (done : ledger.recordWeightEmission digest emission = .ok (id, later)) :
    id = ledger.nextId ∧ emission.Accepted digest ∧ ledger.Admits id emission.batch ∧
      later.batches = ledger.batches.set id emission.batch ∧
      (emission.rows.map WeightEmissionRow.uid).Nodup ∧
      ∀ key held, later.rows.get? key = some held ↔ ledger.rows.get? key = some held ∨
        key.1 = id ∧ ∃ row ∈ emission.rows, row.uid = key.2 ∧ row.stored = held := by
  rw [recordWeightEmission] at done
  obtain ⟨_, revealMode, done⟩ := bind_eq_ok.mp done
  obtain ⟨_, transport, done⟩ := bind_eq_ok.mp done
  obtain ⟨_, numbers, done⟩ := bind_eq_ok.mp done
  obtain ⟨_, evidence, done⟩ := bind_eq_ok.mp done
  obtain ⟨inserted, written, done⟩ := bind_eq_ok.mp done
  obtain ⟨filled, rows, done⟩ := bind_eq_ok.mp done
  cases done
  obtain ⟨admits, rfl⟩ := write_eq_ok.mp written
  obtain ⟨batches, nodup, -, stored⟩ := insertRows_eq_ok rows
  exact ⟨rfl, ⟨ensure_eq_ok.mp revealMode, transport, numbers, evidence⟩, admits, batches, nodup,
    stored⟩

/-- A row whose UID is new to a stored batch is inserted. -/
theorem exists_insertRow {id : ℕ} {uid : ℤ} (minerHotkey : String) (weightU16 : Option ℤ)
    (stored : (ledger.batches.get? id).isSome = true)
    (fresh : ledger.rows.get? (id, uid) = none) : ∃ later,
      ledger.insertRow id uid minerHotkey weightU16 = .ok later ∧
        later.batches = ledger.batches ∧
        later.rows = ledger.rows.set (id, uid) ⟨minerHotkey, weightU16, false⟩ := by
  rw [insertRow, if_neg (fun present => ?_), dif_pos stored]
  · exact ⟨_, rfl, rfl, rfl⟩
  · exact Dict.get?_eq_none_iff.mp fresh (Dict.contains_iff.mp present)

/-- Rows with distinct UIDs that are new to a stored batch are inserted. -/
theorem exists_insertRows {id : ℕ} {rows : List WeightEmissionRow}
    (stored : (ledger.batches.get? id).isSome = true)
    (nodup : (rows.map WeightEmissionRow.uid).Nodup)
    (fresh : ∀ row ∈ rows, ledger.rows.get? (id, row.uid) = none) :
    ∃ later, rows.foldlM (fun current row =>
      current.insertRow id row.uid row.minerHotkey row.weightU16) ledger = .ok later := by
  induction rows generalizing ledger with
  | nil => exact ⟨ledger, rfl⟩
  | cons row rest ih =>
    obtain ⟨first, inserted, batches, held⟩ :=
      exists_insertRow row.minerHotkey row.weightU16 stored (fresh row List.mem_cons_self)
    rw [List.map_cons, List.nodup_cons] at nodup
    obtain ⟨later, done⟩ := ih (by rw [batches]; exact stored) nodup.2 fun other member => by
      have away : (id, other.uid) ≠ (id, row.uid) := fun same =>
        nodup.1 (List.mem_map.mpr ⟨other, member, (Prod.mk.inj same).2⟩)
      rw [held, Dict.get?_set, if_neg away]
      exact fresh other (List.mem_cons_of_mem _ member)
    exact ⟨later, by rw [List.foldlM_cons, inserted]; exact done⟩

/-- An accepted emission that passes the checks of the table is stored when its schema has no
open batch. -/
theorem exists_recordWeightEmission {digest : Digest} {emission : WeightEmission}
    (accepted : emission.Accepted digest) (checked : emission.batch.Checked)
    (alone : ledger.openBatches emission.schemaId = [])
    (nodup : (emission.rows.map WeightEmissionRow.uid).Nodup) :
    ∃ later, ledger.recordWeightEmission digest emission = .ok (ledger.nextId, later) := by
  have admits : ledger.Admits ledger.nextId emission.batch := by
    refine ⟨checked, fun _ entry member isOpen schema => ?_⟩
    have listed : entry ∈ ledger.openBatches emission.schemaId :=
      mem_openBatches.mpr ⟨Dict.get?_eq_some_iff.mpr member, schema, isOpen⟩
    rw [alone] at listed
    cases listed
  have written := write_eq_ok.mpr ⟨admits, rfl⟩
  obtain ⟨filled, rows⟩ := exists_insertRows
    (show ((ledger.put ledger.nextId emission.batch admits).batches.get? ledger.nextId).isSome =
      true by rw [batches_put, Dict.get?_set, if_pos rfl]; rfl)
    nodup fun row _ => get?_rows_nextId row.uid
  refine ⟨filled, ?_⟩
  rw [recordWeightEmission]
  refine bind_eq_ok.mpr ⟨(), ensure_eq_ok.mpr accepted.revealMode, ?_⟩
  refine bind_eq_ok.mpr ⟨(), accepted.transport, ?_⟩
  refine bind_eq_ok.mpr ⟨(), accepted.numbers, ?_⟩
  refine bind_eq_ok.mpr ⟨(), accepted.evidence, ?_⟩
  refine bind_eq_ok.mpr ⟨_, written, ?_⟩
  exact bind_eq_ok.mpr ⟨filled, rows, rfl⟩

/-- A transition moves one prepared batch. -/
theorem transitionWeightEmissionAttempt_eq_ok {transition : AttemptTransition} {later : Ledger}
    (done : ledger.transitionWeightEmissionAttempt transition = .ok later) :
    transition.validate = .ok () ∧ ∃ batch admits,
      ledger.batches.get? transition.batchId = some batch ∧
        batch.confirmationState = some .prepared ∧
        later = ledger.put transition.batchId (transition.change batch) admits := by
  rw [transitionWeightEmissionAttempt] at done
  obtain ⟨_, valid, done⟩ := bind_eq_ok.mp done
  obtain ⟨updated, changed, done⟩ := bind_eq_ok.mp done
  refine ⟨valid, ?_⟩
  rcases updateWhere_cases changed with ⟨rfl, -⟩ | ⟨batch, admits, found, prepared, rfl⟩
  · cases done
  · cases done
    exact ⟨batch, admits, found, of_decide_eq_true prepared, rfl⟩

/-- Moving the cursor changes one open batch at most. -/
theorem advanceCr4RevealScanCursor_eq_ok {batchId : ℕ} {through : ℤ} {later : Ledger}
    (done : ledger.advanceCr4RevealScanCursor batchId through = .ok later) :
    (later = ledger ∧ ∀ batch, ledger.batches.get? batchId = some batch → batch.isOpen = false) ∨
    ∃ batch admits, ledger.batches.get? batchId = some batch ∧ batch.isOpen = true ∧
      later = ledger.put batchId (scannedThrough through batch) admits := by
  rw [advanceCr4RevealScanCursor] at done
  obtain ⟨updated, changed, rfl⟩ := map_eq_ok.mp done
  rcases updateWhere_cases changed with ⟨rfl, closed⟩ | ⟨batch, admits, found, isOpen, rfl⟩
  · exact .inl ⟨rfl, closed⟩
  · exact .inr ⟨batch, admits, found, isOpen, rfl⟩

end Ledger

end Endure.Emission
