import Endure.Emission.Intents
import Endure.Library.Checked
import Endure.Library.Dict

/-!
# The emission ledger

The batches and rows of `endure/storage/tables.py` with the constraints the database
checks, and the transactions of `endure/storage/repository.py` that insert a batch, move a
prepared one on, and keep the cursor of the reveal scan. A ledger that breaks a constraint
cannot be built; a transaction that would break one rolls back.
-/

namespace Endure.Emission

open Library Library.Checked

/-- What became of the transport. -/
inductive EmissionStatus
  | submitted
  | failed
  | error
  deriving DecidableEq

/-- What the chain is known to have made of a batch. -/
inductive ConfirmationState
  | prepared
  | submitted
  | ambiguous
  | confirmed
  | unconfirmed
  | failed
  deriving DecidableEq

/-- The states that still await a decision. -/
def ConfirmationState.isOpen : ConfirmationState → Bool
  | prepared | submitted | ambiguous => true
  | confirmed | unconfirmed | failed => false

/-- How weights are submitted. -/
inductive SubmissionMode
  | direct
  | cr4
  deriving DecidableEq

/-- A row of `weight_emission_batches`. -/
structure Batch where
  schemaId : String
  status : EmissionStatus
  submissionBlock : Option ℤ
  confirmationState : Option ConfirmationState
  confirmedAt : Option String
  confirmationDeadlineBlock : Option ℤ
  cr4RevealDeadlineBlock : Option ℤ
  revealScanCursorBlock : Option ℤ
  baselineLastUpdateBlock : Option ℤ
  periodBlocks : Option ℤ
  chainIdentity : Option String
  netuid : Option ℤ
  validatorUid : Option ℤ
  validatorHotkey : Option String
  submissionMode : Option SubmissionMode
  intentHash : Option String
  commitmentHash : Option String
  revealRound : Option ℤ
  commitmentObservedBlock : Option ℤ
  commitmentObservedLastUpdateBlock : Option ℤ
  deriving DecidableEq

/-- A row of `weight_emission_rows` under its batch and UID. -/
structure EmissionRow where
  minerHotkey : String
  weightU16 : Option ℤ
  emitted : Bool
  deriving DecidableEq

namespace Batch

variable (batch : Batch)

/-- The batch still awaits a decision. -/
def isOpen : Bool := batch.confirmationState.any ConfirmationState.isOpen

/-- The fields a resolution reads are there. -/
def HasIdentity : Prop :=
  batch.submissionBlock.isSome ∧ batch.baselineLastUpdateBlock.isSome ∧
    batch.periodBlocks.isSome ∧ batch.chainIdentity.isSome ∧ batch.netuid.isSome ∧
    batch.validatorUid.isSome ∧ batch.validatorHotkey.isSome ∧ batch.submissionMode.isSome ∧
    batch.intentHash.isSome

/-- The deadline lies between one and two periods after the submission. -/
def SafeDeadline : Prop :=
  ∀ deadline ∈ batch.confirmationDeadlineBlock, ∀ submission ∈ batch.submissionBlock,
    ∀ period ∈ batch.periodBlocks,
      submission + period ≤ deadline ∧ deadline ≤ submission + 2 * period

/-- The check constraints of the table; a comparison with a missing value passes. -/
structure Checked : Prop where
  submissionBlock : ∀ block ∈ batch.submissionBlock, 0 ≤ block
  baselineBlock : ∀ block ∈ batch.baselineLastUpdateBlock, 0 ≤ block
  periodBlocks : ∀ period ∈ batch.periodBlocks, 0 < period
  deadlineBlock : ∀ block ∈ batch.confirmationDeadlineBlock, 0 ≤ block
  netuid : ∀ netuid ∈ batch.netuid, 0 ≤ netuid
  validatorUid : ∀ uid ∈ batch.validatorUid, 0 ≤ uid
  revealRound : ∀ round ∈ batch.revealRound, 0 ≤ round
  commitmentObservedBlock : ∀ block ∈ batch.commitmentObservedBlock, 0 ≤ block
  commitmentObservedLastUpdateBlock :
    ∀ block ∈ batch.commitmentObservedLastUpdateBlock, 0 ≤ block
  openFields : batch.isOpen = true →
    batch.HasIdentity ∧ batch.confirmationDeadlineBlock.isSome = true
  resolutionFields : batch.confirmationState = some .confirmed ∨
    batch.confirmationState = some .unconfirmed → batch.HasIdentity
  cr4Metadata : batch.commitmentHash = none ∧ batch.revealRound = none ∨
    batch.submissionMode ≠ some .direct ∧ batch.commitmentHash.isSome = true ∧
      batch.revealRound.isSome = true
  safeDeadline : batch.SafeDeadline
  submissionAfterBaseline : ∀ submission ∈ batch.submissionBlock,
    ∀ baseline ∈ batch.baselineLastUpdateBlock, baseline ≤ submission
  statusState :
    (batch.confirmationState = some .prepared ∨ batch.confirmationState = some .ambiguous →
      batch.status = .error) ∧
    (batch.confirmationState = some .submitted → batch.status = .submitted) ∧
    (batch.confirmationState = some .failed → batch.status = .failed ∨ batch.status = .error)
  confirmedAt : batch.confirmedAt.isSome = true ↔ batch.confirmationState = some .confirmed

instance : Decidable batch.HasIdentity := by unfold HasIdentity; infer_instance

instance : Decidable batch.SafeDeadline := by unfold SafeDeadline; infer_instance

instance : Decidable batch.Checked :=
  decidable_of_iff
    (((∀ block ∈ batch.submissionBlock, 0 ≤ block) ∧
      (∀ block ∈ batch.baselineLastUpdateBlock, 0 ≤ block) ∧
      (∀ period ∈ batch.periodBlocks, 0 < period) ∧
      (∀ block ∈ batch.confirmationDeadlineBlock, 0 ≤ block) ∧
      (∀ netuid ∈ batch.netuid, 0 ≤ netuid) ∧ (∀ uid ∈ batch.validatorUid, 0 ≤ uid) ∧
      (∀ round ∈ batch.revealRound, 0 ≤ round) ∧
      (∀ block ∈ batch.commitmentObservedBlock, 0 ≤ block) ∧
      (∀ block ∈ batch.commitmentObservedLastUpdateBlock, 0 ≤ block)) ∧
    (batch.isOpen = true →
      batch.HasIdentity ∧ batch.confirmationDeadlineBlock.isSome = true) ∧
    (batch.confirmationState = some .confirmed ∨
      batch.confirmationState = some .unconfirmed → batch.HasIdentity) ∧
    (batch.commitmentHash = none ∧ batch.revealRound = none ∨
      batch.submissionMode ≠ some .direct ∧ batch.commitmentHash.isSome = true ∧
        batch.revealRound.isSome = true) ∧
    batch.SafeDeadline ∧
    (∀ submission ∈ batch.submissionBlock, ∀ baseline ∈ batch.baselineLastUpdateBlock,
      baseline ≤ submission) ∧
    ((batch.confirmationState = some .prepared ∨ batch.confirmationState = some .ambiguous →
        batch.status = .error) ∧
      (batch.confirmationState = some .submitted → batch.status = .submitted) ∧
      (batch.confirmationState = some .failed →
        batch.status = .failed ∨ batch.status = .error)) ∧
    (batch.confirmedAt.isSome = true ↔ batch.confirmationState = some .confirmed))
    ⟨fun ⟨⟨a, b, c, d, e, f, g, h, i⟩, j, k, l, m, n, o, p⟩ =>
        ⟨a, b, c, d, e, f, g, h, i, j, k, l, m, n, o, p⟩,
      fun ⟨a, b, c, d, e, f, g, h, i, j, k, l, m, n, o, p⟩ =>
        ⟨⟨a, b, c, d, e, f, g, h, i⟩, j, k, l, m, n, o, p⟩⟩

end Batch

/-- Why a call raises. -/
inductive LedgerError
  | value (message : String)
  | type (message : String)
  | runtime (message : String)
  | index (message : String)
  | integrity
  deriving DecidableEq

/-- The tables of the ledger: every batch passes its checks, at most one batch of a
schema is open, every row belongs to a batch, and only rows with a weight are emitted. -/
structure Ledger where
  batches : Dict ℕ Batch
  rows : Dict (ℕ × ℤ) EmissionRow
  checked : ∀ id batch, batches.get? id = some batch → batch.Checked
  openUnique : ∀ id id' batch batch', batches.get? id = some batch →
    batches.get? id' = some batch' → batch.isOpen = true → batch'.isOpen = true →
    batch.schemaId = batch'.schemaId → id = id'
  owned : ∀ key row, rows.get? key = some row → (batches.get? key.1).isSome = true
  emittedWeight : ∀ key row, rows.get? key = some row → row.emitted = true →
    row.weightU16.isSome = true

namespace Ledger

/-- The ledger without batches. -/
def empty : Ledger where
  batches := Dict.empty
  rows := Dict.empty
  checked id batch found := by
    rw [Dict.get?_empty] at found
    cases found
  openUnique id id' batch batch' found := by
    rw [Dict.get?_empty] at found
    cases found
  owned key row found := by
    rw [Dict.get?_empty] at found
    cases found
  emittedWeight key row found := by
    rw [Dict.get?_empty] at found
    cases found

variable (ledger : Ledger)

/-- A batch may be stored under an id: it passes its checks, and no other batch of its
schema is open when it is. -/
def Admits (id : ℕ) (batch : Batch) : Prop :=
  batch.Checked ∧ (batch.isOpen = true → ∀ entry ∈ ledger.batches.entries,
    entry.2.isOpen = true → entry.2.schemaId = batch.schemaId → entry.1 = id)

instance (id : ℕ) (batch : Batch) : Decidable (ledger.Admits id batch) := by
  unfold Admits
  infer_instance

/-- Store an admitted batch. -/
def put (id : ℕ) (batch : Batch) (admits : ledger.Admits id batch) : Ledger where
  batches := ledger.batches.set id batch
  rows := ledger.rows
  checked other found := by
    intro held
    rw [Dict.get?_set] at held
    split at held
    · cases held
      exact admits.1
    · exact ledger.checked other found held
  openUnique other other' found found' held held' isOpen isOpen' same := by
    rw [Dict.get?_set] at held held'
    split at held
    · next here =>
      split at held'
      · next here' => rw [here, here']
      · cases held
        exact here.trans (admits.2 isOpen _ (Dict.get?_eq_some_iff.mp held') isOpen' same.symm).symm
    · split at held'
      · next here' =>
        cases held'
        exact (admits.2 isOpen' _ (Dict.get?_eq_some_iff.mp held) isOpen same).trans here'.symm
      · exact ledger.openUnique other other' found found' held held' isOpen isOpen' same
  owned key row held := by
    rw [Dict.get?_set]
    split
    · rfl
    · exact ledger.owned key row held
  emittedWeight := ledger.emittedWeight

/-- Store a batch, or roll back when a constraint fails. -/
def write (id : ℕ) (batch : Batch) : Except LedgerError Ledger :=
  if admits : ledger.Admits id batch then .ok (ledger.put id batch admits) else .error .integrity

/-- Change the batch under an id where a condition holds; `none` when no row is hit. -/
def updateWhere (id : ℕ) (condition : Batch → Bool) (change : Batch → Batch) :
    Except LedgerError (Option Ledger) :=
  match ledger.batches.get? id with
  | none => .ok none
  | some batch =>
    -- no constraint is checked where no row is hit
    if condition batch then (ledger.write id (change batch)).map some else .ok none

/-- The id a new batch gets. -/
def nextId : ℕ := ledger.batches.keys.foldr max 0 + 1

/-- Insert one row of a batch; its UID must be new to the batch. -/
def insertRow (id : ℕ) (uid : ℤ) (minerHotkey : String) (weightU16 : Option ℤ) :
    Except LedgerError Ledger :=
  if ledger.rows.contains (id, uid) then .error .integrity
  else if stored : (ledger.batches.get? id).isSome = true then .ok { ledger with
    rows := ledger.rows.set (id, uid) ⟨minerHotkey, weightU16, false⟩
    owned := by
      intro key row held
      rw [Dict.get?_set] at held
      split at held
      · next here => exact here ▸ stored
      · exact ledger.owned key row held
    emittedWeight := by
      intro key row held emitted
      rw [Dict.get?_set] at held
      split at held
      · cases held
        cases emitted
      · exact ledger.emittedWeight key row held emitted }
  else .error .integrity

/-- Mark the rows of a batch that carry a weight as emitted. -/
def markEmitted (id : ℕ) : Ledger :=
  { ledger with
    rows := ledger.rows.map fun key row =>
      if key.1 = id ∧ row.weightU16.isSome then { row with emitted := true } else row
    owned := by
      intro key row held
      rw [Dict.get?_map] at held
      obtain ⟨old, found, -⟩ := Option.map_eq_some_iff.mp held
      exact ledger.owned key old found
    emittedWeight := by
      intro key row held emitted
      rw [Dict.get?_map] at held
      obtain ⟨old, found, rfl⟩ := Option.map_eq_some_iff.mp held
      by_cases both : key.1 = id ∧ old.weightU16.isSome = true
      · rw [if_pos both]
        exact both.2
      · rw [if_neg both] at emitted ⊢
        exact ledger.emittedWeight key old found emitted }

/-- The open batches of a schema, with their ids. -/
def openBatches (schemaId : String) : List (ℕ × Batch) :=
  ledger.batches.entries.filter fun entry => entry.2.schemaId = schemaId ∧ entry.2.isOpen

/-- Whether a submitted batch still needs an inclusion decision. -/
def hasOpenWeightEmissionConfirmation (schemaId : String) : Bool :=
  ¬(ledger.openBatches schemaId).isEmpty

variable {ledger} {id : ℕ} {batch : Batch}

@[simp] theorem batches_put (admits : ledger.Admits id batch) :
    (ledger.put id batch admits).batches = ledger.batches.set id batch := rfl

@[simp] theorem rows_put (admits : ledger.Admits id batch) :
    (ledger.put id batch admits).rows = ledger.rows := rfl

@[simp] theorem batches_markEmitted : (ledger.markEmitted id).batches = ledger.batches := rfl

theorem get?_markEmitted (key : ℕ × ℤ) : (ledger.markEmitted id).rows.get? key =
    (ledger.rows.get? key).map fun row =>
      if key.1 = id ∧ row.weightU16.isSome then { row with emitted := true } else row :=
  Dict.get?_map ..

theorem write_eq_ok {later : Ledger} :
    ledger.write id batch = .ok later ↔ ∃ admits, later = ledger.put id batch admits := by
  by_cases admits : ledger.Admits id batch
  · rw [write, dif_pos admits, Except.ok.injEq]
    exact ⟨fun same => ⟨admits, same.symm⟩, fun ⟨_, same⟩ => same.symm⟩
  · rw [write, dif_neg admits]
    exact ⟨nofun, fun ⟨admitted, _⟩ => absurd admitted admits⟩

/-- An update changes nothing, or the one batch it is about. -/
theorem updateWhere_cases {condition : Batch → Bool} {change : Batch → Batch}
    {result : Option Ledger} (done : ledger.updateWhere id condition change = .ok result) :
    (result = none ∧ ∀ batch, ledger.batches.get? id = some batch → condition batch = false) ∨
    ∃ batch admits, ledger.batches.get? id = some batch ∧ condition batch = true ∧
      result = some (ledger.put id (change batch) admits) := by
  rw [updateWhere] at done
  split at done
  · next absent =>
    cases done
    exact .inl ⟨rfl, fun batch found => by rw [absent] at found; cases found⟩
  · next batch found =>
    split at done
    · next holds =>
      obtain ⟨later, written, rfl⟩ := map_eq_ok.mp done
      obtain ⟨admits, rfl⟩ := write_eq_ok.mp written
      exact .inr ⟨batch, admits, found, holds, rfl⟩
    · next fails =>
      cases done
      refine .inl ⟨rfl, fun other here => ?_⟩
      obtain rfl := Option.some.inj (found.symm.trans here)
      simpa using fails

theorem mem_openBatches {schemaId : String} : (id, batch) ∈ ledger.openBatches schemaId ↔
    ledger.batches.get? id = some batch ∧ batch.schemaId = schemaId ∧ batch.isOpen = true := by
  rw [openBatches, List.mem_filter, ← Dict.get?_eq_some_iff, decide_eq_true_eq]

/-- A schema has no open batch, or one. -/
theorem openBatches_cases (ledger : Ledger) (schemaId : String) : ledger.openBatches schemaId = [] ∨
    ∃ id batch, ledger.openBatches schemaId = [(id, batch)] := by
  have nodup : (ledger.openBatches schemaId).Nodup :=
    (List.Nodup.of_map _ ledger.batches.nodup).filter _
  match listed : ledger.openBatches schemaId with
  | [] => exact .inl rfl
  | [(id, batch)] => exact .inr ⟨id, batch, rfl⟩
  | (id, batch) :: (id', batch') :: rest =>
    -- Two open batches would share their id, and so be the same entry.
    rw [listed] at nodup
    obtain ⟨found, schema, isOpen⟩ := mem_openBatches.mp
      (show (id, batch) ∈ ledger.openBatches schemaId by simp [listed])
    obtain ⟨found', schema', isOpen'⟩ := mem_openBatches.mp
      (show (id', batch') ∈ ledger.openBatches schemaId by simp [listed])
    obtain rfl := ledger.openUnique id id' batch batch' found found' isOpen isOpen'
      (schema.trans schema'.symm)
    obtain rfl := Option.some.inj (found.symm.trans found')
    simp at nodup

theorem get?_nextId : ledger.batches.get? ledger.nextId = none := by
  rw [Dict.get?_eq_none_iff]
  intro member
  have below : ∀ (ids : List ℕ), ∀ id ∈ ids, id ≤ ids.foldr max 0 := by
    intro ids
    induction ids with
    | nil => simp
    | cons first rest ih =>
      intro id inside
      rcases List.mem_cons.mp inside with rfl | later
      · exact le_max_left _ _
      · exact (ih id later).trans (le_max_right _ _)
  have := below _ _ member
  simp only [nextId] at this
  omega

/-- A stored batch has another id than the next one. -/
theorem ne_nextId {id : ℕ} {batch : Batch} (found : ledger.batches.get? id = some batch) :
    id ≠ ledger.nextId := by
  rintro rfl
  rw [get?_nextId] at found
  cases found

/-- A batch not yet stored has no rows. -/
theorem get?_rows_nextId (uid : ℤ) : ledger.rows.get? (ledger.nextId, uid) = none := by
  match held : ledger.rows.get? (ledger.nextId, uid) with
  | none => rfl
  | some row =>
    have stored := ledger.owned _ _ held
    rw [get?_nextId] at stored
    cases stored

end Ledger

end Endure.Emission
