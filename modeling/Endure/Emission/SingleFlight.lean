import Endure.Emission.Attempts
import Endure.Emission.LedgerRuns

/-!
# Single flight across crashes

The emission path of the live validator in `neurons/validator.py` and
`endure/base/validator.py`: the readiness check with its startup fence, the prepared batch,
the SDK call, and the transition after it. The process may end between any two durable
writes and start again on what is stored.
-/

namespace Endure.Emission

open Library Library.Checked Library.Transitions Scoring

/-- How the recheck before the submission ends. -/
inductive Recheck
  | passes
  | blocks
  | raises

/-- What one run of the emitter is given, and what it reads. -/
structure EmissionReads where
  weights : List ℚ
  groups : List (List ℕ)
  metagraph : Metagraph
  limits : Option (ℕ × ℚ)
  intent : Option IntentReads
  recheck : Recheck

/-- What the emitter has to store before the SDK call. -/
inductive Preparation
  | nothing
  | failed (emission : WeightEmission)
  | attempt (attempt : WeightEmissionAttempt)

/-- The emitter up to the prepared hook's write. -/
def emitWeightCandidate (validator : ValidatorIdentity) (digest : Digest) (reads : EmissionReads) :
    Preparation :=
  let hotkeys := reads.metagraph.hotkeys
  match emissionCandidate reads.weights with
  | none => .nothing
  | some rawWeights =>
    let vector := reads.limits.bind fun (minAllowedWeights, maxWeightLimit) =>
      (chainWeightVector rawWeights (List.range hotkeys.length) hotkeys.length minAllowedWeights
        maxWeightLimit reads.groups).toOption
    match vector with
    | none => .failed ((abandonedAttempt hotkeys none).abandoned validator.schemaId)
    | some vector =>
      match reads.intent.bind fun intentReads =>
          (validator.prepareWeightIntent reads.metagraph digest intentReads vector.uintUids
            vector.uintWeights).toOption with
      | none => .failed ((abandonedAttempt hotkeys (some vector)).abandoned validator.schemaId)
      | some intent =>
        match reads.recheck with
        | .passes => .attempt (preparedAttempt hotkeys vector intent)
        | .blocks => .failed ((preparedAttempt hotkeys vector intent).refused validator.schemaId)
        | .raises => .nothing

/-- Where the run loop stands. -/
inductive Stage
  | idle
  | ready
  | prepared (batchId : ℕ) (attempt : WeightEmissionAttempt)
  | invoked (batchId : ℕ) (attempt : WeightEmissionAttempt)

/-- What the process holds in memory. -/
structure Process where
  startupFenceBlock : Option ℤ
  stage : Stage

/-- A call of `set_weights` with the batch that was prepared for it. -/
structure Invocation where
  batchId : ℕ
  uids : List ℕ
  weights : List ℤ

/-- What is stored, the process if it runs, and what has been called and observed. -/
structure World where
  ledger : Ledger
  startupFences : Dict (String × ℕ) ℤ
  process : Option Process
  invocations : List Invocation
  observedHeads : List ℕ

/-- The world before the first start on a ledger. -/
def World.initial (ledger : Ledger) : World := ⟨ledger, Dict.empty, none, [], []⟩

/-- What the readiness check reads: the chain head, whether commit-reveal is on, and the epoch
state; each may fail. -/
structure ReadinessReads where
  head : Option ℕ
  commitRevealEnabled : Option Bool
  epoch : Option EpochReads

/-- What can happen. A write that fails leaves what is stored as it was, and the emitter runs
with the UID that the last resync found. -/
inductive Event
  | start
  | crash
  | checkReady (reads : ReadinessReads) (stored : Bool)
  | emit (uid : ℕ) (reads : EmissionReads) (stored : Bool)
  | setWeights
  | answer (outcome : SdkOutcome) (reads : RefreshReads) (stored : Bool)
  | resolve (snapshot : WeightEmissionChainSnapshot) (confirmedAt : String)
  | advance (batchId : ℕ) (scannedThrough : ℤ)

/-- The fence that a first check draws from the head. -/
def ReadinessReads.startupFence (reads : ReadinessReads) (head : ℕ) : Option ℤ :=
  match reads.commitRevealEnabled with
  | none => none
  | some true => reads.epoch.bind fun epoch => epoch.cr4RevealDeadlineAt.toOption
  | some false => some (head + weightEmissionPeriodBlocks + weightEmissionFinalityMarginBlocks)

namespace World

variable (world : World)

/-- The world with a head observed. -/
def observe : Option ℕ → World
  | none => world
  | some head => { world with observedHeads := head :: world.observedHeads }

/-- The world with the process at a stage. -/
def goTo (process : Process) (stage : Stage) : World :=
  { world with process := some { process with stage } }

def weightEmissionStartupFence (schemaId : String) (protocolVersionKey : ℕ) : Option ℤ :=
  world.startupFences.get? (schemaId, protocolVersionKey)

/-- Write the fence of a schema and key unless it is there; the table holds no negative
block. -/
def recordWeightEmissionStartupFence (schemaId : String) (protocolVersionKey : ℕ)
    (fenceBlock : ℤ) : Option World :=
  if fenceBlock < 0 then none
  else some { world with
    startupFences :=
      world.startupFences.insertIfAbsent (schemaId, protocolVersionKey) fenceBlock }

/-- The readiness check: a first one writes the fence, later ones wait for a head above it and
for the schema to have no open batch. -/
def weightEmissionReady (validator : ValidatorIdentity) (process : Process)
    (reads : ReadinessReads) (stored : Bool) : World :=
  let observed := world.observe reads.head
  match process.startupFenceBlock with
  | none =>
    match reads.head.bind reads.startupFence with
    | none => observed
    | some fence =>
      match observed.recordWeightEmissionStartupFence validator.schemaId currentVersionKey fence,
        stored with
      | some fenced, true =>
        { fenced with process := some { process with startupFenceBlock := some fence } }
      | _, _ => observed
  | some fence =>
    -- a restart waits until the head has passed its fence
    if 0 < fence ∧ ¬reads.head.any (fun head : ℕ => fence < head) then observed
    else if world.ledger.hasOpenWeightEmissionConfirmation validator.schemaId then observed
    else observed.goTo process .ready

/-- Store an emission; the world stays as it is when the call raises. -/
def record (digest : Digest) (emission : WeightEmission) (stored : Bool) : World :=
  if stored then { world with ledger := perform digest (.record emission) world.ledger } else world

/-- Store what the emitter prepared. The process goes on to the SDK call only with the id of a
batch. -/
def prepare (validator : ValidatorIdentity) (digest : Digest) (process : Process)
    (reads : EmissionReads) (stored : Bool) : World :=
  match emitWeightCandidate validator digest reads with
  | .nothing => world.goTo process .idle
  | .failed emission => (world.record digest emission stored).goTo process .idle
  | .attempt attempt =>
    match world.ledger.recordWeightEmission digest (attempt.prepared validator.schemaId), stored with
    | .ok (batchId, ledger), true =>
      { world with ledger }.goTo process (.prepared batchId attempt)
    | _, _ => world.goTo process .idle

/-- The transition of the prepared batch after the call. -/
def complete (digest : Digest) (process : Process) (batchId : ℕ) (attempt : WeightEmissionAttempt)
    (outcome : SdkOutcome) (reads : RefreshReads) (stored : Bool) : World :=
  match attempt.completion batchId reads outcome, stored with
  | some transition, true =>
    { world with ledger := perform digest (.transition transition) world.ledger }.goTo process .idle
  -- the write failed or there is nothing to write: the batch stays as prepared
  | _, _ => world.goTo process .idle

end World

/-- What an event makes of the world; an event that cannot happen changes nothing. -/
def step (validator : ValidatorIdentity) (digest : Digest) (event : Event) (world : World) :
    World :=
  match event, world.process with
  | .start, none =>
    let startupFenceBlock := world.weightEmissionStartupFence validator.schemaId currentVersionKey
    { world with process := some { startupFenceBlock, stage := .idle } }
  | .crash, some _ => { world with process := none }
  | event, some process =>
    match event, process.stage with
    | .checkReady reads stored, .idle => world.weightEmissionReady validator process reads stored
    | .emit uid reads stored, .ready =>
      world.prepare { validator with uid } digest process reads stored
    -- the call is counted before anybody knows how it ends
    | .setWeights, .prepared batchId attempt =>
      let invocation := ⟨batchId, attempt.uintUids, attempt.uintWeights⟩
      { world with invocations := world.invocations ++ [invocation] }.goTo process
        (.invoked batchId attempt)
    | .answer outcome reads stored, .invoked batchId attempt =>
      world.complete digest process batchId attempt outcome reads stored
    | .resolve snapshot confirmedAt, .idle =>
      let resolution := .resolve validator.schemaId snapshot weightEmissionFinalityMarginBlocks
        confirmedAt
      { world with ledger := perform digest resolution world.ledger }.goTo process .idle
    | .advance batchId scannedThrough, .idle =>
      let scan := .advance batchId scannedThrough
      { world with ledger := perform digest scan world.ledger }.goTo process .idle
    | _, _ => world
  | _, none => world

/-! ### The invariant -/

/-- The batch of an invocation is stored as prepared, and its rows carry exactly the
vector. -/
def Ledger.Prepared (ledger : Ledger) (invocation : Invocation) : Prop :=
  (∃ batch, ledger.batches.get? invocation.batchId = some batch ∧
    batch.confirmationState = some .prepared) ∧
  ∀ uid weight, (∃ row, ledger.rows.get? (invocation.batchId, uid) = some row ∧
      row.weightU16 = some weight) ↔
    ∃ sent : ℕ, uid = sent ∧ (sent, weight) ∈ invocation.uids.zip invocation.weights

/-- A head above the stored fence of the schema and key has been observed. -/
def World.Cleared (world : World) (validator : ValidatorIdentity) : Prop :=
  ∃ fence, world.weightEmissionStartupFence validator.schemaId currentVersionKey = some fence ∧
    ∃ head ∈ world.observedHeads, fence < head

/-- A batch with a state is stored under an id in the validator's schema. -/
def Ledger.Recorded (ledger : Ledger) (validator : ValidatorIdentity) (id : ℕ) : Prop :=
  ∃ batch, ledger.batches.get? id = some batch ∧ batch.schemaId = validator.schemaId ∧
    batch.confirmationState.isSome = true

/-- What holds of the world whatever has happened: the process knows the stored fence, it is
past the readiness check only above it, and when a batch is prepared, those of all earlier
calls are settled. -/
structure World.Consistent (validator : ValidatorIdentity) (world : World) : Prop where
  positive : ∀ fence,
    world.weightEmissionStartupFence validator.schemaId currentVersionKey = some fence → 0 < fence
  cached : ∀ process, world.process = some process → process.startupFenceBlock =
    world.weightEmissionStartupFence validator.schemaId currentVersionKey
  recorded : ∀ invocation ∈ world.invocations, world.ledger.Recorded validator invocation.batchId
  cleared : ∀ process, world.process = some process → process.stage ≠ .idle →
    world.Cleared validator
  prepared : ∀ process batchId attempt, world.process = some process →
    process.stage = .prepared batchId attempt →
    world.ledger.Recorded validator batchId ∧
    world.ledger.Prepared ⟨batchId, attempt.uintUids, attempt.uintWeights⟩ ∧
      ∀ invocation ∈ world.invocations, world.ledger.Settled invocation.batchId

variable {validator : ValidatorIdentity} {digest : Digest} {world : World}

theorem World.initial_consistent (ledger : Ledger) : (World.initial ledger).Consistent validator where
  positive _ found := by cases found
  cached _ running := by cases running
  recorded _ member := absurd member List.not_mem_nil
  cleared _ running := by cases running
  prepared _ _ _ running := by cases running

theorem Ledger.Recorded.perform {ledger : Ledger} {id : ℕ}
    (recorded : ledger.Recorded validator id) (operation : LedgerOperation) :
    (perform digest operation ledger).Recorded validator id := by
  obtain ⟨batch, found, schema, state⟩ := recorded
  obtain ⟨kept, held, same, still⟩ := (effect_perform digest ledger operation).keeps found state
  exact ⟨kept, held, same.trans schema, still⟩

/-- The emitter's attempt carries an encoded vector. -/
theorem emitWeightCandidate_eq_attempt {reads : EmissionReads} {attempt : WeightEmissionAttempt}
    (made : emitWeightCandidate validator digest reads = .attempt attempt) :
    ∃ raw minAllowed limit vector intentReads intent, chainWeightVector raw
        (List.range reads.metagraph.hotkeys.length) reads.metagraph.hotkeys.length minAllowed limit
        reads.groups = .ok vector ∧
      reads.intent = some intentReads ∧
      validator.prepareWeightIntent reads.metagraph digest intentReads vector.uintUids
        vector.uintWeights = .ok intent ∧
      attempt = preparedAttempt reads.metagraph.hotkeys vector intent := by
  simp only [emitWeightCandidate] at made
  split at made
  · cases made
  next raw _ =>
  split at made
  · cases made
  next vector encoded =>
  split at made
  · cases made
  next intent read =>
  split at made
  · cases made
    obtain ⟨⟨minAllowed, limit⟩, -, encoded⟩ := Option.bind_eq_some_iff.mp encoded
    obtain ⟨intentReads, known, prepared⟩ := Option.bind_eq_some_iff.mp read
    exact ⟨raw, minAllowed, limit, vector, intentReads, intent, toOption_eq_some.mp encoded, known,
      toOption_eq_some.mp prepared, rfl⟩
  · cases made
  · cases made

/-- A batch that is recorded for an attempt is prepared with exactly its vector. -/
theorem prepared_of_recordWeightEmission {ledger later : Ledger} {batchId : ℕ}
    {reads : EmissionReads} {attempt : WeightEmissionAttempt} {schemaId : String}
    (made : emitWeightCandidate validator digest reads = .attempt attempt)
    (done : ledger.recordWeightEmission digest (attempt.prepared schemaId) = .ok (batchId, later)) :
    later.Prepared ⟨batchId, attempt.uintUids, attempt.uintWeights⟩ := by
  obtain ⟨raw, minAllowed, limit, vector, intentReads, intent, encoded, -, -, rfl⟩ :=
    emitWeightCandidate_eq_attempt made
  obtain ⟨nodup, sublist, lengths⟩ := chainWeightVector_spec List.nodup_range encoded
  obtain ⟨rfl, -, -, batches, -, rows⟩ := Ledger.recordWeightEmission_eq_ok done
  refine ⟨⟨_, by rw [batches, Dict.get?_set, if_pos rfl], rfl⟩, fun uid weight => ?_⟩
  have sent {hotkey : String} := @WeightEmissionAttempt.mem_emissionRows
    (preparedAttempt reads.metagraph.hotkeys vector intent) (sublist.nodup nodup) lengths
    sublist.subset uid weight hotkey
  constructor
  · rintro ⟨row, held, weighs⟩
    rcases (rows _ row).mp held with old | ⟨-, given, member, here, rfl⟩
    · rw [Ledger.get?_rows_nextId] at old
      cases old
    · obtain ⟨number, same, paired, -⟩ := sent.mp ⟨given, member, here, rfl, weighs⟩
      exact ⟨number, same, paired⟩
  · rintro ⟨number, same, paired⟩
    obtain ⟨given, member, rfl, -, weighs⟩ := sent.mpr ⟨number, same, paired, rfl⟩
    exact ⟨given.stored, (rows _ _).mpr (.inr ⟨rfl, given, member, rfl, rfl⟩), weighs⟩

/-- A new open batch of the validator's schema leaves every earlier one settled. -/
theorem settled_of_recordWeightEmission {ledger later : Ledger} {batchId : ℕ}
    {emission : WeightEmission} (schema : emission.schemaId = validator.schemaId)
    (isOpen : emission.batch.isOpen = true)
    (done : ledger.recordWeightEmission digest emission = .ok (batchId, later)) {id : ℕ}
    (recorded : ledger.Recorded validator id) : later.Settled id := by
  obtain ⟨rfl, -, -, batches, -, -⟩ := Ledger.recordWeightEmission_eq_ok done
  obtain ⟨batch, found, same, state⟩ := recorded
  have other : id ≠ ledger.nextId := Ledger.ne_nextId found
  have held : later.batches.get? id = some batch := by
    rw [batches, Dict.get?_set, if_neg other, found]
  refine Ledger.settled_iff.mpr ⟨batch, held, state, ?_⟩
  by_contra still
  have still : batch.isOpen = true := by simpa using still
  exact other (later.openUnique id ledger.nextId batch emission.batch held
    (by rw [batches, Dict.get?_set, if_pos rfl]) still isOpen (same.trans schema.symm))

namespace World.Consistent

/-- A head observed changes nothing else. -/
theorem observe (consistent : world.Consistent validator) (head : Option ℕ) :
    (world.observe head).Consistent validator := by
  cases head with
  | none => exact consistent
  | some head =>
    refine { consistent with cleared := fun process running moved => ?_ }
    obtain ⟨fence, stored, seen, member, above⟩ := consistent.cleared process running moved
    exact ⟨fence, stored, seen, List.mem_cons_of_mem _ member, above⟩

/-- The process may return to its idle stage, after any transaction of the ledger. -/
theorem perform_idle (consistent : world.Consistent validator) {process : Process}
    (running : world.process = some process) (operation : LedgerOperation) :
    ({ world with ledger := perform digest operation world.ledger }.goTo process
      .idle).Consistent validator where
  positive := consistent.positive
  cached later same := by
    cases same
    exact consistent.cached process running
  recorded invocation member := (consistent.recorded invocation member).perform operation
  cleared later same moved := by
    cases same
    exact absurd rfl moved
  prepared later batchId attempt same stage := by
    cases same
    cases stage

theorem idle (consistent : world.Consistent validator) {process : Process}
    (running : world.process = some process) : (world.goTo process .idle).Consistent validator where
  positive := consistent.positive
  cached later same := by
    cases same
    exact consistent.cached process running
  recorded := consistent.recorded
  cleared later same moved := by
    cases same
    exact absurd rfl moved
  prepared later batchId attempt same stage := by
    cases same
    cases stage

/-- A first fence is positive, whatever the chain reports. -/
theorem startupFence_pos {reads : ReadinessReads} {head : ℕ} {fence : ℤ}
    (drawn : reads.startupFence head = some fence) : 0 < fence := by
  rw [ReadinessReads.startupFence] at drawn
  split at drawn
  · cases drawn
  · obtain ⟨epoch, -, deadline⟩ := Option.bind_eq_some_iff.mp drawn
    cases found : epoch.cr4RevealDeadlineAt with
    | error raised =>
      rw [found] at deadline
      cases deadline
    | ok block =>
      rw [found] at deadline
      cases deadline
      have := Cr4EpochSchedule.lt_cr4RevealDeadlineBlock found
      have := epoch.unsigned
      simp only [weightEmissionFinalityMarginBlocks] at *
      omega
  · cases drawn
    simp only [weightEmissionPeriodBlocks, weightEmissionFinalityMarginBlocks]
    omega

theorem weightEmissionReady (consistent : world.Consistent validator) {process : Process}
    (running : world.process = some process) (waiting : process.stage = .idle)
    (reads : ReadinessReads) (stored : Bool) :
    (world.weightEmissionReady validator process reads stored).Consistent validator := by
  have known := consistent.cached process running
  have observed := consistent.observe reads.head
  have sameFences : (world.observe reads.head).startupFences = world.startupFences := by
    cases reads.head <;> rfl
  rw [World.weightEmissionReady]
  split
  · next unknown =>
    split
    · exact observed
    · next fence drawn =>
      obtain ⟨head, -, drawn⟩ := Option.bind_eq_some_iff.mp drawn
      split
      · next fenced _ written =>
        -- The fence was not there, so it is the one written.
        rw [World.recordWeightEmissionStartupFence] at written
        split at written
        · cases written
        · cases written
          have absent : world.startupFences.get? (validator.schemaId, currentVersionKey) = none :=
            known.symm.trans unknown
          have fences : ((world.observe reads.head).startupFences.insertIfAbsent
              (validator.schemaId, currentVersionKey) fence).get?
                (validator.schemaId, currentVersionKey) = some fence := by
            rw [Dict.get?_insertIfAbsent, if_pos rfl, sameFences, absent]
            rfl
          refine ⟨fun other found => ?_, fun later same => ?_, observed.recorded,
            fun later same moved => ?_, fun later batchId attempt same stage => ?_⟩
          · obtain rfl := Option.some.inj (fences.symm.trans found)
            exact startupFence_pos drawn
          · cases same
            exact fences.symm
          · cases same
            exact absurd waiting moved
          · cases same
            rw [waiting] at stage
            cases stage
      · exact observed
  · next fence cached =>
    split
    · exact observed
    · next below =>
      split
      · exact observed
      · have stored : world.weightEmissionStartupFence validator.schemaId currentVersionKey =
            some fence := known.symm.trans cached
        refine ⟨observed.positive, fun later same => ?_, observed.recorded,
          fun later same moved => ?_, fun later batchId attempt same stage => ?_⟩
        · cases same
          rw [known, World.weightEmissionStartupFence, ← sameFences]
          rfl
        · cases same
          have positive := consistent.positive fence stored
          cases seen : reads.head with
          | none => simp [seen, positive] at below
          | some head =>
            have above : fence < head := by
              by_contra not
              exact below ⟨positive, by simpa [seen] using not⟩
            exact ⟨fence, stored, head, List.mem_cons_self, above⟩
        · cases same
          cases stage

theorem prepare (consistent : world.Consistent validator) {process : Process}
    (running : world.process = some process) (moved : process.stage ≠ .idle) (uid : ℕ)
    (reads : EmissionReads) (stored : Bool) :
    (world.prepare { validator with uid } digest process reads stored).Consistent validator := by
  rw [World.prepare]
  split
  · exact consistent.idle running
  · rw [World.record]
    split
    · exact consistent.perform_idle running _
    · exact consistent.idle running
  · next attempt made =>
    split
    · next batchId ledger done =>
      have schema : (attempt.prepared validator.schemaId).schemaId = validator.schemaId := rfl
      have operation : ledger =
          perform digest (.record (attempt.prepared validator.schemaId)) world.ledger := by
        rw [perform, done]
      refine ⟨consistent.positive, fun later same => ?_, fun invocation member => ?_,
        fun later same _ => ?_, fun later id other same stage => ?_⟩
      · cases same
        exact consistent.cached process running
      · rw [operation]
        exact (consistent.recorded invocation member).perform _
      · cases same
        exact consistent.cleared process running moved
      · cases same
        cases stage
        have prepared := prepared_of_recordWeightEmission made done
        obtain ⟨rfl, -, -, batches, -, -⟩ := Ledger.recordWeightEmission_eq_ok done
        refine ⟨⟨_, by rw [World.goTo, batches, Dict.get?_set, if_pos rfl], rfl, rfl⟩, prepared,
          fun invocation member => ?_⟩
        exact settled_of_recordWeightEmission schema rfl done
          (consistent.recorded invocation member)
    · exact consistent.idle running

theorem complete (consistent : world.Consistent validator) {process : Process}
    (running : world.process = some process) (batchId : ℕ) (attempt : WeightEmissionAttempt)
    (outcome : SdkOutcome) (reads : RefreshReads) (stored : Bool) :
    (world.complete digest process batchId attempt outcome reads stored).Consistent validator := by
  unfold World.complete
  split
  · exact consistent.perform_idle running _
  · exact consistent.idle running

end World.Consistent

/-- Every event keeps the invariant. -/
theorem step_consistent (event : Event) (world : World) (consistent : world.Consistent validator) :
    (step validator digest event world).Consistent validator := by
  unfold step
  cases running : world.process with
  -- without a process only a start changes anything
  | none =>
    cases event with
    | start =>
      refine { consistent with
        cached := fun process same => ?_, cleared := fun process same moved => ?_,
        prepared := fun process batchId attempt same stage => ?_ }
      · cases same
        rfl
      · cases same
        exact absurd rfl moved
      · cases same
        cases stage
    | _ => exact consistent
  | some process =>
    obtain ⟨cachedFence, stage⟩ := process
    cases event with
    | start => exact consistent
    | crash =>
      refine { consistent with
        cached := fun later same => ?_, cleared := fun later same _ => ?_,
        prepared := fun later batchId attempt same _ => ?_ } <;> cases same
    | checkReady reads stored =>
      cases stage with
      | idle => exact consistent.weightEmissionReady running rfl reads stored
      | _ => exact consistent
    | emit uid reads stored =>
      cases stage with
      | ready => exact consistent.prepare running nofun uid reads stored
      | _ => exact consistent
    | setWeights =>
      cases stage with
      | prepared batchId attempt =>
        -- the call carries the vector that was recorded for its batch
        obtain ⟨recorded, -, -⟩ := consistent.prepared _ batchId attempt running rfl
        refine ⟨consistent.positive, fun later same => ?_, fun invocation member => ?_,
          fun later same _ => ?_, fun later id other same moved => ?_⟩
        · cases same
          exact consistent.cached ⟨cachedFence, .prepared batchId attempt⟩ running
        · rcases List.mem_append.mp member with earlier | last
          · exact consistent.recorded invocation earlier
          · cases List.mem_singleton.mp last
            exact recorded
        · cases same
          exact consistent.cleared _ running nofun
        · cases same
          cases moved
      | _ => exact consistent
    | answer outcome reads stored =>
      cases stage with
      | invoked batchId attempt =>
        exact consistent.complete running batchId attempt outcome reads stored
      | _ => exact consistent
    | resolve snapshot confirmedAt =>
      cases stage with
      | idle => exact consistent.perform_idle running _
      | _ => exact consistent
    | advance batchId scannedThrough =>
      cases stage with
      | idle => exact consistent.perform_idle running _
      | _ => exact consistent

namespace World

theorem startupFences_observe (head : Option ℕ) :
    (world.observe head).startupFences = world.startupFences := by
  cases head <;> rfl

theorem startupFences_prepare (process : Process) (reads : EmissionReads) (stored : Bool) :
    (world.prepare validator digest process reads stored).startupFences = world.startupFences := by
  rw [prepare]
  split
  · rfl
  · rw [record]
    split <;> rfl
  · split <;> rfl

theorem startupFences_complete (process : Process) (batchId : ℕ) (attempt : WeightEmissionAttempt)
    (outcome : SdkOutcome) (reads : RefreshReads) (stored : Bool) :
    (world.complete digest process batchId attempt outcome reads stored).startupFences =
      world.startupFences := by
  unfold complete
  split <;> rfl

/-- The readiness check leaves a fence that is stored. -/
theorem startupFence_weightEmissionReady {key : String × ℕ} {fence : ℤ}
    (held : world.startupFences.get? key = some fence) (process : Process)
    (reads : ReadinessReads) (stored : Bool) :
    (world.weightEmissionReady validator process reads stored).startupFences.get? key =
      some fence := by
  have observed : (world.observe reads.head).startupFences.get? key = some fence := by
    rw [startupFences_observe, held]
  rw [weightEmissionReady]
  split
  · split
    · exact observed
    · split
      · next fenced _ written =>
        rw [recordWeightEmissionStartupFence] at written
        split at written
        · cases written
        · cases written
          rw [Dict.get?_insertIfAbsent, observed]
          split <;> rfl
      · exact observed
  · split
    · exact observed
    · split <;> exact observed

end World

/-- What is stored as the fence of a schema and key stays. -/
theorem step_startupFence (event : Event) (world : World) {key : String × ℕ} {fence : ℤ}
    (stored : world.startupFences.get? key = some fence) :
    (step validator digest event world).startupFences.get? key = some fence := by
  unfold step
  cases running : world.process with
  | none => cases event <;> exact stored
  | some process =>
    obtain ⟨cachedFence, stage⟩ := process
    cases event with
    | start => exact stored
    | crash => exact stored
    | checkReady reads durable =>
      cases stage with
      | idle => exact World.startupFence_weightEmissionReady stored _ reads durable
      | _ => exact stored
    | emit uid reads durable =>
      cases stage with
      | ready => exact (congrArg (·.get? key) (World.startupFences_prepare _ reads durable)).trans stored
      | _ => exact stored
    | setWeights => cases stage <;> exact stored
    | answer outcome reads durable =>
      cases stage with
      | invoked batchId attempt =>
        exact (congrArg (·.get? key)
          (World.startupFences_complete _ batchId attempt outcome reads durable)).trans stored
      | _ => exact stored
    | resolve snapshot confirmedAt => cases stage <;> exact stored
    | advance batchId scannedThrough => cases stage <;> exact stored

/-! ### The calls -/

/-- An event calls `set_weights` only from the stage with a prepared batch. -/
theorem step_invocations (validator : ValidatorIdentity) (digest : Digest) (event : Event)
    (world : World) :
    (step validator digest event world).invocations = world.invocations ∨
      ∃ process batchId attempt, world.process = some process ∧
        process.stage = .prepared batchId attempt ∧
        (step validator digest event world).invocations =
          world.invocations ++ [⟨batchId, attempt.uintUids, attempt.uintWeights⟩] := by
  have observed (head : Option ℕ) : (world.observe head).invocations = world.invocations := by
    cases head <;> rfl
  cases running : world.process with
  | none =>
    refine .inl ?_
    unfold step
    rw [running]
    cases event <;> rfl
  | some process =>
    unfold step
    rw [running]
    obtain ⟨cachedFence, stage⟩ := process
    cases event with
    | checkReady reads durable =>
      refine .inl ?_
      cases stage with
      | idle =>
        simp only [World.weightEmissionReady]
        split
        · split
          · exact observed _
          · split
            · next fenced _ written =>
              rw [World.recordWeightEmissionStartupFence] at written
              split at written
              · cases written
              · cases written
                exact observed _
            · exact observed _
        · split
          · exact observed _
          · split <;> exact observed _
      | _ => rfl
    | emit uid reads durable =>
      refine .inl ?_
      cases stage with
      | ready =>
        simp only [World.prepare]
        split
        · rfl
        · rw [World.record]
          split <;> rfl
        · split <;> rfl
      | _ => rfl
    -- the one event that calls the chain
    | setWeights =>
      cases stage with
      | prepared batchId attempt => exact .inr ⟨_, batchId, attempt, rfl, rfl, rfl⟩
      | _ => exact .inl rfl
    | answer outcome reads durable =>
      refine .inl ?_
      cases stage with
      | invoked batchId attempt =>
        simp only
        unfold World.complete
        split <;> rfl
      | _ => rfl
    | resolve snapshot confirmedAt => cases stage <;> exact .inl rfl
    | advance batchId scannedThrough => cases stage <;> exact .inl rfl
    | _ => exact .inl rfl

/-- Whatever happens to the emission path, crashes and failed writes included, a call of
`set_weights` has its batch prepared with exactly its vector, finds the batches of all earlier
calls settled, and comes after a head above the stored startup fence; and a stored fence
never changes. -/
theorem single_flight (validator : ValidatorIdentity) (digest : Digest) (initial : Ledger)
    (past : List Event) (event : Event) (rest : List Event) :
    let before := run (step validator digest) (World.initial initial) past
    let after := step validator digest event before
    (after.invocations = before.invocations ∨ ∃ invocation,
      after.invocations = before.invocations ++ [invocation] ∧
      before.ledger.Prepared invocation ∧
      (∀ earlier ∈ before.invocations, before.ledger.Settled earlier.batchId) ∧
      before.Cleared validator) ∧
    ∀ fence, before.weightEmissionStartupFence validator.schemaId currentVersionKey = some fence →
      (run (step validator digest) after rest).weightEmissionStartupFence validator.schemaId
        currentVersionKey = some fence := by
  intro before after
  have consistent : before.Consistent validator :=
    run_invariant step_consistent (World.initial_consistent initial) past
  refine ⟨?_, fun fence stored => ?_⟩
  · rcases step_invocations validator digest event before with same | ⟨process, batchId, attempt, running, stage, called⟩
    · exact .inl same
    · obtain ⟨-, prepared, settled⟩ := consistent.prepared process batchId attempt running stage
      exact .inr ⟨_, called, prepared, settled,
        consistent.cleared process running (by rw [stage]; nofun)⟩
  -- a fence is written once and read back ever after
  · have keeps (event : Event) (world : World)
        (held : world.startupFences.get? (validator.schemaId, currentVersionKey) = some fence) :
        (step validator digest event world).startupFences.get?
          (validator.schemaId, currentVersionKey) = some fence :=
      step_startupFence event world held
    exact run_invariant keeps (step_startupFence event before stored) rest

namespace TwoCalls

def zeros : Digest := fun _ _ =>
  "0000000000000000000000000000000000000000000000000000000000000000"

def checkReady (head : ℕ) : Event := .checkReady ⟨some head, some false, none⟩ true

/-- A direct emission of equal weights, from the UID that the validator's hotkey has. -/
def emit (hotkeys : List String) (block : ℕ) : Event :=
  .emit (hotkeys.idxOf "validator")
    { weights := [1, 1]
      groups := []
      metagraph := ⟨hotkeys, [90, 90]⟩
      limits := some (1, 1)
      intent := some ⟨block, "chain", false, ⟨⟨95, 0, 7, 360, 5, 100⟩, 1, by decide⟩⟩
      recheck := .passes } true

/-- The chain shows the vector of the first call. -/
def confirming : WeightEmissionChainSnapshot where
  chainIdentity := "chain"
  netuid := 5
  validatorUid := 0
  validatorHotkey := "validator"
  block := 210
  lastUpdateBlock := 205
  weights := [(0, 65535), (1, 65535)]
  commitments := []
  reveals := []
  hotkeys := [(0, "validator"), (1, "miner")]

/-- The batches called for, and how each stands. -/
def outcome (events : List Event) : List ℕ × List (Option ConfirmationState) :=
  let world := run (step ⟨"v1", 5, 0, "validator"⟩ zeros) (World.initial Ledger.empty) events
  (world.invocations.map Invocation.batchId, world.ledger.batches.values.map Batch.confirmationState)

def first : List Event :=
  [.start, checkReady 10, checkReady 200, emit ["validator", "miner"] 200, .setWeights,
    .answer (.accepted none) ⟨none, none⟩ true]

end TwoCalls

open TwoCalls in
-- The second call waits for the first one's batch, and goes out under another UID.
example :
    outcome (first ++ [checkReady 205, emit ["miner", "validator"] 205, .setWeights]) =
      ([1], [some .submitted]) ∧
    outcome (first ++ [.resolve confirming "12:00", checkReady 400, emit ["miner", "validator"] 400,
      .setWeights]) = ([1, 2], [some .confirmed, some .prepared]) := by
  decide +kernel

end Endure.Emission
