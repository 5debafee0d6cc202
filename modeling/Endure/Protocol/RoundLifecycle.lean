import Endure.Scoring.InterruptedScoring
import Endure.Storage.UntouchedRounds

/-!
# The lifecycle of a round

The validator's tick of `endure/protocol/validator_service.py` over the rounds of one schema, and
`AssessmentRoundProgram.resolve_due` of `endure/protocol/vertical.py`, which resolves a revealed
round's horizons. Between two transactions the process may stop, and other writers may act.
-/

namespace Endure.Protocol

open Library Library.Checked Library.Transitions Endure.Storage Endure.Scoring

/-! ### The program -/

/-- What a schema's rounds are resolved with. -/
structure AssessmentRoundProgram where
  orchestrator : AssessmentScoringOrchestrator
  horizons : List ℕ
  dueSecondsByHorizon : Dict ℕ ℤ
  isoformat : ℤ → String

/-- How the call for one horizon goes: the deadline or an exception ends it before it scores, or it
scores with the answers of its clock and its resolvers, and its transaction may break off. -/
inductive HorizonAttempt
  | deadlineExceeded
  | raises
  | pass (exhausted : ℕ → Bool) (resolver : ℕ → ℕ → String → ResolverAnswer) (breaksOff : Bool)

/-- A visit of a tick to a round, with the rounds to visit after it. -/
structure Visit where
  now : ℤ
  later : List String
  roundId : String
  windows : RoundWindows
  allResolved : Bool
  scoredThisRound : Bool

/-- Where the validator's loop stands. -/
inductive Control
  | idle
  | advancing (now : ℤ) (roundIds : List String)
  | resolving (visit : Visit) (horizons : List ℕ)
  | archiving (horizons : List ℕ)

/-- The database and where the validator's loop stands. -/
structure LifecycleWorld where
  store : Store
  tables : AssessmentTables
  control : Control

/-- What the next step of the loop meets. -/
structure Moment where
  consensusRows : List (Hotkey × Option String) → Option (List AssessmentConsensusRow)
  exhausted : Bool
  attempt : HorizonAttempt
  archiveHotkeys : List Hotkey

/-- A transaction that the loop of a schema does not make: a miner's commit or reveal, or anything
about a round of another schema. -/
def Outside (schemaId : String) : RoundOperation → Prop
  | .openRound _ other _ _ _ => other ≠ schemaId
  | .publish round _ _ | .setRoundState round _ _ _ => round.schemaId ≠ schemaId
  | .recordCommit .. | .recordRevealAttempt .. | .recordReveal .. => True

/-- What happens to a validator: another writer's transaction; the start of a tick, perhaps with a
window that is active and its universe; the loop's next step; an exception that ends the visit to a
round; a restart. -/
inductive LifecycleEvent (schemaId : String)
  | elsewhere (operation : RoundOperation) (outside : Outside schemaId operation)
  | tick (now : ℤ) (opening : Option (RoundWindows × UniverseSnapshot × ℤ))
  | proceed (moment : Moment)
  | wedged
  | restart

/-- The rounds not yet closed, oldest first. -/
def unfinishedRounds (store : Store) (schemaId : String) : List String :=
  ((store.rounds.filter fun key row =>
    key.schemaId = schemaId ∧ row.state ≠ .closed).keys.map RoundKey.roundId).insertionSort (· ≤ ·)

namespace AssessmentRoundProgram

variable (program : AssessmentRoundProgram)

def schemaId : String := program.orchestrator.config.schemaId

def key (roundId : String) : RoundKey := ⟨roundId, program.schemaId⟩

/-- The rows of a scoring pass, or `none` when the pass raises; a transaction that breaks off is
rolled back. -/
def score (store : Store) (tables : AssessmentTables) (call : ScoringCall) (breaksOff : Bool) :
    Option AssessmentTables :=
  match program.orchestrator.preparePass store tables call with
  | .error _ => none
  | .ok none => some tables
  | .ok (some (pass, _)) =>
    if breaksOff then none
    else (tables.recordAssessmentScoringPass call.roundId pass call.nowIso).toOption

/-- The call of a visit for a horizon. -/
def callOf (visit : Visit) (horizon : ℕ) (exhausted : ℕ → Bool)
    (resolver : ℕ → ℕ → String → ResolverAnswer) : ScoringCall :=
  { roundId := visit.roundId, horizon, nowIso := program.isoformat visit.now, archiveHotkeys := []
    exhausted, resolver }

/-- The tables that an attempt leaves, or `none` when it fails. -/
def tryHorizon (visit : Visit) (horizon : ℕ) (world : LifecycleWorld) :
    HorizonAttempt → Option AssessmentTables
  | .deadlineExceeded | .raises => none
  | .pass exhausted resolver breaksOff =>
    program.score world.store world.tables (program.callOf visit horizon exhausted resolver)
      breaksOff

/-- When a horizon of a round is due, in microseconds. -/
def dueAt (windows : RoundWindows) (horizon : ℕ) : ℤ :=
  windows.revealClose + program.dueSecondsByHorizon.getD horizon horizon * 1000000

/-- One horizon of `resolve_due`; a spent budget or deadline ends its loop. -/
def resolveHorizon (moment : Moment) (visit : Visit) (horizon : ℕ) (rest : List ℕ)
    (world : LifecycleWorld) : LifecycleWorld :=
  let unresolved := { visit with allResolved := false }
  if world.tables.hasAssessmentResolutionMarker visit.roundId horizon then
    { world with control := .resolving visit rest }
  else if visit.now ≤ program.dueAt visit.windows horizon then
    { world with control := .resolving unresolved rest }
  else if moment.exhausted then { world with control := .resolving unresolved [] }
  else
    match program.tryHorizon visit horizon world moment.attempt, moment.attempt with
    | some tables, _ =>
      { world with tables, control := .resolving { visit with scoredThisRound := true } rest }
    | none, .deadlineExceeded => { world with control := .resolving unresolved [] }
    | none, _ => { world with control := .resolving unresolved rest }

/-- The end of `resolve_due`: close the round when every horizon has its marker. -/
def settle (visit : Visit) (world : LifecycleWorld) : LifecycleWorld :=
  let nowIso := program.isoformat visit.now
  let store :=
    if visit.allResolved ∧ ∀ horizon ∈ program.horizons,
        world.tables.hasAssessmentResolutionMarker visit.roundId horizon = true then
      world.store.commit
        (world.store.setRoundState (program.key visit.roundId) .closed nowIso)
    else if visit.scoredThisRound then
      world.store.commit
        (world.store.setRoundState (program.key visit.roundId) .partiallyScored nowIso)
    else world.store
  { world with store, control := .advancing visit.now visit.later }

/-- Advance one round: publish and reveal an open round past its reveal close, then visit a
revealed one. -/
def advance (moment : Moment) (now : ℤ) (roundId : String) (later : List String)
    (world : LifecycleWorld) : LifecycleWorld :=
  let round := program.key roundId
  match world.store.roundWindows round with
  | none => { world with control := .advancing now later }
  | some windows =>
    let visit := .resolving ⟨now, later, roundId, windows, true, false⟩ program.horizons
    if world.store.roundState round = some .open ∧ windows.revealClose < now then
      match world.store.publishAssessmentConsensusFromAcceptedBundlesAndReveal round
        moment.consensusRows (program.isoformat now) with
      | .error _ => { world with control := .advancing now later }
      | .ok (_, store) => { world with store, control := visit }
    else if world.store.roundState round = some .revealed ∨
        world.store.roundState round = some .partiallyScored then
      { world with control := visit }
    else { world with control := .advancing now later }

/-- Archive hotkeys at a horizon once every unfinished round has its marker. -/
def archive (moment : Moment) (horizon : ℕ) (rest : List ℕ) (world : LifecycleWorld) :
    LifecycleWorld :=
  let control := .archiving rest
  if ∀ roundId ∈ unfinishedRounds world.store program.schemaId,
      world.tables.hasAssessmentResolutionMarker roundId horizon = true then
    { world with
      tables := { world.tables with
        emaStates := AssessmentTables.archiveHorizon world.tables.emaStates horizon
          moment.archiveHotkeys }
      control }
  else { world with control }

/-- The next step of the loop. -/
def proceed (moment : Moment) (world : LifecycleWorld) : LifecycleWorld :=
  match world.control with
  | .idle | .archiving [] => { world with control := .idle }
  | .advancing _ [] => { world with control := .archiving program.horizons }
  | .advancing now (roundId :: later) => program.advance moment now roundId later world
  | .resolving visit [] => program.settle visit world
  | .resolving visit (horizon :: rest) => program.resolveHorizon moment visit horizon rest world
  | .archiving (horizon :: rest) => program.archive moment horizon rest world

/-- Start a tick: open the active round, unless it exists, and list the unfinished ones. -/
def beginTick (now : ℤ) (opening : Option (RoundWindows × UniverseSnapshot × ℤ))
    (world : LifecycleWorld) : LifecycleWorld :=
  let opened : Except StorageError Store :=
    match opening with
    | none => .ok world.store
    | some (windows, taken, publicationAvailableAt) =>
      if (world.store.roundState (program.key windows.roundId)).isSome then .ok world.store
      else world.store.openRound windows program.schemaId (some taken) (program.isoformat now)
        (some publicationAvailableAt)
  match opened with
  | .error _ => world
  | .ok store =>
    { world with store, control := .advancing now (unfinishedRounds store program.schemaId) }

/-- One event. -/
def happen (limits : Limits) (event : LifecycleEvent program.schemaId) (world : LifecycleWorld) :
    LifecycleWorld :=
  match event, world.control with
  | .elsewhere operation _, _ => { world with store := operation.apply limits world.store }
  | .tick now opening, .idle => program.beginTick now opening world
  | .tick _ _, _ => world
  | .proceed moment, _ => program.proceed moment world
  | .wedged, .resolving visit _ => { world with control := .advancing visit.now visit.later }
  | .wedged, .advancing now (_ :: later) => { world with control := .advancing now later }
  | .wedged, _ | .restart, _ => { world with control := .idle }

/-- The world after some events, from an empty database. -/
def after (limits : Limits) (events : List (LifecycleEvent program.schemaId)) : LifecycleWorld :=
  run (program.happen limits) ⟨Store.empty, AssessmentTables.empty, .idle⟩ events

/-! ### What one event changes -/

/-- The rounds of a horizon's universe all have a target. -/
def Covered (store : Store) (tables : AssessmentTables) (roundId : String) (horizon : ℕ) : Prop :=
  ∃ members, program.orchestrator.membersOf store roundId = some members ∧
    ∀ netuid ∈ members, ∀ output ∈ program.orchestrator.config.outputs,
      (tables.realizedTargets.get? (roundId,
        program.orchestrator.config.coordinateFor netuid horizon output.output)).isSome

/-- The state of a round of the program's schema. -/
def stateOf (world : LifecycleWorld) (roundId : String) : Option RoundState :=
  world.store.roundState (program.key roundId)

/-- The tables' rows of a round are as they were. -/
structure SameRows (tables : AssessmentTables) (roundId : String) (later : AssessmentTables) :
    Prop where
  targets : ∀ coordinate, later.realizedTargets.get? (roundId, coordinate) =
    tables.realizedTargets.get? (roundId, coordinate)
  scores : ∀ key, later.outputScores.get? (roundId, key) = tables.outputScores.get? (roundId, key)
  history : ∀ key, later.scoreHistory.get? (roundId, key) = tables.scoreHistory.get? (roundId, key)
  markers : ∀ horizon, later.horizonResolutions.get? (roundId, horizon) =
    tables.horizonResolutions.get? (roundId, horizon)

/-- Every row of the tables is kept as it was first written. -/
structure Keeps (tables later : AssessmentTables) : Prop where
  targets : ∀ key row, tables.realizedTargets.get? key = some row →
    later.realizedTargets.get? key = some row
  scores : ∀ key row, tables.outputScores.get? key = some row →
    later.outputScores.get? key = some row
  history : ∀ key row, tables.scoreHistory.get? key = some row →
    later.scoreHistory.get? key = some row
  markers : ∀ key row, tables.horizonResolutions.get? key = some row →
    later.horizonResolutions.get? key = some row

/-- A visited round is revealed and not closed. -/
def Visiting (world : LifecycleWorld) : Prop :=
  ∀ visit horizons, world.control = .resolving visit horizons →
    program.stateOf world visit.roundId = some .revealed ∨
      program.stateOf world visit.roundId = some .partiallyScored

/-- What an event may do to the database. -/
structure Advances (world later : LifecycleWorld) : Prop where
  consistent : later.store.Consistent
  evolves : world.store.Evolves later.store
  forward : ∀ roundId state, program.stateOf world roundId = some state →
    ∃ state', program.stateOf later roundId = some state' ∧ state.rank ≤ state'.rank
  closes : ∀ roundId, program.stateOf later roundId = some .closed →
    program.stateOf world roundId = some .closed ∨ ∀ horizon ∈ program.horizons,
      later.tables.hasAssessmentResolutionMarker roundId horizon = true
  untouched : ∀ roundId, program.stateOf world roundId = some .closed →
    world.store.Untouched (program.key roundId) later.store ∧
      SameRows world.tables roundId later.tables
  kept : Keeps world.tables later.tables
  marks : ∀ roundId horizon,
    later.tables.hasAssessmentResolutionMarker roundId horizon = true →
      world.tables.hasAssessmentResolutionMarker roundId horizon = true ∨
        program.Covered later.store later.tables roundId horizon
  visiting : program.Visiting later

variable {program} {world later : LifecycleWorld} {limits : Limits}

theorem SameRows.refl (tables : AssessmentTables) (roundId : String) :
    SameRows tables roundId tables :=
  ⟨fun _ => rfl, fun _ => rfl, fun _ => rfl, fun _ => rfl⟩

theorem SameRows.trans {first second third : AssessmentTables} {roundId : String}
    (left : SameRows first roundId second) (right : SameRows second roundId third) :
    SameRows first roundId third where
  targets coordinate := (right.targets coordinate).trans (left.targets coordinate)
  scores key := (right.scores key).trans (left.scores key)
  history key := (right.history key).trans (left.history key)
  markers horizon := (right.markers horizon).trans (left.markers horizon)

theorem Keeps.refl (tables : AssessmentTables) : Keeps tables tables :=
  ⟨fun _ _ found => found, fun _ _ found => found, fun _ _ found => found, fun _ _ found => found⟩

theorem Keeps.trans {first second third : AssessmentTables} (left : Keeps first second)
    (right : Keeps second third) : Keeps first third where
  targets key row found := right.targets key row (left.targets key row found)
  scores key row found := right.scores key row (left.scores key row found)
  history key row found := right.history key row (left.history key row found)
  markers key row found := right.markers key row (left.markers key row found)

theorem Keeps.marker {tables later : AssessmentTables} (kept : Keeps tables later)
    {roundId : String} {horizon : ℕ}
    (marked : tables.hasAssessmentResolutionMarker roundId horizon = true) :
    later.hasAssessmentResolutionMarker roundId horizon = true := by
  obtain ⟨row, found⟩ := Option.isSome_iff_exists.mp marked
  exact Option.isSome_iff_exists.mpr ⟨row, kept.markers _ row found⟩

/-- Only the loop moves on. -/
theorem advances_control (consistent : world.store.Consistent) {control : Control}
    (visiting : program.Visiting { world with control }) :
    program.Advances world { world with control } where
  consistent := consistent
  evolves := .refl world.store
  forward _ state found := ⟨state, found, le_rfl⟩
  closes _ closed := .inl closed
  untouched _ _ := ⟨.refl world.store _, .refl world.tables _⟩
  kept := .refl world.tables
  marks _ _ marked := .inl marked
  visiting := visiting

/-- A control that visits no round visits none that is closed. -/
theorem visiting_of_ne (away : ∀ visit horizons, world.control ≠ .resolving visit horizons) :
    program.Visiting world :=
  fun visit horizons same => absurd same (away visit horizons)

/-- How a store may leave a round of the schema: as it was, or, when it was not closed, further on
and closed only with every marker. -/
def Moves (program : AssessmentRoundProgram) (world : LifecycleWorld) (store : Store)
    (roundId : String) : Prop :=
  world.store.Untouched (program.key roundId) store ∨
    program.stateOf world roundId ≠ some .closed ∧
      (∀ state, program.stateOf world roundId = some state →
        ∃ state', store.roundState (program.key roundId) = some state' ∧
          state.rank ≤ state'.rank) ∧
      (store.roundState (program.key roundId) = some .closed → ∀ horizon ∈ program.horizons,
        world.tables.hasAssessmentResolutionMarker roundId horizon = true)

/-- A change of the store. -/
theorem advances_store {store : Store} {control : Control} (consistent : store.Consistent)
    (evolves : world.store.Evolves store) (moves : ∀ roundId, Moves program world store roundId)
    (visiting : program.Visiting { world with store, control }) :
    program.Advances world { world with store, control } where
  consistent := consistent
  evolves := evolves
  forward roundId state found := by
    rcases moves roundId with same | ⟨-, forward, -⟩
    · exact ⟨state, same.roundState.trans found, le_rfl⟩
    · exact forward state found
  closes roundId closed := by
    rcases moves roundId with same | ⟨-, -, marked⟩
    · exact .inl (same.roundState.symm.trans closed)
    · exact .inr (marked closed)
  untouched roundId closed := by
    rcases moves roundId with same | ⟨notClosed, -⟩
    · exact ⟨same, .refl world.tables roundId⟩
    · exact absurd closed notClosed
  kept := .refl world.tables
  marks _ _ marked := .inl marked
  visiting := visiting

/-- Other writers leave the states of the schema's rounds. -/
theorem stateOf_elsewhere (limits : Limits) {operation : RoundOperation}
    (outside : Outside program.schemaId operation) (consistent : world.store.Consistent)
    (roundId : String) :
    (operation.apply limits world.store).roundState (program.key roundId) =
      program.stateOf world roundId := by
  have elsewhere {round : RoundKey} (apart : round.schemaId ≠ program.schemaId) :
      program.key roundId ≠ round := by
    rintro rfl
    exact apart rfl
  -- commits and reveals do not write the rounds, and the rest are of another schema
  cases operation with
  | openRound windows schemaId snapshot nowIso publicationAvailableAt =>
    rw [RoundOperation.apply]
    cases done : world.store.openRound windows schemaId snapshot nowIso publicationAvailableAt with
    | error raised => rfl
    | ok store =>
      have opened : store.roundState (program.key roundId) = program.stateOf world roundId ∨ _ :=
        Store.roundState_openRound done
      exact opened.resolve_right fun own => outside (congrArg RoundKey.schemaId own.1).symm
  | recordCommit round hotkey bundleHash nowIso =>
    rw [RoundOperation.apply, Store.roundState, Store.recordCommit_rounds]
    rfl
  | recordRevealAttempt round hotkey =>
    rw [RoundOperation.apply, Store.roundState, Store.recordRevealAttempt_rounds]
    rfl
  | recordReveal round hotkey bundleJson nonceHex accepted rejectionCode nowIso =>
    rw [RoundOperation.apply, Store.roundState, Store.recordReveal_rounds]
    rfl
  | publish round callback nowIso =>
    rw [RoundOperation.apply]
    cases done : world.store.publishAssessmentConsensusFromAcceptedBundlesAndReveal round callback
      nowIso with
    | error raised => rfl
    | ok outcome =>
      exact ((Store.publish_spec consistent done).2.2 _ (elsewhere outside)).roundState
  | setRoundState round state postOpen nowIso =>
    rw [RoundOperation.apply]
    cases done : world.store.setRoundState round state nowIso with
    | error raised => rfl
    | ok store =>
      exact ((Store.setRoundState_spec consistent postOpen done).2.2 _
        (elsewhere outside)).roundState

/-- Other writers leave everything of the schema's rounds past the open state. -/
theorem untouched_elsewhere (limits : Limits) {operation : RoundOperation}
    (outside : Outside program.schemaId operation) (consistent : world.store.Consistent)
    {roundId : String} {state : RoundState} (found : program.stateOf world roundId = some state)
    (notOpen : state ≠ .open) :
    world.store.Untouched (program.key roundId) (operation.apply limits world.store) := by
  have past : world.store.roundState (program.key roundId) ≠ some .open := by
    intro isOpen
    cases found.symm.trans isOpen
    exact notOpen rfl
  have elsewhere {round : RoundKey} (apart : round.schemaId ≠ program.schemaId) :
      program.key roundId ≠ round := by
    rintro rfl
    exact apart rfl
  -- an open round is the only one that takes commits and reveals
  cases operation with
  | openRound windows schemaId snapshot nowIso publicationAvailableAt =>
    rw [RoundOperation.apply]
    cases done : world.store.openRound windows schemaId snapshot nowIso publicationAvailableAt with
    | error raised => exact .refl _ _
    | ok store =>
      refine Store.untouched_openRound (fun missing => ?_) done
      cases found.symm.trans missing
  | recordCommit round hotkey bundleHash nowIso =>
    exact Store.untouched_recordCommit past hotkey bundleHash _
  | recordRevealAttempt round hotkey => exact Store.untouched_recordRevealAttempt past hotkey _
  | recordReveal round hotkey bundleJson nonceHex accepted rejectionCode nowIso =>
    exact Store.untouched_recordReveal past hotkey bundleJson nonceHex accepted rejectionCode
  | publish round callback nowIso =>
    rw [RoundOperation.apply]
    cases done : world.store.publishAssessmentConsensusFromAcceptedBundlesAndReveal round callback
      nowIso with
    | error raised => exact .refl _ _
    | ok outcome => exact (Store.publish_spec consistent done).2.2 _ (elsewhere outside)
  | setRoundState round state postOpen nowIso =>
    rw [RoundOperation.apply]
    cases done : world.store.setRoundState round state nowIso with
    | error raised => exact .refl _ _
    | ok store => exact (Store.setRoundState_spec consistent postOpen done).2.2 _ (elsewhere outside)

/-- Another writer's transaction. -/
theorem advances_elsewhere (limits : Limits) {operation : RoundOperation}
    (outside : Outside program.schemaId operation) (consistent : world.store.Consistent)
    (visiting : program.Visiting world) :
    program.Advances world { world with store := operation.apply limits world.store } := by
  have change := operation.apply_change limits consistent
  refine advances_store (change.consistent consistent) change.evolves (fun roundId => ?_) ?_
  · have same := stateOf_elsewhere limits outside consistent roundId
    by_cases closed : program.stateOf world roundId = some .closed
    · exact .inl (untouched_elsewhere limits outside consistent closed (by decide))
    · refine .inr ⟨closed, fun state found => ⟨state, same.trans found, le_rfl⟩, fun later => ?_⟩
      exact absurd (same.symm.trans later) closed
  · intro visit horizons position
    change (operation.apply limits world.store).roundState _ = _ ∨
      (operation.apply limits world.store).roundState _ = _
    rw [stateOf_elsewhere limits outside consistent]
    exact visiting visit horizons position

/-- Opening the active round. -/
theorem advances_beginTick (consistent : world.store.Consistent) (visiting : program.Visiting world)
    (now : ℤ) (opening : Option (RoundWindows × UniverseSnapshot × ℤ)) :
    program.Advances world (program.beginTick now opening world) := by
  have still {store : Store} (same : store = world.store) : program.Advances world
      { world with store, control := .advancing now (unfinishedRounds store program.schemaId) } := by
    subst same
    exact advances_control consistent (visiting_of_ne fun _ _ => by simp)
  unfold beginTick
  cases opening with
  | none => exact still rfl
  | some active =>
    obtain ⟨windows, taken, publicationAvailableAt⟩ := active
    simp only
    by_cases stored : (world.store.roundState (program.key windows.roundId)).isSome
    · rw [if_pos stored]
      exact still rfl
    · rw [if_neg stored]
      cases done : world.store.openRound windows program.schemaId (some taken)
        (program.isoformat now) (some publicationAvailableAt) with
      | error raised => exact advances_control consistent visiting
      | ok store =>
        have change := Store.openRound_change done
        refine advances_store (change.consistent consistent) change.evolves (fun roundId => ?_)
          (visiting_of_ne fun _ _ => by simp)
        by_cases missing : world.store.roundState (program.key roundId) = none
        · -- a round without a state is opened, if anything
          refine .inr ⟨by simp [stateOf, missing], ?_, ?_⟩
          · intro state found
            cases missing.symm.trans found
          · intro closed
            have opened : store.roundState (program.key roundId) =
                world.store.roundState (program.key roundId) ∨ _ :=
              Store.roundState_openRound done
            rcases opened with same | ⟨-, isOpen⟩
            · cases (same.trans missing).symm.trans closed
            · cases isOpen.symm.trans closed
        · exact .inl (Store.untouched_openRound missing done)

/-- Revealing an open round. -/
theorem advances_advance (consistent : world.store.Consistent) (moment : Moment) (now : ℤ)
    (roundId : String) (rest : List String) :
    program.Advances world (program.advance moment now roundId rest world) := by
  have skipped : program.Advances world { world with control := .advancing now rest } :=
    advances_control consistent (visiting_of_ne fun _ _ => by simp)
  rw [advance]
  cases found : world.store.roundWindows (program.key roundId) with
  | none => exact skipped
  | some windows =>
    simp only
    by_cases closing : world.store.roundState (program.key roundId) = some .open ∧
        windows.revealClose < now
    · rw [if_pos closing]
      cases done : world.store.publishAssessmentConsensusFromAcceptedBundlesAndReveal
        (program.key roundId) moment.consensusRows (program.isoformat now) with
      | error raised => exact skipped
      | ok outcome =>
        obtain ⟨rows, store⟩ := outcome
        obtain ⟨advanced, reveals, others⟩ := Store.publish_spec consistent done
        -- the transaction that publishes an open round also reveals it
        have revealed := reveals closing.1
        have change := Store.Change.advanced (program.key roundId) store advanced
        refine advances_store (change.consistent consistent) change.evolves (fun other => ?_) ?_
        · by_cases here : other = roundId
          · subst here
            refine .inr ⟨by simp [stateOf, closing.1], fun state stood => ?_, fun closed => ?_⟩
            · cases closing.1.symm.trans stood
              exact ⟨.revealed, revealed, Nat.zero_le _⟩
            · cases revealed.symm.trans closed
          · exact .inl (others _ fun same => here (congrArg RoundKey.roundId same))
        · intro visit horizons same
          cases same
          exact .inl revealed
    · rw [if_neg closing]
      by_cases visited : world.store.roundState (program.key roundId) = some .revealed ∨
          world.store.roundState (program.key roundId) = some .partiallyScored
      · rw [if_pos visited]
        refine advances_control consistent fun visit horizons same => ?_
        cases same
        exact visited
      · rw [if_neg visited]
        exact skipped

/-- A visited round is taken on, and closed only with every marker. -/
theorem advances_setRoundState (consistent : world.store.Consistent) {visit : Visit}
    (visited : program.stateOf world visit.roundId = some .revealed ∨
      program.stateOf world visit.roundId = some .partiallyScored) {state : RoundState}
    (onward : 2 ≤ state.rank) (marked : state = .closed → ∀ horizon ∈ program.horizons,
      world.tables.hasAssessmentResolutionMarker visit.roundId horizon = true) (nowIso : String) :
    program.Advances world
      { world with
        store := world.store.commit
          (world.store.setRoundState (program.key visit.roundId) state nowIso)
        control := .advancing visit.now visit.later } := by
  have postOpen : state ≠ .open := by
    rintro rfl
    exact absurd onward (by decide)
  cases done : world.store.setRoundState (program.key visit.roundId) state nowIso with
  | error raised => exact advances_control consistent (visiting_of_ne fun _ _ => by simp)
  | ok store =>
    obtain ⟨advanced, becomes, others⟩ := Store.setRoundState_spec consistent postOpen done
    have change := Store.Change.advanced (program.key visit.roundId) store advanced
    refine advances_store (change.consistent consistent) change.evolves (fun other => ?_)
      (visiting_of_ne fun _ _ => by simp)
    by_cases here : other = visit.roundId
    · subst here
      -- a visited round is not closed, so it was behind the new state or at it
      have earlier : ∀ before, program.stateOf world visit.roundId = some before →
          before.rank ≤ 2 := by
        intro before stood
        rcases visited with same | same <;> cases same.symm.trans stood <;> decide
      refine .inr ⟨fun closed => absurd (earlier _ closed) (by decide), fun before stood => ?_,
        fun closed => ?_⟩
      · refine ⟨state, ?_, (earlier before stood).trans onward⟩
        rw [Store.commit, becomes, show world.store.roundState _ = _ from stood]
        rfl
      · refine marked ?_
        obtain ⟨before, -, same⟩ := Option.map_eq_some_iff.mp (becomes.symm.trans closed)
        exact same
    · exact .inl (others _ fun same => here (congrArg RoundKey.roundId same))

/-- The end of a visit. -/
theorem advances_settle (consistent : world.store.Consistent) {visit : Visit}
    (visited : program.stateOf world visit.roundId = some .revealed ∨
      program.stateOf world visit.roundId = some .partiallyScored) :
    program.Advances world (program.settle visit world) := by
  rw [settle]
  split
  next all => exact advances_setRoundState consistent visited (by decide) (fun _ => all.2) _
  · split
    · exact advances_setRoundState consistent visited (by decide)
        (fun same => by cases same) _
    · exact advances_control consistent (visiting_of_ne fun _ _ => by simp)

/-! ### Scoring passes -/

/-- A pass that is recorded belongs to its round: it leaves the rows of the others, keeps every
target and marker, and marks its horizon only when the horizon is covered. -/
structure Records (program : AssessmentRoundProgram) (store : Store) (roundId : String)
    (tables later : AssessmentTables) : Prop where
  others : ∀ other, other ≠ roundId → SameRows tables other later
  kept : Keeps tables later
  marks : ∀ other horizon, later.hasAssessmentResolutionMarker other horizon = true →
    tables.hasAssessmentResolutionMarker other horizon = true ∨
      program.Covered store later other horizon

theorem Records.refl (store : Store) (roundId : String) (tables : AssessmentTables) :
    Records program store roundId tables tables :=
  ⟨fun other _ => .refl tables other, .refl tables, fun _ _ marked => .inl marked⟩

/-- Rows of a round leave those of the others. -/
theorem get?_insertAllIfAbsent_of_ne {κ ν ι : Type} [DecidableEq κ] {roundId other : String}
    (apart : other ≠ roundId) (table : Dict (String × κ) ν) (items : List ι) (key : ι → κ)
    (value : ι → ν) (at_ : κ) :
    (table.insertAllIfAbsent (items.map fun item => ((roundId, key item), value item))).get?
      (other, at_) = table.get? (other, at_) := by
  apply Dict.get?_insertAllIfAbsent_of_notMem
  rw [List.map_map]
  intro member
  obtain ⟨item, -, same⟩ := List.mem_map.mp member
  exact apart (congrArg Prod.fst same).symm

/-- A complete pass covers its horizon: what its targets lack was there before. -/
theorem covered_of_complete {store : Store} {tables later : AssessmentTables} {call : ScoringCall}
    {members : List ℕ} {targets : List AssessmentRealizedTarget}
    (covers : program.orchestrator.membersOf store call.roundId = some members)
    (complete : ((program.orchestrator.config.coordinatesAt (members.insertionSort (· ≤ ·))
      call.horizon).all fun coordinate =>
        coordinate ∈ tables.resolvedCoordinates call.roundId call.horizon ∨
          coordinate ∈ targets.map AssessmentRealizedTarget.coordinate) = true)
    (inserted : later.realizedTargets = tables.realizedTargets.insertAllIfAbsent
      (targets.map fun target => ((call.roundId, target.coordinate), target))) :
    program.Covered store later call.roundId call.horizon := by
  refine ⟨members, covers, fun netuid member output listed => ?_⟩
  rw [List.all_eq_true] at complete
  have expected := complete
    (program.orchestrator.config.coordinateFor netuid call.horizon output.output) (by
      refine List.mem_map.mpr ⟨(netuid, output.output), List.mem_flatMap.mpr ⟨netuid, ?_, ?_⟩, rfl⟩
      · exact (List.mem_insertionSort _).mpr member
      · exact List.mem_map.mpr ⟨output, listed, rfl⟩)
  rw [inserted, Dict.isSome_get?_insertAllIfAbsent, List.map_map]
  refine (of_decide_eq_true expected).imp (fun found => ?_) fun found => ?_
  · exact (AssessmentTables.mem_resolvedCoordinates.mp found).2
  · obtain ⟨target, answered, same⟩ := List.mem_map.mp found
    exact List.mem_map.mpr ⟨target, answered, congrArg (Prod.mk call.roundId) same⟩

/-- A scoring pass that does not fail records its rows. -/
theorem records_score {store : Store} {tables later : AssessmentTables} {call : ScoringCall}
    {breaksOff : Bool} (scored : program.score store tables call breaksOff = some later) :
    Records program store call.roundId tables later := by
  rw [score] at scored
  cases prepared : program.orchestrator.preparePass store tables call with
  | error raised =>
    rw [prepared] at scored
    cases scored
  | ok made =>
    rw [prepared] at scored
    cases made with
    | none =>
      cases scored
      exact .refl store call.roundId tables
    | some both =>
      obtain ⟨pass, scores⟩ := both
      simp only at scored
      cases breaksOff with
      -- a transaction that breaks off leaves no rows
      | true => cases scored
      | false =>
        rw [if_neg Bool.false_ne_true, toOption_eq_some] at scored
        obtain ⟨unmarked, -, members, covers, rounded⟩ :=
          AssessmentScoringOrchestrator.preparePass_eq_some prepared
        obtain ⟨targets, cells, -, -, rfl, -⟩ :=
          AssessmentScoringOrchestrator.scoreRound_eq_ok.mp rounded
        obtain ⟨-, rfl⟩ :=
          (AssessmentTables.recordAssessmentScoringPass_eq_ok unmarked).mp scored
        constructor
        -- every key that the pass inserts is one of its round
        · intro other apart
          refine ⟨fun _ => get?_insertAllIfAbsent_of_ne apart _ _ _ _ _,
            fun _ => get?_insertAllIfAbsent_of_ne apart _ _ _ _ _,
            fun _ => get?_insertAllIfAbsent_of_ne apart _ _ _ _ _, fun horizon => ?_⟩
          split
          · rw [Dict.get?_insertIfAbsent, if_neg fun same => apart (congrArg Prod.fst same),
              Option.or_none]
          · rfl
        · refine ⟨fun _ _ found => Dict.get?_insertAllIfAbsent_of_eq_some found _,
            fun _ _ found => Dict.get?_insertAllIfAbsent_of_eq_some found _,
            fun _ _ found => Dict.get?_insertAllIfAbsent_of_eq_some found _,
            fun key row found => ?_⟩
          split
          · rw [Dict.get?_insertIfAbsent, found, Option.some_or]
          · exact found
        · intro other horizon marked
          rw [AssessmentTables.hasAssessmentResolutionMarker, Dict.contains] at marked
          split at marked
          next complete =>
            rw [Dict.get?_insertIfAbsent, Option.isSome_or, Bool.or_eq_true] at marked
            refine marked.imp_right fun new => ?_
            by_cases own : (other, horizon) = (call.roundId, call.horizon)
            · cases own
              exact covered_of_complete covers complete rfl
            · -- the pass marks no other horizon
              change (if (other, horizon) = (call.roundId, call.horizon) then some call.nowIso
                else none).isSome = true at new
              rw [if_neg own] at new
              cases new
          · exact .inl marked

/-- One horizon of a visit. -/
theorem advances_resolveHorizon (consistent : world.store.Consistent) (moment : Moment)
    {visit : Visit} (visited : program.stateOf world visit.roundId = some .revealed ∨
      program.stateOf world visit.roundId = some .partiallyScored) (horizon : ℕ) (rest : List ℕ) :
    program.Advances world (program.resolveHorizon moment visit horizon rest world) := by
  -- whatever the loop goes on with, it stays with the same round
  have visiting {tables : AssessmentTables} {next : Visit} {horizons : List ℕ}
      (same : next.roundId = visit.roundId) : program.Visiting
        { world with tables, control := .resolving next horizons } := by
    intro visit' horizons' control
    cases control
    rw [same]
    exact visited
  have goesOn {next : Visit} {horizons : List ℕ} (same : next.roundId = visit.roundId) :
      program.Advances world { world with control := .resolving next horizons } :=
    advances_control consistent (visiting same)
  have notClosed : program.stateOf world visit.roundId ≠ some .closed := by
    rcases visited with same | same <;> simp [same]
  unfold resolveHorizon
  simp only
  split
  · exact goesOn rfl
  split
  · exact goesOn rfl
  split
  · exact goesOn rfl
  split
  next tables tried =>
    have recorded : Records program world.store visit.roundId world.tables tables := by
      cases answer : moment.attempt with
      | deadlineExceeded =>
        rw [answer] at tried
        cases tried
      | raises =>
        rw [answer] at tried
        cases tried
      | pass exhausted resolver breaksOff =>
        rw [answer] at tried
        exact records_score tried
    constructor
    · exact consistent
    · exact .refl world.store
    · exact fun _ state found => ⟨state, found, le_rfl⟩
    · exact fun _ closed => .inl closed
    · intro roundId closed
      refine ⟨.refl world.store _, recorded.others roundId ?_⟩
      rintro rfl
      exact notClosed closed
    · exact recorded.kept
    · exact recorded.marks
    · exact visiting rfl
  · exact goesOn rfl
  · exact goesOn rfl

/-- The archival of a horizon changes smoothed scores only. -/
theorem advances_archive (consistent : world.store.Consistent) (moment : Moment) (horizon : ℕ)
    (rest : List ℕ) : program.Advances world (program.archive moment horizon rest world) := by
  unfold archive
  simp only
  split
  · exact ⟨consistent, .refl world.store, fun _ state found => ⟨state, found, le_rfl⟩,
      fun _ closed => .inl closed,
      fun _ _ => ⟨.refl world.store _, fun _ => rfl, fun _ => rfl, fun _ => rfl, fun _ => rfl⟩,
      ⟨fun _ _ found => found, fun _ _ found => found, fun _ _ found => found,
        fun _ _ found => found⟩,
      fun _ _ marked => .inl marked, visiting_of_ne fun _ _ => by simp⟩
  · exact advances_control consistent (visiting_of_ne fun _ _ => by simp)

/-- The loop's next step. -/
theorem advances_proceed (consistent : world.store.Consistent) (visiting : program.Visiting world)
    (moment : Moment) : program.Advances world (program.proceed moment world) := by
  have away {control : Control} (apart : ∀ visit horizons, control ≠ .resolving visit horizons) :
      program.Advances world { world with control } :=
    advances_control consistent (visiting_of_ne apart)
  unfold proceed
  cases position : world.control with
  | idle => exact away fun _ _ => by simp
  | advancing now roundIds =>
    cases roundIds with
    | nil => exact away fun _ _ => by simp
    | cons roundId rest => exact advances_advance consistent moment now roundId rest
  | resolving visit horizons =>
    have visited := visiting visit horizons position
    cases horizons with
    | nil => exact advances_settle consistent visited
    | cons horizon rest => exact advances_resolveHorizon consistent moment visited horizon rest
  | archiving horizons =>
    cases horizons with
    | nil => exact away fun _ _ => by simp
    | cons horizon rest => exact advances_archive consistent moment horizon rest

/-- Whatever happens, the database only moves on. -/
theorem advances_happen (limits : Limits) (event : LifecycleEvent program.schemaId)
    (consistent : world.store.Consistent) (visiting : program.Visiting world) :
    program.Advances world (program.happen limits event world) := by
  have away {control : Control} (apart : ∀ visit horizons, control ≠ .resolving visit horizons) :
      program.Advances world { world with control } :=
    advances_control consistent (visiting_of_ne apart)
  cases event with
  | elsewhere operation outside =>
    exact advances_elsewhere limits outside consistent visiting
  | tick now opening =>
    unfold happen
    cases position : world.control with
    | idle => exact advances_beginTick consistent visiting now opening
    | advancing now' roundIds => exact advances_control consistent visiting
    | resolving visit horizons => exact advances_control consistent visiting
    | archiving horizons => exact advances_control consistent visiting
  | proceed moment => exact advances_proceed consistent visiting moment
  | wedged =>
    unfold happen
    cases position : world.control with
    | idle => exact away fun _ _ => by simp
    | advancing now roundIds =>
      cases roundIds with
      | nil => exact away fun _ _ => by simp
      | cons roundId rest => exact away fun _ _ => by simp
    | resolving visit horizons => exact away fun _ _ => by simp
    | archiving horizons => exact away fun _ _ => by simp
  | restart => exact away fun _ _ => by simp

/-! ### Whole runs -/

/-- A covered horizon stays covered. -/
theorem Covered.mono {store laterStore : Store} {tables laterTables : AssessmentTables}
    {roundId : String} {horizon : ℕ} (covered : program.Covered store tables roundId horizon)
    (evolves : store.Evolves laterStore) (kept : Keeps tables laterTables) :
    program.Covered laterStore laterTables roundId horizon := by
  obtain ⟨members, read, full⟩ := covered
  refine ⟨members, ?_, fun netuid member output listed => ?_⟩
  · obtain ⟨taken, found, parsed⟩ := Option.bind_eq_some_iff.mp read
    exact Option.bind_eq_some_iff.mpr ⟨taken, evolves.universes _ taken found, parsed⟩
  · obtain ⟨row, found⟩ := Option.isSome_iff_exists.mp (full netuid member output listed)
    exact Option.isSome_iff_exists.mpr ⟨row, kept.targets _ row found⟩

/-- What holds between events. -/
structure Sound (program : AssessmentRoundProgram) (world : LifecycleWorld) : Prop where
  consistent : world.store.Consistent
  visiting : program.Visiting world
  closed : ∀ roundId, program.stateOf world roundId = some .closed →
    ∀ horizon ∈ program.horizons,
      world.tables.hasAssessmentResolutionMarker roundId horizon = true
  marked : ∀ roundId horizon,
    world.tables.hasAssessmentResolutionMarker roundId horizon = true →
      program.Covered world.store world.tables roundId horizon

theorem Sound.happen (sound : Sound program world) (limits : Limits)
    (event : LifecycleEvent program.schemaId) :
    Sound program (program.happen limits event world) := by
  have advances := advances_happen limits event sound.consistent sound.visiting
  constructor
  · exact advances.consistent
  · exact advances.visiting
  · intro roundId closed
    rcases advances.closes roundId closed with before | marked
    · exact fun horizon member => advances.kept.marker (sound.closed roundId before horizon member)
    · exact marked
  · intro roundId horizon marked
    rcases advances.marks roundId horizon marked with before | covered
    · exact (sound.marked roundId horizon before).mono advances.evolves advances.kept
    · exact covered

theorem sound_empty (program : AssessmentRoundProgram) :
    Sound program ⟨Store.empty, AssessmentTables.empty, .idle⟩ where
  consistent := Store.consistent_empty
  visiting := visiting_of_ne fun _ _ => by simp
  closed _ closed := by cases closed
  marked _ _ marked := by cases marked

theorem sound_after (program : AssessmentRoundProgram) (limits : Limits)
    (events : List (LifecycleEvent program.schemaId)) :
    Sound program (program.after limits events) :=
  run_invariant (fun event _ sound => sound.happen limits event) (sound_empty program) events

/-- How a world relates to a later one. -/
structure Precedes (program : AssessmentRoundProgram) (world later : LifecycleWorld) : Prop where
  forward : ∀ roundId state, program.stateOf world roundId = some state →
    ∃ state', program.stateOf later roundId = some state' ∧ state.rank ≤ state'.rank
  untouched : ∀ roundId, program.stateOf world roundId = some .closed →
    world.store.Untouched (program.key roundId) later.store ∧
      SameRows world.tables roundId later.tables
  kept : Keeps world.tables later.tables

theorem Precedes.refl (world : LifecycleWorld) : Precedes program world world where
  forward _ state found := ⟨state, found, le_rfl⟩
  untouched _ _ := ⟨.refl world.store _, .refl world.tables _⟩
  kept := .refl world.tables

theorem Precedes.trans {first second third : LifecycleWorld}
    (left : Precedes program first second) (right : Precedes program second third) :
    Precedes program first third where
  forward roundId state found := by
    obtain ⟨middle, found', le⟩ := left.forward roundId state found
    obtain ⟨last, found'', le'⟩ := right.forward roundId middle found'
    exact ⟨last, found'', le.trans le'⟩
  untouched roundId closed := by
    obtain ⟨same, rows⟩ := left.untouched roundId closed
    obtain ⟨same', rows'⟩ := right.untouched roundId (same.roundState.trans closed)
    exact ⟨same.trans same', rows.trans rows'⟩
  kept := left.kept.trans right.kept

/-- A world precedes what later events make of it. -/
theorem precedes_after (program : AssessmentRoundProgram) (limits : Limits)
    (events later : List (LifecycleEvent program.schemaId)) :
    Precedes program (program.after limits events) (program.after limits (events ++ later)) := by
  have onward : program.after limits (events ++ later) =
      run (program.happen limits) (program.after limits events) later := run_append events later
  rw [onward]
  exact run_relation Precedes.refl (fun _ _ _ left right => left.trans right)
    (fun event _ sound => sound.happen limits event)
    (fun event _ sound => by
      have advances := advances_happen limits event sound.consistent sound.visiting
      exact ⟨advances.forward, advances.untouched, advances.kept⟩)
    (sound_after program limits events) later

/-- Whatever the order of ticks, crashes, failed horizons and other writers, the state of a round
only moves forward and no row is rewritten; a closed round has every horizon's marker and is never
touched again; and a marker is there only when every output of every subnet of the round's universe
has its target. -/
theorem lifecycle_of_rounds (program : AssessmentRoundProgram) (limits : Limits)
    (events later : List (LifecycleEvent program.schemaId)) :
    Precedes program (program.after limits events) (program.after limits (events ++ later)) ∧
      (∀ roundId, program.stateOf (program.after limits events) roundId = some .closed →
        ∀ horizon ∈ program.horizons,
          (program.after limits events).tables.hasAssessmentResolutionMarker roundId horizon =
            true) ∧
      ∀ roundId horizon,
        (program.after limits events).tables.hasAssessmentResolutionMarker roundId horizon =
          true →
        program.Covered (program.after limits events).store (program.after limits events).tables
          roundId horizon := by
  have sound := sound_after program limits events
  exact ⟨precedes_after program limits events later, sound.closed, sound.marked⟩

/-- A pass that fails leaves the tables as they were. -/
theorem tables_of_failed (limits : Limits) {moment : Moment} {visit : Visit} {horizon : ℕ}
    {rest : List ℕ} (visits : world.control = .resolving visit (horizon :: rest))
    (failed : program.tryHorizon visit horizon world moment.attempt = none) :
    (program.happen limits (.proceed moment) world).tables = world.tables := by
  change (program.proceed moment world).tables = world.tables
  rw [proceed, visits]
  dsimp only [resolveHorizon]
  split_ifs
  · rfl
  · rfl
  · rfl
  -- whether it was cut by its deadline or raised, nothing has been written
  · rw [failed]
    cases moment.attempt <;> rfl

/-- **Round lifecycle.** In every run of ticks, restarts and other writers the state of a round only
moves forward; a closed round has the marker of every horizon and is never touched again; a marker
means that every expected coordinate of the round's universe has one target row, resolved or voided;
and a pass that fails writes nothing. -/
theorem round_lifecycle (program : AssessmentRoundProgram) (limits : Limits)
    (events later : List (LifecycleEvent program.schemaId)) :
    let world := program.after limits events
    let world' := program.after limits (events ++ later)
    (∀ roundId state, program.stateOf world roundId = some state →
      ∃ state', program.stateOf world' roundId = some state' ∧ state.rank ≤ state'.rank) ∧
    (∀ roundId, program.stateOf world roundId = some .closed →
      (∀ horizon ∈ program.horizons,
        world.tables.hasAssessmentResolutionMarker roundId horizon = true) ∧
      world.store.Untouched (program.key roundId) world'.store ∧
        SameRows world.tables roundId world'.tables) ∧
    (∀ roundId horizon, world.tables.hasAssessmentResolutionMarker roundId horizon = true →
      ∃ members, program.orchestrator.membersOf world.store roundId = some members ∧
        ∀ netuid ∈ members, ∀ output ∈ program.orchestrator.config.outputs,
          ∃! target, world.tables.realizedTargets.get? (roundId,
              program.orchestrator.config.coordinateFor netuid horizon output.output) =
                some target ∧
            (target.status = .resolved ∨ target.status = .voided)) ∧
    ∀ moment visit horizon rest, world.control = .resolving visit (horizon :: rest) →
      program.tryHorizon visit horizon world moment.attempt = none →
        (program.happen limits (.proceed moment) world).tables = world.tables := by
  intro world world'
  have sound := sound_after program limits events
  have precedes := precedes_after program limits events later
  refine ⟨precedes.forward, fun roundId closed => ⟨sound.closed roundId closed,
    precedes.untouched roundId closed⟩, fun roundId horizon marked => ?_,
    fun moment visit horizon rest visits failed => tables_of_failed limits visits failed⟩
  obtain ⟨members, stored, covered⟩ := sound.marked roundId horizon marked
  refine ⟨members, stored, fun netuid member output scored => ?_⟩
  obtain ⟨target, found⟩ := Option.isSome_iff_exists.mp (covered netuid member output scored)
  refine ⟨target, ⟨found, ?_⟩, fun other held => Option.some.inj (held.1.symm.trans found)⟩
  cases target.status with
  | resolved => exact .inl rfl
  | voided => exact .inr rfl

end AssessmentRoundProgram

end Endure.Protocol
