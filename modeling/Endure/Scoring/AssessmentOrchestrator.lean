import Endure.Library.Checked
import Endure.Scoring.AssessmentTables

/-!
# The assessment orchestrator

Target resolution, scoring passes and blended scores of
`endure/scoring/assessment_orchestrator.py`. A call to `resolve_and_score` carries what
its clock and its resolvers answer; Decimal arithmetic is exact.
-/

namespace Endure.Scoring

open Library Library.Checked Endure.Storage

/-- An absent hotkey whose every active average has decayed below this is pruned. -/
def archiveEpsilon : ℚ := 1 / 100

/-- An output and the parameters it is scored with. -/
structure ScoredOutputConfig where
  output : String
  spec : AssessmentScoringSpec

/-- The schema-specific parts of scoring. A bundle that does not parse has no values. -/
structure AssessmentScoringConfig where
  schemaId : String
  horizons : List ℕ
  universeMembers : List String → Option (List ℕ)
  bundleValues : String → Option (Dict Coordinate ℤ)
  outputs : List ScoredOutputConfig
  activeCoordinates : Option (Finset Coordinate)
  coordinateFor : ℕ → ℕ → String → Coordinate
  coordinateFor_horizon : ∀ netuid horizon output,
    (coordinateFor netuid horizon output).horizonValue = horizon
  coordinateFor_output : ∀ netuid horizon output,
    (coordinateFor netuid horizon output).output = output

/-- The orchestrator of a schema: its configuration and its averaging factor. -/
structure AssessmentScoringOrchestrator where
  config : AssessmentScoringConfig
  alpha : ℚ
  alpha_pos : 0 < alpha
  alpha_lt_one : alpha < 1

/-- What a resolver call comes to. -/
inductive ResolverAnswer
  | target (target : AssessmentRealizedTarget)
  | unavailable
  | deadlineExceeded
  | raises

/-- One call to `resolve_and_score`: its arguments, the answers of the budget clock in
the order it is asked, and the answers of the resolvers. -/
structure ScoringCall where
  roundId : String
  horizon : ℕ
  nowIso : String
  archiveHotkeys : List Hotkey
  exhausted : ℕ → Bool
  resolver : ℕ → ℕ → String → ResolverAnswer

namespace AssessmentScoringConfig

variable (config : AssessmentScoringConfig)

/-- The coordinate contributes to payout and consensus blends. -/
def eligibleCoordinate (coordinate : Coordinate) : Bool :=
  match config.activeCoordinates with
  | some active => coordinate ∈ active
  | none => (config.outputs.map ScoredOutputConfig.output).contains coordinate.output

/-- The accepted reveals of a round, by hotkey; a bundle that does not parse is skipped. -/
def acceptedValues (rounds : Store) (roundId : String) : Dict Hotkey (Dict Coordinate ℤ) :=
  Dict.ofEntries ((rounds.scoringBundles ⟨roundId, config.schemaId⟩).filterMap fun bundle =>
    (bundle.2.bind config.bundleValues).map (bundle.1, ·))

/-- The pairs of a subnet and an output, in resolution order. -/
def cellsOf (netuids : List ℕ) : List (ℕ × String) :=
  netuids.flatMap fun netuid => config.outputs.map fun output => (netuid, output.output)

/-- The coordinates of a round at one horizon. -/
def coordinatesAt (netuids : List ℕ) (horizon : ℕ) : List Coordinate :=
  (config.cellsOf netuids).map fun cell => config.coordinateFor cell.1 horizon cell.2

/-- The coordinates of a round at every horizon. -/
def roundCoordinates (netuids : List ℕ) : List Coordinate :=
  config.horizons.flatMap (config.coordinatesAt netuids)

/-- The configuration of an output by its name; the last of a name counts. -/
def outputByName (name : String) : Option ScoredOutputConfig :=
  config.outputs.reverse.find? fun output => output.output = name

/-- Resolve the missing targets in order until the budget or a resolver's deadline ends;
`asked` counts the questions put to the clock. -/
def resolveTargets (call : ScoringCall) (existing : List Coordinate) :
    List (ℕ × String) → ℕ → Except ScoringError (List AssessmentRealizedTarget)
  | [], _ => .ok []
  | (netuid, output) :: rest, asked =>
    if config.coordinateFor netuid call.horizon output ∈ existing then
      resolveTargets call existing rest asked
    else if call.exhausted asked then .ok []
    else
      match call.resolver netuid call.horizon output with
      | .raises => .error .resolver
      | .deadlineExceeded => .ok []
      | .unavailable => resolveTargets call existing rest (asked + 1)
      | .target target =>
        (resolveTargets call existing rest (asked + 1)).map (target :: ·)

end AssessmentScoringConfig

/-- The targets that carry a value. -/
def resolvedValues (targets : List AssessmentRealizedTarget) : Dict Coordinate ℚ :=
  Dict.ofEntries (targets.filterMap fun target =>
    if target.status = .resolved then target.value.map (target.coordinate, ·) else none)

/-- `int(value)`: truncation towards zero. -/
def truncate (value : ℚ) : ℤ := value.num.tdiv value.den

/-- One hotkey's score at one coordinate. -/
structure ScoredCell where
  hotkey : Hotkey
  coordinate : Coordinate
  score : ℚ
  error : Option ℚ

namespace AssessmentScoringOrchestrator

variable (orchestrator : AssessmentScoringOrchestrator)

/-- Score a hotkey at a resolved coordinate; a missing submission scores zero. -/
def scoreCell (accepted : Dict Hotkey (Dict Coordinate ℤ)) (hotkey : Hotkey)
    (coordinate : Coordinate) (target : ℚ) : Except ScoringError ScoredCell :=
  match orchestrator.config.outputByName coordinate.output with
  | none => .error .unknownOutput
  | some outputConfig =>
    match (accepted.get? hotkey).bind (·.get? coordinate) with
    | none => .ok ⟨hotkey, coordinate, 0, none⟩
    | some submitted =>
      (scoreOutput submitted (truncate target) outputConfig.spec).map fun score =>
        ⟨hotkey, coordinate, score, some |((submitted - truncate target : ℤ) : ℚ)|⟩

/-- The moving average a scored cell leads to. -/
def emaUpdateOf (emas : Dict (Hotkey × Coordinate) EmaState) (cell : ScoredCell) :
    (Hotkey × Coordinate) × EmaState :=
  let prior := emas.get? (cell.hotkey, cell.coordinate)
  ((cell.hotkey, cell.coordinate),
    ⟨emaUpdate orchestrator.alpha (prior.map EmaState.ema) cell.score,
      (prior.map EmaState.resolvedRounds).getD 0 + 1⟩)

/-- Current submitters, and the eligible hotkeys with an average at an active coordinate
or at one of the round's. -/
def scoringSet (emas : Dict (Hotkey × Coordinate) EmaState) (roundCoordinates : List Coordinate)
    (eligible : List Hotkey) (accepted : Dict Hotkey (Dict Coordinate ℤ)) : List Hotkey :=
  let previouslyActive := (emas.keys.filter fun key =>
    orchestrator.config.eligibleCoordinate key.2 ∨ key.2 ∈ roundCoordinates).map Prod.fst
  ((previouslyActive.filter (· ∈ eligible)) ++ accepted.keys).dedup.insertionSort (· ≤ ·)

/-- The absent hotkeys whose every active average is below the threshold. -/
def fullyDecayedHotkeys (absent : List Hotkey) (previous : Dict (Hotkey × Coordinate) EmaState)
    (updates : List ((Hotkey × Coordinate) × EmaState)) : List Hotkey :=
  absent.filter fun hotkey =>
    let emas := ((previous.setAll updates).filter fun key _ =>
      key.1 = hotkey ∧ orchestrator.config.eligibleCoordinate key.2).values
    emas ≠ [] ∧ emas.all (·.ema < archiveEpsilon)

/-- Every hotkey's mean score over the resolved coordinates. -/
def roundScores (cells : List ScoredCell) : Dict Hotkey ℚ :=
  Dict.ofEntries ((cells.map ScoredCell.hotkey).dedup.map fun hotkey =>
    let scores := (cells.filter (·.hotkey = hotkey)).map ScoredCell.score
    (hotkey, scores.sum / scores.length))

/-- The rows a pass persists for its targets and scored cells. -/
def scoringPass (call : ScoringCall) (emas : Dict (Hotkey × Coordinate) EmaState)
    (accepted : Dict Hotkey (Dict Coordinate ℤ)) (targets : List AssessmentRealizedTarget)
    (complete : Bool) (cells : List ScoredCell) : ScoringPass :=
  let emaUpdates := cells.map (orchestrator.emaUpdateOf emas)
  -- who was scored without an accepted bundle decays, and may be pruned
  let zeroFilled := (((emaUpdates.filter fun update =>
    orchestrator.config.eligibleCoordinate update.1.2).map (·.1.1)).filter
      (¬accepted.contains ·)).dedup
  { horizonValue := call.horizon
    realizedTargets := targets
    outputScores := cells.map fun cell =>
      ((cell.hotkey, cell.coordinate), ⟨cell.score, cell.error⟩)
    emaUpdates
    scoreHistory := cells.map fun cell =>
      ((cell.hotkey, cell.coordinate), ⟨cell.score, (orchestrator.emaUpdateOf emas cell).2.ema⟩)
    complete
    archiveHotkeys := call.archiveHotkeys
    prunedHotkeys :=
      (orchestrator.fullyDecayedHotkeys zeroFilled emas emaUpdates).insertionSort (· ≤ ·)
    prunedCoordinates := orchestrator.config.activeCoordinates }

/-- Score the round over its universe: the pass to persist, and the round's scores. -/
def scoreRound (rounds : Store) (tables : AssessmentTables) (call : ScoringCall)
    (members : List ℕ) : Except ScoringError (ScoringPass × Dict Hotkey ℚ) := do
  let config := orchestrator.config
  let netuids := members.insertionSort (· ≤ ·)
  let expected := config.coordinatesAt netuids call.horizon
  let existing := tables.resolvedCoordinates call.roundId call.horizon
  let targets ← config.resolveTargets call existing (config.cellsOf netuids) 1
  let complete := expected.all fun coordinate =>
    coordinate ∈ existing ∨ coordinate ∈ targets.map AssessmentRealizedTarget.coordinate
  let accepted := config.acceptedValues rounds call.roundId
  let hotkeys := orchestrator.scoringSet tables.emaStates (config.roundCoordinates netuids)
    (rounds.assessmentHotkeysEligibleForRound config.schemaId call.roundId) accepted
  let resolved := (resolvedValues targets).entries.insertionSort fun first second =>
    (compare first.1 second.1).isLE
  let cells ← (hotkeys.flatMap fun hotkey => resolved.map fun entry => (hotkey, entry)).mapM
    fun cell => orchestrator.scoreCell accepted cell.1 cell.2.1 cell.2.2
  pure (orchestrator.scoringPass call tables.emaStates accepted targets complete cells,
    roundScores cells)

/-- The pass a call has to persist, with the round's scores. A completed horizon and a
budget spent at entry leave nothing to do. -/
def preparePass (rounds : Store) (tables : AssessmentTables) (call : ScoringCall) :
    Except ScoringError (Option (ScoringPass × Dict Hotkey ℚ)) :=
  if tables.hasAssessmentResolutionMarker call.roundId call.horizon then .ok none
  else if call.exhausted 0 then .ok none
  else
    match rounds.universeFor ⟨call.roundId, orchestrator.config.schemaId⟩ with
    | none => .error .missingUniverse
    | some snapshot =>
      match orchestrator.config.universeMembers snapshot.tickers with
      | none => .error .malformedUniverse
      | some members => (orchestrator.scoreRound rounds tables call members).map some

/-- Resolve what can be resolved of a round's horizon, score it and persist the pass. -/
def resolveAndScore (rounds : Store) (tables : AssessmentTables) (call : ScoringCall) :
    Except ScoringError (AssessmentTables × Dict Hotkey ℚ) := do
  match ← orchestrator.preparePass rounds tables call with
  | none => pure (tables, Dict.empty)
  | some (pass, scores) =>
    let recorded ← tables.recordAssessmentScoringPass call.roundId pass call.nowIso
    pure (recorded, scores)

/-- Every hotkey's mean moving average over its active coordinates. -/
def blendedScores (tables : AssessmentTables) : Dict Hotkey ℚ :=
  let active := tables.emaStates.filter fun key _ => orchestrator.config.eligibleCoordinate key.2
  Dict.ofEntries (((active.keys.map Prod.fst).dedup.insertionSort (· ≤ ·)).map fun hotkey =>
    let emas := (active.filter fun key _ => key.1 = hotkey).values.map EmaState.ema
    (hotkey, emas.sum / emas.length))

end AssessmentScoringOrchestrator

end Endure.Scoring
