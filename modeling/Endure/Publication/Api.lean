import Endure.Protocol.RoundLifecycle
import Endure.Publication.FeedRuns

/-!
# The read API

The endpoints of `endure/api/app.py` that read the database, for the app of the risk schema, with
the repository queries behind them. What the validator's process hands the app beside the database,
its health and its payout, is an argument.
-/

namespace Endure.Publication

open Library Endure.Storage Endure.Scoring Endure.Protocol

/-- `HTTPException`. -/
structure HttpException where
  statusCode : ℕ
  detail : String
  deriving DecidableEq

/-- A validator's newest earned weights and each pooled hotkey's pool size. -/
structure Payout where
  weights : Dict Hotkey ℚ
  poolSizes : Dict Hotkey ℕ

/-- The fields of the validator's loop health that decide the status of the app. -/
structure RuntimeHealth where
  validatorLoopAlive : Bool
  tickStale : Bool
  consecutiveTickFailures : ℕ
  consecutiveUniverseFailures : Option ℕ
  consecutiveResolutionFailures : Option ℕ
  consecutiveEmptyScoredRounds : Option ℕ
  consecutiveSetWeightsFailures : Option ℕ
  weightEmissionDegraded : Option Bool
  rpcGateDegraded : Option Bool
  assessmentDueSeconds : Option (Dict ℕ ℤ)
  overdueGraceSeconds : Option ℤ

/-- What the process hands the app. -/
structure ApiContext where
  runtime : Option RuntimeHealth
  activeCoordinates : Option (List Coordinate)
  payout : Option (Option Payout)

def maxLimit : ℤ := 200

def healthRoundsSample : ℕ := 10

def emptyScoredRoundsHealthThreshold : ℕ := 2

def defaultOverdueGraceSeconds : ℤ := 1800

def weightSharpeningGamma : ℕ := 3

def riskHorizons : List ℕ := [5 * 24 * 60 * 60, horizon30dSeconds]

/-- A list endpoint's limit within its bounds. -/
def bounded (limit : ℤ) : ℕ := (max 1 (min limit maxLimit)).toNat

/-! ### Queries -/

/-- The name a state is stored under. -/
def stateText : RoundState → String
  | .open => "open"
  | .revealed => "revealed"
  | .partiallyScored => "partially_scored"
  | .closed => "closed"

structure RoundIndexEntry where
  roundId : String
  state : RoundState
  createdAt : String
  revealCloseAt : ℤ
  publicationAvailableAt : ℤ

/-- Round index for the dashboard surface, newest first. -/
def listRounds (store : Store) (schemaId : String) (state : Option String) (limit : ℕ)
    (before : Option String) : List RoundIndexEntry :=
  let listed := (store.rounds.filter fun key row => key.schemaId = schemaId ∧
    state.all (stateText row.state = ·) ∧ before.all (key.roundId < ·)).entries
  ((listed.insertionSort fun first second => second.1.roundId ≤ first.1.roundId).take limit).map
    fun entry => ⟨entry.1.roundId, entry.2.state, entry.2.createdAt, entry.2.windows.revealClose,
      entry.2.publicationAvailableAt⟩

structure RoundMeta where
  round : RoundKey
  state : RoundState
  createdAt : String
  universeStale : Bool
  degraded : Bool
  windows : RoundWindows
  publicationAvailableAt : ℤ
  universeSourceHash : Option String
  universeSize : ℕ
  acceptedSubmissions : Option ℕ

def roundMeta (store : Store) (round : RoundKey) : Option RoundMeta :=
  (store.rounds.get? round).map fun row =>
    let accepted := store.submissions.filter fun key row =>
      key.1 = round ∧ row.verdict = .accepted
    { round, state := row.state, createdAt := row.createdAt, universeStale := row.universeStale
      degraded := row.degraded, windows := row.windows
      publicationAvailableAt := row.publicationAvailableAt
      universeSourceHash := (store.universeFor round).map UniverseSnapshot.sourceHash
      universeSize := ((store.universeFor round).map (·.tickers.length)).getD 0
      acceptedSubmissions := some accepted.entries.length }

/-- A page of the accepted bundles of a round, ordered by hotkey. -/
def acceptedBundlesPage (store : Store) (round : RoundKey) (limit offset : ℕ) :
    List (Hotkey × Option String) :=
  ((store.acceptedBundles round).drop offset).take limit

/-- The targets of a round in the order of their coordinates. -/
def assessmentRealizedTargetsFor (tables : AssessmentTables) (roundId : String) :
    List AssessmentRealizedTarget :=
  (tables.realizedTargets.filter fun key _ => key.1 = roundId).values.insertionSort
    fun first second => (compare first.coordinate second.coordinate).isLE

/-- The scores of a round in the order of their hotkeys and coordinates. -/
def assessmentScoreHistoryForRound (tables : AssessmentTables) (roundId : String) :
    List ((Hotkey × Coordinate) × ScoreHistoryRow) :=
  ((tables.scoreHistory.filter fun key _ => key.1 = roundId).entries.map fun entry =>
    (entry.1.2, entry.2)).insertionSort fun first second =>
      first.1.1 < second.1.1 ∨
        first.1.1 = second.1.1 ∧ (compare first.1.2 second.1.2).isLE = true

/-- The averages in the order of their hotkeys and coordinates. -/
def assessmentEmaStates (tables : AssessmentTables) : List ((Hotkey × Coordinate) × EmaState) :=
  tables.emaStates.entries.insertionSort fun first second =>
    first.1.1 < second.1.1 ∨ first.1.1 = second.1.1 ∧ (compare first.1.2 second.1.2).isLE = true

/-- Persisted resolution markers for one unfinished assessment round. -/
structure AssessmentRoundResolutionProgress where
  roundId : String
  revealCloseAt : ℤ
  resolvedHorizons : List ℕ

def unfinishedAssessmentResolutionProgress (store : Store) (tables : AssessmentTables)
    (schemaId : String) : List AssessmentRoundResolutionProgress :=
  (unfinishedRounds store schemaId).map fun roundId =>
    ⟨roundId, ((store.rounds.get? ⟨roundId, schemaId⟩).map (·.windows.revealClose)).getD 0,
      (tables.horizonResolutions.filter fun key _ => key.1 = roundId).keys.map Prod.snd⟩

/-! ### Resolution health -/

structure HorizonResolutionHealth where
  horizonSeconds : ℕ
  dueAt : ℤ

structure RoundResolutionHealthDetail where
  roundId : String
  pendingHorizons : List HorizonResolutionHealth
  overdueHorizons : List HorizonResolutionHealth

structure RoundResolutionHealth where
  pendingRoundCount : ℕ
  overdueRoundCount : ℕ
  pendingRounds : List RoundResolutionHealthDetail
  overdueRounds : List RoundResolutionHealthDetail

/-- The horizons of a round that are not resolved, split by whether their grace is over. -/
def roundResolutionDetail (horizons : List ℕ) (now : ℤ) (dueSeconds : Option (Dict ℕ ℤ))
    (overdueGraceSeconds : ℤ) (progress : AssessmentRoundResolutionProgress) :
    RoundResolutionHealthDetail :=
  let unresolved := (horizons.filter (· ∉ progress.resolvedHorizons)).map fun horizon : ℕ =>
    let effectiveDueSeconds : ℤ := (dueSeconds.map (·.getD horizon horizon)).getD horizon
    (⟨horizon, progress.revealCloseAt + effectiveDueSeconds * 1000000⟩ : HorizonResolutionHealth)
  let overdue (health : HorizonResolutionHealth) : Bool :=
    health.dueAt + overdueGraceSeconds * 1000000 < now
  ⟨progress.roundId, unresolved.filter (¬overdue ·), unresolved.filter overdue⟩

/-- Classify unfinished rounds as expected pending or operationally overdue. -/
def assessmentRoundResolutionHealth (progressRows : List AssessmentRoundResolutionProgress)
    (horizons : List ℕ) (now : ℤ) (sampleLimit : ℕ) (dueSeconds : Option (Dict ℕ ℤ))
    (overdueGraceSeconds : ℤ) : RoundResolutionHealth :=
  let details := progressRows.map
    (roundResolutionDetail horizons now dueSeconds overdueGraceSeconds)
  let overdue := details.filter fun detail => ¬detail.overdueHorizons.isEmpty
  let pending := details.filter fun detail =>
    detail.overdueHorizons.isEmpty ∧ ¬detail.pendingHorizons.isEmpty
  ⟨pending.length, overdue.length, pending.take sampleLimit, overdue.take sampleLimit⟩

/-! ### The leaderboard -/

def mean (values : List ℚ) : ℚ := values.sum / values.length

structure LeaderboardRow where
  rank : ℕ
  minerHotkey : Hotkey
  blendedScore : ℚ
  weightShare : ℚ
  poolSize : ℕ
  horizonEmas : List (ℕ × ℚ)
  coordinateEmas : List (Coordinate × EmaState)

/-- The mean average of every horizon. -/
def assessmentHorizonEmas (states : List ((Hotkey × Coordinate) × EmaState)) : List (ℕ × ℚ) :=
  let grouped := Dict.collect (states.map fun state => (state.1.2.horizonValue, state.2.ema))
  (grouped.keys.insertionSort (· ≤ ·)).map fun horizon => (horizon, mean (grouped.getD horizon []))

def assessmentEmaPayloads (states : List ((Hotkey × Coordinate) × EmaState)) :
    List (Coordinate × EmaState) :=
  (states.map fun state => (state.1.2, state.2)).insertionSort fun first second =>
    (compare first.1 second.1).isLE

def assessmentLeaderboard (tables : AssessmentTables) (activeCoordinates : Option (List Coordinate))
    (payout : Option Payout) : List LeaderboardRow :=
  let states := (assessmentEmaStates tables).filter fun state =>
    activeCoordinates.all (state.1.2 ∈ ·)
  let byHotkey := Dict.collect (states.map fun state => (state.1.1, state))
  let blends := Dict.ofEntries ((byHotkey.keys.insertionSort (· ≤ ·)).map fun hotkey =>
    (hotkey, mean ((byHotkey.getD hotkey []).map (·.2.ema))))
  let weights := match payout with
    | none => normalizeWeights blends weightSharpeningGamma []
    | some payout => payout.weights
  let poolSizes := match payout with
    | none => Dict.empty
    | some payout => payout.poolSizes
  let ranked := blends.keys.insertionSort fun first second : Hotkey =>
    blends.getD second 0 < blends.getD first 0 ∨
      blends.getD first 0 = blends.getD second 0 ∧ first ≤ second
  ranked.zipIdx.map fun (hotkey, index) =>
    { rank := index + 1
      minerHotkey := hotkey
      blendedScore := blends.getD hotkey 0
      weightShare := weights.getD hotkey 0
      poolSize := poolSizes.getD hotkey 1
      horizonEmas := assessmentHorizonEmas (byHotkey.getD hotkey [])
      coordinateEmas := assessmentEmaPayloads (byHotkey.getD hotkey []) }

/-! ### Endpoints -/

/-- A request to the app. -/
inductive ApiRequest
  | health
  | rounds (state : Option String) (limit : ℤ) (before : Option String)
  | miners
  | round (roundId : String)
  | roundUniverse (roundId : String)
  | scores (roundId : String)
  | consensus (roundId : String)
  | submissions (roundId : String) (limit offset : ℤ)
  | outcomes (roundId : String)
  | minerScores (hotkey : Hotkey)
  | riskSubnets

/-- The body of an answer. -/
inductive ApiPayload
  | health (degraded : Bool) (unfinishedRoundCount : ℕ) (unfinishedRounds : List String)
      (roundResolution : RoundResolutionHealth)
  | rounds (rows : List RoundIndexEntry)
  | miners (rows : List LeaderboardRow)
  | round (row : RoundMeta)
  | roundUniverse (roundId : String) (snapshot : UniverseSnapshot)
  | scores (rows : List ((Hotkey × Coordinate) × ScoreHistoryRow))
  | consensus (rows : List AssessmentConsensusRow)
  | submissions (roundId : String) (limit offset : ℕ) (hasMore : Bool)
      (bundles : List (Hotkey × String))
  | outcomes (rows : List AssessmentRealizedTarget)
  | minerScores (hotkey : Hotkey) (emas : List (Coordinate × EmaState))
  | riskSubnets (feed : FeedPayload)

/-- The embargo of a round is over. -/
def embargoLifted (row : RoundMeta) (now : ℤ) : Bool :=
  row.state ≠ .open ∧ row.publicationAvailableAt < now

def stillOpen : String :=
  "round is still open — submissions and consensus are embargoed until the reveal window closes"

def ensureEmbargoLifted (row : RoundMeta) (now : ℤ) : Except HttpException Unit :=
  if row.state ≠ .open then
    if embargoLifted row now then .ok ()
    else .error ⟨403, "round data remains embargoed until the next commit window closes"⟩
  else .error ⟨403, stillOpen⟩

def roundMetaOr404 (store : Store) (round : RoundKey) : Except HttpException RoundMeta :=
  match roundMeta store round with
  | some row => .ok row
  | none => .error ⟨404, "unknown round"⟩

/-- The gate of the endpoints about one round's data. -/
def pastEmbargo (store : Store) (round : RoundKey) (now : ℤ) : Except HttpException Unit := do
  ensureEmbargoLifted (← roundMetaOr404 store round) now

/-- Whether the validator's loop makes the app degraded. -/
def RuntimeHealth.degraded (runtime : RuntimeHealth) : Bool :=
  ¬runtime.validatorLoopAlive ∨ runtime.tickStale ∨ 0 < runtime.consecutiveTickFailures ∨
    0 < runtime.consecutiveUniverseFailures.getD 0 ∨
    0 < runtime.consecutiveResolutionFailures.getD 0 ∨
    emptyScoredRoundsHealthThreshold ≤ runtime.consecutiveEmptyScoredRounds.getD 0 ∨
    0 < runtime.consecutiveSetWeightsFailures.getD 0 ∨
    runtime.weightEmissionDegraded.getD false ∨ runtime.rpcGateDegraded.getD false

def health (context : ApiContext) (state : FeedState) (now : ℤ) : ApiPayload :=
  let unfinished := unfinishedRounds state.store riskSchemaId
  let roundResolution := assessmentRoundResolutionHealth
    (unfinishedAssessmentResolutionProgress state.store state.tables riskSchemaId)
    riskHorizons now healthRoundsSample (context.runtime.bind (·.assessmentDueSeconds))
    ((context.runtime.bind (·.overdueGraceSeconds)).getD defaultOverdueGraceSeconds)
  .health (0 < roundResolution.overdueRoundCount ∨ context.runtime.any (·.degraded))
    unfinished.length (unfinished.take healthRoundsSample) roundResolution

/-- Answer a request. -/
def respond (context : ApiContext) (now : ℤ) (request : ApiRequest) (state : FeedState) :
    Except HttpException ApiPayload :=
  match request with
  | .health => .ok (health context state now)
  | .rounds wanted limit before =>
    .ok (.rounds (listRounds state.store riskSchemaId wanted (bounded limit) before))
  | .miners =>
    match context.payout with
    | some none => .error ⟨503, "validator weights not computed yet"⟩
    | some (some payout) =>
      .ok (.miners (assessmentLeaderboard state.tables context.activeCoordinates (some payout)))
    | none => .ok (.miners (assessmentLeaderboard state.tables context.activeCoordinates none))
  | .round roundId => do
    let row ← roundMetaOr404 state.store (riskRound roundId)
    -- While miners can still adapt, who has revealed is not disclosed.
    return .round (if embargoLifted row now then row else { row with acceptedSubmissions := none })
  | .roundUniverse roundId => do
    let _ ← roundMetaOr404 state.store (riskRound roundId)
    match state.store.universeFor (riskRound roundId) with
    | some snapshot => return .roundUniverse roundId snapshot
    | none => throw ⟨404, "round has no universe"⟩
  | .scores roundId => do
    pastEmbargo state.store (riskRound roundId) now
    return .scores (assessmentScoreHistoryForRound state.tables roundId)
  | .consensus roundId => do
    pastEmbargo state.store (riskRound roundId) now
    return .consensus (assessmentConsensusFor state.store (riskRound roundId))
  | .submissions roundId limit offset => do
    pastEmbargo state.store (riskRound roundId) now
    let rows := acceptedBundlesPage state.store (riskRound roundId) (bounded limit + 1) offset.toNat
    let bundles ← (rows.take (bounded limit)).mapM fun row =>
      match row.2 with
      | some bundleJson => .ok (row.1, bundleJson)
      | none => .error ⟨500, "Internal Server Error"⟩
    return .submissions roundId (bounded limit) offset.toNat (bounded limit < rows.length) bundles
  | .outcomes roundId => do
    pastEmbargo state.store (riskRound roundId) now
    return .outcomes (assessmentRealizedTargetsFor state.tables roundId)
  | .minerScores hotkey =>
    let states := (assessmentEmaStates state.tables).filter (·.1.1 = hotkey)
    if states = [] then .error ⟨404, "unknown miner"⟩
    else .ok (.minerScores hotkey (assessmentEmaPayloads states))
  | .riskSubnets =>
    match feedPayload state.store state.tables now with
    | .ok feed => .ok (.riskSubnets feed)
    | .error _ => .error ⟨500, "Internal Server Error"⟩

end Endure.Publication
