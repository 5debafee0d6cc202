import Endure.Aggregation.AssessmentConsensus
import Endure.Scoring.AssessmentTables

/-!
# The risk feed

The tier derivation of `endure/publication/risk_tier.py`, the queries of
`endure/storage/repository.py` behind the feed, and the payload of
`endure/publication/risk_feed.py`.
-/

namespace Endure.Publication

open Library Endure.Storage Endure.Scoring Endure.Aggregation

/-! ### Tiers -/

inductive RiskTier
  | A
  | B
  | C
  | D
  | E
  | unrated
  deriving DecidableEq

structure RiskTierInputs where
  maxDrawdownBps : Option ℚ
  realizedVolatilityBps : Option ℚ
  maxDrawdownVoided : Bool
  realizedVolatilityVoided : Bool
  deriving DecidableEq

def deriveRiskTier (inputs : RiskTierInputs) : RiskTier :=
  match inputs.maxDrawdownBps, inputs.realizedVolatilityBps with
  | some drawdown, some volatility =>
    if inputs.maxDrawdownVoided ∨ inputs.realizedVolatilityVoided then .unrated
    else if drawdown < 1000 ∧ volatility < 5000 then .A
    else if drawdown < 2000 ∧ volatility < 8000 then .B
    else if drawdown < 3500 ∧ volatility < 12000 then .C
    else if drawdown < 5000 ∧ volatility < 16000 then .D
    else .E
  | _, _ => .unrated

/-- A tier is derived from two values that are not voided. -/
theorem deriveRiskTier_ne_unrated_iff {inputs : RiskTierInputs} :
    deriveRiskTier inputs ≠ .unrated ↔ inputs.maxDrawdownBps.isSome ∧
      inputs.realizedVolatilityBps.isSome ∧ inputs.maxDrawdownVoided = false ∧
      inputs.realizedVolatilityVoided = false := by
  obtain ⟨drawdown, volatility, voided, voided'⟩ := inputs
  cases drawdown with
  | none => simp [deriveRiskTier]
  | some drawdown =>
    cases volatility with
    | none => simp [deriveRiskTier]
    | some volatility =>
      cases voided with
      | true => simp [deriveRiskTier]
      | false =>
        cases voided' with
        | true => simp [deriveRiskTier]
        | false =>
          simp only [deriveRiskTier, Bool.false_eq_true, or_self, if_false, Option.isSome_some,
            and_self, iff_true]
          split_ifs <;> exact nofun

/-! ### Queries -/

/-- What makes the payload raise: a text that is no number, or a key that is not there. -/
inductive FeedError
  | valueError
  | keyError
  deriving DecidableEq

/-- `int(text)`, for the decimal texts that netuids are stored as. -/
def readNetuid (text : String) : Except FeedError ℕ :=
  match text.toNat? with
  | some netuid => .ok netuid
  | none => .error .valueError

/-- The value under a key that has to be there. -/
def fetch {κ ν : Type} [DecidableEq κ] (d : Dict κ ν) (key : κ) : Except FeedError ν :=
  match d.get? key with
  | some value => .ok value
  | none => .error .keyError

def riskSchemaId : String := "risk.v1.subnet_alpha"

def horizon30dSeconds : ℕ := 30 * 24 * 60 * 60

/-- The key of a round of the risk schema. -/
def riskRound (roundId : String) : RoundKey := ⟨roundId, riskSchemaId⟩

/-- The rounds of a schema past their embargo. -/
def postEmbargoRounds (store : Store) (schemaId : String) (now : ℤ) : List String :=
  (store.rounds.filter fun key row => key.schemaId = schemaId ∧ row.state ≠ .open ∧
    row.publicationAvailableAt < now).keys.map RoundKey.roundId

/-- The consensus rows of a round in the order of their coordinates. -/
def assessmentConsensusFor (store : Store) (round : RoundKey) : List AssessmentConsensusRow :=
  (store.consensusRows round).insertionSort fun first second =>
    (compare first.coordinate second.coordinate).isLE

/-- The newest published round past its embargo; round ids are ISO dates. -/
def latestAssessmentConsensusRound (store : Store) (schemaId : String) (now : ℤ) :
    Option String :=
  ((store.consensus.filter fun key _ => key.1.schemaId = schemaId ∧
    key.1.roundId ∈ postEmbargoRounds store schemaId now).keys.map (·.1.roundId)).max?

/-- The targets with a value at a horizon that join a consensus row past the embargo. -/
def joinedTargets (store : Store) (tables : AssessmentTables) (schemaId : String)
    (horizonValue : ℕ) (outputs : List String) (now : ℤ) : List (String × Coordinate) :=
  (tables.realizedTargets.filter fun key target =>
    store.consensus.contains (⟨key.1, schemaId⟩, key.2) ∧ key.2.horizonValue = horizonValue ∧
      key.2.targetKind = "subnet_asset" ∧ target.status = .resolved ∧ target.value.isSome ∧
      key.2.output ∈ outputs ∧ key.1 ∈ postEmbargoRounds store schemaId now).keys

/-- The groups of a target id and a round in which every output is there. -/
def completeTargetRounds (joined : List (String × Coordinate)) (outputs : List String) :
    List (String × String) :=
  (joined.map fun key => (key.2.targetId, key.1)).dedup.filter fun group =>
    ((joined.filter fun key => (key.2.targetId, key.1) = group).map (·.2.output)).dedup.length =
      outputs.length

/-- The latest complete resolved round of every subnet for one horizon. -/
def latestAssessmentRoundsWithResolvedOutputs (store : Store) (tables : AssessmentTables)
    (schemaId : String) (horizonValue : ℕ) (outputs : List String) (now : ℤ) :
    Except FeedError (Dict ℕ String) :=
  let requiredOutputs := outputs.dedup
  if requiredOutputs = [] then .ok Dict.empty
  else do
    let groups := completeTargetRounds
      (joinedTargets store tables schemaId horizonValue requiredOutputs now) requiredOutputs
    let rows ← ((groups.map Prod.fst).dedup.insertionSort (· ≤ ·)).mapM fun targetId => do
      let netuid ← readNetuid targetId
      -- The maximum of a group, which is never empty.
      return (netuid, ((groups.filter (·.1 = targetId)).map Prod.snd).max?.getD "")
    return Dict.ofEntries rows

/-! ### The payload -/

def alphaRiskWhitelistedNetuids : List ℕ :=
  [3, 4, 8, 9, 30, 34, 44, 50, 51, 53, 56, 64, 68, 107, 120]

def feedSchemaVersion : ℕ := 1

def tierOutputs : List String := ["max_drawdown", "realized_volatility"]

/-- What the feed has read about the tier rounds. -/
structure TierFeedContext where
  roundsByNetuid : Dict ℕ String
  rowsByRound : Dict String (Dict ℕ (List AssessmentConsensusRow))
  resolvedOutputsByRound : Dict String (List Coordinate)
  revealCloseByRound : Dict String (Option ℤ)

structure ConsensusPayload where
  output : String
  horizonSeconds : ℕ
  median : ℚ
  mad : ℚ
  nSubmitters : ℕ
  deriving DecidableEq

structure SubnetPayload where
  netuid : ℕ
  tier : RiskTier
  tierRoundId : Option String
  tierAsOf : Option ℤ
  consensus : List ConsensusPayload
  deriving DecidableEq

structure FeedPayload where
  schemaId : String
  feedSchemaVersion : ℕ
  roundId : Option String
  asOf : Option ℤ
  subnets : List SubnetPayload
  deriving DecidableEq

def netuidsFromUniverse (store : Store) (roundId : Option String) : Except FeedError (List ℕ) :=
  match roundId with
  | none => .ok alphaRiskWhitelistedNetuids
  | some roundId =>
    match store.universeFor (riskRound roundId) with
    | none => .ok alphaRiskWhitelistedNetuids
    | some snapshot => snapshot.tickers.mapM readNetuid

def consensusPayload (row : AssessmentConsensusRow) : ConsensusPayload :=
  ⟨row.coordinate.output, row.coordinate.horizonValue, row.value, row.dispersion,
    row.nSubmitters⟩

def rowsByNetuid (rows : List AssessmentConsensusRow) :
    Except FeedError (Dict ℕ (List AssessmentConsensusRow)) := do
  let entries ← (rows.filter fun row => row.coordinate.targetKind = "subnet_asset").mapM fun row =>
    (readNetuid row.coordinate.targetId).map fun netuid => (netuid, row)
  return Dict.collect entries

/-- The values of the two tier outputs after one row: a thirty-day row of one replaces it. -/
def thirtyDayStep (values : Option ℚ × Option ℚ) (row : AssessmentConsensusRow) :
    Option ℚ × Option ℚ :=
  let (maxDrawdown, realizedVolatility) := values
  if row.coordinate.horizonValue ≠ horizon30dSeconds then (maxDrawdown, realizedVolatility)
  else
    (if row.coordinate.output = "max_drawdown" then some row.value else maxDrawdown,
      if row.coordinate.output = "realized_volatility" then some row.value
      else realizedVolatility)

def thirtyDayValues (rows : List AssessmentConsensusRow) : Option ℚ × Option ℚ :=
  rows.foldl thirtyDayStep (none, none)

/-- The thirty-day coordinates of a round whose targets have values. -/
def resolvedThirtyDayOutputs (tables : AssessmentTables) (roundId : String) : List Coordinate :=
  (tables.realizedTargets.filter fun key target => key.1 = roundId ∧
    key.2.horizonValue = horizon30dSeconds ∧ target.status = .resolved ∧
    target.value.isSome).keys.map Prod.snd

def tierInputs (netuid : ℕ) (rows : List AssessmentConsensusRow)
    (resolvedOutputs : List Coordinate) : RiskTierInputs :=
  let (drawdown, volatility) := thirtyDayValues rows
  let drawdownCoordinate := subnetAsset netuid horizon30dSeconds "max_drawdown"
  let volatilityCoordinate := subnetAsset netuid horizon30dSeconds "realized_volatility"
  { maxDrawdownBps := drawdown
    realizedVolatilityBps := volatility
    maxDrawdownVoided := drawdownCoordinate ∉ resolvedOutputs
    realizedVolatilityVoided := volatilityCoordinate ∉ resolvedOutputs }

/-- The reveal close of a round, from its metadata. -/
def revealCloseAt (store : Store) (roundId : String) : Option ℤ :=
  (store.rounds.get? (riskRound roundId)).map (·.windows.revealClose)

def subnetPayload (netuid : ℕ) (consensusRows : List AssessmentConsensusRow)
    (tierContext : TierFeedContext) : Except FeedError SubnetPayload :=
  match tierContext.roundsByNetuid.get? netuid with
  | none => .ok ⟨netuid, .unrated, none, none, consensusRows.map consensusPayload⟩
  | some tierRoundId => do
    let rows ← fetch tierContext.rowsByRound tierRoundId
    let resolvedOutputs ← fetch tierContext.resolvedOutputsByRound tierRoundId
    let tierAsOf ← fetch tierContext.revealCloseByRound tierRoundId
    let tier := deriveRiskTier (tierInputs netuid (rows.getD netuid []) resolvedOutputs)
    return ⟨netuid, tier, some tierRoundId, tierAsOf, consensusRows.map consensusPayload⟩

/-- The tier round of every whitelisted subnet that has one. -/
def tierRoundsByNetuid (store : Store) (tables : AssessmentTables) (now : ℤ) :
    Except FeedError (Dict ℕ String) :=
  (latestAssessmentRoundsWithResolvedOutputs store tables riskSchemaId horizon30dSeconds
    tierOutputs now).map fun rounds => rounds.filter fun netuid _ =>
      netuid ∈ alphaRiskWhitelistedNetuids

/-- Everything the feed reads about some tier rounds. -/
def tierFeedContext (store : Store) (tables : AssessmentTables) (rounds : Dict ℕ String) :
    Except FeedError TierFeedContext := do
  let tierRoundIds := rounds.values.dedup.insertionSort (· ≤ ·)
  let rowsByRound ← tierRoundIds.mapM fun roundId =>
    (rowsByNetuid (assessmentConsensusFor store (riskRound roundId))).map (roundId, ·)
  return {
    roundsByNetuid := rounds
    rowsByRound := Dict.ofEntries rowsByRound
    resolvedOutputsByRound := Dict.ofEntries (tierRoundIds.map fun roundId =>
      (roundId, resolvedThirtyDayOutputs tables roundId))
    revealCloseByRound := Dict.ofEntries (tierRoundIds.map fun roundId =>
      (roundId, revealCloseAt store roundId)) }

def feedPayload (store : Store) (tables : AssessmentTables) (now : ℤ) :
    Except FeedError FeedPayload := do
  let roundId := latestAssessmentConsensusRound store riskSchemaId now
  let consensusRows := (roundId.map fun roundId =>
    assessmentConsensusFor store (riskRound roundId)).getD []
  let members ← netuidsFromUniverse store roundId
  let consensusNetuids := members.filter (· ∈ alphaRiskWhitelistedNetuids)
  let tierRounds ← tierRoundsByNetuid store tables now
  let tierContext ← tierFeedContext store tables tierRounds
  let groupedConsensusRows ← rowsByNetuid consensusRows
  let subnets ← ((consensusNetuids ++ tierRounds.keys).dedup.insertionSort (· ≤ ·)).mapM
    fun netuid => subnetPayload netuid (groupedConsensusRows.getD netuid []) tierContext
  return {
    schemaId := riskSchemaId
    feedSchemaVersion := feedSchemaVersion
    roundId
    asOf := roundId.bind (revealCloseAt store)
    subnets }

end Endure.Publication
