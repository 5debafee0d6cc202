import Endure.Publication.RiskFeed
import Endure.Scoring.RetiredMemory
import Endure.Storage.RoundRuns

/-!
# The states behind the feed

The publishing and scoring transactions of the validator, and what they keep of the rows that
the feed reads: every one is of a coordinate of a subnet, under its own key.
-/

namespace Endure.Publication

open Library Library.Checked Library.Transitions Endure.Storage Endure.Scoring
open Endure.Aggregation

/-! ### The transactions -/

/-- The rows that the program publishes for some accepted bundles; a bundle that does not parse
is skipped. -/
def programConsensusRows (bundleModel : String → Option AssessmentConsensusBundle)
    (blends : Dict Hotkey ℚ) (acceptedBundles : List (Hotkey × Option String)) :
    Option (List AssessmentConsensusRow) :=
  let bundles := Dict.ofEntries (acceptedBundles.filterMap fun accepted =>
    (accepted.2.bind bundleModel).map (accepted.1, ·))
  if bundles.entries = [] then some []
  else (computeAssessmentConsensus bundles blends).toOption

/-- What the resolver of an output comes to. -/
inductive RiskReading
  | value (value : ℚ) (providerPayloadHash : Option String)
  | voided (providerPayloadHash : Option String)
  | unavailable
  | deadlineExceeded
  | raises

/-- The resolvers of the risk outputs: every target is one of its own coordinate. -/
def riskResolver (reading : ℕ → ℕ → String → RiskReading) (netuid horizon : ℕ)
    (output : String) : ResolverAnswer :=
  let coordinate := subnetAsset netuid horizon output
  match reading netuid horizon output with
  | .value value hash => .target ⟨coordinate, some value, .resolved, hash⟩
  | .voided hash => .target ⟨coordinate, none, .voided, hash⟩
  | .unavailable => .unavailable
  | .deadlineExceeded => .deadlineExceeded
  | .raises => .raises

/-- `canonical_alpha_risk_universe_members`, for netuids that its checks accept. -/
def canonicalAlphaRiskUniverseMembers (netuids : List ℕ) : List String :=
  (netuids.insertionSort (· ≤ ·)).map Nat.repr

/-- A risk round opens with the members of its universe, and only the program publishes it. -/
def Genuine : RoundOperation → Prop
  | .openRound _ schemaId snapshot _ _ => schemaId = riskSchemaId → ∀ taken, snapshot = some taken →
    ∃ netuids, taken.tickers = canonicalAlphaRiskUniverseMembers netuids
  | .publish round _ _ => round.schemaId ≠ riskSchemaId
  | _ => True

/-- The rows of the rounds, and those of the risk schema's assessments. -/
structure FeedState where
  store : Store
  tables : AssessmentTables

def FeedState.empty : FeedState := ⟨Store.empty, AssessmentTables.empty⟩

/-- A transaction of the validator. -/
inductive FeedOperation
  | round (operation : RoundOperation) (genuine : Genuine operation)
  | publishConsensus (bundleModel : String → Option AssessmentConsensusBundle)
      (blends : Dict Hotkey ℚ) (roundId nowIso : String)
  | resolveAndScore (orchestrator : AssessmentScoringOrchestrator) (call : ScoringCall)
      (reading : ℕ → ℕ → String → RiskReading)

/-- The state after a transaction. -/
def FeedOperation.apply (limits : Limits) (operation : FeedOperation) (state : FeedState) :
    FeedState :=
  match operation with
  | round operation _ => { state with store := operation.apply limits state.store }
  | publishConsensus bundleModel blends roundId nowIso =>
    { state with
      store := (RoundOperation.publish (riskRound roundId)
        (programConsensusRows bundleModel blends) nowIso).apply limits state.store }
  | resolveAndScore orchestrator call reading =>
    let tick : ScoringTick := ⟨orchestrator, state.store,
      { call with resolver := riskResolver reading }⟩
    { state with tables := tick.apply state.tables }

/-! ### Coordinates of subnets -/

/-- The coordinate of an output of a subnet. -/
def IsSubnetCoordinate (coordinate : Coordinate) : Prop :=
  ∃ netuid horizon output, coordinate = subnetAsset netuid horizon output

/-- The program publishes coordinates of subnets. -/
theorem isSubnetCoordinate_of_program
    {bundleModel : String → Option AssessmentConsensusBundle} {blends : Dict Hotkey ℚ}
    {acceptedBundles : List (Hotkey × Option String)} {rows : List AssessmentConsensusRow}
    (made : programConsensusRows bundleModel blends acceptedBundles = some rows)
    {row : AssessmentConsensusRow} (member : row ∈ rows) : IsSubnetCoordinate row.coordinate := by
  rw [programConsensusRows] at made
  split at made
  · cases made
    exact absurd member List.not_mem_nil
  · obtain ⟨coordinate, listed, built⟩ := exists_item (toOption_eq_some.mp made) member
    obtain ⟨cell, -, checked⟩ := bind_eq_ok.mp built
    have same : row.coordinate = coordinate := by
      rw [consensusRow] at checked
      obtain ⟨-, -, rest⟩ := bind_eq_ok.mp checked
      obtain ⟨-, -, last⟩ := bind_eq_ok.mp rest
      cases last
      rfl
    rw [(List.perm_insertionSort _ _).mem_iff, mem_keys_collectSamples] at listed
    obtain ⟨hotkey, value, found⟩ := listed
    rw [submitted_eq_some, submissionsOf] at found
    split at found
    · next bundle _ =>
      obtain ⟨asset, -, inside⟩ := List.mem_flatMap.mp found
      obtain ⟨item, -, here⟩ := List.mem_map.mp inside
      exact ⟨asset.netuid, item.horizonSeconds, item.output,
        same.trans (Prod.mk.inj here).1.symm⟩
    · exact absurd found List.not_mem_nil

/-- The resolvers answer with the coordinates they are asked for. -/
theorem isSubnetCoordinate_of_resolver {reading : ℕ → ℕ → String → RiskReading}
    {netuid horizon : ℕ} {output : String} {target : AssessmentRealizedTarget}
    (answered : riskResolver reading netuid horizon output = .target target) :
    IsSubnetCoordinate target.coordinate := by
  refine ⟨netuid, horizon, output, ?_⟩
  rw [riskResolver] at answered
  split at answered <;> cases answered <;> rfl

/-! ### What the rows are -/

/-- Every risk row is of a subnet's coordinate, under its own key. -/
structure FeedState.Canonical (state : FeedState) : Prop where
  universes : ∀ round snapshot, state.store.universes.get? round = some snapshot →
    round.schemaId = riskSchemaId →
      ∃ netuids, snapshot.tickers = canonicalAlphaRiskUniverseMembers netuids
  consensus : ∀ round coordinate row, state.store.consensus.get? (round, coordinate) = some row →
    round.schemaId = riskSchemaId → row.coordinate = coordinate ∧ IsSubnetCoordinate coordinate
  targets : ∀ roundId coordinate target,
    state.tables.realizedTargets.get? (roundId, coordinate) = some target →
      IsSubnetCoordinate coordinate

theorem FeedState.canonical_empty : FeedState.empty.Canonical where
  universes _ _ found := by cases found
  consensus _ _ _ found := by cases found
  targets _ _ _ found := by cases found

section Store

variable {store later : Store} {round : RoundKey} {nowIso : String}

theorem snapshotConsensusBundlesIfOpen_shape {bundles : List (Hotkey × Option String)}
    (done : store.snapshotConsensusBundlesIfOpen round nowIso = .ok (bundles, later)) :
    ∃ snapshots, later = { store with snapshots } := by
  rw [Store.snapshotConsensusBundlesIfOpen] at done
  by_cases isOpen : store.roundState round = some .open
  · rw [if_neg (not_not.mpr isOpen)] at done
    by_cases frozen : store.consensusBundles round = []
    · simp only [frozen, ne_eq, not_true_eq_false, if_false] at done
      split at done
      · cases done
      next later inserted =>
        cases done
        exact (Store.insertSnapshots_eq_ok inserted).1
    · simp only [frozen, ne_eq, not_false_eq_true, if_true] at done
      cases done
      exact ⟨_, rfl⟩
  · rw [if_pos isOpen] at done
    cases done
    exact ⟨_, rfl⟩

/-- A round that changes its state keeps its universe and its consensus. -/
theorem setRoundState_shape {state : RoundState}
    (done : store.setRoundState round state nowIso = .ok later) :
    later.universes = store.universes ∧ later.consensus = store.consensus := by
  rw [Store.setRoundState] at done
  split at done
  · cases done
    exact ⟨rfl, rfl⟩
  · split at done
    · cases done
    next taken frozen attempt =>
      obtain ⟨snapshots, rfl⟩ := snapshotConsensusBundlesIfOpen_shape attempt
      cases done
      exact ⟨rfl, rfl⟩

/-- Rows are inserted under their own coordinates. -/
theorem insertConsensusRows_get? {rows : List AssessmentConsensusRow}
    (done : rows.foldlM (Store.insertConsensus round) store = .ok later) :
    later.universes = store.universes ∧ ∀ key row, later.consensus.get? key = some row →
      store.consensus.get? key = some row ∨ key = (round, row.coordinate) ∧ row ∈ rows := by
  induction rows generalizing store with
  | nil =>
    cases done
    exact ⟨rfl, fun key row found => .inl found⟩
  | cons first rest ih =>
    rw [List.foldlM_cons] at done
    obtain ⟨middle, inserted, remaining⟩ := bind_eq_ok.mp done
    obtain ⟨same, later_rows⟩ := ih remaining
    rw [Store.insertConsensus] at inserted
    split at inserted
    · cases inserted
    cases inserted
    refine ⟨same, fun key row found => ?_⟩
    rcases later_rows key row found with before | ⟨own, member⟩
    · rw [Dict.get?_set] at before
      split at before
      · next here =>
        cases before
        exact .inr ⟨here, List.mem_cons_self⟩
      · exact .inl before
    · exact .inr ⟨own, List.mem_cons_of_mem first member⟩

/-- A publication adds rows of its callback under their own coordinates. -/
theorem publish_get? {callback : List (Hotkey × Option String) →
      Option (List AssessmentConsensusRow)} {outcome : _ × _}
    (done : store.publishAssessmentConsensusFromAcceptedBundlesAndReveal round callback nowIso =
      .ok (outcome, later)) :
    later.universes = store.universes ∧ ∀ key row, later.consensus.get? key = some row →
      store.consensus.get? key = some row ∨ key = (round, row.coordinate) ∧
        ∃ bundles rows, callback bundles = some rows ∧ row ∈ rows := by
  rw [Store.publishAssessmentConsensusFromAcceptedBundlesAndReveal] at done
  split at done
  · cases done
  next bundles frozen attempt =>
  obtain ⟨snapshots, rfl⟩ := snapshotConsensusBundlesIfOpen_shape attempt
  split at done
  · cases done
  next rows called =>
  split at done
  · cases done
  next inserted written =>
  cases done
  obtain ⟨rounds, flipped, -⟩ := Store.flipRoundRevealed_eq inserted round nowIso
  rw [flipped]
  rw [Store.insertAssessmentConsensusIfAbsent] at written
  split at written
  · cases written
    exact ⟨rfl, fun key row found => .inl found⟩
  · obtain ⟨same, added⟩ := insertConsensusRows_get? written
    refine ⟨same, fun key row found => (added key row found).imp id fun both => ?_⟩
    exact ⟨both.1, bundles, rows, called, both.2⟩

/-- Opening a round adds its universe at most. -/
theorem openRound_get? {windows : RoundWindows} {schemaId : String}
    {snapshot : Option UniverseSnapshot} {publicationAvailableAt : Option ℤ}
    (done : store.openRound windows schemaId snapshot nowIso publicationAvailableAt = .ok later) :
    ∀ other taken, later.universes.get? other = some taken →
      store.universes.get? other = some taken ∨
        other = ⟨windows.roundId, schemaId⟩ ∧ snapshot = some taken := by
  rw [Store.openRound] at done
  intro other taken found
  split at done
  · cases done
  split at done
  · cases done
    exact .inl found
  split at done
  · cases done
    exact .inl found
  · split at done
    · cases done
    cases done
    rw [Dict.get?_set] at found
    split at found
    · next here =>
      cases found
      exact .inr ⟨here, rfl⟩
    · exact .inl found

/-! Only an opening writes a universe. -/

theorem recordCommit_universes (store : Store) (round : RoundKey) (hotkey : Hotkey)
    (bundleHash nowIso : String) (maxCommits : Option ℕ) :
    (store.recordCommit round hotkey bundleHash nowIso maxCommits).2.universes =
      store.universes := by
  grind [Store.recordCommit]

theorem recordRevealAttempt_universes (store : Store) (round : RoundKey) (hotkey : Hotkey)
    (maxReveals : Option ℕ) :
    (store.recordRevealAttempt round hotkey maxReveals).2.universes = store.universes := by
  grind [Store.recordRevealAttempt]

theorem recordReveal_universes (store : Store) (round : RoundKey) (hotkey : Hotkey)
    (bundleJson nonceHex : String) (accepted : Bool) (rejectionCode : Option String)
    (nowIso : String) :
    (store.recordReveal round hotkey bundleJson nonceHex accepted rejectionCode nowIso).2.universes =
      store.universes := by
  grind [Store.recordReveal]

end Store

/-! ### Runs -/

/-- A store with the same universes and consensus has canonical rows too. -/
theorem FeedState.Canonical.of_same {state : FeedState} (canonical : state.Canonical)
    {later : Store} (universes : later.universes = state.store.universes)
    (consensus : later.consensus = state.store.consensus) :
    FeedState.Canonical { state with store := later } where
  universes other snapshot found := canonical.universes other snapshot (universes ▸ found)
  consensus other coordinate row found :=
    canonical.consensus other coordinate row (consensus ▸ found)
  targets := canonical.targets

/-- A publication of subnet coordinates keeps the rows canonical. -/
theorem FeedState.Canonical.publish {state : FeedState} (canonical : state.Canonical)
    (limits : Limits) {round : RoundKey} {nowIso : String}
    {callback : List (Hotkey × Option String) → Option (List AssessmentConsensusRow)}
    (own : round.schemaId = riskSchemaId → ∀ bundles rows, callback bundles = some rows →
      ∀ row ∈ rows, IsSubnetCoordinate row.coordinate) :
    FeedState.Canonical { state with
      store := (RoundOperation.publish round callback nowIso).apply limits state.store } := by
  rw [RoundOperation.apply]
  cases done : state.store.publishAssessmentConsensusFromAcceptedBundlesAndReveal round callback
    nowIso with
  | error raised => exact canonical
  | ok made =>
    obtain ⟨outcome, later⟩ := made
    obtain ⟨universes, added⟩ := publish_get? done
    change FeedState.Canonical { state with store := later }
    refine ⟨fun other snapshot found => ?_, fun other coordinate row found risk => ?_,
      canonical.targets⟩
    · exact canonical.universes other snapshot (universes ▸ found)
    · rcases added _ row found with before | ⟨here, bundles, rows, called, member⟩
      · exact canonical.consensus other coordinate row before risk
      · obtain ⟨rfl, rfl⟩ := Prod.mk.inj here
        exact ⟨rfl, own risk bundles rows called row member⟩

/-- Every transaction keeps the rows canonical. -/
theorem FeedState.Canonical.apply {state : FeedState} (limits : Limits)
    (operation : FeedOperation) (canonical : state.Canonical) :
    (operation.apply limits state).Canonical := by
  cases operation with
  | publishConsensus bundleModel blends roundId nowIso =>
    exact canonical.publish limits fun _ bundles rows made row member =>
      isSubnetCoordinate_of_program made member
  | resolveAndScore orchestrator call reading =>
    refine ⟨canonical.universes, canonical.consensus, fun roundId coordinate target found => ?_⟩
    let tick : ScoringTick := ⟨orchestrator, state.store,
      { call with resolver := riskResolver reading }⟩
    change (tick.apply state.tables).realizedTargets.get? _ = _ at found
    rcases tick.apply_cases state.tables with ⟨-, same⟩ | ⟨pass, -, -, -, settled, answers⟩
    · rw [same] at found
      exact canonical.targets roundId coordinate target found
    · rw [settled, Dict.get?_insertAllIfAbsent, Option.or_eq_some_iff] at found
      rcases found with before | ⟨-, added⟩
      · exact canonical.targets roundId coordinate target before
      -- new targets carry coordinates that the resolver answered
      · obtain ⟨other, member, same⟩ := List.mem_map.mp (Dict.mem_of_lookup added)
        obtain ⟨here, rfl⟩ := Prod.mk.inj same
        obtain ⟨-, rfl⟩ := Prod.mk.inj here
        obtain ⟨netuid, output, answered⟩ := answers other member
        exact isSubnetCoordinate_of_resolver answered
  | round operation genuine =>
    cases operation with
    | publish round callback nowIso =>
      exact canonical.publish limits fun risk => absurd risk genuine
    | openRound windows schemaId snapshot nowIso publicationAvailableAt =>
      rw [FeedOperation.apply, RoundOperation.apply]
      cases done : state.store.openRound windows schemaId snapshot nowIso
        publicationAvailableAt with
      | error raised => exact canonical
      | ok later =>
        change FeedState.Canonical { state with store := later }
        refine ⟨fun other taken found risk => ?_, ?_, canonical.targets⟩
        -- a universe is frozen once, when its round opens
        · rcases openRound_get? done other taken found with before | ⟨rfl, opened⟩
          · exact canonical.universes other taken before risk
          · exact genuine risk taken opened
        · change ∀ _ _ _, later.consensus.get? _ = some _ → _
          rw [Store.openRound_consensus done]
          exact canonical.consensus
    | recordCommit round hotkey bundleHash nowIso =>
      exact canonical.of_same (recordCommit_universes ..) (Store.recordCommit_consensus ..)
    | recordRevealAttempt round hotkey =>
      exact canonical.of_same (recordRevealAttempt_universes ..)
        (Store.recordRevealAttempt_consensus ..)
    | recordReveal round hotkey bundleJson nonceHex accepted rejectionCode nowIso =>
      exact canonical.of_same (recordReveal_universes ..) (Store.recordReveal_consensus ..)
    | setRoundState round next postOpen nowIso =>
      rw [FeedOperation.apply, RoundOperation.apply]
      cases done : state.store.setRoundState round next nowIso with
      | error raised => exact canonical
      | ok later =>
        obtain ⟨universes, consensus⟩ := setRoundState_shape done
        exact canonical.of_same universes consensus

/-- The rows of every reachable state are canonical. -/
theorem FeedState.canonical_run (limits : Limits) (operations : List FeedOperation) :
    (run (FeedOperation.apply limits) FeedState.empty operations).Canonical :=
  run_invariant (fun operation _ canonical => canonical.apply limits operation)
    FeedState.canonical_empty operations

end Endure.Publication
