import Endure.Library.Dict
import Endure.Scoring.Weights

/-!
# The commit/reveal store

The round tables of `endure/storage/tables.py` and the transactions of
`endure/storage/repository.py` that write them. A transaction either commits as a
whole or leaves the store as it was; instants stand for the timestamps the windows
are stored as.
-/

namespace Endure.Storage

open Library Endure.Scoring

/-- The states of a round; every one but the first comes after the embargo. -/
inductive RoundState
  | open
  | revealed
  | partiallyScored
  | closed
  deriving DecidableEq

/-- The primary key of a round. -/
structure RoundKey where
  roundId : String
  schemaId : String
  deriving DecidableEq

/-- The boundaries of a round. -/
structure RoundWindows where
  roundId : String
  commitOpen : ℤ
  commitClose : ℤ
  t0Close : ℤ
  revealOpen : ℤ
  revealClose : ℤ
  deriving DecidableEq

/-- A row of `rounds`. -/
structure RoundRow where
  state : RoundState
  universeStale : Bool
  degraded : Bool
  windows : RoundWindows
  publicationAvailableAt : ℤ
  createdAt : String
  updatedAt : String
  deriving DecidableEq

/-- A round's universe of tickers. -/
structure UniverseSnapshot where
  tickers : List String
  sourceHash : String
  deriving DecidableEq

/-- What became of a submission. -/
inductive SubmissionVerdict
  | committed
  | accepted
  | rejected
  deriving DecidableEq

/-- A row of `submissions`. -/
structure SubmissionRow where
  commitHash : Option String
  commitCount : ℕ
  revealCount : ℕ
  nonceHex : Option String
  committedAt : Option String
  revealedAt : Option String
  bundleJson : Option String
  verdict : SubmissionVerdict
  rejectionCode : Option String
  deriving DecidableEq

/-- A row of `consensus_bundle_snapshots`. -/
structure BundleSnapshotRow where
  bundleJson : String
  snapshottedAt : String
  deriving DecidableEq

/-- One thing predicted: an output of a target over a horizon. -/
structure Coordinate where
  targetKind : String
  targetId : String
  horizonKind : String
  horizonValue : ℕ
  output : String
  deriving DecidableEq, Ord

/-- One coordinate's consensus. -/
structure AssessmentConsensusRow where
  coordinate : Coordinate
  value : ℚ
  dispersion : ℚ
  nSubmitters : ℕ
  deriving DecidableEq

/-- The tables of the commit/reveal store, each under its unique key. -/
structure Store where
  rounds : Dict RoundKey RoundRow
  universes : Dict RoundKey UniverseSnapshot
  submissions : Dict (RoundKey × Hotkey) SubmissionRow
  snapshots : Dict (RoundKey × Hotkey) BundleSnapshotRow
  consensus : Dict (RoundKey × Coordinate) AssessmentConsensusRow

/-- A store with no rows. -/
def Store.empty : Store := ⟨Dict.empty, Dict.empty, Dict.empty, Dict.empty, Dict.empty⟩

/-- Why a transaction rolls back. -/
inductive StorageError
  | publicationPrecedesReveal
  | integrity
  | callback
  deriving DecidableEq

/-! ### Reads -/

namespace Store

/-- The state of a round, if it exists. -/
def roundState (store : Store) (round : RoundKey) : Option RoundState :=
  (store.rounds.get? round).map RoundRow.state

/-- The windows of a round, if it exists. -/
def roundWindows (store : Store) (round : RoundKey) : Option RoundWindows :=
  (store.rounds.get? round).map RoundRow.windows

/-- The universe stored with a round. -/
def universeFor (store : Store) (round : RoundKey) : Option UniverseSnapshot :=
  store.universes.get? round

/-- The hash a hotkey committed. -/
def committedHash (store : Store) (round : RoundKey) (hotkey : Hotkey) : Option String :=
  (store.submissions.get? (round, hotkey)).bind SubmissionRow.commitHash

/-- How often a hotkey has committed. -/
def commitCount (store : Store) (round : RoundKey) (hotkey : Hotkey) : ℕ :=
  ((store.submissions.get? (round, hotkey)).map SubmissionRow.commitCount).getD 0

/-- An accepted retry's identity, restricted to frozen members after close. -/
def acceptedReveal (store : Store) (round : RoundKey) (hotkey : Hotkey) :
    Option (String × String) :=
  match store.submissions.get? (round, hotkey), store.roundState round with
  | some row, some state =>
    let frozen := (store.snapshots.get? (round, hotkey)).any fun snapshot =>
      row.bundleJson = some snapshot.bundleJson
    if row.verdict = .accepted ∧ (state = .open ∨ frozen) then
      match row.bundleJson, row.nonceHex with
      | some bundleJson, some nonceHex => some (bundleJson, nonceHex)
      | _, _ => none
    else none
  | _, _ => none

/-- A hotkey's accepted bundle in one row, paired with the hotkey. -/
def acceptedPair (round : RoundKey) (key : RoundKey × Hotkey) (row : SubmissionRow) :
    Option (Hotkey × Option String) :=
  if key.1 = round ∧ row.verdict = .accepted then some (key.2, row.bundleJson) else none

/-- The accepted bundles of a round, ordered by hotkey. -/
def acceptedBundles (store : Store) (round : RoundKey) : List (Hotkey × Option String) :=
  store.submissions.select (acceptedPair round)

/-- A snapshot row's bundle, paired with its hotkey. -/
def snapshotPair (round : RoundKey) (key : RoundKey × Hotkey) (row : BundleSnapshotRow) :
    Option (Hotkey × Option String) :=
  if key.1 = round then some (key.2, some row.bundleJson) else none

/-- The frozen bundles of a round, ordered by hotkey. -/
def consensusBundles (store : Store) (round : RoundKey) : List (Hotkey × Option String) :=
  store.snapshots.select (snapshotPair round)

/-- Consensus snapshots after reveal and live accepted bundles before it. -/
def scoringBundles (store : Store) (round : RoundKey) : List (Hotkey × Option String) :=
  match store.roundState round with
  | some .revealed | some .partiallyScored | some .closed => store.consensusBundles round
  | _ => store.acceptedBundles round

/-- The hotkeys of a schema with an accepted reveal no later than a round. -/
def assessmentHotkeysEligibleForRound (store : Store) (schemaId roundId : String) : List Hotkey :=
  ((store.submissions.filter fun key row => key.1.schemaId = schemaId ∧
    row.verdict = .accepted ∧ key.1.roundId ≤ roundId).keys.map Prod.snd).dedup

/-- The consensus rows of a round. -/
def consensusRows (store : Store) (round : RoundKey) : List AssessmentConsensusRow :=
  (store.consensus.filter fun key _ => key.1 = round).values

/-! ### Transactions -/

/-- Create the round row and its universe snapshot; idempotent. -/
def openRound (store : Store) (windows : RoundWindows) (schemaId : String)
    (snapshot : Option UniverseSnapshot) (nowIso : String)
    (publicationAvailableAt : Option ℤ) : Except StorageError Store :=
  let publicationAt := publicationAvailableAt.getD windows.revealClose
  let round : RoundKey := ⟨windows.roundId, schemaId⟩
  if publicationAt < windows.revealClose then .error .publicationPrecedesReveal
  -- a round that exists is left alone, whatever the snapshot now
  else if (store.rounds.get? round).isSome then .ok store
  else
    let row : RoundRow := {
      state := .open, universeStale := snapshot.isNone, degraded := false, windows
      publicationAvailableAt := publicationAt, createdAt := nowIso, updatedAt := nowIso }
    match snapshot with
    | none => .ok { store with rounds := store.rounds.set round row }
    | some tickers =>
      if (store.universes.get? round).isSome then .error .integrity
      else .ok { store with
        rounds := store.rounds.set round row
        universes := store.universes.set round tickers }

/-- Idempotent last-wins commit, rate-capped: a changed hash never replaces an
accepted reveal nor passes the cap, and an unchanged one is a no-op. -/
def recordCommit (store : Store) (round : RoundKey) (hotkey : Hotkey) (bundleHash : String)
    (nowIso : String) (maxCommits : Option ℕ) : Bool × Store :=
  if store.roundState round ≠ some .open then (false, store)
  else
    match store.submissions.get? (round, hotkey) with
    | some row =>
      if row.commitHash ≠ some bundleHash ∧ row.verdict ≠ .accepted ∧
          maxCommits.all (row.commitCount < ·) then
        (true, { store with submissions := store.submissions.set (round, hotkey) { row with
          commitHash := some bundleHash
          committedAt := some nowIso
          commitCount := row.commitCount + 1
          verdict := .committed } })
      -- nothing written: success only for the hash that is there already
      else (row.commitHash = some bundleHash, store)
    | none =>
      (true, { store with submissions := store.submissions.set (round, hotkey) {
        commitHash := some bundleHash, commitCount := 1, revealCount := 0, nonceHex := none
        committedAt := some nowIso, revealedAt := none, bundleJson := none
        verdict := .committed, rejectionCode := none } })

/-- Charge one reveal attempt against a committed miner of an open round. -/
def recordRevealAttempt (store : Store) (round : RoundKey) (hotkey : Hotkey)
    (maxReveals : Option ℕ) : Bool × Store :=
  match store.submissions.get? (round, hotkey) with
  | some row =>
    if row.commitHash.isSome ∧ store.roundState round = some .open ∧
        maxReveals.all (row.revealCount < ·) then
      (true, { store with submissions := store.submissions.set (round, hotkey) { row with
        revealCount := row.revealCount + 1 } })
    else (false, store)
  | none => (false, store)

/-- Upsert a reveal verdict; returns whether this call persisted its values. An
accepted reveal is terminal, and an identical re-push is a no-op. -/
def recordReveal (store : Store) (round : RoundKey) (hotkey : Hotkey)
    (bundleJson nonceHex : String) (accepted : Bool) (rejectionCode : Option String)
    (nowIso : String) : Bool × Store :=
  let verdict := if accepted then SubmissionVerdict.accepted else .rejected
  if store.roundState round ≠ some .open then (false, store)
  else
    match store.submissions.get? (round, hotkey) with
    | none =>
      (true, { store with submissions := store.submissions.set (round, hotkey) {
        commitHash := none, commitCount := 0, revealCount := 0, nonceHex := some nonceHex
        committedAt := none, revealedAt := some nowIso, bundleJson := some bundleJson
        verdict, rejectionCode } })
    | some row =>
      -- an accepted reveal is terminal
      if row.verdict = .accepted then (false, store)
      else if row.verdict = verdict ∧ row.bundleJson = some bundleJson ∧
          row.nonceHex = some nonceHex ∧ row.rejectionCode = rejectionCode then
        (false, store)
      else
        (true, { store with submissions := store.submissions.set (round, hotkey) { row with
          revealedAt := some nowIso, bundleJson := some bundleJson
          nonceHex := some nonceHex, verdict, rejectionCode } })

/-- Insert one snapshot row unless its key is taken; a missing bundle violates
the column's `NOT NULL`. -/
def insertSnapshot (round : RoundKey) (nowIso : String) (store : Store)
    (bundle : Hotkey × Option String) : Except StorageError Store :=
  match bundle.2 with
  | none => .error .integrity
  | some bundleJson =>
    if (store.snapshots.get? (round, bundle.1)).isSome then .ok store
    else .ok { store with
      snapshots := store.snapshots.set (round, bundle.1) ⟨bundleJson, nowIso⟩ }

/-- Freeze the accepted bundles of an open round; returns the frozen set. -/
def snapshotConsensusBundlesIfOpen (store : Store) (round : RoundKey) (nowIso : String) :
    Except StorageError (List (Hotkey × Option String) × Store) :=
  if store.roundState round ≠ some .open then .ok (store.consensusBundles round, store)
  else
    let snapshots := store.consensusBundles round
    if snapshots ≠ [] then .ok (snapshots, store)
    else
      match (store.acceptedBundles round).foldlM (insertSnapshot round nowIso) store with
      | .error raised => .error raised
      | .ok frozen => .ok (frozen.consensusBundles round, frozen)

/-- Update the state of a round that exists. -/
def updateState (store : Store) (round : RoundKey) (state : RoundState) (nowIso : String) :
    Store :=
  { store with rounds := store.rounds.map fun key row =>
      if key = round then { row with state, updatedAt := nowIso } else row }

/-- Set a round's state, freezing its bundles first when that ends the embargo. -/
def setRoundState (store : Store) (round : RoundKey) (state : RoundState) (nowIso : String) :
    Except StorageError Store :=
  if state = .open then .ok (store.updateState round state nowIso)
  else
    match store.snapshotConsensusBundlesIfOpen round nowIso with
    | .error raised => .error raised
    | .ok (_, frozen) => .ok (frozen.updateState round state nowIso)

/-- Insert one consensus row of an existing round at a free coordinate. -/
def insertConsensus (round : RoundKey) (store : Store) (row : AssessmentConsensusRow) :
    Except StorageError Store :=
  if (store.rounds.get? round).isNone ∨ (store.consensus.get? (round, row.coordinate)).isSome then
    .error .integrity
  else .ok { store with consensus := store.consensus.set (round, row.coordinate) row }

/-- Insert consensus rows once; recomputation never overwrites. -/
def insertAssessmentConsensusIfAbsent (store : Store) (round : RoundKey)
    (rows : List AssessmentConsensusRow) : Except StorageError Store :=
  if store.consensusRows round ≠ [] then .ok store
  else rows.foldlM (insertConsensus round) store

/-- Flip an open round to revealed; never rewinds a scored round. -/
def flipRoundRevealed (store : Store) (round : RoundKey) (nowIso : String) : Store :=
  if store.roundState round = some .open then store.updateState round .revealed nowIso
  else store

/-- Build consensus from one atomic bundle snapshot, persist it, and reveal the round.
The callback may raise. -/
def publishAssessmentConsensusFromAcceptedBundlesAndReveal (store : Store) (round : RoundKey)
    (consensusRows : List (Hotkey × Option String) → Option (List AssessmentConsensusRow))
    (nowIso : String) :
    Except StorageError ((List (Hotkey × Option String) × List AssessmentConsensusRow) × Store) :=
  match store.snapshotConsensusBundlesIfOpen round nowIso with
  | .error raised => .error raised
  | .ok (bundles, frozen) =>
    match consensusRows bundles with
    | none => .error .callback
    | some rows =>
      match frozen.insertAssessmentConsensusIfAbsent round rows with
      | .error raised => .error raised
      | .ok inserted => .ok ((bundles, rows), inserted.flipRoundRevealed round nowIso)

end Store

end Endure.Storage
