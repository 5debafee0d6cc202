import Endure.Library.DecimalRounding
import Endure.Library.Checked

/-!
# Alpha market data and the gap policy of a series

`endure/scoring/market_data.py` and the sampling decisions of
`endure/scoring/market_sampling.py`: the snapshots of a pool, the canonical blocks of a
window, how the failure of an archive read is classified, and which missing snapshots void
a series.
-/

namespace Endure.Scoring

open Library.Checked Library.DecimalRounding

/-- What a read of market data may raise. -/
inductive ArchiveError
  | connectionError
  | lookupError
  | osError
  | runtimeError
  | timeoutError
  | substrateRequestException
  | alphaMarketDataError (message : String)
  | alphaMarketDataUnavailable (message : String)
  | resolutionDeadlineExceeded (message : String)
  | invalidOperation
  deriving DecidableEq

namespace ArchiveError

/-- `ARCHIVE_CONNECTION_FAILURES`. -/
def isConnectionFailure : ArchiveError → Bool
  | connectionError | osError | runtimeError | timeoutError | substrateRequestException => true
  | _ => false

/-- `ARCHIVE_FETCH_FAILURES`. -/
def isFetchFailure : ArchiveError → Bool
  | lookupError => true
  | error => error.isConnectionFailure

/-- `SNAPSHOT_FETCH_FAILURES`; an unavailable verdict is a market data error. -/
def isSnapshotFailure : ArchiveError → Bool
  | alphaMarketDataError _ | alphaMarketDataUnavailable _ | lookupError => true
  | error => error.isConnectionFailure

end ArchiveError

/-- Missing data stays a definitive gap; every other failure becomes an outage. -/
def retryExhaustedFailure : ArchiveError → ArchiveError
  | .lookupError => .lookupError
  | _ => .connectionError

/-- An outage voids and defers the series; any other failure is a definitive gap. -/
def snapshotFailureIsOutage (error : ArchiveError) : Bool :=
  if error.isConnectionFailure then true
  else match error with
    | .alphaMarketDataUnavailable _ => true
    | _ => false

structure ResolutionWindow where
  startBlock : ℕ
  horizonBlocks : ℕ
  positive : 0 < horizonBlocks
  deriving DecidableEq

namespace ResolutionWindow

def endBlock (window : ResolutionWindow) : ℕ := window.startBlock + window.horizonBlocks

/-- The window as messages show it. -/
def repr (window : ResolutionWindow) : String :=
  "ResolutionWindow(start_block=" ++ toString window.startBlock ++ ", horizon_blocks=" ++
    toString window.horizonBlocks ++ ")"

end ResolutionWindow

def canonicalAlphaSnapshotCadenceBlocks : ℕ := 2 * 60 * 60 / 12

/-- Every cadence step after the window start through its end. -/
def canonicalSnapshotBlocks (window : ResolutionWindow) : List ℕ :=
  let firstBlock := window.startBlock + canonicalAlphaSnapshotCadenceBlocks
  List.range' firstBlock
    ((window.endBlock + 1 - firstBlock + (canonicalAlphaSnapshotCadenceBlocks - 1)) /
      canonicalAlphaSnapshotCadenceBlocks)
    canonicalAlphaSnapshotCadenceBlocks

/-- One price and reserve snapshot of a subnet's Alpha pool. -/
structure AlphaPriceSnapshot where
  netuid : ℕ
  block : ℕ
  priceTaoPerAlpha : ℚ
  taoReserveRao : ℤ
  priced : 0 < priceTaoPerAlpha
  reserved : 0 ≤ taoReserveRao
  deriving DecidableEq

/-- The reserves of a pool, in RAO. -/
structure Reserves where
  taoRao : ℤ
  alphaRao : ℤ
  deriving DecidableEq

/-- The digits that decimal arithmetic keeps. -/
def decimalDigits : ℕ := 28

/-- The canonical snapshot of a pool from its reserves: the quotient, quantized to `1e-9`. -/
def alphaSnapshotFromReserves (netuid block : ℕ) (reserves : Reserves) :
    Except ArchiveError AlphaPriceSnapshot :=
  if reserved : reserves.taoRao ≤ 0 ∨ reserves.alphaRao ≤ 0 then
    .error (.alphaMarketDataError s!"empty reserves for netuid {netuid} at block {block}")
  else
    let quanta := roundHalfEven
      (roundDigits decimalDigits (reserves.taoRao / reserves.alphaRao) * 1000000000)
    -- A quantized number must fit the digits that are kept.
    if 10 ^ decimalDigits ≤ |quanta| then .error .invalidOperation
    else if priced : 0 < (quanta : ℚ) / 1000000000 then
      .ok ⟨netuid, block, quanta / 1000000000, reserves.taoRao, priced, by omega⟩
    else .error (.alphaMarketDataError "price_tao_per_alpha must be finite positive")

/-- Reserves that give no snapshot are unusable, unless decimal arithmetic overflows. -/
theorem alphaSnapshotFromReserves_eq_error {netuid block : ℕ} {reserves : Reserves}
    {raised : ArchiveError}
    (failed : alphaSnapshotFromReserves netuid block reserves = .error raised) :
    raised = .invalidOperation ∨ ∃ message, raised = .alphaMarketDataError message := by
  rw [alphaSnapshotFromReserves] at failed
  split at failed
  · cases failed
    exact .inr ⟨_, rfl⟩
  · simp only at failed
    split at failed
    · cases failed
      exact .inl rfl
    · split at failed
      · cases failed
      · cases failed
        exact .inr ⟨_, rfl⟩

/-- The snapshot of a block is of that pool and block. -/
theorem alphaSnapshotFromReserves_eq_ok {netuid block : ℕ} {reserves : Reserves}
    {snapshot : AlphaPriceSnapshot}
    (built : alphaSnapshotFromReserves netuid block reserves = .ok snapshot) :
    snapshot.netuid = netuid ∧ snapshot.block = block := by
  rw [alphaSnapshotFromReserves] at built
  split at built
  · cases built
  · simp only at built
    split at built
    · cases built
    · split at built
      · cases built
        exact ⟨rfl, rfl⟩
      · cases built

/-- A pool's snapshots in ascending order of their blocks. -/
structure AlphaPriceSeries where
  source : String
  netuid : ℕ
  snapshots : List AlphaPriceSnapshot
  sourced : source ≠ ""
  sampled : snapshots ≠ []
  ofPool : ∀ snapshot ∈ snapshots, snapshot.netuid = netuid
  ascending : (snapshots.map (·.block)).IsChain (· < ·)
  deriving DecidableEq

namespace AlphaPriceSeries

def create (source : String) (netuid : ℕ) (snapshots : List AlphaPriceSnapshot) :
    Except ArchiveError AlphaPriceSeries :=
  if sourced : source = "" then .error (.alphaMarketDataError "source must be non-empty")
  else if sampled : snapshots = [] then
    .error (.alphaMarketDataError "price series must include at least one snapshot")
  else if ofPool : ∀ snapshot ∈ snapshots, snapshot.netuid = netuid then
    if ascending : (snapshots.map (·.block)).IsChain (· < ·) then
      .ok ⟨source, netuid, snapshots, sourced, sampled, ofPool, ascending⟩
    else .error (.alphaMarketDataError "price snapshots must be ascending by block")
  else .error (.alphaMarketDataError "snapshot netuid does not match series netuid")

/-- What passes every check makes a series. -/
theorem create_eq_ok {source : String} {netuid : ℕ} {snapshots : List AlphaPriceSnapshot}
    (sourced : source ≠ "") (sampled : snapshots ≠ [])
    (ofPool : ∀ snapshot ∈ snapshots, snapshot.netuid = netuid)
    (ascending : (snapshots.map (·.block)).IsChain (· < ·)) :
    create source netuid snapshots =
      .ok ⟨source, netuid, snapshots, sourced, sampled, ofPool, ascending⟩ := by
  rw [create, dif_neg sourced, dif_neg sampled, dif_pos ofPool, dif_pos ascending]

/-- The block of the oldest snapshot. -/
def firstBlock (series : AlphaPriceSeries) : ℕ := (series.snapshots.head series.sampled).block

/-- The block of the newest snapshot. -/
def lastBlock (series : AlphaPriceSeries) : ℕ :=
  (series.snapshots.getLast series.sampled).block

end AlphaPriceSeries

def maxConsecutiveArchiveGaps : ℕ := 2

/-- Which missing snapshots void or end one series. -/
structure SeriesSampling where
  snapshots : List AlphaPriceSnapshot
  skippedFutureBlock : Bool
  archiveUnavailable : Bool
  consecutiveArchiveGaps : ℕ

namespace SeriesSampling

def start : SeriesSampling := ⟨[], false, false, 0⟩

variable (sampling : SeriesSampling)

def futureBlock : SeriesSampling := { sampling with skippedFutureBlock := true }

/-- Record a missing snapshot; `true` means stop sampling this series. -/
def gap (connectionAvailable : Bool) : Bool × SeriesSampling :=
  if connectionAvailable then (false, { sampling with consecutiveArchiveGaps := 0 })
  else
    let consecutiveArchiveGaps := sampling.consecutiveArchiveGaps + 1
    (maxConsecutiveArchiveGaps ≤ consecutiveArchiveGaps,
      { sampling with archiveUnavailable := true, consecutiveArchiveGaps })

/-- Record a snapshot. -/
def sampled (snapshot : AlphaPriceSnapshot) : SeriesSampling :=
  { sampling with
    consecutiveArchiveGaps := 0
    snapshots := sampling.snapshots ++ [snapshot] }

/-- Void the series on any outage or block beyond the head, else give it. -/
def finish (netuid : ℕ) (window : ResolutionWindow) :
    Except ArchiveError (List AlphaPriceSnapshot) :=
  if sampling.archiveUnavailable then
    .error (.alphaMarketDataUnavailable
      ("archive data unavailable for netuid=" ++ toString netuid ++ " window=" ++ window.repr))
  else if sampling.skippedFutureBlock then
    .error (.alphaMarketDataUnavailable
      ("archive head has not finalized netuid=" ++ toString netuid ++ " window=" ++ window.repr))
  else .ok sampling.snapshots

/-- Whether the series is void. -/
def isVoid : Bool := sampling.archiveUnavailable || sampling.skippedFutureBlock

variable {sampling}

theorem isVoid_gap_outage : (sampling.gap false).2.isVoid := rfl

theorem finish_of_isVoid (void : sampling.isVoid) (netuid : ℕ) (window : ResolutionWindow) :
    ∃ message, sampling.finish netuid window = .error (.alphaMarketDataUnavailable message) := by
  rw [finish]
  split
  · exact ⟨_, rfl⟩
  · next available =>
    rw [isVoid, Bool.or_eq_true] at void
    rw [if_pos (void.resolve_left available)]
    exact ⟨_, rfl⟩

theorem finish_of_not_isVoid (clean : ¬sampling.isVoid) (netuid : ℕ) (window : ResolutionWindow) :
    sampling.finish netuid window = .ok sampling.snapshots := by
  rw [isVoid, Bool.or_eq_true, not_or] at clean
  rw [finish, if_neg clean.1, if_neg clean.2]

end SeriesSampling

/-- The canonical blocks ascend. -/
theorem pairwise_canonicalSnapshotBlocks (window : ResolutionWindow) :
    (canonicalSnapshotBlocks window).Pairwise (· < ·) :=
  @List.pairwise_lt_range' _ _ _ (by decide)

end Endure.Scoring
