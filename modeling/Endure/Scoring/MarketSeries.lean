import Endure.Library.Dict
import Endure.Library.Transitions
import Endure.Scoring.MarketData

/-!
# The live price series

`LiveAlphaPriceProvider` of `endure/live/alpha_market_data.py`, as far as it builds price
series: archive reads that are retried until their attempts or the deadline run out, the head
of the archive with its cache, the cache of snapshots, and the cache of whole series.
-/

namespace Endure.Scoring

open Library Library.Checked Library.Transitions

/-- One attempt at a read: whether the deadline has passed before it, and what it gives. -/
structure Attempt (α : Type) where
  deadlineExceeded : Bool
  answer : Except ArchiveError α

/-- What an attempt comes to, given what follows a failed one. -/
def Attempt.take {α : Type} (attempt : Attempt α)
    (failed : ArchiveError → Except ArchiveError α) : Except ArchiveError α :=
  if attempt.deadlineExceeded then
    .error (.resolutionDeadlineExceeded "resolution budget exhausted during archive operation")
  else
    match attempt.answer with
    | .ok value => .ok value
    | .error error => if error.isFetchFailure then failed error else .error error

/-- Try a read from an attempt on, with a number of attempts left after it. -/
def retry {α : Type} (attempts : ℕ → Attempt α) (attempt : ℕ) : ℕ → Except ArchiveError α
  | 0 => (attempts attempt).take fun error => .error (retryExhaustedFailure error)
  | left + 1 => (attempts attempt).take fun _ => retry attempts (attempt + 1) left

/-- What the archive and the clock do during one call: the time, the attempts at the head,
whether the deadline has passed when a block's turn comes, and the attempts at each block. -/
structure SeriesReads where
  now : ℚ
  head : ℕ → Attempt ℕ
  deadlineExceeded : ℕ → Bool
  subnet : ℕ → ℕ → Attempt Reserves

structure SnapshotFetchResult where
  snapshot : Option AlphaPriceSnapshot
  connectionAvailable : Bool

def headCacheTtlSeconds : ℚ := 30

def maxSeriesCacheEntries : ℕ := 64

def snapshotRetentionBlocks : ℕ := 30 * 24 * 60 * 60 / 12

/-- The provider, as far as it builds series. -/
structure LiveAlphaPriceProvider where
  maxAttempts : ℕ
  attempted : 0 < maxAttempts
  snapshots : Dict (ℕ × ℕ) AlphaPriceSnapshot
  series : Dict (ℕ × ResolutionWindow) AlphaPriceSeries
  headCache : Option (ℚ × ℕ)

namespace LiveAlphaPriceProvider

/-- A provider that has not been called yet. -/
def start (maxAttempts : ℕ) (attempted : 0 < maxAttempts) : LiveAlphaPriceProvider :=
  ⟨maxAttempts, attempted, Dict.empty, Dict.empty, none⟩

variable (provider : LiveAlphaPriceProvider)

def withRetry {α : Type} (attempts : ℕ → Attempt α) : Except ArchiveError α :=
  retry attempts 1 (provider.maxAttempts - 1)

/-- The head of the archive, read at most once in a while. -/
def currentBlock (reads : SeriesReads) : Except ArchiveError ℕ × LiveAlphaPriceProvider :=
  let recent := provider.headCache.filter fun cached => reads.now - cached.1 < headCacheTtlSeconds
  match recent with
  | some cached => (.ok cached.2, provider)
  | none =>
    match provider.withRetry reads.head with
    | .error raised => (.error raised, provider)
    | .ok block => (.ok block, { provider with headCache := some (reads.now, block) })

/-- A failed head is an unavailable archive. -/
def headFailure (raised : ArchiveError) : ArchiveError :=
  if raised.isFetchFailure then .alphaMarketDataUnavailable "archive head is unavailable"
  else raised

/-- The cached series, unless the head has not reached its newest snapshot, and the head. -/
def currentBlockForSeries (key : ℕ × ResolutionWindow) (reads : SeriesReads) :
    Except ArchiveError (Option AlphaPriceSeries × ℕ) × LiveAlphaPriceProvider :=
  match provider.series.get? key with
  | some cached =>
    match provider.currentBlock reads with
    | (.error raised, provider) => (.error (headFailure raised), provider)
    | (.ok currentBlock, provider) =>
      if cached.lastBlock ≤ currentBlock then
        (.ok (some cached, currentBlock),
          { provider with series := provider.series.moveToEnd key })
      else
        -- a head behind its newest snapshot: the series is forgotten and sampled again
        (.ok (none, currentBlock), { provider with series := provider.series.erase key })
  | none =>
    match provider.currentBlock reads with
    | (.error raised, provider) => (.error (headFailure raised), provider)
    | (.ok currentBlock, provider) => (.ok (none, currentBlock), provider)

/-- Read a block's reserves and build its snapshot; a failure that is classified gives none. -/
def fetchSnapshot (netuid block : ℕ) (reads : SeriesReads) :
    Except ArchiveError SnapshotFetchResult :=
  match provider.withRetry (reads.subnet block) >>= alphaSnapshotFromReserves netuid block with
  | .ok snapshot => .ok ⟨some snapshot, true⟩
  | .error raised =>
    if raised.isSnapshotFailure then .ok ⟨none, !snapshotFailureIsOutage raised⟩
    else .error raised

/-- A block's snapshot from the cache or the archive; the archive is not asked for a block
beyond the head. -/
def snapshotAt (netuid block currentBlock : ℕ) (reads : SeriesReads) :
    Except ArchiveError SnapshotFetchResult × LiveAlphaPriceProvider :=
  if currentBlock < block then (.ok ⟨none, true⟩, provider)
  else
    match provider.snapshots.get? (netuid, block) with
    | some cached => (.ok ⟨some cached, true⟩, provider)
    | none =>
      match provider.fetchSnapshot netuid block reads with
      | .error raised => (.error raised, provider)
      | .ok result =>
        match result.snapshot with
        | none => (.ok result, provider)
        | some snapshot =>
          (.ok result,
            { provider with snapshots := provider.snapshots.set (netuid, block) snapshot })

/-- Sample the canonical blocks one after another. -/
def sampleBlocks (netuid currentBlock : ℕ) (reads : SeriesReads) :
    List ℕ → SeriesSampling → LiveAlphaPriceProvider →
      Except ArchiveError SeriesSampling × LiveAlphaPriceProvider
  | [], sampling, provider => (.ok sampling, provider)
  | block :: rest, sampling, provider =>
    if reads.deadlineExceeded block then
      (.error (.resolutionDeadlineExceeded
        s!"resolution budget exhausted mid-series netuid={netuid}"), provider)
    else
      let sampling := if currentBlock < block then sampling.futureBlock else sampling
      match provider.snapshotAt netuid block currentBlock reads with
      | (.error raised, provider) => (.error raised, provider)
      | (.ok result, provider) =>
        match result.snapshot with
        | none =>
          match sampling.gap result.connectionAvailable with
          | (true, sampling) => (.ok sampling, provider)
          | (false, sampling) => sampleBlocks netuid currentBlock reads rest sampling provider
        | some snapshot =>
          sampleBlocks netuid currentBlock reads rest (sampling.sampled snapshot) provider

/-- Forget the snapshots of blocks long before a window. -/
def pruneSnapshotCache (retainFromBlock : ℕ) : LiveAlphaPriceProvider :=
  let cutoff := retainFromBlock - snapshotRetentionBlocks
  { provider with snapshots := provider.snapshots.filter fun key _ => cutoff ≤ key.2 }

/-- Keep a series as the newest one, and no more than the cache holds. -/
def cacheSeries (key : ℕ × ResolutionWindow) (series : AlphaPriceSeries) :
    LiveAlphaPriceProvider :=
  { provider with
    series := ((provider.series.set key series).moveToEnd key).keepNewest maxSeriesCacheEntries }

def subtensorReservePriceSource : String := "subtensor_archive_subnettao_subnetalpha_v1"

/-- The source of a live series, from its pool and its first and last blocks. -/
def liveSource (netuid first last : ℕ) : String :=
  subtensorReservePriceSource ++ s!":netuid_{netuid}_live_{first}_{last}"

/-- Build the series of some snapshots and cache it; without snapshots there is none. -/
def assembleSeries (netuid : ℕ) (window : ResolutionWindow) (snapshots : List AlphaPriceSnapshot) :
    Except ArchiveError (Option AlphaPriceSeries) × LiveAlphaPriceProvider :=
  match snapshots with
  | [] => (.ok none, provider)
  | first :: rest =>
    let last := (first :: rest).getLast (List.cons_ne_nil first rest)
    match AlphaPriceSeries.create (liveSource netuid first.block last.block) netuid
        (first :: rest) with
    | .error raised => (.error raised, provider)
    | .ok series =>
      (.ok (some series),
        (provider.pruneSnapshotCache window.startBlock).cacheSeries (netuid, window) series)

def priceSeries (netuid : ℕ) (window : ResolutionWindow) (reads : SeriesReads) :
    Except ArchiveError (Option AlphaPriceSeries) × LiveAlphaPriceProvider :=
  match provider.currentBlockForSeries (netuid, window) reads with
  | (.error raised, provider) => (.error raised, provider)
  | (.ok (some cached, _), provider) => (.ok (some cached), provider)
  | (.ok (none, currentBlock), provider) =>
    match sampleBlocks netuid currentBlock reads (canonicalSnapshotBlocks window)
        SeriesSampling.start provider with
    | (.error raised, provider) => (.error raised, provider)
    | (.ok sampling, provider) =>
      match sampling.finish netuid window with
      | .error raised => (.error raised, provider)
      | .ok snapshots => provider.assembleSeries netuid window snapshots

end LiveAlphaPriceProvider

end Endure.Scoring
