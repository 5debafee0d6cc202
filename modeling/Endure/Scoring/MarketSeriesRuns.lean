import Endure.Scoring.MarketSeries

/-!
# Calls for a price series

Over an archive whose blocks do not change, any run of calls leaves a provider with caches
that hold what the archive has. What a call then gives is the canonical blocks that have a
sample, or nothing when none has, or it defers.
-/

namespace Endure.Scoring

open Library Library.Checked Library.Transitions

/-- What an archive has of the pools: at each block the reserves of a pool, or no pool. -/
structure Archive where
  reserves : ℕ → ℕ → Option Reserves
  definitive : ∀ netuid block found, reserves netuid block = some found →
    alphaSnapshotFromReserves netuid block found ≠ .error .invalidOperation

namespace Archive

variable (archive : Archive)

/-- The sample of a block; without one the block is a definitive gap. -/
def sample (netuid block : ℕ) : Option AlphaPriceSnapshot :=
  (archive.reserves netuid block).bind fun found =>
    (alphaSnapshotFromReserves netuid block found).toOption

theorem netuid_of_sample {netuid block : ℕ} {snapshot : AlphaPriceSnapshot}
    (sample : archive.sample netuid block = some snapshot) :
    snapshot.netuid = netuid ∧ snapshot.block = block := by
  obtain ⟨found, -, built⟩ := Option.bind_eq_some_iff.mp sample
  exact alphaSnapshotFromReserves_eq_ok (toOption_eq_some.mp built)

/-- The samples of a window's canonical blocks. -/
def samples (netuid : ℕ) (window : ResolutionWindow) : List AlphaPriceSnapshot :=
  (canonicalSnapshotBlocks window).filterMap (archive.sample netuid)

/-- The samples of a window ascend. -/
theorem pairwise_samples (netuid : ℕ) (window : ResolutionWindow) :
    ((archive.samples netuid window).map (·.block)).Pairwise (· < ·) := by
  rw [List.pairwise_map, samples, List.pairwise_filterMap]
  refine (pairwise_canonicalSnapshotBlocks window).imp fun before first one second other => ?_
  rwa [(archive.netuid_of_sample one).2, (archive.netuid_of_sample other).2]

/-- The series of a window. -/
structure IsSeries (netuid : ℕ) (window : ResolutionWindow) (series : AlphaPriceSeries) : Prop where
  netuid_eq : series.netuid = netuid
  snapshots_eq : series.snapshots = archive.samples netuid window
  source_eq : series.source =
    LiveAlphaPriceProvider.liveSource netuid series.firstBlock series.lastBlock

variable {archive}

/-- A window has one series. -/
theorem IsSeries.unique {netuid : ℕ} {window : ResolutionWindow} {series other : AlphaPriceSeries}
    (one : archive.IsSeries netuid window series) (another : archive.IsSeries netuid window other) :
    series = other := by
  have samples := one.snapshots_eq.trans another.snapshots_eq.symm
  have pools := one.netuid_eq.trans another.netuid_eq.symm
  obtain ⟨source, _, _, _, _, _, _⟩ := series
  obtain ⟨source', _, _, _, _, _, _⟩ := other
  cases samples
  cases pools
  have same : source = source' := one.source_eq.trans another.source_eq.symm
  cases same
  rfl

end Archive

/-- Reads of an archive: what they give is so, and what they raise is a failure of the archive,
for missing data only where it has no pool. -/
structure SeriesReads.Truthful (reads : SeriesReads) (archive : Archive) (netuid : ℕ) : Prop where
  head : ∀ attempt raised, (reads.head attempt).answer = .error raised → raised.isFetchFailure
  failure : ∀ block attempt raised, (reads.subnet block attempt).answer = .error raised →
    raised.isFetchFailure
  missing : ∀ block attempt, (reads.subnet block attempt).answer = .error .lookupError →
    archive.reserves netuid block = none
  found : ∀ block attempt found, (reads.subnet block attempt).answer = .ok found →
    archive.reserves netuid block = some found

/-- The exceptions that put a call off: the market data is unavailable or the deadline is over. -/
def ArchiveError.Defers (raised : ArchiveError) : Prop :=
  (∃ message, raised = .alphaMarketDataUnavailable message) ∨
    ∃ message, raised = .resolutionDeadlineExceeded message

/-! ## Retried reads -/

section Retry

variable {α : Type} {attempts : ℕ → Attempt α}

/-- What a retried read comes to: the value of an attempt, the deadline, the failure of its last
attempt, or an exception that is not retried. -/
inductive RetryOutcome (attempts : ℕ → Attempt α) : Except ArchiveError α → Prop
  | answered {attempt : ℕ} {value : α} (answer : (attempts attempt).answer = .ok value) :
      RetryOutcome attempts (.ok value)
  | interrupted (message : String) :
      RetryOutcome attempts (.error (.resolutionDeadlineExceeded message))
  | exhausted {attempt : ℕ} {raised : ArchiveError} (fetch : raised.isFetchFailure)
      (answer : (attempts attempt).answer = .error raised) :
      RetryOutcome attempts (.error (retryExhaustedFailure raised))
  | raised {attempt : ℕ} {raised : ArchiveError} (foreign : ¬raised.isFetchFailure)
      (answer : (attempts attempt).answer = .error raised) :
      RetryOutcome attempts (.error raised)

theorem RetryOutcome.take (attempt : ℕ) {failed : ArchiveError → Except ArchiveError α}
    (next : ∀ raised, raised.isFetchFailure → (attempts attempt).answer = .error raised →
      RetryOutcome attempts (failed raised)) :
    RetryOutcome attempts ((attempts attempt).take failed) := by
  rw [Attempt.take]
  split
  · exact .interrupted _
  · cases answer : (attempts attempt).answer with
    | ok value => exact .answered answer
    | error raised =>
      simp only
      split
      · next fetch => exact next raised fetch answer
      · next foreign => exact .raised foreign answer

theorem retry_outcome (attempt left : ℕ) :
    RetryOutcome attempts (retry attempts attempt left) := by
  induction left generalizing attempt with
  | zero => exact .take attempt fun raised fetch answer => .exhausted fetch answer
  | succ left ih => exact .take attempt fun raised _ _ => ih (attempt + 1)

end Retry

namespace LiveAlphaPriceProvider

variable {archive : Archive} {provider : LiveAlphaPriceProvider} {reads : SeriesReads}
  {netuid : ℕ}

/-- A block's read ends in an outage. -/
def MeetsOutage (provider : LiveAlphaPriceProvider) (reads : SeriesReads) (block : ℕ) : Prop :=
  ∃ raised, provider.withRetry (reads.subnet block) = .error raised ∧ raised.isConnectionFailure

/-- What fetching a block comes to. -/
inductive FetchOutcome (archive : Archive) (provider : LiveAlphaPriceProvider)
    (reads : SeriesReads) (netuid block : ℕ) : Except ArchiveError SnapshotFetchResult → Prop
  | interrupted (message : String) : FetchOutcome archive provider reads netuid block
      (.error (.resolutionDeadlineExceeded message))
  | outage : FetchOutcome archive provider reads netuid block (.ok ⟨none, false⟩)
  | read {result : Option AlphaPriceSnapshot} (sample : archive.sample netuid block = result)
      (served : ¬provider.MeetsOutage reads block) :
      FetchOutcome archive provider reads netuid block (.ok ⟨result, true⟩)

theorem fetchSnapshot_outcome (truthful : reads.Truthful archive netuid) (block : ℕ) :
    FetchOutcome archive provider reads netuid block
      (provider.fetchSnapshot netuid block reads) := by
  rw [fetchSnapshot]
  have outcome : RetryOutcome (reads.subnet block) (provider.withRetry (reads.subnet block)) :=
    retry_outcome _ _
  have served {result} (read : provider.withRetry (reads.subnet block) = result)
      (fine : ∀ raised, result = .error raised → ¬raised.isConnectionFailure) :
      ¬provider.MeetsOutage reads block := by
    rintro ⟨raised, failed, connection⟩
    exact fine raised (read.symm.trans failed) connection
  generalize known : provider.withRetry (reads.subnet block) = result at outcome
  cases outcome with
  | interrupted message => exact .interrupted message
  | @answered attempt found answer =>
    -- The reserves give the sample, or a definitive gap.
    have has := truthful.found block _ _ answer
    have sample : archive.sample netuid block =
        (alphaSnapshotFromReserves netuid block found).toOption := by
      rw [Archive.sample, has, Option.bind_some]
    have served := served known fun raised same => by cases same
    simp only [bind, Except.bind]
    cases built : alphaSnapshotFromReserves netuid block found with
    | ok snapshot =>
      rw [built] at sample
      exact .read sample served
    | error raised =>
      rw [built] at sample
      rcases alphaSnapshotFromReserves_eq_error built with rfl | ⟨message, rfl⟩
      · exact absurd built (archive.definitive netuid block _ has)
      · exact .read sample served
  | @exhausted attempt raised fetch answer =>
    cases raised with
    | lookupError =>
      have sample : archive.sample netuid block = none := by
        rw [Archive.sample, truthful.missing block _ answer, Option.bind_none]
      refine .read sample (served known fun raised same => ?_)
      cases same
      decide
    | connectionError | osError | runtimeError | timeoutError | substrateRequestException =>
      exact .outage
    | alphaMarketDataError | alphaMarketDataUnavailable | resolutionDeadlineExceeded
      | invalidOperation => cases fetch
  | raised foreign answer => exact absurd (truthful.failure block _ _ answer) foreign

/-! ## Sampling a window -/

/-- What the caches hold is what the archive has. -/
structure Holds (provider : LiveAlphaPriceProvider) (archive : Archive) : Prop where
  snapshots : ∀ netuid block snapshot,
    provider.snapshots.get? (netuid, block) = some snapshot →
    archive.sample netuid block = some snapshot
  series : ∀ netuid window series, provider.series.get? (netuid, window) = some series →
    archive.IsSeries netuid window series

/-- A block is answered: it is not beyond the head, and it is cached or its read meets no
outage. -/
def Answered (provider : LiveAlphaPriceProvider) (reads : SeriesReads) (netuid head block : ℕ) :
    Prop :=
  block ≤ head ∧
    (provider.snapshots.get? (netuid, block) = none → ¬provider.MeetsOutage reads block)

/-- A provider after sampling a block: no more than its snapshot is cached. -/
structure Sampled (provider after : LiveAlphaPriceProvider) (netuid block : ℕ) : Prop where
  maxAttempts : after.maxAttempts = provider.maxAttempts
  series : after.series = provider.series
  others : ∀ other ≠ block,
    after.snapshots.get? (netuid, other) = provider.snapshots.get? (netuid, other)

/-- What sampling a block comes to, with the provider after it. -/
inductive BlockOutcome (archive : Archive) (provider : LiveAlphaPriceProvider)
    (reads : SeriesReads) (netuid head block : ℕ) : Except ArchiveError SnapshotFetchResult → Prop
  | interrupted (message : String) : BlockOutcome archive provider reads netuid head block
      (.error (.resolutionDeadlineExceeded message))
  | beyond (beyond : head < block) :
      BlockOutcome archive provider reads netuid head block (.ok ⟨none, true⟩)
  | outage : BlockOutcome archive provider reads netuid head block (.ok ⟨none, false⟩)
  | read {result : Option AlphaPriceSnapshot} (sample : archive.sample netuid block = result)
      (answered : provider.Answered reads netuid head block) :
      BlockOutcome archive provider reads netuid head block (.ok ⟨result, true⟩)

theorem Sampled.refl (block : ℕ) : Sampled provider provider netuid block :=
  ⟨rfl, rfl, fun _ _ => rfl⟩

theorem snapshotAt_outcome (holds : provider.Holds archive)
    (truthful : reads.Truthful archive netuid) (head block : ℕ) :
    BlockOutcome archive provider reads netuid head block
        (provider.snapshotAt netuid block head reads).1 ∧
      Sampled provider (provider.snapshotAt netuid block head reads).2 netuid block ∧
      (provider.snapshotAt netuid block head reads).2.Holds archive := by
  rw [snapshotAt]
  split
  · next beyond => exact ⟨.beyond beyond, .refl block, holds⟩
  · next within =>
    cases cached : provider.snapshots.get? (netuid, block) with
    | some snapshot =>
      refine ⟨.read (holds.snapshots netuid block snapshot cached) ⟨by omega, ?_⟩, .refl block,
        holds⟩
      intro uncached
      rw [cached] at uncached
      cases uncached
    | none =>
      have outcome := @fetchSnapshot_outcome archive provider reads netuid truthful block
      simp only
      generalize provider.fetchSnapshot netuid block reads = result at outcome
      cases outcome with
      | interrupted message => exact ⟨.interrupted message, .refl block, holds⟩
      | outage => exact ⟨.outage, .refl block, holds⟩
      | @read result sample served =>
        have outcome : BlockOutcome archive provider reads netuid head block
            (.ok ⟨result, true⟩) := .read sample ⟨by omega, fun _ => served⟩
        cases result with
        | none => exact ⟨outcome, .refl block, holds⟩
        | some snapshot =>
          refine ⟨outcome, ⟨rfl, rfl, fun other apart => ?_⟩, ⟨?_, holds.series⟩⟩
          · simp [apart]
          · intro pool place held kept
            simp only [Dict.get?_set] at kept
            split at kept
            · next same =>
              cases same
              cases kept
              exact sample
            · exact holds.snapshots pool place held kept

/-- What sampling a list of blocks comes to. -/
inductive SamplingOutcome (archive : Archive) (provider : LiveAlphaPriceProvider)
    (reads : SeriesReads) (netuid head : ℕ) (blocks : List ℕ) (sampling : SeriesSampling) :
    Except ArchiveError SeriesSampling → Prop
  | interrupted (message : String) : SamplingOutcome archive provider reads netuid head blocks
      sampling (.error (.resolutionDeadlineExceeded message))
  | voided {final : SeriesSampling} (void : final.isVoid) :
      SamplingOutcome archive provider reads netuid head blocks sampling (.ok final)
  | complete {final : SeriesSampling} (clean : ¬final.isVoid) (before : ¬sampling.isVoid)
      (all : final.snapshots =
        sampling.snapshots ++ blocks.filterMap (archive.sample netuid))
      (answered : ∀ block ∈ blocks, provider.Answered reads netuid head block) :
      SamplingOutcome archive provider reads netuid head blocks sampling (.ok final)

/-- A block answered after another one was sampled is answered before it. -/
theorem Answered.of_sampled {after : LiveAlphaPriceProvider} {head block other : ℕ}
    (sampled : Sampled provider after netuid block) (apart : other ≠ block)
    (answered : after.Answered reads netuid head other) :
    provider.Answered reads netuid head other := by
  refine ⟨answered.1, fun uncached meets => answered.2 ?_ ?_⟩
  · rw [sampled.others other apart, uncached]
  · obtain ⟨raised, failed, connection⟩ := meets
    refine ⟨raised, ?_, connection⟩
    rwa [withRetry, sampled.maxAttempts]

theorem SamplingOutcome.cons {after : LiveAlphaPriceProvider} {head block : ℕ} {rest : List ℕ}
    {sampling next : SeriesSampling} {result : Except ArchiveError SeriesSampling}
    (sampled : Sampled provider after netuid block) (fresh : block ∉ rest)
    (keeps : ¬next.isVoid → ¬sampling.isVoid ∧ provider.Answered reads netuid head block ∧
      next.snapshots = sampling.snapshots ++ [block].filterMap (archive.sample netuid))
    (outcome : SamplingOutcome archive after reads netuid head rest next result) :
    SamplingOutcome archive provider reads netuid head (block :: rest) sampling result := by
  cases outcome with
  | interrupted message => exact .interrupted message
  | voided void => exact .voided void
  | complete clean before all answered =>
    obtain ⟨start, here, grown⟩ := keeps before
    refine .complete clean start ?_ fun other member => ?_
    · rw [all, grown, List.append_assoc, ← List.filterMap_append, List.singleton_append]
    · rcases List.mem_cons.mp member with rfl | later
      · exact here
      · exact (answered other later).of_sampled sampled (ne_of_mem_of_not_mem later fresh)

theorem sampleBlocks_outcome {head : ℕ} {blocks : List ℕ} (distinct : blocks.Nodup)
    (truthful : reads.Truthful archive netuid) (sampling : SeriesSampling)
    (holds : provider.Holds archive) :
    SamplingOutcome archive provider reads netuid head blocks sampling
        (sampleBlocks netuid head reads blocks sampling provider).1 ∧
      (sampleBlocks netuid head reads blocks sampling provider).2.series = provider.series ∧
      (sampleBlocks netuid head reads blocks sampling provider).2.Holds archive := by
  induction blocks generalizing sampling provider with
  | nil =>
    refine ⟨?_, rfl, holds⟩
    by_cases void : sampling.isVoid
    · exact .voided void
    · exact .complete void void (List.append_nil _).symm (by simp)
  | cons block rest ih =>
    obtain ⟨fresh, distinct⟩ := List.nodup_cons.mp distinct
    rw [sampleBlocks]
    split
    · exact ⟨.interrupted _, rfl, holds⟩
    · obtain ⟨outcome, sampled, kept⟩ := snapshotAt_outcome holds truthful head block
      generalize provider.snapshotAt netuid block head reads = found at outcome sampled kept
      obtain ⟨result, after⟩ := found
      -- From here on the series caches agree, and the rest is sampled from what holds.
      have continues (next : SeriesSampling)
          (keeps : ¬next.isVoid → ¬sampling.isVoid ∧ provider.Answered reads netuid head block ∧
            next.snapshots = sampling.snapshots ++ [block].filterMap (archive.sample netuid)) :
          SamplingOutcome archive provider reads netuid head (block :: rest) sampling
              (sampleBlocks netuid head reads rest next after).1 ∧
            (sampleBlocks netuid head reads rest next after).2.series = provider.series ∧
            (sampleBlocks netuid head reads rest next after).2.Holds archive := by
        obtain ⟨later, same, still⟩ := ih distinct next kept
        exact ⟨later.cons sampled fresh keeps, same.trans sampled.series, still⟩
      simp only at outcome
      cases outcome with
      | interrupted message => exact ⟨.interrupted message, sampled.series, kept⟩
      | beyond beyond =>
        apply continues
        intro clean
        rw [if_pos beyond] at clean
        simp [SeriesSampling.isVoid, SeriesSampling.futureBlock] at clean
      | outage =>
        -- The series is void, whether sampling stops here or goes on.
        simp only
        generalize gapped : SeriesSampling.gap _ false = gap
        have void : gap.2.isVoid := gapped ▸ SeriesSampling.isVoid_gap_outage
        obtain ⟨stop, next⟩ := gap
        cases stop with
        | true => exact ⟨.voided void, sampled.series, kept⟩
        | false => exact continues next fun clean => absurd void clean
      | @read result sample answered =>
        have within := not_lt.mpr answered.1
        simp only [if_neg within]
        cases result with
        | none =>
          refine continues _ fun clean => ⟨clean, answered, ?_⟩
          simp [sample]
        | some snapshot =>
          refine continues _ fun clean => ⟨clean, answered, ?_⟩
          simp [sample, SeriesSampling.sampled]

/-! ## One call -/

/-- A call is served from the series cache: the head has reached the newest snapshot of the
series that is cached for its window. -/
def Served (provider : LiveAlphaPriceProvider) (netuid : ℕ) (window : ResolutionWindow)
    (head : ℕ) (series : AlphaPriceSeries) : Prop :=
  provider.series.get? (netuid, window) = some series ∧ series.lastBlock ≤ head

theorem currentBlock_keeps (reads : SeriesReads) :
    (provider.currentBlock reads).2 =
      { provider with headCache := (provider.currentBlock reads).2.headCache } := by
  rw [currentBlock]
  split
  · rfl
  · split
    · rfl
    · rfl

theorem Holds.withHead (holds : provider.Holds archive) (headCache : Option (ℚ × ℕ)) :
    Holds { provider with headCache } archive := ⟨holds.snapshots, holds.series⟩

/-- A head that is not found is a failure of the archive or the deadline. -/
theorem defers_headFailure (truthful : reads.Truthful archive netuid) {raised : ArchiveError}
    (failed : (provider.currentBlock reads).1 = .error raised) :
    (headFailure raised).Defers := by
  have outcome : RetryOutcome reads.head (provider.withRetry reads.head) := retry_outcome _ _
  rw [currentBlock] at failed
  split at failed
  · cases failed
  · generalize provider.withRetry reads.head = result at outcome failed
    cases outcome with
    | answered answer => cases failed
    | interrupted message =>
      cases failed
      exact .inr ⟨message, rfl⟩
    | @exhausted attempt raised fetch answer =>
      cases failed
      refine .inl ⟨"archive head is unavailable", ?_⟩
      cases raised with
      | lookupError | connectionError | osError | runtimeError | timeoutError
        | substrateRequestException => rfl
      | alphaMarketDataError | alphaMarketDataUnavailable | resolutionDeadlineExceeded
        | invalidOperation => cases fetch
    | raised foreign answer => exact absurd (truthful.head _ _ answer) foreign

/-- What asking for the cached series and the head comes to, with the provider after it. -/
inductive HeadOutcome (archive : Archive) (provider : LiveAlphaPriceProvider)
    (reads : SeriesReads) (netuid : ℕ) (window : ResolutionWindow) :
    Except ArchiveError (Option AlphaPriceSeries × ℕ) → Prop
  | failed {raised : ArchiveError} (defers : raised.Defers)
      (none : ∀ head, (provider.currentBlock reads).1 ≠ .ok head) :
      HeadOutcome archive provider reads netuid window (.error raised)
  | served {series : AlphaPriceSeries} {head : ℕ}
      (known : (provider.currentBlock reads).1 = .ok head)
      (served : provider.Served netuid window head series) :
      HeadOutcome archive provider reads netuid window (.ok (some series, head))
  | unserved {head : ℕ} (known : (provider.currentBlock reads).1 = .ok head)
      (unserved : ∀ series, ¬provider.Served netuid window head series) :
      HeadOutcome archive provider reads netuid window (.ok (none, head))

theorem currentBlockForSeries_outcome (truthful : reads.Truthful archive netuid)
    (window : ResolutionWindow) (holds : provider.Holds archive) :
    HeadOutcome archive provider reads netuid window
        (provider.currentBlockForSeries (netuid, window) reads).1 ∧
      (provider.currentBlockForSeries (netuid, window) reads).2.maxAttempts =
        provider.maxAttempts ∧
      (provider.currentBlockForSeries (netuid, window) reads).2.snapshots =
        provider.snapshots ∧
      (provider.currentBlockForSeries (netuid, window) reads).2.Holds archive := by
  have keeps := provider.currentBlock_keeps reads
  have defers := @defers_headFailure archive provider reads netuid truthful
  rw [currentBlockForSeries]
  generalize found : provider.currentBlock reads = current at keeps defers
  obtain ⟨head, after⟩ := current
  simp only at keeps
  rw [keeps]
  cases cached : provider.series.get? (netuid, window) with
  | some series =>
    cases head with
    | error raised =>
      exact ⟨.failed (defers rfl) (by simp [found]), rfl, rfl, holds.withHead _⟩
    | ok head =>
      simp only
      split
      -- a series is served when the head has reached its end, and goes to the end of the cache
      · next reached =>
        refine ⟨.served (by rw [found]) ⟨cached, reached⟩, rfl, rfl, ⟨holds.snapshots, ?_⟩⟩
        intro pool place series held
        rw [Dict.get?_moveToEnd] at held
        exact holds.series pool place series held
      -- a head below the newest sample drops the series
      · next short =>
        refine ⟨.unserved (by rw [found]) ?_, rfl, rfl, ⟨holds.snapshots, ?_⟩⟩
        · rintro other ⟨same, reached⟩
          cases cached.symm.trans same
          exact short reached
        · intro pool place series held
          simp only [Dict.get?_erase] at held
          split at held
          · cases held
          · exact holds.series pool place series held
  | none =>
    cases head with
    | error raised =>
      exact ⟨.failed (defers rfl) (by simp [found]), rfl, rfl, holds.withHead _⟩
    | ok head =>
      refine ⟨.unserved (by rw [found]) ?_, rfl, rfl, holds.withHead _⟩
      rintro other ⟨same, -⟩
      cases cached.symm.trans same

theorem Holds.pruned (holds : provider.Holds archive) (retainFromBlock : ℕ) :
    (provider.pruneSnapshotCache retainFromBlock).Holds archive := by
  refine ⟨fun pool block snapshot held => ?_, holds.series⟩
  simp only [pruneSnapshotCache, Dict.get?_filter] at held
  exact holds.snapshots pool block snapshot (Option.filter_eq_some_iff.mp held).1

theorem Holds.cached (holds : provider.Holds archive) {window : ResolutionWindow}
    {series : AlphaPriceSeries} (right : archive.IsSeries netuid window series) :
    (provider.cacheSeries (netuid, window) series).Holds archive := by
  refine ⟨holds.snapshots, fun pool place other held => ?_⟩
  replace held := Dict.get?_of_keepNewest held
  rw [Dict.get?_moveToEnd, Dict.get?_set] at held
  split at held
  · next same =>
    cases same
    cases held
    exact right
  · exact holds.series pool place other held

/-- The samples of a window make its series, which is cached; without samples there is none. -/
theorem assembleSeries_samples (holds : provider.Holds archive) (window : ResolutionWindow) :
    ((provider.assembleSeries netuid window (archive.samples netuid window)).1 = .ok none ∧
        archive.samples netuid window = [] ∨
      ∃ series, (provider.assembleSeries netuid window (archive.samples netuid window)).1 =
        .ok (some series) ∧ archive.IsSeries netuid window series) ∧
      (provider.assembleSeries netuid window (archive.samples netuid window)).2.Holds archive := by
  have ofPool : ∀ snapshot ∈ archive.samples netuid window, snapshot.netuid = netuid := by
    intro snapshot member
    obtain ⟨block, -, sample⟩ := List.mem_filterMap.mp member
    exact (archive.netuid_of_sample sample).1
  have ascending := (archive.pairwise_samples netuid window).isChain
  generalize known : archive.samples netuid window = snapshots at ofPool ascending
  cases snapshots with
  | nil => exact ⟨.inl ⟨rfl, rfl⟩, holds⟩
  | cons first rest =>
    rw [assembleSeries]
    have sourced (oldest newest : ℕ) : liveSource netuid oldest newest ≠ "" := by
      intro empty
      have length := congrArg String.length empty
      simp [liveSource, subtensorReservePriceSource] at length
    rw [AlphaPriceSeries.create_eq_ok (sourced _ _) (List.cons_ne_nil first rest) ofPool ascending]
    exact ⟨.inr ⟨_, rfl, rfl, known.symm, rfl⟩,
      (holds.pruned window.startBlock).cached ⟨rfl, known.symm, rfl⟩⟩

/-- What a call comes to: it defers, it is served from the series cache, or it is sampled from
canonical blocks that are all answered. -/
inductive CallOutcome (archive : Archive) (provider : LiveAlphaPriceProvider)
    (reads : SeriesReads) (netuid : ℕ) (window : ResolutionWindow) :
    Except ArchiveError (Option AlphaPriceSeries) → Prop
  | deferred {raised : ArchiveError} (defers : raised.Defers)
      (unserved : ∀ head series, (provider.currentBlock reads).1 = .ok head →
        ¬provider.Served netuid window head series) :
      CallOutcome archive provider reads netuid window (.error raised)
  | served {head : ℕ} {series : AlphaPriceSeries}
      (known : (provider.currentBlock reads).1 = .ok head)
      (served : provider.Served netuid window head series)
      (right : archive.IsSeries netuid window series) :
      CallOutcome archive provider reads netuid window (.ok (some series))
  | sampled {head : ℕ} {result : Option AlphaPriceSeries}
      (known : (provider.currentBlock reads).1 = .ok head)
      (unserved : ∀ series, ¬provider.Served netuid window head series)
      (answered : ∀ block ∈ canonicalSnapshotBlocks window,
        provider.Answered reads netuid head block)
      (right : (result = none ∧ archive.samples netuid window = []) ∨
        ∃ series, result = some series ∧ archive.IsSeries netuid window series) :
      CallOutcome archive provider reads netuid window (.ok result)

theorem priceSeries_outcome (truthful : reads.Truthful archive netuid)
    (window : ResolutionWindow) (holds : provider.Holds archive) :
    CallOutcome archive provider reads netuid window
        (provider.priceSeries netuid window reads).1 ∧
      (provider.priceSeries netuid window reads).2.Holds archive := by
  obtain ⟨outcome, attempts, kept, still⟩ :=
    currentBlockForSeries_outcome truthful window holds
  rw [priceSeries]
  generalize provider.currentBlockForSeries (netuid, window) reads = current at *
  obtain ⟨result, after⟩ := current
  simp only at outcome attempts kept still
  cases outcome with
  | failed defers none =>
    exact ⟨.deferred defers fun head _ known => absurd known (none head), still⟩
  | served known served =>
    exact ⟨.served known served (holds.series _ _ _ served.1), still⟩
  | @unserved head known unserved =>
    have unserved (other series) (same : (provider.currentBlock reads).1 = .ok other) :
        ¬provider.Served netuid window other series := by
      cases known.symm.trans same
      exact unserved series
    simp only
    obtain ⟨outcome, -, still⟩ := @sampleBlocks_outcome archive after reads netuid head _
      (pairwise_canonicalSnapshotBlocks window).nodup truthful SeriesSampling.start still
    generalize sampleBlocks netuid head reads (canonicalSnapshotBlocks window)
      SeriesSampling.start after = sampled at outcome still
    obtain ⟨result, final⟩ := sampled
    simp only at outcome still
    cases outcome with
    | interrupted message => exact ⟨.deferred (.inr ⟨message, rfl⟩) unserved, still⟩
    | voided void =>
      obtain ⟨message, raises⟩ := SeriesSampling.finish_of_isVoid void netuid window
      simp only [raises]
      exact ⟨.deferred (.inl ⟨message, rfl⟩) unserved, still⟩
    | complete clean before all answered =>
      -- Before the blocks were sampled, the caches answered no less.
      have answered : ∀ block ∈ canonicalSnapshotBlocks window,
          provider.Answered reads netuid head block := by
        intro block member
        have here := answered block member
        rwa [Answered, MeetsOutage, withRetry, kept, attempts] at here
      have all : _ = archive.samples netuid window := all
      simp only [SeriesSampling.finish_of_not_isVoid clean, all]
      obtain ⟨right, still⟩ := assembleSeries_samples still window
      refine ⟨?_, still⟩
      rcases right with ⟨nothing, empty⟩ | ⟨series, something, right⟩
      · rw [nothing]
        exact .sampled known (fun series => unserved head series known) answered
          (.inl ⟨rfl, empty⟩)
      · rw [something]
        exact .sampled known (fun series => unserved head series known) answered
          (.inr ⟨series, rfl, right⟩)

theorem holds_start (maxAttempts : ℕ) (attempted : 0 < maxAttempts) :
    (start maxAttempts attempted).Holds archive := by
  constructor
  · intro pool block snapshot held
    cases held
  · intro pool window series held
    cases held

end LiveAlphaPriceProvider

/-! ## Runs of calls -/

/-- A call for the series of a pool's window, with the reads it makes. -/
structure SeriesCall where
  netuid : ℕ
  window : ResolutionWindow
  reads : SeriesReads

/-- The provider after a call. -/
def takeCall (call : SeriesCall) (provider : LiveAlphaPriceProvider) : LiveAlphaPriceProvider :=
  (provider.priceSeries call.netuid call.window call.reads).2

theorem holds_calls {archive : Archive} {calls : List SeriesCall}
    {provider : LiveAlphaPriceProvider}
    (truthful : ∀ call ∈ calls, call.reads.Truthful archive call.netuid)
    (holds : provider.Holds archive) : (run takeCall provider calls).Holds archive := by
  induction calls generalizing provider with
  | nil => exact holds
  | cons call rest ih =>
    have here := truthful call List.mem_cons_self
    rw [run_cons]
    exact ih (fun other later => truthful other (List.mem_cons_of_mem _ later))
      (LiveAlphaPriceProvider.priceSeries_outcome here call.window holds).2

/-- An archive that has a pool only at block 600. -/
def oneSample : Archive where
  reserves _ block := if block = 600 then some ⟨1, 1⟩ else none
  definitive := by
    intro netuid block found has
    split at has
    · cases has
      have quanta : DecimalRounding.roundHalfEven (DecimalRounding.roundDigits 28 1 *
          1000000000) = 1000000000 := by decide +kernel
      simp [alphaSnapshotFromReserves, quanta, decimalDigits]
    · cases has

/-- Reads of that archive at a time with a head. -/
def oneSampleReads (now : ℚ) (head : ℕ) : SeriesReads where
  now
  head _ := ⟨false, .ok head⟩
  deadlineExceeded _ := false
  subnet block _ := ⟨false, if block = 600 then .ok ⟨1, 1⟩ else .error .lookupError⟩

theorem truthful_oneSampleReads (now : ℚ) (head : ℕ) :
    (oneSampleReads now head).Truthful oneSample 0 where
  head := by simp [oneSampleReads]
  failure := by
    intro block attempt raised failed
    by_cases here : block = 600
    · simp [oneSampleReads, here] at failed
    · simp only [oneSampleReads, if_neg here] at failed
      cases failed
      rfl
  missing := by
    intro block attempt failed
    by_cases here : block = 600
    · simp [oneSampleReads, here] at failed
    · simp [oneSample, here]
  found := by
    intro block attempt found answer
    by_cases here : block = 600
    · simp only [oneSampleReads, if_pos here] at answer
      cases answer
      simp [oneSample, here]
    · simp [oneSampleReads, here] at answer

/-- The window with canonical blocks 600 and 1200. -/
def twoBlocks : ResolutionWindow := ⟨0, 1200, by decide⟩

/-- The provider after a call at the head 1200. -/
def providerAtEnd : LiveAlphaPriceProvider :=
  run takeCall (.start 6 (by decide)) [⟨0, twoBlocks, oneSampleReads 0 1200⟩]

theorem providerAtEnd_gives : ∃ series,
    (providerAtEnd.priceSeries 0 twoBlocks (oneSampleReads 31 600)).1 = .ok (some series) := by
  have gives : ((providerAtEnd.priceSeries 0 twoBlocks (oneSampleReads 31 600)).1.map
      Option.isSome) = .ok true := by decide +kernel
  obtain ⟨result, given, some⟩ := map_eq_ok.mp gives
  obtain ⟨series, rfl⟩ := Option.isSome_iff_exists.mp some
  exact ⟨series, given⟩

/-- A cached series is served from a head that a canonical block lies beyond, when that block
is a gap. -/
theorem served_before_last_canonical_block :
    (∀ now head, (oneSampleReads now head).Truthful oneSample 0) ∧
      1200 ∈ canonicalSnapshotBlocks twoBlocks ∧
      (providerAtEnd.currentBlock (oneSampleReads 31 600)).1 = .ok 600 ∧
      ∃ series, (providerAtEnd.priceSeries 0 twoBlocks (oneSampleReads 31 600)).1 =
        .ok (some series) :=
  ⟨truthful_oneSampleReads, by decide, by decide +kernel, providerAtEnd_gives⟩

/-- **The gap policy.** After any calls, whatever their reads met, a call that gives a series
gives the one series of its window: the canonical blocks that have a sample, in ascending
order. It gives none only when every canonical block is a definitive gap, and what it raises
puts the call off. A call is served from the series cache when the head has reached the
newest sample of the cached series; one that is not served gives no series and is put off
when a canonical block lies beyond the head, or is not cached and its read meets an outage. -/
theorem priceSeries_gapPolicy (archive : Archive) (maxAttempts : ℕ) (attempted : 0 < maxAttempts)
    (calls : List SeriesCall) (netuid : ℕ) (window : ResolutionWindow) (reads : SeriesReads)
    (earlier : ∀ call ∈ calls, call.reads.Truthful archive call.netuid)
    (truthful : reads.Truthful archive netuid) :
    let provider := run takeCall (.start maxAttempts attempted) calls
    let result := (provider.priceSeries netuid window reads).1
    (∀ series, result = .ok (some series) →
      archive.IsSeries netuid window series ∧
      series.snapshots =
        (canonicalSnapshotBlocks window).filterMap (archive.sample netuid) ∧
      (series.snapshots.map (·.block)).Pairwise (· < ·) ∧
      ∀ other, archive.IsSeries netuid window other → other = series) ∧
    (result = .ok none →
      ∀ block ∈ canonicalSnapshotBlocks window, archive.sample netuid block = none) ∧
    (∀ raised, result = .error raised → raised.Defers) ∧
    ∀ head, (provider.currentBlock reads).1 = .ok head →
      (∀ series, provider.Served netuid window head series → result = .ok (some series)) ∧
      ((∀ series, ¬provider.Served netuid window head series) →
        (∃ block ∈ canonicalSnapshotBlocks window, head < block ∨
          provider.snapshots.get? (netuid, block) = none ∧ provider.MeetsOutage reads block) →
        ∃ raised, result = .error raised ∧ raised.Defers) := by
  intro provider result
  have holds : provider.Holds archive :=
    holds_calls earlier (LiveAlphaPriceProvider.holds_start maxAttempts attempted)
  have outcome := (LiveAlphaPriceProvider.priceSeries_outcome truthful window holds).1
  have series_eq : ∀ series, archive.IsSeries netuid window series →
      archive.IsSeries netuid window series ∧
      series.snapshots =
        (canonicalSnapshotBlocks window).filterMap (archive.sample netuid) ∧
      (series.snapshots.map (·.block)).Pairwise (· < ·) ∧
      ∀ other, archive.IsSeries netuid window other → other = series := by
    intro series right
    refine ⟨right, right.snapshots_eq, ?_, fun other another => another.unique right⟩
    rw [right.snapshots_eq]
    exact archive.pairwise_samples netuid window
  change LiveAlphaPriceProvider.CallOutcome archive provider reads netuid window result at outcome
  generalize result = given at outcome
  -- a call defers, serves a window it has, or samples every block of one
  cases outcome with
  | deferred defers unserved =>
    refine ⟨by simp, by simp, ?_, fun head known => ⟨?_, fun _ _ => ⟨_, rfl, defers⟩⟩⟩
    · rintro raised same
      cases same
      exact defers
    · exact fun series served => absurd served (unserved head series known)
  | @served head series known served right =>
    refine ⟨?_, by simp, by simp, fun other same => ⟨?_, fun unserved => ?_⟩⟩
    · rintro other same
      cases same
      exact series_eq series right
    · cases known.symm.trans same
      rintro other ⟨held, -⟩
      cases served.1.symm.trans held
      rfl
    · cases known.symm.trans same
      exact absurd served (unserved series)
  | @sampled head result known apart answered right =>
    refine ⟨?_, ?_, by simp, fun other same => ⟨?_, fun unserved unanswered => ?_⟩⟩
    · rintro series same
      cases same
      rcases right with ⟨absent, -⟩ | ⟨found, given, right⟩
      · cases absent
      · cases given
        exact series_eq series right
    · intro same block member
      cases same
      rcases right with ⟨-, empty⟩ | ⟨found, given, -⟩
      · exact List.filterMap_eq_nil_iff.mp empty block member
      · cases given
    · intro series served
      cases known.symm.trans same
      exact absurd served (apart series)
    · -- Every block was answered, so none lies beyond the head or met an outage.
      cases known.symm.trans same
      obtain ⟨block, member, beyond | ⟨uncached, meets⟩⟩ := unanswered
      · exact absurd (answered block member).1 (not_le.mpr beyond)
      · exact absurd meets ((answered block member).2 uncached)

/-- The series that it gives at the head 600 is the window's. -/
theorem priceSeries_gapPolicy_oneSample : ∃ series,
    (providerAtEnd.priceSeries 0 twoBlocks (oneSampleReads 31 600)).1 = .ok (some series) ∧
    oneSample.IsSeries 0 twoBlocks series := by
  obtain ⟨series, given⟩ := providerAtEnd_gives
  have earlier : ∀ call ∈ [(⟨0, twoBlocks, oneSampleReads 0 1200⟩ : SeriesCall)],
      call.reads.Truthful oneSample call.netuid := by
    intro call member
    cases List.mem_singleton.mp member
    exact truthful_oneSampleReads 0 1200
  exact ⟨series, given, ((priceSeries_gapPolicy oneSample 6 (by decide) _ 0 twoBlocks
    (oneSampleReads 31 600) earlier (truthful_oneSampleReads 31 600)).1 series given).1⟩

end Endure.Scoring
