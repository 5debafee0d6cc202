import Endure.Library.Memo
import Endure.Scoring.AssessmentOrchestrator
import Endure.Scoring.Duplicates
import Endure.Scoring.MarketSampling
import Endure.Storage.RoundRuns

/-!
# Pool votes

`duplicate_pools` of `endure/scoring/assessment_orchestrator.py` with its caches: the groups of
the window's rounds, the tie seeds that have been read, and the last window that had a seed. A
vote is a matter of the revealed rounds and of the chain; what the process has cached does not
show in it.
-/

namespace Endure.Scoring

open Library Library.Checked Library.Memo Library.Transitions Endure.Storage

def poolWindowRounds : ℕ := 5

/-- The Unix epoch as an instant. -/
def unixEpoch : ℤ := 719163 * 86400000000

/-- The newest rounds past their reveal, newest first. -/
def revealedRoundIds (store : Store) (schemaId : String) (limit : ℕ) : List String :=
  ((((store.rounds.filter fun key row =>
    key.schemaId = schemaId ∧ row.state ≠ .open).keys.map RoundKey.roundId).insertionSort
      (· ≥ ·)).take limit)

/-- Why a vote has no pools. -/
inductive PoolVoteError
  | tieSeedUnavailable (message : String)
  deriving DecidableEq

/-- The parts of an orchestrator that pool its votes: without the chain each round's ID seeds its
ties. `sha256` is the digest of a text. -/
structure PoolVoter where
  config : AssessmentScoringConfig
  readsChain : Bool
  sha256 : String → ℕ

/-- What a process remembers between votes. -/
structure PoolMemory where
  identicalGroups : Dict String IdenticalGroups
  tieSeeds : Dict String String
  lastSeededWindow : Option (List String × String)

/-- A process that has not voted. -/
def PoolMemory.fresh : PoolMemory := ⟨Dict.empty, Dict.empty, none⟩

namespace PoolVoter

variable (voter : PoolVoter) (store : Store) (reads : String → FinalizedChainReads)

/-- The groups of one round. -/
def roundGroups (roundId : String) : IdenticalGroups :=
  identicalForecastGroups (voter.config.acceptedValues store roundId)

/-- A round's tie seed, from the cache or the chain; a failed read leaves it unknown. -/
def tieSeed (roundId : String) (memory : PoolMemory) :
    Except PoolVoteError (Option String) × PoolMemory :=
  if voter.readsChain = false then (.ok (some roundId), memory)
  else
    match memory.tieSeeds.get? roundId with
    | some seed => (.ok (some seed), memory)
    | none =>
      match store.roundWindows ⟨roundId, voter.config.schemaId⟩ with
      | none => (.error (.tieSeedUnavailable ("round " ++ roundId ++ " has no stored windows")),
          memory)
      | some windows =>
        match chainTieSeed (reads roundId) ⟨windows.revealClose - unixEpoch, some 0⟩ with
        | .ok (some seed) =>
          (.ok (some seed), { memory with tieSeeds := memory.tieSeeds.set roundId seed })
        | .ok none | .error _ => (.ok none, memory)

/-- Remember the newest window that had a seed. -/
def seeded (window : List String) (seed : String) (memory : PoolMemory) :
    Except PoolVoteError (List String × String) × PoolMemory :=
  (.ok (window, seed), { memory with lastSeededWindow := some (window, seed) })

/-- The window that ends at the round before the newest, whose own seed is unknown. -/
def earlierWindow (newest : String) (earlier : List String) (memory : PoolMemory) :
    Except PoolVoteError (List String × String) × PoolMemory :=
  match earlier with
  | [] => (.ok ([], ""), memory)
  | before :: _ =>
    match voter.tieSeed store reads before memory with
    | (.error raised, memory) => (.error raised, memory)
    | (.ok (some seed), memory) => seeded (earlier.take poolWindowRounds) seed memory
    | (.ok none, memory) =>
      match memory.lastSeededWindow with
      | some window => (.ok window, memory)
      | none => (.error (.tieSeedUnavailable ("neither round " ++ newest ++ " nor " ++ before ++
          " has a known tie seed")), memory)

/-- Keep the seeds of some rounds only. -/
def keepSeeds (revealed : List String) (memory : PoolMemory) : PoolMemory :=
  { memory with tieSeeds := memory.tieSeeds.filter fun roundId _ => roundId ∈ revealed }

/-- The pool window's rounds, newest first, and the seed of its ties. -/
def seededWindow (memory : PoolMemory) :
    Except PoolVoteError (List String × String) × PoolMemory :=
  let revealed := revealedRoundIds store voter.config.schemaId (poolWindowRounds + 1)
  let memory := keepSeeds revealed memory
  match revealed with
  | [] => (.ok ([], ""), memory)
  | newest :: earlier =>
    match voter.tieSeed store reads newest memory with
    | (.error raised, memory) => (.error raised, memory)
    | (.ok (some seed), memory) => seeded (revealed.take poolWindowRounds) seed memory
    | (.ok none, memory) => voter.earlierWindow store reads newest earlier memory

/-- The identical-forecast pools over the newest revealed rounds, in tie order. -/
def duplicatePools (scored : Option (Finset Hotkey)) (memory : PoolMemory) :
    Except PoolVoteError (List (List Hotkey)) × PoolMemory :=
  match voter.seededWindow store reads memory with
  | (.error raised, memory) => (.error raised, memory)
  | (.ok (window, seed), memory) =>
    let groups := rebuild memory.identicalGroups (voter.roundGroups store) window
    (.ok (tieOrdered voter.sha256 (Scoring.duplicatePools groups.values scored) seed),
      { memory with identicalGroups := groups })

end PoolVoter

/-- What happens to a validator: a transaction of its rounds, a vote with the reads of its moment,
or a restart. -/
inductive PoolEvent
  | transaction (operation : RoundOperation)
  | vote (scored : Option (Finset Hotkey)) (reads : String → FinalizedChainReads)
  | restart

/-- A validator's database and what its process remembers. -/
structure PoolWorld where
  store : Store
  memory : PoolMemory

def PoolWorld.start : PoolWorld := ⟨Store.empty, PoolMemory.fresh⟩

/-- One event. -/
def PoolVoter.happen (voter : PoolVoter) (limits : Limits) (event : PoolEvent)
    (world : PoolWorld) : PoolWorld :=
  match event with
  | .transaction operation => { world with store := operation.apply limits world.store }
  | .vote scored reads =>
    { world with memory := (voter.duplicatePools world.store reads scored world.memory).2 }
  | .restart => { world with memory := PoolMemory.fresh }

/-! ### What a vote should be -/

/-- The reads of a chain answer, when they do, what it has; a hash may come in any of its
spellings. -/
structure FinalizedChainReads.Honest (reads : FinalizedChainReads) (chain : FinalizedChain) :
    Prop extends reads.Truthful chain where
  blockHash : ∀ (block : ℕ) hash, reads.blockHash block = .ok hash →
    normalizeGenesisHash hash = normalizeGenesisHash (chain.hash block)

/-- Every vote reads the chain. -/
def PoolEvent.Honest (chain : FinalizedChain) : PoolEvent → Prop
  | transaction _ | restart => True
  | vote _ reads => ∀ roundId, (reads roundId).Honest chain

namespace PoolVoter

variable (voter : PoolVoter) (chain : FinalizedChain) (store : Store)

/-- A round's tie seed: the hash of the first block stamped late enough after its close. -/
def IsTieSeed (roundId seed : String) : Prop :=
  if voter.readsChain then
    ∃ windows first, store.roundWindows ⟨roundId, voter.config.schemaId⟩ = some windows ∧
      IsLeast {block | (windows.revealClose - unixEpoch + tieSeedDelay) / 1000 ≤
        chain.stamp block} first ∧
      seed = normalizeGenesisHash (chain.hash first)
  else seed = roundId

/-- A round's tie seed can be read. -/
def CanRead (reads : String → FinalizedChainReads) (roundId seed : String) : Prop :=
  if voter.readsChain then
    ∃ windows, store.roundWindows ⟨roundId, voter.config.schemaId⟩ = some windows ∧
      chainTieSeed (reads roundId) ⟨windows.revealClose - unixEpoch, some 0⟩ = .ok (some seed)
  else seed = roundId

/-- The groups of a round's frozen bundles. -/
def frozenGroups (roundId : String) : IdenticalGroups :=
  identicalForecastGroups (Dict.ofEntries
    ((store.consensusBundles ⟨roundId, voter.config.schemaId⟩).filterMap fun bundle =>
      (bundle.2.bind voter.config.bundleValues).map (bundle.1, ·)))

/-- The pools of some rounds' frozen bundles, in the order of a seed. -/
def pooledOver (window : List String) (seed : String) (scored : Option (Finset Hotkey)) :
    List (List Hotkey) :=
  tieOrdered voter.sha256 (Scoring.duplicatePools (window.map (voter.frozenGroups store)) scored)
    seed

/-- The rounds of the pool window. -/
def newestRounds : List String :=
  revealedRoundIds store voter.config.schemaId poolWindowRounds

/-- A window of revealed rounds with the tie seed of its newest; without rounds it has the empty
one. -/
structure SeededBy (window : List String) (seed : String) : Prop where
  nodup : window.Nodup
  closed : ∀ roundId ∈ window, store.IsClosed ⟨roundId, voter.config.schemaId⟩
  empty : window = [] → seed = ""
  newest : ∀ newest ∈ window.head?, voter.IsTieSeed chain store newest seed

/-- What holds of a validator at any time: everything it remembers is right. -/
structure Sound (world : PoolWorld) : Prop where
  consistent : world.store.Consistent
  groups : Holds (fun roundId groups =>
    world.store.IsClosed ⟨roundId, voter.config.schemaId⟩ ∧
      groups = voter.frozenGroups world.store roundId) world.memory.identicalGroups
  seeds : Holds (voter.IsTieSeed chain world.store) world.memory.tieSeeds
  window : ∀ window seed, world.memory.lastSeededWindow = some (window, seed) →
    voter.SeededBy chain world.store window seed

end PoolVoter

variable {voter : PoolVoter} {chain : FinalizedChain} {store later : Store}
  {reads : String → FinalizedChainReads} {roundId seed : String} {memory : PoolMemory}

/-! ### Tie seeds -/

/-- What the chain's reads find is the tie seed. -/
theorem chainTieSeed_eq_ok {reads : FinalizedChainReads} (honest : reads.Honest chain)
    {wallClock : ℤ} (read : chainTieSeed reads ⟨wallClock, some 0⟩ = .ok (some seed)) :
    ∃ first, IsLeast {block | (wallClock + tieSeedDelay) / 1000 ≤ chain.stamp block} first ∧
      seed = normalizeGenesisHash (chain.hash first) := by
  rw [chainTieSeed, Datetime.add, utcTimestampMilliseconds_eq, sub_zero] at read
  obtain ⟨targetMs, same, read⟩ := bind_eq_ok.mp read
  cases same
  obtain ⟨finalized, final, read⟩ := bind_eq_ok.mp read
  obtain ⟨stamp, -, read⟩ := bind_eq_ok.mp read
  obtain ⟨head, rfl⟩ := honest.finalizedBlock finalized final
  by_cases early : stamp < (wallClock + tieSeedDelay) / 1000
  · rw [if_pos early] at read
    cases read
  · rw [if_neg early] at read
    obtain ⟨found, searched, read⟩ := bind_eq_ok.mp read
    obtain ⟨hash, hashed, named⟩ := bind_eq_ok.mp read
    obtain ⟨first, rfl, least, -⟩ := sound_firstBlockAtOrAfter chain _ head _ found
      (fun block stamp _ answered => honest.timestampAtBlock block stamp answered) searched
    have same : normalizeGenesisHash hash = seed := Option.some.inj (Except.ok.inj named)
    exact ⟨first, least, same ▸ honest.blockHash first hash hashed⟩

namespace PoolVoter

theorem IsTieSeed.unique {seed' : String} (first : voter.IsTieSeed chain store roundId seed)
    (second : voter.IsTieSeed chain store roundId seed') : seed = seed' := by
  rw [IsTieSeed] at first second
  by_cases chained : voter.readsChain
  · rw [if_pos chained] at first second
    obtain ⟨windows, block, found, least, rfl⟩ := first
    obtain ⟨windows', block', found', least', rfl⟩ := second
    cases found.symm.trans found'
    rw [least.unique least']
  · rw [if_neg chained] at first second
    rw [first, second]

theorem CanRead.isTieSeed (can : voter.CanRead store reads roundId seed)
    (honest : (reads roundId).Honest chain) : voter.IsTieSeed chain store roundId seed := by
  rw [CanRead] at can
  rw [IsTieSeed]
  by_cases chained : voter.readsChain
  · rw [if_pos chained] at can ⊢
    obtain ⟨windows, found, read⟩ := can
    obtain ⟨first, least, same⟩ := chainTieSeed_eq_ok honest read
    exact ⟨windows, first, found, least, same⟩
  · rwa [if_neg chained] at can ⊢

/-- What asking for a tie seed comes to: a seed, which may be remembered, or none and nothing
new. -/
inductive TieSeedOutcome (voter : PoolVoter) (chain : FinalizedChain) (store : Store)
    (roundId : String) (memory : PoolMemory) :
    Except PoolVoteError (Option String) × PoolMemory → Prop
  | known (seed : String) (is : voter.IsTieSeed chain store roundId seed) :
      TieSeedOutcome voter chain store roundId memory (.ok (some seed), memory)
  | read (seed : String) (is : voter.IsTieSeed chain store roundId seed) :
      TieSeedOutcome voter chain store roundId memory
        (.ok (some seed), { memory with tieSeeds := memory.tieSeeds.set roundId seed })
  | unknown : TieSeedOutcome voter chain store roundId memory (.ok none, memory)
  | failed (raised : PoolVoteError) :
      TieSeedOutcome voter chain store roundId memory (.error raised, memory)

theorem tieSeed_outcome (seeds : Holds (voter.IsTieSeed chain store) memory.tieSeeds)
    (honest : (reads roundId).Honest chain) :
    TieSeedOutcome voter chain store roundId memory
      (voter.tieSeed store reads roundId memory) := by
  rw [tieSeed]
  by_cases chained : voter.readsChain = false
  · rw [if_pos chained]
    refine .known roundId ?_
    simp [IsTieSeed, chained]
  · rw [if_neg chained]
    cases cached : memory.tieSeeds.get? roundId with
    | some seed => exact .known seed (seeds roundId seed cached)
    | none =>
      cases found : store.roundWindows ⟨roundId, voter.config.schemaId⟩ with
      | none => exact .failed _
      | some windows =>
        simp only
        split
        · next seed read =>
          have can : voter.CanRead store reads roundId seed := by
            rw [CanRead, if_pos (by simpa using chained)]
            exact ⟨windows, found, read⟩
          exact .read seed (can.isTieSeed honest)
        · exact .unknown
        · exact .unknown

/-- A seed that can be read is found, from the cache or the chain. -/
theorem tieSeed_of_canRead (seeds : Holds (voter.IsTieSeed chain store) memory.tieSeeds)
    (honest : (reads roundId).Honest chain) (can : voter.CanRead store reads roundId seed) :
    (voter.tieSeed store reads roundId memory).1 = .ok (some seed) := by
  have is := can.isTieSeed honest
  rw [CanRead] at can
  rw [tieSeed]
  by_cases chained : voter.readsChain
  · rw [if_pos chained] at can
    rw [if_neg (by simp [chained])]
    obtain ⟨windows, found, read⟩ := can
    cases cached : memory.tieSeeds.get? roundId with
    | some held => rw [is.unique (seeds roundId held cached)]
    | none =>
      rw [found]
      simp only
      rw [read]
  · rw [if_neg chained] at can
    rw [if_pos (by simpa using chained), can]

/-! ### Windows -/

theorem mem_revealedRoundIds {schemaId : String} {limit : ℕ}
    (member : roundId ∈ revealedRoundIds store schemaId limit) :
    store.IsClosed ⟨roundId, schemaId⟩ := by
  have listed := List.mem_of_mem_take member
  rw [List.mem_insertionSort, List.mem_map] at listed
  obtain ⟨key, kept, rfl⟩ := listed
  obtain ⟨row, found⟩ := Dict.mem_keys_iff.mp kept
  rw [Dict.get?_filter, Option.filter_eq_some_iff, decide_eq_true_iff] at found
  obtain ⟨found, rfl, closed⟩ := found
  exact ⟨row.state, by rw [Store.roundState, found, Option.map_some], closed⟩

theorem nodup_revealedRoundIds (store : Store) (schemaId : String) (limit : ℕ) :
    (revealedRoundIds store schemaId limit).Nodup := by
  apply List.Nodup.sublist (List.take_sublist limit _)
  rw [(List.perm_insertionSort _ _).nodup_iff]
  -- the rounds are of one schema, so their IDs tell them apart
  apply List.Nodup.map_on ?_ (Dict.keys_nodup _)
  intro first kept second kept' same
  have schema (key : RoundKey) (kept : key ∈ (store.rounds.filter fun key row =>
      key.schemaId = schemaId ∧ row.state ≠ .open).keys) : key.schemaId = schemaId := by
    obtain ⟨row, found⟩ := Dict.mem_keys_iff.mp kept
    rw [Dict.get?_filter, Option.filter_eq_some_iff, decide_eq_true_iff] at found
    exact found.2.1
  cases first
  cases second
  exact RoundKey.mk.injEq _ _ _ _ ▸ ⟨same, (schema _ kept).trans (schema _ kept').symm⟩

theorem take_revealedRoundIds (store : Store) (schemaId : String) :
    (revealedRoundIds store schemaId (poolWindowRounds + 1)).take poolWindowRounds =
      revealedRoundIds store schemaId poolWindowRounds :=
  List.take_take.trans rfl

/-- The groups of a revealed round are those of its frozen bundles. -/
theorem roundGroups_of_closed (closed : store.IsClosed ⟨roundId, voter.config.schemaId⟩) :
    voter.roundGroups store roundId = voter.frozenGroups store roundId := by
  rw [roundGroups, AssessmentScoringConfig.acceptedValues, Store.scoringBundles_of_closed closed,
    frozenGroups]

/-- Some of the newest rounds, with the seed of the first of them. -/
theorem seededBy_of_sublist {schemaId newest : String} {limit : ℕ} {rest window : List String}
    (own : schemaId = voter.config.schemaId)
    (part : window.Sublist (revealedRoundIds store schemaId limit)) (first : window = newest :: rest)
    (is : voter.IsTieSeed chain store newest seed) : voter.SeededBy chain store window seed where
  nodup := (nodup_revealedRoundIds store schemaId limit).sublist part
  closed roundId member := own ▸ mem_revealedRoundIds (part.subset member)
  empty none := by
    rw [first] at none
    cases none
  newest roundId leads := by
    rw [first] at leads
    cases leads
    exact is

theorem seededBy_nil : voter.SeededBy chain store [] "" :=
  ⟨List.nodup_nil, fun _ member => absurd member List.not_mem_nil, fun _ => rfl,
    fun _ leads => by cases leads⟩

/-- Memory after some window was looked for: the groups are as they were, and the rest is right. -/
structure Seeks (voter : PoolVoter) (chain : FinalizedChain) (store : Store)
    (before after : PoolMemory) : Prop where
  groups : after.identicalGroups = before.identicalGroups
  seeds : Holds (voter.IsTieSeed chain store) after.tieSeeds
  window : ∀ window seed, after.lastSeededWindow = some (window, seed) →
    voter.SeededBy chain store window seed

variable {before : PoolMemory}

theorem TieSeedOutcome.seeks (seeks : Seeks voter chain store before memory)
    {outcome : Except PoolVoteError (Option String) × PoolMemory}
    (asked : TieSeedOutcome voter chain store roundId memory outcome) :
    Seeks voter chain store before outcome.2 ∧
      ∀ seed, outcome.1 = .ok (some seed) → voter.IsTieSeed chain store roundId seed := by
  cases asked with
  | known seed is =>
    refine ⟨seeks, fun other same => ?_⟩
    cases same
    exact is
  | read seed is =>
    refine ⟨⟨seeks.groups, seeks.seeds.set is, seeks.window⟩, fun other same => ?_⟩
    cases same
    exact is
  | unknown | failed => exact ⟨seeks, fun other same => by cases same⟩

theorem Seeks.seeded (seeks : Seeks voter chain store before memory) {window : List String}
    (by_ : voter.SeededBy chain store window seed) :
    Seeks voter chain store before (PoolVoter.seeded window seed memory).2 := by
  refine ⟨seeks.groups, seeks.seeds, fun other own same => ?_⟩
  cases same
  exact by_

/-- The earlier window, if there is one, has the seed of its newest round. -/
theorem earlierWindow_spec (seeks : Seeks voter chain store before memory)
    (honest : ∀ roundId, (reads roundId).Honest chain) {newest : String} {earlier : List String}
    (revealed : revealedRoundIds store voter.config.schemaId (poolWindowRounds + 1) =
      newest :: earlier) :
    Seeks voter chain store before (voter.earlierWindow store reads newest earlier memory).2 ∧
      ∀ window seed, (voter.earlierWindow store reads newest earlier memory).1 =
        .ok (window, seed) → voter.SeededBy chain store window seed := by
  cases earlier with
  | nil =>
    refine ⟨seeks, fun window seed same => ?_⟩
    cases same
    exact seededBy_nil
  | cons previous rest =>
    have outcome := (tieSeed_outcome seeks.seeds (honest previous)).seeks seeks
    rw [earlierWindow]
    generalize voter.tieSeed store reads previous memory = asked at outcome ⊢
    obtain ⟨result, memory⟩ := asked
    obtain ⟨seeks, known⟩ := outcome
    cases result with
    | error raised => exact ⟨seeks, fun window seed same => by cases same⟩
    | ok answer =>
      cases answer with
      | some seed =>
        -- the earlier window is part of the revealed rounds, which are closed and distinct
        have part : ((previous :: rest).take poolWindowRounds).Sublist
            (revealedRoundIds store voter.config.schemaId (poolWindowRounds + 1)) := by
          rw [revealed]
          exact (List.take_sublist _ _).cons _
        have by_ := seededBy_of_sublist rfl part rfl (known seed rfl)
        refine ⟨seeks.seeded by_, fun window own same => ?_⟩
        cases same
        exact by_
      | none =>
        simp only
        -- neither seed is readable: the newest window that was seeded stands in
        cases last : memory.lastSeededWindow with
        | none => exact ⟨seeks, fun window seed same => by cases same⟩
        | some held =>
          refine ⟨seeks, fun window seed same => ?_⟩
          cases same
          exact seeks.window window seed last

variable {world : PoolWorld}

/-- Seeds of rounds that left the window are dropped first. -/
theorem Sound.seeks (sound : voter.Sound chain world) (revealed : List String) :
    Seeks voter chain world.store world.memory (keepSeeds revealed world.memory) :=
  ⟨rfl, sound.seeds.filter _, sound.window⟩

/-- A window, if there is one, has the seed of its newest round. -/
theorem seededWindow_spec (sound : voter.Sound chain world)
    (honest : ∀ roundId, (reads roundId).Honest chain) :
    Seeks voter chain world.store world.memory
        (voter.seededWindow world.store reads world.memory).2 ∧
      ∀ window seed, (voter.seededWindow world.store reads world.memory).1 = .ok (window, seed) →
        voter.SeededBy chain world.store window seed := by
  rw [seededWindow]
  have seeks := sound.seeks
    (revealedRoundIds world.store voter.config.schemaId (poolWindowRounds + 1))
  generalize keepSeeds _ world.memory = kept at seeks ⊢
  cases revealed : revealedRoundIds world.store voter.config.schemaId (poolWindowRounds + 1) with
  | nil =>
    refine ⟨seeks, fun window seed same => ?_⟩
    cases same
    exact seededBy_nil
  | cons newest earlier =>
    have outcome := (tieSeed_outcome seeks.seeds (honest newest)).seeks seeks
    simp only
    generalize voter.tieSeed world.store reads newest kept = asked at outcome ⊢
    obtain ⟨result, memory⟩ := asked
    obtain ⟨seeks, known⟩ := outcome
    cases result with
    | error raised => exact ⟨seeks, fun window seed same => by cases same⟩
    | ok answer =>
      cases answer with
      | some seed =>
        have part : ((newest :: earlier).take poolWindowRounds).Sublist
            (revealedRoundIds world.store voter.config.schemaId (poolWindowRounds + 1)) := by
          rw [revealed]
          exact List.take_sublist _ _
        have by_ := seededBy_of_sublist rfl part rfl (known seed rfl)
        refine ⟨seeks.seeded by_, fun window own same => ?_⟩
        cases same
        exact by_
      -- the newest seed is not on the chain yet
      | none => exact earlierWindow_spec seeks honest revealed

/-- When the newest round's seed can be read, the window is that of the newest rounds. -/
theorem seededWindow_of_canRead (sound : voter.Sound chain world)
    (honest : ∀ roundId, (reads roundId).Honest chain) {newest : String}
    (leads : (voter.newestRounds world.store).head? = some newest)
    (can : voter.CanRead world.store reads newest seed) :
    (voter.seededWindow world.store reads world.memory).1 =
      .ok (voter.newestRounds world.store, seed) := by
  have seeks := sound.seeks
    (revealedRoundIds world.store voter.config.schemaId (poolWindowRounds + 1))
  have found := tieSeed_of_canRead seeks.seeds (honest newest) can
  rw [newestRounds, ← take_revealedRoundIds] at leads ⊢
  rw [seededWindow]
  generalize revealedRoundIds world.store voter.config.schemaId (poolWindowRounds + 1) = revealed
    at leads found ⊢
  cases revealed with
  | nil => cases leads
  | cons first earlier =>
    cases leads
    simp only
    generalize voter.tieSeed world.store reads newest _ = asked at found ⊢
    obtain ⟨result, memory⟩ := asked
    cases found
    rfl

/-! ### Votes -/

/-- What a sound process remembers of a window is what its rounds have. -/
theorem groups_hold (sound : voter.Sound chain world) :
    Holds (fun roundId groups => groups = voter.roundGroups world.store roundId)
      world.memory.identicalGroups :=
  sound.groups.mono fun _ _ is => is.2.trans (roundGroups_of_closed is.1).symm

/-- A vote leaves everything it remembers right, and orders the pools of a window by its seed. -/
theorem duplicatePools_sound (sound : voter.Sound chain world)
    (honest : ∀ roundId, (reads roundId).Honest chain) (scored : Option (Finset Hotkey)) :
    voter.Sound chain { world with
        memory := (voter.duplicatePools world.store reads scored world.memory).2 } ∧
      ((voter.duplicatePools world.store reads scored world.memory).1 =
        match (voter.seededWindow world.store reads world.memory).1 with
        | .error raised => .error raised
        | .ok (window, seed) => .ok (voter.pooledOver world.store window seed scored)) := by
  have spec := seededWindow_spec sound honest
  rw [duplicatePools]
  generalize voter.seededWindow world.store reads world.memory = sought at spec ⊢
  obtain ⟨result, memory⟩ := sought
  obtain ⟨seeks, known⟩ := spec
  cases result with
  | error raised =>
    exact ⟨⟨sound.consistent, seeks.groups ▸ sound.groups, seeks.seeds, seeks.window⟩, rfl⟩
  | ok answer =>
    obtain ⟨window, seed⟩ := answer
    have by_ := known window seed rfl
    have held := seeks.groups ▸ groups_hold sound
    have same : window.map (voter.roundGroups world.store) =
        window.map (voter.frozenGroups world.store) :=
      List.map_congr_left fun roundId member => roundGroups_of_closed (by_.closed roundId member)
    refine ⟨⟨sound.consistent, ?_, seeks.seeds, seeks.window⟩, ?_⟩
    · refine (holds_rebuild held by_.nodup).mono fun roundId groups is => ?_
      have closed := by_.closed roundId is.1
      exact ⟨closed, is.2.trans (roundGroups_of_closed closed)⟩
    · simp only
      rw [values_rebuild held by_.nodup, same, pooledOver]

/-! ### Runs -/

/-- Later transactions leave the seeds and groups of revealed rounds as they are. -/
theorem IsTieSeed.evolves (is : voter.IsTieSeed chain store roundId seed)
    (evolves : store.Evolves later) : voter.IsTieSeed chain later roundId seed := by
  rw [IsTieSeed] at is ⊢
  by_cases chained : voter.readsChain
  · rw [if_pos chained] at is ⊢
    obtain ⟨windows, first, found, least, same⟩ := is
    exact ⟨windows, first, evolves.windows _ windows found, least, same⟩
  · rwa [if_neg chained] at is ⊢

theorem frozenGroups_evolves (evolves : store.Evolves later)
    (closed : store.IsClosed ⟨roundId, voter.config.schemaId⟩) :
    voter.frozenGroups later roundId = voter.frozenGroups store roundId := by
  rw [frozenGroups, frozenGroups, evolves.consensusBundles_eq closed]

theorem sound_transaction (sound : voter.Sound chain world) (limits : Limits)
    (operation : RoundOperation) :
    voter.Sound chain { world with store := operation.apply limits world.store } := by
  have change := operation.apply_change limits sound.consistent
  have evolves := change.evolves
  refine ⟨change.consistent sound.consistent, ?_, ?_, fun window seed last => ?_⟩
  · exact sound.groups.mono fun roundId groups is =>
      ⟨evolves.closed _ is.1, is.2.trans (frozenGroups_evolves evolves is.1).symm⟩
  · exact sound.seeds.mono fun roundId seed is => is.evolves evolves
  · have by_ := sound.window window seed last
    exact ⟨by_.nodup, fun roundId member => evolves.closed _ (by_.closed roundId member),
      by_.empty, fun newest leads => (by_.newest newest leads).evolves evolves⟩

theorem sound_fresh (consistent : store.Consistent) :
    voter.Sound chain ⟨store, PoolMemory.fresh⟩ :=
  ⟨consistent, holds_empty, holds_empty, fun _ _ last => by cases last⟩

/-- Everything a validator remembers is right at any time. -/
theorem sound_run (limits : Limits) {events : List PoolEvent}
    (honest : ∀ event ∈ events, event.Honest chain) (sound : voter.Sound chain world) :
    voter.Sound chain (run (voter.happen limits) world events) := by
  induction events generalizing world with
  | nil => exact sound
  | cons event rest ih =>
    obtain ⟨own, later⟩ := List.forall_mem_cons.mp honest
    refine ih later ?_
    cases event with
    | transaction operation => exact sound_transaction sound limits operation
    | vote scored reads => exact (duplicatePools_sound sound own scored).1
    | restart => exact sound_fresh sound.consistent

/-- A vote gives the pools of the window that it settles on, when it settles on one. -/
theorem exists_of_duplicatePools_eq_ok (sound : voter.Sound chain world)
    (honest : ∀ roundId, (reads roundId).Honest chain) {scored : Option (Finset Hotkey)}
    {pools : List (List Hotkey)}
    (voted : (voter.duplicatePools world.store reads scored world.memory).1 = .ok pools) :
    ∃ window seed, voter.SeededBy chain world.store window seed ∧
      pools = voter.pooledOver world.store window seed scored := by
  have known := (seededWindow_spec sound honest).2
  rw [(duplicatePools_sound sound honest scored).2] at voted
  cases settled : (voter.seededWindow world.store reads world.memory).1 with
  | error raised =>
    rw [settled] at voted
    cases voted
  | ok answer =>
    rw [settled] at voted
    cases voted
    exact ⟨answer.1, answer.2, known answer.1 answer.2 settled, rfl⟩

/-- A vote that can read the newest round's seed is that of the newest rounds. -/
theorem duplicatePools_of_canRead (sound : voter.Sound chain world)
    (honest : ∀ roundId, (reads roundId).Honest chain) {newest : String}
    (leads : (voter.newestRounds world.store).head? = some newest)
    (can : voter.CanRead world.store reads newest seed) (scored : Option (Finset Hotkey)) :
    (voter.duplicatePools world.store reads scored world.memory).1 =
      .ok (voter.pooledOver world.store (voter.newestRounds world.store) seed scored) := by
  rw [(duplicatePools_sound sound honest scored).2, seededWindow_of_canRead sound honest leads can]

/-- Two databases hold the same revealed rounds: of the window's, with their windows and frozen
bundles. -/
structure SameRevealed (voter : PoolVoter) (store store' : Store) : Prop where
  rounds : voter.newestRounds store' = voter.newestRounds store
  windows : ∀ roundId ∈ voter.newestRounds store,
    store'.roundWindows ⟨roundId, voter.config.schemaId⟩ =
      store.roundWindows ⟨roundId, voter.config.schemaId⟩
  bundles : ∀ roundId ∈ voter.newestRounds store,
    store'.consensusBundles ⟨roundId, voter.config.schemaId⟩ =
      store.consensusBundles ⟨roundId, voter.config.schemaId⟩

/-- The pools and the seed of the newest rounds are a matter of the revealed rounds. -/
theorem SameRevealed.pooledOver {store' : Store} (same : SameRevealed voter store store')
    (seed : String) (scored : Option (Finset Hotkey)) :
    voter.pooledOver store' (voter.newestRounds store') seed scored =
      voter.pooledOver store (voter.newestRounds store) seed scored := by
  have groups : (voter.newestRounds store).map (voter.frozenGroups store') =
      (voter.newestRounds store).map (voter.frozenGroups store) := by
    apply List.map_congr_left
    intro roundId member
    rw [frozenGroups, frozenGroups, same.bundles roundId member]
  rw [PoolVoter.pooledOver, PoolVoter.pooledOver, same.rounds, groups]

theorem SameRevealed.isTieSeed {store' : Store} (same : SameRevealed voter store store')
    (member : roundId ∈ voter.newestRounds store) :
    voter.IsTieSeed chain store' roundId seed ↔ voter.IsTieSeed chain store roundId seed := by
  rw [IsTieSeed, IsTieSeed, same.windows roundId member]

end PoolVoter

/-- A validator over a chain at some moment of some run. -/
def PoolVoter.Reachable (voter : PoolVoter) (chain : FinalizedChain) (world : PoolWorld) : Prop :=
  ∃ limits events, (∀ event ∈ events, PoolEvent.Honest chain event) ∧
    world = run (voter.happen limits) PoolWorld.start events

theorem PoolVoter.Reachable.sound {world : PoolWorld} (reachable : voter.Reachable chain world) :
    voter.Sound chain world := by
  obtain ⟨limits, events, honest, rfl⟩ := reachable
  exact PoolVoter.sound_run limits honest (PoolVoter.sound_fresh Store.consistent_empty)

/-- Whatever votes, transactions, failed reads and restarts came before: a vote that can read the
newest revealed round's tie seed orders the pools of the newest rounds' frozen bundles by it, as a
fresh process does and as any validator does over the same revealed rounds; and every vote that
gives pools orders those of some revealed rounds by the tie seed of their newest. -/
theorem poolVotes_forgetHistory (voter : PoolVoter) (chain : FinalizedChain) {world : PoolWorld}
    (reachable : voter.Reachable chain world) {reads : String → FinalizedChainReads}
    (honest : ∀ roundId, (reads roundId).Honest chain) (scored : Option (Finset Hotkey)) :
    (∀ newest seed, (voter.newestRounds world.store).head? = some newest →
      voter.CanRead world.store reads newest seed →
        voter.IsTieSeed chain world.store newest seed ∧
        (voter.duplicatePools world.store reads scored world.memory).1 =
          .ok (voter.pooledOver world.store (voter.newestRounds world.store) seed scored) ∧
        (voter.duplicatePools world.store reads scored PoolMemory.fresh).1 =
          .ok (voter.pooledOver world.store (voter.newestRounds world.store) seed scored) ∧
        ∀ world' reads' seed', voter.Reachable chain world' →
          (∀ roundId, FinalizedChainReads.Honest (reads' roundId) chain) →
          voter.SameRevealed world.store world'.store →
          voter.CanRead world'.store reads' newest seed' →
            (voter.duplicatePools world'.store reads' scored world'.memory).1 =
              (voter.duplicatePools world.store reads scored world.memory).1) ∧
    ∀ pools, (voter.duplicatePools world.store reads scored world.memory).1 = .ok pools →
      ∃ window seed, voter.SeededBy chain world.store window seed ∧
        pools = voter.pooledOver world.store window seed scored := by
  have sound := reachable.sound
  refine ⟨fun newest seed leads can => ?_,
    fun pools voted => PoolVoter.exists_of_duplicatePools_eq_ok sound honest voted⟩
  have is := can.isTieSeed (honest newest)
  have vote := PoolVoter.duplicatePools_of_canRead sound honest leads can scored
  refine ⟨is, vote, ?_, fun world' reads' seed' reachable' honest' same can' => ?_⟩
  · exact PoolVoter.duplicatePools_of_canRead (PoolVoter.sound_fresh sound.consistent) honest leads
      can scored
  · -- the seeds agree, for the windows of the newest round do
    have leads' : (voter.newestRounds world'.store).head? = some newest := by rwa [same.rounds]
    have is' := (same.isTieSeed (List.mem_of_mem_head? leads)).mp (can'.isTieSeed (honest' newest))
    rw [PoolVoter.duplicatePools_of_canRead reachable'.sound honest' leads' can', vote,
      same.pooledOver, is.unique is']

theorem copyCoordinate_horizon (_ horizon : ℕ) (output : String) :
    (⟨"subnet", "1", "days", horizon, output⟩ : Coordinate).horizonValue = horizon := rfl

theorem copyCoordinate_output (_ horizon : ℕ) (output : String) :
    (⟨"subnet", "1", "days", horizon, output⟩ : Coordinate).output = output := rfl

/-- Every bundle predicts the same. -/
def copyVoter : PoolVoter where
  config :=
    { schemaId := "alpha-risk"
      horizons := [5]
      universeMembers := fun _ => some [1]
      bundleValues := fun _ =>
        some (Dict.ofEntries [(⟨"subnet", "1", "days", 5, "volatility"⟩, 40)])
      outputs := []
      activeCoordinates := none
      coordinateFor := fun _ horizon output => ⟨"subnet", "1", "days", horizon, output⟩
      coordinateFor_horizon := copyCoordinate_horizon
      coordinateFor_output := copyCoordinate_output }
  readsChain := true
  sha256 := String.length

/-- Two hotkeys reveal in a round whose tie seed is that of the chain's block 2. -/
def copiedRound : List PoolEvent :=
  [.transaction (.openRound ⟨"r1", 0, 0, 0, 0, unixEpoch - 58000000⟩ "alpha-risk" none "" none),
    .transaction (.recordReveal ⟨"r1", "alpha-risk"⟩ "b" "bundle" "" true none ""),
    .transaction (.recordReveal ⟨"r1", "alpha-risk"⟩ "a" "bundle" "" true none ""),
    .transaction (.publish ⟨"r1", "alpha-risk"⟩ (fun _ => some []) ""),
    .vote none fun _ => everySecondReads 2, .restart]

theorem honest_everySecondReads : (everySecondReads 2).Honest everySecond where
  finalizedBlock _ read := ⟨2, (Except.ok.inj read).symm⟩
  timestampAtBlock _ _ read := (Except.ok.inj read).symm
  blockHash _ _ read := congrArg normalizeGenesisHash (Except.ok.inj read).symm

/-- The world after that round. -/
def copiedWorld : PoolWorld := run (copyVoter.happen ⟨1, 1, le_rfl, le_rfl⟩) PoolWorld.start copiedRound

/-- The copies are one pool, in the order of the seed's digests. -/
theorem poolVotes_forgetHistory_copies :
    (copyVoter.duplicatePools copiedWorld.store (fun _ => everySecondReads 2) (some {"a", "b"})
      copiedWorld.memory).1 = .ok [["a", "b"]] ∧
    (copyVoter.duplicatePools copiedWorld.store (fun _ => everySecondReads 2) (some {"a", "b"})
      PoolMemory.fresh).1 = .ok [["a", "b"]] := by
  have votes := poolVotes_forgetHistory copyVoter everySecond
    ⟨⟨1, 1, le_rfl, le_rfl⟩, copiedRound, by simp [copiedRound, PoolEvent.Honest,
      honest_everySecondReads], rfl⟩ (fun _ => honest_everySecondReads) (some {"a", "b"})
  have can : copyVoter.CanRead copiedWorld.store (fun _ => everySecondReads 2) "r1" "0x00" := by
    change ∃ windows, _ ∧ _
    exact ⟨⟨"r1", 0, 0, 0, 0, unixEpoch - 58000000⟩, by decide +kernel, by decide +kernel⟩
  have newest : copyVoter.newestRounds copiedWorld.store = ["r1"] := by decide +kernel
  have pools : copyVoter.pooledOver copiedWorld.store ["r1"] "0x00" (some {"a", "b"}) =
      [["a", "b"]] := by
    have groups : ["r1"].map (copyVoter.frozenGroups copiedWorld.store) = [[["a", "b"].toFinset]] := by
      decide +kernel
    -- sorting a set does not evaluate, so its order is shown by its own lemma
    have sorted : (["a", "b"] : List Hotkey).toFinset.sort = ["a", "b"] :=
      (List.toFinset_sort (· ≤ ·) (by decide)).mpr (by decide)
    have offered : offers (some {"a", "b"}) 0 [["a", "b"].toFinset] =
        [("a", (0, 0)), ("b", (0, 0))] := by
      have counted : countedMembers (some {"a", "b"}) ["a", "b"].toFinset =
          ["a", "b"].toFinset := by decide
      have several : 1 < (["a", "b"] : List Hotkey).toFinset.card := by decide
      simp only [offers, List.zipIdx_singleton, List.flatMap_singleton, counted, if_pos several,
        sorted, List.map_cons, List.map_nil]
    have slots : (slotMembers (assignments [[["a", "b"].toFinset]] (some {"a", "b"}))).filter
        (1 < ·.card) = [["a", "b"].toFinset] := by
      simp only [assignments, List.zipIdx_singleton, List.reverse_singleton,
        List.flatMap_singleton, offered]
      decide +kernel
    rw [PoolVoter.pooledOver, groups, Scoring.duplicatePools, slots, List.insertionSort_cons,
      List.insertionSort_nil, List.orderedInsert_nil, tieOrdered, List.map_singleton, sorted]
    decide +kernel
  obtain ⟨-, vote, again, -⟩ := votes.1 "r1" "0x00" (by rw [← copiedWorld, newest]; rfl) can
  rw [← copiedWorld, newest, pools] at vote again
  exact ⟨vote, again⟩

end Endure.Scoring
