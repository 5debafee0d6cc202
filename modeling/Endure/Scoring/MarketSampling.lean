import Endure.Library.Bisection
import Endure.Library.Dict
import Endure.Library.Transitions
import Endure.Scoring.EmissionPolicy

/-!
# Finding blocks by their timestamps

The bisections of `endure/scoring/market_sampling.py` over the timestamps of the finalized
chain, the methods of `endure/live/alpha_market_data.py` that cache their answers, and the
tie seed of `endure/scoring/assessment_orchestrator.py`, which hashes such a block.
-/

namespace Endure.Scoring

open Library Library.Checked Library.Bisection Library.Transitions

/-- Why a block is not answered: the data is unusable, the chain does not cover it, or a read of
the archive fails. -/
inductive MarketDataError
  | invalid (message : String)
  | unavailable (message : String)
  | outage (message : String)
  deriving DecidableEq

/-- A datetime as the microseconds on its wall clock since 1970, with its offset from UTC when it
is aware of one. -/
structure Datetime where
  wallClock : ℤ
  utcOffset : Option ℤ

/-- The datetime some microseconds later. -/
def Datetime.add (value : Datetime) (microseconds : ℤ) : Datetime :=
  { value with wallClock := value.wallClock + microseconds }

/-- Milliseconds since the Unix epoch, from the days, seconds and microseconds that have
elapsed. -/
def utcTimestampMilliseconds (value : Datetime) : Except MarketDataError ℤ :=
  match value.utcOffset with
  | none => .error (.invalid "reveal_close must be timezone-aware")
  | some utcOffset =>
    let elapsed := value.wallClock - utcOffset
    let days := elapsed / 86400000000
    let seconds := elapsed % 86400000000 / 1000000
    let microseconds := elapsed % 1000000
    .ok ((days * 86400 + seconds) * 1000 + microseconds / 1000)

/-- The first finalized block whose timestamp is at or after a time. -/
def firstBlockAtOrAfter (timestampMs finalizedBlock : ℤ)
    (timestampAt : ℤ → Except MarketDataError ℤ) : Except MarketDataError ℤ := do
  let finalizedTimestamp ← timestampAt finalizedBlock
  if finalizedTimestamp < timestampMs then
    .error (.unavailable "timestamp is not yet covered by the finalized archive head")
  else if finalizedTimestamp = timestampMs then .ok finalizedBlock
  else
    bisect (fun block => (timestampAt block).map fun stamp => decide (timestampMs ≤ stamp))
      0 finalizedBlock

/-- The last finalized block whose timestamp is at or before a time. -/
def lastBlockAtOrBefore (timestampMs finalizedBlock : ℤ)
    (timestampAt : ℤ → Except MarketDataError ℤ) : Except MarketDataError ℤ := do
  let finalizedTimestamp ← timestampAt finalizedBlock
  if finalizedTimestamp < timestampMs then
    .error (.unavailable "timestamp is not yet covered by the finalized archive head")
  else if finalizedTimestamp = timestampMs then .ok finalizedBlock
  else
    let lowerBlock ← bisect (fun block =>
      (timestampAt block).map fun stamp => decide (timestampMs < stamp)) 0 finalizedBlock
    let lastBlock := lowerBlock - 1
    if lastBlock < 0 then
      .error (.unavailable "timestamp precedes the finalized archive history")
    else .ok lastBlock

/-- Reads of the finalized chain, each of which may fail. -/
structure FinalizedChainReads where
  finalizedBlock : Except MarketDataError ℤ
  timestampAtBlock : ℤ → Except MarketDataError ℤ
  blockHash : ℤ → Except MarketDataError String

/-- One minute. -/
def tieSeedDelay : ℤ := 60000000

/-- The tie seed of a pool window whose newest round closed its reveals then, or `none` while the
finalized head is stamped before the seed's block. -/
def chainTieSeed (reads : FinalizedChainReads) (revealClose : Datetime) :
    Except MarketDataError (Option String) := do
  let targetMs ← utcTimestampMilliseconds (revealClose.add tieSeedDelay)
  let finalized ← reads.finalizedBlock
  let finalizedTimestamp ← reads.timestampAtBlock finalized
  if finalizedTimestamp < targetMs then pure none
  else
    let block ← firstBlockAtOrAfter targetMs finalized reads.timestampAtBlock
    let hash ← reads.blockHash block
    pure (some (normalizeGenesisHash hash))

/-- The blocks that a provider has answered, by timestamp. -/
structure MarketDataProvider where
  firstTimestampBlocks : Dict ℤ ℤ
  lastTimestampBlocks : Dict ℤ ℤ

namespace MarketDataProvider

/-- A provider that has not answered yet. -/
def fresh : MarketDataProvider := ⟨Dict.empty, Dict.empty⟩

variable (provider : MarketDataProvider) (reads : FinalizedChainReads)

/-- Answer from a cache, or by a search from the finalized head whose answer is then cached. -/
def answer (cache : Dict ℤ ℤ) (search : ℤ → ℤ → (ℤ → Except MarketDataError ℤ) →
    Except MarketDataError ℤ) (timestamp : Datetime) : Except MarketDataError ℤ × Dict ℤ ℤ :=
  match utcTimestampMilliseconds timestamp with
  | .error raised => (.error raised, cache)
  | .ok timestampMs =>
    match cache.get? timestampMs with
    | some cached => (.ok cached, cache)
    | none =>
      match reads.finalizedBlock.bind fun finalizedBlock =>
        search timestampMs finalizedBlock reads.timestampAtBlock with
      | .error raised => (.error raised, cache)
      | .ok block => (.ok block, cache.set timestampMs block)

def firstFinalizedBlockAtOrAfter (timestamp : Datetime) :
    Except MarketDataError ℤ × MarketDataProvider :=
  let (block, firstTimestampBlocks) :=
    answer reads provider.firstTimestampBlocks firstBlockAtOrAfter timestamp
  (block, { provider with firstTimestampBlocks })

def lastFinalizedBlockAtOrBefore (timestamp : Datetime) :
    Except MarketDataError ℤ × MarketDataProvider :=
  let (block, lastTimestampBlocks) :=
    answer reads provider.lastTimestampBlocks lastBlockAtOrBefore timestamp
  (block, { provider with lastTimestampBlocks })

end MarketDataProvider

/-- A question to the provider, with the reads of its moment. -/
inductive BlockQuery
  | first (timestamp : Datetime) (reads : FinalizedChainReads)
  | last (timestamp : Datetime) (reads : FinalizedChainReads)

def BlockQuery.reads : BlockQuery → FinalizedChainReads
  | first _ reads | last _ reads => reads

/-- The provider after a question. -/
def ask : BlockQuery → MarketDataProvider → MarketDataProvider
  | .first timestamp reads, provider => (provider.firstFinalizedBlockAtOrAfter reads timestamp).2
  | .last timestamp reads, provider => (provider.lastFinalizedBlockAtOrBefore reads timestamp).2

/-- The chain: the timestamps of its blocks in milliseconds, which increase, and their hashes. -/
structure FinalizedChain where
  stamp : ℕ → ℤ
  hash : ℕ → String
  increasing : StrictMono stamp

namespace FinalizedChainReads

/-- The reads of a chain at a finalized head: whatever they do of other blocks, they answer for
those from 0 to the head. -/
structure Answers (reads : FinalizedChainReads) (chain : FinalizedChain) (head : ℕ) : Prop where
  finalizedBlock : reads.finalizedBlock = .ok (head : ℤ)
  timestampAtBlock : ∀ block : ℕ, block ≤ head →
    reads.timestampAtBlock block = .ok (chain.stamp block)
  blockHash : ∀ block : ℕ, block ≤ head → reads.blockHash block = .ok (chain.hash block)

/-- Reads of a chain that may fail: what they do answer is so. -/
structure Truthful (reads : FinalizedChainReads) (chain : FinalizedChain) : Prop where
  finalizedBlock : ∀ block, reads.finalizedBlock = .ok block → ∃ head : ℕ, block = head
  timestampAtBlock : ∀ (block : ℕ) stamp, reads.timestampAtBlock block = .ok stamp →
    stamp = chain.stamp block

end FinalizedChainReads

/-- The days, seconds and microseconds add up to the whole milliseconds that have elapsed. -/
theorem utcTimestampMilliseconds_eq (wallClock utcOffset : ℤ) :
    utcTimestampMilliseconds ⟨wallClock, some utcOffset⟩ =
      .ok ((wallClock - utcOffset) / 1000) := by
  simp only [utcTimestampMilliseconds, Except.ok.injEq]
  omega

/-! ### The searches -/

section Search

variable {chain : FinalizedChain} {timestampMs : ℤ} {head : ℕ}
  {timestampAt : ℤ → Except MarketDataError ℤ}

/-- Up to the head a block is answered, if at all, by its timestamp. -/
def TruthfulTo (chain : FinalizedChain) (head : ℕ) (timestampAt : ℤ → Except MarketDataError ℤ) :
    Prop :=
  ∀ (block : ℕ) stamp, block ≤ head → timestampAt block = .ok stamp → stamp = chain.stamp block

/-- What a search from a head comes to: an answer, or the failure of a read of some block between 0
and the head. -/
inductive SearchOutcome (head : ℕ) (timestampAt : ℤ → Except MarketDataError ℤ)
    (answer result : Except MarketDataError ℤ) : Prop
  | answered (same : result = answer)
  | failed (block : ℕ) (raised : MarketDataError) (within : block ≤ head)
      (read : timestampAt block = .error raised) (same : result = .error raised)

/-- A bisection of the blocks comes to where their timestamps start to satisfy a test. -/
theorem TruthfulTo.bisect_outcome (truthful : TruthfulTo chain head timestampAt)
    (test : ℤ → Bool) {start : ℕ} (within : start ≤ head)
    (starts : ∀ block : ℕ, test (chain.stamp block) = decide (start ≤ block)) :
    SearchOutcome head timestampAt (.ok start)
      (bisect (fun block => (timestampAt block).map test) 0 head) := by
  have answers (place : ℤ) (first : 0 ≤ place) (last : place < head) :
      (timestampAt place).map test = .ok (decide ((start : ℤ) ≤ place)) ∨
        ∃ raised, (timestampAt place).map test = .error raised := by
    lift place to ℕ using first
    cases read : timestampAt place with
    | error raised => exact .inr ⟨raised, rfl⟩
    | ok stamp =>
      obtain rfl := truthful place stamp (by omega) read
      refine .inl (congrArg Except.ok ((starts place).trans ?_))
      exact decide_eq_decide.mpr Int.ofNat_le.symm
  rcases bisect_cases ⟨Int.natCast_nonneg start, Int.ofNat_le.mpr within⟩ answers with
    done | ⟨place, raised, first, last, failed, same⟩
  · exact .answered done
  · lift place to ℕ using first
    refine .failed place raised (by omega) ?_ same
    cases read : timestampAt place with
    | error other =>
      rw [read] at failed
      cases failed
      rfl
    | ok stamp =>
      rw [read] at failed
      cases failed

/-- The timestamps reach a time from the least block on that is stamped at or after it. -/
theorem reaches_iff {first : ℕ} (least : IsLeast {block | timestampMs ≤ chain.stamp block} first)
    (block : ℕ) : timestampMs ≤ chain.stamp block ↔ first ≤ block :=
  ⟨fun reaches => least.2 reaches,
    fun after => le_trans least.1 (chain.increasing.monotone after)⟩

/-- The timestamps pass a time from the block on that follows the greatest one stamped at or before
it. -/
theorem passes_iff {last : ℕ} (greatest : IsGreatest {block | chain.stamp block ≤ timestampMs} last)
    (block : ℕ) : timestampMs < chain.stamp block ↔ last + 1 ≤ block := by
  rw [← not_le, Nat.succ_le_iff, ← not_le (a := block), not_iff_not]
  exact ⟨fun within => greatest.2 within,
    fun before => le_trans (chain.increasing.monotone before) greatest.1⟩

theorem exists_isLeast (covered : timestampMs ≤ chain.stamp head) :
    ∃ first ≤ head, IsLeast {block | timestampMs ≤ chain.stamp block} first := by
  classical
  have some : ∃ block, timestampMs ≤ chain.stamp block := ⟨head, covered⟩
  exact ⟨Nat.find some, Nat.find_min' some covered, Nat.find_spec some,
    fun _ reaches => Nat.find_min' some reaches⟩

theorem exists_isGreatest (started : chain.stamp 0 ≤ timestampMs)
    (covered : timestampMs ≤ chain.stamp head) :
    ∃ last ≤ head, IsGreatest {block | chain.stamp block ≤ timestampMs} last := by
  have bounded (block : ℕ) (before : chain.stamp block ≤ timestampMs) : block ≤ head :=
    chain.increasing.le_iff_le.mp (before.trans covered)
  have within : chain.stamp (Nat.findGreatest (chain.stamp · ≤ timestampMs) head) ≤ timestampMs :=
    Nat.findGreatest_spec (P := (chain.stamp · ≤ timestampMs)) (Nat.zero_le head) started
  exact ⟨_, Nat.findGreatest_le head, within,
    fun block before => Nat.le_findGreatest (bounded block before) before⟩

/-- A search for a first block comes to the least one stamped at or after the time, when the head
covers it. -/
theorem firstBlockAtOrAfter_outcome {first : ℕ} (truthful : TruthfulTo chain head timestampAt)
    (least : IsLeast {block | timestampMs ≤ chain.stamp block} first)
    (covered : timestampMs ≤ chain.stamp head) :
    SearchOutcome head timestampAt (.ok first) (firstBlockAtOrAfter timestampMs head timestampAt) := by
  rw [firstBlockAtOrAfter]
  cases read : timestampAt head with
  | error raised => exact .failed head raised le_rfl read rfl
  | ok stamp =>
    obtain rfl := truthful head stamp le_rfl read
    change SearchOutcome head timestampAt _ (if _ then _ else _)
    rw [if_neg (not_lt.mpr covered)]
    have below : first ≤ head := least.2 covered
    split
    · next reached =>
      refine .answered (congrArg Except.ok (Int.natCast_inj.mpr (le_antisymm ?_ below)))
      exact chain.increasing.le_iff_le.mp (reached.trans_le least.1)
    · exact truthful.bisect_outcome (fun stamp => decide (timestampMs ≤ stamp)) below
        fun block => decide_eq_decide.mpr (reaches_iff least block)

/-- A search for a last block comes to the greatest one stamped at or before the time, when the
head covers it. -/
theorem lastBlockAtOrBefore_outcome {last : ℕ} (truthful : TruthfulTo chain head timestampAt)
    (greatest : IsGreatest {block | chain.stamp block ≤ timestampMs} last)
    (covered : timestampMs ≤ chain.stamp head) :
    SearchOutcome head timestampAt (.ok last) (lastBlockAtOrBefore timestampMs head timestampAt) := by
  rw [lastBlockAtOrBefore]
  cases read : timestampAt head with
  | error raised => exact .failed head raised le_rfl read rfl
  | ok stamp =>
    obtain rfl := truthful head stamp le_rfl read
    change SearchOutcome head timestampAt _ (if _ then _ else _)
    rw [if_neg (not_lt.mpr covered)]
    split
    -- the head is stamped at the time itself, so it is the last block
    · next reached =>
      have below : head ≤ last := greatest.2 reached.le
      refine .answered (congrArg Except.ok (Int.natCast_inj.mpr (le_antisymm below ?_)))
      exact chain.increasing.le_iff_le.mp (greatest.1.trans reached.ge)
    · next unequal =>
      have past : last + 1 ≤ head :=
        (passes_iff greatest head).mp (lt_of_le_of_ne covered (Ne.symm unequal))
      rcases truthful.bisect_outcome (fun stamp => decide (timestampMs < stamp)) past
        (fun block => decide_eq_decide.mpr (passes_iff greatest block)) with
        done | ⟨block, raised, within, failed, same⟩
      · rw [done]
        refine .answered ?_
        change (if _ then _ else _) = _
        rw [if_neg (by omega)]
        exact congrArg Except.ok (by omega)
      · rw [same]
        exact .failed block raised within failed rfl

/-- No block is stamped at or before a time that precedes the history. -/
theorem lastBlockAtOrBefore_of_precedes (truthful : TruthfulTo chain head timestampAt)
    (precedes : timestampMs < chain.stamp 0) :
    SearchOutcome head timestampAt
      (.error (.unavailable "timestamp precedes the finalized archive history"))
      (lastBlockAtOrBefore timestampMs head timestampAt) := by
  have later (block : ℕ) : timestampMs < chain.stamp block :=
    precedes.trans_le (chain.increasing.monotone (Nat.zero_le block))
  rw [lastBlockAtOrBefore]
  cases read : timestampAt head with
  | error raised => exact .failed head raised le_rfl read rfl
  | ok stamp =>
    obtain rfl := truthful head stamp le_rfl read
    change SearchOutcome head timestampAt _ (if _ then _ else _)
    rw [if_neg (not_lt.mpr (later head).le), if_neg (later head).ne']
    rcases truthful.bisect_outcome (fun stamp => decide (timestampMs < stamp)) (Nat.zero_le head)
      (fun block => decide_eq_decide.mpr (iff_of_true (later block) (Nat.zero_le block))) with
      done | ⟨block, raised, within, failed, same⟩
    · rw [done]
      exact .answered rfl
    · rw [same]
      exact .failed block raised within failed rfl

/-- Both searches are unavailable when the head does not cover the time. -/
theorem unavailable_of_uncovered (truthful : TruthfulTo chain head timestampAt)
    (uncovered : chain.stamp head < timestampMs) :
    SearchOutcome head timestampAt
        (.error (.unavailable "timestamp is not yet covered by the finalized archive head"))
        (firstBlockAtOrAfter timestampMs head timestampAt) ∧
      SearchOutcome head timestampAt
        (.error (.unavailable "timestamp is not yet covered by the finalized archive head"))
        (lastBlockAtOrBefore timestampMs head timestampAt) := by
  rw [firstBlockAtOrAfter, lastBlockAtOrBefore]
  cases read : timestampAt head with
  | error raised =>
    exact ⟨.failed head raised le_rfl read rfl, .failed head raised le_rfl read rfl⟩
  | ok stamp =>
    obtain rfl := truthful head stamp le_rfl read
    exact ⟨.answered (if_pos uncovered), .answered (if_pos uncovered)⟩

/-- Every time is covered by some head: the timestamps are whole and increase. -/
theorem exists_covering (chain : FinalizedChain) (timestampMs : ℤ) :
    ∃ head, timestampMs ≤ chain.stamp head := by
  have grows (block : ℕ) : chain.stamp 0 + block ≤ chain.stamp block := by
    induction block with
    | zero => simp
    | succ block ih =>
      have := chain.increasing (Nat.lt_add_one block)
      push_cast
      omega
  refine ⟨(timestampMs - chain.stamp 0).toNat, ?_⟩
  have := grows (timestampMs - chain.stamp 0).toNat
  omega

end Search

/-! ### What the chain answers -/

section Answers

variable {chain : FinalizedChain} {reads : FinalizedChainReads} {head : ℕ} {timestampMs : ℤ}

theorem FinalizedChainReads.Answers.truthfulTo (answers : reads.Answers chain head) :
    TruthfulTo chain head reads.timestampAtBlock := by
  intro block stamp within read
  rw [answers.timestampAtBlock block within] at read
  exact (Except.ok.inj read).symm

/-- When every read up to the head is answered, so is the search. -/
theorem FinalizedChainReads.Answers.eq_answer (answers : reads.Answers chain head)
    {answer result : Except MarketDataError ℤ}
    (outcome : SearchOutcome head reads.timestampAtBlock answer result) : result = answer := by
  cases outcome with
  | answered same => exact same
  | failed block raised within read same =>
    rw [answers.timestampAtBlock block within] at read
    cases read

theorem firstBlockAtOrAfter_eq {first : ℕ}
    (least : IsLeast {block | timestampMs ≤ chain.stamp block} first)
    (answers : reads.Answers chain head) :
    firstBlockAtOrAfter timestampMs head reads.timestampAtBlock =
      if timestampMs ≤ chain.stamp head then .ok (first : ℤ)
      else .error (.unavailable "timestamp is not yet covered by the finalized archive head") := by
  split
  · next covered =>
    exact answers.eq_answer (firstBlockAtOrAfter_outcome answers.truthfulTo least covered)
  · next uncovered =>
    exact answers.eq_answer (unavailable_of_uncovered answers.truthfulTo (not_le.mp uncovered)).1

theorem lastBlockAtOrBefore_eq {last : ℕ}
    (greatest : IsGreatest {block | chain.stamp block ≤ timestampMs} last)
    (answers : reads.Answers chain head) :
    lastBlockAtOrBefore timestampMs head reads.timestampAtBlock =
      if timestampMs ≤ chain.stamp head then .ok (last : ℤ)
      else .error (.unavailable "timestamp is not yet covered by the finalized archive head") := by
  split
  · next covered =>
    exact answers.eq_answer (lastBlockAtOrBefore_outcome answers.truthfulTo greatest covered)
  · next uncovered =>
    exact answers.eq_answer (unavailable_of_uncovered answers.truthfulTo (not_le.mp uncovered)).2

/-- The tie seed is the hash of the first block stamped a minute after the close. -/
theorem chainTieSeed_eq {wallClock utcOffset : ℤ} {first : ℕ}
    (least : IsLeast
      {block | (wallClock + tieSeedDelay - utcOffset) / 1000 ≤ chain.stamp block} first)
    (answers : reads.Answers chain head) :
    chainTieSeed reads ⟨wallClock, some utcOffset⟩ =
      .ok (if (wallClock + tieSeedDelay - utcOffset) / 1000 ≤ chain.stamp head then
        some (normalizeGenesisHash (chain.hash first)) else none) := by
  rw [chainTieSeed, Datetime.add, utcTimestampMilliseconds_eq, answers.finalizedBlock]
  change (reads.timestampAtBlock head >>= _) = _
  rw [answers.timestampAtBlock head le_rfl]
  change (if _ then _ else _) = _
  by_cases covered : (wallClock + tieSeedDelay - utcOffset) / 1000 ≤ chain.stamp head
  · rw [if_neg (not_lt.mpr covered), firstBlockAtOrAfter_eq least answers, if_pos covered,
      if_pos covered]
    change (reads.blockHash first >>= _) = _
    rw [answers.blockHash first (least.2 covered)]
    rfl
  · rw [if_pos (not_le.mp covered), if_neg covered]
    rfl

end Answers

/-! ### The provider's caches -/

/-- The reads of a question are of the chain: the head is a block, and what is read of the blocks
up to it is so. -/
def BlockQuery.Truthful (chain : FinalizedChain) (query : BlockQuery) : Prop :=
  ∀ finalizedBlock, query.reads.finalizedBlock = .ok finalizedBlock →
    ∃ head : ℕ, finalizedBlock = head ∧ TruthfulTo chain head query.reads.timestampAtBlock

/-- What a cache holds is right, and was found from a head among some that covers its time. -/
def CacheHolds (chain : FinalizedChain) (heads : Set ℕ) (right : ℤ → ℕ → Prop)
    (cache : Dict ℤ ℤ) : Prop :=
  ∀ timestampMs cached, cache.get? timestampMs = some cached →
    ∃ block head : ℕ, cached = block ∧ right timestampMs block ∧ head ∈ heads ∧
      timestampMs ≤ chain.stamp head

/-- A search that finds nothing but what is right, from a head that covers the time. -/
def Sound (chain : FinalizedChain) (right : ℤ → ℕ → Prop)
    (search : ℤ → ℤ → (ℤ → Except MarketDataError ℤ) → Except MarketDataError ℤ) : Prop :=
  ∀ timestampMs (head : ℕ) timestampAt found, TruthfulTo chain head timestampAt →
    search timestampMs head timestampAt = .ok found →
    ∃ block : ℕ, found = block ∧ right timestampMs block ∧ timestampMs ≤ chain.stamp head

theorem sound_firstBlockAtOrAfter (chain : FinalizedChain) : Sound chain
    (fun timestampMs => IsLeast {block | timestampMs ≤ chain.stamp block}) firstBlockAtOrAfter := by
  intro timestampMs head timestampAt found truthful done
  rcases le_or_gt timestampMs (chain.stamp head) with covered | uncovered
  · obtain ⟨first, -, least⟩ := exists_isLeast covered
    cases firstBlockAtOrAfter_outcome truthful least covered with
    | answered same =>
      cases done.symm.trans same
      exact ⟨first, rfl, least, covered⟩
    | failed block raised within read same => cases done.symm.trans same
  · cases (unavailable_of_uncovered truthful uncovered).1 with
    | answered same => cases done.symm.trans same
    | failed block raised within read same => cases done.symm.trans same

theorem sound_lastBlockAtOrBefore (chain : FinalizedChain) : Sound chain
    (fun timestampMs => IsGreatest {block | chain.stamp block ≤ timestampMs})
    lastBlockAtOrBefore := by
  intro timestampMs head timestampAt found truthful done
  rcases le_or_gt timestampMs (chain.stamp head) with covered | uncovered
  · rcases le_or_gt (chain.stamp 0) timestampMs with started | precedes
    · obtain ⟨last, -, greatest⟩ := exists_isGreatest started covered
      cases lastBlockAtOrBefore_outcome truthful greatest covered with
      | answered same =>
        cases done.symm.trans same
        exact ⟨last, rfl, greatest, covered⟩
      | failed block raised within read same => cases done.symm.trans same
    · cases lastBlockAtOrBefore_of_precedes truthful precedes with
      | answered same => cases done.symm.trans same
      | failed block raised within read same => cases done.symm.trans same
  · cases (unavailable_of_uncovered truthful uncovered).2 with
    | answered same => cases done.symm.trans same
    | failed block raised within read same => cases done.symm.trans same

section Provider

variable {chain : FinalizedChain} {heads : Set ℕ} {right : ℤ → ℕ → Prop} {cache : Dict ℤ ℤ}
  {search : ℤ → ℤ → (ℤ → Except MarketDataError ℤ) → Except MarketDataError ℤ}

/-- Answering keeps a cache right. -/
theorem CacheHolds.answer (holds : CacheHolds chain heads right cache)
    (sound : Sound chain right search) {reads : FinalizedChainReads}
    (truthful : ∀ finalizedBlock, reads.finalizedBlock = .ok finalizedBlock →
      ∃ head : ℕ, finalizedBlock = head ∧ head ∈ heads ∧
        TruthfulTo chain head reads.timestampAtBlock) (timestamp : Datetime) :
    CacheHolds chain heads right (MarketDataProvider.answer reads cache search timestamp).2 := by
  rw [MarketDataProvider.answer]
  split
  · exact holds
  · next timestampMs _ =>
    split
    · exact holds
    · split
      · exact holds
      · next block found =>
        cases read : reads.finalizedBlock with
        | error raised =>
          rw [read] at found
          cases found
        | ok finalizedBlock =>
          rw [read] at found
          obtain ⟨head, rfl, among, answers⟩ := truthful finalizedBlock read
          -- an answer is stored only when the head covered its time
          obtain ⟨number, rfl, is, covered⟩ := sound timestampMs head _ block answers found
          intro other cached held
          simp only [Dict.get?_set] at held
          split at held
          · next same =>
            cases held
            exact ⟨number, head, rfl, same ▸ is, among, same ▸ covered⟩
          · exact holds other cached held

/-- Both caches of a provider are right. -/
structure MarketDataProvider.Holds (provider : MarketDataProvider) (chain : FinalizedChain)
    (heads : Set ℕ) : Prop where
  first : CacheHolds chain heads
    (fun timestampMs => IsLeast {block | timestampMs ≤ chain.stamp block})
    provider.firstTimestampBlocks
  last : CacheHolds chain heads
    (fun timestampMs => IsGreatest {block | chain.stamp block ≤ timestampMs})
    provider.lastTimestampBlocks

/-- The heads that some questions found. -/
def headsOf (queries : List BlockQuery) : Set ℕ :=
  {head | ∃ query ∈ queries, query.reads.finalizedBlock = .ok (head : ℤ)}

theorem holds_run {queries asked : List BlockQuery} (among : asked ⊆ queries)
    (truthful : ∀ query ∈ queries, query.Truthful chain) {provider : MarketDataProvider}
    (holds : provider.Holds chain (headsOf queries)) :
    (run ask provider asked).Holds chain (headsOf queries) := by
  induction asked generalizing provider with
  | nil => exact holds
  | cons query rest ih =>
    have member : query ∈ queries := among List.mem_cons_self
    have known : ∀ finalizedBlock, query.reads.finalizedBlock = .ok finalizedBlock →
        ∃ head : ℕ, finalizedBlock = head ∧ head ∈ headsOf queries ∧
          TruthfulTo chain head query.reads.timestampAtBlock := by
      intro finalizedBlock read
      obtain ⟨head, rfl, answers⟩ := truthful query member finalizedBlock read
      exact ⟨head, rfl, ⟨query, member, read⟩, answers⟩
    refine ih (fun other later => among (List.mem_cons_of_mem _ later)) ?_
    cases query with
    | first timestamp reads =>
      exact ⟨holds.first.answer (sound_firstBlockAtOrAfter chain) known timestamp, holds.last⟩
    | last timestamp reads =>
      exact ⟨holds.first, holds.last.answer (sound_lastBlockAtOrBefore chain) known timestamp⟩

theorem holds_fresh : MarketDataProvider.fresh.Holds chain heads := by
  constructor
  · intro timestampMs cached held
    rw [MarketDataProvider.fresh, Dict.get?_empty] at held
    cases held
  · intro timestampMs cached held
    rw [MarketDataProvider.fresh, Dict.get?_empty] at held
    cases held

/-- A right cache answers what the search does, when the head covers the time or no head before it
was higher. -/
theorem CacheHolds.answer_eq (holds : CacheHolds chain heads right cache)
    {reads : FinalizedChainReads} {head : ℕ} (answers : reads.Answers chain head)
    {wallClock utcOffset : ℤ}
    (finds : ∀ block : ℕ, right ((wallClock - utcOffset) / 1000) block →
      (wallClock - utcOffset) / 1000 ≤ chain.stamp head →
      search ((wallClock - utcOffset) / 1000) head reads.timestampAtBlock = .ok (block : ℤ))
    (reached : (wallClock - utcOffset) / 1000 ≤ chain.stamp head ∨
      ∀ earlier ∈ heads, earlier ≤ head) :
    (MarketDataProvider.answer reads cache search ⟨wallClock, some utcOffset⟩).1 =
      search ((wallClock - utcOffset) / 1000) head reads.timestampAtBlock := by
  rw [MarketDataProvider.answer, utcTimestampMilliseconds_eq]
  simp only
  split
  · next cached held =>
    obtain ⟨block, earlier, rfl, is, among, before⟩ := holds _ _ held
    have covered : (wallClock - utcOffset) / 1000 ≤ chain.stamp head := by
      rcases reached with covered | highest
      · exact covered
      · exact before.trans (chain.increasing.monotone (highest earlier among))
    exact (finds block is covered).symm
  · rw [answers.finalizedBlock]
    change (match search _ _ _ with
      | .error raised => (Except.error raised, cache)
      | .ok block => (.ok block, cache.set _ block)).1 = _
    split
    · next raised failed => exact failed.symm
    · next block found => exact found.symm

end Provider

/-- For a time in whole milliseconds the searches and the tie seed answer from every finalized head
that covers it with one block, the least stamped at or after it or the greatest stamped at or
before it, and are unavailable, or give no seed, from every other; before the history there is no
last block. A provider answers the same, whatever it was asked before, from a head that covers the
time or is not below one it was asked at. -/
theorem window_boundaries (chain : FinalizedChain) (wallClock utcOffset : ℤ) :
    let timestampMs := (wallClock - utcOffset) / 1000
    let seedMs := (wallClock + tieSeedDelay - utcOffset) / 1000
    (∃ first, IsLeast {block | timestampMs ≤ chain.stamp block} first ∧
      ∀ head (reads : FinalizedChainReads), reads.Answers chain head →
        firstBlockAtOrAfter timestampMs head reads.timestampAtBlock =
          if timestampMs ≤ chain.stamp head then .ok (first : ℤ) else
            .error (.unavailable "timestamp is not yet covered by the finalized archive head")) ∧
    (chain.stamp 0 ≤ timestampMs → ∃ last,
      IsGreatest {block | chain.stamp block ≤ timestampMs} last ∧
      ∀ head (reads : FinalizedChainReads), reads.Answers chain head →
        lastBlockAtOrBefore timestampMs head reads.timestampAtBlock =
          if timestampMs ≤ chain.stamp head then .ok (last : ℤ) else
            .error (.unavailable "timestamp is not yet covered by the finalized archive head")) ∧
    (timestampMs < chain.stamp 0 →
      ∀ head (reads : FinalizedChainReads), reads.Answers chain head →
        lastBlockAtOrBefore timestampMs head reads.timestampAtBlock =
          .error (.unavailable "timestamp precedes the finalized archive history")) ∧
    (∃ first, IsLeast {block | seedMs ≤ chain.stamp block} first ∧
      ∀ head (reads : FinalizedChainReads), reads.Answers chain head →
        chainTieSeed reads ⟨wallClock, some utcOffset⟩ =
          .ok (if seedMs ≤ chain.stamp head then
            some (normalizeGenesisHash (chain.hash first)) else none)) ∧
    ∀ asked : List BlockQuery, (∀ query ∈ asked, query.Truthful chain) →
      ∀ head (reads : FinalizedChainReads), reads.Answers chain head →
        (timestampMs ≤ chain.stamp head ∨ ∀ earlier ∈ headsOf asked, earlier ≤ head) →
        ((run ask MarketDataProvider.fresh asked).firstFinalizedBlockAtOrAfter reads
            ⟨wallClock, some utcOffset⟩).1 =
          firstBlockAtOrAfter timestampMs head reads.timestampAtBlock ∧
        ((run ask MarketDataProvider.fresh asked).lastFinalizedBlockAtOrBefore reads
            ⟨wallClock, some utcOffset⟩).1 =
          lastBlockAtOrBefore timestampMs head reads.timestampAtBlock := by
  intro timestampMs seedMs
  refine ⟨?_, fun started => ?_, fun precedes head reads answers => ?_, ?_,
    fun asked truthful head reads answers reached => ?_⟩
  -- every instant is covered by some head, and the least block covering it is the same for all
  · obtain ⟨head, covered⟩ := exists_covering chain timestampMs
    obtain ⟨first, -, least⟩ := exists_isLeast covered
    exact ⟨first, least, fun _ _ answers => firstBlockAtOrAfter_eq least answers⟩
  · obtain ⟨head, covered⟩ := exists_covering chain timestampMs
    obtain ⟨last, -, greatest⟩ := exists_isGreatest started covered
    exact ⟨last, greatest, fun _ _ answers => lastBlockAtOrBefore_eq greatest answers⟩
  · exact answers.eq_answer (lastBlockAtOrBefore_of_precedes answers.truthfulTo precedes)
  · obtain ⟨head, covered⟩ := exists_covering chain seedMs
    obtain ⟨first, -, least⟩ := exists_isLeast covered
    exact ⟨first, least, fun _ _ answers => chainTieSeed_eq least answers⟩
  -- what is cached is right for each head that it may be asked at
  · have holds := holds_run (List.Subset.refl asked) truthful holds_fresh
    constructor
    · refine holds.first.answer_eq answers (fun block is covered => ?_) reached
      rw [firstBlockAtOrAfter_eq is answers, if_pos covered]
    · refine holds.last.answer_eq answers (fun block is covered => ?_) reached
      rw [lastBlockAtOrBefore_eq is answers, if_pos covered]

/-- A chain with a block every second. -/
def everySecond : FinalizedChain where
  stamp block := 1000 * block
  hash _ := "0x00"
  increasing := by
    intro first second before
    simp only
    omega

/-- Reads of that chain at a finalized head. -/
def everySecondReads (head : ℕ) : FinalizedChainReads where
  finalizedBlock := .ok head
  timestampAtBlock block := .ok (1000 * block)
  blockHash _ := .ok "0x00"

theorem answers_everySecondReads (head : ℕ) : (everySecondReads head).Answers everySecond head :=
  ⟨rfl, fun _ _ => rfl, fun _ _ => rfl⟩

/-- Half a millisecond past a block's stamp that block is still answered, though it is stamped
before; and a provider that has answered from block 2 answers so at block 1, which is stamped before
the instant. -/
theorem first_block_before_half_millisecond : (everySecondReads 2).Answers everySecond 2 ∧
    (1000500 : ℤ) ≤ 1000 * everySecond.stamp 2 ∧
    (MarketDataProvider.fresh.firstFinalizedBlockAtOrAfter (everySecondReads 2)
      ⟨1000500, some 0⟩).1 = .ok 1 ∧
    ¬IsLeast {block | (1000500 : ℤ) ≤ 1000 * everySecond.stamp block} 1 ∧
    (everySecondReads 1).Answers everySecond 1 ∧ 1000 * everySecond.stamp 1 < (2000000 : ℤ) ∧
    ((MarketDataProvider.fresh.firstFinalizedBlockAtOrAfter (everySecondReads 2)
      ⟨2000000, some 0⟩).2.firstFinalizedBlockAtOrAfter (everySecondReads 1)
        ⟨2000000, some 0⟩).1 = .ok 2 ∧
    (MarketDataProvider.fresh.firstFinalizedBlockAtOrAfter (everySecondReads 1)
      ⟨2000000, some 0⟩).1 =
        .error (.unavailable "timestamp is not yet covered by the finalized archive head") := by
  have least : IsLeast {block : ℕ | (1000500 - 0) / 1000 ≤ everySecond.stamp block} 1 := by
    refine ⟨by decide, fun block reaches => ?_⟩
    have reaches : (1000500 - 0) / 1000 ≤ 1000 * (block : ℤ) := reaches
    omega
  have answers := answers_everySecondReads 2
  have holds := @holds_fresh everySecond ∅
  refine ⟨answers, by decide, ?_, fun least => absurd least.1 (by decide),
    answers_everySecondReads 1, by decide, by decide +kernel, by decide +kernel⟩
  rw [MarketDataProvider.firstFinalizedBlockAtOrAfter,
    holds.first.answer_eq answers (fun block is covered => ?_) (.inl (by decide))]
  · exact firstBlockAtOrAfter_eq least answers
  · rw [firstBlockAtOrAfter_eq is answers, if_pos covered]

end Endure.Scoring
