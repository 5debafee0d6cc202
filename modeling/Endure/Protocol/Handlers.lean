import Endure.Library.Interference
import Endure.Protocol.Validation
import Endure.Storage.RoundRuns

/-!
# Submission handlers

The axon handlers of `endure/protocol/handlers.py`, as programs over the storage
calls they make. A reply is the verdict the handler leaves on the synapse.
-/

namespace Endure.Protocol

open Library.Interference Endure.Scoring Endure.Storage

/-- Commit-window message. -/
structure SubmitCommit where
  roundId : String
  schemaId : String
  specVersion : ℤ
  bundleHash : String

/-- Reveal-window message. -/
structure SubmitReveal where
  roundId : String
  schemaId : String
  specVersion : ℤ
  bundleJson : String
  nonceHex : String

/-! ### Storage calls -/

/-- The storage transactions the handlers use. -/
inductive StorageCall : Type → Type
  | roundWindows (round : RoundKey) : StorageCall (Option RoundWindows)
  | universeFor (round : RoundKey) : StorageCall (Option UniverseSnapshot)
  | roundState (round : RoundKey) : StorageCall (Option RoundState)
  | commitCount (round : RoundKey) (hotkey : Hotkey) : StorageCall ℕ
  | committedHash (round : RoundKey) (hotkey : Hotkey) : StorageCall (Option String)
  | acceptedReveal (round : RoundKey) (hotkey : Hotkey) : StorageCall (Option (String × String))
  | recordCommit (round : RoundKey) (hotkey : Hotkey) (bundleHash nowIso : String)
      (maxCommits : Option ℕ) : StorageCall Bool
  | recordRevealAttempt (round : RoundKey) (hotkey : Hotkey) (maxReveals : Option ℕ) :
      StorageCall Bool
  | recordReveal (round : RoundKey) (hotkey : Hotkey) (bundleJson nonceHex : String)
      (accepted : Bool) (rejectionCode : Option String) (nowIso : String) : StorageCall Bool

/-- Serve one call. -/
def StorageCall.serve {α : Type} (call : StorageCall α) (store : Store) : α × Store :=
  match call with
  | .roundWindows round => (store.roundWindows round, store)
  | .universeFor round => (store.universeFor round, store)
  | .roundState round => (store.roundState round, store)
  | .commitCount round hotkey => (store.commitCount round hotkey, store)
  | .committedHash round hotkey => (store.committedHash round hotkey, store)
  | .acceptedReveal round hotkey => (store.acceptedReveal round hotkey, store)
  | .recordCommit round hotkey bundleHash nowIso maxCommits =>
    store.recordCommit round hotkey bundleHash nowIso maxCommits
  | .recordRevealAttempt round hotkey maxReveals =>
    store.recordRevealAttempt round hotkey maxReveals
  | .recordReveal round hotkey bundleJson nonceHex accepted rejectionCode nowIso =>
    store.recordReveal round hotkey bundleJson nonceHex accepted rejectionCode nowIso

open Program StorageCall

/-! ### Handlers -/

/-- The handlers of one schema. -/
structure SubmissionHandlers (payload : Type) where
  schemaId : String
  maxCommits : ℕ
  maxReveals : ℕ
  codec : Codec payload
  isoformat : ℤ → String

namespace SubmissionHandlers

variable {payload : Type} (handlers : SubmissionHandlers payload)

/-- Where the handlers keep a round. -/
def roundKey (roundId : String) : RoundKey := ⟨roundId, handlers.schemaId⟩

/-- A hotkey at its cap may still repeat the hash it committed. -/
def isIdempotentRetry (round : RoundKey) (minerHotkey : Hotkey) (bundleHash : String)
    (commitCount : ℕ) : Program StorageCall Bool :=
  if handlers.maxCommits ≤ commitCount then do
    let committed ← request (committedHash round minerHotkey)
    pure (decide (committed = some bundleHash))
  else pure false

/-- Record an accepted commit; the write is the authoritative cap. -/
def recordAcceptedCommit (round : RoundKey) (minerHotkey : Hotkey) (bundleHash : String)
    (now : ℤ) (verdict : Verdict) : Program StorageCall Verdict := do
  let recorded ← request (recordCommit round minerHotkey bundleHash (handlers.isoformat now)
    (some handlers.maxCommits))
  if recorded then pure verdict
  else do
    -- the write refused: the round has closed since, or the cap was reached
    let state ← request (roundState round)
    pure (.reject (if state = some .open then .rateLimited else .lateCommit))

/-- Answer a commit. -/
def handleCommit (now : ℤ) (synapse : SubmitCommit) (minerHotkey : Hotkey) :
    Program StorageCall Verdict :=
  if synapse.schemaId ≠ handlers.schemaId then pure (.reject .unknownSchema)
  else if ¬isCanonicalRoundId synapse.roundId then pure (.reject .malformedBundle)
  else do
    let round := handlers.roundKey synapse.roundId
    match ← request (roundWindows round) with
    | none => pure (.reject .roundUnavailable)
    | some windows => do
      let commitCount ← request (commitCount round minerHotkey)
      let isRetry ← handlers.isIdempotentRetry round minerHotkey synapse.bundleHash commitCount
      -- a hotkey at its cap may still repeat the hash it committed
      if handlers.maxCommits ≤ commitCount ∧ ¬isRetry then pure (.reject .rateLimited)
      else do
        let verdict := validateCommit handlers.codec synapse.roundId synapse.schemaId
          synapse.specVersion synapse.bundleHash now windows.commitOpen windows.commitClose
        if verdict.accepted then
          handlers.recordAcceptedCommit round minerHotkey synapse.bundleHash now verdict
        else pure verdict

/-- The verdict of a reveal in its context. -/
def validateRevealIn (synapse : SubmitReveal) (committed : Option String) (minerHotkey : Hotkey)
    (now : ℤ) (windows : RoundWindows) (tickers : List String) : Verdict :=
  validateReveal handlers.codec synapse.roundId synapse.schemaId synapse.specVersion
    synapse.bundleJson synapse.nonceHex committed minerHotkey now windows.revealOpen
    windows.revealClose tickers

/-- Whether an instant is inside the reveal window. -/
def isOpenWindow (windows : RoundWindows) (now : ℤ) : Bool :=
  windows.revealOpen ≤ now && now ≤ windows.revealClose

/-- Charge one attempt for a committed reveal in its window, then validate it. -/
def admitReveal (synapse : SubmitReveal) (committed : Option String) (minerHotkey : Hotkey)
    (now : ℤ) (windows : RoundWindows) (tickers : List String) : Program StorageCall Verdict :=
  let round := handlers.roundKey synapse.roundId
  if ¬isOpenWindow windows now ∨ committed = none then
    -- early, late and uncommitted reveals are refused without a charge
    pure (handlers.validateRevealIn synapse committed minerHotkey now windows tickers)
  else do
    let charged ← request (recordRevealAttempt round minerHotkey (some handlers.maxReveals))
    if ¬charged then do
      -- a concurrent delivery of the same reveal may have been accepted meanwhile
      let accepted ← request (acceptedReveal round minerHotkey)
      if accepted = some (synapse.bundleJson, synapse.nonceHex) then pure .accept
      else do
        let state ← request (roundState round)
        pure (.reject (if state = some .open then .rateLimited else .lateReveal))
    else pure (handlers.validateRevealIn synapse committed minerHotkey now windows tickers)

/-- Accept an accepted reveal's retry at once, and put any other through admission. -/
def reviewReveal (isAcceptedRetry : Bool) (synapse : SubmitReveal) (committed : Option String)
    (minerHotkey : Hotkey) (now : ℤ) (windows : RoundWindows) (tickers : List String) :
    Program StorageCall Verdict :=
  if isAcceptedRetry then pure .accept
  else handlers.admitReveal synapse committed minerHotkey now windows tickers

/-- Persist a verdict. The round may close after validation captured its clock: a
no-op is successful only for the durable accepted member. -/
def recordVerdict (synapse : SubmitReveal) (committed : Option String) (minerHotkey : Hotkey)
    (now : ℤ) (isOpenWindow isAcceptedRetry : Bool) (verdict : Verdict) :
    Program StorageCall Verdict :=
  let round := handlers.roundKey synapse.roundId
  if committed.isSome ∧ isOpenWindow ∧ ¬isAcceptedRetry ∧
      verdict.rejectionCode ≠ some .rateLimited then do
    let recorded ← request (recordReveal round minerHotkey synapse.bundleJson synapse.nonceHex
      verdict.accepted (verdict.rejectionCode.map RejectionCode.value) (handlers.isoformat now))
    if verdict.accepted ∧ ¬recorded then do
      let accepted ← request (acceptedReveal round minerHotkey)
      if accepted ≠ some (synapse.bundleJson, synapse.nonceHex) then pure (.reject .lateReveal)
      else pure verdict
    else pure verdict
  else pure verdict

/-- Decide a reveal whose round and universe are known. -/
def decideReveal (now : ℤ) (synapse : SubmitReveal) (minerHotkey : Hotkey)
    (windows : RoundWindows) (tickers : List String) : Program StorageCall Verdict := do
  let round := handlers.roundKey synapse.roundId
  let isOpen := isOpenWindow windows now
  let accepted ← request (acceptedReveal round minerHotkey)
  let committed ← request (committedHash round minerHotkey)
  let isAcceptedRetry := isOpen && decide (accepted = some (synapse.bundleJson, synapse.nonceHex))
  let verdict ← handlers.reviewReveal isAcceptedRetry synapse committed minerHotkey now windows
    tickers
  handlers.recordVerdict synapse committed minerHotkey now isOpen isAcceptedRetry verdict

/-- What refuses a reveal before any storage is read. -/
def earlyRejection (synapse : SubmitReveal) : Option RejectionCode :=
  if synapse.specVersion ≠ currentVersionKey then some .versionMismatch
  else revealPayloadRejection synapse.bundleJson synapse.nonceHex

/-- Answer a reveal. -/
def handleReveal (now : ℤ) (synapse : SubmitReveal) (minerHotkey : Hotkey) :
    Program StorageCall Verdict :=
  if synapse.schemaId ≠ handlers.schemaId then pure (.reject .unknownSchema)
  else if ¬isCanonicalRoundId synapse.roundId then pure (.reject .malformedBundle)
  else
    match earlyRejection synapse with
    | some code => pure (.reject code)
    | none => do
      let round := handlers.roundKey synapse.roundId
      match ← request (roundWindows round) with
      | none => pure (.reject .roundUnavailable)
      | some windows => do
        match ← request (universeFor round) with
        | none => pure (.reject .roundUnavailable)
        | some snapshot => handlers.decideReveal now synapse minerHotkey windows snapshot.tickers

end SubmissionHandlers

end Endure.Protocol
