import Endure.Library.Dict
import Endure.Library.Transitions
import Endure.Protocol.Bundles
import Endure.Protocol.Handlers

/-!
# The miner's round service

`endure/protocol/miner_service.py`: a miner assembles the bundle of a round, writes it to its
state file, and pushes first the commit and then the reveal, tick after tick. Any of the
writes and pushes may fail, and a restart keeps nothing but the file.
-/

namespace Endure.Protocol

open Library Library.Transitions Endure.Scoring

/-- The phases of a round. -/
inductive RoundPhase
  | preOpen
  | commit
  | awaitingClose
  | reveal
  | closed
  deriving DecidableEq

def maxTrackedRounds : ℕ := 10

/-- What the state file holds of a round. -/
structure StateEntry where
  submission : AssembledSubmission
  committed : Bool
  revealed : Bool
  deriving DecidableEq

/-- The newest rounds, no more than are tracked. -/
def trackedRounds (rounds : List String) : List String :=
  let sorted := rounds.insertionSort (· ≤ ·)
  sorted.drop (sorted.length - maxTrackedRounds)

/-- What a miner's process remembers. -/
structure MinerRoundService where
  assembled : Dict String AssembledSubmission
  committed : Finset String
  revealed : Finset String
  missedCommits : Finset String

namespace MinerRoundService

/-- A service that remembers nothing. -/
def fresh : MinerRoundService := ⟨Dict.empty, ∅, ∅, ∅⟩

/-- Start from the state file, when there is one. -/
def loadState : Option (Dict String StateEntry) → MinerRoundService
  | none => fresh
  | some payload =>
    let entries := (trackedRounds payload.keys).filterMap fun roundId =>
      (payload.get? roundId).map fun entry => (roundId, entry)
    { assembled := Dict.ofEntries (entries.map fun entry => (entry.1, entry.2.submission))
      committed := ((entries.filter fun entry => entry.2.committed).map Prod.fst).toFinset
      revealed := ((entries.filter fun entry => entry.2.revealed).map Prod.fst).toFinset
      missedCommits := ∅ }

variable (service : MinerRoundService)

/-- What is written to the state file. -/
def statePayload : Dict String StateEntry :=
  Dict.ofEntries ((trackedRounds service.assembled.keys).filterMap fun roundId =>
    (service.assembled.get? roundId).map fun assembled =>
      (roundId, ⟨assembled, roundId ∈ service.committed, roundId ∈ service.revealed⟩))

/-- A reveal window that opens without an accepted commit. -/
def missCommit (roundId : String) : MinerRoundService :=
  if roundId ∈ service.missedCommits then service
  else
    let missed := insert roundId service.missedCommits
    { service with
      missedCommits :=
        if maxTrackedRounds < missed.card then
          missed.erase (missed.min' (Finset.insert_nonempty roundId _))
        else missed }

end MinerRoundService

/-- A miner: its wallet, its schema, and what encodes its bundles. -/
structure Miner (payload : Type) where
  codec : Codec payload
  schemaId : String
  hotkey : Hotkey

/-- What a miner has pushed. A commit stands with the submission it is of and with the state
file as it was at that moment. -/
inductive Sent
  | commit (synapse : SubmitCommit) (assembled : AssembledSubmission)
      (file : Option (Dict String StateEntry))
  | reveal (synapse : SubmitReveal)

def Sent.roundId : Sent → String
  | commit synapse _ _ => synapse.roundId
  | reveal synapse => synapse.roundId

/-- The service, its state file, and what it has pushed so far. -/
structure MinerWorld where
  service : MinerRoundService
  file : Option (Dict String StateEntry)
  sent : List Sent

/-- What becomes of a push: it does not start, it breaks off, or some validators accept. -/
inductive Push
  | unsent
  | raised
  | accepted (validators : ℕ)
  deriving DecidableEq

/-- What a tick finds: the active window, what the assembler gives, whether the state is
written after the assembly, what becomes of the push, and whether the state is written after
that. -/
structure TickRun (payload : Type) where
  window : Option (String × RoundPhase)
  assembly : Option (CanonicalBundle payload × List UInt8)
  assemblyWrites : Bool
  push : Push
  flagWrites : Bool

namespace MinerWorld

/-- A miner that is started for the first time. -/
def start : MinerWorld := ⟨.fresh, none, []⟩

variable (world : MinerWorld)

/-- Write the state file, or fail to. -/
def persistState (writes : Bool) : MinerWorld :=
  if writes then { world with file := some world.service.statePayload } else world

def remember (roundId : String) (assembled : AssembledSubmission) : MinerWorld :=
  { world with
    service := { world.service with assembled := world.service.assembled.set roundId assembled } }

def send (sent : Sent) : MinerWorld := { world with sent := world.sent ++ [sent] }

def markCommitted (roundId : String) : MinerWorld :=
  { world with
    service := { world.service with committed := insert roundId world.service.committed } }

def markRevealed (roundId : String) : MinerWorld :=
  { world with
    service := { world.service with revealed := insert roundId world.service.revealed } }

variable {payload : Type} (miner : Miner payload) (attempt : TickRun payload)

/-- The round's submission, assembled and written when there is none; nothing when the assembly
or the write fails. -/
def assemble (roundId : String) : Option AssembledSubmission × MinerWorld :=
  match world.service.assembled.get? roundId with
  | some assembled => (some assembled, world)
  | none =>
    match attempt.assembly with
    | none => (none, world)
    | some (bundle, nonce) =>
      match assembleBundle miner.codec bundle miner.hotkey nonce with
      | .error _ => (none, world)
      | .ok assembled =>
        let world := (world.remember roundId assembled).persistState attempt.assemblyWrites
        (if attempt.assemblyWrites then some assembled else none, world)

/-- Push the commit of a submission. -/
def pushCommit (roundId : String) (assembled : AssembledSubmission) : MinerWorld :=
  let pushed := world.send (.commit
    ⟨roundId, miner.schemaId, currentVersionKey, assembled.bundleHash⟩ assembled world.file)
  match attempt.push with
  | .unsent => world
  | .raised => pushed
  | .accepted validators =>
    if 1 ≤ validators ∧ roundId ∉ world.service.committed then
      (pushed.markCommitted roundId).persistState attempt.flagWrites
    else pushed

def tickCommit (roundId : String) : MinerWorld :=
  match world.assemble miner attempt roundId with
  | (none, world) => world
  | (some assembled, world) => world.pushCommit miner attempt roundId assembled

/-- Push the reveal of a submission. -/
def pushReveal (roundId : String) (assembled : AssembledSubmission) : MinerWorld :=
  let pushed := world.send (.reveal
    ⟨roundId, miner.schemaId, currentVersionKey, assembled.bundleJson, assembled.nonceHex⟩)
  match attempt.push with
  | .unsent => world
  | .raised => pushed
  | .accepted validators =>
    if 1 ≤ validators ∧ roundId ∉ world.service.revealed then
      (pushed.markRevealed roundId).persistState attempt.flagWrites
    else pushed

def tickReveal (roundId : String) : MinerWorld :=
  if roundId ∉ world.service.committed then
    { world with service := world.service.missCommit roundId }
  else
    match world.service.assembled.get? roundId with
    | none => world
    | some assembled => world.pushReveal miner attempt roundId assembled

/-- Advance the miner one step. -/
def tick : MinerWorld :=
  match attempt.window with
  | some (roundId, .commit) => world.tickCommit miner attempt roundId
  | some (roundId, .reveal) => world.tickReveal miner attempt roundId
  | _ => world

/-- A new process: only the file is kept. -/
def restart : MinerWorld := { world with service := .loadState world.file }

end MinerWorld

/-- A step of a miner's run. A process that dies in the middle of a tick is that tick broken
off there, and a restart. -/
inductive MinerStep (payload : Type)
  | tick (attempt : TickRun payload)
  | restart

def MinerStep.apply {payload : Type} (miner : Miner payload) :
    MinerStep payload → MinerWorld → MinerWorld
  | tick attempt, world => world.tick miner attempt
  | restart, world => world.restart

end Endure.Protocol
