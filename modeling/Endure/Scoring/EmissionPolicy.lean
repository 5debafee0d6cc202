import Endure.Library.Checked
import Endure.Scoring.BurnCommitment
import Endure.Scoring.WeightProcessing
import Endure.Scoring.Weights

/-!
# Planning one emission attempt

The model of `endure/scoring/emission_policy.py`. One chain snapshot plans an
attempt: earned weights, the owner's burn, or the owner vote. Two rechecks stand
between the plan and its submission, one against the prepared vector and one
against the owner facts read again at the submission block.
-/

namespace Endure.Scoring

open Library.Checked

/-- The networks an owner vote is served on. -/
inductive OwnerVoteNetwork
  | mainnet
  | testnet
  deriving DecidableEq

/-- Earned weights, the owner vote, or nothing. -/
inductive EmissionMode
  | scored
  | ownerVote
  | abstain
  deriving DecidableEq

/-- Why the chain state cannot safely support an attempt. -/
inductive EmissionBlockReason
  | ownerVoteChainMismatch
  | ownerHotkeyMismatch
  | ownerUnregistered
  | ownerSnapshotInconsistent
  | chainSnapshotInconsistent
  | validatorIdentityInvalid
  | ownerVoteVectorInvalid
  deriving DecidableEq

/-- A refused attempt with its reason. -/
structure EmissionBlocked where
  reason : EmissionBlockReason
  detail : String
  deriving DecidableEq

/-- Owner context of one attempt, rechecked before the vector is sent. The
withheld UIDs are the owner's and those of the owner coldkey's hotkeys. -/
structure OwnerVoteRecipient where
  network : OwnerVoteNetwork
  hotkey : Hotkey
  uid : ℕ
  burnBps : ℕ
  ownerColdkey : Option String
  withheld : Finset ℕ
  deriving DecidableEq

/-- The chain facts one emission attempt is planned from. -/
structure ChainSnapshot where
  block : ℤ
  hotkeys : List Hotkey
  ownerHotkey : Option Hotkey
  ownerColdkey : Option String
  coldkeys : Option (List String)
  validatorPermit : List Bool
  lastUpdate : List ℤ
  weightsRateLimit : ℤ

/-- One read of the owner's subnet commitment: whose, at which block, what. -/
structure OwnerCommitment where
  hotkey : Hotkey
  block : ℤ
  record : PyObject

/-- Owner facts read again at the submission block, before a vote is sent. -/
structure OwnerState where
  block : ℤ
  ownerHotkey : Option Hotkey
  ownerColdkey : Option String
  hotkeys : Option (List Hotkey)
  coldkeys : Option (List String)

/-- One planned attempt. A plan that still needs the owner's commitment names its
hotkey and has no vector to send. -/
structure EmissionPlan where
  due : Bool
  permit : Bool
  nextEligibleBlock : ℤ
  weights : List ℚ
  recipient : Option OwnerVoteRecipient
  burnBps : Option ℕ
  commitmentOwner : Option Hotkey
  groups : List (List ℕ)
  deriving DecidableEq

/-- Python's truth of an optional string. -/
def filled : Option String → Bool
  | some text => text ≠ ""
  | none => false

/-- Refuse an attempt unless a condition holds. -/
def require (condition : Prop) [Decidable condition] (reason : EmissionBlockReason)
    (detail : String) : Except EmissionBlocked Unit :=
  ensure condition ⟨reason, detail⟩

@[simp] theorem require_eq_ok {condition : Prop} [Decidable condition]
    {reason : EmissionBlockReason} {detail : String} {done : Unit} :
    require condition reason detail = .ok done ↔ condition :=
  ensure_eq_ok

/-- Earned weights whenever any score is positive; otherwise the fallback. -/
def selectEmissionMode (scores : List ℚ) (ownerVoteNetwork : Option OwnerVoteNetwork) :
    EmissionMode :=
  if scores.any (0 < ·) then .scored
  else if ownerVoteNetwork = none then .abstain
  else .ownerVote

/-! ### The owner -/

/-- The genesis of the main network. -/
def mainnetGenesisHash : String :=
  "0x2f0555cc76fc2840a25a6ea3b9637146806f1f44b090c175ffde2a7e5ab36c03"

/-- The subnet the mainnet owner vote is pinned to. -/
def sn30Netuid : ℤ := 30

/-- The owner the mainnet owner vote is pinned to. -/
def sn30OwnerHotkey : Hotkey := "5HW12NvEZoGz8ZzcWMh4xyDUy6H1Af85m5LB8V1L11erK1S1"

/-- The characters `str.strip` removes. -/
def pySpace (c : Char) : Bool :=
  (9 ≤ c.toNat && c.toNat ≤ 13) || (28 ≤ c.toNat && c.toNat ≤ 32) || c.toNat = 0x85 ||
    c.toNat = 0xa0 || c.toNat = 0x1680 || (0x2000 ≤ c.toNat && c.toNat ≤ 0x200a) ||
    c.toNat = 0x2028 || c.toNat = 0x2029 || c.toNat = 0x202f || c.toNat = 0x205f ||
    c.toNat = 0x3000

/-- Genesis hashes as lowercase `0x`-prefixed hexadecimal. Lowering reaches the
ASCII letters only: no other letter lowers to a hexadecimal digit or an `x`, so
no comparison with a genesis hash can tell. -/
def normalizeGenesisHash (value : String) : String :=
  let stripped := ((value.toList.dropWhile pySpace).reverse.dropWhile pySpace).reverse
  let text := stripped.map Char.toLower
  if "0x".toList.isPrefixOf text then String.ofList text
  else String.ofList ("0x".toList ++ text)

/-- The UIDs at which a hotkey appears. -/
def uidsOf (hotkeys : List Hotkey) (hotkey : Hotkey) : List ℕ :=
  (List.range hotkeys.length).filter fun uid => hotkeys[uid]? = some hotkey

/-- Require the chain, the subnet and the owner a network's vote is pinned to. -/
def checkVoteNetwork (network : OwnerVoteNetwork) (chainIdentity : String) (netuid : ℤ)
    (ownerHotkey : Option Hotkey) : Except EmissionBlocked Unit :=
  let chainIdentity := if chainIdentity = "" then "" else normalizeGenesisHash chainIdentity
  match network with
  | .mainnet => do
    require (chainIdentity = mainnetGenesisHash ∧ netuid = sn30Netuid)
      .ownerVoteChainMismatch "Mainnet owner vote is pinned to SN30"
    require (ownerHotkey = some sn30OwnerHotkey)
      .ownerHotkeyMismatch "Subnet owner is not the pinned SN30 owner"
  | .testnet =>
    require (chainIdentity ≠ mainnetGenesisHash)
      .ownerVoteChainMismatch "Testnet owner vote on the mainnet chain"

/-- The single UID of a subnet owner. -/
def registeredOwnerUid (hotkeys : List Hotkey) (ownerHotkey : Option Hotkey) :
    Except EmissionBlocked ℕ :=
  match ownerHotkey with
  | none => .error ⟨.ownerSnapshotInconsistent, "Snapshot has no subnet owner hotkey"⟩
  | some hotkey =>
    if hotkey = "" then
      .error ⟨.ownerSnapshotInconsistent, "Snapshot has no subnet owner hotkey"⟩
    else
      match uidsOf hotkeys hotkey with
      | [] => .error ⟨.ownerUnregistered, "Subnet owner is not registered"⟩
      | [uid] => .ok uid
      | _ => .error ⟨.ownerSnapshotInconsistent, "Subnet owner appears at multiple UIDs"⟩

/-- Resolve the on-chain subnet owner to its UID in one metagraph snapshot. -/
def resolveOwnerVoteUid (network : OwnerVoteNetwork) (chainIdentity : String) (netuid : ℤ)
    (hotkeys : List Hotkey) (ownerHotkey : Option Hotkey) : Except EmissionBlocked ℕ := do
  checkVoteNetwork network chainIdentity netuid ownerHotkey
  registeredOwnerUid hotkeys ownerHotkey

/-- Resolve the chain owner and require the local metagraph to agree. -/
def localOwnerUid (network : OwnerVoteNetwork) (chainIdentity : String) (netuid : ℤ)
    (snapshot : ChainSnapshot) (localHotkeys : List Hotkey) : Except EmissionBlocked ℕ := do
  let ownerUid ← resolveOwnerVoteUid network chainIdentity netuid snapshot.hotkeys
    snapshot.ownerHotkey
  require (ownerUid < localHotkeys.length ∧ localHotkeys[ownerUid]? = snapshot.ownerHotkey)
    .ownerSnapshotInconsistent "Local metagraph disagrees with the chain owner UID"
  return ownerUid

/-- UIDs whose miner incentive the chain withholds instead of paying: the owner's
and those of every hotkey of the owner's coldkey. -/
def chainWithheldUids (snapshot : ChainSnapshot) (ownerUid : ℕ) :
    Except EmissionBlocked (Finset ℕ) :=
  match snapshot.coldkeys with
  | none => .error ⟨.ownerSnapshotInconsistent,
      "Snapshot lacks the owner coldkey or a coldkey per UID"⟩
  | some coldkeys => do
    require (filled snapshot.ownerColdkey ∧ coldkeys.length = snapshot.hotkeys.length)
      .ownerSnapshotInconsistent "Snapshot lacks the owner coldkey or a coldkey per UID"
    let owned := (List.range coldkeys.length).filter fun uid =>
      coldkeys[uid]? = snapshot.ownerColdkey
    return insert ownerUid owned.toFinset

/-! ### The vector -/

/-- The block a record says it was written at, when that is an integer. -/
def recordedBlock (record : PyObject) : Option ℤ :=
  match record.get "block" with
  | .int recorded => some recorded
  | _ => none

/-- The burn rate one owner commitment read sets for this snapshot. A read of
another hotkey or block, or a record newer than its read block, does not describe
this snapshot; no read burns the whole vote. -/
def observedBurnRate (commitment : Option OwnerCommitment) (snapshot : ChainSnapshot) :
    Except EmissionBlocked ℕ :=
  match commitment with
  | none => .ok fullBurnBps
  | some commitment => do
    require (some commitment.hotkey = snapshot.ownerHotkey ∧ commitment.block = snapshot.block)
      .chainSnapshotInconsistent
      "Owner commitment was not read from the snapshot owner at its block"
    require ((recordedBlock commitment.record).all (· ≤ commitment.block))
      .chainSnapshotInconsistent "Owner commitment is newer than the block it was read at"
    return parseBurnRate (commitmentText commitment.record)

/-- Raw vector giving the owner the burn and miners the earned rest; none when no
other UID holds a positive score. -/
def ownerBurnWeights (scores : List ℚ) (ownerUid burnBps : ℕ) :
    Except EmissionBlocked (Option (List ℚ)) := do
  require (ownerUid < scores.length) .ownerSnapshotInconsistent
    "Owner UID is outside the score vector"
  let earned := scores.mapIdx fun uid score =>
    if uid ≠ ownerUid ∧ 0 < score then score else 0
  let total := earned.sum
  let burn : ℚ := burnBps / burnBpsDenominator
  let miners := 1 - burn
  return if total ≤ 0 then none
    else some ((earned.map fun score => miners * score / total).set ownerUid burn)

/-- One-hot raw vector over the local metagraph used for the attempt. -/
def ownerVoteWeights (size ownerUid : ℕ) : Except EmissionBlocked (List ℚ) := do
  require (ownerUid < size) .ownerSnapshotInconsistent
    "Owner UID is outside the local metagraph"
  return (List.range size).map fun uid => if uid = ownerUid then 1 else 0

/-- Raw vector and owner share on an owner-vote network. `earned` already holds
nothing for a UID whose incentive the chain withholds. -/
def voteNetworkWeights (earned : List ℚ) (ownerUid size burnBps : ℕ) :
    Except EmissionBlocked (List ℚ × ℕ) :=
  let ownerVote := do
    let weights ← ownerVoteWeights size ownerUid
    return (weights, fullBurnBps)
  if burnBps = 0 ∧ earned.any (0 < ·) then .ok (earned, 0)
  else if 0 < burnBps ∧ burnBps < fullBurnBps then do
    match ← ownerBurnWeights earned ownerUid burnBps with
    | some burned => return (burned, burnBps)
    | none => ownerVote
  else ownerVote

/-- Check validator identity, permit, and the chain's strict rate limit. -/
def submissionDue (validatorUid : ℤ) (validatorHotkey : Hotkey) (hotkeys : List Hotkey)
    (validatorPermits : List Bool) (lastUpdates : List ℤ) (block weightsRateLimit : ℤ) :
    Except EmissionBlocked Bool := do
  require (0 ≤ validatorUid ∧ validatorUid < hotkeys.length)
    .validatorIdentityInvalid "Validator UID is not registered"
  let uid := validatorUid.toNat
  require (validatorHotkey ≠ "" ∧ hotkeys[uid]? = some validatorHotkey)
    .validatorIdentityInvalid "Validator UID does not match its hotkey"
  require (uid < validatorPermits.length ∧ uid < lastUpdates.length)
    .chainSnapshotInconsistent "Validator metadata is missing"
  let lastUpdate := lastUpdates.getD uid 0
  require (0 ≤ block ∧ 0 ≤ weightsRateLimit ∧ 0 ≤ lastUpdate ∧ lastUpdate ≤ block)
    .chainSnapshotInconsistent "Incoherent snapshot block or rate data"
  return validatorPermits.getD uid false && decide (weightsRateLimit < block - lastUpdate)

/-- The UID of each hotkey, the last one where a hotkey repeats. -/
def uidOf (hotkeys : List Hotkey) (hotkey : Hotkey) : Option ℕ :=
  (uidsOf hotkeys hotkey).getLast?

/-- Each pool's UIDs in the local metagraph, less those that never earn, in the
pool's tie order. -/
def poolUids (pools : List (List Hotkey)) (hotkeys : List Hotkey) (withheld : Finset ℕ) :
    List (List ℕ) :=
  let groups := pools.map fun pool =>
    pool.filterMap fun hotkey => (uidOf hotkeys hotkey).filter fun uid => uid ∉ withheld
  (groups.filter fun group => 1 < group.length).insertionSort fun first second =>
    first.insertionSort (· ≤ ·) ≤ second.insertionSort (· ≤ ·)

/-! ### The plan -/

/-- Earned weight follows a hotkey, never a UID: a slot registered anew on chain
but not yet in the local metagraph must not receive it. -/
def checkScoredHotkeys (mode : EmissionMode) (snapshot : ChainSnapshot)
    (localHotkeys : List Hotkey) (scores : List ℚ) : Except EmissionBlocked Unit :=
  require (mode = .scored → ∀ uid < scores.length, 0 < scores.getD uid 0 →
      uid < localHotkeys.length ∧ uid < snapshot.hotkeys.length ∧
        localHotkeys[uid]? = snapshot.hotkeys[uid]?)
    .chainSnapshotInconsistent
    "A scored UID's hotkey differs between the local metagraph and the chain snapshot"

/-- What an owner-vote network settles of a plan. -/
structure NetworkPlan where
  weights : List ℚ
  burnBps : ℕ
  recipient : OwnerVoteRecipient
  withheld : Finset ℕ
  needsCommitment : Bool

/-- The UIDs that earn nothing in a mode: an owner vote leaves out the owner only. -/
def modeWithheld (mode : EmissionMode) (snapshot : ChainSnapshot) (ownerUid : ℕ) :
    Except EmissionBlocked (Finset ℕ) :=
  if mode = .scored then chainWithheldUids snapshot ownerUid else .ok {ownerUid}

/-- The scores that earn: a withheld UID's counts as zero. -/
def earnedScores (scores : List ℚ) (withheld : Finset ℕ) : List ℚ :=
  scores.mapIdx fun uid score => if uid ∈ withheld then 0 else score

/-- The rate a plan uses: the observed one once a scored plan has a commitment
read, the full burn otherwise. -/
def plannedRate (scored : Bool) (ownerCommitment : Option OwnerCommitment)
    (snapshot : ChainSnapshot) : Except EmissionBlocked ℕ :=
  if scored ∧ ownerCommitment.isSome then observedBurnRate ownerCommitment snapshot
  else .ok fullBurnBps

/-- The part of a plan that an owner-vote network adds. -/
def planNetwork (mode : EmissionMode) (network : OwnerVoteNetwork) (snapshot : ChainSnapshot)
    (chainIdentity : String) (netuid : ℤ) (localHotkeys : List Hotkey) (scores : List ℚ)
    (ownerCommitment : Option OwnerCommitment) : Except EmissionBlocked NetworkPlan := do
  let ownerUid ← localOwnerUid network chainIdentity netuid snapshot localHotkeys
  require (filled snapshot.ownerColdkey) .ownerSnapshotInconsistent
    "Snapshot has no subnet owner coldkey"
  let withheld ← modeWithheld mode snapshot ownerUid
  let earned := earnedScores scores withheld
  -- without a positive score the owner has it all
  let scored := mode = .scored && earned.any (0 < ·)
  let rate ← plannedRate scored ownerCommitment snapshot
  let (weights, burnBps) ← voteNetworkWeights earned ownerUid localHotkeys.length rate
  return {
    weights, burnBps, withheld
    recipient := {
      network, burnBps, withheld
      hotkey := localHotkeys.getD ownerUid ""
      uid := ownerUid
      ownerColdkey := snapshot.ownerColdkey }
    needsCommitment := scored && ownerCommitment.isNone }

/-- Plan one attempt from one snapshot, or refuse it. -/
def planEmission (mode : EmissionMode) (network : Option OwnerVoteNetwork)
    (snapshot : Option ChainSnapshot) (block : ℤ) (chainIdentity : String) (netuid : ℤ)
    (validatorUid : ℤ) (validatorHotkey : Hotkey) (localHotkeys : List Hotkey)
    (scores : List ℚ) (ownerCommitment : Option OwnerCommitment)
    (pools : List (List Hotkey)) : Except EmissionBlocked EmissionPlan := do
  match snapshot with
  | none => .error ⟨.chainSnapshotInconsistent, "No chain snapshot at this block"⟩
  | some snapshot =>
    require (snapshot.block = block) .chainSnapshotInconsistent "No chain snapshot at this block"
    checkScoredHotkeys mode snapshot localHotkeys scores
    require (mode = .ownerVote → network.isSome) .ownerVoteChainMismatch
      "Owner vote requires a vote network"
    let vote ← match network with
      | none => .ok none
      | some network =>
        (planNetwork mode network snapshot chainIdentity netuid localHotkeys scores
          ownerCommitment).map some
    let due ← submissionDue validatorUid validatorHotkey snapshot.hotkeys
      snapshot.validatorPermit snapshot.lastUpdate block snapshot.weightsRateLimit
    let permit := snapshot.validatorPermit.getD validatorUid.toNat false
    let nextEligibleBlock :=
      snapshot.lastUpdate.getD validatorUid.toNat 0 + snapshot.weightsRateLimit + 1
    return match vote with
    | none =>
      { due, permit, nextEligibleBlock
        weights := scores, recipient := none, burnBps := none, commitmentOwner := none
        groups := poolUids pools localHotkeys ∅ }
    | some vote =>
      if vote.needsCommitment then
        -- The rate is unknown until the commitment is read: nothing to send.
        { due, permit, nextEligibleBlock
          weights := [], recipient := none, burnBps := none, groups := []
          commitmentOwner := if due then snapshot.ownerHotkey else none }
      else
        { due, permit, nextEligibleBlock
          weights := vote.weights, recipient := some vote.recipient
          burnBps := some vote.burnBps, commitmentOwner := none
          groups := poolUids pools localHotkeys vote.withheld }

/-! ### Rechecks before sending -/

/-- Require the owner's u16 share to equal the burn rate up to rounding, and the
vector to be a max-scaled one with an owner entry where the rate is positive. -/
def recheckOwnerBurnShare (recipient : OwnerVoteRecipient) (hotkeys : List Hotkey)
    (uintUids : List ℕ) (uintWeights : List ℤ) : Except EmissionBlocked Unit := do
  require (uintWeights ≠ [] ∧ uintUids.length = uintWeights.length ∧ uintUids.Nodup ∧
      (0 < recipient.burnBps → recipient.uid ∈ uintUids) ∧
      (∀ uid ∈ uintUids, uid < hotkeys.length) ∧
      (∀ weight ∈ uintWeights, 0 < weight ∧ weight ≤ u16Max) ∧ u16Max ∈ uintWeights)
    .ownerVoteVectorInvalid "Owner burn requires a max-scaled u16 vector with one owner entry"
  if recipient.burnBps ≠ 0 then
    let ownerU16 := uintWeights.getD (uintUids.idxOf recipient.uid) 0
    let total := uintWeights.sum
    let deviation := |(burnBpsDenominator : ℤ) * ownerU16 - recipient.burnBps * total|
    require (2 * deviation ≤ burnBpsDenominator * (hotkeys.length + 1))
      .ownerVoteVectorInvalid "Owner share of the u16 vector does not match the burn rate"

/-- The withheld UIDs that must stay out of a shared vector. -/
def earningWithheld (recipient : OwnerVoteRecipient) : Finset ℕ :=
  if recipient.burnBps = 0 then recipient.withheld else recipient.withheld \ {recipient.uid}

/-- Recheck the planned owner against the exact prepared vector. -/
def recheckOwnerVote (recipient : OwnerVoteRecipient) (chainIdentity : String) (netuid : ℤ)
    (hotkeys : List Hotkey) (uintUids : List ℕ) (uintWeights : List ℤ)
    (minAllowedWeights : Option ℕ) (maxWeightLimit : Option ℚ) :
    Except EmissionBlocked Unit := do
  let ownerUid ← resolveOwnerVoteUid recipient.network chainIdentity netuid hotkeys
    (some recipient.hotkey)
  require (ownerUid = recipient.uid) .ownerSnapshotInconsistent
    "Owner UID moved between selection and submission"
  require (minAllowedWeights = some 1 ∧ maxWeightLimit = some 1) .ownerVoteVectorInvalid
    "Owner vote requires chain minimum 1 and maximum 1"
  if recipient.burnBps ≠ fullBurnBps then
    recheckOwnerBurnShare recipient hotkeys uintUids uintWeights
    -- The owner earns only its burn; no other withheld UID earns at all.
    require (∀ uid ∈ uintUids, uid ∉ earningWithheld recipient) .ownerVoteVectorInvalid
      "A chain-withheld UID would receive earned weight"
  else
    require (uintUids = [recipient.uid] ∧ uintWeights = [u16Max]) .ownerVoteVectorInvalid
      "Owner vote requires the exact owner u16 vector"

/-- One UID of the vector keeps its hotkey and its withheld status. -/
def recheckUid (recipient : OwnerVoteRecipient) (ownerColdkey : Option String)
    (hotkeys : List Hotkey) (coldkeys : List String) (preparedHotkeys : List Hotkey) (uid : ℕ) :
    Except EmissionBlocked Unit := do
  require (uid < hotkeys.length ∧ uid < preparedHotkeys.length ∧
      hotkeys[uid]? = preparedHotkeys[uid]?)
    .chainSnapshotInconsistent "A UID in the vector changed hands before submission"
  let withheld := uid = recipient.uid ∨ coldkeys[uid]? = ownerColdkey
  require (withheld ↔ uid ∈ recipient.withheld) .ownerSnapshotInconsistent
    "A UID in the vector changed withheld status before submission"

/-- Require the owner facts a prepared vector relies on to hold at sending. The
UIDs form a set; its order only decides which refusal comes first. -/
def recheckOwnerState (recipient : OwnerVoteRecipient) (state : Option OwnerState)
    (block : Option ℤ) (preparedHotkeys : List Hotkey) (uintUids : List ℕ) :
    Except EmissionBlocked Unit := do
  match state with
  | none => .error ⟨.chainSnapshotInconsistent, "No owner state at the submission block"⟩
  | some state =>
    require (block = some state.block) .chainSnapshotInconsistent
      "No owner state at the submission block"
    require (state.ownerHotkey = some recipient.hotkey ∧
        state.ownerColdkey = recipient.ownerColdkey)
      .ownerSnapshotInconsistent "Subnet owner changed before submission"
    match state.coldkeys, state.hotkeys with
    | some coldkeys, some hotkeys =>
      require (coldkeys.length = hotkeys.length) .ownerSnapshotInconsistent
        "Owner state lacks a coldkey per UID"
      (recipient.uid :: uintUids).dedup.forM
        (recheckUid recipient state.ownerColdkey hotkeys coldkeys preparedHotkeys)
    | _, _ => .error ⟨.ownerSnapshotInconsistent, "Owner state lacks a coldkey per UID"⟩

/-! ### What a returned plan has established -/

section Planned

variable {mode : EmissionMode} {network : OwnerVoteNetwork} {snapshot : ChainSnapshot}
  {chainIdentity : String} {netuid : ℤ} {localHotkeys : List Hotkey} {scores : List ℚ}
  {ownerCommitment : Option OwnerCommitment} {pools : List (List Hotkey)}

theorem mem_uidsOf {hotkeys : List Hotkey} {hotkey : Hotkey} {uid : ℕ} :
    uid ∈ uidsOf hotkeys hotkey ↔ hotkeys[uid]? = some hotkey := by
  rw [uidsOf, List.mem_filter, List.mem_range, decide_eq_true_eq, and_iff_right_iff_imp]
  intro found
  exact (List.getElem?_eq_some_iff.mp found).1

/-- A resolved owner is registered under its UID alone. -/
theorem uidsOf_of_resolveOwnerVoteUid {hotkeys : List Hotkey} {ownerHotkey : Option Hotkey}
    {uid : ℕ} (resolved : resolveOwnerVoteUid network chainIdentity netuid hotkeys ownerHotkey =
      .ok uid) :
    ∃ hotkey, ownerHotkey = some hotkey ∧ uidsOf hotkeys hotkey = [uid] := by
  obtain ⟨-, -, registered⟩ := bind_eq_ok.mp resolved
  unfold registeredOwnerUid at registered
  split at registered
  · cases registered
  · next hotkey =>
    split_ifs at registered
    split at registered
    · cases registered
    · next only =>
      cases registered
      exact ⟨hotkey, rfl, only⟩
    · cases registered

/-- The local metagraph holds the resolved owner at its UID. -/
theorem localOwnerUid_eq_ok {ownerUid : ℕ} :
    localOwnerUid network chainIdentity netuid snapshot localHotkeys = .ok ownerUid ↔
      resolveOwnerVoteUid network chainIdentity netuid snapshot.hotkeys snapshot.ownerHotkey =
        .ok ownerUid ∧
      ownerUid < localHotkeys.length ∧ localHotkeys[ownerUid]? = snapshot.ownerHotkey := by
  simp only [localOwnerUid, bind_eq_ok, require_eq_ok, pure, Except.pure, Except.ok.injEq]
  constructor
  · rintro ⟨_, resolved, _, registered, rfl⟩
    exact ⟨resolved, registered⟩
  · rintro ⟨resolved, registered⟩
    exact ⟨_, resolved, (), registered, rfl⟩

/-- What the network's part of a plan is made of. -/
theorem planNetwork_eq_ok {vote : NetworkPlan}
    (planned : planNetwork mode network snapshot chainIdentity netuid localHotkeys scores
      ownerCommitment = .ok vote) :
    ∃ ownerUid rate,
      localOwnerUid network chainIdentity netuid snapshot localHotkeys = .ok ownerUid ∧
      modeWithheld mode snapshot ownerUid = .ok vote.withheld ∧
      plannedRate (mode = .scored && (earnedScores scores vote.withheld).any (0 < ·))
        ownerCommitment snapshot = .ok rate ∧
      voteNetworkWeights (earnedScores scores vote.withheld) ownerUid localHotkeys.length rate =
        .ok (vote.weights, vote.burnBps) ∧
      vote.recipient = ⟨network, localHotkeys.getD ownerUid "", ownerUid, vote.burnBps,
        snapshot.ownerColdkey, vote.withheld⟩ ∧
      vote.needsCommitment = (mode = .scored && (earnedScores scores vote.withheld).any (0 < ·) &&
        ownerCommitment.isNone) := by
  simp only [planNetwork, bind_eq_ok, require_eq_ok, pure, Except.pure] at planned
  obtain ⟨ownerUid, resolved, _, -, withheld, ofMode, rate, ofRate, ⟨weights, burnBps⟩, vector,
    same⟩ := planned
  cases same
  exact ⟨ownerUid, rate, resolved, ofMode, ofRate, vector, rfl, rfl⟩

/-- What a plan on an owner-vote network is made of. -/
theorem planEmission_eq_ok {snapshot? : Option ChainSnapshot} {block validatorUid : ℤ}
    {validatorHotkey : Hotkey} {plan : EmissionPlan}
    (planned : planEmission mode (some network) snapshot? block chainIdentity netuid validatorUid
      validatorHotkey localHotkeys scores ownerCommitment pools = .ok plan) :
    ∃ snapshot vote, snapshot? = some snapshot ∧ snapshot.block = block ∧
      (mode = .scored → ∀ uid < scores.length, 0 < scores.getD uid 0 →
        uid < localHotkeys.length ∧ uid < snapshot.hotkeys.length ∧
          localHotkeys[uid]? = snapshot.hotkeys[uid]?) ∧
      planNetwork mode network snapshot chainIdentity netuid localHotkeys scores
        ownerCommitment = .ok vote ∧
      if vote.needsCommitment then
        plan.weights = [] ∧ plan.recipient = none ∧
          plan.commitmentOwner = if plan.due then snapshot.ownerHotkey else none
      else
        plan.weights = vote.weights ∧ plan.recipient = some vote.recipient ∧
          plan.burnBps = some vote.burnBps ∧ plan.commitmentOwner = none ∧
          plan.groups = poolUids pools localHotkeys vote.withheld := by
  cases snapshot? with
  | none => cases planned
  | some snapshot =>
    simp only [planEmission, checkScoredHotkeys, bind_eq_ok, require_eq_ok, map_eq_ok, pure,
      Except.pure, Except.ok.injEq] at planned
    obtain ⟨_, atBlock, _, agree, _, -, _, ⟨vote, network, rfl⟩, due, -, rfl⟩ := planned
    refine ⟨snapshot, vote, rfl, atBlock, agree, network, ?_⟩
    by_cases needs : vote.needsCommitment <;> simp [needs]

end Planned

end Endure.Scoring
