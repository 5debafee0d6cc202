import Endure.Protocol.Acknowledgements
import Endure.Protocol.SubmissionRoundTrip
import Endure.Storage.UntouchedRounds

/-!
# Valid submissions get through

A valid bundle that is committed and revealed in the windows of its round is among the bundles that
are scored, whatever other hotkeys commit and reveal, and whatever the operator does short of
ending the round, between any two storage calls of the two handlers.
-/

namespace Endure.Protocol

open Library Library.Interference Library.Interference.Program Endure.Assessment Endure.Scoring
open Endure.Storage

/-! ### What happens beside a submission -/

/-- The row that a call may write. -/
def StorageCall.target {α : Type} : StorageCall α → Option (RoundKey × Hotkey)
  | .recordCommit round hotkey .. => some (round, hotkey)
  | .recordRevealAttempt round hotkey .. => some (round, hotkey)
  | .recordReveal round hotkey .. => some (round, hotkey)
  | _ => none

/-- One transaction beside a submission: a storage call about another row, or one of the operator's
that leaves the round open. -/
inductive Beside (round : RoundKey) (hotkey : Hotkey) (store : Store) : Store → Prop
  | call {α : Type} (call : StorageCall α) (elsewhere : call.target ≠ some (round, hotkey)) :
      Beside round hotkey store (call.serve store).2
  | operate (later : Store) (operates : Operates store later)
      (stays : later.roundState round = some .open) : Beside round hotkey store later

/-- Any number of transactions beside a submission. -/
def Meanwhile (round : RoundKey) (hotkey : Hotkey) : Store → Store → Prop :=
  Relation.ReflTransGen (Beside round hotkey)

/-- The operator does not touch submissions. -/
theorem Operates.submissions {store later : Store} (operates : Operates store later)
    (consistent : store.Consistent) : later.submissions = store.submissions := by
  cases operates with
  | openRound _ _ _ _ _ _ done =>
    clear consistent
    grind [Store.openRound]
  | publish round _ _ _ _ _ done =>
    exact (Store.publish_advanced (fun isOpen => consistent.open_unfrozen isOpen) done).1.submissions
  | setRoundState round _ postOpen _ _ done =>
    exact (Store.setRoundState_advanced postOpen
      (fun isOpen => consistent.open_unfrozen isOpen) done).1.submissions

theorem StorageCall.serve_rounds {α : Type} (call : StorageCall α) (store : Store) :
    (call.serve store).2.rounds = store.rounds := by
  cases call with
  | recordCommit round hotkey bundleHash nowIso maxCommits =>
    exact Store.recordCommit_rounds ..
  | recordRevealAttempt round hotkey maxReveals => exact Store.recordRevealAttempt_rounds ..
  | recordReveal round hotkey bundleJson nonceHex accepted rejectionCode nowIso =>
    exact Store.recordReveal_rounds ..
  | _ => rfl

/-- A call writes no row but its own. -/
theorem StorageCall.serve_submissions {α : Type} (call : StorageCall α) (store : Store)
    {round : RoundKey} {hotkey : Hotkey} (elsewhere : call.target ≠ some (round, hotkey)) :
    (call.serve store).2.submissions.get? (round, hotkey) =
      store.submissions.get? (round, hotkey) := by
  -- only three calls write a row, each the row it names
  cases call with
  | recordCommit other name bundleHash nowIso maxCommits =>
    have apart : (round, hotkey) ≠ (other, name) := fun same => elsewhere (congrArg some same.symm)
    simp only [serve]
    grind [Store.recordCommit, Dict.get?_set]
  | recordRevealAttempt other name maxReveals =>
    have apart : (round, hotkey) ≠ (other, name) := fun same => elsewhere (congrArg some same.symm)
    simp only [serve]
    grind [Store.recordRevealAttempt, Dict.get?_set]
  | recordReveal other name bundleJson nonceHex accepted rejectionCode nowIso =>
    have apart : (round, hotkey) ≠ (other, name) := fun same => elsewhere (congrArg some same.symm)
    simp only [serve]
    grind [Store.recordReveal, Dict.get?_set]
  | _ => rfl

/-- An open round with its windows, its universe and the row of a hotkey. -/
structure Waits (round : RoundKey) (hotkey : Hotkey) (windows : RoundWindows)
    (snapshot : UniverseSnapshot) (row : Option SubmissionRow) (store : Store) : Prop where
  consistent : store.Consistent
  isOpen : store.roundState round = some .open
  windowed : store.roundWindows round = some windows
  frozen : store.universeFor round = some snapshot
  row : store.submissions.get? (round, hotkey) = row

section Waits

variable {round : RoundKey} {hotkey : Hotkey} {windows : RoundWindows}
variable {snapshot : UniverseSnapshot} {row : Option SubmissionRow} {store later : Store}

theorem Waits.of_beside (waits : Waits round hotkey windows snapshot row store)
    (beside : Beside round hotkey store later) :
    Waits round hotkey windows snapshot row later := by
  cases beside with
  | call call elsewhere =>
    have change := call.serve_change store
    refine ⟨change.consistent waits.consistent, ?_, change.evolves.windows _ _ waits.windowed,
      change.evolves.universes _ _ waits.frozen, ?_⟩
    · rw [Store.roundState, call.serve_rounds]
      exact waits.isOpen
    · rw [call.serve_submissions store elsewhere]
      exact waits.row
  | operate later operates stays =>
    have change := operates.change waits.consistent
    refine ⟨change.consistent waits.consistent, stays, change.evolves.windows _ _ waits.windowed,
      change.evolves.universes _ _ waits.frozen, ?_⟩
    rw [operates.submissions waits.consistent]
    exact waits.row

theorem Waits.of_meanwhile (waits : Waits round hotkey windows snapshot row store)
    (meanwhile : Meanwhile round hotkey store later) :
    Waits round hotkey windows snapshot row later := by
  induction meanwhile with
  | refl => exact waits
  | tail _ beside ih => exact ih.of_beside beside

/-- A write of the hotkey's own row. -/
theorem Waits.set (waits : Waits round hotkey windows snapshot row store) {written : SubmissionRow}
    (consistent : Store.Consistent
      { store with submissions := store.submissions.set (round, hotkey) written }) :
    Waits round hotkey windows snapshot (some written)
      { store with submissions := store.submissions.set (round, hotkey) written } :=
  ⟨consistent, waits.isOpen, waits.windowed, waits.frozen, by rw [Dict.get?_set, if_pos rfl]⟩

/-- A row that may still be committed and revealed. -/
structure Room (maxCommits maxReveals : ℕ) (row : Option SubmissionRow) : Prop where
  commits : (row.map SubmissionRow.commitCount).getD 0 < maxCommits
  reveals : (row.map SubmissionRow.revealCount).getD 0 < maxReveals
  undecided : ∀ submission, row = some submission → submission.verdict ≠ .accepted

/-- A row that has committed a hash and may still be revealed. -/
structure Committed (maxReveals : ℕ) (bundleHash : String) (submission : SubmissionRow) :
    Prop where
  hash : submission.commitHash = some bundleHash
  reveals : submission.revealCount < maxReveals
  undecided : submission.verdict ≠ .accepted

/-! ### The commit -/

/-- A commit into a row with room is recorded. -/
theorem recordCommit_of_room (waits : Waits round hotkey windows snapshot row store)
    {maxCommits maxReveals : ℕ} (room : Room maxCommits maxReveals row)
    (bundleHash nowIso : String) :
    (store.recordCommit round hotkey bundleHash nowIso (some maxCommits)).1 = true ∧
      ∃ submission, Committed maxReveals bundleHash submission ∧
        Waits round hotkey windows snapshot (some submission)
          (store.recordCommit round hotkey bundleHash nowIso (some maxCommits)).2 := by
  have consistent := (StorageCall.serve_change
    (.recordCommit round hotkey bundleHash nowIso (some maxCommits)) store).consistent
      waits.consistent
  simp only [StorageCall.serve] at consistent
  rw [Store.recordCommit, if_neg (not_not.mpr waits.isOpen)] at consistent ⊢
  have found := waits.row
  cases row with
  | none =>
    rw [found] at consistent ⊢
    refine ⟨rfl, _, ?_, waits.set consistent⟩
    exact ⟨rfl, room.reveals, by simp⟩
  | some submission =>
    have undecided := room.undecided submission rfl
    have commits : (some maxCommits).all (submission.commitCount < ·) = true := by
      simpa using room.commits
    rw [found] at consistent ⊢
    simp only at consistent ⊢
    by_cases same : submission.commitHash = some bundleHash
    · -- the hash is committed already
      rw [if_neg fun fresh => fresh.1 same]
      exact ⟨decide_eq_true same, submission, ⟨same, room.reveals, undecided⟩, waits⟩
    -- another hash replaces it, which counts as one commit more
    · rw [if_pos ⟨same, undecided, commits⟩] at consistent ⊢
      refine ⟨rfl, _, ?_, waits.set consistent⟩
      exact ⟨rfl, room.reveals, by simp⟩

end Waits

section Handlers

variable {payload : Type} {handlers : SubmissionHandlers payload} {hotkey : Hotkey}
variable {windows : RoundWindows} {snapshot : UniverseSnapshot} {row : Option SubmissionRow}
variable {store : Store} {now : ℤ}

open SubmissionHandlers StorageCall

/-- A valid commit of a hotkey with room is accepted and recorded. -/
theorem handleCommit_accepts {synapse : SubmitCommit}
    (waits : Waits (handlers.roundKey synapse.roundId) hotkey windows snapshot row store)
    (room : Room handlers.maxCommits handlers.maxReveals row)
    (schema : synapse.schemaId = handlers.schemaId)
    (canonical : isCanonicalRoundId synapse.roundId = true)
    (accepted : (validateCommit handlers.codec synapse.roundId synapse.schemaId synapse.specVersion
      synapse.bundleHash now windows.commitOpen windows.commitClose).accepted = true) :
    (handlers.handleCommit now synapse hotkey).Ensures StorageCall.serve
      (Meanwhile (handlers.roundKey synapse.roundId) hotkey)
      (fun reply later => reply.accepted = true ∧
        ∃ submission, Committed handlers.maxReveals synapse.bundleHash submission ∧
          Waits (handlers.roundKey synapse.roundId) hotkey windows snapshot (some submission)
            later) store := by
  rw [handleCommit, if_neg (not_not.mpr schema), if_neg (not_not.mpr canonical),
    ensures_request_bind]
  intro middle moved
  have waits := waits.of_meanwhile moved
  simp only [serve, waits.windowed]
  rw [ensures_request_bind]
  intro counted moved
  have waits := waits.of_meanwhile moved
  have count : (serve (commitCount (handlers.roundKey synapse.roundId) hotkey) counted).1 <
      handlers.maxCommits := by
    rw [serve, Store.commitCount, waits.row]
    exact room.commits
  generalize (serve (commitCount (handlers.roundKey synapse.roundId) hotkey) counted).1 = commits
    at count ⊢
  -- a hotkey with room is no retry at its cap
  rw [isIdempotentRetry, if_neg (not_le.mpr count)]
  refine Ensures.bind (fun _ => Relation.ReflTransGen.refl) ?_
  intro idle moved
  have waits := waits.of_meanwhile moved
  have below : ¬(handlers.maxCommits ≤ commits ∧ ¬false = true) :=
    fun full => absurd full.1 (not_le.mpr count)
  rw [if_neg below]
  simp only [accepted, if_true]
  rw [recordAcceptedCommit, ensures_request_bind]
  intro last moved
  have waits := waits.of_meanwhile moved
  obtain ⟨recorded, submission, committed, waits⟩ :=
    recordCommit_of_room waits room synapse.bundleHash (handlers.isoformat now)
  simp only [serve, recorded, if_true]
  intro later moved
  exact ⟨accepted, submission, committed, waits.of_meanwhile moved⟩

/-! ### The reveal -/

variable {submission : SubmissionRow} {synapse : SubmitReveal} {bundleHash : String}

theorem acceptedReveal_of_waits {round : RoundKey}
    (waits : Waits round hotkey windows snapshot (some submission) store)
    (undecided : submission.verdict ≠ .accepted) : store.acceptedReveal round hotkey = none := by
  rw [Store.acceptedReveal, waits.row, waits.isOpen]
  simp only
  rw [if_neg fun decided => undecided decided.1]

/-- An attempt of a committed row is charged. -/
theorem recordRevealAttempt_of_committed {round : RoundKey} {maxReveals : ℕ}
    (waits : Waits round hotkey windows snapshot (some submission) store)
    (committed : Committed maxReveals bundleHash submission) :
    (store.recordRevealAttempt round hotkey (some maxReveals)).1 = true ∧
      ∃ charged : SubmissionRow, charged.commitHash = some bundleHash ∧
        charged.verdict ≠ .accepted ∧ Waits round hotkey windows snapshot (some charged)
          (store.recordRevealAttempt round hotkey (some maxReveals)).2 := by
  have consistent := (StorageCall.serve_change
    (.recordRevealAttempt round hotkey (some maxReveals)) store).consistent waits.consistent
  -- what the update's condition asks for
  have admitted : submission.commitHash.isSome ∧ store.roundState round = some .open ∧
      (some maxReveals).all (submission.revealCount < ·) := by
    refine ⟨by rw [committed.hash]; rfl, waits.isOpen, ?_⟩
    simpa using committed.reveals
  simp only [serve] at consistent
  rw [Store.recordRevealAttempt, waits.row] at consistent ⊢
  simp only at consistent ⊢
  rw [if_pos admitted] at consistent ⊢
  refine ⟨rfl, _, ?_, ?_, waits.set consistent⟩
  · exact committed.hash
  · exact committed.undecided

/-- A verdict that accepts is written into a row that is not accepted yet. -/
theorem recordReveal_of_waits {round : RoundKey}
    (waits : Waits round hotkey windows snapshot (some submission) store)
    (undecided : submission.verdict ≠ .accepted) (bundleJson nonceHex : String)
    (rejectionCode : Option String) (nowIso : String) :
    (store.recordReveal round hotkey bundleJson nonceHex true rejectionCode nowIso).1 = true ∧
      Waits round hotkey windows snapshot
        (some { submission with
          revealedAt := some nowIso, bundleJson := some bundleJson, nonceHex := some nonceHex
          verdict := .accepted, rejectionCode })
        (store.recordReveal round hotkey bundleJson nonceHex true rejectionCode nowIso).2 := by
  have consistent := (StorageCall.serve_change
    (.recordReveal round hotkey bundleJson nonceHex true rejectionCode nowIso) store).consistent
      waits.consistent
  simp only [serve] at consistent
  simp only [Store.recordReveal, if_true] at consistent ⊢
  rw [if_neg (not_not.mpr waits.isOpen), waits.row] at consistent ⊢
  simp only at consistent ⊢
  rw [if_neg undecided, if_neg fun same => undecided same.1] at consistent ⊢
  exact ⟨rfl, waits.set consistent⟩

/-- A row that holds an accepted reveal of a hash. -/
structure Revealed (synapse : SubmitReveal) (bundleHash : String) (submission : SubmissionRow) :
    Prop where
  hash : submission.commitHash = some bundleHash
  accepted : submission.verdict = .accepted
  bundle : submission.bundleJson = some synapse.bundleJson
  nonce : submission.nonceHex = some synapse.nonceHex

/-- An admitted reveal of a committed row is accepted and recorded. -/
theorem handleReveal_accepts
    (waits : Waits (handlers.roundKey synapse.roundId) hotkey windows snapshot (some submission)
      store)
    (committed : Committed handlers.maxReveals bundleHash submission)
    (schema : synapse.schemaId = handlers.schemaId)
    (version : synapse.specVersion = currentVersionKey)
    (inside : windows.revealOpen ≤ now ∧ now ≤ windows.revealClose) {nonce : List UInt8}
    {bundle : CanonicalBundle payload}
    (admitted : Admitted handlers.codec synapse.roundId synapse.schemaId synapse.bundleJson
      synapse.nonceHex bundleHash hotkey snapshot.tickers nonce bundle) :
    (handlers.handleReveal now synapse hotkey).Ensures StorageCall.serve
      (Meanwhile (handlers.roundKey synapse.roundId) hotkey)
      (fun reply later => reply.accepted = true ∧
        ∃ revealed, Revealed synapse bundleHash revealed ∧
          Waits (handlers.roundKey synapse.roundId) hotkey windows snapshot (some revealed) later)
      store := by
  have early : earlyRejection synapse = none := by
    rw [earlyRejection, if_neg (not_not.mpr version)]
    exact admitted.size
  have isOpenWindow : isOpenWindow windows now = true := by
    simp [SubmissionHandlers.isOpenWindow, inside.1, inside.2]
  have verdict : (handlers.validateRevealIn synapse (some bundleHash) hotkey now windows
      snapshot.tickers).accepted = true :=
    validateReveal_accepted_iff.mpr ⟨version, inside, nonce, bundle, admitted⟩
  rw [handleReveal, if_neg (not_not.mpr schema), if_neg (not_not.mpr admitted.canonicalRound), early]
  simp only
  rw [ensures_request_bind]
  intro first moved
  have waits := waits.of_meanwhile moved
  simp only [serve, waits.windowed]
  rw [ensures_request_bind]
  intro second moved
  have waits := waits.of_meanwhile moved
  simp only [serve, waits.frozen]
  rw [decideReveal, ensures_request_bind]
  intro third moved
  have waits := waits.of_meanwhile moved
  simp only [serve, acceptedReveal_of_waits waits committed.undecided]
  rw [ensures_request_bind]
  intro fourth moved
  have waits := waits.of_meanwhile moved
  have hash : fourth.committedHash (handlers.roundKey synapse.roundId) hotkey =
      some bundleHash := by
    rw [Store.committedHash, waits.row]
    exact committed.hash
  -- the row is committed and holds no accepted reveal, so the attempt is charged and judged
  simp only [serve, hash, isOpenWindow, reduceCtorEq, decide_false, Bool.and_false, reviewReveal,
    Bool.false_eq_true, if_false, admitReveal, not_true_eq_false, or_self]
  refine Ensures.bind (fun _ => Relation.ReflTransGen.refl) ?_
  rw [ensures_request_bind]
  intro fifth moved
  have waits := waits.of_meanwhile moved
  obtain ⟨charged, attempted, hash, undecided, waits⟩ :=
    recordRevealAttempt_of_committed waits committed
  simp only [serve, charged, not_true_eq_false, if_false]
  intro sixth moved
  have waits := waits.of_meanwhile moved
  generalize handlers.validateRevealIn synapse (some bundleHash) hotkey now windows
    snapshot.tickers = judged at verdict ⊢
  -- an accepted verdict has no code, so it is not the rate limit and is recorded
  have fresh : judged.rejectionCode ≠ some .rateLimited := by
    rw [judged.coherent.mp verdict]
    simp
  simp only [recordVerdict, Option.isSome_some, Bool.false_eq_true, not_false_eq_true, true_and,
    if_pos fresh, verdict]
  rw [ensures_request_bind]
  intro seventh moved
  have waits := waits.of_meanwhile moved
  obtain ⟨recorded, waits⟩ := recordReveal_of_waits waits undecided synapse.bundleJson
    synapse.nonceHex (judged.rejectionCode.map RejectionCode.value) (handlers.isoformat now)
  simp only [serve, recorded, not_true_eq_false, if_false]
  intro later moved
  refine ⟨verdict, _, ?_, waits.of_meanwhile moved⟩
  exact ⟨hash, rfl, rfl, rfl⟩

/-- A valid commit and an admitted reveal of its hash, each in its window, leave an accepted row. -/
theorem revealed_of_runs {commit : SubmitCommit} {reveal : SubmitReveal} {middle later : Store}
    {now' : ℤ} {reply reply' : Verdict} {nonce : List UInt8} {bundle : CanonicalBundle payload}
    (waits : Waits (handlers.roundKey commit.roundId) hotkey windows snapshot row store)
    (room : Room handlers.maxCommits handlers.maxReveals row)
    (versions : commit.specVersion = currentVersionKey ∧ reveal.specVersion = currentVersionKey)
    (rounds : reveal.roundId = commit.roundId)
    (schemas : commit.schemaId = handlers.schemaId ∧ reveal.schemaId = handlers.schemaId)
    (known : (handlers.codec.registry commit.schemaId).isSome)
    (digest : isHexDigest commit.bundleHash = true)
    (commitWindow : windows.commitOpen ≤ now ∧ now ≤ windows.commitClose)
    (revealWindow : windows.revealOpen ≤ now' ∧ now' ≤ windows.revealClose)
    (admitted : Admitted handlers.codec reveal.roundId reveal.schemaId reveal.bundleJson
      reveal.nonceHex commit.bundleHash hotkey snapshot.tickers nonce bundle)
    (commits : Runs StorageCall.serve (Meanwhile (handlers.roundKey commit.roundId) hotkey)
      (handlers.handleCommit now commit hotkey) store reply middle)
    (reveals : Runs StorageCall.serve (Meanwhile (handlers.roundKey commit.roundId) hotkey)
      (handlers.handleReveal now' reveal hotkey) middle reply' later) :
    reply.accepted = true ∧ reply'.accepted = true ∧
      ∃ revealed, Revealed reveal commit.bundleHash revealed ∧
        Waits (handlers.roundKey commit.roundId) hotkey windows snapshot (some revealed) later := by
  -- the reveal is admitted, so the round it names is canonical
  have canonical : isCanonicalRoundId commit.roundId = true := rounds ▸ admitted.canonicalRound
  have valid : (validateCommit handlers.codec commit.roundId commit.schemaId commit.specVersion
      commit.bundleHash now windows.commitOpen windows.commitClose).accepted = true := by
    rw [versions.1]
    exact validateCommit_accepted canonical known commitWindow.1 commitWindow.2 digest
  obtain ⟨accepted, submission, committed, waits⟩ :=
    commits.of_ensures (handleCommit_accepts waits room schemas.1 canonical valid)
  rw [← rounds] at waits reveals ⊢
  obtain ⟨accepted', revealed⟩ := reveals.of_ensures
    (handleReveal_accepts waits committed schemas.2 versions.2 revealWindow admitted)
  exact ⟨accepted, accepted', revealed⟩

end Handlers

/-- **Valid submissions get through.** In every reached store with an open round, a hotkey with room
that commits and reveals what was assembled from a valid Alpha Risk bundle, each in its window, is
acknowledged twice and its text is then among the scored bundles of the round, with exactly the
submitted values. -/
theorem submission_gets_through {blake2b : List UInt8 → String}
    (digest : ∀ bytes, isHexDigest (blake2b bytes) = true) {handlers : SubmissionHandlers Json}
    (codec : handlers.codec = defaultCodec blake2b) (schema : handlers.schemaId = riskSchemaId)
    {store middle later : Store} {acknowledged : List Acknowledgement}
    (reached : Reaches handlers store acknowledged) {bundle : SubmissionBundle RiskOutput}
    (valid : riskSchema.BundleValid bundle) {windows : RoundWindows} {snapshot : UniverseSnapshot}
    (isOpen : store.roundState (handlers.roundKey bundle.roundId) = some .open)
    (windowed : store.roundWindows (handlers.roundKey bundle.roundId) = some windows)
    (frozen : store.universeFor (handlers.roundKey bundle.roundId) = some snapshot)
    {netuids : List ℕ}
    (stored : canonicalUniverseMembers alphaRiskUniverseTexts netuids = .ok snapshot.tickers)
    (capped : netuids.length ≤ maxAlphaRiskTargetsPerRound)
    (inside : ∀ asset ∈ bundle.assets, ∃ netuid ∈ netuids, (netuid : ℤ) = asset.netuid)
    {hotkey : Hotkey}
    (room : Room handlers.maxCommits handlers.maxReveals
      (store.submissions.get? (handlers.roundKey bundle.roundId, hotkey)))
    {nonce : List UInt8} (length : nonce.length = commitNonceBytes) {assembled : AssembledSubmission}
    (assembles : assembleBundle (defaultCodec blake2b) (riskSchema.canonicalBundle bundle) hotkey
      nonce = .ok assembled)
    {now now' : ℤ} (commitWindow : windows.commitOpen ≤ now ∧ now ≤ windows.commitClose)
    (revealWindow : windows.revealOpen ≤ now' ∧ now' ≤ windows.revealClose)
    {reply reply' : Verdict}
    (commits : Runs StorageCall.serve (Meanwhile (handlers.roundKey bundle.roundId) hotkey)
      (handlers.handleCommit now
        ⟨bundle.roundId, bundle.schemaId, currentVersionKey, assembled.bundleHash⟩ hotkey)
      store reply middle)
    (reveals : Runs StorageCall.serve (Meanwhile (handlers.roundKey bundle.roundId) hotkey)
      (handlers.handleReveal now' ⟨bundle.roundId, bundle.schemaId, currentVersionKey,
        assembled.bundleJson, assembled.nonceHex⟩ hotkey) middle reply' later) :
    reply.accepted = true ∧ reply'.accepted = true ∧
      (hotkey, some assembled.bundleJson) ∈
        later.scoringBundles (handlers.roundKey bundle.roundId) ∧
      ∃ values, riskBundleValues assembled.bundleJson = some values ∧
        ∀ coordinate value, values.get? coordinate = some value ↔
          ∃ asset ∈ bundle.assets, ∃ item ∈ asset.outputs,
            riskCoordinate asset.netuid item.horizonSeconds item.output = coordinate ∧
              item.value = value := by
  have few : bundle.assets.length ≤ 15 := (length_assets_le valid inside).trans capped
  have named : bundle.schemaId = handlers.schemaId := valid.schemaId.trans schema.symm
  have made := Except.ok.inj ((assembleBundle_eq_ok hotkey length).symm.trans assembles)
  have hash : isHexDigest assembled.bundleHash = true := by
    rw [← made]
    exact digest _
  have known : (handlers.codec.registry bundle.schemaId).isSome := by
    rw [codec, valid.schemaId]
    exact Option.isSome_iff_exists.mpr ⟨_, defaultRegistry_risk⟩
  -- what the miner assembled is what validation admits
  have admitted : Admitted handlers.codec bundle.roundId bundle.schemaId assembled.bundleJson
      assembled.nonceHex assembled.bundleHash hotkey snapshot.tickers nonce
      (riskSchema.canonicalBundle (riskSchema.canonical bundle)) := by
    rw [codec, ← made]
    exact admitted_of_valid defaultRegistry_risk bounded_riskSchema valid few stored inside hotkey
      length
  have text : assembled.bundleJson = (riskSchema.toCanonicalPayload bundle).dumps := by
    rw [← made]
    rfl
  let commit : SubmitCommit :=
    ⟨bundle.roundId, bundle.schemaId, currentVersionKey, assembled.bundleHash⟩
  let reveal : SubmitReveal := ⟨bundle.roundId, bundle.schemaId, currentVersionKey,
    assembled.bundleJson, assembled.nonceHex⟩
  have waits : Waits (handlers.roundKey commit.roundId) hotkey windows snapshot _ store :=
    ⟨reached.kept.1, isOpen, windowed, frozen, rfl⟩
  have admitted : Admitted handlers.codec reveal.roundId reveal.schemaId reveal.bundleJson
      reveal.nonceHex commit.bundleHash hotkey snapshot.tickers nonce _ := admitted
  have progress := revealed_of_runs waits room ⟨rfl, rfl⟩ rfl ⟨named, named⟩ known hash commitWindow
    revealWindow admitted commits reveals
  obtain ⟨accepted, accepted', revealed, held, waits⟩ := progress
  refine ⟨accepted, accepted', ?_, ?_⟩
  · rw [Store.scoringBundles, waits.isOpen]
    exact Store.mem_acceptedBundles.mpr ⟨revealed, waits.row, held.accepted, held.bundle⟩
  · rw [text]
    exact get?_riskBundleValues valid (short_of_members stored inside)

/-! ### The bundle of one subnet -/

/-- A validator with some cap on commits. -/
def wireHandlers (maxCommits : ℕ) : SubmissionHandlers Json where
  schemaId := riskSchemaId
  maxCommits := maxCommits
  maxReveals := 10
  codec := defaultCodec fun _ => riskBundleHash
  isoformat := fun _ => "2026-01-05T00:00:00+00:00"

def riskAssembled : AssembledSubmission :=
  assembledSubmission (fun _ => riskBundleHash) (riskSchema.toCanonicalPayload riskBundle) "5Miner"
    riskNonce

def wireCommit : SubmitCommit :=
  ⟨riskBundle.roundId, riskBundle.schemaId, currentVersionKey, riskAssembled.bundleHash⟩

def wireReveal : SubmitReveal :=
  ⟨riskBundle.roundId, riskBundle.schemaId, currentVersionKey, riskAssembled.bundleJson,
    riskAssembled.nonceHex⟩

/-- The answer to the commit, and the store after it. -/
def wireCommitted (maxCommits : ℕ) : Verdict × Store :=
  ((wireHandlers maxCommits).handleCommit 5 wireCommit "5Miner").run StorageCall.serve openedStore

/-- The answer to the reveal, and the store after it. -/
def wireRevealed (maxCommits : ℕ) : Verdict × Store :=
  ((wireHandlers maxCommits).handleReveal 35 wireReveal "5Miner").run StorageCall.serve
    (wireCommitted maxCommits).2

theorem openedStore_reached (maxCommits : ℕ) : Reaches (wireHandlers maxCommits) openedStore [] :=
  .operate .start (.openRound _ _ _ _ _ _ (eq_ok_commit (by decide +kernel)))

theorem openedStore_waits : Waits ⟨"2026-01-05", riskSchemaId⟩ "5Miner"
    ⟨"2026-01-05", 0, 10, 20, 30, 40⟩ ⟨["3"], "members"⟩ none openedStore where
  consistent := (openedStore_reached 10).kept.1
  isOpen := by decide +kernel
  windowed := by decide +kernel
  frozen := by decide +kernel
  row := by decide +kernel

theorem room_none {maxCommits maxReveals : ℕ} (commits : 0 < maxCommits)
    (reveals : 0 < maxReveals) : Room maxCommits maxReveals none := by
  refine ⟨commits, reveals, ?_⟩
  intro submission found
  cases found

/-- The bundle gets through an idle validator. -/
theorem submission_gets_through_riskBundle :
    (wireCommitted 10).1.accepted = true ∧ (wireRevealed 10).1.accepted = true ∧
      ("5Miner", some riskAssembled.bundleJson) ∈
        (wireRevealed 10).2.scoringBundles ((wireHandlers 10).roundKey riskBundle.roundId) ∧
      ∃ values, riskBundleValues riskAssembled.bundleJson = some values ∧
        ∀ coordinate value, values.get? coordinate = some value ↔
          ∃ asset ∈ riskBundle.assets, ∃ item ∈ asset.outputs,
            riskCoordinate asset.netuid item.horizonSeconds item.output = coordinate ∧
              item.value = value := by
  have waits := openedStore_waits
  have room : Room 10 10 (openedStore.submissions.get?
      ((wireHandlers 10).roundKey riskBundle.roundId, "5Miner")) := by
    have absent : openedStore.submissions.get?
        ((wireHandlers 10).roundKey riskBundle.roundId, "5Miner") = none := waits.row
    rw [absent]
    exact room_none (by decide) (by decide)
  exact submission_gets_through (fun _ => by decide +kernel) rfl rfl (openedStore_reached 10)
    riskBundle_valid waits.isOpen waits.windowed waits.frozen riskUniverse_stored (by decide)
    riskBundle_inside room rfl (assembleBundle_eq_ok "5Miner" rfl) ⟨by decide, by decide⟩
    ⟨by decide, by decide⟩ (runs_run (fun _ => Relation.ReflTransGen.refl) _ openedStore)
    (runs_run (fun _ => Relation.ReflTransGen.refl) _ (wireCommitted 10).2)

end Endure.Protocol
