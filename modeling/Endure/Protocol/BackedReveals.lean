import Endure.Protocol.SubmissionProgress

/-!
# Accepted reveals are backed by their commitments

In every store that the handlers and the operator reach, an accepted reveal opens the hash that the
same row was committed with, over the universe the round was frozen with. So a commit hash fixes
what is revealed: in one store, in its later states, and in the stores of two validators.
-/

namespace Endure.Protocol

open Library Library.Interference Library.Interference.Program Endure.Assessment Endure.Scoring
open Endure.Storage

section Backed

variable {payload : Type} {codec : Codec payload} {store later : Store} {round : RoundKey}
variable {hotkey : Hotkey}

/-- A row's reveal opens its commitment with a bundle over the round's universe. -/
structure Backing (codec : Codec payload) (store : Store) (round : RoundKey) (hotkey : Hotkey)
    (row : SubmissionRow) (bundleJson nonceHex committed : String) : Prop where
  bundle : row.bundleJson = some bundleJson
  nonce : row.nonceHex = some nonceHex
  commit : row.commitHash = some committed
  admitted : ∃ snapshot nonce bundle, store.universeFor round = some snapshot ∧
    Admitted codec round.roundId round.schemaId bundleJson nonceHex committed hotkey
      snapshot.tickers nonce bundle

/-- Every accepted row is backed. -/
def Backed (codec : Codec payload) (store : Store) : Prop :=
  ∀ round hotkey row, store.submissions.get? (round, hotkey) = some row → row.verdict = .accepted →
    ∃ bundleJson nonceHex committed, Backing codec store round hotkey row bundleJson nonceHex
      committed

theorem Backing.of_universes {row : SubmissionRow} {bundleJson nonceHex committed : String}
    (backing : Backing codec store round hotkey row bundleJson nonceHex committed)
    (kept : ∀ snapshot, store.universeFor round = some snapshot →
      later.universeFor round = some snapshot) :
    Backing codec later round hotkey row bundleJson nonceHex committed where
  bundle := backing.bundle
  nonce := backing.nonce
  commit := backing.commit
  admitted := by
    obtain ⟨snapshot, nonce, bundle, stored, admitted⟩ := backing.admitted
    exact ⟨snapshot, nonce, bundle, kept snapshot stored, admitted⟩

/-! ### What the transactions keep -/

theorem Drifts.submissions (drifts : Drifts store later) (consistent : store.Consistent) :
    later.submissions = store.submissions := by
  induction drifts with
  | refl => rfl
  | tail earlier operates ih =>
    have earlier' : Drifts store _ := earlier
    exact (operates.submissions (earlier'.evolves consistent).1).trans ih

/-- The operator keeps accepted rows backed. -/
theorem Backed.of_drifts (backed : Backed codec store) (drifts : Drifts store later)
    (consistent : store.Consistent) : Backed codec later := by
  have evolves := (drifts.evolves consistent).2
  intro round hotkey row found accepted
  rw [drifts.submissions consistent] at found
  obtain ⟨bundleJson, nonceHex, committed, backing⟩ := backed round hotkey row found accepted
  exact ⟨bundleJson, nonceHex, committed, backing.of_universes (evolves.universes round)⟩

/-- A write to one row keeps the others backed. -/
theorem Backed.set (backed : Backed codec store) {row : SubmissionRow}
    (rowBacked : row.verdict = .accepted → ∃ bundleJson nonceHex committed,
      Backing codec store round hotkey row bundleJson nonceHex committed) :
    Backed codec { store with submissions := store.submissions.set (round, hotkey) row } := by
  intro round' hotkey' row' found accepted
  rw [Dict.get?_set] at found
  split at found
  · next same =>
    cases same
    cases found
    obtain ⟨bundleJson, nonceHex, committed, backing⟩ := rowBacked accepted
    exact ⟨bundleJson, nonceHex, committed, backing.of_universes fun _ stored => stored⟩
  · obtain ⟨bundleJson, nonceHex, committed, backing⟩ := backed round' hotkey' row' found accepted
    exact ⟨bundleJson, nonceHex, committed, backing.of_universes fun _ stored => stored⟩

/-- A commit starts a row over or leaves it. -/
theorem Backed.recordCommit (backed : Backed codec store) (bundleHash nowIso : String)
    (maxCommits : Option ℕ) :
    Backed codec (store.recordCommit round hotkey bundleHash nowIso maxCommits).2 := by
  rw [Store.recordCommit]
  split
  · exact backed
  · split
    · split
      · exact backed.set fun accepted => by cases accepted
      · exact backed
    · exact backed.set fun accepted => by cases accepted

/-- An attempt keeps what the row holds. -/
theorem Backed.recordRevealAttempt (backed : Backed codec store) (maxReveals : Option ℕ) :
    Backed codec (store.recordRevealAttempt round hotkey maxReveals).2 := by
  rw [Store.recordRevealAttempt]
  split
  · next row found =>
    split
    · refine backed.set fun accepted => ?_
      obtain ⟨bundleJson, nonceHex, committed, backing⟩ := backed round hotkey row found accepted
      exact ⟨bundleJson, nonceHex, committed, backing.bundle, backing.nonce, backing.commit,
        backing.admitted⟩
    · exact backed
  · exact backed

theorem committedHash_recordRevealAttempt (maxReveals : Option ℕ) :
    (store.recordRevealAttempt round hotkey maxReveals).2.committedHash round hotkey =
      store.committedHash round hotkey := by
  rw [Store.recordRevealAttempt]
  split
  · next row found =>
    split
    · simp [Store.committedHash, Dict.get?_set, found]
    · rfl
  · rfl

/-- A reveal that is recorded as accepted has to open the row's commitment, unless the row has an
accepted reveal already. -/
theorem Backed.recordReveal (backed : Backed codec store) {bundleJson nonceHex : String}
    {accepted : Bool} {rejectionCode : Option String} {nowIso : String}
    (opens : accepted = true →
      (∃ row, store.submissions.get? (round, hotkey) = some row ∧ row.verdict = .accepted) ∨
      ∃ committed, store.committedHash round hotkey = some committed ∧
        ∃ snapshot nonce bundle, store.universeFor round = some snapshot ∧
          Admitted codec round.roundId round.schemaId bundleJson nonceHex committed hotkey
            snapshot.tickers nonce bundle) :
    Backed codec
      (store.recordReveal round hotkey bundleJson nonceHex accepted rejectionCode nowIso).2 := by
  simp only [Store.recordReveal]
  have taken : (if accepted = true then SubmissionVerdict.accepted else .rejected) = .accepted →
      accepted = true := by
    cases accepted <;> simp
  generalize (if accepted = true then SubmissionVerdict.accepted else .rejected) = verdict at taken ⊢
  split
  · exact backed
  cases found : store.submissions.get? (round, hotkey) with
  | none =>
    refine backed.set fun isAccepted => ?_
    -- a row that is not there has no commitment to open
    rcases opens (taken isAccepted) with ⟨row, present, -⟩ | ⟨committed, present, -⟩
    · cases found.symm.trans present
    · rw [Store.committedHash, found] at present
      cases present
  | some row =>
    simp only
    -- an accepted row is never written again
    by_cases decided : row.verdict = .accepted
    · rw [if_pos decided]
      exact backed
    rw [if_neg decided]
    split
    · exact backed
    · refine backed.set fun isAccepted => ?_
      rcases opens (taken isAccepted) with
        ⟨other, present, earlier⟩ | ⟨committed, present, admitted⟩
      · cases found.symm.trans present
        exact absurd earlier decided
      · rw [Store.committedHash, found] at present
        exact ⟨bundleJson, nonceHex, committed, rfl, rfl, present, admitted⟩

end Backed

/-! ### What the handlers keep -/

section Handlers

variable {payload : Type} {handlers : SubmissionHandlers payload} {store later : Store}
variable {hotkey : Hotkey} {now : ℤ} {synapse : SubmitReveal}

open SubmissionHandlers StorageCall

/-- The invariant of the stores that the handlers reach. -/
def Sound (handlers : SubmissionHandlers payload) (store : Store) : Prop :=
  store.Consistent ∧ Backed handlers.codec store

theorem Sound.of_drifts (sound : Sound handlers store) (drifts : Drifts store later) :
    Sound handlers later :=
  ⟨(drifts.evolves sound.1).1, sound.2.of_drifts drifts sound.1⟩

/-- Whether a call records the verdict of a reveal. -/
def isRecordReveal {α : Type} : StorageCall α → Bool
  | .recordReveal .. => true
  | _ => false

/-- Any other call keeps the invariant. -/
theorem Sound.serve {α : Type} (sound : Sound handlers store) (call : StorageCall α)
    (other : isRecordReveal call = false) : Sound handlers (call.serve store).2 := by
  refine ⟨(call.serve_change store).consistent sound.1, ?_⟩
  cases call with
  | recordCommit round hotkey bundleHash nowIso maxCommits =>
    exact sound.2.recordCommit bundleHash nowIso maxCommits
  | recordRevealAttempt round hotkey maxReveals => exact sound.2.recordRevealAttempt maxReveals
  | recordReveal round hotkey bundleJson nonceHex accepted rejectionCode nowIso => cases other
  | _ => exact sound.2

/-- A program that records no reveal keeps the invariant. -/
theorem Sound.ensures {α : Type} {program : Program StorageCall α} (sound : Sound handlers store)
    (calls : program.Calls fun call => isRecordReveal call = false) :
    program.Ensures StorageCall.serve Drifts (fun _ later => Sound handlers later) store :=
  ensures_of_calls (fun _ _ drifts held => held.of_drifts drifts)
    (fun _ call _ other held => held.serve call other) calls sound

/-- A commit records no reveal. -/
theorem calls_handleCommit (synapse : SubmitCommit) :
    (handlers.handleCommit now synapse hotkey).Calls fun call => isRecordReveal call = false := by
  rw [handleCommit]
  split
  · exact calls_pure
  split
  · exact calls_pure
  rw [calls_request_bind]
  refine ⟨rfl, fun reply => ?_⟩
  cases reply with
  | none => exact calls_pure
  | some windows =>
    simp only
    rw [calls_request_bind]
    refine ⟨rfl, fun count => Calls.bind ?_ fun isRetry => ?_⟩
    · rw [isIdempotentRetry]
      split
      · rw [calls_request_bind]
        exact ⟨rfl, fun _ => calls_pure⟩
      · exact calls_pure
    · split
      · exact calls_pure
      split
      · rw [recordAcceptedCommit, calls_request_bind]
        refine ⟨rfl, fun recorded => ?_⟩
        split
        · exact calls_pure
        · rw [calls_request_bind]
          exact ⟨rfl, fun _ => calls_pure⟩
      · exact calls_pure

/-- What holds while the handler decides a reveal: the commitment it read is still the row's, and
the round's universe is still the one it read. -/
structure Deciding (handlers : SubmissionHandlers payload) (synapse : SubmitReveal)
    (hotkey : Hotkey) (committed : Option String) (snapshot : UniverseSnapshot) (store : Store) :
    Prop where
  sound : Sound handlers store
  commit : store.committedHash (handlers.roundKey synapse.roundId) hotkey = committed
  frozen : store.universeFor (handlers.roundKey synapse.roundId) = some snapshot

/-- The row of a reveal has an accepted one. -/
def HasAccepted (handlers : SubmissionHandlers payload) (synapse : SubmitReveal) (hotkey : Hotkey)
    (store : Store) : Prop :=
  ∃ row, store.submissions.get? (handlers.roundKey synapse.roundId, hotkey) = some row ∧
    row.verdict = .accepted

/-- A reveal opens a commitment. -/
def OpensCommitment (handlers : SubmissionHandlers payload) (synapse : SubmitReveal)
    (hotkey : Hotkey) (committed : Option String) (snapshot : UniverseSnapshot) : Prop :=
  ∃ hash nonce bundle, committed = some hash ∧
    Admitted handlers.codec synapse.roundId handlers.schemaId synapse.bundleJson synapse.nonceHex
      hash hotkey snapshot.tickers nonce bundle

variable {committed : Option String} {snapshot : UniverseSnapshot} {isAcceptedRetry : Bool}
variable {verdict : Verdict} {windows : RoundWindows}

theorem Deciding.of_drifts (deciding : Deciding handlers synapse hotkey committed snapshot store)
    (drifts : Drifts store later) : Deciding handlers synapse hotkey committed snapshot later where
  sound := deciding.sound.of_drifts drifts
  commit := by
    rw [Store.committedHash, drifts.submissions deciding.sound.1]
    exact deciding.commit
  frozen := (drifts.evolves deciding.sound.1).2.universes _ _ deciding.frozen

theorem HasAccepted.of_drifts (accepted : HasAccepted handlers synapse hotkey store)
    (drifts : Drifts store later) (consistent : store.Consistent) :
    HasAccepted handlers synapse hotkey later := by
  rw [HasAccepted, drifts.submissions consistent]
  exact accepted

theorem Deciding.recordRevealAttempt
    (deciding : Deciding handlers synapse hotkey committed snapshot store)
    (maxReveals : Option ℕ) :
    Deciding handlers synapse hotkey committed snapshot
      (store.recordRevealAttempt (handlers.roundKey synapse.roundId) hotkey maxReveals).2 where
  sound := deciding.sound.serve
    (.recordRevealAttempt (handlers.roundKey synapse.roundId) hotkey maxReveals) rfl
  commit := (committedHash_recordRevealAttempt maxReveals).trans deciding.commit
  frozen := by
    have frozen := deciding.frozen
    grind [Store.recordRevealAttempt, Store.universeFor]

/-- Validation accepts only what opens the commitment. -/
theorem opensCommitment_of_validateRevealIn (schema : synapse.schemaId = handlers.schemaId)
    (accepted : (handlers.validateRevealIn synapse committed hotkey now windows
      snapshot.tickers).accepted = true) :
    OpensCommitment handlers synapse hotkey committed snapshot := by
  rw [validateRevealIn] at accepted
  obtain ⟨present, -⟩ := validateReveal_accepted accepted
  obtain ⟨hash, rfl⟩ := Option.isSome_iff_exists.mp present
  obtain ⟨-, -, nonce, bundle, admitted⟩ := validateReveal_accepted_iff.mp accepted
  exact ⟨hash, nonce, bundle, rfl, schema ▸ admitted⟩

/-- Admission accepts a reveal that opens the commitment or one that was accepted before. -/
theorem admitReveal_opens (schema : synapse.schemaId = handlers.schemaId)
    (deciding : Deciding handlers synapse hotkey committed snapshot store) :
    (handlers.admitReveal synapse committed hotkey now windows snapshot.tickers).Ensures
      StorageCall.serve Drifts
      (fun verdict later => Deciding handlers synapse hotkey committed snapshot later ∧
        (verdict.accepted = true → HasAccepted handlers synapse hotkey later ∨
          OpensCommitment handlers synapse hotkey committed snapshot)) store := by
  rw [admitReveal]
  split
  · intro later drifts
    exact ⟨deciding.of_drifts drifts,
      fun accepted => .inr (opensCommitment_of_validateRevealIn schema accepted)⟩
  rw [ensures_request_bind]
  intro middle drifts
  have charged := (deciding.of_drifts drifts).recordRevealAttempt (some handlers.maxReveals)
  split
  -- out of attempts: only a reveal that was accepted meanwhile is acknowledged
  · rw [ensures_request_bind]
    intro reread drifts'
    have atReread := charged.of_drifts drifts'
    split
    · next read =>
      intro later ends
      obtain ⟨row, found, accepted, -⟩ := durable_of_acceptedReveal read
      exact ⟨atReread.of_drifts ends,
        fun _ => .inl (HasAccepted.of_drifts ⟨row, found, accepted⟩ ends atReread.sound.1)⟩
    · rw [ensures_request_bind]
      intro last drifts'' later ends
      refine ⟨(atReread.of_drifts drifts'').of_drifts ends, fun accepted => ?_⟩
      cases accepted
  · intro later drifts'
    exact ⟨charged.of_drifts drifts',
      fun accepted => .inr (opensCommitment_of_validateRevealIn schema accepted)⟩

/-- The recording of a verdict that rests on the commitment keeps the invariant. -/
theorem recordVerdict_sound {isOpen : Bool}
    (deciding : Deciding handlers synapse hotkey committed snapshot store)
    (rests : verdict.accepted = true → isAcceptedRetry = false →
      HasAccepted handlers synapse hotkey store ∨
        OpensCommitment handlers synapse hotkey committed snapshot) :
    (handlers.recordVerdict synapse committed hotkey now isOpen isAcceptedRetry verdict).Ensures
      StorageCall.serve Drifts (fun _ later => Sound handlers later) store := by
  rw [recordVerdict]
  split
  · next recording =>
    rw [ensures_request_bind]
    intro middle drifts
    have before := deciding.of_drifts drifts
    have fresh : isAcceptedRetry = false := by simpa using recording.2.2.1
    have recorded : Sound handlers (middle.recordReveal (handlers.roundKey synapse.roundId) hotkey
        synapse.bundleJson synapse.nonceHex verdict.accepted
        (verdict.rejectionCode.map RejectionCode.value) (handlers.isoformat now)).2 := by
      refine ⟨(Store.recordReveal_change ..).consistent before.sound.1,
        before.sound.2.recordReveal fun accepted => ?_⟩
      -- whatever the operator did meanwhile, commitment and universe are those read before
      rcases rests accepted fresh with earlier | ⟨hash, nonce, bundle, rfl, admitted⟩
      · exact .inl (earlier.of_drifts drifts deciding.sound.1)
      · exact .inr ⟨hash, before.commit, snapshot, nonce, bundle, before.frozen, admitted⟩
    split
    · rw [ensures_request_bind]
      intro reread drifts'
      have atReread := recorded.of_drifts drifts'
      split
      · exact fun later ends => atReread.of_drifts ends
      · exact fun later ends => atReread.of_drifts ends
    · exact fun later ends => recorded.of_drifts ends
  · exact fun later ends => deciding.sound.of_drifts ends

/-- Deciding a reveal keeps the invariant. -/
theorem decideReveal_sound (schema : synapse.schemaId = handlers.schemaId)
    (sound : Sound handlers store)
    (frozen : store.universeFor (handlers.roundKey synapse.roundId) = some snapshot) :
    (handlers.decideReveal now synapse hotkey windows snapshot.tickers).Ensures StorageCall.serve
      Drifts (fun _ later => Sound handlers later) store := by
  rw [decideReveal, ensures_request_bind]
  intro middle drifts
  rw [ensures_request_bind]
  intro middle' drifts'
  have evolves := drifts.evolves sound.1
  have evolves' := drifts'.evolves evolves.1
  have deciding : Deciding handlers synapse hotkey
      (middle'.committedHash (handlers.roundKey synapse.roundId) hotkey) snapshot middle' :=
    ⟨(sound.of_drifts drifts).of_drifts drifts', rfl,
      evolves'.2.universes _ _ (evolves.2.universes _ _ frozen)⟩
  refine Ensures.bind (fun _ => Relation.ReflTransGen.refl) ?_
  rw [reviewReveal]
  split
  · next retry =>
    -- an accepted retry records nothing
    intro later idle
    exact recordVerdict_sound (deciding.of_drifts idle) fun _ fresh => by
      rw [retry] at fresh
      cases fresh
  · refine (admitReveal_opens schema deciding).mono fun verdict later held => ?_
    exact recordVerdict_sound held.1 fun accepted _ => held.2 accepted

/-- A reveal keeps the invariant. -/
theorem handleReveal_sound (sound : Sound handlers store) :
    (handlers.handleReveal now synapse hotkey).Ensures StorageCall.serve Drifts
      (fun _ later => Sound handlers later) store := by
  rw [handleReveal]
  split
  · exact fun later drifts => sound.of_drifts drifts
  next schema =>
  split
  · exact fun later drifts => sound.of_drifts drifts
  cases earlyRejection synapse with
  | some code => exact fun later drifts => sound.of_drifts drifts
  | none =>
    simp only
    rw [ensures_request_bind]
    intro middle drifts
    have atMiddle := sound.of_drifts drifts
    split
    · exact fun later ends => atMiddle.of_drifts ends
    · rw [ensures_request_bind]
      intro middle' drifts'
      have atMiddle' := atMiddle.of_drifts drifts'
      split
      · exact fun later ends => atMiddle'.of_drifts ends
      · next stored => exact decideReveal_sound (not_not.mp schema) atMiddle' stored

/-- Every store that the handlers and the operator reach is sound. -/
theorem Reaches.sound {acknowledged : List Acknowledgement}
    (reached : Reaches handlers store acknowledged) : Sound handlers store := by
  induction reached with
  | start =>
    refine ⟨Store.consistent_empty, ?_⟩
    intro round hotkey row found
    cases found
  | operate _ operates ih => exact ih.of_drifts (.single operates)
  | commit now synapse hotkey reply _ runs ih =>
    exact runs.of_ensures (ih.ensures (calls_handleCommit synapse))
  | reveal now synapse hotkey reply _ runs ih => exact runs.of_ensures (handleReveal_sound ih)

end Handlers

/-! ### One hash, one reveal -/

section Agreement

variable {blake2b : List UInt8 → String} {handlers handlers' : SubmissionHandlers Json}
variable {store store' : Store} {acknowledged acknowledged' : List Acknowledgement}
variable {round round' : RoundKey} {hotkey hotkey' : Hotkey} {row row' : SubmissionRow}

/-- Rows that are backed by one hash are of one round and hotkey and hold one reveal, or their
preimages collide. -/
theorem Backing.eq_or_collides {bundleJson nonceHex bundleJson' nonceHex' committed : String}
    (backing : Backing (defaultCodec blake2b) store round hotkey row bundleJson nonceHex committed)
    (backing' : Backing (defaultCodec blake2b) store' round' hotkey' row' bundleJson' nonceHex'
      committed)
    (lengths : (encode hotkey).length = (encode hotkey').length) :
    ∃ nonce nonce', fromHex nonceHex.toList = some nonce ∧ fromHex nonceHex'.toList = some nonce' ∧
      (round = round' ∧ hotkey = hotkey' ∧ bundleJson = bundleJson' ∧ nonce = nonce' ∨
        Collides blake2b (preimage bundleJson nonce hotkey)
          (preimage bundleJson' nonce' hotkey')) := by
  obtain ⟨snapshot, nonce, bundle, -, admitted⟩ := backing.admitted
  obtain ⟨snapshot', nonce', bundle', -, admitted'⟩ := backing'.admitted
  refine ⟨nonce, nonce', admitted.hex, admitted'.hex, ?_⟩
  rcases admitted.eq_or_collides canonicalRegistry_default admitted' lengths with
    ⟨⟨roundIds, schemaIds⟩, bundles, nonces, hotkeys⟩ | collides
  · refine .inl ⟨?_, hotkeys, bundles, nonces⟩
    cases round
    cases round'
    exact congrArg₂ RoundKey.mk roundIds schemaIds
  · exact .inr collides

/-- **Validators agree.** Let two validators, or one validator twice, have served any commits and
reveals in any order and interleaving. Where both hold an accepted reveal for one commit hash, from
hotkeys of one length, it is for the same round and hotkey, with the same bundle text and nonce,
unless the two preimages are a collision of the hash. -/
theorem validators_agree (codec : handlers.codec = defaultCodec blake2b)
    (codec' : handlers'.codec = defaultCodec blake2b)
    (reached : Reaches handlers store acknowledged)
    (reached' : Reaches handlers' store' acknowledged')
    (found : store.submissions.get? (round, hotkey) = some row) (accepted : row.verdict = .accepted)
    (found' : store'.submissions.get? (round', hotkey') = some row')
    (accepted' : row'.verdict = .accepted) (hashes : row.commitHash = row'.commitHash)
    (lengths : (encode hotkey).length = (encode hotkey').length) :
    ∃ bundleJson bundleJson' nonceHex nonceHex' nonce nonce', row.bundleJson = some bundleJson ∧
      row'.bundleJson = some bundleJson' ∧ row.nonceHex = some nonceHex ∧
      row'.nonceHex = some nonceHex' ∧ fromHex nonceHex.toList = some nonce ∧
      fromHex nonceHex'.toList = some nonce' ∧
      (round = round' ∧ hotkey = hotkey' ∧ bundleJson = bundleJson' ∧ nonce = nonce' ∨
        Collides blake2b (preimage bundleJson nonce hotkey)
          (preimage bundleJson' nonce' hotkey')) := by
  obtain ⟨bundleJson, nonceHex, committed, backing⟩ :=
    reached.sound.2 round hotkey row found accepted
  obtain ⟨bundleJson', nonceHex', committed', backing'⟩ :=
    reached'.sound.2 round' hotkey' row' found' accepted'
  rw [backing.commit, backing'.commit, Option.some.injEq] at hashes
  -- both rows are backed by openings of one hash
  subst hashes
  rw [codec] at backing
  rw [codec'] at backing'
  obtain ⟨nonce, nonce', hex, hex', agrees⟩ := backing.eq_or_collides backing' lengths
  exact ⟨bundleJson, bundleJson', nonceHex, nonceHex', nonce, nonce', backing.bundle,
    backing'.bundle, backing.nonce, backing'.nonce, hex, hex', agrees⟩

/-- The row that a validator with some cap on commits ends with. -/
theorem wireRevealed_row {maxCommits : ℕ} (commits : 0 < maxCommits) :
    ∃ row, Revealed wireReveal riskBundleHash row ∧
      Waits ⟨"2026-01-05", riskSchemaId⟩ "5Miner" ⟨"2026-01-05", 0, 10, 20, 30, 40⟩
        ⟨["3"], "members"⟩ (some row) (wireRevealed maxCommits).2 := by
  have refl : ∀ store, Meanwhile ((wireHandlers maxCommits).roundKey wireCommit.roundId) "5Miner"
      store store := fun _ => Relation.ReflTransGen.refl
  have waits : Waits ((wireHandlers maxCommits).roundKey wireCommit.roundId) "5Miner" _ _ _ _ :=
    openedStore_waits
  have known : ((wireHandlers maxCommits).codec.registry wireCommit.schemaId).isSome :=
    Option.isSome_iff_exists.mpr ⟨_, defaultRegistry_risk⟩
  have admitted : Admitted (wireHandlers maxCommits).codec wireReveal.roundId wireReveal.schemaId
      wireReveal.bundleJson wireReveal.nonceHex wireCommit.bundleHash "5Miner" ["3"] riskNonce _ :=
    admitted_of_valid defaultRegistry_risk bounded_riskSchema riskBundle_valid (by decide)
      riskUniverse_stored riskBundle_inside "5Miner" rfl
  have room : Room maxCommits (wireHandlers maxCommits).maxReveals none :=
    room_none commits (by simp [wireHandlers])
  have digest : isHexDigest wireCommit.bundleHash = true := by decide +kernel
  have progress := revealed_of_runs waits room ⟨rfl, rfl⟩ rfl ⟨rfl, rfl⟩ known digest
    (by decide : (0 : ℤ) ≤ 5 ∧ (5 : ℤ) ≤ 10) (by decide : (30 : ℤ) ≤ 35 ∧ (35 : ℤ) ≤ 40) admitted
    (runs_run refl _ openedStore) (runs_run refl _ (wireCommitted maxCommits).2)
  obtain ⟨-, -, revealed, held, waits⟩ := progress
  refine ⟨revealed, held, ?_⟩
  rw [← wireRevealed.eq_def] at waits
  exact waits

theorem wireRevealed_reached (maxCommits : ℕ) : ∃ acknowledged,
    Reaches (wireHandlers maxCommits) (wireRevealed maxCommits).2 acknowledged := by
  have refl : ∀ store, Drifts store store := fun _ => Relation.ReflTransGen.refl
  have committed : Reaches (wireHandlers maxCommits) (wireCommitted maxCommits).2 [] :=
    .commit 5 wireCommit "5Miner" _ (openedStore_reached maxCommits) (runs_run refl _ _)
  exact ⟨_, .reveal 35 wireReveal "5Miner" _ committed (runs_run refl _ _)⟩

/-- Two validators with different caps hold one reveal. -/
theorem validators_agree_riskText :
    ∃ bundleJson bundleJson' nonce nonce' : _, ∃ row row' : SubmissionRow,
      (wireRevealed 10).2.submissions.get? (⟨"2026-01-05", riskSchemaId⟩, "5Miner") = some row ∧
      (wireRevealed 3).2.submissions.get? (⟨"2026-01-05", riskSchemaId⟩, "5Miner") = some row' ∧
      row.bundleJson = some bundleJson ∧ row'.bundleJson = some bundleJson' ∧
      (bundleJson = bundleJson' ∧ nonce = nonce' ∨
        Collides (fun _ => riskBundleHash) (preimage bundleJson nonce "5Miner")
          (preimage bundleJson' nonce' "5Miner")) := by
  obtain ⟨acknowledged, reached⟩ := wireRevealed_reached 10
  obtain ⟨acknowledged', reached'⟩ := wireRevealed_reached 3
  obtain ⟨row, held, waits⟩ := wireRevealed_row (by decide : 0 < 10)
  obtain ⟨row', held', waits'⟩ := wireRevealed_row (by decide : 0 < 3)
  obtain ⟨bundleJson, bundleJson', -, -, nonce, nonce', bundle, bundle', -, -, -, -, agrees⟩ :=
    validators_agree rfl rfl reached reached' waits.row held.accepted waits'.row held'.accepted
      (held.hash.trans held'.hash.symm) rfl
  refine ⟨bundleJson, bundleJson', nonce, nonce', row, row', waits.row, waits'.row, bundle, bundle',
    ?_⟩
  exact agrees.imp (fun same => same.2.2) id

end Agreement

end Endure.Protocol
