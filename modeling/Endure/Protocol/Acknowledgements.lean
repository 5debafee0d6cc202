import Endure.Protocol.Handlers

/-!
# A reveal acknowledgement is a promise

Each handler body runs without another handler in between, while the operator's
transactions, among them the one that closes the round, may commit between any two of
its storage calls. An acknowledged reveal is durable, frozen once its round closes,
and acknowledged again.
-/

namespace Endure.Protocol

open Library.Interference Library.Interference.Program Endure.Scoring Endure.Storage

/-! ### The operator's transactions -/

/-- A transaction the round engine commits: it opens a round, publishes one, or moves
one past the embargo. -/
inductive Operates (store : Store) : Store → Prop
  | openRound (windows : RoundWindows) (schemaId : String) (snapshot : Option UniverseSnapshot)
      (nowIso : String) (publicationAvailableAt : Option ℤ) (later : Store)
      (done : store.openRound windows schemaId snapshot nowIso publicationAvailableAt = .ok later) :
      Operates store later
  | publish (round : RoundKey)
      (consensusRows : List (Hotkey × Option String) → Option (List AssessmentConsensusRow))
      (nowIso : String) (bundles : List (Hotkey × Option String))
      (rows : List AssessmentConsensusRow) (later : Store)
      (done : store.publishAssessmentConsensusFromAcceptedBundlesAndReveal round consensusRows
        nowIso = .ok ((bundles, rows), later)) : Operates store later
  | setRoundState (round : RoundKey) (state : RoundState) (postOpen : state ≠ .open)
      (nowIso : String) (later : Store) (done : store.setRoundState round state nowIso = .ok later) :
      Operates store later

/-- Any number of the operator's transactions. -/
def Drifts : Store → Store → Prop := Relation.ReflTransGen Operates

variable {store later : Store}

theorem Operates.change (operates : Operates store later) (consistent : store.Consistent) :
    store.Change later := by
  cases operates with
  | openRound _ _ _ _ _ _ done => exact Store.openRound_change done
  | publish round _ _ _ _ _ done =>
    exact .advanced round later
      (Store.publish_advanced (fun isOpen => consistent.open_unfrozen isOpen) done).1
  | setRoundState round _ postOpen _ _ done =>
    exact .advanced round later (Store.setRoundState_advanced postOpen
      (fun isOpen => consistent.open_unfrozen isOpen) done).1

theorem Drifts.evolves (drifts : Drifts store later) (consistent : store.Consistent) :
    later.Consistent ∧ store.Evolves later := by
  induction drifts with
  | refl => exact ⟨consistent, .refl store⟩
  | tail _ operates ih =>
    have change := operates.change ih.1
    exact ⟨change.consistent ih.1, Store.Evolves.trans _ _ _ ih.2 change.evolves⟩

theorem StorageCall.serve_change {α : Type} (call : StorageCall α) (store : Store) :
    store.Change (call.serve store).2 := by
  cases call with
  | recordCommit round hotkey bundleHash nowIso maxCommits =>
    exact store.recordCommit_change round hotkey bundleHash nowIso maxCommits
  | recordRevealAttempt round hotkey maxReveals =>
    exact store.recordRevealAttempt_change round hotkey maxReveals
  | recordReveal round hotkey bundleJson nonceHex accepted rejectionCode nowIso =>
    exact store.recordReveal_change round hotkey bundleJson nonceHex accepted rejectionCode nowIso
  | _ => exact .unchanged

/-- Every execution of a handler keeps the store consistent and evolves it. -/
theorem runs_evolves {α : Type} {program : Program StorageCall α} {result : α}
    (runs : Runs StorageCall.serve Drifts program store result later)
    (consistent : store.Consistent) : later.Consistent ∧ store.Evolves later :=
  runs.relation Store.Evolves.trans (fun _ _ drifts held => drifts.evolves held)
    (fun _ call store held =>
      ⟨(call.serve_change store).consistent held, (call.serve_change store).evolves⟩) consistent

/-! ### Durable acceptance -/

/-- Exactly this bundle and nonce are the hotkey's accepted reveal of the round. -/
def Durable (round : RoundKey) (hotkey : Hotkey) (bundleJson nonceHex : String) (store : Store) :
    Prop :=
  ∃ row, store.submissions.get? (round, hotkey) = some row ∧ row.verdict = .accepted ∧
    row.bundleJson = some bundleJson ∧ row.nonceHex = some nonceHex

variable {round : RoundKey} {hotkey : Hotkey} {bundleJson nonceHex : String}

theorem Durable.of_evolves (durable : Durable round hotkey bundleJson nonceHex store)
    (evolves : store.Evolves later) : Durable round hotkey bundleJson nonceHex later := by
  obtain ⟨row, found, accepted, bundle, nonce⟩ := durable
  obtain ⟨row', found', same⟩ := evolves.terminal round hotkey row found accepted
  exact ⟨row', found', by rw [same, accepted], by rw [same, bundle], by rw [same, nonce]⟩

theorem Durable.acceptedBundle (durable : Durable round hotkey bundleJson nonceHex store) :
    store.acceptedBundle round hotkey = some bundleJson := by
  obtain ⟨row, found, accepted, bundle, -⟩ := durable
  simp [Store.acceptedBundle, found, accepted, bundle]

/-- What the accepted reveal reads is durable. -/
theorem durable_of_acceptedReveal
    (read : store.acceptedReveal round hotkey = some (bundleJson, nonceHex)) :
    Durable round hotkey bundleJson nonceHex store := by
  rw [Store.acceptedReveal] at read
  cases found : store.submissions.get? (round, hotkey) with
  | none => simp [found] at read
  | some row =>
    cases state : store.roundState round with
    | none => simp [found, state] at read
    | some _ =>
      simp only [found, state, Option.ite_none_right_eq_some] at read
      obtain ⟨⟨accepted, -⟩, read⟩ := read
      cases bundle : row.bundleJson with
      | none => simp [bundle] at read
      | some json =>
        cases nonce : row.nonceHex with
        | none => simp [bundle, nonce] at read
        | some hex =>
          simp only [bundle, nonce, Option.some.injEq, Prod.mk.injEq] at read
          exact ⟨row, found, accepted, by rw [bundle, read.1], by rw [nonce, read.2]⟩

/-- A durable reveal of an existing round is the accepted one, before and after close. -/
theorem Durable.acceptedReveal (durable : Durable round hotkey bundleJson nonceHex store)
    (consistent : store.Consistent) {windows : RoundWindows}
    (listed : store.roundWindows round = some windows) :
    store.acceptedReveal round hotkey = some (bundleJson, nonceHex) := by
  have frozen := fun closed => (consistent.frozen round hotkey closed).trans durable.acceptedBundle
  obtain ⟨row, found, accepted, bundle, nonce⟩ := durable
  cases state : store.roundState round with
  | none =>
    rw [Store.roundWindows_eq_none_iff.mpr state] at listed
    cases listed
  | some current =>
    have member : current = .open ∨ (store.snapshots.get? (round, hotkey)).any (fun snapshot =>
        row.bundleJson = some snapshot.bundleJson) = true := by
      by_cases isOpen : current = .open
      · exact .inl isOpen
      · obtain ⟨snapshot, held, same⟩ :=
          Option.map_eq_some_iff.mp (frozen ⟨current, state, isOpen⟩)
        exact .inr (by simp [held, bundle, same])
    rw [bundle] at member
    simp only [Store.acceptedReveal, found, state, accepted, bundle, nonce, true_and]
    rw [if_pos member]

/-- A recorded acceptance is durable. -/
theorem durable_of_recordReveal {rejectionCode : Option String} {nowIso : String}
    (recorded : (store.recordReveal round hotkey bundleJson nonceHex true rejectionCode
      nowIso).1 = true) :
    Durable round hotkey bundleJson nonceHex
      (store.recordReveal round hotkey bundleJson nonceHex true rejectionCode nowIso).2 := by
  simp only [Store.recordReveal, ↓reduceIte] at recorded ⊢
  split at recorded
  · cases recorded
  next isOpen =>
    rw [if_neg isOpen]
    cases found : store.submissions.get? (round, hotkey) with
    | none =>
      simp only
      exact ⟨_, by rw [Library.Dict.get?_set, if_pos rfl], rfl, rfl, rfl⟩
    | some row =>
      simp only [found] at recorded ⊢
      split at recorded
      · cases recorded
      next undecided =>
        rw [if_neg undecided]
        split at recorded
        · cases recorded
        next changed =>
          rw [if_neg changed]
          exact ⟨_, by rw [Library.Dict.get?_set, if_pos rfl], rfl, rfl, rfl⟩

/-! ### What a handler's acceptance establishes -/

section Handlers

variable {payload : Type} {handlers : SubmissionHandlers payload} {synapse : SubmitReveal}
  {committed : Option String} {now : ℤ} {windows : RoundWindows} {tickers : List String}

open SubmissionHandlers StorageCall

/-- Admission accepts only committed reveals in their window. -/
theorem admitReveal_ensures (store : Store) :
    (handlers.admitReveal synapse committed hotkey now windows tickers).Ensures
      StorageCall.serve Drifts
      (fun verdict _ => verdict.accepted = true →
        committed.isSome ∧ isOpenWindow windows now = true) store := by
  have validated : (handlers.validateRevealIn synapse committed hotkey now windows
      tickers).accepted = true → committed.isSome ∧ isOpenWindow windows now = true := by
    intro accepted
    obtain ⟨present, opened, closes⟩ := validateReveal_accepted accepted
    exact ⟨present, by simp [isOpenWindow, opened, closes]⟩
  rw [admitReveal]
  split
  · exact fun _ _ => validated
  next admitted =>
    obtain ⟨inside, present⟩ := not_or.mp admitted
    rw [not_not] at inside
    have both : committed.isSome ∧ isOpenWindow windows now = true :=
      ⟨Option.isSome_iff_ne_none.mpr present, inside⟩
    exact ensures_iff.mpr fun _ _ _ _ => both

/-- A verdict that is accepted after recording is durable, given that an accepted retry
already was and that admission accepts only what is recorded. -/
theorem recordVerdict_ensures {isOpen isAcceptedRetry : Bool} {verdict : Verdict}
    (retried : isAcceptedRetry = true →
      Durable (handlers.roundKey synapse.roundId) hotkey synapse.bundleJson synapse.nonceHex store)
    (admitted : verdict.accepted = true → isAcceptedRetry = false →
      committed.isSome ∧ isOpen = true) (consistent : store.Consistent) :
    (handlers.recordVerdict synapse committed hotkey now isOpen isAcceptedRetry verdict).Ensures
      StorageCall.serve Drifts
      (fun reply later => reply.accepted = true →
        Durable (handlers.roundKey synapse.roundId) hotkey synapse.bundleJson synapse.nonceHex
          later) store := by
  rw [recordVerdict]
  split
  next recording =>
    rw [ensures_request_bind]
    intro middle moved
    have consistent' := (serve_change (recordReveal (handlers.roundKey synapse.roundId) hotkey
      synapse.bundleJson synapse.nonceHex verdict.accepted
      (verdict.rejectionCode.map RejectionCode.value) (handlers.isoformat now)) middle).consistent
      (moved.evolves consistent).1
    split
    next unrecorded =>
      rw [ensures_request_bind]
      intro reread moved'
      obtain ⟨consistent'', -⟩ := moved'.evolves consistent'
      split
      · exact fun _ _ accepted => absurd accepted Bool.false_ne_true
      next read =>
        exact fun later moved'' _ => (durable_of_acceptedReveal (not_not.mp read)).of_evolves
          (moved''.evolves consistent'').2
    next written =>
      intro later moved' accepted
      have recorded := not_not.mp (not_and.mp written accepted)
      rw [accepted] at recorded moved' consistent'
      exact (durable_of_recordReveal recorded).of_evolves (moved'.evolves consistent').2
  next skipped =>
    intro later moved accepted
    -- Nothing was recorded, so the verdict is that of an accepted retry.
    cases isRetry : isAcceptedRetry with
    | true => exact (retried isRetry).of_evolves (moved.evolves consistent).2
    | false =>
      obtain ⟨present, isOpen'⟩ := admitted accepted isRetry
      refine absurd ⟨present, isOpen', by simp [isRetry], ?_⟩ skipped
      rw [verdict.coherent.mp accepted]
      exact fun no => nomatch no

/-- A decided acceptance is durable. -/
theorem decideReveal_ensures (consistent : store.Consistent) :
    (handlers.decideReveal now synapse hotkey windows tickers).Ensures StorageCall.serve Drifts
      (fun reply later => reply.accepted = true →
        Durable (handlers.roundKey synapse.roundId) hotkey synapse.bundleJson synapse.nonceHex
          later) store := by
  rw [decideReveal, ensures_request_bind]
  intro middle moved
  obtain ⟨consistent', -⟩ := moved.evolves consistent
  rw [ensures_request_bind]
  intro middle' moved'
  obtain ⟨consistent'', evolves'⟩ := moved'.evolves consistent'
  generalize retry : (isOpenWindow windows now && decide ((serve (acceptedReveal
    (handlers.roundKey synapse.roundId) hotkey) middle).1 =
      some (synapse.bundleJson, synapse.nonceHex))) = isAcceptedRetry
  refine Ensures.bind (fun _ => Relation.ReflTransGen.refl) ?_
  cases isAcceptedRetry with
  | true =>
    have read := of_decide_eq_true (Bool.and_eq_true_iff.mp retry).2
    have durable := (durable_of_acceptedReveal read).of_evolves evolves'
    intro reviewed (idle : Drifts _ reviewed)
    obtain ⟨held, evolves⟩ := idle.evolves consistent''
    exact recordVerdict_ensures (fun _ => durable.of_evolves evolves) (fun _ no => nomatch no) held
  | false =>
    refine ensures_iff.mpr fun verdict later runs => ?_
    exact recordVerdict_ensures (fun no => nomatch no)
      (fun accepted _ => runs.of_ensures (admitReveal_ensures middle') accepted)
      (runs_evolves runs consistent'').1

/-- What an acknowledgement rests on: a request that names a stored round and its
universe, and a durable reveal. -/
structure Kept (handlers : SubmissionHandlers payload) (synapse : SubmitReveal) (hotkey : Hotkey)
    (store : Store) : Prop where
  schema : synapse.schemaId = handlers.schemaId
  canonical : isCanonicalRoundId synapse.roundId = true
  early : earlyRejection synapse = none
  windows : ∃ windows, store.roundWindows (handlers.roundKey synapse.roundId) = some windows
  tickers : ∃ snapshot, store.universeFor (handlers.roundKey synapse.roundId) = some snapshot
  durable : Durable (handlers.roundKey synapse.roundId) hotkey synapse.bundleJson
    synapse.nonceHex store

theorem Kept.of_evolves (kept : Kept handlers synapse hotkey store)
    (evolves : store.Evolves later) : Kept handlers synapse hotkey later where
  schema := kept.schema
  canonical := kept.canonical
  early := kept.early
  windows := by
    obtain ⟨windows, found⟩ := kept.windows
    exact ⟨windows, evolves.windows _ _ found⟩
  tickers := by
    obtain ⟨snapshot, found⟩ := kept.tickers
    exact ⟨snapshot, evolves.universes _ _ found⟩
  durable := kept.durable.of_evolves evolves

/-- An accepted reveal is kept. -/
theorem handleReveal_ensures (consistent : store.Consistent) :
    (handlers.handleReveal now synapse hotkey).Ensures StorageCall.serve Drifts
      (fun reply later => reply.accepted = true → Kept handlers synapse hotkey later) store := by
  -- a refusal promises nothing
  have refused : ∀ (code : RejectionCode) (later : Store), (Verdict.reject code).accepted = true →
      Kept handlers synapse hotkey later := fun _ _ accepted => nomatch accepted
  rw [handleReveal]
  split
  · exact fun later _ => refused _ later
  next schema =>
  split
  · exact fun later _ => refused _ later
  next canonical =>
  cases early : earlyRejection synapse with
  | some code => exact fun later _ => refused _ later
  | none =>
    simp only
    rw [ensures_request_bind]
    intro middle moved
    obtain ⟨consistent', -⟩ := moved.evolves consistent
    cases listed : middle.roundWindows (handlers.roundKey synapse.roundId) with
    | none =>
      simp only [serve, listed]
      exact fun later _ => refused _ later
    | some windows =>
      simp only [serve, listed]
      rw [ensures_request_bind]
      intro middle' moved'
      obtain ⟨consistent'', evolves'⟩ := moved'.evolves consistent'
      cases stored : middle'.universeFor (handlers.roundKey synapse.roundId) with
      | none =>
        simp only [serve, stored]
        exact fun later _ => refused _ later
      | some snapshot =>
        simp only [serve, stored]
        refine ensures_iff.mpr fun reply later runs accepted => ?_
        have evolves := (runs_evolves runs consistent'').2
        -- what was read on the way still holds at the end
        exact {
          schema := not_not.mp schema
          canonical := not_not.mp canonical
          early
          windows := ⟨windows, evolves.windows _ _ (evolves'.windows _ _ listed)⟩
          tickers := ⟨snapshot, evolves.universes _ _ stored⟩
          durable := runs.of_ensures (decideReveal_ensures consistent'') accepted }

/-- A kept reveal is accepted again inside its window. -/
theorem handleReveal_retry (kept : Kept handlers synapse hotkey store)
    (consistent : store.Consistent)
    (listed : store.roundWindows (handlers.roundKey synapse.roundId) = some windows)
    (opened : windows.revealOpen ≤ now) (closes : now ≤ windows.revealClose) :
    (handlers.handleReveal now synapse hotkey).Ensures StorageCall.serve Drifts
      (fun reply _ => reply.accepted = true) store := by
  rw [handleReveal, if_neg (not_not.mpr kept.schema), if_neg (not_not.mpr kept.canonical)]
  simp only [kept.early]
  rw [ensures_request_bind]
  intro middle moved
  obtain ⟨consistent', evolves⟩ := moved.evolves consistent
  simp only [serve, evolves.windows _ _ listed]
  rw [ensures_request_bind]
  intro middle' moved'
  obtain ⟨consistent'', evolves'⟩ := moved'.evolves consistent'
  have kept' := (kept.of_evolves evolves).of_evolves evolves'
  obtain ⟨snapshot, stored⟩ := kept'.tickers
  simp only [serve, stored]
  rw [decideReveal, ensures_request_bind]
  intro read moved''
  obtain ⟨held, evolves''⟩ := moved''.evolves consistent''
  have accepted := (kept'.of_evolves evolves'').durable.acceptedReveal held
    (evolves''.windows _ _ (evolves'.windows _ _ (evolves.windows _ _ listed)))
  rw [ensures_request_bind]
  intro last _
  simp only [serve, accepted, isOpenWindow, opened, closes, decide_true, Bool.and_self]
  refine Ensures.bind (fun _ => Relation.ReflTransGen.refl) ?_
  intro reviewed _
  rw [recordVerdict, if_neg (by simp)]
  exact fun _ _ => rfl

/-! ### Every interleaving -/

/-- A reveal that was answered with an acceptance, and the hotkey that sent it. -/
structure Acknowledgement where
  synapse : SubmitReveal
  hotkey : Hotkey

/-- The stores and acknowledgements that the handlers and the operator reach from an
empty store, whatever the order of their calls. -/
inductive Reaches (handlers : SubmissionHandlers payload) :
    Store → List Acknowledgement → Prop
  | start : Reaches handlers .empty []
  | operate {store later : Store} {acknowledged : List Acknowledgement}
      (reached : Reaches handlers store acknowledged) (operates : Operates store later) :
      Reaches handlers later acknowledged
  | commit {store later : Store} {acknowledged : List Acknowledgement} (now : ℤ)
      (synapse : SubmitCommit) (hotkey : Hotkey) (reply : Verdict)
      (reached : Reaches handlers store acknowledged)
      (runs : Runs StorageCall.serve Drifts (handlers.handleCommit now synapse hotkey) store
        reply later) : Reaches handlers later acknowledged
  | reveal {store later : Store} {acknowledged : List Acknowledgement} (now : ℤ)
      (synapse : SubmitReveal) (hotkey : Hotkey) (reply : Verdict)
      (reached : Reaches handlers store acknowledged)
      (runs : Runs StorageCall.serve Drifts (handlers.handleReveal now synapse hotkey) store
        reply later) :
      Reaches handlers later
        (if reply.accepted then ⟨synapse, hotkey⟩ :: acknowledged else acknowledged)

variable {acknowledged : List Acknowledgement}

/-- Every acknowledgement stays kept. -/
theorem Reaches.kept (reached : Reaches handlers store acknowledged) :
    store.Consistent ∧ ∀ reply ∈ acknowledged, Kept handlers reply.synapse reply.hotkey store := by
  induction reached with
  | start => exact ⟨Store.consistent_empty, fun _ absent => nomatch absent⟩
  | operate _ operates ih =>
    have change := operates.change ih.1
    exact ⟨change.consistent ih.1, fun reply sent => (ih.2 reply sent).of_evolves change.evolves⟩
  | commit _ _ _ _ _ runs ih =>
    obtain ⟨consistent, evolves⟩ := runs_evolves runs ih.1
    exact ⟨consistent, fun reply sent => (ih.2 reply sent).of_evolves evolves⟩
  | reveal now synapse hotkey reply _ runs ih =>
    obtain ⟨consistent, evolves⟩ := runs_evolves runs ih.1
    refine ⟨consistent, fun sent member => ?_⟩
    split at member
    next accepted =>
      cases member with
      | head => exact runs.of_ensures (handleReveal_ensures ih.1) accepted
      | tail _ earlier => exact (ih.2 sent earlier).of_evolves evolves
    next => exact (ih.2 sent member).of_evolves evolves

/-- **A reveal acknowledgement is a promise.** Its bundle and nonce are the durable
accepted reveal, in the frozen set once the round is closed, and accepted again inside
the reveal window; outside the frozen set of a closed round there is no acceptance. -/
theorem acknowledgements_are_kept (reached : Reaches handlers store acknowledged) :
    (∀ sent ∈ acknowledged,
      let round := handlers.roundKey sent.synapse.roundId
      Durable round sent.hotkey sent.synapse.bundleJson sent.synapse.nonceHex store ∧
      (store.IsClosed round →
        (sent.hotkey, some sent.synapse.bundleJson) ∈ store.consensusBundles round) ∧
      ∃ windows, store.roundWindows round = some windows ∧
        ∀ now reply later, windows.revealOpen ≤ now → now ≤ windows.revealClose →
          Runs StorageCall.serve Drifts (handlers.handleReveal now sent.synapse sent.hotkey)
            store reply later → reply.accepted = true) ∧
    ∀ round hotkey, store.IsClosed round →
      (∀ bundle, (hotkey, bundle) ∉ store.consensusBundles round) →
        store.acceptedBundle round hotkey = none ∧ store.acceptedReveal round hotkey = none ∧
        ∀ sent ∈ acknowledged,
          ¬(handlers.roundKey sent.synapse.roundId = round ∧ sent.hotkey = hotkey) := by
  obtain ⟨consistent, kept⟩ := reached.kept
  -- the frozen list of a closed round holds what is accepted, and the promise is accepted
  have member : ∀ sent ∈ acknowledged,
      store.IsClosed (handlers.roundKey sent.synapse.roundId) →
      (sent.hotkey, some sent.synapse.bundleJson) ∈
        store.consensusBundles (handlers.roundKey sent.synapse.roundId) :=
    fun sent listed closed => Store.mem_consensusBundles.mpr ⟨_, rfl,
      (consistent.frozen _ _ closed).trans (kept sent listed).durable.acceptedBundle⟩
  refine ⟨fun sent listed => ?_, fun round hotkey closed absent => ?_⟩
  · obtain ⟨windows, found⟩ := (kept sent listed).windows
    exact ⟨(kept sent listed).durable, member sent listed, windows, found,
      fun now reply later opened closes runs =>
        runs.of_ensures (handleReveal_retry (kept sent listed) consistent found opened closes)⟩
  · have unaccepted : store.acceptedBundle round hotkey = none := by
      -- an acceptance would be in the frozen list
      by_contra accepted
      obtain ⟨json, found⟩ := Option.ne_none_iff_exists'.mp accepted
      exact absent (some json) (Store.mem_consensusBundles.mpr ⟨json, rfl,
        (consistent.frozen round hotkey closed).trans found⟩)
    refine ⟨unaccepted, ?_, fun sent listed same => ?_⟩
    · by_contra accepted
      obtain ⟨⟨json, nonce⟩, read⟩ := Option.ne_none_iff_exists'.mp accepted
      cases unaccepted.symm.trans (durable_of_acceptedReveal read).acceptedBundle
    · obtain ⟨rfl, rfl⟩ := same
      exact absent _ (member sent listed closed)

end Handlers

/-! A risk bundle is committed, revealed and frozen. -/

/-- One predicted output in canonical bytes. -/
def riskOutputJson (horizonSeconds : ℕ) (output unit : String) (value : ℕ) : String :=
  "\x7b\"confidence_bps\":5000,\"horizon_seconds\":" ++ toString horizonSeconds ++
    ",\"output\":\"" ++ output ++ "\",\"reason_codes\":[],\"unit\":\"" ++ unit ++
    "\",\"value\":" ++ toString value ++ "\x7d"

/-- A bundle for one subnet over both horizons, in canonical bytes. -/
def riskBundleJson : String :=
  let outputs (horizonSeconds : ℕ) := [
    riskOutputJson horizonSeconds "liquidity_depth" "rao" 1000,
    riskOutputJson horizonSeconds "max_drawdown" "bps" 500,
    riskOutputJson horizonSeconds "realized_volatility" "bps" 2000,
    riskOutputJson horizonSeconds "twap_price" "rao_per_alpha" 7]
  "\x7b\"assets\":[\x7b\"netuid\":3,\"outputs\":[" ++
    ",".intercalate (outputs 432000 ++ outputs 2592000) ++
    "]\x7d],\"round_id\":\"2026-01-05\",\"schema_id\":\"risk.v1.subnet_alpha\"\x7d"

/-- The digest of the bundle with the nonce and hotkey below. -/
def riskCommitHash : String :=
  "cff47338f683302e4a62f9cd8212e9270c9e04d227e4c225bbcfb5edd017e7de"

def riskReveal : SubmitReveal :=
  ⟨"2026-01-05", "risk.v1.subnet_alpha", 2044, riskBundleJson, "000102030405060708090a0b0c0d0e0f"⟩

/-- Validation on the one bundle above. -/
def riskHandlers : SubmissionHandlers Unit where
  schemaId := "risk.v1.subnet_alpha"
  maxCommits := 10
  maxReveals := 10
  codec := {
    registry := fun schemaId => if schemaId = "risk.v1.subnet_alpha" then some {
      modelValidate := fun _ => .ok (some ⟨"2026-01-05", "risk.v1.subnet_alpha", ()⟩)
      bundleMembershipValid := some fun _ tickers => tickers.contains "3" } else none
    loads := fun _ => some ()
    canonicalBundleBytes := fun _ => encode riskBundleJson
    blake2b := fun _ => riskCommitHash }
  isoformat := fun _ => "2026-01-05T00:00:00+00:00"

def riskRound : RoundKey := riskHandlers.roundKey "2026-01-05"

def riskCommit : SubmitCommit := ⟨"2026-01-05", "risk.v1.subnet_alpha", 2044, riskCommitHash⟩

/-- The store once the round is open. -/
def openedStore : Store :=
  Store.empty.commit (Store.empty.openRound ⟨"2026-01-05", 0, 10, 20, 30, 40⟩
    "risk.v1.subnet_alpha" (some ⟨["3"], "members"⟩) "2026-01-05T00:00:00+00:00" none)

/-- The answer to the commit, and the store after it. -/
def committedStore : Verdict × Store :=
  (riskHandlers.handleCommit 5 riskCommit "5Miner").run StorageCall.serve openedStore

/-- The answer to the reveal, and the store after it. -/
def revealedStore : Verdict × Store :=
  (riskHandlers.handleReveal 35 riskReveal "5Miner").run StorageCall.serve committedStore.2

/-- The store once the round is closed. -/
def closedStore : Store :=
  revealedStore.2.commit
    (revealedStore.2.setRoundState riskRound .revealed "2026-02-14T00:00:00+00:00")

theorem eq_ok_commit {outcome : Except StorageError Store} (succeeds : outcome.isOk = true) :
    outcome = .ok (store.commit outcome) := by
  cases outcome with
  | error raised => cases succeeds
  | ok later => rfl

theorem closedStore_reached :
    Reaches riskHandlers closedStore [⟨riskReveal, "5Miner"⟩] := by
  have accepted : revealedStore.1.accepted = true := by decide +kernel
  have opened : Reaches riskHandlers openedStore [] :=
    .operate .start (.openRound _ _ _ _ _ _ (eq_ok_commit (by decide +kernel)))
  have committed : Reaches riskHandlers committedStore.2 [] :=
    .commit 5 riskCommit "5Miner" _ opened (runs_run (fun _ => Relation.ReflTransGen.refl) _ _)
  have revealed : Reaches riskHandlers revealedStore.2
      (if revealedStore.1.accepted then [⟨riskReveal, "5Miner"⟩] else []) :=
    .reveal 35 riskReveal "5Miner" _ committed
      (runs_run (fun _ => Relation.ReflTransGen.refl) _ _)
  rw [if_pos accepted] at revealed
  exact .operate revealed
    (.setRoundState riskRound .revealed (by decide) _ _ (eq_ok_commit (by decide +kernel)))

theorem acknowledged_reveal_in_closedStore :
    ("5Miner", some riskBundleJson) ∈ closedStore.consensusBundles riskRound :=
  ((acknowledgements_are_kept closedStore_reached).1 ⟨riskReveal, "5Miner"⟩
    (List.mem_singleton_self _)).2.1 ⟨.revealed, by decide +kernel, by decide⟩

end Endure.Protocol
