import Endure.Library.Checked
import Endure.Storage.RoundRuns

/-!
# A store without what one round holds

The store as one sees it who is shown neither a round's submissions, frozen bundles and consensus
nor how far the round has got. No transaction carries anything of it over to the rest.
-/

namespace Endure.Storage

open Library Endure.Scoring

/-! ### Rows of other rounds -/

section Without

variable {κ ν : Type} [DecidableEq κ] {secret other : RoundKey}

/-- The rows of a table that are not about a round. -/
def hide (secret : RoundKey) (table : Dict (RoundKey × κ) ν) : Dict (RoundKey × κ) ν :=
  table.filter fun key _ => key.1 ≠ secret

omit [DecidableEq κ] in
theorem hide_hide (table : Dict (RoundKey × κ) ν) :
    hide secret (hide secret table) = hide secret table :=
  (Dict.filter_filter _ _ _).trans (Dict.filter_congr fun _ _ => Bool.and_self _)

theorem get?_hide (elsewhere : other ≠ secret) (table : Dict (RoundKey × κ) ν) (key : κ) :
    (hide secret table).get? (other, key) = table.get? (other, key) :=
  Dict.get?_eq_of_filter_eq (hide_hide table) fun _ => decide_eq_true elsewhere

theorem hide_set_secret (table : Dict (RoundKey × κ) ν) (key : κ) (value : ν) :
    hide secret (table.set (secret, key) value) = hide secret table :=
  table.filter_set_of_neg (p := fun key => key.1 ≠ secret) value (decide_eq_false fun apart =>
    apart rfl)

theorem hide_set (elsewhere : other ≠ secret) (table : Dict (RoundKey × κ) ν) (key : κ)
    (value : ν) : hide secret (table.set (other, key) value) =
      (hide secret table).set (other, key) value :=
  table.filter_set_of_pos (p := fun key => key.1 ≠ secret) value (decide_eq_true elsewhere)

omit [DecidableEq κ] in
/-- A test that passes rows of other rounds only. -/
theorem filter_hide (table : Dict (RoundKey × κ) ν) {test : RoundKey × κ → ν → Bool}
    (outside : ∀ key row, key.1 = secret → test key row = false) :
    (hide secret table).filter test = table.filter test :=
  Dict.filter_eq_of_filter_eq (hide_hide table) fun key row accepted =>
    decide_eq_true fun own => Bool.false_ne_true ((outside key row own).symm.trans accepted)

omit [DecidableEq κ] in
/-- A selection of rows of other rounds. -/
theorem select_hide {α β : Type} [LinearOrder α] (table : Dict (RoundKey × κ) ν)
    {pick : RoundKey × κ → ν → Option (α × β)}
    (outside : ∀ key row, key.1 = secret → pick key row = none) :
    (hide secret table).select pick = table.select pick :=
  Dict.select_eq_of_filter_eq (hide_hide table) fun key row own =>
    outside key row (not_not.mp (of_decide_eq_false own))

end Without

namespace Store

/-- A round's row as when it was opened. -/
def concealRow (secret key : RoundKey) (row : RoundRow) : RoundRow :=
  if key = secret then { row with state := .open, updatedAt := row.createdAt } else row

/-- The store without a round's submissions, bundles and consensus, and with its row as when it was
opened. -/
def conceal (store : Store) (secret : RoundKey) : Store where
  rounds := store.rounds.map (concealRow secret)
  universes := store.universes
  submissions := hide secret store.submissions
  snapshots := hide secret store.snapshots
  consensus := hide secret store.consensus

variable {store later : Store} {secret other : RoundKey}

theorem ext_tables {first second : Store} (rounds : first.rounds = second.rounds)
    (universes : first.universes = second.universes)
    (submissions : first.submissions = second.submissions)
    (snapshots : first.snapshots = second.snapshots)
    (consensus : first.consensus = second.consensus) : first = second := by
  obtain ⟨_, _, _, _, _⟩ := first
  cases rounds
  cases universes
  cases submissions
  cases snapshots
  cases consensus
  rfl

theorem concealRow_of_ne (elsewhere : other ≠ secret) (row : RoundRow) :
    concealRow secret other row = row := if_neg elsewhere

theorem concealRow_concealRow (secret key : RoundKey) (row : RoundRow) :
    concealRow secret key (concealRow secret key row) = concealRow secret key row := by
  by_cases own : key = secret <;> simp [concealRow, own]

theorem conceal_conceal (store : Store) (secret : RoundKey) :
    (store.conceal secret).conceal secret = store.conceal secret :=
  ext_tables ((store.rounds.map_map _ _).trans
    (Dict.map_congr fun _ _ => concealRow_concealRow secret _ _)) rfl
    (hide_hide _) (hide_hide _) (hide_hide _)

/-! ### What is still read -/

theorem get?_rounds_conceal (elsewhere : other ≠ secret) :
    (store.conceal secret).rounds.get? other = store.rounds.get? other := by
  rw [conceal, Dict.get?_map]
  cases store.rounds.get? other with
  | none => rfl
  | some row => exact congrArg some (concealRow_of_ne elsewhere row)

theorem isSome_rounds_conceal (store : Store) (secret round : RoundKey) :
    ((store.conceal secret).rounds.get? round).isSome = (store.rounds.get? round).isSome := by
  rw [conceal, Dict.get?_map, Option.isSome_map]

theorem roundState_conceal (elsewhere : other ≠ secret) :
    (store.conceal secret).roundState other = store.roundState other := by
  rw [roundState, get?_rounds_conceal elsewhere, roundState]

theorem get?_submissions_conceal (elsewhere : other ≠ secret) (hotkey : Hotkey) :
    (store.conceal secret).submissions.get? (other, hotkey) =
      store.submissions.get? (other, hotkey) :=
  get?_hide elsewhere store.submissions hotkey

theorem acceptedBundles_conceal (elsewhere : other ≠ secret) :
    (store.conceal secret).acceptedBundles other = store.acceptedBundles other := by
  refine select_hide store.submissions fun key row own => ?_
  rw [acceptedPair, if_neg]
  rintro ⟨rfl, -⟩
  exact elsewhere own

theorem consensusBundles_conceal (elsewhere : other ≠ secret) :
    (store.conceal secret).consensusBundles other = store.consensusBundles other := by
  refine select_hide store.snapshots fun key row own => ?_
  rw [snapshotPair, if_neg]
  rintro rfl
  exact elsewhere own

theorem scoringBundles_conceal (elsewhere : other ≠ secret) :
    (store.conceal secret).scoringBundles other = store.scoringBundles other := by
  unfold scoringBundles
  rw [roundState_conceal elsewhere, consensusBundles_conceal elsewhere,
    acceptedBundles_conceal elsewhere]

theorem consensusRows_conceal (elsewhere : other ≠ secret) :
    (store.conceal secret).consensusRows other = store.consensusRows other := by
  refine congrArg Dict.values (filter_hide store.consensus fun key row own => ?_)
  rw [decide_eq_false_iff_not]
  rintro rfl
  exact elsewhere own

/-- The hotkeys that are eligible for an earlier round. -/
theorem eligible_conceal {schemaId roundId : String} (earlier : roundId < secret.roundId) :
    (store.conceal secret).assessmentHotkeysEligibleForRound schemaId roundId =
      store.assessmentHotkeysEligibleForRound schemaId roundId := by
  refine congrArg (fun table : Dict (RoundKey × Hotkey) SubmissionRow =>
    (table.keys.map Prod.snd).dedup) (filter_hide store.submissions fun key row own => ?_)
  rw [decide_eq_false_iff_not]
  rintro ⟨-, -, late⟩
  rw [own] at late
  exact absurd earlier (not_lt.mpr late)

/-! ### Transactions -/

/-- An operation carries nothing of a round over to the rest. -/
def Blind (secret : RoundKey) (operation : Store → Store) : Prop :=
  ∀ store, (operation store).conceal secret = (operation (store.conceal secret)).conceal secret

/-- What changes the concealed part only is blind. -/
theorem blind_of_concealed {operation : Store → Store}
    (concealed : ∀ store, (operation store).conceal secret = store.conceal secret) :
    Blind secret operation := by
  intro store
  rw [concealed, concealed, conceal_conceal]

/-- What commutes with concealing is blind. -/
theorem blind_of_commutes {operation : Store → Store}
    (commutes : ∀ store, (operation store).conceal secret = operation (store.conceal secret)) :
    Blind secret operation := by
  intro store
  rw [commutes, commutes (store.conceal secret), conceal_conceal]

theorem conceal_setSubmission_secret (store : Store) (secret : RoundKey) (hotkey : Hotkey)
    (row : SubmissionRow) :
    conceal { store with submissions := store.submissions.set (secret, hotkey) row } secret =
      store.conceal secret :=
  ext_tables rfl rfl (hide_set_secret store.submissions hotkey row) rfl rfl

theorem conceal_setSubmission (elsewhere : other ≠ secret) (store : Store) (hotkey : Hotkey)
    (row : SubmissionRow) :
    conceal { store with submissions := store.submissions.set (other, hotkey) row } secret =
      { store.conceal secret with
        submissions := (store.conceal secret).submissions.set (other, hotkey) row } :=
  ext_tables rfl rfl (hide_set elsewhere store.submissions hotkey row) rfl rfl

theorem conceal_recordCommit_secret (store : Store) (hotkey : Hotkey) (bundleHash nowIso : String)
    (maxCommits : Option ℕ) :
    (store.recordCommit secret hotkey bundleHash nowIso maxCommits).2.conceal secret =
      store.conceal secret := by
  unfold recordCommit
  repeat' split
  all_goals first | rfl | exact conceal_setSubmission_secret _ _ _ _

theorem conceal_recordCommit (elsewhere : other ≠ secret) (store : Store) (hotkey : Hotkey)
    (bundleHash nowIso : String) (maxCommits : Option ℕ) :
    (store.recordCommit other hotkey bundleHash nowIso maxCommits).2.conceal secret =
      ((store.conceal secret).recordCommit other hotkey bundleHash nowIso maxCommits).2 := by
  unfold recordCommit
  rw [roundState_conceal elsewhere, get?_submissions_conceal elsewhere]
  repeat' split
  all_goals first | rfl | exact conceal_setSubmission elsewhere _ _ _

theorem conceal_recordRevealAttempt_secret (store : Store) (hotkey : Hotkey)
    (maxReveals : Option ℕ) :
    (store.recordRevealAttempt secret hotkey maxReveals).2.conceal secret =
      store.conceal secret := by
  unfold recordRevealAttempt
  repeat' split
  all_goals first | rfl | exact conceal_setSubmission_secret _ _ _ _

theorem conceal_recordRevealAttempt (elsewhere : other ≠ secret) (store : Store) (hotkey : Hotkey)
    (maxReveals : Option ℕ) :
    (store.recordRevealAttempt other hotkey maxReveals).2.conceal secret =
      ((store.conceal secret).recordRevealAttempt other hotkey maxReveals).2 := by
  unfold recordRevealAttempt
  rw [roundState_conceal elsewhere, get?_submissions_conceal elsewhere]
  repeat' split
  all_goals first | rfl | exact conceal_setSubmission elsewhere _ _ _

theorem conceal_recordReveal_secret (store : Store) (hotkey : Hotkey)
    (bundleJson nonceHex : String) (accepted : Bool) (rejectionCode : Option String)
    (nowIso : String) :
    (store.recordReveal secret hotkey bundleJson nonceHex accepted rejectionCode
      nowIso).2.conceal secret = store.conceal secret := by
  unfold recordReveal
  simp only
  repeat' split
  all_goals first | rfl | exact conceal_setSubmission_secret _ _ _ _

theorem conceal_recordReveal (elsewhere : other ≠ secret) (store : Store) (hotkey : Hotkey)
    (bundleJson nonceHex : String) (accepted : Bool) (rejectionCode : Option String)
    (nowIso : String) :
    (store.recordReveal other hotkey bundleJson nonceHex accepted rejectionCode
      nowIso).2.conceal secret =
      ((store.conceal secret).recordReveal other hotkey bundleJson nonceHex accepted rejectionCode
        nowIso).2 := by
  unfold recordReveal
  simp only
  rw [roundState_conceal elsewhere, get?_submissions_conceal elsewhere]
  repeat' split
  all_goals first | rfl | exact conceal_setSubmission elsewhere _ _ _

/-- Opening a round; whether it is there already is not concealed. -/
theorem blind_openRound (secret : RoundKey) (windows : RoundWindows) (schemaId : String)
    (snapshot : Option UniverseSnapshot) (nowIso : String) (publicationAvailableAt : Option ℤ) :
    Blind secret fun store => store.commit
      (store.openRound windows schemaId snapshot nowIso publicationAvailableAt) := by
  intro store
  have again := conceal_conceal store secret
  -- the row of the secret round is concealed again after it is written
  have written (row : RoundRow) : (store.rounds.set ⟨windows.roundId, schemaId⟩ row).map
      (concealRow secret) = ((store.conceal secret).rounds.set ⟨windows.roundId, schemaId⟩ row).map
        (concealRow secret) := by
    rw [Dict.map_set, Dict.map_set]
    exact congrArg (fun rounds : Dict RoundKey RoundRow => rounds.set _ _)
      (congrArg Store.rounds again).symm
  have submissions := (congrArg Store.submissions again).symm
  have snapshots := (congrArg Store.snapshots again).symm
  have consensus := (congrArg Store.consensus again).symm
  simp only [openRound]
  rw [isSome_rounds_conceal]
  split
  · exact again.symm
  split
  · exact again.symm
  split
  · exact ext_tables (written _) rfl submissions snapshots consensus
  · have universes : (store.conceal secret).universes = store.universes := rfl
    rw [universes]
    split
    · exact again.symm
    · exact ext_tables (written _) rfl submissions snapshots consensus

/-! Freezing a round's bundles -/

theorem conceal_insertSnapshot_secret {nowIso : String} {bundle : Hotkey × Option String}
    (done : insertSnapshot secret nowIso store bundle = .ok later) :
    later.conceal secret = store.conceal secret := by
  unfold insertSnapshot at done
  split at done
  · cases done
  · split at done
    · cases done
      rfl
    · cases done
      exact ext_tables rfl rfl rfl (hide_set_secret store.snapshots _ _) rfl

theorem conceal_insertSnapshot (elsewhere : other ≠ secret) (store : Store) (nowIso : String)
    (bundle : Hotkey × Option String) :
    (insertSnapshot other nowIso store bundle).map (conceal · secret) =
      insertSnapshot other nowIso (store.conceal secret) bundle := by
  unfold insertSnapshot
  split
  · rfl
  · rw [show (store.conceal secret).snapshots.get? (other, bundle.1) =
      store.snapshots.get? (other, bundle.1) from get?_hide elsewhere _ _]
    split
    · rfl
    · exact congrArg Except.ok (ext_tables rfl rfl rfl (hide_set elsewhere store.snapshots _ _)
        rfl)

theorem conceal_insertConsensus_secret {row : AssessmentConsensusRow}
    (done : insertConsensus secret store row = .ok later) :
    later.conceal secret = store.conceal secret := by
  unfold insertConsensus at done
  split at done
  · cases done
  · cases done
    exact ext_tables rfl rfl rfl rfl (hide_set_secret store.consensus _ _)

theorem conceal_insertConsensus (elsewhere : other ≠ secret) (store : Store)
    (row : AssessmentConsensusRow) :
    (insertConsensus other store row).map (conceal · secret) =
      insertConsensus other (store.conceal secret) row := by
  unfold insertConsensus
  rw [get?_rounds_conceal elsewhere, show (store.conceal secret).consensus.get?
    (other, row.coordinate) = store.consensus.get? (other, row.coordinate) from
      get?_hide elsewhere _ _]
  split
  · rfl
  · exact congrArg Except.ok (ext_tables rfl rfl rfl rfl
      (hide_set elsewhere store.consensus _ _))

/-- A fold of inserts leaves what each of them leaves. -/
theorem conceal_foldlM_secret {ι : Type} {insert : Store → ι → Except StorageError Store}
    (step : ∀ {store later : Store} {item : ι}, insert store item = .ok later →
      later.conceal secret = store.conceal secret) {items : List ι}
    (done : items.foldlM insert store = .ok later) :
    later.conceal secret = store.conceal secret := by
  induction items generalizing store with
  | nil =>
    cases done
    rfl
  | cons item rest ih =>
    obtain ⟨middle, inserted, remaining⟩ := Library.Checked.bind_eq_ok.mp done
    exact (ih remaining).trans (step inserted)

/-- A fold of inserts commutes with what each of them commutes with. -/
theorem conceal_foldlM {ι : Type} {insert : Store → ι → Except StorageError Store}
    (step : ∀ store item, (insert store item).map (conceal · secret) =
      insert (store.conceal secret) item) (items : List ι) (store : Store) :
    (items.foldlM insert store).map (conceal · secret) =
      items.foldlM insert (store.conceal secret) := by
  induction items generalizing store with
  | nil => rfl
  | cons item rest ih =>
    rw [List.foldlM_cons, List.foldlM_cons, ← step store item]
    cases insert store item with
    | error raised => rfl
    | ok middle => exact ih middle

theorem conceal_snapshotIfOpen_secret {nowIso : String} {bundles : List (Hotkey × Option String)}
    (done : store.snapshotConsensusBundlesIfOpen secret nowIso = .ok (bundles, later)) :
    later.conceal secret = store.conceal secret := by
  rw [snapshotConsensusBundlesIfOpen] at done
  split at done
  · cases done
    rfl
  · simp only at done
    split at done
    · cases done
      rfl
    · split at done
      · cases done
      next frozen inserted =>
        cases done
        exact conceal_foldlM_secret conceal_insertSnapshot_secret inserted

theorem conceal_snapshotIfOpen (elsewhere : other ≠ secret) (store : Store) (nowIso : String) :
    (store.snapshotConsensusBundlesIfOpen other nowIso).map
        (fun outcome => (outcome.1, outcome.2.conceal secret)) =
      (store.conceal secret).snapshotConsensusBundlesIfOpen other nowIso := by
  rw [snapshotConsensusBundlesIfOpen, snapshotConsensusBundlesIfOpen, roundState_conceal elsewhere,
    consensusBundles_conceal elsewhere, acceptedBundles_conceal elsewhere,
    ← conceal_foldlM (conceal_insertSnapshot elsewhere · nowIso)]
  split
  · rfl
  · simp only
    split
    · rfl
    · cases (store.acceptedBundles other).foldlM (insertSnapshot other nowIso) store with
      | error raised => rfl
      | ok frozen =>
        exact congrArg (fun bundles => Except.ok (bundles, frozen.conceal secret))
          (consensusBundles_conceal elsewhere).symm

theorem conceal_updateState_secret (store : Store) (state : RoundState) (nowIso : String) :
    (store.updateState secret state nowIso).conceal secret = store.conceal secret := by
  refine ext_tables ((store.rounds.map_map _ _).trans (Dict.map_congr fun entry _ => ?_))
    rfl rfl rfl rfl
  by_cases own : entry.1 = secret <;> simp [concealRow, own]

theorem conceal_updateState (elsewhere : other ≠ secret) (store : Store) (state : RoundState)
    (nowIso : String) :
    (store.updateState other state nowIso).conceal secret =
      (store.conceal secret).updateState other state nowIso := by
  refine ext_tables ?_ rfl rfl rfl rfl
  unfold updateState conceal
  simp only
  rw [Dict.map_map, Dict.map_map]
  refine Dict.map_congr fun entry _ => ?_
  by_cases own : entry.1 = secret
  · have apart : entry.1 ≠ other := fun same => elsewhere (same.symm.trans own)
    simp [apart]
  · simp [concealRow, own]

theorem conceal_setRoundState_secret {state : RoundState} {nowIso : String}
    (done : store.setRoundState secret state nowIso = .ok later) :
    later.conceal secret = store.conceal secret := by
  rw [setRoundState] at done
  split at done
  · cases done
    exact conceal_updateState_secret store state nowIso
  · split at done
    · cases done
    next bundles frozen taken =>
      cases done
      exact (conceal_updateState_secret frozen state nowIso).trans
        (conceal_snapshotIfOpen_secret taken)

theorem conceal_setRoundState (elsewhere : other ≠ secret) (store : Store) (state : RoundState)
    (nowIso : String) :
    (store.setRoundState other state nowIso).map (conceal · secret) =
      (store.conceal secret).setRoundState other state nowIso := by
  rw [setRoundState, setRoundState, ← conceal_snapshotIfOpen elsewhere]
  split
  · exact congrArg Except.ok (conceal_updateState elsewhere store state nowIso)
  · cases store.snapshotConsensusBundlesIfOpen other nowIso with
    | error raised => rfl
    | ok taken => exact congrArg Except.ok (conceal_updateState elsewhere taken.2 state nowIso)

theorem conceal_insertIfAbsent_secret {rows : List AssessmentConsensusRow}
    (done : store.insertAssessmentConsensusIfAbsent secret rows = .ok later) :
    later.conceal secret = store.conceal secret := by
  rw [insertAssessmentConsensusIfAbsent] at done
  split at done
  · cases done
    rfl
  · exact conceal_foldlM_secret conceal_insertConsensus_secret done

theorem conceal_insertIfAbsent (elsewhere : other ≠ secret) (store : Store)
    (rows : List AssessmentConsensusRow) :
    (store.insertAssessmentConsensusIfAbsent other rows).map (conceal · secret) =
      (store.conceal secret).insertAssessmentConsensusIfAbsent other rows := by
  rw [insertAssessmentConsensusIfAbsent, insertAssessmentConsensusIfAbsent,
    consensusRows_conceal elsewhere]
  split
  · rfl
  · exact conceal_foldlM (conceal_insertConsensus elsewhere) rows store

theorem conceal_flipRoundRevealed_secret (store : Store) (nowIso : String) :
    (store.flipRoundRevealed secret nowIso).conceal secret = store.conceal secret := by
  rw [flipRoundRevealed]
  split
  · exact conceal_updateState_secret store .revealed nowIso
  · rfl

theorem conceal_flipRoundRevealed (elsewhere : other ≠ secret) (store : Store) (nowIso : String) :
    (store.flipRoundRevealed other nowIso).conceal secret =
      (store.conceal secret).flipRoundRevealed other nowIso := by
  rw [flipRoundRevealed, flipRoundRevealed, roundState_conceal elsewhere]
  split
  · exact conceal_updateState elsewhere store .revealed nowIso
  · rfl

theorem conceal_publish_secret
    {callback : List (Hotkey × Option String) → Option (List AssessmentConsensusRow)}
    {nowIso : String} {outcome : List (Hotkey × Option String) × List AssessmentConsensusRow}
    (done : store.publishAssessmentConsensusFromAcceptedBundlesAndReveal secret callback nowIso =
      .ok (outcome, later)) : later.conceal secret = store.conceal secret := by
  rw [publishAssessmentConsensusFromAcceptedBundlesAndReveal] at done
  split at done
  · cases done
  next bundles frozen taken =>
    split at done
    · cases done
    · split at done
      · cases done
      next inserted stored =>
        cases done
        exact (conceal_flipRoundRevealed_secret inserted nowIso).trans
          ((conceal_insertIfAbsent_secret stored).trans (conceal_snapshotIfOpen_secret taken))

theorem conceal_publish (elsewhere : other ≠ secret) (store : Store)
    (callback : List (Hotkey × Option String) → Option (List AssessmentConsensusRow))
    (nowIso : String) :
    (store.publishAssessmentConsensusFromAcceptedBundlesAndReveal other callback nowIso).map
        (fun outcome => (outcome.1, outcome.2.conceal secret)) =
      (store.conceal secret).publishAssessmentConsensusFromAcceptedBundlesAndReveal other callback
        nowIso := by
  rw [publishAssessmentConsensusFromAcceptedBundlesAndReveal,
    publishAssessmentConsensusFromAcceptedBundlesAndReveal, ← conceal_snapshotIfOpen elsewhere]
  cases store.snapshotConsensusBundlesIfOpen other nowIso with
  | error raised => rfl
  | ok taken =>
    obtain ⟨bundles, frozen⟩ := taken
    simp only [Except.map]
    cases callback bundles with
    | none => rfl
    | some rows =>
      simp only
      rw [← conceal_insertIfAbsent elsewhere]
      cases frozen.insertAssessmentConsensusIfAbsent other rows with
      | error raised => rfl
      | ok inserted =>
        exact congrArg (fun later => Except.ok ((bundles, rows), later))
          (conceal_flipRoundRevealed elsewhere inserted nowIso)

end Store

namespace RoundOperation

open Store

variable {secret : RoundKey}

/-- A miner's commit or reveal in a round. -/
def Submits (secret : RoundKey) : RoundOperation → Prop
  | .recordCommit round .. | .recordRevealAttempt round _ | .recordReveal round .. => round = secret
  | _ => False

instance (secret : RoundKey) : DecidablePred (Submits secret) := fun operation =>
  match operation with
  | .recordCommit round .. | .recordRevealAttempt round _ | .recordReveal round .. =>
    inferInstanceAs (Decidable (round = secret))
  | .openRound .. | .publish .. | .setRoundState .. => inferInstanceAs (Decidable False)

/-- Submissions in a round are concealed with it. -/
theorem conceal_apply_of_submits (limits : Limits) {operation : RoundOperation}
    (submits : operation.Submits secret) (store : Store) :
    (operation.apply limits store).conceal secret = store.conceal secret := by
  cases operation with
  | recordCommit round hotkey bundleHash nowIso =>
    cases submits
    exact conceal_recordCommit_secret store hotkey bundleHash nowIso _
  | recordRevealAttempt round hotkey =>
    cases submits
    exact conceal_recordRevealAttempt_secret store hotkey _
  | recordReveal round hotkey bundleJson nonceHex accepted rejectionCode nowIso =>
    cases submits
    exact conceal_recordReveal_secret store hotkey bundleJson nonceHex accepted rejectionCode nowIso
  | openRound windows schemaId snapshot nowIso publicationAvailableAt => exact submits.elim
  | publish round callback nowIso => exact submits.elim
  | setRoundState round state postOpen nowIso => exact submits.elim

/-- No transaction carries anything of a round over to the rest. -/
theorem blind_apply (limits : Limits) (operation : RoundOperation) :
    Blind secret (operation.apply limits) := by
  cases operation with
  | openRound windows schemaId snapshot nowIso publicationAvailableAt =>
    exact blind_openRound secret windows schemaId snapshot nowIso publicationAvailableAt
  | recordCommit round hotkey bundleHash nowIso =>
    -- an operation on the secret round is concealed, any other commutes with concealing
    by_cases own : round = secret
    · subst own
      exact blind_of_concealed fun store =>
        conceal_recordCommit_secret store hotkey bundleHash nowIso _
    · exact blind_of_commutes fun store => conceal_recordCommit own store hotkey bundleHash nowIso _
  | recordRevealAttempt round hotkey =>
    by_cases own : round = secret
    · subst own
      exact blind_of_concealed fun store => conceal_recordRevealAttempt_secret store hotkey _
    · exact blind_of_commutes fun store => conceal_recordRevealAttempt own store hotkey _
  | recordReveal round hotkey bundleJson nonceHex accepted rejectionCode nowIso =>
    by_cases own : round = secret
    · subst own
      exact blind_of_concealed fun store =>
        conceal_recordReveal_secret store hotkey bundleJson nonceHex accepted rejectionCode nowIso
    · exact blind_of_commutes fun store =>
        conceal_recordReveal own store hotkey bundleJson nonceHex accepted rejectionCode nowIso
  | publish round callback nowIso =>
    by_cases own : round = secret
    · subst own
      refine blind_of_concealed fun store => ?_
      rw [apply]
      cases done : store.publishAssessmentConsensusFromAcceptedBundlesAndReveal round callback
        nowIso with
      | error raised => rfl
      | ok outcome => exact conceal_publish_secret done
    · refine blind_of_commutes fun store => ?_
      rw [apply, apply, ← conceal_publish own]
      cases store.publishAssessmentConsensusFromAcceptedBundlesAndReveal round callback nowIso with
      | error raised => rfl
      | ok outcome => rfl
  | setRoundState round state postOpen nowIso =>
    by_cases own : round = secret
    · subst own
      refine blind_of_concealed fun store => ?_
      rw [apply]
      cases done : store.setRoundState round state nowIso with
      | error raised => rfl
      | ok later => exact conceal_setRoundState_secret done
    · refine blind_of_commutes fun store => ?_
      rw [apply, apply, ← conceal_setRoundState own]
      cases store.setRoundState round state nowIso with
      | error raised => rfl
      | ok later => rfl

end RoundOperation

end Endure.Storage
