import Endure.Library.Transitions
import Endure.Storage.RoundChanges

/-!
# Runs of the commit/reveal store

The transactions interleave in any order over any rounds and hotkeys. An accepted
submission is terminal, and the accepted bundles of a round are frozen by the
transaction that takes it out of the open state.
-/

namespace Endure.Storage

open Library Endure.Scoring

namespace Store

/-- What holds between transactions. -/
structure Consistent (store : Store) : Prop where
  complete : store.Complete
  unfrozen : ∀ round hotkey, ¬store.IsClosed round → store.frozenBundle round hotkey = none
  frozen : ∀ round hotkey, store.IsClosed round →
    store.frozenBundle round hotkey = store.acceptedBundle round hotkey

/-- How a store relates to every later one. -/
structure Evolves (earlier later : Store) : Prop where
  windows : ∀ round windows, earlier.roundWindows round = some windows →
    later.roundWindows round = some windows
  universes : ∀ round tickers, earlier.universeFor round = some tickers →
    later.universeFor round = some tickers
  closed : ∀ round, earlier.IsClosed round → later.IsClosed round
  terminal : ∀ round hotkey row, earlier.submissions.get? (round, hotkey) = some row →
    row.verdict = .accepted →
    ∃ row', later.submissions.get? (round, hotkey) = some row' ∧ row.SameReveal row'
  submissions : ∀ round hotkey, earlier.IsClosed round →
    later.submissions.get? (round, hotkey) = earlier.submissions.get? (round, hotkey)
  frozen : ∀ round hotkey, earlier.IsClosed round →
    later.frozenBundle round hotkey = earlier.frozenBundle round hotkey
  consensus : ∀ round, earlier.consensusRows round ≠ [] →
    later.consensusRows round = earlier.consensusRows round

theorem Evolves.refl (store : Store) : store.Evolves store where
  windows _ _ found := found
  universes _ _ found := found
  closed _ closed := closed
  terminal _ _ row found _ := ⟨row, found, rfl⟩
  submissions _ _ _ := rfl
  frozen _ _ _ := rfl
  consensus _ _ := rfl

theorem Evolves.trans (first second third : Store) (left : first.Evolves second)
    (right : second.Evolves third) : first.Evolves third where
  windows round windows found := right.windows round windows (left.windows round windows found)
  universes round tickers found :=
    right.universes round tickers (left.universes round tickers found)
  closed round closed := right.closed round (left.closed round closed)
  terminal round hotkey row found accepted := by
    obtain ⟨row', found', same⟩ := left.terminal round hotkey row found accepted
    have accepted' : row'.verdict = .accepted := by rw [same]; exact accepted
    obtain ⟨row'', found'', same'⟩ := right.terminal round hotkey row' found' accepted'
    refine ⟨row'', found'', ?_⟩
    rw [SubmissionRow.SameReveal] at same same' ⊢
    rw [same', same]
  submissions round hotkey closed :=
    (right.submissions round hotkey (left.closed round closed)).trans
      (left.submissions round hotkey closed)
  frozen round hotkey closed :=
    (right.frozen round hotkey (left.closed round closed)).trans (left.frozen round hotkey closed)
  consensus round present := by
    rw [right.consensus round (by rwa [left.consensus round present]),
      left.consensus round present]

variable {store later : Store}

theorem Consistent.open_unfrozen (consistent : store.Consistent) {round : RoundKey}
    (isOpen : store.roundState round = some .open) (hotkey : Hotkey) :
    store.frozenBundle round hotkey = none :=
  consistent.unfrozen round hotkey fun ⟨state, found, notOpen⟩ => by
    cases isOpen.symm.trans found
    exact notOpen rfl

theorem consistent_empty : empty.Consistent where
  complete _ _ _ found := by cases found
  unfrozen _ _ _ := rfl
  frozen _ _ _ := rfl

/-! ### One change -/

theorem roundState_set (universes : Dict RoundKey UniverseSnapshot) (round other : RoundKey)
    (row : RoundRow) :
    roundState { store with rounds := store.rounds.set round row, universes } other =
      if other = round then some row.state else store.roundState other := by
  rw [roundState, Dict.get?_set]
  by_cases same : other = round
  · rw [if_pos same, if_pos same, Option.map_some]
  · rw [if_neg same, if_neg same, roundState]

/-- Opening a fresh round closes none and reopens none. -/
theorem isClosed_set_iff {universes : Dict RoundKey UniverseSnapshot} {round other : RoundKey}
    {row : RoundRow} (fresh : store.rounds.get? round = none) (isOpen : row.state = .open) :
    IsClosed { store with rounds := store.rounds.set round row, universes } other ↔
      store.IsClosed other := by
  have missing : store.roundState round = none := by rw [roundState, fresh, Option.map_none]
  simp only [IsClosed, roundState_set]
  by_cases same : other = round
  · simp [same, isOpen, missing]
  · simp [same]

theorem roundWindows_set_of_some {universes : Dict RoundKey UniverseSnapshot}
    {round other : RoundKey} {row : RoundRow} {windows : RoundWindows}
    (fresh : store.rounds.get? round = none) (found : store.roundWindows other = some windows) :
    roundWindows { store with rounds := store.rounds.set round row, universes } other =
      some windows := by
  have elsewhere : other ≠ round := by
    rintro rfl
    rw [roundWindows, fresh] at found
    cases found
  rw [roundWindows, Dict.get?_set, if_neg elsewhere]
  exact found

theorem roundWindows_eq_none_iff {round : RoundKey} :
    store.roundWindows round = none ↔ store.roundState round = none := by
  rw [roundWindows, roundState, Option.map_eq_none_iff, Option.map_eq_none_iff]

theorem isClosed_iff {round : RoundKey} :
    store.IsClosed round ↔ store.roundState round ≠ none ∧ store.roundState round ≠ some .open := by
  rw [IsClosed]
  cases store.roundState round <;> simp

/-- The advanced round is closed once it exists; the others are as they were. -/
theorem Advanced.isClosed_iff {round other : RoundKey} (advanced : Advanced store round later) :
    later.IsClosed other ↔
      store.IsClosed other ∨ other = round ∧ store.roundState round = some .open := by
  have exist : later.roundState other = none ↔ store.roundState other = none := by
    rw [← roundWindows_eq_none_iff, ← roundWindows_eq_none_iff, advanced.windows]
  rw [Store.isClosed_iff, Store.isClosed_iff, ne_eq, exist]
  by_cases here : other = round
  · subst here
    have closed := advanced.closed
    cases found : store.roundState other <;> simp [closed, em']
  · rw [advanced.others other here]
    simp [here]

theorem acceptedBundle_congr {round : RoundKey} {hotkey : Hotkey}
    (same : later.submissions.get? (round, hotkey) = store.submissions.get? (round, hotkey)) :
    later.acceptedBundle round hotkey = store.acceptedBundle round hotkey := by
  rw [acceptedBundle, acceptedBundle, same]

/-- A submission of an open round is not one of a closed round. -/
theorem get?_set_of_closed {round other : RoundKey} {hotkey name : Hotkey} {row : SubmissionRow}
    (isOpen : store.roundState round = some .open) (closed : store.IsClosed other) :
    (store.submissions.set (round, hotkey) row).get? (other, name) =
      store.submissions.get? (other, name) := by
  rw [Dict.get?_set, if_neg]
  rintro same
  cases same
  obtain ⟨state, found, notOpen⟩ := closed
  cases isOpen.symm.trans found
  exact notOpen rfl

/-- A change keeps the store consistent. -/
theorem Change.consistent (change : Change store later)
    (consistent : store.Consistent) : later.Consistent := by
  cases change with
  | unchanged => exact consistent
  | opened round row universes fresh isOpen kept =>
    exact {
      complete := consistent.complete
      unfrozen := fun other hotkey notClosed =>
        consistent.unfrozen other hotkey fun closed =>
          notClosed ((isClosed_set_iff fresh isOpen).mpr closed)
      frozen := fun other hotkey closed =>
        consistent.frozen other hotkey ((isClosed_set_iff fresh isOpen).mp closed) }
  | submitted round hotkey row isOpen admitted =>
    refine ⟨fun other name found present => ?_, consistent.unfrozen, fun other name closed => ?_⟩
    · rw [Dict.get?_set] at present
      split at present
      · cases present
        exact admitted.complete fun earlier old => consistent.complete round hotkey earlier old
      · exact consistent.complete other name found present
    · rw [acceptedBundle_congr (get?_set_of_closed isOpen closed)]
      exact consistent.frozen other name closed
  | advanced round _ advanced =>
    refine ⟨fun other name row present => ?_, fun other name notClosed => ?_,
      fun other name closed => ?_⟩
    · exact consistent.complete other name row (advanced.submissions ▸ present)
    · obtain ⟨before, unmoved⟩ := not_or.mp (advanced.isClosed_iff.not.mp notClosed)
      rw [advanced.frozen, if_neg unmoved]
      exact consistent.unfrozen other name before
    -- the freeze copies what is accepted when the round stops being open
    · have same : later.acceptedBundle other name = store.acceptedBundle other name :=
        acceptedBundle_congr (by rw [advanced.submissions])
      rw [same, advanced.frozen]
      by_cases moved : other = round ∧ store.roundState round = some .open
      · rw [if_pos moved, moved.1]
      · rw [if_neg moved]
        exact consistent.frozen other name
          ((advanced.isClosed_iff.mp closed).resolve_right moved)

/-- A change evolves the store. -/
theorem Change.evolves (change : Change store later) : store.Evolves later := by
  cases change with
  | unchanged => exact .refl store
  | opened round row universes fresh isOpen kept =>
    exact {
      windows := fun other windows found => roundWindows_set_of_some fresh found
      universes := kept
      closed := fun other closed => (isClosed_set_iff fresh isOpen).mpr closed
      terminal := fun other hotkey row found _ => ⟨row, found, rfl⟩
      submissions := fun _ _ _ => rfl
      frozen := fun _ _ _ => rfl
      consensus := fun _ _ => rfl }
  | submitted round hotkey row isOpen admitted =>
    refine ⟨fun _ _ found => found, fun _ _ found => found, fun _ closed => closed,
      fun other name old found accepted => ?_,
      fun other name closed => get?_set_of_closed isOpen closed, fun _ _ _ => rfl, fun _ _ => rfl⟩
    -- only the row of the submission is written, and a terminal one keeps its fields
    by_cases same : (other, name) = (round, hotkey)
    · cases same
      exact ⟨row, by rw [Dict.get?_set, if_pos rfl], admitted.terminal old found accepted⟩
    · exact ⟨old, by rw [Dict.get?_set, if_neg same, found], rfl⟩
  | advanced round _ advanced =>
    exact {
      windows := fun other windows found => (advanced.windows other).trans found
      universes := fun other tickers found => by
        rw [universeFor, advanced.universes]
        exact found
      closed := fun other closed => advanced.isClosed_iff.mpr (.inl closed)
      terminal := fun other hotkey row found _ => ⟨row, advanced.submissions ▸ found, rfl⟩
      submissions := fun _ _ _ => by rw [advanced.submissions]
      frozen := fun other hotkey closed => by
        rw [advanced.frozen, if_neg]
        rintro ⟨rfl, isOpen⟩
        exact (Store.isClosed_iff.mp closed).2 isOpen
      consensus := advanced.consensus }

/-! ### The bundle lists of consistent stores -/

/-- A closed round's frozen list is its accepted list. -/
theorem Consistent.consensusBundles_eq (consistent : store.Consistent) {round : RoundKey}
    (closed : store.IsClosed round) :
    store.consensusBundles round = store.acceptedBundles round :=
  consensusBundles_eq_acceptedBundles consistent.complete fun hotkey =>
    consistent.frozen round hotkey closed

theorem Evolves.consensusBundles_eq (evolves : store.Evolves later) {round : RoundKey}
    (closed : store.IsClosed round) :
    later.consensusBundles round = store.consensusBundles round :=
  consensusBundles_congr fun hotkey => evolves.frozen round hotkey closed

theorem scoringBundles_of_closed {round : RoundKey} (closed : store.IsClosed round) :
    store.scoringBundles round = store.consensusBundles round := by
  obtain ⟨state, found, notOpen⟩ := closed
  cases state with
  | «open» => exact absurd rfl notOpen
  | revealed | partiallyScored | closed => simp only [scoringBundles, found]

end Store

/-! ### Runs -/

/-- The transactions of the store; no caller sets a round back to open. -/
inductive RoundOperation
  | openRound (windows : RoundWindows) (schemaId : String) (snapshot : Option UniverseSnapshot)
      (nowIso : String) (publicationAvailableAt : Option ℤ)
  | recordCommit (round : RoundKey) (hotkey : Hotkey) (bundleHash nowIso : String)
  | recordRevealAttempt (round : RoundKey) (hotkey : Hotkey)
  | recordReveal (round : RoundKey) (hotkey : Hotkey) (bundleJson nonceHex : String)
      (accepted : Bool) (rejectionCode : Option String) (nowIso : String)
  | publish (round : RoundKey)
      (consensusRows : List (Hotkey × Option String) → Option (List AssessmentConsensusRow))
      (nowIso : String)
  | setRoundState (round : RoundKey) (state : RoundState) (postOpen : state ≠ .open)
      (nowIso : String)

/-- What a transaction leaves behind: its store, or the old one when it rolls back. -/
def Store.commit (store : Store) (outcome : Except StorageError Store) : Store :=
  match outcome with
  | .ok later => later
  | .error _ => store

/-- The per-round limits on commits and reveals. -/
structure Limits where
  maxCommits : ℕ
  maxReveals : ℕ
  commits_pos : 1 ≤ maxCommits
  reveals_pos : 1 ≤ maxReveals

/-- Every submission's counters are within the limits. -/
def Store.Within (store : Store) (limits : Limits) : Prop :=
  ∀ round hotkey row, store.submissions.get? (round, hotkey) = some row →
    row.commitCount ≤ limits.maxCommits ∧ row.revealCount ≤ limits.maxReveals

theorem Store.within_empty (limits : Limits) : Store.empty.Within limits :=
  fun _ _ _ found => by cases found

namespace RoundOperation

/-- Run one transaction. -/
def apply (limits : Limits) (operation : RoundOperation) (store : Store) : Store :=
  match operation with
  | openRound windows schemaId snapshot nowIso publicationAvailableAt =>
    store.commit (store.openRound windows schemaId snapshot nowIso publicationAvailableAt)
  | recordCommit round hotkey bundleHash nowIso =>
    (store.recordCommit round hotkey bundleHash nowIso (some limits.maxCommits)).2
  | recordRevealAttempt round hotkey =>
    (store.recordRevealAttempt round hotkey (some limits.maxReveals)).2
  | recordReveal round hotkey bundleJson nonceHex accepted rejectionCode nowIso =>
    (store.recordReveal round hotkey bundleJson nonceHex accepted rejectionCode nowIso).2
  | publish round consensusRows nowIso =>
    store.commit ((store.publishAssessmentConsensusFromAcceptedBundlesAndReveal round
      consensusRows nowIso).map Prod.snd)
  | setRoundState round state _ nowIso => store.commit (store.setRoundState round state nowIso)

variable {limits : Limits} {store later : Store}

/-- Every transaction makes one change. -/
theorem apply_change (limits : Limits) (operation : RoundOperation) (consistent : store.Consistent) :
    Store.Change store (operation.apply limits store) := by
  cases operation with
  | openRound windows schemaId snapshot nowIso publicationAvailableAt =>
    rw [apply]
    cases done : store.openRound windows schemaId snapshot nowIso publicationAvailableAt with
    | error raised => exact .unchanged
    | ok later => exact Store.openRound_change done
  | recordCommit round hotkey bundleHash nowIso =>
    exact store.recordCommit_change round hotkey bundleHash nowIso _
  | recordRevealAttempt round hotkey => exact store.recordRevealAttempt_change round hotkey _
  | recordReveal round hotkey bundleJson nonceHex accepted rejectionCode nowIso =>
    exact store.recordReveal_change round hotkey bundleJson nonceHex accepted
      rejectionCode nowIso
  | publish round consensusRows nowIso =>
    rw [apply]
    cases done : store.publishAssessmentConsensusFromAcceptedBundlesAndReveal round
      consensusRows nowIso with
    | error raised => exact .unchanged
    | ok outcome =>
      obtain ⟨⟨bundles, rows⟩, later⟩ := outcome
      exact .advanced round later
        (Store.publish_advanced (fun isOpen => consistent.open_unfrozen isOpen) done).1
  | setRoundState round state postOpen nowIso =>
    rw [apply]
    cases done : store.setRoundState round state nowIso with
    | error raised => exact .unchanged
    | ok later =>
      exact .advanced round later (Store.setRoundState_advanced postOpen
        (fun isOpen => consistent.open_unfrozen isOpen) done).1

/-- The store a sequence of transactions leaves behind. -/
def run (limits : Limits) (store : Store) (operations : List RoundOperation) : Store :=
  Transitions.run (apply limits) store operations

theorem run_consistent (limits : Limits) (operations : List RoundOperation) (consistent : store.Consistent) :
    (run limits store operations).Consistent :=
  @Transitions.run_invariant _ _ (apply limits) store Store.Consistent
    (fun operation _ held => (apply_change limits operation held).consistent held) consistent operations

theorem run_evolves (limits : Limits) (operations : List RoundOperation) (consistent : store.Consistent) :
    store.Evolves (run limits store operations) :=
  Transitions.run_relation Store.Evolves.refl Store.Evolves.trans
    (fun operation _ held => (apply_change limits operation held).consistent held)
    (fun operation _ held => (apply_change limits operation held).evolves) consistent operations

/-- No transaction takes a counter past its limit. -/
theorem apply_within (operation : RoundOperation) (consistent : store.Consistent)
    (within : store.Within limits) : (operation.apply limits store).Within limits := by
  -- a first commit is stored whatever the limit, so the limit has to allow one
  have := limits.commits_pos
  cases operation with
  | openRound windows schemaId snapshot nowIso publicationAvailableAt =>
    grind [apply, Store.commit, Store.openRound, Store.Within]
  | recordCommit round hotkey bundleHash nowIso =>
    grind [apply, Store.recordCommit, Store.Within, Dict.get?_set]
  | recordRevealAttempt round hotkey =>
    grind [apply, Store.recordRevealAttempt, Store.Within, Dict.get?_set]
  | recordReveal round hotkey bundleJson nonceHex accepted rejectionCode nowIso =>
    grind [apply, Store.recordReveal, Store.Within, Dict.get?_set]
  | publish round consensusRows nowIso =>
    rw [apply]
    cases done : store.publishAssessmentConsensusFromAcceptedBundlesAndReveal round
      consensusRows nowIso with
    | error raised => exact within
    | ok outcome =>
      obtain ⟨⟨bundles, rows⟩, later⟩ := outcome
      have advanced := (Store.publish_advanced (fun isOpen => consistent.open_unfrozen isOpen) done).1
      intro other hotkey row found
      exact within other hotkey row (advanced.submissions ▸ found)
  | setRoundState round state postOpen nowIso =>
    rw [apply]
    cases done : store.setRoundState round state nowIso with
    | error raised => exact within
    | ok later =>
      have advanced := (Store.setRoundState_advanced postOpen
        (fun isOpen => consistent.open_unfrozen isOpen) done).1
      intro other hotkey row found
      exact within other hotkey row (advanced.submissions ▸ found)

theorem run_within (operations : List RoundOperation) (consistent : store.Consistent)
    (within : store.Within limits) : (run limits store operations).Within limits :=
  (@Transitions.run_invariant _ _ (apply limits) store
    (fun store => store.Consistent ∧ store.Within limits)
    (fun operation _ held => ⟨(apply_change limits operation held.1).consistent held.1,
      apply_within operation held.1 held.2⟩) ⟨consistent, within⟩ operations).2

/-- The transaction that takes a round out of open freezes the accepted bundles. -/
theorem apply_closes (operation : RoundOperation) (consistent : store.Consistent)
    {round : RoundKey} (isOpen : store.roundState round = some .open)
    (left : (operation.apply limits store).roundState round ≠ some .open) :
    (operation.apply limits store).IsClosed round ∧
      (operation.apply limits store).acceptedBundles round = store.acceptedBundles round := by
  have change := apply_change limits operation consistent
  have evolves := change.evolves
  generalize operation.apply limits store = later at change left evolves
  have closed : later.IsClosed round := by
    refine Store.isClosed_iff.mpr ⟨fun missing => ?_, left⟩
    obtain ⟨row, found, -⟩ := Option.map_eq_some_iff.mp isOpen
    have kept := evolves.windows round row.windows (by rw [Store.roundWindows, found]; rfl)
    rw [Store.roundWindows_eq_none_iff.mpr missing] at kept
    cases kept
  refine ⟨closed, ?_⟩
  cases change with
  | unchanged | submitted => exact absurd isOpen left
  | opened => rfl
  | advanced moved _ advanced =>
    rw [Store.acceptedBundles, advanced.submissions, ← Store.acceptedBundles]

/-- The transaction that writes a round's first consensus rows is a publication that
closes the round and computes them from the bundles it froze. -/
theorem apply_publishes (operation : RoundOperation) (consistent : store.Consistent)
    {round : RoundKey} (absent : store.consensusRows round = [])
    (present : (operation.apply limits store).consensusRows round ≠ []) :
    (operation.apply limits store).IsClosed round ∧ ∃ consensusRows nowIso,
      operation = .publish round consensusRows nowIso ∧
        consensusRows ((operation.apply limits store).consensusBundles round) =
          some ((operation.apply limits store).consensusRows round) := by
  have wrote : (operation.apply limits store).consensus ≠ store.consensus := fun same =>
    present (by rw [Store.consensusRows, same, ← Store.consensusRows, absent])
  cases operation with
  | openRound windows schemaId snapshot nowIso publicationAvailableAt =>
    rw [apply] at wrote
    cases done : store.openRound windows schemaId snapshot nowIso publicationAvailableAt with
    | error raised => exact absurd (by rw [done, Store.commit]) wrote
    | ok later =>
      rw [done, Store.commit] at wrote
      exact absurd (Store.openRound_consensus done) wrote
  | recordCommit other hotkey bundleHash nowIso =>
    exact absurd (store.recordCommit_consensus other hotkey bundleHash nowIso _) wrote
  | recordRevealAttempt other hotkey =>
    exact absurd (store.recordRevealAttempt_consensus other hotkey _) wrote
  | recordReveal other hotkey bundleJson nonceHex accepted rejectionCode nowIso =>
    exact absurd (store.recordReveal_consensus other hotkey bundleJson nonceHex accepted
      rejectionCode nowIso) wrote
  | setRoundState other state postOpen nowIso =>
    rw [apply] at wrote
    cases done : store.setRoundState other state nowIso with
    | error raised => exact absurd (by rw [done, Store.commit]) wrote
    | ok later =>
      rw [done, Store.commit] at wrote
      exact absurd (Store.setRoundState_advanced postOpen
        (fun isOpen => consistent.open_unfrozen isOpen) done).2 wrote
  | publish other consensusRows nowIso =>
    rw [apply] at present wrote ⊢
    cases done : store.publishAssessmentConsensusFromAcceptedBundlesAndReveal other
      consensusRows nowIso with
    | error raised =>
      rw [done] at wrote
      exact absurd rfl wrote
    | ok outcome =>
      obtain ⟨⟨bundles, rows⟩, later⟩ := outcome
      simp only [done, Except.map, Store.commit] at present ⊢
      obtain ⟨advanced, read, called, first⟩ :=
        Store.publish_advanced (fun isOpen => consistent.open_unfrozen isOpen) done
      -- Only the published round gains rows.
      have here : round = other := by
        by_contra elsewhere
        exact present ((advanced.consensus_others round elsewhere).trans absent)
      subst here
      obtain ⟨stored, listed⟩ := first absent
      rw [stored] at present ⊢
      refine ⟨Store.isClosed_iff.mpr ⟨fun missing => listed present ?_, advanced.closed⟩,
        consensusRows, nowIso, rfl, read ▸ called⟩
      rwa [← Store.roundWindows_eq_none_iff, ← advanced.windows, Store.roundWindows_eq_none_iff]

/-- What a transaction settles: `before` and `after` are the stores around it, and
`later` is the store after any further transactions. -/
structure Settles (limits : Limits) (operation : RoundOperation) (before after later : Store) :
    Prop where
  /-- An accepted submission keeps its bundle, nonce, commit hash and verdict. -/
  terminal : ∀ round hotkey row, before.submissions.get? (round, hotkey) = some row →
    row.verdict = .accepted →
    ∃ row', later.submissions.get? (round, hotkey) = some row' ∧
      row'.bundleJson = row.bundleJson ∧ row'.nonceHex = row.nonceHex ∧
      row'.commitHash = row.commitHash ∧ row'.verdict = row.verdict
  /-- Leaving the open state freezes exactly the accepted bundles, forever. -/
  frozen : ∀ round, before.roundState round = some .open → after.roundState round ≠ some .open →
    after.consensusBundles round = before.acceptedBundles round ∧
      later.consensusBundles round = before.acceptedBundles round ∧
      later.acceptedBundles round = before.acceptedBundles round ∧
      later.scoringBundles round = before.acceptedBundles round
  /-- A round that has consensus rows keeps them. -/
  once : ∀ round, before.consensusRows round ≠ [] →
    later.consensusRows round = before.consensusRows round
  /-- A round's first consensus rows come from the bundles scored ever after. -/
  computed : ∀ round, before.consensusRows round = [] → after.consensusRows round ≠ [] →
    ∃ consensusRows nowIso, operation = .publish round consensusRows nowIso ∧
      consensusRows (later.scoringBundles round) = some (after.consensusRows round)
  /-- No counter exceeds its limit. -/
  within : before.Within limits

/-- Acceptance is terminal and the consensus set is frozen at close, in every run. -/
theorem run_settles (limits : Limits) (past : List RoundOperation) (operation : RoundOperation)
    (future : List RoundOperation) :
    Settles limits operation (run limits .empty past)
      (operation.apply limits (run limits .empty past))
      (run limits (operation.apply limits (run limits .empty past)) future) := by
  have consistent := run_consistent limits past Store.consistent_empty
  have within := run_within past Store.consistent_empty (Store.within_empty limits)
  generalize run limits .empty past = before at consistent within
  have change := apply_change limits operation consistent
  have consistent' := change.consistent consistent
  have evolves := run_evolves limits future consistent'
  -- what one transaction and the rest of the run keep, both keep together
  have overall := Store.Evolves.trans _ _ _ change.evolves evolves
  have consistent'' := run_consistent limits future consistent'
  generalize run limits (operation.apply limits before) future = later at evolves overall consistent''
  refine ⟨fun round hotkey row found accepted => ?_, fun round isOpen left => ?_,
    overall.consensus, fun round absent present => ?_, within⟩
  · obtain ⟨row', found', same⟩ := overall.terminal round hotkey row found accepted
    exact ⟨row', found', by rw [same], by rw [same], by rw [same], by rw [same]⟩
  · obtain ⟨closed, accepted⟩ := apply_closes operation consistent isOpen left
    have closed' := evolves.closed round closed
    -- the frozen list is the accepted one when the round closes, and neither changes after
    have now := (consistent'.consensusBundles_eq closed).trans accepted
    have then_ := (evolves.consensusBundles_eq closed).trans now
    exact ⟨now, then_, (consistent''.consensusBundles_eq closed').symm.trans then_,
      (Store.scoringBundles_of_closed closed').trans then_⟩
  · obtain ⟨closed, consensusRows, nowIso, same, computed⟩ :=
      apply_publishes operation consistent absent present
    refine ⟨consensusRows, nowIso, same, ?_⟩
    rw [Store.scoringBundles_of_closed (evolves.closed round closed),
      evolves.consensusBundles_eq closed, computed]

end RoundOperation

end Endure.Storage
