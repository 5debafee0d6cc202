import Endure.Library.Checked
import Endure.Storage.Rounds

/-!
# What a round transaction changes

Every transaction of the commit/reveal store leaves it unchanged, opens a fresh
round, writes one submission of an open round, or advances one round. The cases
carry the guards under which the transaction takes them.
-/

namespace Endure.Storage

open Library Endure.Scoring

/-- A row that is accepted holds what was accepted. -/
def SubmissionRow.Complete (row : SubmissionRow) : Prop :=
  row.verdict = .accepted → row.bundleJson.isSome ∧ row.nonceHex.isSome

/-- Two rows agree on everything but the count of reveal attempts. -/
def SubmissionRow.SameReveal (earlier later : SubmissionRow) : Prop :=
  later = { earlier with revealCount := later.revealCount }

namespace Store

/-- The round exists and has left the open state. -/
def IsClosed (store : Store) (round : RoundKey) : Prop :=
  ∃ state, store.roundState round = some state ∧ state ≠ .open

/-- A hotkey's accepted bundle in a round. -/
def acceptedBundle (store : Store) (round : RoundKey) (hotkey : Hotkey) : Option String :=
  (store.submissions.get? (round, hotkey)).bind fun row =>
    if row.verdict = .accepted then row.bundleJson else none

/-- A hotkey's frozen bundle in a round. -/
def frozenBundle (store : Store) (round : RoundKey) (hotkey : Hotkey) : Option String :=
  (store.snapshots.get? (round, hotkey)).map BundleSnapshotRow.bundleJson

/-- A row that may replace a submission: complete, and terminal once accepted. -/
structure Admits (old : Option SubmissionRow) (row : SubmissionRow) : Prop where
  complete : (∀ earlier, old = some earlier → earlier.Complete) → row.Complete
  terminal : ∀ earlier, old = some earlier → earlier.verdict = .accepted →
    earlier.SameReveal row

/-- One round has been frozen and advanced past the embargo; nothing else moved. -/
structure Advanced (store : Store) (round : RoundKey) (later : Store) : Prop where
  submissions : later.submissions = store.submissions
  universes : later.universes = store.universes
  windows : ∀ other, later.roundWindows other = store.roundWindows other
  others : ∀ other, other ≠ round → later.roundState other = store.roundState other
  closed : later.roundState round ≠ some .open
  frozen : ∀ other hotkey, later.frozenBundle other hotkey =
    if other = round ∧ store.roundState round = some .open then store.acceptedBundle round hotkey
    else store.frozenBundle other hotkey
  consensus : ∀ other, store.consensusRows other ≠ [] →
    later.consensusRows other = store.consensusRows other
  consensus_others : ∀ other, other ≠ round →
    later.consensusRows other = store.consensusRows other

/-- What a transaction can do to the tables. -/
inductive Change (store : Store) : Store → Prop
  | unchanged : Change store store
  | opened (round : RoundKey) (row : RoundRow) (universes : Dict RoundKey UniverseSnapshot)
      (fresh : store.rounds.get? round = none) (isOpen : row.state = .open)
      (kept : ∀ other tickers, store.universes.get? other = some tickers →
        universes.get? other = some tickers) :
      Change store { store with rounds := store.rounds.set round row, universes }
  | submitted (round : RoundKey) (hotkey : Hotkey) (row : SubmissionRow)
      (isOpen : store.roundState round = some .open)
      (admitted : Admits (store.submissions.get? (round, hotkey)) row) :
      Change store
        { store with submissions := store.submissions.set (round, hotkey) row }
  | advanced (round : RoundKey) (later : Store) (advanced : Advanced store round later) :
      Change store later

/-! ### The reads -/

theorem acceptedPair_separates (round : RoundKey) : Dict.Separates (acceptedPair round) := by
  intro key key' row row' hotkey bundle bundle' picked picked'
  simp only [acceptedPair, Option.ite_none_right_eq_some, Option.some.injEq,
    Prod.mk.injEq] at picked picked'
  exact Prod.ext (picked.1.1.trans picked'.1.1.symm) (picked.2.1.trans picked'.2.1.symm)

theorem snapshotPair_separates (round : RoundKey) : Dict.Separates (snapshotPair round) := by
  intro key key' row row' hotkey bundle bundle' picked picked'
  simp only [snapshotPair, Option.ite_none_right_eq_some, Option.some.injEq,
    Prod.mk.injEq] at picked picked'
  exact Prod.ext (picked.1.trans picked'.1.symm) (picked.2.1.trans picked'.2.1.symm)

variable {store later : Store} {round : RoundKey} {hotkey : Hotkey} {nowIso : String}

theorem mem_acceptedBundles {bundle : Option String} :
    (hotkey, bundle) ∈ store.acceptedBundles round ↔
      ∃ row, store.submissions.get? (round, hotkey) = some row ∧ row.verdict = .accepted ∧
        row.bundleJson = bundle := by
  rw [acceptedBundles, Dict.mem_select]
  constructor
  · rintro ⟨⟨other, key⟩, row, found, picked⟩
    simp only [acceptedPair, Option.ite_none_right_eq_some, Option.some.injEq,
      Prod.mk.injEq] at picked
    obtain ⟨⟨rfl, accepted⟩, rfl, same⟩ := picked
    exact ⟨row, found, accepted, same⟩
  · rintro ⟨row, found, accepted, same⟩
    exact ⟨(round, hotkey), row, found, by simp [acceptedPair, accepted, same]⟩

theorem mem_consensusBundles {bundle : Option String} :
    (hotkey, bundle) ∈ store.consensusBundles round ↔
      ∃ json, bundle = some json ∧ store.frozenBundle round hotkey = some json := by
  rw [consensusBundles, Dict.mem_select]
  constructor
  · rintro ⟨⟨other, key⟩, row, found, picked⟩
    simp only [snapshotPair, Option.ite_none_right_eq_some, Option.some.injEq,
      Prod.mk.injEq] at picked
    obtain ⟨rfl, rfl, same⟩ := picked
    exact ⟨row.bundleJson, same.symm, by rw [frozenBundle, found, Option.map_some]⟩
  · rintro ⟨json, rfl, frozen⟩
    obtain ⟨row, found, rfl⟩ := Option.map_eq_some_iff.mp frozen
    exact ⟨(round, hotkey), row, found, by simp [snapshotPair]⟩

/-- Only complete rows are accepted. -/
def Complete (store : Store) : Prop :=
  ∀ round hotkey row, store.submissions.get? (round, hotkey) = some row → row.Complete

theorem mem_acceptedBundles_of_complete (complete : store.Complete) {bundle : Option String} :
    (hotkey, bundle) ∈ store.acceptedBundles round ↔
      ∃ json, bundle = some json ∧ store.acceptedBundle round hotkey = some json := by
  rw [mem_acceptedBundles]
  constructor
  · rintro ⟨row, found, accepted, rfl⟩
    obtain ⟨json, same⟩ := Option.isSome_iff_exists.mp (complete round hotkey row found accepted).1
    exact ⟨json, same, by simp [acceptedBundle, found, accepted, same]⟩
  · rintro ⟨json, rfl, same⟩
    obtain ⟨row, found, holds⟩ := Option.bind_eq_some_iff.mp same
    rw [Option.ite_none_right_eq_some] at holds
    exact ⟨row, found, holds.1, holds.2⟩

/-- The frozen list is a function of the frozen bundles. -/
theorem consensusBundles_congr
    (same : ∀ hotkey, later.frozenBundle round hotkey = store.frozenBundle round hotkey) :
    later.consensusBundles round = store.consensusBundles round :=
  Dict.select_eq_of_mem_iff (snapshotPair_separates round) (snapshotPair_separates round)
    fun item => by
      rw [← consensusBundles, ← consensusBundles, mem_consensusBundles, mem_consensusBundles, same]

/-- Freezing every accepted bundle makes the frozen list the accepted one. -/
theorem consensusBundles_eq_acceptedBundles (complete : store.Complete)
    (same : ∀ hotkey, later.frozenBundle round hotkey = store.acceptedBundle round hotkey) :
    later.consensusBundles round = store.acceptedBundles round :=
  Dict.select_eq_of_mem_iff (snapshotPair_separates round) (acceptedPair_separates round)
    fun item => by
      rw [← consensusBundles, ← acceptedBundles, mem_consensusBundles,
        mem_acceptedBundles_of_complete complete, same]

theorem consensusBundles_eq_nil
    (absent : ∀ hotkey, store.frozenBundle round hotkey = none) :
    store.consensusBundles round = [] := by
  refine List.eq_nil_iff_forall_not_mem.mpr fun item member => ?_
  obtain ⟨json, -, found⟩ := mem_consensusBundles.mp member
  cases (absent item.1).symm.trans found

/-! ### Freezing a round -/

@[simp] theorem frozenBundle_set (snapshots : Dict (RoundKey × Hotkey) BundleSnapshotRow)
    (key : RoundKey × Hotkey) (row : BundleSnapshotRow) (other : RoundKey) (hotkey : Hotkey) :
    frozenBundle { store with snapshots := snapshots.set key row } other hotkey =
      if (other, hotkey) = key then some row.bundleJson
      else frozenBundle { store with snapshots } other hotkey := by
  rw [frozenBundle, Dict.get?_set]
  by_cases same : (other, hotkey) = key
  · rw [if_pos same, if_pos same, Option.map_some]
  · rw [if_neg same, if_neg same, frozenBundle]

/-- Inserting a hotkey's bundle writes it where the hotkey has none. -/
theorem insertSnapshot_eq_ok {bundle : Hotkey × Option String}
    (done : insertSnapshot round nowIso store bundle = .ok later) :
    (∃ snapshots, later = { store with snapshots }) ∧
      ∃ json, bundle.2 = some json ∧ ∀ other hotkey, later.frozenBundle other hotkey =
        (store.frozenBundle other hotkey).or
          (if (other, hotkey) = (round, bundle.1) then some json else none) := by
  obtain ⟨name, content⟩ := bundle
  cases content with
  | none => cases done
  | some json =>
    rw [insertSnapshot] at done
    by_cases taken : (store.snapshots.get? (round, name)).isSome
    · cases (if_pos taken).symm.trans done
      refine ⟨⟨_, rfl⟩, json, rfl, fun other hotkey => ?_⟩
      by_cases same : (other, hotkey) = (round, name)
      · obtain ⟨row, found⟩ := Option.isSome_iff_exists.mp taken
        cases same
        rw [frozenBundle, found, Option.map_some, Option.some_or]
      · rw [if_neg same, Option.or_none]
    · cases (if_neg taken).symm.trans done
      refine ⟨⟨_, rfl⟩, json, rfl, fun other hotkey => ?_⟩
      rw [frozenBundle_set]
      by_cases same : (other, hotkey) = (round, name)
      · cases same
        have absent : store.frozenBundle round name = none := by
          rw [frozenBundle, Option.not_isSome_iff_eq_none.mp taken, Option.map_none]
        rw [if_pos rfl, absent, Option.none_or, if_pos rfl]
      · rw [if_neg same, if_neg same, Option.or_none]

/-- Inserting a list of bundles writes each hotkey's first one where it has none. -/
theorem insertSnapshots_eq_ok {bundles : List (Hotkey × Option String)}
    (done : bundles.foldlM (insertSnapshot round nowIso) store = .ok later) :
    (∃ snapshots, later = { store with snapshots }) ∧ ∀ other hotkey,
      later.frozenBundle other hotkey = (store.frozenBundle other hotkey).or
        (if other = round then (bundles.lookup hotkey).join else none) := by
  induction bundles generalizing store with
  | nil =>
    cases done
    exact ⟨⟨_, rfl⟩, fun other hotkey => by simp⟩
  | cons bundle rest ih =>
    rw [List.foldlM_cons] at done
    obtain ⟨middle, first, remaining⟩ := Checked.bind_eq_ok.mp done
    obtain ⟨⟨snapshots, rfl⟩, json, content, wrote⟩ := insertSnapshot_eq_ok first
    obtain ⟨⟨snapshots', rfl⟩, wroteRest⟩ := ih remaining
    refine ⟨⟨snapshots', rfl⟩, fun other hotkey => ?_⟩
    rw [wroteRest, wrote, Option.or_assoc]
    obtain ⟨name, _⟩ := bundle
    cases content
    congr 1
    by_cases here : other = round
    · by_cases named : hotkey = name
      · simp [here, named]
      · simp [here, named, List.lookup_cons, beq_eq_false_iff_ne.mpr named]
    · simp [here]

theorem lookup_acceptedBundles (store : Store) (round : RoundKey) (hotkey : Hotkey) :
    ((store.acceptedBundles round).lookup hotkey).join = store.acceptedBundle round hotkey := by
  ext json
  rw [Option.join_eq_some_iff, acceptedBundles, Dict.lookup_select (acceptedPair_separates round),
    ← acceptedBundles, mem_acceptedBundles, acceptedBundle, Option.bind_eq_some_iff]
  simp only [Option.ite_none_right_eq_some]

/-- What freezing returns and writes: on an open round without snapshots it freezes
the accepted bundles, and elsewhere it only reads. -/
theorem snapshotConsensusBundlesIfOpen_eq_ok {bundles : List (Hotkey × Option String)}
    (unfrozen : store.roundState round = some .open →
      ∀ hotkey, store.frozenBundle round hotkey = none)
    (done : store.snapshotConsensusBundlesIfOpen round nowIso = .ok (bundles, later)) :
    (∃ snapshots, later = { store with snapshots }) ∧ bundles = later.consensusBundles round ∧
      ∀ other hotkey, later.frozenBundle other hotkey =
        if other = round ∧ store.roundState round = some .open then
          store.acceptedBundle round hotkey
        else store.frozenBundle other hotkey := by
  rw [snapshotConsensusBundlesIfOpen] at done
  by_cases isOpen : store.roundState round = some .open
  · rw [if_neg (not_not.mpr isOpen)] at done
    simp only [consensusBundles_eq_nil (unfrozen isOpen), ne_eq, not_true_eq_false,
      if_false] at done
    cases inserted : (store.acceptedBundles round).foldlM (insertSnapshot round nowIso) store with
    | error raised => simp only [inserted, reduceCtorEq] at done
    | ok frozen =>
      simp only [inserted, Except.ok.injEq, Prod.mk.injEq] at done
      obtain ⟨rfl, rfl⟩ := done
      obtain ⟨shape, wrote⟩ := insertSnapshots_eq_ok inserted
      refine ⟨shape, rfl, fun other hotkey => ?_⟩
      rw [wrote, lookup_acceptedBundles]
      by_cases here : other = round
      · rw [if_pos here, if_pos ⟨here, isOpen⟩, here, unfrozen isOpen, Option.none_or]
      · rw [if_neg here, if_neg fun both => here both.1, Option.or_none]
  · rw [if_pos isOpen] at done
    cases done
    exact ⟨⟨_, rfl⟩, rfl, fun other hotkey => by rw [if_neg fun both => isOpen both.2]⟩

/-! ### Moving a round's state -/

@[simp] theorem roundWindows_updateState (state : RoundState) (other : RoundKey) :
    (store.updateState round state nowIso).roundWindows other = store.roundWindows other := by
  rw [roundWindows, updateState, Dict.get?_map, Option.map_map, roundWindows]
  congr 1
  funext row
  by_cases same : other = round <;> simp [same]

theorem roundState_updateState (state : RoundState) (other : RoundKey) :
    (store.updateState round state nowIso).roundState other =
      if other = round then (store.roundState round).map fun _ => state
      else store.roundState other := by
  rw [roundState, updateState, Dict.get?_map]
  by_cases same : other = round
  · rw [if_pos same, same, roundState, Option.map_map, Option.map_map]
    congr 1
    funext row
    simp
  · rw [if_neg same, Option.map_map, roundState]
    congr 1
    funext row
    simp [same]

/-- A state other than open leaves the round closed or missing. -/
theorem roundState_updateState_ne_open {state : RoundState} (postOpen : state ≠ .open) :
    (store.updateState round state nowIso).roundState round ≠ some .open := by
  rw [roundState_updateState, if_pos rfl]
  cases store.roundState round with
  | none => simp
  | some _ => simpa using postOpen

theorem roundState_flipRoundRevealed_ne_open :
    (store.flipRoundRevealed round nowIso).roundState round ≠ some .open := by
  rw [flipRoundRevealed]
  by_cases isOpen : store.roundState round = some .open
  · rw [if_pos isOpen]
    exact roundState_updateState_ne_open (by decide)
  · rwa [if_neg isOpen]

/-- Flipping a round only rewrites its row. -/
theorem flipRoundRevealed_eq (store : Store) (round : RoundKey) (nowIso : String) :
    ∃ rounds, store.flipRoundRevealed round nowIso = { store with rounds } ∧
      (∀ other, (store.flipRoundRevealed round nowIso).roundWindows other =
        store.roundWindows other) ∧
      ∀ other, other ≠ round →
        (store.flipRoundRevealed round nowIso).roundState other = store.roundState other := by
  rw [flipRoundRevealed]
  by_cases isOpen : store.roundState round = some .open
  · rw [if_pos isOpen]
    exact ⟨_, rfl, roundWindows_updateState .revealed,
      fun other elsewhere => by rw [roundState_updateState, if_neg elsewhere]⟩
  · rw [if_neg isOpen]
    exact ⟨_, rfl, fun _ => rfl, fun _ _ => rfl⟩

/-! ### Consensus rows -/

/-- Inserting a consensus row appends it to its round, which exists. -/
theorem insertConsensus_eq_ok {row : AssessmentConsensusRow}
    (done : insertConsensus round store row = .ok later) :
    (∃ consensus, later = { store with consensus }) ∧ store.roundState round ≠ none ∧
      ∀ other, later.consensusRows other =
        store.consensusRows other ++ if other = round then [row] else [] := by
  rw [insertConsensus] at done
  by_cases refused : (store.rounds.get? round).isNone ∨
      (store.consensus.get? (round, row.coordinate)).isSome
  · rw [if_pos refused] at done
    cases done
  · rw [if_neg refused] at done
    cases done
    obtain ⟨listed, free⟩ := not_or.mp refused
    refine ⟨⟨_, rfl⟩, ?_, fun other => ?_⟩
    · simpa [roundState, Option.isNone_iff_eq_none] using listed
    · have absent : (round, row.coordinate) ∉ store.consensus.keys :=
        Dict.get?_eq_none_iff.mp (Option.not_isSome_iff_eq_none.mp free)
      rw [consensusRows, Dict.values_filter_set absent, consensusRows]
      by_cases same : other = round
      · simp [same]
      · simp [same, Ne.symm same]

/-- Inserting rows appends them to their round, which exists unless there are none. -/
theorem insertConsensusRows_eq_ok {rows : List AssessmentConsensusRow}
    (done : rows.foldlM (insertConsensus round) store = .ok later) :
    (∃ consensus, later = { store with consensus }) ∧
      (rows ≠ [] → store.roundState round ≠ none) ∧
      ∀ other, later.consensusRows other =
        store.consensusRows other ++ if other = round then rows else [] := by
  induction rows generalizing store with
  | nil =>
    cases done
    exact ⟨⟨_, rfl⟩, fun none => absurd rfl none, fun other => by simp⟩
  | cons row rest ih =>
    rw [List.foldlM_cons] at done
    obtain ⟨middle, first, remaining⟩ := Checked.bind_eq_ok.mp done
    obtain ⟨⟨consensus, rfl⟩, listed, appended⟩ := insertConsensus_eq_ok first
    obtain ⟨⟨consensus', rfl⟩, -, appendedRest⟩ := ih remaining
    refine ⟨⟨consensus', rfl⟩, fun _ => listed, fun other => ?_⟩
    rw [appendedRest, appended, List.append_assoc]
    by_cases same : other = round <;> simp [same]

/-- A round's first rows are the ones given; later ones are dropped. -/
theorem insertAssessmentConsensusIfAbsent_eq_ok {rows : List AssessmentConsensusRow}
    (done : store.insertAssessmentConsensusIfAbsent round rows = .ok later) :
    (∃ consensus, later = { store with consensus }) ∧
      (∀ other, other ≠ round → later.consensusRows other = store.consensusRows other) ∧
      (store.consensusRows round ≠ [] → later.consensusRows round = store.consensusRows round) ∧
      (store.consensusRows round = [] → later.consensusRows round = rows ∧
        (rows ≠ [] → store.roundState round ≠ none)) := by
  rw [insertAssessmentConsensusIfAbsent] at done
  by_cases present : store.consensusRows round = []
  · rw [if_neg (not_not.mpr present)] at done
    obtain ⟨shape, listed, appended⟩ := insertConsensusRows_eq_ok done
    refine ⟨shape, fun other elsewhere => ?_, fun some => absurd present some, fun _ => ⟨?_, listed⟩⟩
    · rw [appended, if_neg elsewhere, List.append_nil]
    · rw [appended, present, if_pos rfl, List.nil_append]
  · rw [if_pos present] at done
    cases done
    exact ⟨⟨_, rfl⟩, fun _ _ => rfl, fun _ => rfl, fun none => absurd none present⟩

/-! ### What each transaction changes -/

section Transactions

theorem openRound_change {windows : RoundWindows} {schemaId : String}
    {snapshot : Option UniverseSnapshot} {publicationAvailableAt : Option ℤ}
    (done : store.openRound windows schemaId snapshot nowIso publicationAvailableAt = .ok later) :
    Change store later := by
  simp only [openRound] at done
  split at done
  · cases done
  split at done
  · cases done
    exact .unchanged
  next fresh =>
    rw [Option.not_isSome_iff_eq_none] at fresh
    cases snapshot with
    | none =>
      cases done
      exact .opened _ _ _ fresh rfl fun _ _ found => found
    | some tickers =>
      simp only at done
      split at done
      · cases done
      next absent =>
        cases done
        refine .opened _ _ _ fresh rfl fun other old found => ?_
        rw [Dict.get?_set, if_neg, found]
        rintro rfl
        exact absent (Option.isSome_iff_exists.mpr ⟨old, found⟩)

theorem recordCommit_change (store : Store) (round : RoundKey) (hotkey : Hotkey)
    (bundleHash nowIso : String) (maxCommits : Option ℕ) :
    Change store (store.recordCommit round hotkey bundleHash nowIso maxCommits).2 := by
  rw [recordCommit]
  by_cases isOpen : store.roundState round = some .open
  · rw [if_neg (not_not.mpr isOpen)]
    cases found : store.submissions.get? (round, hotkey) with
    | none =>
      refine .submitted round hotkey _ isOpen ⟨fun _ accepted => ?_, fun earlier present => ?_⟩
      · cases accepted
      · cases found.symm.trans present
    | some row =>
      simp only
      split
      next admitted =>
        refine .submitted round hotkey _ isOpen ⟨fun _ accepted => ?_, fun earlier present => ?_⟩
        · cases accepted
        · cases found.symm.trans present
          exact fun accepted => absurd accepted admitted.2.1
      · exact .unchanged
  · rw [if_pos isOpen]
    exact .unchanged

theorem recordRevealAttempt_change (store : Store) (round : RoundKey) (hotkey : Hotkey)
    (maxReveals : Option ℕ) :
    Change store (store.recordRevealAttempt round hotkey maxReveals).2 := by
  rw [recordRevealAttempt]
  cases found : store.submissions.get? (round, hotkey) with
  | none => exact .unchanged
  | some row =>
    simp only
    split
    next admitted =>
      refine .submitted round hotkey _ admitted.2.1 ⟨fun complete => complete row found,
        fun earlier present _ => ?_⟩
      cases found.symm.trans present
      rfl
    · exact .unchanged

theorem recordReveal_change (store : Store) (round : RoundKey) (hotkey : Hotkey)
    (bundleJson nonceHex : String) (accepted : Bool) (rejectionCode : Option String)
    (nowIso : String) :
    Change store
      (store.recordReveal round hotkey bundleJson nonceHex accepted rejectionCode nowIso).2 := by
  simp only [recordReveal]
  generalize (if accepted = true then SubmissionVerdict.accepted else .rejected) = verdict
  by_cases isOpen : store.roundState round = some .open
  · rw [if_neg (not_not.mpr isOpen)]
    cases found : store.submissions.get? (round, hotkey) with
    | none =>
      refine .submitted round hotkey _ isOpen ⟨fun _ _ => ⟨rfl, rfl⟩, fun earlier present => ?_⟩
      cases found.symm.trans present
    | some row =>
      simp only
      split
      · exact .unchanged
      next undecided =>
        split
        · exact .unchanged
        · refine .submitted round hotkey _ isOpen ⟨fun _ _ => ⟨rfl, rfl⟩,
            fun earlier present => ?_⟩
          cases found.symm.trans present
          exact fun taken => absurd taken undecided
  · rw [if_pos isOpen]
    exact .unchanged

/-! Only a publication writes consensus rows. -/

theorem openRound_consensus {windows : RoundWindows} {schemaId : String}
    {snapshot : Option UniverseSnapshot} {publicationAvailableAt : Option ℤ}
    (done : store.openRound windows schemaId snapshot nowIso publicationAvailableAt = .ok later) :
    later.consensus = store.consensus := by
  grind [openRound]

theorem recordCommit_consensus (store : Store) (round : RoundKey) (hotkey : Hotkey)
    (bundleHash nowIso : String) (maxCommits : Option ℕ) :
    (store.recordCommit round hotkey bundleHash nowIso maxCommits).2.consensus =
      store.consensus := by
  grind [recordCommit]

theorem recordRevealAttempt_consensus (store : Store) (round : RoundKey) (hotkey : Hotkey)
    (maxReveals : Option ℕ) :
    (store.recordRevealAttempt round hotkey maxReveals).2.consensus = store.consensus := by
  grind [recordRevealAttempt]

theorem recordReveal_consensus (store : Store) (round : RoundKey) (hotkey : Hotkey)
    (bundleJson nonceHex : String) (accepted : Bool) (rejectionCode : Option String)
    (nowIso : String) :
    (store.recordReveal round hotkey bundleJson nonceHex accepted rejectionCode nowIso).2.consensus =
      store.consensus := by
  grind [recordReveal]

/-- Freezing and then moving a round past the embargo advances it. -/
theorem setRoundState_advanced {state : RoundState} (postOpen : state ≠ .open)
    (unfrozen : store.roundState round = some .open →
      ∀ hotkey, store.frozenBundle round hotkey = none)
    (done : store.setRoundState round state nowIso = .ok later) :
    Advanced store round later ∧ later.consensus = store.consensus := by
  rw [setRoundState, if_neg postOpen] at done
  cases attempt : store.snapshotConsensusBundlesIfOpen round nowIso with
  | error raised => simp only [attempt, reduceCtorEq] at done
  | ok outcome =>
    obtain ⟨bundles, frozen⟩ := outcome
    simp only [attempt, Except.ok.injEq] at done
    obtain ⟨⟨snapshots, rfl⟩, -, wrote⟩ := snapshotConsensusBundlesIfOpen_eq_ok unfrozen attempt
    subst done
    refine ⟨{
      submissions := rfl
      universes := rfl
      windows := fun other => roundWindows_updateState state other
      others := fun other elsewhere => by rw [roundState_updateState, if_neg elsewhere]; rfl
      closed := roundState_updateState_ne_open postOpen
      frozen := wrote
      consensus := fun _ _ => rfl
      consensus_others := fun _ _ => rfl }, rfl⟩

/-- A publication advances its round. -/
theorem publish_advanced
    {callback : List (Hotkey × Option String) → Option (List AssessmentConsensusRow)}
    {bundles : List (Hotkey × Option String)} {rows : List AssessmentConsensusRow}
    (unfrozen : store.roundState round = some .open →
      ∀ hotkey, store.frozenBundle round hotkey = none)
    (done : store.publishAssessmentConsensusFromAcceptedBundlesAndReveal round callback nowIso =
      .ok ((bundles, rows), later)) :
    Advanced store round later ∧ bundles = later.consensusBundles round ∧
      callback bundles = some rows ∧
      (store.consensusRows round = [] → later.consensusRows round = rows ∧
        (rows ≠ [] → store.roundState round ≠ none)) := by
  rw [publishAssessmentConsensusFromAcceptedBundlesAndReveal] at done
  cases attempt : store.snapshotConsensusBundlesIfOpen round nowIso with
  | error raised => simp only [attempt, reduceCtorEq] at done
  | ok outcome =>
    obtain ⟨taken, frozen⟩ := outcome
    simp only [attempt] at done
    cases called : callback taken with
    | none => simp only [called, reduceCtorEq] at done
    -- freeze, insert and flip are one transaction: none of them fails alone
    | some made =>
      simp only [called] at done
      cases inserted : frozen.insertAssessmentConsensusIfAbsent round made with
      | error raised => simp only [inserted, reduceCtorEq] at done
      | ok published =>
        simp only [inserted, Except.ok.injEq, Prod.mk.injEq] at done
        obtain ⟨⟨rfl, rfl⟩, rfl⟩ := done
        obtain ⟨⟨snapshots, rfl⟩, read, wrote⟩ :=
          snapshotConsensusBundlesIfOpen_eq_ok unfrozen attempt
        obtain ⟨⟨consensus, rfl⟩, elsewhere, kept, first⟩ :=
          insertAssessmentConsensusIfAbsent_eq_ok inserted
        have notOpen : (flipRoundRevealed { store with snapshots, consensus } round
            nowIso).roundState round ≠ some .open := roundState_flipRoundRevealed_ne_open
        obtain ⟨rounds, shape, windows, others⟩ :=
          flipRoundRevealed_eq { store with snapshots, consensus } round nowIso
        rw [shape] at notOpen windows others
        rw [shape]
        refine ⟨{
          submissions := rfl
          universes := rfl
          windows
          others
          closed := notOpen
          frozen := wrote
          consensus := fun other present => ?_
          consensus_others := elsewhere }, read, called, first⟩
        by_cases here : other = round
        · subst here
          exact kept present
        · exact elsewhere other here

end Transactions

end Store

end Endure.Storage
