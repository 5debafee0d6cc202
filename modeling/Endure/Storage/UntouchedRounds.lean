import Endure.Storage.RoundRuns

/-!
# Rounds that a transaction leaves as they are

A transaction touches the rows of one round. A round that has left the open state is touched only
by a transaction that sets its own state or publishes it.
-/

namespace Endure.Storage

open Library Library.Checked Endure.Scoring

/-- The place of a state in a round's life. -/
def RoundState.rank : RoundState → ℕ
  | .open => 0
  | .revealed => 1
  | .partiallyScored => 2
  | .closed => 3

namespace Store

/-- Everything that is stored of a round is as it was. -/
structure Untouched (store : Store) (round : RoundKey) (later : Store) : Prop where
  row : later.rounds.get? round = store.rounds.get? round
  universeRow : later.universeFor round = store.universeFor round
  submissions : ∀ hotkey,
    later.submissions.get? (round, hotkey) = store.submissions.get? (round, hotkey)
  frozen : ∀ hotkey, later.frozenBundle round hotkey = store.frozenBundle round hotkey
  consensus : later.consensusRows round = store.consensusRows round

theorem Untouched.refl (store : Store) (round : RoundKey) : store.Untouched round store :=
  ⟨rfl, rfl, fun _ => rfl, fun _ => rfl, rfl⟩

theorem Untouched.trans {first second third : Store} {round : RoundKey}
    (left : first.Untouched round second) (right : second.Untouched round third) :
    first.Untouched round third where
  row := right.row.trans left.row
  universeRow := right.universeRow.trans left.universeRow
  submissions hotkey := (right.submissions hotkey).trans (left.submissions hotkey)
  frozen hotkey := (right.frozen hotkey).trans (left.frozen hotkey)
  consensus := right.consensus.trans left.consensus

theorem Untouched.roundState {store later : Store} {round : RoundKey}
    (same : store.Untouched round later) : later.roundState round = store.roundState round := by
  rw [Store.roundState, Store.roundState, same.row]

variable {store later : Store} {round other : RoundKey} {nowIso : String}

/-! ### One transaction -/

theorem get?_rounds_updateState (state : RoundState) (elsewhere : other ≠ round) :
    (store.updateState round state nowIso).rounds.get? other = store.rounds.get? other := by
  rw [updateState, Dict.get?_map]
  simp [elsewhere]

/-- Opening a round leaves those that exist. -/
theorem untouched_openRound {windows : RoundWindows} {schemaId : String}
    {snapshot : Option UniverseSnapshot} {publicationAvailableAt : Option ℤ}
    (stored : store.roundState other ≠ none)
    (done : store.openRound windows schemaId snapshot nowIso publicationAvailableAt = .ok later) :
    store.Untouched other later := by
  have present : store.rounds.get? other ≠ none := by
    rwa [roundState, ne_eq, Option.map_eq_none_iff] at stored
  rw [openRound] at done
  split at done
  · cases done
  split at done
  · cases done
    exact .refl store other
  next fresh =>
    rw [Option.not_isSome_iff_eq_none] at fresh
    have elsewhere : other ≠ ⟨windows.roundId, schemaId⟩ := by
      rintro rfl
      exact present fresh
    split at done
    · cases done
      exact ⟨by simp [elsewhere], rfl, fun _ => rfl, fun _ => rfl, rfl⟩
    · split at done
      · cases done
      · cases done
        exact ⟨by simp [elsewhere], by simp [universeFor, elsewhere], fun _ => rfl, fun _ => rfl,
          rfl⟩

/-- A submission to an open round leaves those that are not open. -/
theorem untouched_submission {hotkey : Hotkey} {row : SubmissionRow}
    (isOpen : store.roundState round = some .open) (notOpen : store.roundState other ≠ some .open) :
    store.Untouched other
      { store with submissions := store.submissions.set (round, hotkey) row } := by
  have elsewhere : other ≠ round := by
    rintro rfl
    exact notOpen isOpen
  exact ⟨rfl, rfl, fun name => by simp [elsewhere], fun _ => rfl, rfl⟩

theorem untouched_recordCommit (notOpen : store.roundState other ≠ some .open) (hotkey : Hotkey)
    (bundleHash : String) (maxCommits : Option ℕ) :
    store.Untouched other (store.recordCommit round hotkey bundleHash nowIso maxCommits).2 := by
  rw [recordCommit]
  split
  · exact .refl store other
  next isOpen =>
    rw [ne_eq, not_not] at isOpen
    split
    · split
      · exact untouched_submission isOpen notOpen
      · exact .refl store other
    · exact untouched_submission isOpen notOpen

theorem untouched_recordRevealAttempt (notOpen : store.roundState other ≠ some .open)
    (hotkey : Hotkey) (maxReveals : Option ℕ) :
    store.Untouched other (store.recordRevealAttempt round hotkey maxReveals).2 := by
  rw [recordRevealAttempt]
  split
  · split
    next admitted => exact untouched_submission admitted.2.1 notOpen
    · exact .refl store other
  · exact .refl store other

theorem untouched_recordReveal (notOpen : store.roundState other ≠ some .open) (hotkey : Hotkey)
    (bundleJson nonceHex : String) (accepted : Bool) (rejectionCode : Option String) :
    store.Untouched other
      (store.recordReveal round hotkey bundleJson nonceHex accepted rejectionCode nowIso).2 := by
  simp only [recordReveal]
  generalize (if accepted = true then SubmissionVerdict.accepted else .rejected) = verdict
  split
  · exact .refl store other
  next isOpen =>
    rw [ne_eq, not_not] at isOpen
    split
    · exact untouched_submission isOpen notOpen
    · split
      · exact .refl store other
      · split
        · exact .refl store other
        · exact untouched_submission isOpen notOpen

/-- An advance of one round leaves the others, when it leaves their rows. -/
theorem Advanced.untouched (advanced : Advanced store round later) (elsewhere : other ≠ round)
    (row : later.rounds.get? other = store.rounds.get? other) : store.Untouched other later where
  row := row
  universeRow := by rw [universeFor, advanced.universes, universeFor]
  submissions hotkey := by rw [advanced.submissions]
  frozen hotkey := by rw [advanced.frozen, if_neg fun both => elsewhere both.1]
  consensus := advanced.consensus_others other elsewhere

/-- Setting a round's state advances it to that state and leaves the others. -/
theorem setRoundState_spec {state : RoundState} (consistent : store.Consistent)
    (postOpen : state ≠ .open) (done : store.setRoundState round state nowIso = .ok later) :
    Advanced store round later ∧
      later.roundState round = (store.roundState round).map (fun _ => state) ∧
      ∀ other, other ≠ round → store.Untouched other later := by
  have advanced := (setRoundState_advanced postOpen
    (fun isOpen => consistent.open_unfrozen isOpen) done).1
  rw [setRoundState, if_neg postOpen] at done
  cases attempt : store.snapshotConsensusBundlesIfOpen round nowIso with
  | error raised => simp only [attempt, reduceCtorEq] at done
  | ok outcome =>
    obtain ⟨bundles, frozen⟩ := outcome
    simp only [attempt, Except.ok.injEq] at done
    obtain ⟨⟨snapshots, rfl⟩, -, -⟩ := snapshotConsensusBundlesIfOpen_eq_ok
      (fun isOpen => consistent.open_unfrozen isOpen) attempt
    subst done
    refine ⟨advanced, ?_, fun other elsewhere => advanced.untouched elsewhere ?_⟩
    · rw [roundState_updateState, if_pos rfl]
      rfl
    · exact get?_rounds_updateState state elsewhere

/-- A publication takes an open round to revealed and leaves the others. -/
theorem publish_spec
    {callback : List (Hotkey × Option String) → Option (List AssessmentConsensusRow)}
    {outcome : List (Hotkey × Option String) × List AssessmentConsensusRow}
    (consistent : store.Consistent)
    (done : store.publishAssessmentConsensusFromAcceptedBundlesAndReveal round callback nowIso =
      .ok (outcome, later)) :
    Advanced store round later ∧
      (store.roundState round = some .open → later.roundState round = some .revealed) ∧
      ∀ other, other ≠ round → store.Untouched other later := by
  have advanced := (publish_advanced (fun isOpen => consistent.open_unfrozen isOpen) done).1
  rw [publishAssessmentConsensusFromAcceptedBundlesAndReveal] at done
  cases attempt : store.snapshotConsensusBundlesIfOpen round nowIso with
  | error raised => simp only [attempt, reduceCtorEq] at done
  | ok taken =>
    obtain ⟨bundles, frozen⟩ := taken
    simp only [attempt] at done
    cases called : callback bundles with
    | none => simp only [called, reduceCtorEq] at done
    | some rows =>
      simp only [called] at done
      cases inserted : frozen.insertAssessmentConsensusIfAbsent round rows with
      | error raised => simp only [inserted, reduceCtorEq] at done
      | ok published =>
        simp only [inserted, Except.ok.injEq, Prod.mk.injEq] at done
        obtain ⟨-, rfl⟩ := done
        obtain ⟨⟨snapshots, rfl⟩, -, -⟩ := snapshotConsensusBundlesIfOpen_eq_ok
          (fun isOpen => consistent.open_unfrozen isOpen) attempt
        obtain ⟨⟨consensus, rfl⟩, -⟩ := insertAssessmentConsensusIfAbsent_eq_ok inserted
        refine ⟨advanced, fun isOpen => ?_, fun other elsewhere => advanced.untouched elsewhere ?_⟩
        -- neither the frozen list nor the consensus rows touch the state of the round
        · have same : roundState { store with snapshots, consensus } round = some .open := isOpen
          rw [flipRoundRevealed, if_pos same, roundState_updateState, if_pos rfl, same]
          rfl
        · rw [flipRoundRevealed]
          split
          · exact get?_rounds_updateState .revealed elsewhere
          · rfl

/-! Submissions write no round. -/

theorem recordCommit_rounds (store : Store) (round : RoundKey) (hotkey : Hotkey)
    (bundleHash nowIso : String) (maxCommits : Option ℕ) :
    (store.recordCommit round hotkey bundleHash nowIso maxCommits).2.rounds = store.rounds := by
  grind [recordCommit]

theorem recordRevealAttempt_rounds (store : Store) (round : RoundKey) (hotkey : Hotkey)
    (maxReveals : Option ℕ) :
    (store.recordRevealAttempt round hotkey maxReveals).2.rounds = store.rounds := by
  grind [recordRevealAttempt]

theorem recordReveal_rounds (store : Store) (round : RoundKey) (hotkey : Hotkey)
    (bundleJson nonceHex : String) (accepted : Bool) (rejectionCode : Option String)
    (nowIso : String) :
    (store.recordReveal round hotkey bundleJson nonceHex accepted rejectionCode nowIso).2.rounds =
      store.rounds := by
  grind [recordReveal]

/-- Opening a round leaves it open, unless it was there, and gives no other a state. -/
theorem roundState_openRound {windows : RoundWindows} {schemaId : String}
    {snapshot : Option UniverseSnapshot} {publicationAvailableAt : Option ℤ}
    (done : store.openRound windows schemaId snapshot nowIso publicationAvailableAt = .ok later) :
    later.roundState other = store.roundState other ∨
      other = ⟨windows.roundId, schemaId⟩ ∧ later.roundState other = some .open := by
  rw [openRound] at done
  split at done
  · cases done
  split at done
  · cases done
    exact .inl rfl
  split at done
  · cases done
    by_cases here : other = ⟨windows.roundId, schemaId⟩
    · exact .inr ⟨here, by simp [roundState, here]⟩
    · exact .inl (by simp [roundState, here])
  · split at done
    · cases done
    · cases done
      by_cases here : other = ⟨windows.roundId, schemaId⟩
      · exact .inr ⟨here, by simp [roundState, here]⟩
      · exact .inl (by simp [roundState, here])

end Store

end Endure.Storage
