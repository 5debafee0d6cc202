import Endure.Protocol.Timestamps
import Endure.Publication.Api

/-!
# The embargo

What the app answers does not depend on what the rounds hold whose embargo is not over. The gate of
the endpoints about one round, the queries behind the feed and the metadata of a round each see to
it in their own way.
-/

namespace Endure.Publication

open Library Library.Checked Endure.Storage Endure.Scoring Endure.Protocol

/-- The embargoes of some rounds are not over. -/
def Embargoed (store : Store) (hidden : Finset RoundKey) (now : ℤ) : Prop :=
  ∀ round ∈ hidden, ∀ row, store.rounds.get? round = some row →
    ¬(row.state ≠ .open ∧ row.publicationAvailableAt < now)

/-- Two states that are equal but for the submissions, consensus, targets and scores of some
rounds. -/
structure Alike (hidden : Finset RoundKey) (left right : FeedState) : Prop where
  rounds : left.store.rounds = right.store.rounds
  universes : left.store.universes = right.store.universes
  submissions : left.store.submissions.filter (fun key _ => key.1 ∉ hidden) =
    right.store.submissions.filter fun key _ => key.1 ∉ hidden
  consensus : left.store.consensus.filter (fun key _ => key.1 ∉ hidden) =
    right.store.consensus.filter fun key _ => key.1 ∉ hidden
  targets : left.tables.realizedTargets.filter (fun key _ => riskRound key.1 ∉ hidden) =
    right.tables.realizedTargets.filter fun key _ => riskRound key.1 ∉ hidden
  history : left.tables.scoreHistory.filter (fun key _ => riskRound key.1 ∉ hidden) =
    right.tables.scoreHistory.filter fun key _ => riskRound key.1 ∉ hidden
  averages : left.tables.emaStates = right.tables.emaStates
  markers : left.tables.horizonResolutions = right.tables.horizonResolutions

variable {hidden : Finset RoundKey} {left right : FeedState} {now : ℤ} {round : RoundKey}
  {roundId : String}

theorem Alike.embargoed (alike : Alike hidden left right)
    (embargoed : Embargoed left.store hidden now) : Embargoed right.store hidden now := by
  rw [Embargoed, ← alike.rounds]
  exact embargoed

/-! ### Rows of rounds that are shown -/

theorem Alike.acceptedBundles (alike : Alike hidden left right) (shown : round ∉ hidden) :
    left.store.acceptedBundles round = right.store.acceptedBundles round := by
  refine Dict.select_eq_of_filter_eq alike.submissions fun key row own => ?_
  rw [Store.acceptedPair, if_neg]
  rintro ⟨rfl, -⟩
  exact of_decide_eq_false own shown

theorem Alike.consensusFor (alike : Alike hidden left right) (shown : round ∉ hidden) :
    assessmentConsensusFor left.store round = assessmentConsensusFor right.store round := by
  refine congrArg (fun table : Dict (RoundKey × Coordinate) AssessmentConsensusRow =>
    table.values.insertionSort _) (Dict.filter_eq_of_filter_eq alike.consensus
      fun key row own => ?_)
  rw [of_decide_eq_true own]
  exact decide_eq_true shown

theorem Alike.targetsFor (alike : Alike hidden left right) (shown : riskRound roundId ∉ hidden) :
    assessmentRealizedTargetsFor left.tables roundId =
      assessmentRealizedTargetsFor right.tables roundId := by
  refine congrArg (fun table : Dict (String × Coordinate) AssessmentRealizedTarget =>
    table.values.insertionSort _) (Dict.filter_eq_of_filter_eq alike.targets fun key row own => ?_)
  rw [of_decide_eq_true own]
  exact decide_eq_true shown

theorem Alike.historyFor (alike : Alike hidden left right) (shown : riskRound roundId ∉ hidden) :
    assessmentScoreHistoryForRound left.tables roundId =
      assessmentScoreHistoryForRound right.tables roundId := by
  have rows : left.tables.scoreHistory.filter (fun key _ => key.1 = roundId) =
      right.tables.scoreHistory.filter fun key _ => key.1 = roundId := by
    refine Dict.filter_eq_of_filter_eq alike.history fun key row own => ?_
    rw [of_decide_eq_true own]
    exact decide_eq_true shown
  rw [assessmentScoreHistoryForRound, assessmentScoreHistoryForRound, rows]

theorem Alike.roundMeta (alike : Alike hidden left right) (shown : round ∉ hidden) :
    roundMeta left.store round = roundMeta right.store round := by
  have accepted : left.store.submissions.filter
      (fun key row => key.1 = round ∧ row.verdict = .accepted) =
        right.store.submissions.filter
          fun key row => key.1 = round ∧ row.verdict = .accepted := by
    refine Dict.filter_eq_of_filter_eq alike.submissions fun key row own => ?_
    rw [(of_decide_eq_true own).1]
    exact decide_eq_true shown
  unfold Publication.roundMeta
  simp only
  rw [alike.rounds, Store.universeFor, alike.universes, Store.universeFor, accepted]

/-- The metadata of any round, but for who has revealed. -/
theorem Alike.roundMetaBut (alike : Alike hidden left right) (round : RoundKey) :
    (roundMetaOr404 left.store round).map ({ · with acceptedSubmissions := none }) =
      (roundMetaOr404 right.store round).map ({ · with acceptedSubmissions := none }) := by
  unfold roundMetaOr404 Publication.roundMeta
  rw [alike.rounds, Store.universeFor, alike.universes, Store.universeFor]
  cases right.store.rounds.get? round <;> rfl

/-! ### The gate -/

theorem pastEmbargo_eq (store : Store) (round : RoundKey) (now : ℤ) :
    pastEmbargo store round now =
      match store.rounds.get? round with
      | none => .error ⟨404, "unknown round"⟩
      | some row =>
        if row.state ≠ .open then
          if row.publicationAvailableAt < now then .ok ()
          else .error ⟨403, "round data remains embargoed until the next commit window closes"⟩
        else .error ⟨403, stillOpen⟩ := by
  rw [pastEmbargo, roundMetaOr404, roundMeta]
  cases store.rounds.get? round with
  | none => rfl
  | some row =>
    change ensureEmbargoLifted _ now = _
    by_cases isOpen : row.state = .open
    · simp [ensureEmbargoLifted, isOpen]
    · simp [ensureEmbargoLifted, embargoLifted, isOpen]

theorem shown_of_pastEmbargo {store : Store} (embargoed : Embargoed store hidden now)
    (lifted : pastEmbargo store round now = .ok ()) : round ∉ hidden := by
  intro member
  rw [pastEmbargo_eq] at lifted
  split at lifted
  · cases lifted
  next row found =>
    split at lifted
    next past =>
      split at lifted
      next available => exact embargoed round member row found ⟨past, available⟩
      · cases lifted
    · cases lifted

/-- The metadata of a round does not lift its embargo. -/
theorem not_embargoLifted {store : Store} (embargoed : Embargoed store hidden now)
    (member : round ∈ hidden) {row : RoundMeta} (found : roundMetaOr404 store round = .ok row) :
    embargoLifted row now = false := by
  rw [roundMetaOr404, roundMeta] at found
  cases held : store.rounds.get? round with
  | none =>
    rw [held] at found
    cases found
  | some stored =>
    rw [held] at found
    cases found
    exact decide_eq_false (embargoed round member stored held)

/-- An endpoint behind the gate. -/
theorem Alike.gated (alike : Alike hidden left right) (embargoed : Embargoed left.store hidden now)
    {answer answer' : Except HttpException ApiPayload}
    (same : round ∉ hidden → answer = answer') :
    (do pastEmbargo left.store round now; answer) =
      (do pastEmbargo right.store round now; answer') := by
  have gate : pastEmbargo right.store round now = pastEmbargo left.store round now := by
    rw [pastEmbargo_eq, pastEmbargo_eq, alike.rounds]
  rw [gate]
  cases passed : pastEmbargo left.store round now with
  | error raised => rfl
  | ok _ => exact same (shown_of_pastEmbargo embargoed passed)

/-! ### The feed -/

/-- A round of the feed's queries is not an embargoed one. -/
theorem shown_of_postEmbargo {store : Store} (embargoed : Embargoed store hidden now)
    {schemaId : String} (past : roundId ∈ postEmbargoRounds store schemaId now) :
    (⟨roundId, schemaId⟩ : RoundKey) ∉ hidden := by
  intro member
  obtain ⟨⟨_, schemaId'⟩, listed, rfl⟩ := List.mem_map.mp past
  obtain ⟨row, found⟩ := Dict.mem_keys_iff.mp listed
  rw [Dict.get?_filter, Option.filter_eq_some_iff, decide_eq_true_iff] at found
  obtain ⟨held, rfl, conditions⟩ := found
  exact embargoed _ member row held conditions

theorem Alike.postEmbargoRounds (alike : Alike hidden left right) (schemaId : String) (now : ℤ) :
    postEmbargoRounds left.store schemaId now = postEmbargoRounds right.store schemaId now := by
  rw [Publication.postEmbargoRounds, Publication.postEmbargoRounds, alike.rounds]

theorem Alike.latestRound (alike : Alike hidden left right)
    (embargoed : Embargoed left.store hidden now) (schemaId : String) :
    latestAssessmentConsensusRound left.store schemaId now =
      latestAssessmentConsensusRound right.store schemaId now := by
  rw [latestAssessmentConsensusRound, latestAssessmentConsensusRound,
    ← alike.postEmbargoRounds schemaId now]
  refine congrArg (fun table : Dict (RoundKey × Coordinate) AssessmentConsensusRow =>
    (table.keys.map (·.1.roundId)).max?) (Dict.filter_eq_of_filter_eq alike.consensus
      fun key row own => ?_)
  obtain ⟨rfl, past⟩ := of_decide_eq_true own
  exact decide_eq_true (shown_of_postEmbargo embargoed past)

theorem Alike.joinedTargets (alike : Alike hidden left right)
    (embargoed : Embargoed left.store hidden now) (horizonValue : ℕ) (outputs : List String) :
    joinedTargets left.store left.tables riskSchemaId horizonValue outputs now =
      joinedTargets right.store right.tables riskSchemaId horizonValue outputs now := by
  -- whether a round that is shown has a consensus row
  have joins (key : String × Coordinate) (shown : riskRound key.1 ∉ hidden) :
      left.store.consensus.contains (⟨key.1, riskSchemaId⟩, key.2) =
        right.store.consensus.contains (⟨key.1, riskSchemaId⟩, key.2) :=
    congrArg Option.isSome
      (Dict.get?_eq_of_filter_eq alike.consensus fun _ => decide_eq_true shown)
  rw [Publication.joinedTargets, Publication.joinedTargets,
    ← alike.postEmbargoRounds riskSchemaId now]
  refine congrArg Dict.keys (Eq.trans (Dict.filter_congr fun entry _ => ?_)
    (Dict.filter_eq_of_filter_eq alike.targets fun key row own => ?_))
  · by_cases past : entry.1.1 ∈ Publication.postEmbargoRounds left.store riskSchemaId now
    · rw [joins entry.1 (shown_of_postEmbargo embargoed past)]
    · simp [past]
  · exact decide_eq_true (shown_of_postEmbargo embargoed (of_decide_eq_true own).2.2.2.2.2.2)

/-- The tier rounds are past their embargo. -/
theorem postEmbargo_of_tierRounds {store : Store} {tables : AssessmentTables}
    {rounds : Dict ℕ String} (read : tierRoundsByNetuid store tables now = .ok rounds)
    (listed : roundId ∈ rounds.values) : roundId ∈ postEmbargoRounds store riskSchemaId now := by
  obtain ⟨every, latest, rfl⟩ := map_eq_ok.mp read
  obtain ⟨netuid, found, -⟩ := Dict.mem_values_filter.mp listed
  rw [latestAssessmentRoundsWithResolvedOutputs, if_neg (by decide)] at latest
  obtain ⟨rows, made, done⟩ := bind_eq_ok.mp latest
  cases done
  obtain ⟨targetId, member, built⟩ := exists_item made (Dict.mem_of_get?_ofEntries found)
  obtain ⟨_, -, row⟩ := bind_eq_ok.mp built
  cases row
  -- the group of a target is not empty, so its greatest round is one of the group's
  set groups := completeTargetRounds (joinedTargets store tables riskSchemaId horizon30dSeconds
    tierOutputs.dedup now) tierOutputs.dedup with hgroups
  obtain ⟨group, inside, same⟩ :=
    List.mem_map.mp (List.mem_dedup.mp ((List.mem_insertionSort _).mp member))
  have kept : group ∈ groups.filter (·.1 = targetId) :=
    List.mem_filter.mpr ⟨inside, decide_eq_true same⟩
  cases greatest : ((groups.filter (·.1 = targetId)).map Prod.snd).max? with
  | none =>
    rw [List.max?_eq_none_iff] at greatest
    exact absurd (List.mem_map_of_mem kept) (by rw [greatest]; exact List.not_mem_nil)
  | some roundId =>
    obtain ⟨best, among, rfl⟩ := List.mem_map.mp (List.max?_mem greatest)
    have joined := (List.mem_filter.mp (List.mem_filter.mp among).1).1
    obtain ⟨key, target, rfl⟩ := List.mem_map.mp (List.mem_dedup.mp joined)
    obtain ⟨_, held⟩ := Dict.mem_keys_iff.mp target
    rw [Dict.get?_filter, Option.filter_eq_some_iff, decide_eq_true_iff] at held
    exact held.2.2.2.2.2.2.2

theorem Alike.revealCloseAt (alike : Alike hidden left right) (roundId : String) :
    revealCloseAt left.store roundId = revealCloseAt right.store roundId := by
  rw [Publication.revealCloseAt, Publication.revealCloseAt, alike.rounds]

theorem Alike.resolvedOutputs (alike : Alike hidden left right)
    (shown : riskRound roundId ∉ hidden) :
    resolvedThirtyDayOutputs left.tables roundId =
      resolvedThirtyDayOutputs right.tables roundId := by
  refine congrArg (fun table : Dict (String × Coordinate) AssessmentRealizedTarget =>
    table.keys.map Prod.snd) (Dict.filter_eq_of_filter_eq alike.targets fun key row own => ?_)
  rw [(of_decide_eq_true own).1]
  exact decide_eq_true shown

theorem Alike.tierFeedContext (alike : Alike hidden left right)
    (embargoed : Embargoed left.store hidden now) {rounds : Dict ℕ String}
    (read : tierRoundsByNetuid left.store left.tables now = .ok rounds) :
    tierFeedContext left.store left.tables rounds =
      tierFeedContext right.store right.tables rounds := by
  have shown : ∀ roundId ∈ rounds.values.dedup.insertionSort (· ≤ ·),
      riskRound roundId ∉ hidden := fun roundId listed =>
    shown_of_postEmbargo embargoed (postEmbargo_of_tierRounds read
      (List.mem_dedup.mp ((List.mem_insertionSort _).mp listed)))
  have rows : ∀ roundId ∈ rounds.values.dedup.insertionSort (· ≤ ·),
      (rowsByNetuid (assessmentConsensusFor left.store (riskRound roundId))).map (roundId, ·) =
        (rowsByNetuid (assessmentConsensusFor right.store (riskRound roundId))).map
          (roundId, ·) := by
    intro roundId listed
    rw [alike.consensusFor (shown roundId listed)]
  have outputs : (rounds.values.dedup.insertionSort (· ≤ ·)).map
      (fun roundId => (roundId, resolvedThirtyDayOutputs left.tables roundId)) =
        (rounds.values.dedup.insertionSort (· ≤ ·)).map
          fun roundId => (roundId, resolvedThirtyDayOutputs right.tables roundId) :=
    List.map_congr_left fun roundId listed =>
      congrArg (Prod.mk roundId) (alike.resolvedOutputs (shown roundId listed))
  unfold Publication.tierFeedContext
  simp only [alike.revealCloseAt, outputs]
  rw [mapM_congr rows]

/-- The feed reads nothing of an embargoed round. -/
theorem Alike.feedPayload (alike : Alike hidden left right)
    (embargoed : Embargoed left.store hidden now) :
    feedPayload left.store left.tables now = feedPayload right.store right.tables now := by
  have latest := alike.latestRound embargoed riskSchemaId
  have consensus : (latestAssessmentConsensusRound right.store riskSchemaId now).map
      (fun roundId => assessmentConsensusFor left.store (riskRound roundId)) =
        (latestAssessmentConsensusRound right.store riskSchemaId now).map
          fun roundId => assessmentConsensusFor right.store (riskRound roundId) := by
    cases found : latestAssessmentConsensusRound right.store riskSchemaId now with
    | none => rfl
    | some roundId =>
      -- the newest consensus round is past its embargo, so its rows are shown
      obtain ⟨key, listed, rfl⟩ := List.mem_map.mp (List.max?_mem (latest.trans found))
      obtain ⟨_, held⟩ := Dict.mem_keys_iff.mp listed
      rw [Dict.get?_filter, Option.filter_eq_some_iff, decide_eq_true_iff] at held
      exact congrArg some (alike.consensusFor (shown_of_postEmbargo embargoed held.2.2))
  have members (roundId : Option String) :
      netuidsFromUniverse left.store roundId = netuidsFromUniverse right.store roundId := by
    cases roundId with
    | none => rfl
    | some roundId =>
      have same : left.store.universeFor (riskRound roundId) =
          right.store.universeFor (riskRound roundId) := by
        rw [Store.universeFor, alike.universes, Store.universeFor]
      rw [netuidsFromUniverse, netuidsFromUniverse, same]
  have tierRounds : tierRoundsByNetuid left.store left.tables now =
      tierRoundsByNetuid right.store right.tables now := by
    rw [tierRoundsByNetuid, tierRoundsByNetuid, latestAssessmentRoundsWithResolvedOutputs,
      latestAssessmentRoundsWithResolvedOutputs, alike.joinedTargets embargoed]
  unfold Publication.feedPayload
  simp only [latest, consensus, members, ← tierRounds, alike.revealCloseAt]
  -- the rounds of the tiers are shown too, and the rest reads rows of them
  refine bind_congr fun members => ?_
  cases read : tierRoundsByNetuid left.store left.tables now with
  | error raised => rfl
  | ok rounds =>
    change (Publication.tierFeedContext left.store left.tables rounds >>= _) =
      (Publication.tierFeedContext right.store right.tables rounds >>= _)
    rw [alike.tierFeedContext embargoed read]

/-! ### Every endpoint -/

/-- No answer reads what an embargoed round holds. -/
theorem Alike.respond (alike : Alike hidden left right)
    (embargoed : Embargoed left.store hidden now) (context : ApiContext) (request : ApiRequest) :
    respond context now request left = respond context now request right := by
  have unfinished : unfinishedRounds left.store riskSchemaId =
      unfinishedRounds right.store riskSchemaId := by
    rw [unfinishedRounds, unfinishedRounds, alike.rounds]
  have averages : assessmentEmaStates left.tables = assessmentEmaStates right.tables := by
    rw [assessmentEmaStates, assessmentEmaStates, alike.averages]
  cases request with
  | health =>
    have progress : unfinishedAssessmentResolutionProgress left.store left.tables riskSchemaId =
        unfinishedAssessmentResolutionProgress right.store right.tables riskSchemaId := by
      rw [unfinishedAssessmentResolutionProgress, unfinishedAssessmentResolutionProgress,
        unfinished, alike.rounds, alike.markers]
    refine congrArg Except.ok ?_
    rw [health, health, unfinished, progress]
  | rounds wanted limit before =>
    refine congrArg (fun rows => Except.ok (ApiPayload.rounds rows)) ?_
    rw [listRounds, listRounds, alike.rounds]
  | miners =>
    have board (payout : Option Payout) :
        assessmentLeaderboard left.tables context.activeCoordinates payout =
          assessmentLeaderboard right.tables context.activeCoordinates payout := by
      unfold assessmentLeaderboard
      rw [averages]
    unfold Publication.respond
    simp only [board]
  | round roundId =>
    refine bind_eq_of_map_eq (alike.roundMetaBut (riskRound roundId))
      fun row row' first second same => ?_
    by_cases member : riskRound roundId ∈ hidden
    · -- the row is the same but for who has revealed, which is blanked
      rw [not_embargoLifted embargoed member first,
        not_embargoLifted (alike.embargoed embargoed) member second]
      exact congrArg (fun row => Except.ok (ApiPayload.round row)) same
    · have all : roundMetaOr404 left.store (riskRound roundId) =
          roundMetaOr404 right.store (riskRound roundId) := by
        rw [roundMetaOr404, roundMetaOr404, alike.roundMeta member]
      cases first.symm.trans (all.trans second)
      rfl
  | roundUniverse roundId =>
    refine bind_eq_of_map_eq (alike.roundMetaBut (riskRound roundId)) fun _ _ _ _ _ => ?_
    rw [Store.universeFor, alike.universes]
    rfl
  -- behind the gate only rounds are read whose rows agree
  | scores roundId =>
    refine alike.gated embargoed fun shown => ?_
    rw [alike.historyFor shown]
  | consensus roundId =>
    refine alike.gated embargoed fun shown => ?_
    rw [alike.consensusFor shown]
  | submissions roundId limit offset =>
    refine alike.gated embargoed fun shown => ?_
    have page (limit offset : ℕ) : acceptedBundlesPage left.store (riskRound roundId) limit offset =
        acceptedBundlesPage right.store (riskRound roundId) limit offset := by
      rw [acceptedBundlesPage, acceptedBundlesPage, alike.acceptedBundles shown]
    simp only [page]
  | outcomes roundId =>
    refine alike.gated embargoed fun shown => ?_
    rw [alike.targetsFor shown]
  | minerScores hotkey =>
    unfold Publication.respond
    rw [averages]
  | riskSubnets =>
    unfold Publication.respond
    rw [alike.feedPayload embargoed]

/-- The rounds whose embargo is not over. -/
def underEmbargo (store : Store) (now : ℤ) : Finset RoundKey :=
  (store.rounds.filter fun _ row =>
    ¬(row.state ≠ .open ∧ row.publicationAvailableAt < now)).keys.toFinset

/-- The embargoes of the rounds under embargo are not over. -/
theorem embargoed_underEmbargo (store : Store) (now : ℤ) :
    Embargoed store (underEmbargo store now) now := by
  intro round member row found
  obtain ⟨row', held⟩ := Dict.mem_keys_iff.mp (List.mem_toFinset.mp member)
  rw [Dict.get?_filter, found, Option.filter_eq_some_iff] at held
  obtain ⟨same, closed⟩ := held
  cases same
  exact of_decide_eq_true closed

/-- Two states that differ only in what the rounds under embargo hold give every request the same
answer. -/
theorem embargo_hides_rounds (alike : Alike (underEmbargo left.store now) left right)
    (context : ApiContext) (request : ApiRequest) :
    respond context now request left = respond context now request right :=
  alike.respond (embargoed_underEmbargo left.store now) context request

/-- A revealed round before its publication. -/
def embargoedRound (submissions : Dict (RoundKey × Hotkey) SubmissionRow) : FeedState where
  store := { Store.empty with
    rounds := Dict.empty.set (riskRound "2026-01-02") ⟨.revealed, true, false,
      ⟨"2026-01-02", 0, 10, 10, 10, 20⟩, 30, "2026-01-02T00:00:00+00:00",
      "2026-01-02T08:00:00+00:00"⟩
    submissions }
  tables := AssessmentTables.empty

/-- A bundle that a miner has revealed is not served. -/
theorem embargo_hides_rounds_accepted :
    respond ⟨none, none, none⟩ 25 (.submissions "2026-01-02" 50 0)
        (embargoedRound (Dict.empty.set (riskRound "2026-01-02", "miner")
          ⟨some "hash", 1, 1, some "nonce", none, none, some "bundle", .accepted, none⟩)) =
      respond ⟨none, none, none⟩ 25 (.submissions "2026-01-02" 50 0)
        (embargoedRound Dict.empty) :=
  embargo_hides_rounds ⟨rfl, rfl, Dict.eq_of_entries (by decide +kernel), rfl, rfl, rfl, rfl, rfl⟩
    _ _

/-! ### One embargo on every path -/

/-- **Embargo noninterference.** Nothing that the rounds under embargo hold shows in an answer; and
the texts that the feed's queries compare and the instants that the gate compares are in one order,
so both paths lift an embargo at the same instant. -/
theorem embargo_noninterference :
    (∀ left right now, Alike (underEmbargo left.store now) left right → ∀ context request,
      respond context now request left = respond context now request right) ∧
    ∀ available now, IsDatetime available → IsDatetime now →
      (availableByText (isoformatUtc available) (isoformatUtc now) = true ↔ available < now) ∧
      (availableByInstant (isoformatUtc available) now = true ↔ available < now) := by
  constructor
  · intro left right now alike context request
    exact alike.respond (embargoed_underEmbargo left.store now) context request
  · intro available now stored asked
    exact ⟨availableByText_iff stored asked, availableByInstant_iff stored⟩

/-- What the feed serves does not depend on a reveal under embargo, and an embargo that ends on a
whole second is over a microsecond later. -/
theorem embargo_noninterference_revealed :
    respond ⟨none, none, none⟩ 25 .riskSubnets
        (embargoedRound (Dict.empty.set (riskRound "2026-01-02", "miner")
          ⟨some "hash", 1, 1, some "nonce", none, none, some "bundle", .accepted, none⟩)) =
      respond ⟨none, none, none⟩ 25 .riskSubnets (embargoedRound Dict.empty) ∧
    ¬availableByText (isoformatUtc 63918360000000000) (isoformatUtc 63918360000000000) = true ∧
    availableByText (isoformatUtc 63918360000000000) (isoformatUtc 63918360000000001) = true ∧
    availableByInstant (isoformatUtc 63918360000000000) 63918360000000001 = true := by
  obtain ⟨answers, lifts⟩ := embargo_noninterference
  have ends := lifts 63918360000000000 63918360000000000 ⟨by decide, by decide⟩
    ⟨by decide, by decide⟩
  have next := lifts 63918360000000000 63918360000000001 ⟨by decide, by decide⟩
    ⟨by decide, by decide⟩
  refine ⟨answers _ _ _ ⟨rfl, rfl, Dict.eq_of_entries (by decide +kernel), rfl, rfl, rfl, rfl, rfl⟩
    _ _, fun early => ?_, next.1.mpr (by decide), next.2.mpr (by decide)⟩
  exact absurd (ends.1.mp early) (by decide)

end Endure.Publication
