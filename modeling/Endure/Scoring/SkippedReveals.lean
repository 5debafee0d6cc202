import Endure.Scoring.InterruptedScoring
import Endure.Storage.RoundRuns

/-!
# Skipped reveals

Two runs of transactions and scoring passes that differ only in that one hotkey is absent
from some rounds of the second. No average of the hotkey is larger there. Its blended score may be,
as the blend is a mean over the rows that the hotkey has.
-/

namespace Endure.Storage.Store

open Library Endure.Scoring

variable {store : Store} {hotkey name : Hotkey} {skipped : RoundKey → Bool} {round : RoundKey}

/-- The store without a hotkey's rows in the skipped rounds. -/
def without (store : Store) (hotkey : Hotkey) (skipped : RoundKey → Bool) : Store :=
  { store with
    submissions := store.submissions.filter fun key _ => ¬(key.2 = hotkey ∧ skipped key.1)
    snapshots := store.snapshots.filter fun key _ => ¬(key.2 = hotkey ∧ skipped key.1) }

theorem get?_submissions_without (round : RoundKey) (name : Hotkey) :
    (store.without hotkey skipped).submissions.get? (round, name) =
      if name = hotkey ∧ skipped round then none else store.submissions.get? (round, name) := by
  rw [without, Dict.get?_filter]
  by_cases erased : name = hotkey ∧ skipped round = true
  · simp [erased]
  · rw [if_neg erased]
    cases store.submissions.get? (round, name) <;> simp [erased]

theorem frozenBundle_without (round : RoundKey) (name : Hotkey) :
    (store.without hotkey skipped).frozenBundle round name =
      if name = hotkey ∧ skipped round then none else store.frozenBundle round name := by
  rw [frozenBundle, without, Dict.get?_filter, frozenBundle]
  by_cases erased : name = hotkey ∧ skipped round = true
  · simp [erased]
  · rw [if_neg erased]
    cases store.snapshots.get? (round, name) <;> simp [erased]

theorem acceptedBundle_without (round : RoundKey) (name : Hotkey) :
    (store.without hotkey skipped).acceptedBundle round name =
      if name = hotkey ∧ skipped round then none else store.acceptedBundle round name := by
  rw [acceptedBundle, get?_submissions_without, acceptedBundle]
  by_cases erased : name = hotkey ∧ skipped round = true
  · rw [if_pos erased, if_pos erased, Option.bind_none]
  · rw [if_neg erased, if_neg erased]

/-- Skipping keeps a store consistent. -/
theorem Consistent.without (consistent : store.Consistent) (hotkey : Hotkey)
    (skipped : RoundKey → Bool) : (store.without hotkey skipped).Consistent where
  complete round name row found := by
    rw [get?_submissions_without] at found
    split at found
    · cases found
    · exact consistent.complete round name row found
  unfrozen round name isOpen := by
    rw [frozenBundle_without, consistent.unfrozen round name isOpen, ite_self]
  frozen round name closed := by
    rw [frozenBundle_without, acceptedBundle_without, consistent.frozen round name closed]

/-- In a consistent store the scored bundles are the accepted ones. -/
theorem Consistent.scoringBundles_eq (consistent : store.Consistent) (round : RoundKey) :
    store.scoringBundles round = store.acceptedBundles round := by
  by_cases closed : store.IsClosed round
  · rw [scoringBundles_of_closed closed, consistent.consensusBundles_eq closed]
  · rw [scoringBundles]
    cases found : store.roundState round with
    | none => rfl
    | some state =>
      cases state with
      | «open» => rfl
      | revealed | partiallyScored | closed =>
        exact absurd ⟨_, found, fun same => by cases same⟩ closed

/-- The hotkey has an accepted reveal in a round. -/
def Accepted (store : Store) (round : RoundKey) (hotkey : Hotkey) : Prop :=
  ∃ row, store.submissions.get? (round, hotkey) = some row ∧ row.verdict = .accepted

theorem mem_assessmentHotkeysEligibleForRound {schemaId roundId : String} :
    hotkey ∈ store.assessmentHotkeysEligibleForRound schemaId roundId ↔
      ∃ earlier, earlier ≤ roundId ∧ store.Accepted ⟨earlier, schemaId⟩ hotkey := by
  rw [assessmentHotkeysEligibleForRound, List.mem_dedup, List.mem_map]
  constructor
  · rintro ⟨⟨⟨earlier, schema⟩, name⟩, member, rfl⟩
    obtain ⟨row, found⟩ := Dict.mem_keys_iff.mp member
    rw [Dict.get?_filter, Option.filter_eq_some_iff, decide_eq_true_iff] at found
    obtain ⟨found, rfl, accepted, before⟩ := found
    exact ⟨earlier, before, row, found, accepted⟩
  · rintro ⟨earlier, before, row, found, accepted⟩
    refine ⟨(⟨earlier, schemaId⟩, hotkey), Dict.mem_keys_iff.mpr ⟨row, ?_⟩, rfl⟩
    rw [Dict.get?_filter, found, Option.filter_some, if_pos (by simp [accepted, before])]

end Endure.Storage.Store

namespace Endure.Scoring

open Library Library.Checked Library.Fading Library.Transitions Endure.Storage

/-- Something that happens between the start of a run and its end. -/
inductive SeasonEvent
  | transaction (operation : RoundOperation)
  | pass (call : ScoringCall)

/-- The round store and the assessment tables. -/
structure Season where
  rounds : Store
  tables : AssessmentTables

namespace AssessmentScoringOrchestrator

variable (orchestrator : AssessmentScoringOrchestrator)

/-- What an event leaves when the passes read a view of the round store. -/
def happen (limits : Limits) (view : Store → Store) (event : SeasonEvent) (season : Season) :
    Season :=
  match event with
  | .transaction operation => { season with rounds := operation.apply limits season.rounds }
  | .pass call =>
    match orchestrator.resolveAndScore (view season.rounds) season.tables call with
    | .error _ => season
    | .ok (tables, _) => { season with tables }

/-- A run from nothing. -/
def season (limits : Limits) (view : Store → Store) (events : List SeasonEvent) : Season :=
  run (orchestrator.happen limits view) ⟨Store.empty, AssessmentTables.empty⟩ events

/-- A hotkey's blended score, zero when it has none. -/
def blendedScore (tables : AssessmentTables) (hotkey : Hotkey) : ℚ :=
  (orchestrator.blendedScores tables).getD hotkey 0

/-- Every skipped reveal comes after one that is kept. -/
def Later (rounds : Store) (hotkey : Hotkey) (skipped : RoundKey → Bool) : Prop :=
  ∀ roundId, rounds.Accepted ⟨roundId, orchestrator.config.schemaId⟩ hotkey →
    ∃ earlier, earlier ≤ roundId ∧ skipped ⟨earlier, orchestrator.config.schemaId⟩ = false ∧
      rounds.Accepted ⟨earlier, orchestrator.config.schemaId⟩ hotkey

/-- Every configured output is scored live. -/
def ScoresLive : Prop := ∀ output ∈ orchestrator.config.outputs, output.spec.scoredLive = true

/-- The resolvers answer about the coordinate they are asked for. -/
def AnswersOwn (call : ScoringCall) : Prop :=
  ∀ netuid output target, call.resolver netuid call.horizon output = .target target →
    target.coordinate = orchestrator.config.coordinateFor netuid call.horizon output

variable {orchestrator} {rounds : Store} {hotkey : Hotkey} {skipped : RoundKey → Bool}
  {roundId : String} {call : ScoringCall} {tables tables' : AssessmentTables}
  {limits : Limits} {view : Store → Store}

/-! ### What a skipping hotkey reveals -/

/-- A hotkey's accepted values are those of its accepted bundle. -/
theorem get?_acceptedValues (consistent : rounds.Consistent) (name : Hotkey) :
    (orchestrator.config.acceptedValues rounds roundId).get? name =
      (rounds.acceptedBundle ⟨roundId, orchestrator.config.schemaId⟩ name).bind
        orchestrator.config.bundleValues := by
  have listed : ∀ entry, entry ∈ ((rounds.scoringBundles
      ⟨roundId, orchestrator.config.schemaId⟩).filterMap fun bundle =>
        (bundle.2.bind orchestrator.config.bundleValues).map (bundle.1, ·)) ↔
      (rounds.acceptedBundle ⟨roundId, orchestrator.config.schemaId⟩ entry.1).bind
        orchestrator.config.bundleValues = some entry.2 := by
    rintro ⟨other, values⟩
    rw [List.mem_filterMap, consistent.scoringBundles_eq]
    constructor
    · rintro ⟨⟨other', bundle⟩, member, made⟩
      obtain ⟨found, parsed, same⟩ := Option.map_eq_some_iff.mp made
      cases same
      obtain ⟨json, rfl, accepted⟩ :=
        (Store.mem_acceptedBundles_of_complete consistent.complete).mp member
      rw [accepted]
      exact parsed
    · intro parsed
      obtain ⟨json, accepted, same⟩ := Option.bind_eq_some_iff.mp parsed
      refine ⟨(other, some json), ?_, ?_⟩
      · exact (Store.mem_acceptedBundles_of_complete consistent.complete).mpr ⟨json, rfl, accepted⟩
      · rw [Option.bind_some, same, Option.map_some]
  -- a hotkey has one accepted bundle, so the order of the list does not matter
  have lookup := @Dict.get?_ofEntries_of_agree _ _ _ _ (fun other =>
    (rounds.acceptedBundle ⟨roundId, orchestrator.config.schemaId⟩ other).bind
      orchestrator.config.bundleValues) (fun entry member => (listed entry).mp member) name
  rw [AssessmentScoringConfig.acceptedValues, lookup]
  split_ifs with member
  · rfl
  · cases found : (rounds.acceptedBundle ⟨roundId, orchestrator.config.schemaId⟩ name).bind
        orchestrator.config.bundleValues with
    | none => rfl
    | some values => exact absurd (List.mem_map_of_mem ((listed (name, values)).mpr found)) member

theorem accepted_of_acceptedBundle {round : RoundKey} {json : String}
    (found : rounds.acceptedBundle round hotkey = some json) : rounds.Accepted round hotkey := by
  obtain ⟨row, held, accepted⟩ := Option.bind_eq_some_iff.mp found
  exact ⟨row, held, (Option.ite_none_right_eq_some.mp accepted).1⟩

theorem accepted_without {round : RoundKey} :
    (rounds.without hotkey skipped).Accepted round hotkey ↔
      skipped round = false ∧ rounds.Accepted round hotkey := by
  simp only [Store.Accepted, Store.get?_submissions_without, true_and]
  cases skipped round <;> simp

/-- A hotkey's values in the second run: none in a skipped round. -/
theorem get?_acceptedValues_without (consistent : rounds.Consistent) :
    (orchestrator.config.acceptedValues (rounds.without hotkey skipped) roundId).get? hotkey =
      if skipped ⟨roundId, orchestrator.config.schemaId⟩ then none
      else (orchestrator.config.acceptedValues rounds roundId).get? hotkey := by
  rw [get?_acceptedValues (consistent.without hotkey skipped), get?_acceptedValues consistent,
    Store.acceptedBundle_without]
  cases skipped ⟨roundId, orchestrator.config.schemaId⟩ <;> simp

/-- The two runs meet a pass as two owners of whom the second skips. -/
theorem skips_passOf (consistent : rounds.Consistent)
    (later : orchestrator.Later rounds hotkey skipped) (netuids : List ℕ)
    (values : Coordinate → Option ℚ) :
    Rules.Skips (orchestrator.passOf rounds roundId netuids values hotkey)
      (orchestrator.passOf (rounds.without hotkey skipped) roundId netuids values hotkey) := by
  -- where the reveal is still there it is the same reveal
  have same : hotkey ∈ (orchestrator.config.acceptedValues (rounds.without hotkey skipped)
      roundId).keys → (orchestrator.config.acceptedValues (rounds.without hotkey skipped)
        roundId).get? hotkey = (orchestrator.config.acceptedValues rounds roundId).get? hotkey := by
    intro submitted
    obtain ⟨found, held⟩ := Dict.mem_keys_iff.mp submitted
    rw [get?_acceptedValues_without consistent] at held ⊢
    split
    · next erased =>
      rw [if_pos erased] at held
      cases held
    · rfl
  have kept : hotkey ∈ (orchestrator.config.acceptedValues (rounds.without hotkey skipped)
      roundId).keys → orchestrator.observed (orchestrator.config.acceptedValues
        (rounds.without hotkey skipped) roundId) values hotkey =
        orchestrator.observed (orchestrator.config.acceptedValues rounds roundId) values hotkey := by
    intro submitted
    have scores : ∀ coordinate target,
        orchestrator.cellScore (orchestrator.config.acceptedValues (rounds.without hotkey skipped)
          roundId) hotkey coordinate target =
        orchestrator.cellScore (orchestrator.config.acceptedValues rounds roundId) hotkey
          coordinate target :=
      fun coordinate target => by rw [cellScore, cellScore, same submitted]
    funext coordinate
    rw [observed, observed, funext (scores coordinate)]
  refine ⟨fun coordinate => ?_, fun coordinate score score' scored scored' => ?_,
    fun coordinate score scored => ?_, fun submitted => ?_, kept, ?_, fun submitted => ?_,
    zeroIfAbsent_passOf _ _ _ _ _⟩
  · simp only [passOf, observed, Option.isSome_map]
  · by_cases submitted : hotkey ∈ (orchestrator.config.acceptedValues
        (rounds.without hotkey skipped) roundId).keys
    · have equal := (congrFun (kept submitted) coordinate).symm.trans scored'
      rw [Option.some.inj (scored.symm.trans equal)]
    -- a skipped reveal scores zero, and no score is below that
    · rw [zeroIfAbsent_passOf _ _ _ _ _ submitted coordinate score' scored']
      obtain ⟨target, -, rfl⟩ := Option.map_eq_some_iff.mp scored
      exact cellScore_nonneg _ _ _
  · obtain ⟨target, -, rfl⟩ := Option.map_eq_some_iff.mp scored
    exact cellScore_nonneg _ _ _
  · obtain ⟨found, held⟩ := Dict.mem_keys_iff.mp submitted
    exact Dict.mem_keys_iff.mpr ⟨found, (same submitted).symm.trans held⟩
  · simp only [passOf, Store.mem_assessmentHotkeysEligibleForRound]
    constructor
    · rintro ⟨earlier, before, accepted⟩
      exact ⟨earlier, before, (accepted_without.mp accepted).2⟩
    · rintro ⟨earlier, before, accepted⟩
      -- every skipped reveal has an earlier accepted one that is kept
      obtain ⟨first, first_le, kept, accepted'⟩ := later earlier accepted
      exact ⟨first, first_le.trans before, accepted_without.mpr ⟨kept, accepted'⟩⟩
  · obtain ⟨found, held⟩ := Dict.mem_keys_iff.mp submitted
    rw [get?_acceptedValues consistent] at held
    obtain ⟨json, bundle, -⟩ := Option.bind_eq_some_iff.mp held
    exact Store.mem_assessmentHotkeysEligibleForRound.mpr
      ⟨roundId, le_refl roundId, accepted_of_acceptedBundle bundle⟩

/-! ### Blended scores -/

/-- A hotkey's rows at active coordinates. -/
def activeRows (orchestrator : AssessmentScoringOrchestrator) (tables : AssessmentTables)
    (hotkey : Hotkey) : Dict (Hotkey × Coordinate) EmaState :=
  (tables.emaStates.filter fun key _ => orchestrator.config.eligibleCoordinate key.2).filter
    fun key _ => key.1 = hotkey

theorem get?_activeRows_eq_some {key : Hotkey × Coordinate} {state : EmaState} :
    (orchestrator.activeRows tables hotkey).get? key = some state ↔
      key.1 = hotkey ∧ orchestrator.rules.active key.2 ∧
        tables.emaStates.get? key = some state := by
  rw [activeRows, Dict.get?_filter, Option.filter_eq_some_iff, decide_eq_true_iff, Dict.get?_filter,
    Option.filter_eq_some_iff]
  exact ⟨fun ⟨⟨found, active⟩, same⟩ => ⟨same, active, found⟩,
    fun ⟨same, active, found⟩ => ⟨⟨found, active⟩, same⟩⟩

/-- The active coordinates at which a hotkey has an average. -/
def activeCells (orchestrator : AssessmentScoringOrchestrator) (tables : AssessmentTables)
    (hotkey : Hotkey) : Finset Coordinate :=
  ((orchestrator.activeRows tables hotkey).keys.map Prod.snd).toFinset

theorem mem_activeCells {coordinate : Coordinate} :
    coordinate ∈ orchestrator.activeCells tables hotkey ↔
      orchestrator.rules.active coordinate ∧
        (memoryOf tables.emaStates hotkey coordinate).isSome := by
  rw [activeCells, List.mem_toFinset, List.mem_map, memoryOf, Option.isSome_map]
  constructor
  · rintro ⟨⟨name, place⟩, member, rfl⟩
    obtain ⟨state, held⟩ := Dict.mem_keys_iff.mp member
    obtain ⟨rfl, active, found⟩ := get?_activeRows_eq_some.mp held
    exact ⟨active, Option.isSome_iff_exists.mpr ⟨state, found⟩⟩
  · rintro ⟨active, held⟩
    obtain ⟨state, found⟩ := Option.isSome_iff_exists.mp held
    exact ⟨(hotkey, coordinate),
      Dict.mem_keys_iff.mpr ⟨state, get?_activeRows_eq_some.mpr ⟨rfl, active, found⟩⟩, rfl⟩

/-- A hotkey's average at a coordinate, zero where it has no row. -/
def emaAt (tables : AssessmentTables) (hotkey : Hotkey) (coordinate : Coordinate) : ℚ :=
  ((tables.emaStates.get? (hotkey, coordinate)).map EmaState.ema).getD 0

theorem average_memoryOf (tables : AssessmentTables) (hotkey : Hotkey) (coordinate : Coordinate) :
    (memoryOf tables.emaStates hotkey).average coordinate = emaAt tables hotkey coordinate := by
  rw [Memory.average, memoryOf, Option.map_map]
  rfl

theorem activeRows_snd_nodup :
    ((orchestrator.activeRows tables hotkey).keys.map Prod.snd).Nodup := by
  refine (Dict.keys_nodup _).map_on fun key member key' member' same => Prod.ext ?_ same
  obtain ⟨state, held⟩ := Dict.mem_keys_iff.mp member
  obtain ⟨state', held'⟩ := Dict.mem_keys_iff.mp member'
  rw [(get?_activeRows_eq_some.mp held).1, (get?_activeRows_eq_some.mp held').1]

/-- The mean of a hotkey's rows is the mean average over its active coordinates. -/
theorem mean_activeRows (tables : AssessmentTables) (hotkey : Hotkey) :
    ((orchestrator.activeRows tables hotkey).values.map EmaState.ema).sum /
        ((orchestrator.activeRows tables hotkey).values.map EmaState.ema).length =
      meanAverage (orchestrator.activeCells tables hotkey) (memoryOf tables.emaStates hotkey) := by
  have emas : (orchestrator.activeRows tables hotkey).values.map EmaState.ema =
      ((orchestrator.activeRows tables hotkey).keys.map Prod.snd).map
        (memoryOf tables.emaStates hotkey).average := by
    rw [Dict.values_eq_map_keys _ ⟨0, 0⟩, List.map_map, List.map_map]
    refine List.map_congr_left fun key member => ?_
    obtain ⟨state, held⟩ := Dict.mem_keys_iff.mp member
    obtain ⟨rfl, -, found⟩ := get?_activeRows_eq_some.mp held
    simp only [Function.comp_apply, Dict.getD, held, Option.getD_some, Memory.average, memoryOf,
      found, Option.map_some]
  rw [emas, meanAverage, activeCells, List.sum_toFinset _ activeRows_snd_nodup,
    List.toFinset_card_of_nodup activeRows_snd_nodup, List.length_map]

/-- A hotkey's blended score is its mean average over the active coordinates it has. -/
theorem blendedScore_eq (tables : AssessmentTables) (hotkey : Hotkey) :
    orchestrator.blendedScore tables hotkey =
      meanAverage (orchestrator.activeCells tables hotkey) (memoryOf tables.emaStates hotkey) := by
  rw [← mean_activeRows]
  let mean (name : Hotkey) : ℚ :=
    ((orchestrator.activeRows tables name).values.map EmaState.ema).sum /
      ((orchestrator.activeRows tables name).values.map EmaState.ema).length
  let names := (((tables.emaStates.filter fun key _ =>
    orchestrator.config.eligibleCoordinate key.2).keys.map Prod.fst).dedup.insertionSort (· ≤ ·))
  -- each hotkey is listed with its own mean, once
  have agree : ∀ entry ∈ names.map fun name => (name, mean name),
      some (mean entry.1) = some entry.2 := by
    intro entry member
    obtain ⟨name, -, rfl⟩ := List.mem_map.mp member
    rfl
  have lookup := @Dict.get?_ofEntries_of_agree _ _ _ _ (fun name => some (mean name)) agree hotkey
  change ((Dict.ofEntries (names.map fun name => (name, mean name))).get? hotkey).getD 0 = mean hotkey
  rw [lookup]
  split_ifs with member
  · rfl
  · -- Without a row the mean is over nothing.
    have empty : (orchestrator.activeRows tables hotkey).values = [] := by
      rw [Dict.values_eq_map_keys _ ⟨0, 0⟩, List.map_eq_nil_iff, List.eq_nil_iff_forall_not_mem]
      intro key held
      obtain ⟨state, found⟩ := Dict.mem_keys_iff.mp held
      obtain ⟨rfl, active, present⟩ := get?_activeRows_eq_some.mp found
      refine member (List.mem_map.mpr ⟨(key.1, mean key.1), List.mem_map.mpr ⟨key.1, ?_, rfl⟩, rfl⟩)
      refine (List.perm_insertionSort _ _).mem_iff.mpr (List.mem_dedup.mpr (List.mem_map_of_mem ?_))
      refine Dict.mem_keys_iff.mpr ⟨state, ?_⟩
      rw [Dict.get?_filter, present]
      exact Option.filter_eq_some_iff.mpr ⟨rfl, active⟩
    simp only [mean, empty, List.map_nil, List.sum_nil, zero_div, Option.getD_none]

/-! ### One pass in both runs -/

/-- A call that gets as far as recording a pass over some targets. -/
structure Scores (orchestrator : AssessmentScoringOrchestrator) (rounds : Store)
    (tables : AssessmentTables) (call : ScoringCall) (members : List ℕ)
    (targets : List AssessmentRealizedTarget) : Prop where
  unmarked : tables.hasAssessmentResolutionMarker call.roundId call.horizon = false
  budget : call.exhausted 0 = false
  covers : orchestrator.membersOf rounds call.roundId = some members
  resolved : orchestrator.config.resolveTargets call
    (tables.resolvedCoordinates call.roundId call.horizon)
    (orchestrator.config.cellsOf (members.insertionSort (· ≤ ·))) 1 = .ok targets
  nonempty : orchestrator.config.activeCoordinates ≠ some ∅

variable {members : List ℕ} {targets : List AssessmentRealizedTarget}

theorem mem_resolvedValues_keys {coordinate : Coordinate}
    (member : coordinate ∈ (resolvedValues targets).keys) :
    ∃ target ∈ targets, target.coordinate = coordinate := by
  obtain ⟨value, found⟩ := Dict.mem_keys_iff.mp member
  by_contra absent
  have notMem : coordinate ∉ (targets.filterMap fun target =>
      if target.status = .resolved then target.value.map (target.coordinate, ·)
      else none).map Prod.fst := by
    intro listed
    obtain ⟨entry, inside, rfl⟩ := List.mem_map.mp listed
    obtain ⟨target, present, made⟩ := List.mem_filterMap.mp inside
    obtain ⟨-, same⟩ := Option.ite_none_right_eq_some.mp made
    obtain ⟨number, -, rfl⟩ := Option.map_eq_some_iff.mp same
    exact absent ⟨target, present, rfl⟩
  rw [resolvedValues, Dict.ofEntries, Dict.get?_setAll_of_notMem _ _ notMem] at found
  cases found

/-- A live output scores every hotkey. -/
theorem scoreCell_of_scoresLive (scoresLive : orchestrator.ScoresLive)
    {accepted : Dict Hotkey (Dict Coordinate ℤ)} {netuids : List ℕ} {horizon : ℕ}
    {coordinate : Coordinate}
    (expected : coordinate ∈ orchestrator.config.coordinatesAt netuids horizon) (name : Hotkey)
    (target : ℚ) : ∃ cell, orchestrator.scoreCell accepted name coordinate target = .ok cell := by
  by_cases submitted : name ∈ accepted.keys
  · obtain ⟨⟨netuid, output⟩, member, rfl⟩ := List.mem_map.mp expected
    obtain ⟨_, -, inside⟩ := List.mem_flatMap.mp member
    obtain ⟨scored, listed, same⟩ := List.mem_map.mp inside
    obtain ⟨found, named⟩ := outputByName_isSome (List.mem_map_of_mem listed)
    have live : found.spec.scoredLive = true := by
      refine scoresLive found (List.mem_reverse.mp (List.mem_of_find?_eq_some named))
    rw [scoreCell, orchestrator.config.coordinateFor_output, (Prod.mk.inj same).2.symm, named]
    simp only [scoreOutput, live, if_true]
    split
    · exact ⟨_, rfl⟩
    · exact ⟨_, rfl⟩
  · exact scoreCell_of_absent submitted expected target

/-- Live outputs and resolvers that keep to their coordinates never raise in scoring. -/
theorem Scores.exists_scored (scoresLive : orchestrator.ScoresLive)
    (own : orchestrator.AnswersOwn call)
    (scores : Scores orchestrator rounds tables call members targets) :
    ∃ pass roundScores, orchestrator.scoreRound rounds tables call members =
      .ok (pass, roundScores) := by
  have each : ∀ item ∈ ((orchestrator.scoringSet tables.emaStates
      (orchestrator.config.roundCoordinates (members.insertionSort (· ≤ ·)))
      (rounds.assessmentHotkeysEligibleForRound orchestrator.config.schemaId call.roundId)
      (orchestrator.config.acceptedValues rounds call.roundId)).flatMap fun hotkey =>
        ((resolvedValues targets).entries.insertionSort fun first second =>
          (compare first.1 second.1).isLE).map fun entry => (hotkey, entry)),
      ∃ cell, orchestrator.scoreCell (orchestrator.config.acceptedValues rounds call.roundId)
        item.1 item.2.1 item.2.2 = .ok cell := by
    intro item member
    obtain ⟨name, -, inside⟩ := List.mem_flatMap.mp member
    obtain ⟨⟨coordinate, value⟩, entry, rfl⟩ := List.mem_map.mp inside
    have key : coordinate ∈ (resolvedValues targets).keys :=
      List.mem_map_of_mem ((List.perm_insertionSort _ _).mem_iff.mp entry)
    obtain ⟨target, found, rfl⟩ := mem_resolvedValues_keys key
    obtain ⟨cell, listed, -, answered⟩ := mem_resolveTargets scores.resolved target found
    rw [own _ _ _ answered]
    exact scoreCell_of_scoresLive scoresLive (List.mem_map_of_mem listed) name value
  obtain ⟨cells, scored⟩ := exists_mapM_eq_ok each
  exact ⟨_, _, scoreRound_eq_ok.mpr ⟨targets, cells, scores.resolved, scored, rfl, rfl⟩⟩

/-- What a recorded pass leaves. -/
theorem Scores.happen (limits : Limits) (scoresLive : orchestrator.ScoresLive)
    (own : orchestrator.AnswersOwn call)
    (scores : Scores orchestrator (view rounds) tables call members targets) :
    ∃ later, orchestrator.happen limits view (.pass call) ⟨rounds, tables⟩ = ⟨rounds, later⟩ ∧
      later.realizedTargets = tables.realizedTargets.insertAllIfAbsent
        (targets.map fun target => ((call.roundId, target.coordinate), target)) ∧
      later.horizonResolutions =
        (if (orchestrator.config.coordinatesAt (members.insertionSort (· ≤ ·)) call.horizon).all
            fun coordinate => coordinate ∈ tables.resolvedCoordinates call.roundId call.horizon ∨
              coordinate ∈ targets.map AssessmentRealizedTarget.coordinate then
          tables.horizonResolutions.insertIfAbsent (call.roundId, call.horizon) call.nowIso
        else tables.horizonResolutions) ∧
      ∀ name, orchestrator.rules.AgreeOn (memoryOf later.emaStates name)
        (archived call name (orchestrator.rules.absorb
          (orchestrator.passOf (view rounds) call.roundId (members.insertionSort (· ≤ ·))
            (resolvedValues targets).get? name) (memoryOf tables.emaStates name))) := by
  obtain ⟨pass, roundScores, made⟩ := scores.exists_scored scoresLive own
  obtain ⟨targets', cells, resolved, scored, rfl, rfl⟩ := scoreRound_eq_ok.mp made
  cases scores.resolved.symm.trans resolved
  -- the active set is not empty, so the transaction goes through
  obtain ⟨later, written⟩ : ∃ later, tables.recordAssessmentScoringPass call.roundId
      (orchestrator.scoringPass call tables.emaStates
        (orchestrator.config.acceptedValues (view rounds) call.roundId) targets
        ((orchestrator.config.coordinatesAt (members.insertionSort (· ≤ ·)) call.horizon).all
          fun coordinate => coordinate ∈ tables.resolvedCoordinates call.roundId call.horizon ∨
            coordinate ∈ targets.map AssessmentRealizedTarget.coordinate) cells) call.nowIso =
        .ok later := AssessmentTables.exists_recorded scores.nonempty call.nowIso
  have done : orchestrator.resolveAndScore (view rounds) tables call = .ok (later, roundScores cells) := by
    rw [resolveAndScore, preparePass_of_open scores.unmarked scores.budget scores.covers, made]
    exact bind_eq_ok.mpr ⟨_, rfl, bind_eq_ok.mpr ⟨later, written, rfl⟩⟩
  have happened : orchestrator.happen limits view (.pass call) ⟨rounds, tables⟩ =
      ⟨rounds, later⟩ := by
    rw [AssessmentScoringOrchestrator.happen, done]
  obtain ⟨-, rfl⟩ := (AssessmentTables.recordAssessmentScoringPass_eq_ok scores.unmarked).mp written
  exact ⟨_, happened, rfl, rfl, fun name =>
    memoryOf_updatedEmas (cellsOf_of_mapM (List.perm_insertionSort _ _) scored) name⟩

/-- Any other call leaves everything as it is. -/
theorem happen_of_not_scores
    (idle : ∀ members targets, ¬Scores orchestrator (view rounds) tables call members targets) :
    orchestrator.happen limits view (.pass call) ⟨rounds, tables⟩ = ⟨rounds, tables⟩ := by
  rw [AssessmentScoringOrchestrator.happen]
  split
  · rfl
  next later _ done =>
  rw [resolveAndScore] at done
  obtain ⟨prepared, made, rest⟩ := bind_eq_ok.mp done
  cases prepared with
  | none =>
    cases rest
    rfl
  | some both =>
    obtain ⟨recorded, written, same⟩ := bind_eq_ok.mp rest
    obtain ⟨unmarked, budget, members, covers, scored⟩ := preparePass_eq_some made
    obtain ⟨targets, cells, resolved, -, passed, -⟩ := scoreRound_eq_ok.mp scored
    rw [passed] at written
    obtain ⟨nonempty, -⟩ :=
      (AssessmentTables.recordAssessmentScoringPass_eq_ok unmarked).mp written
    exact absurd ⟨unmarked, budget, covers, resolved, nonempty⟩ (idle members targets)

/-- The tables of the two runs: the same targets and markers, and the second hotkey's
averages behind. -/
structure Paired (orchestrator : AssessmentScoringOrchestrator) (hotkey : Hotkey)
    (tables tables' : AssessmentTables) : Prop where
  targets : tables'.realizedTargets = tables.realizedTargets
  markers : tables'.horizonResolutions = tables.horizonResolutions
  behind : orchestrator.rules.Behind (memoryOf tables.emaStates hotkey)
    (memoryOf tables'.emaStates hotkey)

/-- Both runs record a pass over the same targets, or neither does. -/
theorem Paired.scores_iff (paired : Paired orchestrator hotkey tables tables') :
    Scores orchestrator (rounds.without hotkey skipped) tables' call members targets ↔
      Scores orchestrator rounds tables call members targets := by
  have existing : tables'.resolvedCoordinates call.roundId call.horizon =
      tables.resolvedCoordinates call.roundId call.horizon := by
    rw [AssessmentTables.resolvedCoordinates, paired.targets, AssessmentTables.resolvedCoordinates]
  have marker : tables'.hasAssessmentResolutionMarker call.roundId call.horizon =
      tables.hasAssessmentResolutionMarker call.roundId call.horizon := by
    rw [AssessmentTables.hasAssessmentResolutionMarker, paired.markers,
      AssessmentTables.hasAssessmentResolutionMarker]
  constructor
  · rintro ⟨unmarked, budget, covers, resolved, nonempty⟩
    exact ⟨marker ▸ unmarked, budget, covers, existing ▸ resolved, nonempty⟩
  · rintro ⟨unmarked, budget, covers, resolved, nonempty⟩
    exact ⟨marker.symm ▸ unmarked, budget, covers, existing.symm ▸ resolved, nonempty⟩

/-- Archival at the same cells keeps the second run behind. -/
theorem behind_archived {first second : Memory Coordinate}
    (behind : orchestrator.rules.Behind first second) (call : ScoringCall) (name : Hotkey) :
    orchestrator.rules.Behind (archived call name first) (archived call name second) := by
  rw [archived, archived]
  split_ifs
  · exact behind.forget _
  · exact behind

/-- **A pass in both runs keeps the second behind.** -/
theorem Paired.pass (limits : Limits) (scoresLive : orchestrator.ScoresLive)
    (own : orchestrator.AnswersOwn call) (consistent : rounds.Consistent)
    (later : orchestrator.Later rounds hotkey skipped)
    (paired : Paired orchestrator hotkey tables tables') :
    ∃ next next',
      orchestrator.happen limits id (.pass call) ⟨rounds, tables⟩ = ⟨rounds, next⟩ ∧
      orchestrator.happen limits (·.without hotkey skipped) (.pass call) ⟨rounds, tables'⟩ =
        ⟨rounds, next'⟩ ∧
      Paired orchestrator hotkey next next' := by
  by_cases idle : ∀ members targets, ¬Scores orchestrator rounds tables call members targets
  · refine ⟨tables, tables', happen_of_not_scores idle, happen_of_not_scores ?_, paired⟩
    exact fun members targets => paired.scores_iff.not.mpr (idle members targets)
  push Not at idle
  -- a call scores in both runs or in neither
  obtain ⟨members, targets, scores⟩ := idle
  have scores' : Scores orchestrator (rounds.without hotkey skipped) tables' call members targets :=
    paired.scores_iff.mpr scores
  obtain ⟨next, happened, found, marked, memory⟩ :=
    @Scores.happen _ _ _ _ id _ _ limits scoresLive own scores
  obtain ⟨next', happened', found', marked', memory'⟩ :=
    @Scores.happen _ _ _ _ (·.without hotkey skipped) _ _ limits scoresLive own scores'
  refine ⟨next, next', happened, happened', ?_, ?_, ?_⟩
  · rw [found, found', paired.targets]
  · rw [marked, marked', paired.markers, AssessmentTables.resolvedCoordinates, paired.targets,
      AssessmentTables.resolvedCoordinates]
  · refine Rules.Behind.congr (behind_archived ?_ call hotkey) (memory hotkey) (memory' hotkey)
    exact (skips_passOf consistent later _ _).behind_absorb paired.behind

/-! ### Whole runs -/

theorem paired_empty :
    Paired orchestrator hotkey AssessmentTables.empty AssessmentTables.empty where
  targets := rfl
  markers := rfl
  behind :=
    { nonneg := fun _ _ => le_refl 0
      below := fun _ _ => le_refl 0 }

theorem season_nil :
    orchestrator.season limits view [] = ⟨Store.empty, AssessmentTables.empty⟩ := rfl

theorem season_append (past : List SeasonEvent) (event : SeasonEvent) :
    orchestrator.season limits view (past ++ [event]) =
      orchestrator.happen limits view event (orchestrator.season limits view past) :=
  run_append past [event]

/-- The two runs stay paired. -/
theorem paired_season (limits : Limits) (scoresLive : orchestrator.ScoresLive)
    {events : List SeasonEvent}
    (own : ∀ call, .pass call ∈ events → orchestrator.AnswersOwn call)
    (later : ∀ past ∈ events.inits,
      orchestrator.Later (orchestrator.season limits id past).rounds hotkey skipped) :
    (orchestrator.season limits (·.without hotkey skipped) events).rounds =
        (orchestrator.season limits id events).rounds ∧
      (orchestrator.season limits id events).rounds.Consistent ∧
      Paired orchestrator hotkey (orchestrator.season limits id events).tables
        (orchestrator.season limits (·.without hotkey skipped) events).tables := by
  -- the runs are extended at their end, where the pass is the last thing that happened
  induction events using List.reverseRecOn with
  | nil =>
    rw [season_nil, season_nil]
    exact ⟨rfl, Store.consistent_empty, paired_empty⟩
  | append_singleton past event ih =>
    have inside : ∀ earlier ∈ past.inits, earlier ∈ (past ++ [event]).inits :=
      fun earlier member => (List.mem_inits _ _).mpr
        (((List.mem_inits _ _).mp member).trans (List.prefix_append _ _))
    obtain ⟨sameRounds, consistent, paired⟩ := ih
      (fun call member => own call (List.mem_append_left _ member))
      (fun earlier member => later earlier (inside earlier member))
    rw [season_append, season_append]
    cases event with
    | transaction operation =>
      refine ⟨?_, ?_, paired⟩
      · exact congrArg (operation.apply limits) sameRounds
      · exact (RoundOperation.apply_change limits operation consistent).consistent consistent
    | pass call =>
      obtain ⟨next, next', happened, happened', after⟩ := paired.pass limits scoresLive
        (own call (List.mem_append_right _ List.mem_cons_self)) consistent
        (later past (inside past ((List.mem_inits _ _).mpr List.prefix_rfl)))
      -- both runs read the same rounds, and only their tables differ
      have first : orchestrator.season limits id past =
          ⟨(orchestrator.season limits id past).rounds,
            (orchestrator.season limits id past).tables⟩ := rfl
      have second : orchestrator.season limits (·.without hotkey skipped) past =
          ⟨(orchestrator.season limits id past).rounds,
            (orchestrator.season limits (·.without hotkey skipped) past).tables⟩ := by
        rw [← sameRounds]
      rw [second, happened', first, happened]
      exact ⟨rfl, consistent, after⟩

/-- What the second run's blend leaves out is not lower than what it averages: the active rows that
only the first run has hold there, together, at least the second run's mean row once for each row by
which the second run has fewer. -/
def LeavesOutNoneLower (orchestrator : AssessmentScoringOrchestrator)
    (tables tables' : AssessmentTables) (hotkey : Hotkey) : Prop :=
  ((orchestrator.activeCells tables hotkey).card - (orchestrator.activeCells tables' hotkey).card) *
      ∑ coordinate ∈ orchestrator.activeCells tables' hotkey, emaAt tables' hotkey coordinate ≤
    (orchestrator.activeCells tables' hotkey).card *
      ∑ coordinate ∈ orchestrator.activeCells tables hotkey \ orchestrator.activeCells tables' hotkey,
        emaAt tables hotkey coordinate

instance : Decidable (orchestrator.LeavesOutNoneLower tables tables' hotkey) :=
  inferInstanceAs (Decidable (_ ≤ _))

theorem leavesOutNoneLower_iff :
    orchestrator.LeavesOutNoneLower tables tables' hotkey ↔
      LeavesNoneLower (orchestrator.activeCells tables hotkey)
        (orchestrator.activeCells tables' hotkey) (memoryOf tables.emaStates hotkey)
        (memoryOf tables'.emaStates hotkey) := by
  simp only [LeavesOutNoneLower, LeavesNoneLower, average_memoryOf]

/-- **Skipping never beats submitting** at any coordinate, and in the blend wherever that leaves no
lower rows out. Where skipping has cost nothing at the rows that both runs have, the blend is no
larger only then. -/
theorem skipping_never_beats_submitting (orchestrator : AssessmentScoringOrchestrator)
    (scoresLive : orchestrator.ScoresLive) (limits : Limits) (hotkey : Hotkey)
    (skipped : RoundKey → Bool) (events : List SeasonEvent)
    (own : ∀ call, .pass call ∈ events → orchestrator.AnswersOwn call)
    (later : ∀ past ∈ events.inits,
      orchestrator.Later (orchestrator.season limits id past).rounds hotkey skipped) :
    ∀ past ∈ events.inits,
      let tables := (orchestrator.season limits id past).tables
      let tables' := (orchestrator.season limits (·.without hotkey skipped) past).tables
      (∀ coordinate, orchestrator.config.eligibleCoordinate coordinate = true →
        emaAt tables' hotkey coordinate ≤ emaAt tables hotkey coordinate) ∧
      (orchestrator.LeavesOutNoneLower tables tables' hotkey →
        orchestrator.blendedScore tables' hotkey ≤ orchestrator.blendedScore tables hotkey) ∧
      ((∀ coordinate ∈ orchestrator.activeCells tables hotkey ∩
          orchestrator.activeCells tables' hotkey,
          emaAt tables' hotkey coordinate = emaAt tables hotkey coordinate) →
        orchestrator.blendedScore tables' hotkey ≤ orchestrator.blendedScore tables hotkey →
        orchestrator.LeavesOutNoneLower tables tables' hotkey) := by
  intro past member
  have before := (List.mem_inits _ _).mp member
  obtain ⟨-, -, paired⟩ := paired_season limits scoresLive
    (fun call found => own call (before.subset found))
    (fun earlier found => later earlier
      ((List.mem_inits _ _).mpr (((List.mem_inits _ _).mp found).trans before)))
  -- the paired tables hold memories of which the second is behind
  have behind := paired.behind
  simp only [leavesOutNoneLower_iff, blendedScore_eq, ← average_memoryOf]
  exact ⟨behind.below, behind.meanAverage_le (fun _ => mem_activeCells) fun _ => mem_activeCells,
    behind.leavesNoneLower (fun _ => mem_activeCells) fun _ => mem_activeCells⟩

/-! ### Checking a concrete run -/

/-- The rounds in which a hotkey has an accepted reveal. -/
def acceptedRounds (orchestrator : AssessmentScoringOrchestrator) (rounds : Store)
    (hotkey : Hotkey) : List String :=
  (rounds.submissions.filter fun key row => key.2 = hotkey ∧
    key.1.schemaId = orchestrator.config.schemaId ∧ row.verdict = .accepted).keys.map (·.1.roundId)

theorem mem_acceptedRounds {earlier : String} :
    earlier ∈ orchestrator.acceptedRounds rounds hotkey ↔
      rounds.Accepted ⟨earlier, orchestrator.config.schemaId⟩ hotkey := by
  rw [acceptedRounds, List.mem_map]
  constructor
  · rintro ⟨⟨⟨earlier, schema⟩, name⟩, member, rfl⟩
    obtain ⟨row, found⟩ := Dict.mem_keys_iff.mp member
    rw [Dict.get?_filter, Option.filter_eq_some_iff, decide_eq_true_iff] at found
    obtain ⟨found, rfl, rfl, accepted⟩ := found
    exact ⟨row, found, accepted⟩
  · rintro ⟨row, found, accepted⟩
    refine ⟨(⟨earlier, orchestrator.config.schemaId⟩, hotkey),
      Dict.mem_keys_iff.mpr ⟨row, ?_⟩, rfl⟩
    rw [Dict.get?_filter, found, Option.filter_some, if_pos (by simp [accepted])]

instance : Decidable (orchestrator.Later rounds hotkey skipped) :=
  decidable_of_iff (∀ roundId ∈ orchestrator.acceptedRounds rounds hotkey,
    ∃ earlier ∈ orchestrator.acceptedRounds rounds hotkey, earlier ≤ roundId ∧
      skipped ⟨earlier, orchestrator.config.schemaId⟩ = false) <| by
    simp only [Later, mem_acceptedRounds]
    refine forall_congr' fun roundId => forall_congr' fun _ => exists_congr fun earlier => ?_
    tauto

end AssessmentScoringOrchestrator

/-! ### A row that is missing -/

/-- The coordinate of the only subnet and output at a horizon. -/
def volatilityAt (horizon : ℕ) : Coordinate := ⟨"subnet", "1", "days", horizon, "volatility"⟩

/-- One subnet with one output at two horizons; a bundle predicts either perfectly or
hopelessly. -/
def oneOutput : AssessmentScoringOrchestrator where
  config :=
    { schemaId := "alpha-risk"
      horizons := [5, 30]
      universeMembers := fun _ => some [1]
      bundleValues := fun bundleJson =>
        let value := if bundleJson = "perfect" then 40 else 1000
        some (Dict.ofEntries [(volatilityAt 5, value), (volatilityAt 30, value)])
      outputs := [⟨"volatility", narrowSpec⟩]
      activeCoordinates := none
      coordinateFor := fun _ horizon output => ⟨"subnet", "1", "days", horizon, output⟩
      coordinateFor_horizon := fun _ _ _ => rfl
      coordinateFor_output := fun _ _ _ => rfl }
  alpha := 1 / 2
  alpha_pos := one_half_pos
  alpha_lt_one := one_half_lt_one

/-- One commit and one reveal a round. -/
def oneEach : Limits := ⟨1, 1, Nat.le_refl 1, Nat.le_refl 1⟩

/-- A round of one miner: opened, committed to, revealed and closed. -/
def roundOf (roundId bundleJson : String) : List SeasonEvent :=
  [.transaction (.openRound ⟨roundId, 0, 1, 1, 1, 2⟩ "alpha-risk" (some ⟨["1"], ""⟩) "" none),
    .transaction (.recordCommit ⟨roundId, "alpha-risk"⟩ "a" bundleJson ""),
    .transaction (.recordReveal ⟨roundId, "alpha-risk"⟩ "a" bundleJson "" true none ""),
    .transaction (.publish ⟨roundId, "alpha-risk"⟩ (fun _ => some []) "")]

/-- A call for a round at one horizon; every target is worth forty. -/
def callAt (roundId : String) (horizon : ℕ) : ScoringCall where
  roundId
  horizon
  nowIso := ""
  archiveHotkeys := []
  exhausted _ := false
  resolver netuid asked output := .target (fortyAt (oneOutput.config.coordinateFor netuid asked output))

/-- The same call when no target can be had. -/
def voidCallAt (roundId : String) (horizon : ℕ) : ScoringCall :=
  { callAt roundId horizon with
    resolver := fun netuid asked output =>
      .target ⟨oneOutput.config.coordinateFor netuid asked output, none, .voided, none⟩ }

/-- Hopeless in the first two rounds and perfect in the third. -/
def comeback : List SeasonEvent :=
  roundOf "r1" "hopeless" ++ [.pass (callAt "r1" 5), .pass (callAt "r1" 30)] ++
    roundOf "r2" "hopeless" ++ [.pass (callAt "r2" 5)] ++
    roundOf "r3" "perfect" ++ [.pass (callAt "r3" 5)]

/-- Perfect in the first round, which has no target at five days, and something in the second. -/
def voidFirst (second : String) : List SeasonEvent :=
  roundOf "r1" "perfect" ++ [.pass (voidCallAt "r1" 5)] ++
    roundOf "r2" second ++ [.pass (callAt "r2" 5), .pass (callAt "r1" 30)]

/-- The second round is skipped. -/
def skipSecond (round : RoundKey) : Bool := round.roundId = "r2"

open AssessmentScoringOrchestrator

/-- Skipping the second round prunes the hotkey, and its new five-day average is no longer
blended with the poor thirty-day one. -/
theorem skipping_beats_submitting :
    (∀ past ∈ comeback.inits,
      oneOutput.Later (oneOutput.season oneEach id past).rounds "a" skipSecond) ∧
    oneOutput.blendedScore (oneOutput.season oneEach id comeback).tables "a" = 1 / 4 ∧
    oneOutput.blendedScore
      (oneOutput.season oneEach (·.without "a" skipSecond) comeback).tables "a" = 1 / 2 := by
  decide +kernel

/-- Nothing is pruned when the second round alone would have brought a five-day row: a hopeless
one. -/
example :
    oneOutput.blendedScore (oneOutput.season oneEach id (voidFirst "hopeless")).tables "a" = 1 / 4 ∧
    oneOutput.blendedScore
      (oneOutput.season oneEach (·.without "a" skipSecond) (voidFirst "hopeless")).tables "a" =
        1 / 2 := by
  decide +kernel

theorem scoresLive_oneOutput : oneOutput.ScoresLive := by
  intro output member
  rw [List.mem_singleton.mp member]
  rfl

theorem answersOwn_voidFirst {second : String} {call : ScoringCall}
    (member : .pass call ∈ voidFirst second) : oneOutput.AnswersOwn call := by
  have called : call = voidCallAt "r1" 5 ∨ ∃ roundId horizon, call = callAt roundId horizon := by
    simp only [voidFirst, roundOf, List.mem_append, List.mem_cons, SeasonEvent.pass.injEq,
      reduceCtorEq, List.not_mem_nil, or_false, false_or] at member
    rcases member with rfl | rfl | rfl
    · exact .inl rfl
    · exact .inr ⟨_, _, rfl⟩
    · exact .inr ⟨_, _, rfl⟩
  intro netuid output target answered
  rcases called with rfl | ⟨roundId, horizon, rfl⟩
  · rw [← ResolverAnswer.target.inj answered]
  · rw [← ResolverAnswer.target.inj answered]
    rfl

/-- A perfect five-day row that only the first run has: leaving it out of the blend raises
nothing. -/
theorem skipping_never_beats_submitting_voidFirst :
    let tables := (oneOutput.season oneEach id (voidFirst "perfect")).tables
    let tables' := (oneOutput.season oneEach (·.without "a" skipSecond) (voidFirst "perfect")).tables
    (∀ coordinate, oneOutput.config.eligibleCoordinate coordinate = true →
      emaAt tables' "a" coordinate ≤ emaAt tables "a" coordinate) ∧
    (oneOutput.activeCells tables' "a").card < (oneOutput.activeCells tables "a").card ∧
    oneOutput.blendedScore tables' "a" ≤ oneOutput.blendedScore tables "a" := by
  obtain ⟨below, blend, -⟩ := skipping_never_beats_submitting oneOutput scoresLive_oneOutput oneEach
    "a" skipSecond (voidFirst "perfect") (fun _ => answersOwn_voidFirst) (by decide +kernel)
    (voidFirst "perfect") ((List.mem_inits _ _).mpr List.prefix_rfl)
  exact ⟨below, by decide +kernel, blend (by decide +kernel)⟩

end Endure.Scoring
