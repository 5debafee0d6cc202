import Endure.Publication.FeedRuns

/-!
# The tier rounds of the feed

The feed picks a tier round for every subnet with one query, reads its targets and its
consensus again, and derives the tier from what it finds. Over every state that the
publishing and scoring transactions reach, the three readings agree.
-/

namespace Endure.Publication

open Library Library.Checked Library.Transitions Endure.Storage Endure.Scoring
open Endure.Aggregation

/-- A round of the risk schema past its embargo. -/
def PastEmbargo (store : Store) (now : ℤ) (roundId : String) : Prop :=
  ∃ row, store.rounds.get? (riskRound roundId) = some row ∧ row.state ≠ .open ∧
    row.publicationAvailableAt < now

/-- The thirty-day target of a subnet's output has a value in a round, and a consensus row. -/
def OutputReady (state : FeedState) (netuid : ℕ) (roundId output : String) : Prop :=
  ∃ target value row,
    state.tables.realizedTargets.get?
      (roundId, subnetAsset netuid horizon30dSeconds output) = some target ∧
    target.status = .resolved ∧ target.value = some value ∧
    state.store.consensus.get?
      (riskRound roundId, subnetAsset netuid horizon30dSeconds output) = some row

/-- A round past its embargo in which both tier outputs of a subnet are ready. -/
def TierReady (state : FeedState) (now : ℤ) (netuid : ℕ) (roundId : String) : Prop :=
  PastEmbargo state.store now roundId ∧
    ∀ output ∈ tierOutputs, OutputReady state netuid roundId output

variable {state : FeedState} {now : ℤ} {roundId : String} {netuid : ℕ}

theorem mem_postEmbargoRounds {store : Store} :
    roundId ∈ postEmbargoRounds store riskSchemaId now ↔ PastEmbargo store now roundId := by
  rw [postEmbargoRounds, List.mem_map]
  constructor
  · rintro ⟨⟨_, schemaId⟩, listed, rfl⟩
    obtain ⟨row, found⟩ := Dict.mem_keys_iff.mp listed
    rw [Dict.get?_filter, Option.filter_eq_some_iff, decide_eq_true_iff] at found
    obtain ⟨held, rfl, conditions⟩ := found
    exact ⟨row, held, conditions⟩
  · rintro ⟨row, held, conditions⟩
    refine ⟨riskRound roundId, Dict.mem_keys_iff.mpr ⟨row, ?_⟩, rfl⟩
    rw [Dict.get?_filter, Option.filter_eq_some_iff, decide_eq_true_iff]
    exact ⟨held, rfl, conditions⟩

/-! ### The query -/

/-- What the query joins, in a state with canonical rows. -/
theorem mem_joinedTargets (canonical : state.Canonical) {outputs : List String}
    {key : String × Coordinate} :
    key ∈ joinedTargets state.store state.tables riskSchemaId horizon30dSeconds outputs now ↔
      ∃ netuid, key.2 = subnetAsset netuid horizon30dSeconds key.2.output ∧
        key.2.output ∈ outputs ∧ PastEmbargo state.store now key.1 ∧
        OutputReady state netuid key.1 key.2.output := by
  rw [joinedTargets, Dict.mem_keys_iff]
  constructor
  · rintro ⟨target, found⟩
    rw [Dict.get?_filter, Option.filter_eq_some_iff, decide_eq_true_iff] at found
    obtain ⟨held, published, horizon, -, resolved, valued, wanted, past⟩ := found
    -- canonical rows are of subnets, so the target is told by its netuid and output
    obtain ⟨netuid, horizon', output, made⟩ := canonical.targets key.1 key.2 target held
    have here : key.2 = subnetAsset netuid horizon30dSeconds key.2.output := by
      rw [made, subnetAsset] at horizon ⊢
      simp only at horizon
      rw [horizon, subnetAsset]
    obtain ⟨value, known⟩ := Option.isSome_iff_exists.mp valued
    obtain ⟨row, joined⟩ := Option.isSome_iff_exists.mp published
    refine ⟨netuid, here, wanted, mem_postEmbargoRounds.mp past, target, value, row, ?_, resolved,
      known, ?_⟩
    · rw [← here]
      exact held
    · rw [← here]
      exact joined
  · rintro ⟨netuid, here, wanted, past, target, value, row, held, resolved, known, joined⟩
    refine ⟨target, ?_⟩
    rw [← here] at held joined
    rw [Dict.get?_filter, Option.filter_eq_some_iff, decide_eq_true_iff]
    refine ⟨held, Option.isSome_iff_exists.mpr ⟨row, joined⟩, ?_, ?_, resolved, ?_, wanted,
      mem_postEmbargoRounds.mpr past⟩
    · rw [here]
      rfl
    · rw [here]
      rfl
    · rw [known]
      rfl

/-- A group is complete when it holds every output. -/
theorem mem_completeTargetRounds {joined : List (String × Coordinate)} {outputs : List String}
    (nodup : outputs.Nodup) (nonempty : outputs ≠ [])
    (wanted : ∀ key ∈ joined, key.2.output ∈ outputs) {targetId roundId : String} :
    (targetId, roundId) ∈ completeTargetRounds joined outputs ↔
      ∀ output ∈ outputs, ∃ key ∈ joined,
        key.2.targetId = targetId ∧ key.1 = roundId ∧ key.2.output = output := by
  let found := ((joined.filter fun key => (key.2.targetId, key.1) = (targetId, roundId)).map
    (·.2.output)).dedup
  have mem_found : ∀ output, output ∈ found ↔ ∃ key ∈ joined,
      key.2.targetId = targetId ∧ key.1 = roundId ∧ key.2.output = output := by
    intro output
    simp only [found, List.mem_dedup, List.mem_map, List.mem_filter, decide_eq_true_iff,
      Prod.mk.injEq]
    constructor
    · rintro ⟨key, ⟨member, same, same'⟩, here⟩
      exact ⟨key, member, same, same', here⟩
    · rintro ⟨key, member, same, same', here⟩
      exact ⟨key, ⟨member, same, same'⟩, here⟩
  have within : found ⊆ outputs := by
    intro output member
    obtain ⟨key, inside, -, -, rfl⟩ := (mem_found output).mp member
    exact wanted key inside
  have fits : found.Subperm outputs := (List.nodup_dedup _).subperm within
  rw [completeTargetRounds, List.mem_filter, List.mem_dedup, decide_eq_true_iff]
  constructor
  · rintro ⟨-, counted⟩ output member
    -- As many different outputs as are wanted are all of them.
    have all := fits.perm_of_length_le counted.ge
    exact (mem_found output).mp (all.mem_iff.mpr member)
  · intro each
    have covers : outputs ⊆ found := fun output member => (mem_found output).mpr (each output member)
    refine ⟨?_, le_antisymm fits.length_le (nodup.subperm covers).length_le⟩
    obtain ⟨output, member⟩ := List.exists_mem_of_ne_nil outputs nonempty
    obtain ⟨key, inside, same, same', -⟩ := each output member
    exact List.mem_map.mpr ⟨key, inside, Prod.ext same same'⟩

theorem dedup_tierOutputs : tierOutputs.dedup = tierOutputs := by decide

/-- The groups of the query are the rounds in which a subnet's tier is ready. -/
theorem mem_tierGroups (canonical : state.Canonical) {targetId : String} :
    (targetId, roundId) ∈ completeTargetRounds
        (joinedTargets state.store state.tables riskSchemaId horizon30dSeconds tierOutputs now)
        tierOutputs ↔
      ∃ netuid, targetId = Nat.repr netuid ∧ TierReady state now netuid roundId := by
  rw [mem_completeTargetRounds (by decide) (by decide) fun key member =>
    ((mem_joinedTargets canonical).mp member).choose_spec.2.1]
  constructor
  · intro each
    obtain ⟨key, member, rfl, rfl, -⟩ := each "max_drawdown" (by decide)
    obtain ⟨netuid, here, -, past, -⟩ := (mem_joinedTargets canonical).mp member
    have own : key.2.targetId = Nat.repr netuid := by
      rw [here]
      rfl
    refine ⟨netuid, own, past, fun output wanted => ?_⟩
    obtain ⟨other, member', same, same', rfl⟩ := each output wanted
    obtain ⟨netuid', here', -, -, ready⟩ := (mem_joinedTargets canonical).mp member'
    have other_own : other.2.targetId = Nat.repr netuid' := by
      rw [here']
      rfl
    rw [← same', Nat.repr_injective (own.symm.trans (same.symm.trans other_own))]
    exact ready
  · rintro ⟨netuid, rfl, past, ready⟩ output wanted
    exact ⟨(roundId, subnetAsset netuid horizon30dSeconds output),
      (mem_joinedTargets canonical).mpr ⟨netuid, rfl, wanted, past, ready output wanted⟩,
      rfl, rfl, rfl⟩

theorem readNetuid_repr (netuid : ℕ) : readNetuid (Nat.repr netuid) = .ok netuid := by
  rw [readNetuid, Nat.toNat?_repr]

/-- The query maps exactly the subnets with a ready round, each to its newest one. -/
theorem exists_latestRounds (canonical : state.Canonical) :
    ∃ rounds, latestAssessmentRoundsWithResolvedOutputs state.store state.tables riskSchemaId
        horizon30dSeconds tierOutputs now = .ok rounds ∧
      (∀ netuid roundId, rounds.get? netuid = some roundId ↔
        IsGreatest {roundId | TierReady state now netuid roundId} roundId) ∧
      ∀ netuid, (∃ roundId, TierReady state now netuid roundId) → netuid ∈ rounds.keys := by
  let groups := completeTargetRounds
    (joinedTargets state.store state.tables riskSchemaId horizon30dSeconds tierOutputs now)
    tierOutputs
  let targetIds := (groups.map Prod.fst).dedup.insertionSort (· ≤ ·)
  let newest (targetId : String) : String :=
    ((groups.filter (·.1 = targetId)).map Prod.snd).max?.getD ""
  let row (targetId : String) : Except FeedError (ℕ × String) := do
    let netuid ← readNetuid targetId
    return (netuid, newest targetId)
  have mem_targetIds : ∀ targetId, targetId ∈ targetIds ↔
      ∃ netuid roundId, targetId = Nat.repr netuid ∧ TierReady state now netuid roundId := by
    intro targetId
    rw [(List.perm_insertionSort _ _).mem_iff, List.mem_dedup, List.mem_map]
    constructor
    · rintro ⟨⟨_, roundId⟩, member, rfl⟩
      obtain ⟨netuid, named, ready⟩ := (mem_tierGroups canonical).mp member
      exact ⟨netuid, roundId, named, ready⟩
    · rintro ⟨netuid, roundId, named, ready⟩
      exact ⟨(targetId, roundId), (mem_tierGroups canonical).mpr ⟨netuid, named, ready⟩, rfl⟩
  -- The maximum of a subnet's group is its newest ready round.
  have newest_iff : ∀ netuid roundId, (∃ other, TierReady state now netuid other) →
      (newest (Nat.repr netuid) = roundId ↔
        IsGreatest {roundId | TierReady state now netuid roundId} roundId) := by
    intro netuid roundId some_ready
    have mem_group : ∀ other, other ∈ (groups.filter (·.1 = Nat.repr netuid)).map Prod.snd ↔
        TierReady state now netuid other := by
      intro other
      rw [List.mem_map]
      constructor
      · rintro ⟨group, member, rfl⟩
        obtain ⟨listed, named⟩ := List.mem_filter.mp member
        obtain ⟨netuid', named', ready⟩ := (mem_tierGroups canonical).mp listed
        rw [← Nat.repr_injective (named'.symm.trans (of_decide_eq_true named))]
        exact ready
      · intro ready
        exact ⟨(Nat.repr netuid, other), List.mem_filter.mpr
          ⟨(mem_tierGroups canonical).mpr ⟨netuid, rfl, ready⟩, decide_eq_true rfl⟩, rfl⟩
    obtain ⟨other, ready⟩ := some_ready
    obtain ⟨greatest, found⟩ := Option.isSome_iff_exists.mp
      (List.isSome_max?_of_mem ((mem_group other).mpr ready))
    have same : newest (Nat.repr netuid) = greatest := by
      simp only [newest, found, Option.getD_some]
    obtain ⟨member, upper⟩ := List.max?_eq_some_iff.mp found
    have isGreatest : IsGreatest {roundId | TierReady state now netuid roundId} greatest :=
      ⟨(mem_group greatest).mp member, fun other ready => upper other ((mem_group other).mpr ready)⟩
    rw [same]
    exact ⟨fun here => here ▸ isGreatest, fun other => isGreatest.unique other⟩
  let entry (targetId : String) : ℕ × String := (targetId.toNat?.getD 0, newest targetId)
  have entry_repr (netuid : ℕ) : entry (Nat.repr netuid) = (netuid, newest (Nat.repr netuid)) := by
    simp only [entry, Nat.toNat?_repr, Option.getD_some]
  have made : targetIds.mapM row = .ok (targetIds.map entry) := by
    rw [mapM_eq_ok, List.forall₂_map_right_iff, List.forall₂_same]
    intro targetId member
    obtain ⟨netuid, -, rfl, -⟩ := (mem_targetIds targetId).mp member
    simp only [row, readNetuid_repr, entry_repr]
    rfl
  have distinct : ((targetIds.map entry).map Prod.fst).Nodup := by
    rw [List.map_map]
    refine List.Nodup.map_on ?_ ((List.perm_insertionSort _ _).nodup_iff.mpr (List.nodup_dedup _))
    intro targetId member other member' same
    obtain ⟨netuid, -, rfl, -⟩ := (mem_targetIds targetId).mp member
    obtain ⟨netuid', -, rfl, -⟩ := (mem_targetIds other).mp member'
    simp only [Function.comp_apply, entry_repr] at same
    rw [same]
  refine ⟨Dict.ofEntries (targetIds.map entry), ?_, fun netuid roundId => ?_,
    fun netuid ⟨roundId, ready⟩ => ?_⟩
  · rw [latestAssessmentRoundsWithResolvedOutputs]
    simp only [dedup_tierOutputs]
    rw [if_neg (by decide)]
    change (targetIds.mapM row).bind _ = _
    rw [made]
    rfl
  · rw [Dict.get?_ofEntries_of_nodup distinct, List.mem_map]
    constructor
    · rintro ⟨targetId, member, same⟩
      obtain ⟨netuid', other, rfl, ready⟩ := (mem_targetIds targetId).mp member
      rw [entry_repr] at same
      obtain ⟨rfl, here⟩ := Prod.mk.inj same
      exact (newest_iff netuid' roundId ⟨other, ready⟩).mp here
    · intro greatest
      refine ⟨Nat.repr netuid, (mem_targetIds _).mpr ⟨netuid, roundId, rfl, greatest.1⟩, ?_⟩
      rw [entry_repr, (newest_iff netuid roundId ⟨roundId, greatest.1⟩).mpr greatest]
  · refine Dict.mem_keys_iff.mpr ⟨newest (Nat.repr netuid), ?_⟩
    rw [Dict.get?_ofEntries_of_nodup distinct, List.mem_map]
    exact ⟨Nat.repr netuid, (mem_targetIds _).mpr ⟨netuid, roundId, rfl, ready⟩, entry_repr netuid⟩

/-! ### The second reading -/

/-- The consensus rows of a round, in a state with canonical rows. -/
theorem mem_assessmentConsensusFor (canonical : state.Canonical) {row : AssessmentConsensusRow} :
    row ∈ assessmentConsensusFor state.store (riskRound roundId) ↔
      state.store.consensus.get? (riskRound roundId, row.coordinate) = some row := by
  rw [assessmentConsensusFor, (List.perm_insertionSort _ _).mem_iff, Store.consensusRows,
    Dict.mem_values_filter]
  constructor
  · rintro ⟨⟨round, coordinate⟩, found, here⟩
    have same : round = riskRound roundId := of_decide_eq_true here
    subst same
    rw [(canonical.consensus _ coordinate row found rfl).1]
    exact found
  · exact fun found => ⟨_, found, decide_eq_true rfl⟩

/-- Rows of subnet coordinates are grouped by the subnets they name. -/
theorem exists_rowsByNetuid {rows : List AssessmentConsensusRow}
    (canonical : ∀ row ∈ rows, IsSubnetCoordinate row.coordinate) :
    ∃ grouped, rowsByNetuid rows = .ok grouped ∧ ∀ netuid, grouped.getD netuid [] =
      rows.filter fun row => row.coordinate.targetId = Nat.repr netuid := by
  -- the rows are of subnets, so none is skipped and every target id is a number
  have kinds : (rows.filter fun row => row.coordinate.targetKind = "subnet_asset") = rows := by
    refine List.filter_eq_self.mpr fun row member => ?_
    obtain ⟨netuid, horizon, output, made⟩ := canonical row member
    rw [made]
    rfl
  let entry (row : AssessmentConsensusRow) : ℕ × AssessmentConsensusRow :=
    (row.coordinate.targetId.toNat?.getD 0, row)
  have read : rows.mapM (fun row =>
      (readNetuid row.coordinate.targetId).map fun netuid => (netuid, row)) =
        .ok (rows.map entry) := by
    rw [mapM_eq_ok, List.forall₂_map_right_iff, List.forall₂_same]
    intro row member
    obtain ⟨netuid, horizon, output, made⟩ := canonical row member
    have named : row.coordinate.targetId = Nat.repr netuid := by
      rw [made]
      rfl
    simp only [entry, named, readNetuid_repr, Nat.toNat?_repr, Option.getD_some]
    rfl
  refine ⟨Dict.collect (rows.map entry), ?_, fun netuid => ?_⟩
  · rw [rowsByNetuid, kinds]
    simp only [read]
    rfl
  · rw [Dict.getD_collect, List.filter_map, List.map_map]
    have back : Prod.snd ∘ entry = id := rfl
    rw [back, List.map_id]
    refine List.filter_congr fun row member => ?_
    obtain ⟨netuid', horizon, output, made⟩ := canonical row member
    have named : row.coordinate.targetId = Nat.repr netuid' := by
      rw [made]
      rfl
    simp only [Function.comp_apply, entry, named, Nat.toNat?_repr, Option.getD_some, Nat.repr_inj]

/-- The last matching row counts, so any when all have one value. -/
theorem foldl_thirtyDayStep {view : Option ℚ × Option ℚ → Option ℚ} {output : String}
    (step : ∀ values row, view (thirtyDayStep values row) =
      if row.coordinate.horizonValue = horizon30dSeconds ∧ row.coordinate.output = output then
        some row.value
      else view values)
    {rows : List AssessmentConsensusRow} {value : ℚ}
    (agree : ∀ row ∈ rows, row.coordinate.horizonValue = horizon30dSeconds →
      row.coordinate.output = output → row.value = value) (values : Option ℚ × Option ℚ) :
    view (rows.foldl thirtyDayStep values) =
      if ∃ row ∈ rows, row.coordinate.horizonValue = horizon30dSeconds ∧
        row.coordinate.output = output then some value
      else view values := by
  induction rows generalizing values with
  | nil => simp
  | cons first rest ih =>
    rw [List.foldl_cons, ih (fun row member => agree row (List.mem_cons_of_mem first member)), step]
    -- a matching row further on overwrites this one, with the same value
    by_cases later : ∃ row ∈ rest, row.coordinate.horizonValue = horizon30dSeconds ∧
        row.coordinate.output = output
    · obtain ⟨row, member, matching⟩ := later
      rw [if_pos ⟨row, member, matching⟩,
        if_pos ⟨row, List.mem_cons_of_mem first member, matching⟩]
    · rw [if_neg later]
      by_cases here : first.coordinate.horizonValue = horizon30dSeconds ∧
          first.coordinate.output = output
      · rw [if_pos here, if_pos ⟨first, List.mem_cons_self, here⟩,
          agree first List.mem_cons_self here.1 here.2]
      · have none_matches : ¬∃ row ∈ first :: rest,
            row.coordinate.horizonValue = horizon30dSeconds ∧ row.coordinate.output = output := by
          rintro ⟨row, member, matching⟩
          rcases List.mem_cons.mp member with rfl | inside
          · exact here matching
          · exact later ⟨row, inside, matching⟩
        rw [if_neg here, if_neg none_matches]

theorem thirtyDayStep_fst (values : Option ℚ × Option ℚ) (row : AssessmentConsensusRow) :
    (thirtyDayStep values row).1 =
      if row.coordinate.horizonValue = horizon30dSeconds ∧
        row.coordinate.output = "max_drawdown" then some row.value
      else values.1 := by
  rw [thirtyDayStep]
  by_cases horizon : row.coordinate.horizonValue = horizon30dSeconds <;> simp [horizon]

theorem thirtyDayStep_snd (values : Option ℚ × Option ℚ) (row : AssessmentConsensusRow) :
    (thirtyDayStep values row).2 =
      if row.coordinate.horizonValue = horizon30dSeconds ∧
        row.coordinate.output = "realized_volatility" then some row.value
      else values.2 := by
  rw [thirtyDayStep]
  by_cases horizon : row.coordinate.horizonValue = horizon30dSeconds <;> simp [horizon]

theorem mem_resolvedThirtyDayOutputs {coordinate : Coordinate} :
    coordinate ∈ resolvedThirtyDayOutputs state.tables roundId ↔
      ∃ target, state.tables.realizedTargets.get? (roundId, coordinate) = some target ∧
        coordinate.horizonValue = horizon30dSeconds ∧ target.status = .resolved ∧
        target.value.isSome := by
  rw [resolvedThirtyDayOutputs, List.mem_map]
  constructor
  · rintro ⟨⟨_, _⟩, listed, rfl⟩
    obtain ⟨target, found⟩ := Dict.mem_keys_iff.mp listed
    rw [Dict.get?_filter, Option.filter_eq_some_iff, decide_eq_true_iff] at found
    obtain ⟨held, rfl, conditions⟩ := found
    exact ⟨target, held, conditions⟩
  · rintro ⟨target, held, conditions⟩
    refine ⟨(roundId, coordinate), Dict.mem_keys_iff.mpr ⟨target, ?_⟩, rfl⟩
    rw [Dict.get?_filter, Option.filter_eq_some_iff, decide_eq_true_iff]
    exact ⟨held, rfl, conditions⟩

/-- The consensus value that a view of the thirty-day values picks for a ready output. -/
theorem view_thirtyDayValues (canonical : state.Canonical)
    {view : Option ℚ × Option ℚ → Option ℚ} {output : String}
    (step : ∀ values row, view (thirtyDayStep values row) =
      if row.coordinate.horizonValue = horizon30dSeconds ∧ row.coordinate.output = output then
        some row.value
      else view values)
    {row : AssessmentConsensusRow}
    (published : state.store.consensus.get?
      (riskRound roundId, subnetAsset netuid horizon30dSeconds output) = some row) :
    view (thirtyDayValues ((assessmentConsensusFor state.store (riskRound roundId)).filter
      fun row => row.coordinate.targetId = Nat.repr netuid)) = some row.value := by
  have own := (canonical.consensus _ _ row published rfl).1
  have agree : ∀ other ∈ (assessmentConsensusFor state.store (riskRound roundId)).filter
      (fun row => row.coordinate.targetId = Nat.repr netuid),
      other.coordinate.horizonValue = horizon30dSeconds → other.coordinate.output = output →
        other.value = row.value := by
    intro other member horizon named
    obtain ⟨listed, subnet⟩ := List.mem_filter.mp member
    have found := (mem_assessmentConsensusFor canonical).mp listed
    obtain ⟨netuid', horizon', output', made⟩ :=
      (canonical.consensus _ _ other found rfl).2
    -- subnet, horizon and output leave one coordinate, which has one row
    have here : other.coordinate = subnetAsset netuid horizon30dSeconds output := by
      have same := of_decide_eq_true subnet
      rw [made, subnetAsset] at horizon named same ⊢
      simp only at horizon named same
      rw [horizon, named, same, subnetAsset]
    rw [here, published] at found
    cases found
    rfl
  rw [thirtyDayValues, foldl_thirtyDayStep step agree, if_pos]
  refine ⟨row, List.mem_filter.mpr ⟨(mem_assessmentConsensusFor canonical).mpr ?_, ?_⟩, ?_, ?_⟩
  · rw [own]
    exact published
  · rw [own]
    exact decide_eq_true rfl
  · rw [own]
    rfl
  · rw [own]
    rfl

/-- In a ready round the second reading finds both values, and neither is voided. -/
theorem tierInputs_of_ready (canonical : state.Canonical)
    (ready : TierReady state now netuid roundId) :
    ∃ drawdown volatility,
      state.store.consensus.get? (riskRound roundId,
        subnetAsset netuid horizon30dSeconds "max_drawdown") = some drawdown ∧
      state.store.consensus.get? (riskRound roundId,
        subnetAsset netuid horizon30dSeconds "realized_volatility") = some volatility ∧
      tierInputs netuid ((assessmentConsensusFor state.store (riskRound roundId)).filter
          fun row => row.coordinate.targetId = Nat.repr netuid)
        (resolvedThirtyDayOutputs state.tables roundId) =
        ⟨some drawdown.value, some volatility.value, false, false⟩ := by
  obtain ⟨target, value, drawdown, held, resolved, known, published⟩ :=
    ready.2 "max_drawdown" (by decide)
  obtain ⟨target', value', volatility, held', resolved', known', published'⟩ :=
    ready.2 "realized_volatility" (by decide)
  have first := view_thirtyDayValues canonical thirtyDayStep_fst published
  have second := view_thirtyDayValues canonical thirtyDayStep_snd published'
  have resolved_drawdown := mem_resolvedThirtyDayOutputs.mpr
    ⟨target, held, rfl, resolved, known ▸ rfl⟩
  have resolved_volatility := mem_resolvedThirtyDayOutputs.mpr
    ⟨target', held', rfl, resolved', known' ▸ rfl⟩
  refine ⟨drawdown, volatility, published, published', ?_⟩
  simp only [tierInputs, first, second, resolved_drawdown, resolved_volatility, not_true_eq_false,
    decide_false]

/-! ### The payload -/

/-- The members of a universe read back as netuids. -/
theorem exists_members (canonical : state.Canonical) (roundId : Option String) :
    ∃ members, netuidsFromUniverse state.store roundId = .ok members := by
  unfold netuidsFromUniverse
  split
  · exact ⟨_, rfl⟩
  · split
    · exact ⟨_, rfl⟩
    · next snapshot stored =>
      obtain ⟨netuids, same⟩ := canonical.universes _ snapshot stored rfl
      refine exists_mapM_eq_ok fun ticker member => ?_
      rw [same, canonicalAlphaRiskUniverseMembers] at member
      obtain ⟨netuid, -, rfl⟩ := List.mem_map.mp member
      exact ⟨netuid, readNetuid_repr netuid⟩

/-- The tier rounds of the whitelisted subnets are their newest ready ones. -/
theorem exists_tierRounds (canonical : state.Canonical) :
    ∃ rounds, tierRoundsByNetuid state.store state.tables now = .ok rounds ∧
      (∀ netuid roundId, rounds.get? netuid = some roundId ↔
        netuid ∈ alphaRiskWhitelistedNetuids ∧
          IsGreatest {roundId | TierReady state now netuid roundId} roundId) ∧
      ∀ netuid ∈ alphaRiskWhitelistedNetuids, (∃ roundId, TierReady state now netuid roundId) →
        netuid ∈ rounds.keys := by
  obtain ⟨rounds, found, newest, covers⟩ := @exists_latestRounds state now canonical
  refine ⟨rounds.filter fun netuid _ => netuid ∈ alphaRiskWhitelistedNetuids, ?_,
    fun netuid roundId => ?_, fun netuid whitelisted ready => ?_⟩
  · rw [tierRoundsByNetuid, found]
    rfl
  · rw [Dict.get?_filter, Option.filter_eq_some_iff, decide_eq_true_iff, newest, and_comm]
  · obtain ⟨roundId, held⟩ := Dict.mem_keys_iff.mp (covers netuid ready)
    refine Dict.mem_keys_iff.mpr ⟨roundId, ?_⟩
    rw [Dict.get?_filter, Option.filter_eq_some_iff, decide_eq_true_iff]
    exact ⟨held, whitelisted⟩

/-- What the context holds about a tier round. -/
structure Holds (state : FeedState) (tierContext : TierFeedContext) (roundId : String) : Prop where
  rows : ∃ grouped, tierContext.rowsByRound.get? roundId = some grouped ∧
    ∀ netuid, grouped.getD netuid [] =
      (assessmentConsensusFor state.store (riskRound roundId)).filter
        fun row => row.coordinate.targetId = Nat.repr netuid
  resolved : tierContext.resolvedOutputsByRound.get? roundId =
    some (resolvedThirtyDayOutputs state.tables roundId)
  revealed : tierContext.revealCloseByRound.get? roundId =
    some (revealCloseAt state.store roundId)

theorem get?_ofEntries_map {ν : Type} (roundIds : List String) (f : String → ν)
    (member : roundId ∈ roundIds) :
    (Dict.ofEntries (roundIds.map fun roundId => (roundId, f roundId))).get? roundId =
      some (f roundId) := by
  let value (roundId : String) : Option ν := some (f roundId)
  have agree : ∀ entry ∈ roundIds.map fun roundId => (roundId, f roundId),
      value entry.1 = some entry.2 := by
    intro entry inside
    obtain ⟨other, -, rfl⟩ := List.mem_map.mp inside
    rfl
  rw [Dict.get?_ofEntries_of_agree agree, if_pos]
  exact List.mem_map.mpr ⟨_, List.mem_map_of_mem member, rfl⟩

/-- The context holds the rows and targets of every tier round. -/
theorem exists_tierFeedContext (canonical : state.Canonical) (rounds : Dict ℕ String) :
    ∃ tierContext, tierFeedContext state.store state.tables rounds = .ok tierContext ∧
      tierContext.roundsByNetuid = rounds ∧
      ∀ netuid roundId, rounds.get? netuid = some roundId → Holds state tierContext roundId := by
  let roundIds := rounds.values.dedup.insertionSort (· ≤ ·)
  have readable (roundId : String) := @exists_rowsByNetuid
    (assessmentConsensusFor state.store (riskRound roundId)) fun row member =>
      (canonical.consensus _ _ row ((mem_assessmentConsensusFor canonical).mp member) rfl).2
  choose grouped read held using readable
  have made : roundIds.mapM (fun roundId =>
      (rowsByNetuid (assessmentConsensusFor state.store (riskRound roundId))).map (roundId, ·)) =
        .ok (roundIds.map fun roundId => (roundId, grouped roundId)) := by
    rw [mapM_eq_ok, List.forall₂_map_right_iff, List.forall₂_same]
    intro roundId member
    rw [read]
    rfl
  refine ⟨{
    roundsByNetuid := rounds
    rowsByRound := Dict.ofEntries (roundIds.map fun roundId => (roundId, grouped roundId))
    resolvedOutputsByRound := Dict.ofEntries (roundIds.map fun roundId =>
      (roundId, resolvedThirtyDayOutputs state.tables roundId))
    revealCloseByRound := Dict.ofEntries (roundIds.map fun roundId =>
      (roundId, revealCloseAt state.store roundId)) }, ?_, rfl, fun netuid roundId found => ?_⟩
  · rw [tierFeedContext]
    exact bind_eq_ok.mpr ⟨_, made, rfl⟩
  · have listed : roundId ∈ roundIds := by
      rw [(List.perm_insertionSort _ _).mem_iff, List.mem_dedup]
      exact List.mem_map.mpr ⟨_, Dict.get?_eq_some_iff.mp found, rfl⟩
    exact ⟨⟨grouped roundId, get?_ofEntries_map roundIds grouped listed, held roundId⟩,
      get?_ofEntries_map roundIds _ listed, get?_ofEntries_map roundIds _ listed⟩

/-- What the feed says about a subnet: a tier, and the newest round in which the subnet's tier
is ready, or neither. -/
structure Agrees (state : FeedState) (now : ℤ) (subnet : SubnetPayload) : Prop where
  whitelisted : subnet.netuid ∈ alphaRiskWhitelistedNetuids
  rated_iff : subnet.tierRoundId.isSome ↔ subnet.tier ≠ .unrated
  newest : ∀ roundId, subnet.tierRoundId = some roundId ↔
    IsGreatest {roundId | TierReady state now subnet.netuid roundId} roundId
  derived : ∀ roundId, subnet.tierRoundId = some roundId → ∃ drawdown volatility,
    state.store.consensus.get? (riskRound roundId,
      subnetAsset subnet.netuid horizon30dSeconds "max_drawdown") = some drawdown ∧
    state.store.consensus.get? (riskRound roundId,
      subnetAsset subnet.netuid horizon30dSeconds "realized_volatility") = some volatility ∧
    subnet.tier = deriveRiskTier ⟨some drawdown.value, some volatility.value, false, false⟩

/-- The payload of a whitelisted subnet agrees with the rows. -/
theorem exists_subnetPayload (canonical : state.Canonical) {rounds : Dict ℕ String}
    (newest : ∀ netuid roundId, rounds.get? netuid = some roundId ↔
      netuid ∈ alphaRiskWhitelistedNetuids ∧
        IsGreatest {roundId | TierReady state now netuid roundId} roundId)
    {tierContext : TierFeedContext} (same : tierContext.roundsByNetuid = rounds)
    (holds : ∀ netuid roundId, rounds.get? netuid = some roundId → Holds state tierContext roundId)
    (whitelisted : netuid ∈ alphaRiskWhitelistedNetuids)
    (consensusRows : List AssessmentConsensusRow) :
    ∃ subnet, subnetPayload netuid consensusRows tierContext = .ok subnet ∧
      subnet.netuid = netuid ∧ Agrees state now subnet := by
  cases found : rounds.get? netuid with
  -- without a ready round the subnet is unrated
  | none =>
    refine ⟨⟨netuid, .unrated, none, none, consensusRows.map consensusPayload⟩, ?_, rfl,
      whitelisted, ?_, ?_, nofun⟩
    · rw [subnetPayload, same, found]
    · exact iff_of_false nofun fun rated => rated rfl
    · refine fun roundId => iff_of_false nofun fun greatest => ?_
      rw [(newest netuid roundId).mpr ⟨whitelisted, greatest⟩] at found
      cases found
  -- the second reading finds the values that the query promised
  | some roundId =>
    have greatest := ((newest netuid roundId).mp found).2
    obtain ⟨⟨grouped, fetched, rows⟩, resolved, revealed⟩ := holds netuid roundId found
    obtain ⟨drawdown, volatility, published, published', inputs⟩ :=
      tierInputs_of_ready canonical greatest.1
    refine ⟨⟨netuid, deriveRiskTier ⟨some drawdown.value, some volatility.value, false, false⟩,
      some roundId, revealCloseAt state.store roundId, consensusRows.map consensusPayload⟩, ?_, rfl,
      whitelisted, ?_, ?_, ?_⟩
    · rw [subnetPayload, same, found]
      simp only [fetch, fetched, resolved, revealed, rows, inputs, bind, Except.bind, pure,
        Except.pure]
    · have rated : deriveRiskTier ⟨some drawdown.value, some volatility.value, false, false⟩ ≠
          .unrated := deriveRiskTier_ne_unrated_iff.mpr ⟨rfl, rfl, rfl, rfl⟩
      exact iff_of_true rfl rated
    · intro other
      constructor
      · intro here
        cases here
        exact greatest
      · exact fun another => congrArg some (greatest.unique another)
    · intro other here
      cases here
      exact ⟨drawdown, volatility, published, published', rfl⟩

/-- **The feed's tier selection and its recheck agree.** In every state that the transactions
of the validator reach, and at every read time, the feed has a payload in which every subnet is
whitelisted and has a tier round exactly when it is rated. That round is the newest one past
its embargo in which both thirty-day tier outputs of the subnet have targets with values and
consensus rows, and the tier is the one of these rows. A whitelisted subnet with such a round is
in the feed. -/
theorem feed_tiers_agree (limits : Limits) (operations : List FeedOperation) (now : ℤ) :
    let state := run (FeedOperation.apply limits) FeedState.empty operations
    ∃ payload, feedPayload state.store state.tables now = .ok payload ∧
      (∀ subnet ∈ payload.subnets, Agrees state now subnet) ∧
      ∀ netuid ∈ alphaRiskWhitelistedNetuids, (∃ roundId, TierReady state now netuid roundId) →
        ∃ subnet ∈ payload.subnets, subnet.netuid = netuid := by
  intro state
  have canonical : state.Canonical := FeedState.canonical_run limits operations
  let roundId := latestAssessmentConsensusRound state.store riskSchemaId now
  let consensusRows := (roundId.map fun roundId =>
    assessmentConsensusFor state.store (riskRound roundId)).getD []
  have subnets : ∀ row ∈ consensusRows, IsSubnetCoordinate row.coordinate := by
    intro row member
    simp only [consensusRows] at member
    cases latest : roundId with
    | none =>
      rw [latest] at member
      exact absurd member List.not_mem_nil
    | some roundId =>
      rw [latest] at member
      exact (canonical.consensus _ _ row ((mem_assessmentConsensusFor canonical).mp member) rfl).2
  obtain ⟨members, readMembers⟩ := exists_members canonical roundId
  obtain ⟨rounds, selected, newest, covers⟩ := @exists_tierRounds state now canonical
  obtain ⟨tierContext, readContext, same, holds⟩ := exists_tierFeedContext canonical rounds
  obtain ⟨grouped, readRows, -⟩ := exists_rowsByNetuid subnets
  let netuids := (members.filter (· ∈ alphaRiskWhitelistedNetuids) ++
    rounds.keys).dedup.insertionSort (· ≤ ·)
  have whitelisted : ∀ netuid ∈ netuids, netuid ∈ alphaRiskWhitelistedNetuids := by
    intro netuid member
    rw [(List.perm_insertionSort _ _).mem_iff, List.mem_dedup, List.mem_append] at member
    rcases member with listed | selected
    · exact of_decide_eq_true (List.mem_filter.mp listed).2
    · obtain ⟨roundId, found⟩ := Dict.mem_keys_iff.mp selected
      exact ((newest netuid roundId).mp found).1
  -- nothing in the payload of a listed subnet can fail
  have each (netuid : ℕ) (member : netuid ∈ netuids) := exists_subnetPayload canonical newest same
    holds (whitelisted netuid member) (grouped.getD netuid [])
  obtain ⟨payloads, made⟩ := exists_mapM_eq_ok fun netuid member =>
    (each netuid member).imp fun _ facts => facts.1
  refine ⟨⟨riskSchemaId, feedSchemaVersion, roundId, roundId.bind (revealCloseAt state.store),
    payloads⟩, ?_, fun subnet member => ?_, fun netuid listed ready => ?_⟩
  -- the endpoint's reads in their order
  · exact bind_eq_ok.mpr ⟨members, readMembers, bind_eq_ok.mpr ⟨rounds, selected,
      bind_eq_ok.mpr ⟨tierContext, readContext, bind_eq_ok.mpr ⟨grouped, readRows,
        bind_eq_ok.mpr ⟨payloads, made, rfl⟩⟩⟩⟩⟩
  · obtain ⟨netuid, inside, built⟩ := exists_item made member
    obtain ⟨other, built', -, agrees⟩ := each netuid inside
    cases built.symm.trans built'
    exact agrees
  · have listed_netuid : netuid ∈ netuids := by
      rw [(List.perm_insertionSort _ _).mem_iff, List.mem_dedup, List.mem_append]
      exact .inr (covers netuid listed ready)
    obtain ⟨subnet, inside, built⟩ := exists_result made listed_netuid
    obtain ⟨other, built', named, -⟩ := each netuid listed_netuid
    cases built.symm.trans built'
    exact ⟨subnet, inside, named⟩

end Endure.Publication
