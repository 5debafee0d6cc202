import Endure.Scoring.InterruptedScoring

/-!
# The memory of retired coordinates

Scoring passes whose active coordinates change from one to the next. A row at a coordinate
outside the active set keeps its value but for the scores that passes still observe there,
and pruning reaches only the coordinates that are active.
-/

namespace Endure.Scoring

open Library Library.Checked Library.Transitions Endure.Storage

/-- One call to `resolve_and_score`, the orchestrator that serves it and the rounds that it
reads. -/
structure ScoringTick where
  orchestrator : AssessmentScoringOrchestrator
  rounds : Store
  call : ScoringCall

/-- The pass resolves the coordinate: it has a target with a value there. -/
def ScoringPass.Resolves (pass : ScoringPass) (coordinate : Coordinate) : Prop :=
  ∃ target ∈ pass.realizedTargets,
    target.coordinate = coordinate ∧ target.status = .resolved ∧ target.value.isSome

/-- The row that an observed score leads to. -/
def nextState (alpha : ℚ) (prior : Option EmaState) (score : ℚ) : EmaState :=
  ⟨emaUpdate alpha (prior.map EmaState.ema) score,
    (prior.map EmaState.resolvedRounds).getD 0 + 1⟩

namespace ScoringTick

/-- The tables after a call; a call that raises leaves them as they are. -/
def apply (tick : ScoringTick) (tables : AssessmentTables) : AssessmentTables :=
  match tick.orchestrator.resolveAndScore tick.rounds tables tick.call with
  | .ok (recorded, _) => recorded
  | .error _ => tables

/-- The pass that a call records, if it records one. -/
def passOn (tick : ScoringTick) (tables : AssessmentTables) : Option ScoringPass :=
  match tick.orchestrator.preparePass tick.rounds tables tick.call with
  | .ok (some (pass, _)) => if pass.prunedCoordinates = some ∅ then none else some pass
  | _ => none

/-- The score that a call observes of a hotkey at a coordinate. -/
def observation (tick : ScoringTick) (tables : AssessmentTables)
    (key : Hotkey × Coordinate) : Option ℚ :=
  (tick.passOn tables).bind fun pass =>
    (pass.outputScores.find? fun entry => entry.1 = key).map (·.2.score)

/-- The coordinate is in the tick's active set. Without a set every coordinate is. -/
def Active (tick : ScoringTick) (coordinate : Coordinate) : Prop :=
  tick.orchestrator.config.activeCoordinates.all (coordinate ∈ ·) = true

instance (tick : ScoringTick) (coordinate : Coordinate) : Decidable (tick.Active coordinate) :=
  inferInstanceAs (Decidable (_ = true))

/-- The hotkeys that a call prunes. -/
def pruned (tick : ScoringTick) (tables : AssessmentTables) : List Hotkey :=
  ((tick.passOn tables).map ScoringPass.prunedHotkeys).getD []

/-- A row once the score that a call observes there has been absorbed. -/
def absorbed (tick : ScoringTick) (tables : AssessmentTables) (key : Hotkey × Coordinate) :
    Option EmaState :=
  match tick.observation tables key with
  | none => tables.emaStates.get? key
  | some score => some (nextState tick.orchestrator.alpha (tables.emaStates.get? key) score)

/-- What a call observes in one row: the weight of the score, and the score. -/
def observations (key : Hotkey × Coordinate) (tick : ScoringTick) (tables : AssessmentTables) :
    List (ℚ × ℚ) :=
  ((tick.observation tables key).map fun score => (tick.orchestrator.alpha, score)).toList

variable {tick : ScoringTick} {tables : AssessmentTables} {pass : ScoringPass}

/-! ### One call -/

/-- The pass scores some hotkeys at the coordinates that its targets resolve. -/
def Scores (tick : ScoringTick) (tables : AssessmentTables) (pass : ScoringPass) : Prop :=
  ∃ targets complete cells hotkeys,
    pass = tick.orchestrator.scoringPass tick.call tables.emaStates
      (tick.orchestrator.config.acceptedValues tick.rounds tick.call.roundId) targets complete
      cells ∧
    tick.orchestrator.CellsOf
      (tick.orchestrator.config.acceptedValues tick.rounds tick.call.roundId) hotkeys
      (resolvedValues targets) cells

/-- The pass adds targets that the resolvers of the call have answered with. -/
def Settles (tick : ScoringTick) (tables : AssessmentTables) (pass : ScoringPass) : Prop :=
  (tick.apply tables).realizedTargets = tables.realizedTargets.insertAllIfAbsent
    (pass.realizedTargets.map fun target => ((tick.call.roundId, target.coordinate), target)) ∧
  ∀ target ∈ pass.realizedTargets, ∃ netuid output,
    tick.call.resolver netuid tick.call.horizon output = .target target

/-- A call records no pass and changes nothing, or records the pass of some cells over some
targets. -/
theorem apply_cases (tick : ScoringTick) (tables : AssessmentTables) :
    tick.passOn tables = none ∧ tick.apply tables = tables ∨
      ∃ pass, tick.passOn tables = some pass ∧
        (tick.apply tables).emaStates = AssessmentTables.updatedEmas tables.emaStates pass ∧
        tick.Scores tables pass ∧ tick.Settles tables pass := by
  cases prepared : tick.orchestrator.preparePass tick.rounds tables tick.call with
  | error raised =>
    left
    constructor
    · rw [passOn, prepared]
    · rw [apply, AssessmentScoringOrchestrator.resolveAndScore, prepared]
      rfl
  | ok made =>
    cases made with
    | none =>
      left
      constructor
      · rw [passOn, prepared]
      · rw [apply, AssessmentScoringOrchestrator.resolveAndScore, prepared]
        rfl
    | some both =>
      obtain ⟨pass, scores⟩ := both
      -- the pass is that of the cells that were scored over the targets that were resolved
      obtain ⟨unmarked, -, members, -, scored⟩ :=
        AssessmentScoringOrchestrator.preparePass_eq_some prepared
      obtain ⟨targets, cells, found, done, made, -⟩ :=
        AssessmentScoringOrchestrator.scoreRound_eq_ok.mp scored
      have cellsOf := AssessmentScoringOrchestrator.cellsOf_of_mapM
        (List.perm_insertionSort _ _) done
      have named : pass.prunedCoordinates = tick.orchestrator.config.activeCoordinates := by
        rw [made]
        rfl
      have sameHorizon : pass.horizonValue = tick.call.horizon := by
        rw [made]
        rfl
      have computed : tick.orchestrator.resolveAndScore tick.rounds tables tick.call =
          (tables.recordAssessmentScoringPass tick.call.roundId pass tick.call.nowIso).map
            fun recorded => (recorded, scores) := by
        rw [AssessmentScoringOrchestrator.resolveAndScore, prepared]
        rfl
      by_cases empty : pass.prunedCoordinates = some ∅
      · -- An empty active set is refused before the transaction.
        left
        constructor
        · simp only [passOn, prepared]
          exact if_pos empty
        · rw [apply, computed, AssessmentTables.recordAssessmentScoringPass, if_pos empty]
          rfl
      · right
        -- with an active set that is not empty the transaction goes through
        obtain ⟨recorded, written⟩ :=
          @AssessmentTables.exists_recorded tables tick.call.roundId pass empty tick.call.nowIso
        rw [← sameHorizon] at unmarked
        obtain ⟨-, emas⟩ := (AssessmentTables.recordAssessmentScoringPass_eq_ok unmarked).mp written
        have stored : tick.apply tables = recorded := by
          rw [apply, computed, written]
          rfl
        refine ⟨pass, ?_, ?_, ⟨targets, _, cells, _, made, cellsOf⟩, ?_, ?_⟩
        · simp only [passOn, prepared]
          exact if_neg empty
        · rw [stored]
          exact congrArg AssessmentTables.emaStates emas
        · rw [stored]
          exact congrArg AssessmentTables.realizedTargets emas
        · intro target member
          rw [made] at member
          obtain ⟨cell, -, -, answered⟩ :=
            AssessmentScoringOrchestrator.mem_resolveTargets found target member
          exact ⟨cell.1, cell.2, answered⟩

/-- A coordinate with a resolved value has a target with that value. -/
theorem resolves_of_mem_keys {targets : List AssessmentRealizedTarget}
    (listed : pass.realizedTargets = targets) {coordinate : Coordinate}
    (known : coordinate ∈ (resolvedValues targets).keys) : pass.Resolves coordinate := by
  have among : coordinate ∈ (targets.filterMap fun target =>
      if target.status = .resolved then target.value.map (target.coordinate, ·) else none).map
        Prod.fst := by
    by_contra absent
    refine Dict.get?_eq_none_iff.mp ?_ known
    rw [resolvedValues, Dict.ofEntries, Dict.get?_setAll_of_notMem _ _ absent, Dict.get?_empty]
  obtain ⟨entry, member, rfl⟩ := List.mem_map.mp among
  obtain ⟨target, inside, made⟩ := List.mem_filterMap.mp member
  split at made
  · next resolved =>
    obtain ⟨value, found, rfl⟩ := Option.map_eq_some_iff.mp made
    exact ⟨target, listed ▸ inside, rfl, resolved, found ▸ rfl⟩
  · cases made

/-- A score is observed only where the pass resolves the coordinate. -/
theorem resolves_of_observation {key : Hotkey × Coordinate}
    (observed : (tick.observation tables key).isSome) :
    ∃ pass, tick.passOn tables = some pass ∧ pass.Resolves key.2 := by
  rcases tick.apply_cases tables with
    ⟨idle, -⟩ | ⟨pass, recorded, -, ⟨targets, complete, cells, hotkeys, made, cellsOf⟩, -⟩
  · rw [observation, idle] at observed
    cases observed
  · refine ⟨pass, recorded, resolves_of_mem_keys (?_ : pass.realizedTargets = targets) ?_⟩
    · rw [made]
      rfl
    · rw [observation, recorded, Option.bind_some, Option.isSome_map, List.find?_isSome] at observed
      obtain ⟨entry, member, same⟩ := observed
      rw [made] at member
      obtain ⟨cell, inside, rfl⟩ := List.mem_map.mp member
      rw [← of_decide_eq_true same]
      exact ((cellsOf.mem _ _).mp ⟨cell, inside, rfl, rfl⟩).2

/-- The updates of a pass absorb the observed scores and leave the other rows. -/
theorem get?_setAll_emaUpdates (recorded : tick.passOn tables = some pass)
    (scores : tick.Scores tables pass) (key : Hotkey × Coordinate) :
    (tables.emaStates.setAll pass.emaUpdates).get? key = tick.absorbed tables key := by
  obtain ⟨targets, complete, cells, hotkeys, made, cellsOf⟩ := scores
  have found (key : Hotkey × Coordinate) : tick.observation tables key =
      (cells.find? fun cell => (cell.hotkey, cell.coordinate) = key).map ScoredCell.score := by
    rw [observation, recorded, Option.bind_some, made]
    simp only [AssessmentScoringOrchestrator.scoringPass, List.find?_map, Option.map_map]
    rfl
  let state (key : Hotkey × Coordinate) : Option EmaState :=
    (tick.observation tables key).map
      (nextState tick.orchestrator.alpha (tables.emaStates.get? key))
  -- Cells of one hotkey at one coordinate carry one score.
  have agree : ∀ entry ∈ cells.map (tick.orchestrator.emaUpdateOf tables.emaStates),
      state entry.1 = some entry.2 := by
    intro entry member
    obtain ⟨cell, inside, rfl⟩ := List.mem_map.mp member
    have some_found : (cells.find? fun other => (other.hotkey, other.coordinate) =
        (cell.hotkey, cell.coordinate)).isSome :=
      List.find?_isSome.mpr ⟨cell, inside, decide_eq_true rfl⟩
    obtain ⟨other, first⟩ := Option.isSome_iff_exists.mp some_found
    have same : (other.hotkey, other.coordinate) = (cell.hotkey, cell.coordinate) := by
      simpa using List.find?_some first
    obtain ⟨target, value, scored⟩ := cellsOf.score cell inside
    obtain ⟨target', value', scored'⟩ := cellsOf.score other (List.mem_of_find?_eq_some first)
    rw [(Prod.mk.inj same).1, (Prod.mk.inj same).2] at scored'
    rw [(Prod.mk.inj same).2, value] at value'
    cases value'
    have fetched : tick.observation tables (cell.hotkey, cell.coordinate) = some cell.score := by
      rw [found, first, Option.map_some, scored', scored]
    change (tick.observation tables (cell.hotkey, cell.coordinate)).map _ = _
    rw [fetched]
    rfl
  have updates : pass.emaUpdates = cells.map (tick.orchestrator.emaUpdateOf tables.emaStates) := by
    rw [made]
    rfl
  rw [updates, Dict.get?_setAll_of_agree agree, absorbed]
  cases observed : tick.observation tables key with
  | none =>
    have absent : key ∉
        (cells.map (tick.orchestrator.emaUpdateOf tables.emaStates)).map Prod.fst := by
      intro member
      obtain ⟨entry, inside, rfl⟩ := List.mem_map.mp member
      have updated := agree entry inside
      simp only [state, observed, Option.map_none] at updated
      cases updated
    rw [if_neg absent]
  | some score =>
    have listed := observed
    rw [found, Option.map_eq_some_iff] at listed
    obtain ⟨cell, first, -⟩ := listed
    have present : key ∈
        (cells.map (tick.orchestrator.emaUpdateOf tables.emaStates)).map Prod.fst := by
      have same : (cell.hotkey, cell.coordinate) = key := by
        simpa using List.find?_some first
      exact List.mem_map.mpr ⟨_, List.mem_map_of_mem (List.mem_of_find?_eq_some first), same⟩
    rw [if_pos present]
    simp only [state, observed, Option.map_some]

/-- **What one call does to a row.** A call that archives nobody absorbs the observed score
into every row, and then deletes the rows of the pruned hotkeys at active coordinates. -/
theorem get?_apply (unarchived : tick.call.archiveHotkeys = []) (hotkey : Hotkey)
    (coordinate : Coordinate) :
    (tick.apply tables).emaStates.get? (hotkey, coordinate) =
      if hotkey ∈ tick.pruned tables ∧ tick.Active coordinate then none
      else tick.absorbed tables (hotkey, coordinate) := by
  rcases tick.apply_cases tables with ⟨idle, same⟩ | ⟨pass, recorded, emas, scores, -⟩
  · rw [same, pruned, absorbed, observation, idle]
    exact (if_neg fun both => List.not_mem_nil both.1).symm
  · have updated := get?_setAll_emaUpdates recorded scores (hotkey, coordinate)
    obtain ⟨targets, complete, cells, hotkeys, made, -⟩ := scores
    have nobody : pass.archiveHotkeys = [] := by
      rw [made]
      exact unarchived
    have within : pass.prunedCoordinates = tick.orchestrator.config.activeCoordinates := by
      rw [made]
      rfl
    have unlisted : ¬(hotkey ∈ ([] : List Hotkey) ∧ coordinate.horizonValue = pass.horizonValue) :=
      fun both => List.not_mem_nil both.1
    rw [emas, AssessmentTables.updatedEmas, AssessmentTables.get?_prune,
      AssessmentTables.get?_archiveHorizon, nobody, if_neg unlisted, updated, within,
      pruned, recorded, Option.map_some, Option.getD_some]
    rfl

/-! ### Runs -/

/-- A row after one more observation. -/
def absorbState (row : Option EmaState) (observed : ℚ × ℚ) : Option EmaState :=
  some (nextState observed.1 row observed.2)

/-- A row outside the active set of a call only absorbs what the call observes there. -/
theorem get?_apply_of_outside (unarchived : tick.call.archiveHotkeys = []) {hotkey : Hotkey}
    {coordinate : Coordinate} (outside : ¬ tick.Active coordinate) :
    (tick.apply tables).emaStates.get? (hotkey, coordinate) =
      (tick.observations (hotkey, coordinate) tables).foldl absorbState
        (tables.emaStates.get? (hotkey, coordinate)) := by
  rw [get?_apply unarchived, if_neg fun both => outside both.2, absorbed, observations]
  cases tick.observation tables (hotkey, coordinate) with
  | none => rfl
  | some score => rfl

/-- Observations never delete a row. -/
theorem isSome_foldl_absorbState {row : Option EmaState} (present : row.isSome)
    (observed : List (ℚ × ℚ)) : (observed.foldl absorbState row).isSome := by
  induction observed generalizing row with
  | nil => exact present
  | cons first rest ih => exact ih rfl

/-- Along calls that leave a coordinate outside their active sets, a row there folds what
they observe of it. -/
theorem get?_run_of_outside {ticks : List ScoringTick} {hotkey : Hotkey} {coordinate : Coordinate}
    (unarchived : ∀ tick ∈ ticks, tick.call.archiveHotkeys = [])
    (outside : ∀ tick ∈ ticks, ¬ tick.Active coordinate) :
    (run apply tables ticks).emaStates.get? (hotkey, coordinate) =
      (trail apply (observations (hotkey, coordinate)) tables ticks).foldl absorbState
        (tables.emaStates.get? (hotkey, coordinate)) :=
  @run_eq_foldl_trail _ _ apply tables _ _ _
    (fun tables => tables.emaStates.get? (hotkey, coordinate)) absorbState _
    fun tick member _ => get?_apply_of_outside (unarchived tick member) (outside tick member)

end ScoringTick

/-- **Retirement preserves memory.** Along calls that archive nobody and keep a coordinate
outside their active sets, however these change, the row of a hotkey there is at every moment
the fold of exactly the scores observed in it over the row it had at retirement, and so is
never deleted. It changes only with a score that a call observes there, and a call observes
one only where its pass resolves the coordinate. Meanwhile every call absorbs what it observes
in any row and deletes exactly the rows of the hotkeys it prunes at the coordinates it has
active. -/
theorem retirement_preserves_memory (tables : AssessmentTables)
    (before retired : List ScoringTick) (hotkey : Hotkey) (coordinate : Coordinate)
    (unarchived : ∀ tick ∈ retired, tick.call.archiveHotkeys = [])
    (outside : ∀ tick ∈ retired, ¬ tick.Active coordinate) :
    let after ticks := run ScoringTick.apply tables ticks
    let row ticks := (after ticks).emaStates.get? (hotkey, coordinate)
    (∀ earlier, earlier <+: retired →
      row (before ++ earlier) =
        (trail ScoringTick.apply (ScoringTick.observations (hotkey, coordinate)) (after before)
          earlier).foldl ScoringTick.absorbState (row before) ∧
      ((row before).isSome → (row (before ++ earlier)).isSome)) ∧
    ∀ earlier tick later, retired = earlier ++ tick :: later →
      (row (before ++ earlier ++ [tick]) ≠ row (before ++ earlier) →
        ∃ pass score, tick.passOn (after (before ++ earlier)) = some pass ∧
          pass.Resolves coordinate ∧
          tick.observation (after (before ++ earlier)) (hotkey, coordinate) = some score ∧
          row (before ++ earlier ++ [tick]) =
            some (nextState tick.orchestrator.alpha (row (before ++ earlier)) score)) ∧
      ∀ other place, (after (before ++ earlier ++ [tick])).emaStates.get? (other, place) =
        if other ∈ tick.pruned (after (before ++ earlier)) ∧ tick.Active place then none
        else tick.absorbed (after (before ++ earlier)) (other, place) := by
  intro after row
  constructor
  · intro earlier part
    have folds : row (before ++ earlier) =
        (trail ScoringTick.apply (ScoringTick.observations (hotkey, coordinate)) (after before)
          earlier).foldl ScoringTick.absorbState (row before) := by
      simp only [row, after, run_append]
      exact ScoringTick.get?_run_of_outside
        (fun tick member => unarchived tick (part.subset member))
        fun tick member => outside tick (part.subset member)
    refine ⟨folds, fun present => ?_⟩
    rw [folds]
    exact ScoringTick.isSome_foldl_absorbState present _
  · intro earlier tick later split
    have among : tick ∈ retired := split ▸ List.mem_append_right _ List.mem_cons_self
    have next : after (before ++ earlier ++ [tick]) = tick.apply (after (before ++ earlier)) := by
      simp only [after]
      rw [run_append]
      rfl
    -- what one tick does to a row, pruning included
    have step (other : Hotkey) (place : Coordinate) :=
      @ScoringTick.get?_apply tick (after (before ++ earlier)) (unarchived tick among) other place
    refine ⟨fun changed => ?_, fun other place => ?_⟩
    · have moved : row (before ++ earlier ++ [tick]) =
          tick.absorbed (after (before ++ earlier)) (hotkey, coordinate) := by
        have kept := step hotkey coordinate
        rw [if_neg fun both => outside tick among both.2, ← next] at kept
        exact kept
      -- without an observation the row would not have changed
      cases observed : tick.observation (after (before ++ earlier)) (hotkey, coordinate) with
      | none =>
        refine absurd ?_ changed
        rw [moved, ScoringTick.absorbed, observed]
      | some score =>
        obtain ⟨pass, recorded, resolves⟩ :=
          ScoringTick.resolves_of_observation (Option.isSome_iff_exists.mpr ⟨score, observed⟩)
        refine ⟨pass, score, recorded, resolves, rfl, ?_⟩
        rw [moved, ScoringTick.absorbed, observed]
    · rw [next]
      exact step other place

/-- A call for the second round while only two coordinates are active: the five-day volatility
and the thirty-day drawdown. -/
def narrowedTick : ScoringTick where
  orchestrator :=
    { twoOutputs with
      config := { twoOutputs.config with
        activeCoordinates := some {⟨"subnet", "1", "days", 5, "volatility"⟩,
          ⟨"subnet", "1", "days", 30, "drawdown"⟩} } }
  rounds := absentSince
  call := fiveDayCall [] fun _ => false

/-- The absent hotkey is pruned at the active coordinates, and its retired row halves. -/
theorem retirement_preserves_memory_almostGone :
    let after := run ScoringTick.apply almostGone [narrowedTick]
    let retired : Hotkey × Coordinate := ("a", ⟨"subnet", "1", "days", 5, "drawdown"⟩)
    thirtyDayRow after = none ∧ "a" ∈ narrowedTick.pruned almostGone ∧
    after.emaStates.get? retired = some ⟨1 / 4, 2⟩ ∧
    after.emaStates.get? retired =
      (trail ScoringTick.apply (ScoringTick.observations retired) almostGone
        [narrowedTick]).foldl ScoringTick.absorbState (some ⟨1 / 2, 1⟩) := by
  refine ⟨by decide +kernel, by decide +kernel, by decide +kernel, ?_⟩
  have kept := (retirement_preserves_memory almostGone [] [narrowedTick] "a"
    ⟨"subnet", "1", "days", 5, "drawdown"⟩ (fun tick member => by
      cases List.mem_singleton.mp member
      rfl) (fun tick member => by
      cases List.mem_singleton.mp member
      decide +kernel)).1 [narrowedTick] List.prefix_rfl
  exact kept.1

end Endure.Scoring
