import Endure.Library.Fading
import Endure.Scoring.AssessmentOrchestrator

/-!
# A scoring pass acts on each hotkey's memory

The moving averages of one hotkey are a fading memory over the coordinates, and a
recorded pass absorbs one pass into it.
-/

namespace Endure.Scoring

open Library Library.Checked Library.Fading Endure.Storage

/-- A hotkey's moving averages. -/
def memoryOf (emas : Dict (Hotkey × Coordinate) EmaState) (hotkey : Hotkey) :
    Memory Coordinate := fun coordinate =>
  (emas.get? (hotkey, coordinate)).map fun state => ⟨state.ema, state.resolvedRounds⟩

namespace AssessmentScoringOrchestrator

variable (orchestrator : AssessmentScoringOrchestrator)

/-- The rules of the averages. -/
def rules : Rules Coordinate where
  alpha := orchestrator.alpha
  epsilon := archiveEpsilon
  active coordinate := orchestrator.config.eligibleCoordinate coordinate = true
  alpha_pos := orchestrator.alpha_pos
  alpha_lt_one := orchestrator.alpha_lt_one
  epsilon_pos := by norm_num [archiveEpsilon]

/-- The score of a hotkey at a coordinate with a known target. -/
def cellScore (accepted : Dict Hotkey (Dict Coordinate ℤ)) (hotkey : Hotkey)
    (coordinate : Coordinate) (target : ℚ) : ℚ :=
  match orchestrator.config.outputByName coordinate.output,
      (accepted.get? hotkey).bind (·.get? coordinate) with
  | some outputConfig, some submitted => deviationScore submitted (truncate target) outputConfig.spec
  | _, _ => 0

/-- The scores a hotkey observes where targets have values. -/
def observed (accepted : Dict Hotkey (Dict Coordinate ℤ)) (values : Coordinate → Option ℚ)
    (hotkey : Hotkey) (coordinate : Coordinate) : Option ℚ :=
  (values coordinate).map (orchestrator.cellScore accepted hotkey coordinate)

/-- A scoring pass over targets with values as one hotkey meets it. -/
def passOf (rounds : Store) (roundId : String) (netuids : List ℕ) (values : Coordinate → Option ℚ)
    (hotkey : Hotkey) : Pass Coordinate where
  scores := orchestrator.observed (orchestrator.config.acceptedValues rounds roundId) values hotkey
  submitted := hotkey ∈ (orchestrator.config.acceptedValues rounds roundId).keys
  eligible := hotkey ∈
    rounds.assessmentHotkeysEligibleForRound orchestrator.config.schemaId roundId
  obliges coordinate := coordinate ∈ orchestrator.config.roundCoordinates netuids

variable {orchestrator} {accepted : Dict Hotkey (Dict Coordinate ℤ)}

theorem scoreCell_eq_ok {hotkey : Hotkey} {coordinate : Coordinate} {target : ℚ}
    {cell : ScoredCell}
    (done : orchestrator.scoreCell accepted hotkey coordinate target = .ok cell) :
    cell.hotkey = hotkey ∧ cell.coordinate = coordinate ∧
      cell.score = orchestrator.cellScore accepted hotkey coordinate target := by
  rw [scoreCell] at done
  rw [cellScore]
  cases named : orchestrator.config.outputByName coordinate.output with
  | none => simp [named] at done
  | some outputConfig =>
    cases found : (accepted.get? hotkey).bind (·.get? coordinate) with
    | none =>
      simp only [named, found] at done
      cases done
      exact ⟨rfl, rfl, rfl⟩
    | some submitted =>
      simp only [named, found] at done
      obtain ⟨score, scored, rfl⟩ := map_eq_ok.mp done
      rw [scoreOutput] at scored
      split at scored
      · cases scored
        exact ⟨rfl, rfl, rfl⟩
      · cases scored

theorem cellScore_nonneg (hotkey : Hotkey) (coordinate : Coordinate) (target : ℚ) :
    0 ≤ orchestrator.cellScore accepted hotkey coordinate target := by
  rw [cellScore]
  split
  · exact (deviationScore_mem _ _ _).1
  · exact le_refl 0

/-- A hotkey without accepted values scores zero everywhere. -/
theorem cellScore_of_absent {hotkey : Hotkey} (absent : hotkey ∉ accepted.keys)
    (coordinate : Coordinate) (target : ℚ) :
    orchestrator.cellScore accepted hotkey coordinate target = 0 := by
  rw [cellScore, Dict.get?_eq_none_iff.mpr absent, Option.bind_none]
  split
  next contradiction => cases contradiction
  next => rfl

theorem zeroIfAbsent_passOf (rounds : Store) (roundId : String) (netuids : List ℕ)
    (values : Coordinate → Option ℚ) (hotkey : Hotkey) :
    Rules.ZeroIfAbsent (orchestrator.passOf rounds roundId netuids values hotkey) := by
  intro absent coordinate score scored
  obtain ⟨target, -, rfl⟩ := Option.map_eq_some_iff.mp scored
  exact cellScore_of_absent absent coordinate target

/-! ### The updates -/

/-- The cells of a pass: every scoring hotkey at every resolved coordinate. -/
structure CellsOf (orchestrator : AssessmentScoringOrchestrator)
    (accepted : Dict Hotkey (Dict Coordinate ℤ)) (hotkeys : List Hotkey)
    (resolved : Dict Coordinate ℚ) (cells : List ScoredCell) : Prop where
  mem : ∀ hotkey coordinate, (∃ cell ∈ cells, cell.hotkey = hotkey ∧
    cell.coordinate = coordinate) ↔ hotkey ∈ hotkeys ∧ coordinate ∈ resolved.keys
  score : ∀ cell ∈ cells, ∃ target, resolved.get? cell.coordinate = some target ∧
    cell.score = orchestrator.cellScore accepted cell.hotkey cell.coordinate target

theorem cellsOf_of_mapM {hotkeys : List Hotkey} {resolved : Dict Coordinate ℚ}
    {order : List (Coordinate × ℚ)} (perm : order.Perm resolved.entries)
    {cells : List ScoredCell}
    (done : (hotkeys.flatMap fun hotkey => order.map fun entry => (hotkey, entry)).mapM
      (fun cell => orchestrator.scoreCell accepted cell.1 cell.2.1 cell.2.2) = .ok cells) :
    CellsOf orchestrator accepted hotkeys resolved cells := by
  have inside : ∀ hotkey entry, (hotkey, entry) ∈
      (hotkeys.flatMap fun hotkey => order.map fun entry => (hotkey, entry)) ↔
      hotkey ∈ hotkeys ∧ entry ∈ resolved.entries := by
    intro hotkey entry
    simp only [List.mem_flatMap, List.mem_map, Prod.mk.injEq, ← perm.mem_iff]
    constructor
    · rintro ⟨_, member, _, listed, rfl, rfl⟩
      exact ⟨member, listed⟩
    · exact fun ⟨member, listed⟩ => ⟨hotkey, member, entry, listed, rfl, rfl⟩
  refine ⟨fun hotkey coordinate => ⟨?_, ?_⟩, fun cell member => ?_⟩
  · rintro ⟨cell, member, rfl, rfl⟩
    obtain ⟨⟨name, entry⟩, listed, made⟩ := exists_item done member
    obtain ⟨same, place, -⟩ := scoreCell_eq_ok made
    obtain ⟨member', listed'⟩ := (inside name entry).mp listed
    rw [same, place]
    exact ⟨member', List.mem_map_of_mem listed'⟩
  · rintro ⟨member, found⟩
    obtain ⟨⟨_, target⟩, listed, rfl⟩ := List.mem_map.mp found
    obtain ⟨cell, present, made⟩ :=
      exists_result done ((inside hotkey (_, target)).mpr ⟨member, listed⟩)
    obtain ⟨same, place, -⟩ := scoreCell_eq_ok made
    exact ⟨cell, present, same, place⟩
  · obtain ⟨⟨name, entry⟩, listed, made⟩ := exists_item done member
    obtain ⟨same, place, scored⟩ := scoreCell_eq_ok made
    obtain ⟨-, listed'⟩ := (inside name entry).mp listed
    exact ⟨entry.2, by rw [place]; exact Dict.get?_eq_some_iff.mpr listed', by
      rw [scored, same, place]⟩

variable {hotkeys : List Hotkey} {resolved : Dict Coordinate ℚ} {cells : List ScoredCell}
  {emas : Dict (Hotkey × Coordinate) EmaState}

/-- The updates let every scoring hotkey observe its scores. -/
theorem memoryOf_updates (exact : CellsOf orchestrator accepted hotkeys resolved cells)
    (hotkey : Hotkey) :
    memoryOf (emas.setAll (cells.map (orchestrator.emaUpdateOf emas))) hotkey =
      if hotkey ∈ hotkeys then
        (memoryOf emas hotkey).observe orchestrator.alpha
          (orchestrator.observed accepted resolved.get? hotkey)
      else memoryOf emas hotkey := by
  let state (key : Hotkey × Coordinate) : Option EmaState :=
    (orchestrator.observed accepted resolved.get? key.1 key.2).map fun score =>
      ⟨emaUpdate orchestrator.alpha ((emas.get? key).map EmaState.ema) score,
        ((emas.get? key).map EmaState.resolvedRounds).getD 0 + 1⟩
  -- several cells of one key would write the same state
  have agree : ∀ entry ∈ cells.map (orchestrator.emaUpdateOf emas),
      state entry.1 = some entry.2 := by
    intro entry member
    obtain ⟨cell, inside, rfl⟩ := List.mem_map.mp member
    obtain ⟨target, found, scored⟩ := exact.score cell inside
    simp only [state, emaUpdateOf, observed, found, Option.map_some, scored]
  have keys : ∀ coordinate, (hotkey, coordinate) ∈
      (cells.map (orchestrator.emaUpdateOf emas)).map Prod.fst ↔
      hotkey ∈ hotkeys ∧ coordinate ∈ resolved.keys := by
    intro coordinate
    rw [← exact.mem, List.map_map, List.mem_map]
    simp only [Function.comp_apply, emaUpdateOf, Prod.mk.injEq]
  funext coordinate
  rw [memoryOf, Dict.get?_setAll_of_agree agree]
  by_cases scoring : hotkey ∈ hotkeys
  · rw [if_pos scoring]
    cases found : resolved.get? coordinate with
    | none =>
      have unscored : orchestrator.observed accepted resolved.get? hotkey coordinate = none := by
        rw [observed, found, Option.map_none]
      have absent : (hotkey, coordinate) ∉
          (cells.map (orchestrator.emaUpdateOf emas)).map Prod.fst := fun member =>
        Dict.get?_eq_none_iff.mp found ((keys coordinate).mp member).2
      rw [if_neg absent, Memory.observe_of_none unscored, memoryOf]
    | some target =>
      have scored : orchestrator.observed accepted resolved.get? hotkey coordinate =
          some (orchestrator.cellScore accepted hotkey coordinate target) := by
        rw [observed, found, Option.map_some]
      have present : (hotkey, coordinate) ∈
          (cells.map (orchestrator.emaUpdateOf emas)).map Prod.fst :=
        (keys coordinate).mpr ⟨scoring, Dict.mem_keys_iff.mpr ⟨target, found⟩⟩
      rw [if_pos present, Memory.observe_of_some scored]
      simp only [state, scored, Option.map_some, emaUpdate, Memory.average, Memory.observations,
        memoryOf, Option.map_map]
      rfl
  -- only hotkeys of the pass have cells
  · have absent : (hotkey, coordinate) ∉
        (cells.map (orchestrator.emaUpdateOf emas)).map Prod.fst := fun member =>
      scoring ((keys coordinate).mp member).1
    rw [if_neg absent, if_neg scoring, memoryOf]

/-! ### The scoring set and the pruned hotkeys -/

theorem mem_scoringSet {roundCoordinates : List Coordinate} {eligible : List Hotkey}
    {hotkey : Hotkey} :
    hotkey ∈ orchestrator.scoringSet emas roundCoordinates eligible accepted ↔
      hotkey ∈ accepted.keys ∨ hotkey ∈ eligible ∧ (memoryOf emas hotkey).Alive fun coordinate =>
        orchestrator.rules.active coordinate ∨ coordinate ∈ roundCoordinates := by
  rw [scoringSet, (List.perm_insertionSort _ _).mem_iff, List.mem_dedup, List.mem_append,
    List.mem_filter, List.mem_map, or_comm]
  refine or_congr_right ?_
  rw [and_comm, decide_eq_true_iff]
  refine and_congr_right fun _ => ?_
  constructor
  · rintro ⟨⟨name, coordinate⟩, member, rfl⟩
    obtain ⟨listed, active⟩ := List.mem_filter.mp member
    obtain ⟨state, found⟩ := Dict.mem_keys_iff.mp listed
    exact ⟨coordinate, by simpa [rules] using active, by simp [memoryOf, found]⟩
  · rintro ⟨coordinate, active, remembered⟩
    refine ⟨(hotkey, coordinate), List.mem_filter.mpr ⟨Dict.mem_keys_iff.mpr ?_, ?_⟩, rfl⟩
    · rw [memoryOf, Option.isSome_map] at remembered
      exact Option.isSome_iff_exists.mp remembered
    · simpa [rules] using active

/-- A hotkey is fully decayed when its updated memory has faded. -/
theorem mem_fullyDecayedHotkeys {absent : List Hotkey}
    {updates : List ((Hotkey × Coordinate) × EmaState)} {hotkey : Hotkey} :
    hotkey ∈ orchestrator.fullyDecayedHotkeys absent emas updates ↔
      hotkey ∈ absent ∧ Memory.Faded archiveEpsilon orchestrator.rules.active
        (memoryOf (emas.setAll updates) hotkey) := by
  rw [fullyDecayedHotkeys, List.mem_filter]
  refine and_congr_right fun _ => ?_
  simp only [decide_eq_true_iff]
  -- the query reads the rows of the hotkey at active coordinates
  have values : ∀ state, state ∈ ((emas.setAll updates).filter fun key _ =>
      key.1 = hotkey ∧ orchestrator.config.eligibleCoordinate key.2).values ↔
      ∃ coordinate, orchestrator.rules.active coordinate ∧
        (emas.setAll updates).get? (hotkey, coordinate) = some state := by
    intro state
    rw [Dict.mem_values_filter]
    constructor
    · rintro ⟨⟨name, coordinate⟩, found, passes⟩
      obtain ⟨rfl, active⟩ := of_decide_eq_true passes
      exact ⟨coordinate, active, found⟩
    · rintro ⟨coordinate, active, found⟩
      exact ⟨(hotkey, coordinate), found, decide_eq_true ⟨rfl, active⟩⟩
  rw [Memory.Faded, List.all_eq_true]
  refine and_congr ?_ ?_
  · constructor
    · intro nonempty
      obtain ⟨state, member⟩ := List.exists_mem_of_ne_nil _ nonempty
      obtain ⟨coordinate, active, held⟩ := (values state).mp member
      exact ⟨coordinate, active, by rw [memoryOf, held]; rfl⟩
    · rintro ⟨coordinate, active, remembered⟩
      rw [memoryOf, Option.isSome_map] at remembered
      obtain ⟨state, held⟩ := Option.isSome_iff_exists.mp remembered
      exact List.ne_nil_of_mem ((values state).mpr ⟨coordinate, active, held⟩)
  · constructor
    · intro below coordinate active trace found
      obtain ⟨state, held, rfl⟩ := Option.map_eq_some_iff.mp found
      exact of_decide_eq_true (below state ((values state).mpr ⟨coordinate, active, held⟩))
    · intro below state member
      obtain ⟨coordinate, active, held⟩ := (values state).mp member
      exact decide_eq_true (below coordinate active _ (by rw [memoryOf, held]; rfl))

/-! ### The recorded pass -/

/-- What archival at a call's horizon leaves of a hotkey's memory. -/
noncomputable def archived (call : ScoringCall) (hotkey : Hotkey) (memory : Memory Coordinate) :
    Memory Coordinate :=
  if hotkey ∈ call.archiveHotkeys then memory.forget (·.horizonValue = call.horizon) else memory

theorem memoryOf_archiveHorizon (horizon : ℕ) (hotkeys : List Hotkey) (hotkey : Hotkey) :
    memoryOf (AssessmentTables.archiveHorizon emas horizon hotkeys) hotkey =
      if hotkey ∈ hotkeys then (memoryOf emas hotkey).forget (·.horizonValue = horizon)
      else memoryOf emas hotkey := by
  funext coordinate
  rw [memoryOf, AssessmentTables.get?_archiveHorizon]
  by_cases listed : hotkey ∈ hotkeys
  · by_cases same : coordinate.horizonValue = horizon
    · rw [if_pos ⟨listed, same⟩, if_pos listed, Memory.forget, if_pos same, Option.map_none]
    · rw [if_neg fun both => same both.2, if_pos listed, Memory.forget, if_neg same, memoryOf]
  · rw [if_neg fun both => listed both.1, if_neg listed, memoryOf]

/-- Pruning forgets the active coordinates of the pruned hotkeys, and of no others. -/
theorem agreeOn_prune (hotkeys : List Hotkey) (hotkey : Hotkey) :
    orchestrator.rules.AgreeOn
      (memoryOf (AssessmentTables.prune emas hotkeys orchestrator.config.activeCoordinates) hotkey)
      (if hotkey ∈ hotkeys then (memoryOf emas hotkey).forget orchestrator.rules.active
        else memoryOf emas hotkey) := by
  intro coordinate active
  have within : orchestrator.config.activeCoordinates.all (coordinate ∈ ·) = true := by
    have eligible : orchestrator.config.eligibleCoordinate coordinate = true := active
    rw [AssessmentScoringConfig.eligibleCoordinate] at eligible
    cases given : orchestrator.config.activeCoordinates with
    | none => rfl
    | some coordinates => simpa [given] using eligible
  rw [memoryOf, AssessmentTables.get?_prune]
  by_cases listed : hotkey ∈ hotkeys
  · rw [if_pos ⟨listed, within⟩, if_pos listed, Memory.forget_of_active active, Option.map_none]
  · rw [if_neg fun both => listed both.1, if_neg listed, memoryOf]

variable {rounds : Store} {tables tables' : AssessmentTables} {call : ScoringCall}
  {members : List ℕ} {targets : List AssessmentRealizedTarget} {pass : ScoringPass}
  {scores : Dict Hotkey ℚ} {complete : Bool}

/-- The pruned hotkeys are the scored ones whose memory fades. -/
theorem mem_prunedHotkeys
    (exact : CellsOf orchestrator (orchestrator.config.acceptedValues rounds call.roundId) hotkeys
      (resolvedValues targets) cells) (netuids : List ℕ) (hotkey : Hotkey) :
    hotkey ∈ (orchestrator.scoringPass call emas
        (orchestrator.config.acceptedValues rounds call.roundId) targets complete
        cells).prunedHotkeys ↔
      hotkey ∈ hotkeys ∧ orchestrator.rules.Fades
        (orchestrator.passOf rounds call.roundId netuids (resolvedValues targets).get? hotkey)
        (memoryOf emas hotkey) := by
  simp only [scoringPass]
  rw [(List.perm_insertionSort _ _).mem_iff, mem_fullyDecayedHotkeys, memoryOf_updates exact,
    List.mem_dedup, List.mem_filter]
  -- a scored hotkey has an active update when some active coordinate was resolved
  have zeroFilled : hotkey ∈ ((cells.map (orchestrator.emaUpdateOf emas)).filter fun update =>
      orchestrator.config.eligibleCoordinate update.1.2).map (·.1.1) ↔
      hotkey ∈ hotkeys ∧ ∃ coordinate, orchestrator.rules.active coordinate ∧
        coordinate ∈ (resolvedValues targets).keys := by
    rw [List.mem_map]
    constructor
    · rintro ⟨update, member, rfl⟩
      obtain ⟨listed, active⟩ := List.mem_filter.mp member
      obtain ⟨cell, inside, rfl⟩ := List.mem_map.mp listed
      obtain ⟨scoring, known⟩ := (exact.mem _ _).mp ⟨cell, inside, rfl, rfl⟩
      exact ⟨scoring, cell.coordinate, active, known⟩
    · rintro ⟨scoring, coordinate, active, known⟩
      obtain ⟨cell, inside, rfl, rfl⟩ := (exact.mem _ _).mpr ⟨scoring, known⟩
      exact ⟨_, List.mem_filter.mpr ⟨List.mem_map_of_mem inside, active⟩, rfl⟩
  have absent_iff : decide (¬(orchestrator.config.acceptedValues rounds call.roundId).contains
      hotkey = true) = true ↔
      hotkey ∉ (orchestrator.config.acceptedValues rounds call.roundId).keys := by
    rw [decide_eq_true_iff, Dict.contains, Option.isSome_iff_exists, Dict.mem_keys_iff]
  rw [zeroFilled, absent_iff, Rules.Fades]
  constructor
  · rintro ⟨⟨⟨scoring, coordinate, active, known⟩, absent⟩, faded⟩
    rw [if_pos scoring] at faded
    obtain ⟨target, found⟩ := Dict.mem_keys_iff.mp known
    exact ⟨scoring, absent, ⟨coordinate, active, by simp [passOf, observed, found]⟩, faded⟩
  · rintro ⟨scoring, absent, ⟨coordinate, active, scored⟩, faded⟩
    simp only [passOf, observed, Option.isSome_map] at scored
    rw [if_pos scoring]
    exact ⟨⟨⟨scoring, coordinate, active,
      Dict.mem_keys_iff.mpr (Option.isSome_iff_exists.mp scored)⟩, absent⟩, faded⟩

/-- A pass is absorbed by every hotkey's memory, up to archival. -/
theorem memoryOf_updatedEmas {netuids : List ℕ}
    (exact : CellsOf orchestrator (orchestrator.config.acceptedValues rounds call.roundId)
      (orchestrator.scoringSet emas (orchestrator.config.roundCoordinates netuids)
        (rounds.assessmentHotkeysEligibleForRound orchestrator.config.schemaId call.roundId)
        (orchestrator.config.acceptedValues rounds call.roundId))
      (resolvedValues targets) cells) (hotkey : Hotkey) :
    orchestrator.rules.AgreeOn
      (memoryOf (AssessmentTables.updatedEmas emas (orchestrator.scoringPass call emas
        (orchestrator.config.acceptedValues rounds call.roundId) targets complete cells)) hotkey)
      (archived call hotkey (orchestrator.rules.absorb
        (orchestrator.passOf rounds call.roundId netuids (resolvedValues targets).get? hotkey)
        (memoryOf emas hotkey))) := by
  let recorded := orchestrator.scoringPass call emas
    (orchestrator.config.acceptedValues rounds call.roundId) targets complete cells
  let met := orchestrator.passOf rounds call.roundId netuids (resolvedValues targets).get? hotkey
  let updated := emas.setAll (cells.map (orchestrator.emaUpdateOf emas))
  have pruned : hotkey ∈ recorded.prunedHotkeys ↔ _ := mem_prunedHotkeys exact netuids hotkey
  have archival : memoryOf (AssessmentTables.archiveHorizon updated call.horizon
      call.archiveHotkeys) hotkey = archived call hotkey (memoryOf updated hotkey) :=
    memoryOf_archiveHorizon _ _ _
  -- archival comes first in the transaction, then pruning
  have pruning : orchestrator.rules.AgreeOn
      (memoryOf (AssessmentTables.updatedEmas emas recorded) hotkey)
      (if hotkey ∈ recorded.prunedHotkeys then
        (archived call hotkey (memoryOf updated hotkey)).forget orchestrator.rules.active
      else archived call hotkey (memoryOf updated hotkey)) := by
    rw [← archival]
    exact agreeOn_prune recorded.prunedHotkeys hotkey
  refine pruning.trans ?_
  rw [memoryOf_updates exact]
  by_cases attends : orchestrator.rules.Attends met (memoryOf emas hotkey)
  · have scoring := mem_scoringSet.mpr attends
    rw [if_pos scoring]
    by_cases fades : orchestrator.rules.Fades met (memoryOf emas hotkey)
    · rw [if_pos (pruned.mpr ⟨scoring, fades⟩), Rules.absorb_of_fades attends fades]
      intro coordinate active
      rw [Memory.forget_of_active active, archived]
      split_ifs
      · rw [Memory.forget, Memory.forget_of_active active, ite_self]
      · rw [Memory.forget_of_active active]
    · rw [if_neg fun listed => fades (pruned.mp listed).2, Rules.absorb_of_not_fades attends fades]
      exact fun _ _ => rfl
  -- a hotkey that is not scored keeps its memory, and is not pruned
  · have resting := mem_scoringSet.not.mpr attends
    rw [if_neg resting, if_neg fun listed => resting (pruned.mp listed).1,
      Rules.absorb_of_not_attends attends]
    exact fun _ _ => rfl

theorem scoreRound_eq_ok :
    orchestrator.scoreRound rounds tables call members = .ok (pass, scores) ↔
      ∃ targets cells,
        orchestrator.config.resolveTargets call
          (tables.resolvedCoordinates call.roundId call.horizon)
          (orchestrator.config.cellsOf (members.insertionSort (· ≤ ·))) 1 = .ok targets ∧
        ((orchestrator.scoringSet tables.emaStates
            (orchestrator.config.roundCoordinates (members.insertionSort (· ≤ ·)))
            (rounds.assessmentHotkeysEligibleForRound orchestrator.config.schemaId call.roundId)
            (orchestrator.config.acceptedValues rounds call.roundId)).flatMap fun hotkey =>
          ((resolvedValues targets).entries.insertionSort fun first second =>
            (compare first.1 second.1).isLE).map fun entry => (hotkey, entry)).mapM
          (fun cell => orchestrator.scoreCell
            (orchestrator.config.acceptedValues rounds call.roundId) cell.1 cell.2.1 cell.2.2) =
          .ok cells ∧
        pass = orchestrator.scoringPass call tables.emaStates
          (orchestrator.config.acceptedValues rounds call.roundId) targets
          ((orchestrator.config.coordinatesAt (members.insertionSort (· ≤ ·)) call.horizon).all
            fun coordinate => coordinate ∈ tables.resolvedCoordinates call.roundId call.horizon ∨
              coordinate ∈ targets.map AssessmentRealizedTarget.coordinate) cells ∧
        scores = roundScores cells := by
  simp only [scoreRound, bind_eq_ok]
  constructor
  · rintro ⟨targets, resolved, cells, scored, made⟩
    cases made
    exact ⟨targets, cells, resolved, scored, rfl, rfl⟩
  · rintro ⟨targets, cells, resolved, scored, rfl, rfl⟩
    exact ⟨targets, resolved, cells, scored, rfl⟩

end AssessmentScoringOrchestrator

end Endure.Scoring
