import Endure.Library.Transitions
import Endure.Scoring.AssessmentMemory

/-!
# Interrupted scoring

Calls to `resolve_and_score` for one round and horizon, cut short anywhere and repeated
until one completes, leave what a single uninterrupted call leaves.
-/

namespace Endure.Scoring

open Library Library.Checked Library.Fading Library.Transitions Endure.Storage

/-- The value of a resolved target. -/
def AssessmentRealizedTarget.known (target : AssessmentRealizedTarget) : Option ℚ :=
  if target.status = .resolved then target.value else none

/-- A call to `resolve_and_score`, and whether the process dies before its transaction. -/
structure ScoringAttempt where
  call : ScoringCall
  crashes : Bool

/-- The stored tables and every move of an average committed so far. -/
structure ScoringProgress where
  tables : AssessmentTables
  moves : List (Hotkey × Coordinate)

namespace AssessmentScoringOrchestrator

variable (orchestrator : AssessmentScoringOrchestrator)

/-- The averages a call moves. -/
def movesOf (rounds : Store) (tables : AssessmentTables) (call : ScoringCall) :
    List (Hotkey × Coordinate) :=
  match orchestrator.preparePass rounds tables call with
  | .ok (some (pass, _)) => pass.emaUpdates.map Prod.fst
  | _ => []

/-- What an attempt leaves: nothing of it when the process dies or the call raises. -/
def attempt (rounds : Store) (tried : ScoringAttempt) (progress : ScoringProgress) :
    ScoringProgress :=
  if tried.crashes then progress
  else
    match orchestrator.resolveAndScore rounds progress.tables tried.call with
    | .error _ => progress
    | .ok (tables, _) =>
      ⟨tables, progress.moves ++ orchestrator.movesOf rounds progress.tables tried.call⟩

/-- The members of a stored round's universe. -/
def membersOf (rounds : Store) (roundId : String) : Option (List ℕ) :=
  (rounds.universeFor ⟨roundId, orchestrator.config.schemaId⟩).bind fun snapshot =>
    orchestrator.config.universeMembers snapshot.tickers

/-- The round's coordinates at all horizons are active. -/
def RoundActive (rounds : Store) (roundId : String) : Prop :=
  ∀ members, orchestrator.membersOf rounds roundId = some members →
    ∀ coordinate ∈ orchestrator.config.roundCoordinates (members.insertionSort (· ≤ ·)),
      orchestrator.config.eligibleCoordinate coordinate = true

/-- A call on one round and horizon that archives leaving hotkeys only and whose resolvers,
when they return a target, return the coordinate's eventual one. -/
structure Concerns (roundId : String) (horizon : ℕ) (leaving : Set Hotkey)
    (eventual : Coordinate → AssessmentRealizedTarget) (call : ScoringCall) : Prop where
  round : call.roundId = roundId
  sameHorizon : call.horizon = horizon
  archives : ∀ hotkey ∈ call.archiveHotkeys, hotkey ∈ leaving
  answers : ∀ netuid output target, call.resolver netuid horizon output = .target target →
    target = eventual (orchestrator.config.coordinateFor netuid horizon output)

/-- A call that nothing cuts short. -/
structure Uninterrupted (eventual : Coordinate → AssessmentRealizedTarget) (call : ScoringCall) :
    Prop where
  budget : ∀ asked, call.exhausted asked = false
  answers : ∀ netuid output, call.resolver netuid call.horizon output =
    .target (eventual (orchestrator.config.coordinateFor netuid call.horizon output))

variable {orchestrator} {rounds : Store} {tables tables' : AssessmentTables} {call : ScoringCall}
  {members : List ℕ} {targets : List AssessmentRealizedTarget} {pass : ScoringPass}
  {scores : Dict Hotkey ℚ} {roundId : String} {horizon : ℕ} {leaving : Set Hotkey}
  {eventual : Coordinate → AssessmentRealizedTarget}

/-! ### Targets -/

theorem get?_resolvedValues (own : ∀ target ∈ targets, target = eventual target.coordinate)
    (coordinate : Coordinate) :
    (resolvedValues targets).get? coordinate =
      if coordinate ∈ targets.map AssessmentRealizedTarget.coordinate then
        (eventual coordinate).known
      else none := by
  have listed : ∀ entry, entry ∈ (targets.filterMap fun target =>
      if target.status = .resolved then target.value.map (target.coordinate, ·) else none) ↔
      entry.1 ∈ targets.map AssessmentRealizedTarget.coordinate ∧
        (eventual entry.1).known = some entry.2 := by
    intro entry
    rw [List.mem_filterMap]
    constructor
    · rintro ⟨target, member, made⟩
      split at made
      · next resolved =>
        obtain ⟨value, found, rfl⟩ := Option.map_eq_some_iff.mp made
        refine ⟨List.mem_map_of_mem member, ?_⟩
        rw [← own target member, AssessmentRealizedTarget.known, if_pos resolved, found]
      · cases made
    · rintro ⟨member, found⟩
      obtain ⟨target, inside, place⟩ := List.mem_map.mp member
      rw [← place, ← own target inside, AssessmentRealizedTarget.known] at found
      split at found
      · next resolved =>
        exact ⟨target, inside, by rw [if_pos resolved, found, Option.map_some, place]⟩
      · cases found
  -- targets of one coordinate are one target, so their order does not matter
  have lookup := @Dict.get?_ofEntries_of_agree _ _ _ _ (fun place => (eventual place).known)
    (fun entry member => ((listed entry).mp member).2) coordinate
  rw [resolvedValues, lookup]
  by_cases member : coordinate ∈ targets.map AssessmentRealizedTarget.coordinate
  · rw [if_pos member]
    split_ifs with found
    · rfl
    · cases value : (eventual coordinate).known with
      | none => rfl
      | some number =>
        have entry := (listed (coordinate, number)).mpr ⟨member, value⟩
        exact absurd (List.mem_map_of_mem entry) found
  · rw [if_neg member, if_neg fun found => member ?_]
    obtain ⟨entry, inside, rfl⟩ := List.mem_map.mp found
    exact ((listed entry).mp inside).1

/-- The new targets of a call are what its resolvers answer about missing coordinates. -/
theorem mem_resolveTargets {existing : List Coordinate} {cells : List (ℕ × String)} {asked : ℕ}
    (done : orchestrator.config.resolveTargets call existing cells asked = .ok targets) :
    ∀ target ∈ targets, ∃ cell ∈ cells,
      orchestrator.config.coordinateFor cell.1 call.horizon cell.2 ∉ existing ∧
        call.resolver cell.1 call.horizon cell.2 = .target target := by
  induction cells generalizing asked targets with
  | nil =>
    cases done
    exact fun target member => absurd member List.not_mem_nil
  | cons cell rest ih =>
    obtain ⟨netuid, output⟩ := cell
    have later : ∀ {found asked'}, orchestrator.config.resolveTargets call existing rest asked' =
        .ok found → ∀ target ∈ found, ∃ cell ∈ (netuid, output) :: rest,
          orchestrator.config.coordinateFor cell.1 call.horizon cell.2 ∉ existing ∧
            call.resolver cell.1 call.horizon cell.2 = .target target := by
      intro found asked' made target member
      obtain ⟨cell, inside, facts⟩ := ih made target member
      exact ⟨cell, List.mem_cons_of_mem _ inside, facts⟩
    -- a cell adds a target only when it has none and its resolver gives one
    rw [AssessmentScoringConfig.resolveTargets] at done
    split at done
    · exact later done
    next missing =>
    split at done
    · cases done
      exact fun target member => absurd member List.not_mem_nil
    split at done
    · cases done
    · cases done
      exact fun target member => absurd member List.not_mem_nil
    · exact later done
    next target answered =>
      obtain ⟨found, made, rfl⟩ := map_eq_ok.mp done
      intro other member
      cases member with
      | head => exact ⟨(netuid, output), List.mem_cons_self, missing, answered⟩
      | tail _ inside => exact later made other inside

/-- An uninterrupted call finds every missing target. -/
theorem resolveTargets_uninterrupted (concerns : orchestrator.Concerns roundId horizon leaving eventual call)
    (uninterrupted : orchestrator.Uninterrupted eventual call) (existing : List Coordinate)
    (cells : List (ℕ × String)) (asked : ℕ) :
    ∃ targets, orchestrator.config.resolveTargets call existing cells asked = .ok targets ∧
      ∀ cell ∈ cells, orchestrator.config.coordinateFor cell.1 horizon cell.2 ∉ existing →
        eventual (orchestrator.config.coordinateFor cell.1 horizon cell.2) ∈ targets := by
  induction cells generalizing asked with
  | nil => exact ⟨[], rfl, fun cell member => absurd member List.not_mem_nil⟩
  | cons cell rest ih =>
    obtain ⟨netuid, output⟩ := cell
    rw [AssessmentScoringConfig.resolveTargets, concerns.sameHorizon]
    by_cases present : orchestrator.config.coordinateFor netuid horizon output ∈ existing
    · obtain ⟨targets, made, found⟩ := ih asked
      refine ⟨targets, by rw [if_pos present, made], fun cell member missing => ?_⟩
      cases member with
      | head => exact absurd present missing
      | tail _ inside => exact found cell inside missing
    · obtain ⟨targets, made, found⟩ := ih (asked + 1)
      have answered := uninterrupted.answers netuid output
      rw [concerns.sameHorizon] at answered
      refine ⟨eventual (orchestrator.config.coordinateFor netuid horizon output) :: targets, ?_,
        fun cell member missing => ?_⟩
      · rw [if_neg present, uninterrupted.budget, if_neg Bool.false_ne_true, answered]
        exact map_eq_ok.mpr ⟨targets, made, rfl⟩
      · cases member with
        | head => exact List.mem_cons_self
        | tail _ inside => exact List.mem_cons_of_mem _ (found cell inside missing)

/-! ### One attempt -/

/-- The values of the coordinates resolved so far. -/
def valuesOf (eventual : Coordinate → AssessmentRealizedTarget) (done : List Coordinate)
    (coordinate : Coordinate) : Option ℚ :=
  if coordinate ∈ done then (eventual coordinate).known else none

/-- What the attempts at a round's horizon have reached when they have found the targets
of some coordinates: the pass over exactly these has been absorbed, unless a hotkey is
leaving. -/
structure Reached (orchestrator : AssessmentScoringOrchestrator) (rounds : Store)
    (initial : AssessmentTables) (roundId : String) (horizon : ℕ) (leaving : Set Hotkey)
    (eventual : Coordinate → AssessmentRealizedTarget) (members : List ℕ)
    (done : List Coordinate) (progress : ScoringProgress) : Prop where
  missing : ∀ coordinate ∈ done,
    coordinate ∈ orchestrator.config.coordinatesAt (members.insertionSort (· ≤ ·)) horizon ∧
      coordinate ∉ initial.resolvedCoordinates roundId horizon
  targets : ∀ key, progress.tables.realizedTargets.get? key =
    (initial.realizedTargets.get? key).or
      (if key.1 = roundId ∧ key.2 ∈ done then some (eventual key.2) else none)
  memory : ∀ hotkey ∉ leaving, orchestrator.rules.AgreeOn (memoryOf progress.tables.emaStates hotkey)
    (orchestrator.rules.absorb (orchestrator.passOf rounds roundId (members.insertionSort (· ≤ ·))
      (valuesOf eventual done) hotkey) (memoryOf initial.emaStates hotkey))
  moved : ∀ move ∈ progress.moves, move.2 ∈ done
  once : progress.moves.Nodup
  scored : ∀ hotkey ∈ (orchestrator.config.acceptedValues rounds roundId).keys,
    ∀ coordinate ∈ done, ∀ value, (eventual coordinate).known = some value →
      ∃ cell, orchestrator.scoreCell (orchestrator.config.acceptedValues rounds roundId) hotkey
        coordinate value = .ok cell
  complete : progress.tables.hasAssessmentResolutionMarker roundId horizon = true →
    orchestrator.config.activeCoordinates ≠ some ∅ ∧
    ∀ coordinate ∈
      orchestrator.config.coordinatesAt (members.insertionSort (· ≤ ·)) horizon,
      coordinate ∈ initial.resolvedCoordinates roundId horizon ∨ coordinate ∈ done

variable {initial : AssessmentTables} {done found : List Coordinate} {progress : ScoringProgress}

theorem resolvedValues_eq (own : ∀ target ∈ targets, target = eventual target.coordinate) :
    (resolvedValues targets).get? =
      valuesOf eventual (targets.map AssessmentRealizedTarget.coordinate) :=
  funext fun coordinate => get?_resolvedValues own coordinate

theorem inside_passOf {netuids : List ℕ}
    (active : ∀ coordinate ∈ orchestrator.config.roundCoordinates netuids,
      orchestrator.config.eligibleCoordinate coordinate = true)
    (values : Coordinate → Option ℚ) (hotkey : Hotkey) :
    orchestrator.rules.Inside (orchestrator.passOf rounds roundId netuids values hotkey) where
  obliges := active
  zero := zeroIfAbsent_passOf rounds roundId netuids values hotkey

/-- The pass over two disjoint sets of coordinates in two parts. -/
theorem parts_passOf (disjoint : ∀ coordinate ∈ done, coordinate ∉ found) (netuids : List ℕ)
    (hotkey : Hotkey) :
    Rules.Parts
      (orchestrator.passOf rounds roundId netuids (valuesOf eventual done) hotkey)
      (orchestrator.passOf rounds roundId netuids (valuesOf eventual found) hotkey)
      (orchestrator.passOf rounds roundId netuids (valuesOf eventual (done ++ found)) hotkey) where
  scores coordinate := by
    simp only [passOf, observed, valuesOf, List.mem_append]
    by_cases old : coordinate ∈ done
    · simp only [old, disjoint coordinate old, true_or, if_true, if_false, Option.map_none,
        Option.or_none]
    · simp only [old, false_or, if_false, Option.map_none, Option.none_or]
  disjoint coordinate := by
    simp only [passOf, observed, valuesOf]
    by_cases old : coordinate ∈ done
    · right
      rw [if_neg (disjoint coordinate old), Option.map_none]
    · left
      rw [if_neg old, Option.map_none]
  submitted := ⟨Iff.rfl, Iff.rfl⟩
  eligible := ⟨Iff.rfl, Iff.rfl⟩

/-- A coordinate of the horizon has a target when it had one or was found. -/
theorem Reached.mem_resolvedCoordinates
    (reached : Reached orchestrator rounds initial roundId horizon leaving eventual members done progress)
    {coordinate : Coordinate} :
    coordinate ∈ progress.tables.resolvedCoordinates roundId horizon ↔
      coordinate ∈ initial.resolvedCoordinates roundId horizon ∨ coordinate ∈ done := by
  rw [AssessmentTables.mem_resolvedCoordinates, AssessmentTables.mem_resolvedCoordinates,
    reached.targets, Option.isSome_or, Bool.or_eq_true]
  have found : (if roundId = roundId ∧ coordinate ∈ done then some (eventual coordinate)
      else none).isSome = true ↔ coordinate ∈ done := by
    by_cases member : coordinate ∈ done <;> simp [member]
  rw [found, and_or_left]
  refine or_congr_right (and_iff_right_of_imp fun member => ?_)
  obtain ⟨cell, -, rfl⟩ := List.mem_map.mp (reached.missing coordinate member).1
  exact orchestrator.config.coordinateFor_horizon _ _ _

/-- The moves of a pass: every scoring hotkey at every resolved coordinate, once. -/
theorem moves_eq {accepted : Dict Hotkey (Dict Coordinate ℤ)} {hotkeys : List Hotkey}
    {order : List (Coordinate × ℚ)} {cells : List ScoredCell}
    {emas : Dict (Hotkey × Coordinate) EmaState}
    (scored : (hotkeys.flatMap fun hotkey => order.map fun entry => (hotkey, entry)).mapM
      (fun cell => orchestrator.scoreCell accepted cell.1 cell.2.1 cell.2.2) = .ok cells) :
    (cells.map (orchestrator.emaUpdateOf emas)).map Prod.fst =
      hotkeys.product (order.map Prod.fst) := by
  have place : ∀ (item : Hotkey × Coordinate × ℚ) cell,
      orchestrator.scoreCell accepted item.1 item.2.1 item.2.2 = .ok cell →
        (cell.hotkey, cell.coordinate) = (item.1, item.2.1) := by
    intro item cell made
    obtain ⟨name, coordinate, -⟩ := scoreCell_eq_ok made
    rw [name, coordinate]
  have carried := map_eq_of_mapM place scored
  rw [List.map_map]
  refine carried.trans ?_
  rw [List.map_flatMap, List.product]
  simp only [List.map_map]
  rfl

theorem reached_initial (unmarked : initial.hasAssessmentResolutionMarker roundId horizon = false) :
    Reached orchestrator rounds initial roundId horizon leaving eventual members [] ⟨initial, []⟩ where
  missing coordinate member := absurd member List.not_mem_nil
  targets key := by
    rw [if_neg fun both => List.not_mem_nil both.2, Option.or_none]
  memory hotkey _ := by
    refine (Rules.agreeOn_absorb_of_unscored fun coordinate _ => ?_).symm
    simp only [passOf, observed, valuesOf, List.not_mem_nil, if_false, Option.map_none]
  moved move member := absurd member List.not_mem_nil
  once := List.nodup_nil
  scored hotkey _ coordinate member := absurd member List.not_mem_nil
  complete marked := absurd marked (by rw [unmarked]; exact Bool.false_ne_true)

/-- The new targets of a call are eventual ones, of missing coordinates of the horizon. -/
theorem mem_newTargets (own : ∀ coordinate, (eventual coordinate).coordinate = coordinate)
    (concerns : orchestrator.Concerns roundId horizon leaving eventual call) {netuids : List ℕ}
    {existing : List Coordinate} {asked : ℕ}
    (resolved : orchestrator.config.resolveTargets call existing
      (orchestrator.config.cellsOf netuids) asked = .ok targets)
    {target : AssessmentRealizedTarget} (member : target ∈ targets) :
    target = eventual target.coordinate ∧
      target.coordinate ∈ orchestrator.config.coordinatesAt netuids horizon ∧
      target.coordinate ∉ existing := by
  obtain ⟨cell, inside, missing, answered⟩ := mem_resolveTargets resolved target member
  rw [concerns.sameHorizon] at missing answered
  rw [concerns.answers _ _ _ answered, own]
  exact ⟨rfl, List.mem_map_of_mem inside, missing⟩

/-- The new targets join the ones reached before. -/
theorem Reached.get?_insertTargets
    (reached : Reached orchestrator rounds initial roundId horizon leaving eventual members done progress)
    (own : ∀ target ∈ targets, target = eventual target.coordinate) (key : String × Coordinate) :
    (progress.tables.realizedTargets.insertAllIfAbsent
        (targets.map fun target => ((roundId, target.coordinate), target))).get? key =
      (initial.realizedTargets.get? key).or
        (if key.1 = roundId ∧ key.2 ∈ done ++ targets.map AssessmentRealizedTarget.coordinate then
          some (eventual key.2) else none) := by
  have agree : ∀ entry ∈ targets.map fun target => ((roundId, target.coordinate), target),
      some (eventual entry.1.2) = some entry.2 := by
    intro entry member
    obtain ⟨target, inside, rfl⟩ := List.mem_map.mp member
    exact congrArg some (own target inside).symm
  have listed : key ∈ (targets.map fun target => ((roundId, target.coordinate), target)).map
      Prod.fst ↔ key.1 = roundId ∧ key.2 ∈ targets.map AssessmentRealizedTarget.coordinate := by
    rw [List.map_map, List.mem_map, List.mem_map]
    constructor
    · rintro ⟨target, inside, rfl⟩
      exact ⟨rfl, target, inside, rfl⟩
    · rintro ⟨same, target, inside, place⟩
      exact ⟨target, inside, Prod.ext same.symm place⟩
  have looked := @Dict.lookup_of_agree _ _ _ _ (fun key => some (eventual key.2)) agree key
  rw [Dict.get?_insertAllIfAbsent, looked, reached.targets, Option.or_assoc]
  congr 1
  simp only [listed, List.mem_append]
  by_cases old : key.1 = roundId ∧ key.2 ∈ done
  · simp [old]
  · rw [if_neg old, Option.none_or]
    refine if_congr ?_ rfl rfl
    rw [and_or_left, or_iff_right old]

/-- **A recorded part adds its coordinates to what has been reached.** -/
theorem Reached.record
    (own : ∀ coordinate, (eventual coordinate).coordinate = coordinate)
    (active : ∀ coordinate ∈ orchestrator.config.roundCoordinates (members.insertionSort (· ≤ ·)),
      orchestrator.config.eligibleCoordinate coordinate = true)
    (reached : Reached orchestrator rounds initial roundId horizon leaving eventual members done progress)
    (concerns : orchestrator.Concerns roundId horizon leaving eventual call)
    (unmarked : progress.tables.hasAssessmentResolutionMarker roundId horizon = false)
    (made : orchestrator.scoreRound rounds progress.tables call members = .ok (pass, scores))
    (recorded : progress.tables.recordAssessmentScoringPass call.roundId pass call.nowIso =
      .ok tables') :
    ∃ found, Reached orchestrator rounds initial roundId horizon leaving eventual members (done ++ found)
      ⟨tables', progress.moves ++ pass.emaUpdates.map Prod.fst⟩ := by
  obtain ⟨round, sameHorizon, archives, -⟩ := id concerns
  subst round sameHorizon
  obtain ⟨targets, cells, resolved, scored, rfl, rfl⟩ := scoreRound_eq_ok.mp made
  obtain ⟨nonempty, rfl⟩ := (AssessmentTables.recordAssessmentScoringPass_eq_ok unmarked).mp recorded
  -- what the part records is new: its coordinates are expected and had no target
  have new := fun target (member : target ∈ targets) => mem_newTargets own concerns resolved member
  have values := resolvedValues_eq fun target member => (new target member).1
  let netuids := members.insertionSort (· ≤ ·)
  let found := targets.map AssessmentRealizedTarget.coordinate
  have fresh : ∀ coordinate ∈ found, coordinate ∈
      orchestrator.config.coordinatesAt netuids call.horizon ∧
      coordinate ∉ initial.resolvedCoordinates call.roundId call.horizon ∧ coordinate ∉ done := by
    intro coordinate member
    obtain ⟨target, inside, rfl⟩ := List.mem_map.mp member
    obtain ⟨-, expected, missing⟩ := new target inside
    rw [reached.mem_resolvedCoordinates, not_or] at missing
    exact ⟨expected, missing⟩
  have disjoint : ∀ coordinate ∈ done, coordinate ∉ found :=
    fun coordinate old member => (fresh coordinate member).2.2 old
  -- only a coordinate of a recorded target can have a value
  have keys : ∀ coordinate, coordinate ∈ (resolvedValues targets).keys → coordinate ∈ found := by
    intro coordinate member
    obtain ⟨value, held⟩ := Dict.mem_keys_iff.mp member
    rw [values, valuesOf] at held
    by_contra outside
    rw [if_neg outside] at held
    cases held
  have order := (List.perm_insertionSort (fun first second : Coordinate × ℚ =>
    (compare first.1 second.1).isLE) (resolvedValues targets).entries).map Prod.fst
  have moves : (cells.map (orchestrator.emaUpdateOf progress.tables.emaStates)).map Prod.fst = _ :=
    moves_eq scored
  have inMoves : ∀ move ∈ (cells.map (orchestrator.emaUpdateOf progress.tables.emaStates)).map
      Prod.fst, move.2 ∈ found := by
    intro move member
    rw [moves] at member
    exact keys move.2 (order.mem_iff.mp (List.pair_mem_product.mp member).2)
  refine ⟨found, ?_, ?_, ?_, ?_, ?_, ?_, ?_⟩
  · -- missing
    intro coordinate member
    cases List.mem_append.mp member with
    | inl old => exact reached.missing coordinate old
    | inr later => exact ⟨(fresh coordinate later).1, (fresh coordinate later).2.1⟩
  · -- targets
    exact reached.get?_insertTargets fun target member => (new target member).1
  · -- memory
    intro hotkey stays
    have unarchived : hotkey ∉ call.archiveHotkeys := fun listed => stays (archives hotkey listed)
    have exact := cellsOf_of_mapM (List.perm_insertionSort _ _) scored
    have inside : ∀ values, orchestrator.rules.Inside
        (orchestrator.passOf rounds call.roundId netuids values hotkey) :=
      fun values => inside_passOf active values hotkey
    refine (memoryOf_updatedEmas exact hotkey).trans ?_
    rw [archived, if_neg unarchived, values]
    -- one after the other the parts absorb what the disjoint union of them absorbs
    exact ((reached.memory hotkey stays).absorb (inside _)).trans
      (Rules.absorb_parts (parts_passOf disjoint netuids hotkey) (inside _) (inside _) (inside _) _)
  · -- moved
    intro move member
    cases List.mem_append.mp member with
    | inl old => exact List.mem_append_left _ (reached.moved move old)
    | inr later => exact List.mem_append_right _ (inMoves move later)
  · -- once
    refine List.nodup_append.mpr ⟨reached.once, ?_, ?_⟩
    · change ((cells.map (orchestrator.emaUpdateOf progress.tables.emaStates)).map
        Prod.fst).Nodup
      rw [moves]
      exact ((List.perm_insertionSort _ _).nodup_iff.mpr (List.nodup_dedup _)).product
        (order.nodup_iff.mpr (resolvedValues targets).nodup)
    · intro move old move' later same
      subst same
      exact disjoint move.2 (reached.moved move old) (inMoves move later)
  · -- scored
    intro hotkey accepted coordinate member value known
    cases List.mem_append.mp member with
    | inl old => exact reached.scored hotkey accepted coordinate old value known
    | inr later =>
      have held : (resolvedValues targets).get? coordinate = some value := by
        rw [values, valuesOf, if_pos later, known]
      have entry : (coordinate, value) ∈ (resolvedValues targets).entries.insertionSort
          fun first second => (compare first.1 second.1).isLE :=
        (List.perm_insertionSort _ _).mem_iff.mpr (Dict.get?_eq_some_iff.mp held)
      obtain ⟨cell, -, scoredCell⟩ := exists_result scored (List.mem_flatMap.mpr
        ⟨hotkey, mem_scoringSet.mpr (.inl accepted), List.mem_map_of_mem entry⟩)
      exact ⟨cell, scoredCell⟩
  · -- complete
    intro marked
    refine ⟨nonempty, fun coordinate expected => ?_⟩
    -- the marker is set by the part that leaves no coordinate unresolved
    have marker := AssessmentTables.hasAssessmentResolutionMarker_recorded unmarked recorded
    have complete := of_decide_eq_true
      (List.all_eq_true.mp (marker.symm.trans marked) coordinate expected)
    rw [List.mem_append, ← or_assoc, ← reached.mem_resolvedCoordinates]
    exact complete

/-! ### A run of attempts -/

theorem preparePass_of_marked (marked : tables.hasAssessmentResolutionMarker call.roundId
    call.horizon = true) : orchestrator.preparePass rounds tables call = .ok none := by
  rw [preparePass, if_pos marked]

/-- A call on a completed horizon changes nothing. -/
theorem resolveAndScore_of_marked (marked : tables.hasAssessmentResolutionMarker call.roundId
    call.horizon = true) :
    orchestrator.resolveAndScore rounds tables call = .ok (tables, Dict.empty) := by
  rw [resolveAndScore, preparePass_of_marked marked]
  rfl

/-- An open horizon whose budget is not spent at entry is scored over its universe. -/
theorem preparePass_of_open
    (unmarked : tables.hasAssessmentResolutionMarker call.roundId call.horizon = false)
    (budget : call.exhausted 0 = false)
    (covers : orchestrator.membersOf rounds call.roundId = some members) :
    orchestrator.preparePass rounds tables call =
      (orchestrator.scoreRound rounds tables call members).map some := by
  obtain ⟨snapshot, stored, parsed⟩ := Option.bind_eq_some_iff.mp covers
  rw [preparePass, unmarked, if_neg Bool.false_ne_true, budget, if_neg Bool.false_ne_true]
  simp only [stored, parsed]

/-- A pass is prepared by scoring an open round over its universe. -/
theorem preparePass_eq_some
    (prepared : orchestrator.preparePass rounds tables call = .ok (some (pass, scores))) :
    tables.hasAssessmentResolutionMarker call.roundId call.horizon = false ∧
      call.exhausted 0 = false ∧
      ∃ members, orchestrator.membersOf rounds call.roundId = some members ∧
        orchestrator.scoreRound rounds tables call members = .ok (pass, scores) := by
  rw [preparePass] at prepared
  split at prepared
  · cases prepared
  next unmarked =>
  split at prepared
  · cases prepared
  next budget =>
  split at prepared
  · cases prepared
  next snapshot stored =>
  split at prepared
  · cases prepared
  next members parsed =>
  obtain ⟨made, scored, same⟩ := map_eq_ok.mp prepared
  cases same
  refine ⟨Bool.eq_false_of_not_eq_true unmarked, Bool.eq_false_of_not_eq_true budget, members, ?_,
    scored⟩
  rw [membersOf, stored, Option.bind_some, parsed]

/-- An attempt leaves everything as it is, or records the pass it prepared. -/
theorem attempt_cases (orchestrator : AssessmentScoringOrchestrator) (rounds : Store)
    (tried : ScoringAttempt) (progress : ScoringProgress) :
    orchestrator.attempt rounds tried progress = progress ∨
      ∃ pass scores recorded,
        orchestrator.preparePass rounds progress.tables tried.call = .ok (some (pass, scores)) ∧
        progress.tables.recordAssessmentScoringPass tried.call.roundId pass tried.call.nowIso =
          .ok recorded ∧
        orchestrator.attempt rounds tried progress =
          ⟨recorded, progress.moves ++ pass.emaUpdates.map Prod.fst⟩ := by
  rw [attempt]
  split
  · exact .inl rfl
  split
  · exact .inl rfl
  next tables _ done =>
  rw [resolveAndScore] at done
  obtain ⟨prepared, made, rest⟩ := bind_eq_ok.mp done
  rw [movesOf, made]
  cases prepared with
  | none =>
    cases rest
    left
    simp only [List.append_nil]
  | some both =>
    obtain ⟨recorded, written, same⟩ := bind_eq_ok.mp rest
    cases same
    exact .inr ⟨both.1, both.2, _, rfl, written, rfl⟩

/-- An attempt keeps what has been reached, and may add to it. -/
theorem Reached.attempt (own : ∀ coordinate, (eventual coordinate).coordinate = coordinate)
    (active : orchestrator.RoundActive rounds roundId)
    (covers : orchestrator.membersOf rounds roundId = some members)
    (reached : Reached orchestrator rounds initial roundId horizon leaving eventual members done progress)
    {tried : ScoringAttempt} (concerns : orchestrator.Concerns roundId horizon leaving eventual tried.call) :
    ∃ found, Reached orchestrator rounds initial roundId horizon leaving eventual members (done ++ found)
      (orchestrator.attempt rounds tried progress) := by
  rcases orchestrator.attempt_cases rounds tried progress with
    same | ⟨pass, scores, recorded, prepared, written, same⟩
  · exact ⟨[], by rwa [same, List.append_nil]⟩
  · obtain ⟨unmarked, -, members', covers', made⟩ := preparePass_eq_some prepared
    rw [concerns.round, concerns.sameHorizon] at unmarked
    rw [concerns.round, covers] at covers'
    cases covers'
    rw [same]
    exact reached.record own (active members covers) concerns unmarked made written

/-- A run of attempts has reached the targets of some coordinates. -/
theorem reached_run (own : ∀ coordinate, (eventual coordinate).coordinate = coordinate)
    (active : orchestrator.RoundActive rounds roundId)
    (covers : orchestrator.membersOf rounds roundId = some members)
    (unmarked : initial.hasAssessmentResolutionMarker roundId horizon = false)
    {attempts : List ScoringAttempt}
    (concerns : ∀ tried ∈ attempts, orchestrator.Concerns roundId horizon leaving eventual tried.call) :
    ∃ done, Reached orchestrator rounds initial roundId horizon leaving eventual members done
      (run (orchestrator.attempt rounds) ⟨initial, []⟩ attempts) := by
  induction attempts using List.reverseRecOn with
  | nil => exact ⟨[], reached_initial unmarked⟩
  | append_singleton earlier tried ih =>
    obtain ⟨done, reached⟩ := ih fun other member => concerns other (List.mem_append_left _ member)
    obtain ⟨found, further⟩ := reached.attempt own active covers
      (concerns tried (List.mem_append_right _ List.mem_cons_self))
    rw [run_append]
    exact ⟨done ++ found, further⟩

/-- Without a universe no attempt records anything. -/
theorem attempt_of_no_universe (missing : orchestrator.membersOf rounds roundId = none)
    {tried : ScoringAttempt} (round : tried.call.roundId = roundId) (progress : ScoringProgress) :
    orchestrator.attempt rounds tried progress = progress := by
  rcases orchestrator.attempt_cases rounds tried progress with
    same | ⟨pass, scores, recorded, prepared, written, -⟩
  · exact same
  · obtain ⟨-, -, members, covers, -⟩ := preparePass_eq_some prepared
    rw [round, missing] at covers
    cases covers

theorem run_of_no_universe (missing : orchestrator.membersOf rounds roundId = none)
    {attempts : List ScoringAttempt} {progress : ScoringProgress}
    (concerns : ∀ tried ∈ attempts, tried.call.roundId = roundId) :
    run (orchestrator.attempt rounds) progress attempts = progress := by
  induction attempts with
  | nil => rfl
  | cons tried rest ih =>
    rw [run_cons, attempt_of_no_universe missing (concerns tried List.mem_cons_self)]
    exact ih fun other member => concerns other (List.mem_cons_of_mem _ member)

/-- An attempt on a completed horizon changes nothing. -/
theorem attempt_of_marked {tried : ScoringAttempt} {progress : ScoringProgress}
    (marked : progress.tables.hasAssessmentResolutionMarker tried.call.roundId
      tried.call.horizon = true) :
    orchestrator.attempt rounds tried progress = progress := by
  rcases orchestrator.attempt_cases rounds tried progress with
    same | ⟨pass, scores, recorded, prepared, written, -⟩
  · exact same
  · rw [preparePass_of_marked marked] at prepared
    cases prepared

theorem run_of_marked {later : List ScoringAttempt} {progress : ScoringProgress}
    (marked : progress.tables.hasAssessmentResolutionMarker roundId horizon = true)
    (concerns : ∀ tried ∈ later, tried.call.roundId = roundId ∧ tried.call.horizon = horizon) :
    run (orchestrator.attempt rounds) progress later = progress := by
  induction later with
  | nil => rfl
  | cons tried rest ih =>
    obtain ⟨round, sameHorizon⟩ := concerns tried List.mem_cons_self
    rw [run_cons, attempt_of_marked (by rw [round, sameHorizon]; exact marked)]
    exact ih fun other member => concerns other (List.mem_cons_of_mem _ member)

/-! ### The uninterrupted call -/

theorem outputByName_isSome {name : String}
    (listed : name ∈ orchestrator.config.outputs.map ScoredOutputConfig.output) :
    ∃ output, orchestrator.config.outputByName name = some output := by
  obtain ⟨output, member, rfl⟩ := List.mem_map.mp listed
  refine Option.isSome_iff_exists.mp (List.find?_isSome.mpr ⟨output, ?_, ?_⟩)
  · exact List.mem_reverse.mpr member
  · exact decide_eq_true rfl

/-- An absent hotkey scores at every coordinate of the round without raising. -/
theorem scoreCell_of_absent {accepted : Dict Hotkey (Dict Coordinate ℤ)} {hotkey : Hotkey}
    (absent : hotkey ∉ accepted.keys) {netuids : List ℕ} {coordinate : Coordinate}
    (expected : coordinate ∈ orchestrator.config.coordinatesAt netuids horizon) (target : ℚ) :
    ∃ cell, orchestrator.scoreCell accepted hotkey coordinate target = .ok cell := by
  obtain ⟨⟨netuid, name⟩, member, rfl⟩ := List.mem_map.mp expected
  obtain ⟨_, -, inside⟩ := List.mem_flatMap.mp member
  obtain ⟨output, listed, same⟩ := List.mem_map.mp inside
  obtain ⟨found, named⟩ := outputByName_isSome (List.mem_map_of_mem listed)
  rw [scoreCell, orchestrator.config.coordinateFor_output, (Prod.mk.inj same).2.symm, named,
    Dict.get?_eq_none_iff.mpr absent]
  exact ⟨_, rfl⟩

/-- When a run of attempts completes a horizon, an uninterrupted call from the same
tables completes it too, and reaches targets of its own. -/
theorem Reached.uninterrupted
    (own : ∀ coordinate, (eventual coordinate).coordinate = coordinate)
    (active : orchestrator.RoundActive rounds roundId)
    (covers : orchestrator.membersOf rounds roundId = some members)
    (unmarked : initial.hasAssessmentResolutionMarker roundId horizon = false)
    (reached : Reached orchestrator rounds initial roundId horizon leaving eventual members done progress)
    (marked : progress.tables.hasAssessmentResolutionMarker roundId horizon = true)
    (concerns : orchestrator.Concerns roundId horizon leaving eventual call)
    (uninterrupted : orchestrator.Uninterrupted eventual call) :
    ∃ final scores found moves,
      orchestrator.resolveAndScore rounds initial call = .ok (final, scores) ∧
      Reached orchestrator rounds initial roundId horizon leaving eventual members found ⟨final, moves⟩ ∧
      final.hasAssessmentResolutionMarker roundId horizon = true := by
  obtain ⟨nonempty, all⟩ := reached.complete marked
  obtain ⟨round, sameHorizon, -, -⟩ := id concerns
  subst round sameHorizon
  let netuids := members.insertionSort (· ≤ ·)
  let existing := initial.resolvedCoordinates call.roundId call.horizon
  obtain ⟨targets, resolved, missing⟩ := resolveTargets_uninterrupted concerns uninterrupted existing
    (orchestrator.config.cellsOf netuids) 1
  have new := fun target (member : target ∈ targets) => mem_newTargets own concerns resolved member
  have values := resolvedValues_eq fun target member => (new target member).1
  let accepted := orchestrator.config.acceptedValues rounds call.roundId
  let hotkeys := orchestrator.scoringSet initial.emaStates
    (orchestrator.config.roundCoordinates netuids)
    (rounds.assessmentHotkeysEligibleForRound orchestrator.config.schemaId call.roundId) accepted
  let order := (resolvedValues targets).entries.insertionSort fun first second =>
    (compare first.1 second.1).isLE
  -- Every cell was scored by some part, or belongs to an absent hotkey.
  have each : ∀ item ∈ hotkeys.flatMap fun hotkey => order.map fun entry => (hotkey, entry),
      ∃ cell, orchestrator.scoreCell accepted item.1 item.2.1 item.2.2 = .ok cell := by
    intro item member
    obtain ⟨hotkey, -, inside⟩ := List.mem_flatMap.mp member
    obtain ⟨⟨coordinate, value⟩, entry, rfl⟩ := List.mem_map.mp inside
    have held : (resolvedValues targets).get? coordinate = some value :=
      Dict.get?_eq_some_iff.mpr ((List.perm_insertionSort _ _).mem_iff.mp entry)
    rw [values, valuesOf] at held
    split at held
    swap
    · cases held
    next found =>
    obtain ⟨target, from_, rfl⟩ := List.mem_map.mp found
    obtain ⟨-, expected, fresh⟩ := new target from_
    by_cases submitted : hotkey ∈ accepted.keys
    · exact reached.scored hotkey submitted _ ((all _ expected).resolve_left fresh) value held
    · exact scoreCell_of_absent submitted expected value
  obtain ⟨cells, scored⟩ := exists_mapM_eq_ok each
  have made := scoreRound_eq_ok.mpr ⟨targets, cells, resolved, scored, rfl, rfl⟩
  have recordable : ∀ complete, ∃ final, initial.recordAssessmentScoringPass call.roundId
      (orchestrator.scoringPass call initial.emaStates accepted targets complete cells)
      call.nowIso = .ok final :=
    fun complete => AssessmentTables.exists_recorded nonempty call.nowIso
  obtain ⟨final, written⟩ := recordable
    ((orchestrator.config.coordinatesAt netuids call.horizon).all fun coordinate =>
      coordinate ∈ existing ∨ coordinate ∈ targets.map AssessmentRealizedTarget.coordinate)
  obtain ⟨found, further⟩ := (reached_initial unmarked).record own (active members covers) concerns
    unmarked made written
  refine ⟨final, roundScores cells, found, _, ?_, further, ?_⟩
  · rw [resolveAndScore, preparePass_of_open unmarked (uninterrupted.budget 0) covers, made]
    exact bind_eq_ok.mpr ⟨_, rfl, bind_eq_ok.mpr ⟨final, written, rfl⟩⟩
  · refine (AssessmentTables.hasAssessmentResolutionMarker_recorded unmarked written).trans ?_
    refine List.all_eq_true.mpr fun coordinate expected => decide_eq_true ?_
    by_cases known : coordinate ∈ existing
    · exact .inl known
    · obtain ⟨cell, member, rfl⟩ := List.mem_map.mp expected
      exact .inr (List.mem_map.mpr ⟨_, missing cell member known, own _⟩)

/-- On completion exactly the missing coordinates have been found. -/
theorem Reached.mem_done_iff
    (reached : Reached orchestrator rounds initial roundId horizon leaving eventual members done progress)
    (marked : progress.tables.hasAssessmentResolutionMarker roundId horizon = true)
    {coordinate : Coordinate} :
    coordinate ∈ done ↔
      coordinate ∈ orchestrator.config.coordinatesAt (members.insertionSort (· ≤ ·)) horizon ∧
        coordinate ∉ initial.resolvedCoordinates roundId horizon :=
  ⟨reached.missing coordinate, fun ⟨expected, missing⟩ =>
    ((reached.complete marked).2 coordinate expected).resolve_left missing⟩

theorem memoryOf_injective {emas emas' : Dict (Hotkey × Coordinate) EmaState} {hotkey : Hotkey}
    {coordinate : Coordinate} (same : memoryOf emas hotkey coordinate =
      memoryOf emas' hotkey coordinate) :
    emas.get? (hotkey, coordinate) = emas'.get? (hotkey, coordinate) := by
  refine Option.map_injective (fun first second equal => ?_) same
  cases first
  cases second
  cases equal
  rfl

/-- **Interrupted scoring is uninterrupted scoring.** When attempts at a round's horizon
complete it, one uninterrupted call would have left the same targets and, for every hotkey
that no call archives, the same averages at active coordinates; no average was moved twice,
and later calls change nothing. -/
theorem interrupted_scoring_eq_uninterrupted (orchestrator : AssessmentScoringOrchestrator)
    (rounds : Store) (initial : AssessmentTables) (roundId : String) (horizon : ℕ)
    (active : orchestrator.RoundActive rounds roundId) (leaving : Set Hotkey)
    (eventual : Coordinate → AssessmentRealizedTarget)
    (own : ∀ coordinate, (eventual coordinate).coordinate = coordinate)
    (attempts : List ScoringAttempt)
    (concerns : ∀ tried ∈ attempts, orchestrator.Concerns roundId horizon leaving eventual tried.call)
    (completed : (run (orchestrator.attempt rounds) ⟨initial, []⟩
      attempts).tables.hasAssessmentResolutionMarker roundId horizon = true)
    (whole : ScoringCall) (same : orchestrator.Concerns roundId horizon leaving eventual whole)
    (uninterrupted : orchestrator.Uninterrupted eventual whole) :
    let reached := run (orchestrator.attempt rounds) ⟨initial, []⟩ attempts
    (∃ final scores, orchestrator.resolveAndScore rounds initial whole = .ok (final, scores) ∧
      (∀ key, reached.tables.realizedTargets.get? key = final.realizedTargets.get? key) ∧
      ∀ hotkey ∉ leaving, ∀ coordinate,
        orchestrator.config.eligibleCoordinate coordinate = true →
        reached.tables.emaStates.get? (hotkey, coordinate) =
          final.emaStates.get? (hotkey, coordinate)) ∧
    reached.moves.Nodup ∧
    ∀ later : List ScoringAttempt,
      (∀ tried ∈ later, tried.call.roundId = roundId ∧ tried.call.horizon = horizon) →
      run (orchestrator.attempt rounds) ⟨initial, []⟩ (attempts ++ later) = reached := by
  intro reached
  have unchanged : ∀ later : List ScoringAttempt,
      (∀ tried ∈ later, tried.call.roundId = roundId ∧ tried.call.horizon = horizon) →
      run (orchestrator.attempt rounds) ⟨initial, []⟩ (attempts ++ later) = reached := by
    intro later about
    rw [run_append]
    exact run_of_marked completed about
  by_cases marked : initial.hasAssessmentResolutionMarker roundId horizon = true
  -- the marker is there from the start: no attempt does anything
  · have still : reached = ⟨initial, []⟩ := run_of_marked marked fun tried member =>
      ⟨(concerns tried member).round, (concerns tried member).sameHorizon⟩
    rw [still] at unchanged ⊢
    refine ⟨⟨initial, Dict.empty, resolveAndScore_of_marked ?_, fun _ => rfl, fun _ _ _ _ => rfl⟩,
      List.nodup_nil, unchanged⟩
    rw [same.round, same.sameHorizon]
    exact marked
  · have unmarked := Bool.eq_false_of_not_eq_true marked
    cases covers : orchestrator.membersOf rounds roundId with
    | none =>
      have still : run (orchestrator.attempt rounds) ⟨initial, []⟩ attempts = ⟨initial, []⟩ :=
        run_of_no_universe covers fun tried member => (concerns tried member).round
      rw [still] at completed
      exact absurd completed marked
    | some members =>
      -- both runs reach the marker, so both resolve every coordinate still missing
      obtain ⟨done, parts⟩ := reached_run own active covers unmarked concerns
      obtain ⟨final, scores, found, moves, made, whole, marked'⟩ :=
        parts.uninterrupted own active covers unmarked completed same uninterrupted
      have iff : ∀ coordinate, coordinate ∈ done ↔ coordinate ∈ found := fun coordinate =>
        (parts.mem_done_iff completed).trans (whole.mem_done_iff marked').symm
      have values : valuesOf eventual done = valuesOf eventual found :=
        funext fun coordinate => if_congr (iff coordinate) rfl rfl
      refine ⟨⟨final, scores, made, fun key => ?_, fun hotkey stays coordinate eligible => ?_⟩,
        parts.once, unchanged⟩
      · rw [parts.targets, whole.targets]
        simp only [iff]
      · refine memoryOf_injective ((parts.memory hotkey stays coordinate eligible).trans ?_)
        rw [values]
        exact (whole.memory hotkey stays coordinate eligible).symm

end AssessmentScoringOrchestrator

/-! ### A subnet with two outputs -/

/-- Parameters that score a deviation up to one hundred. -/
def narrowSpec : AssessmentScoringSpec where
  graceBand := 0
  cutoff := 100
  aggressiveDirection := .higher
  lenientMultiplier := 1
  deviationMode := .absolute
  scoredLive := true
  graceBand_nonneg := by decide
  graceBand_lt_cutoff := by decide
  one_le_lenientMultiplier := le_refl 1

/-- One subnet with two outputs at two horizons, all of them active. -/
def twoOutputs : AssessmentScoringOrchestrator where
  config :=
    { schemaId := "alpha-risk"
      horizons := [5, 30]
      universeMembers := fun _ => some [1]
      bundleValues := fun _ => none
      outputs := [⟨"drawdown", narrowSpec⟩, ⟨"volatility", narrowSpec⟩]
      activeCoordinates := none
      coordinateFor := fun netuid horizon output =>
        ⟨"subnet", toString netuid, "days", horizon, output⟩
      coordinateFor_horizon := fun _ _ _ => rfl
      coordinateFor_output := fun _ _ _ => rfl }
  alpha := 1 / 2
  alpha_pos := by norm_num
  alpha_lt_one := by norm_num

/-- A hotkey whose only accepted reveal is in the round before. -/
def absentSince : Store where
  rounds := Dict.empty
  universes := Dict.ofEntries [(⟨"r2", "alpha-risk"⟩, ⟨["1"], ""⟩)]
  submissions := Dict.ofEntries [((⟨"r1", "alpha-risk"⟩, "a"),
    ⟨none, 1, 1, none, none, none, none, .accepted, none⟩)]
  snapshots := Dict.empty
  consensus := Dict.empty

/-- Its averages: one worth keeping at five days, one almost gone at thirty. -/
def almostGone : AssessmentTables :=
  { AssessmentTables.empty with
    emaStates := Dict.ofEntries
      [(("a", ⟨"subnet", "1", "days", 5, "drawdown"⟩), ⟨1 / 2, 1⟩),
        (("a", ⟨"subnet", "1", "days", 30, "drawdown"⟩), ⟨1 / 200, 1⟩)] }

/-- Every target is worth forty. -/
def fortyAt (coordinate : Coordinate) : AssessmentRealizedTarget :=
  ⟨coordinate, some 40, .resolved, none⟩

/-- A five-day call, with the hotkeys it archives and its clock. -/
def fiveDayCall (archiveHotkeys : List Hotkey) (exhausted : ℕ → Bool) : ScoringCall where
  roundId := "r2"
  horizon := 5
  nowIso := ""
  archiveHotkeys
  exhausted
  resolver netuid horizon output :=
    .target (fortyAt (twoOutputs.config.coordinateFor netuid horizon output))

/-- A call that stops after its first target, and one that runs to the end. -/
def cutAndReplayed (archiveHotkeys : List Hotkey) : List ScoringAttempt :=
  [⟨fiveDayCall archiveHotkeys (2 ≤ ·), false⟩, ⟨fiveDayCall archiveHotkeys fun _ => false, false⟩]

/-- The average at an active coordinate that these calls do not resolve. -/
def thirtyDayRow (tables : AssessmentTables) : Option EmaState :=
  tables.emaStates.get? ("a", ⟨"subnet", "1", "days", 30, "drawdown"⟩)

open AssessmentScoringOrchestrator

theorem roundActive_twoOutputs (rounds : Store) : twoOutputs.RoundActive rounds "r2" := by
  intro members _ coordinate member
  obtain ⟨horizon, -, inside⟩ := List.mem_flatMap.mp member
  obtain ⟨⟨netuid, output⟩, listed, rfl⟩ := List.mem_map.mp inside
  obtain ⟨netuid', -, found⟩ := List.mem_flatMap.mp listed
  obtain ⟨scored, known, same⟩ := List.mem_map.mp found
  cases same
  exact List.contains_iff_mem.mpr (List.mem_map_of_mem known)

theorem concerns_fiveDayCall (exhausted : ℕ → Bool) :
    twoOutputs.Concerns "r2" 5 {"a"} fortyAt (fiveDayCall ["a"] exhausted) where
  round := rfl
  sameHorizon := rfl
  archives _ listed := List.mem_singleton.mp listed
  answers _ _ _ answered := (ResolverAnswer.target.inj answered).symm

theorem uninterrupted_fiveDayCall (archiveHotkeys : List Hotkey) :
    twoOutputs.Uninterrupted fortyAt (fiveDayCall archiveHotkeys fun _ => false) where
  budget _ := rfl
  answers _ _ := rfl

/-- A call that archives a hotkey at its horizon may prune it elsewhere when it is cut
short: the second part no longer sees the average that kept the hotkey. -/
theorem archiving_call_interrupted_differs :
    twoOutputs.RoundActive absentSince "r2" ∧
    twoOutputs.Uninterrupted fortyAt (fiveDayCall ["a"] fun _ => false) ∧
    (run (twoOutputs.attempt absentSince) ⟨almostGone, []⟩
      (cutAndReplayed ["a"])).tables.hasAssessmentResolutionMarker "r2" 5 = true ∧
    thirtyDayRow (run (twoOutputs.attempt absentSince) ⟨almostGone, []⟩
      (cutAndReplayed ["a"])).tables = none ∧
    ((twoOutputs.resolveAndScore absentSince almostGone
      (fiveDayCall ["a"] fun _ => false)).toOption.map fun result => thirtyDayRow result.1) =
        some (some ⟨1 / 200, 1⟩) :=
  ⟨roundActive_twoOutputs _, uninterrupted_fiveDayCall ["a"], by decide +kernel⟩

/-- Another hotkey beside the almost gone one, as absent as that. -/
def bothAbsent : Store :=
  { absentSince with
    submissions := absentSince.submissions.set (⟨"r1", "alpha-risk"⟩, "b")
      ⟨none, 1, 1, none, none, none, none, .accepted, none⟩ }

def beside : AssessmentTables :=
  { almostGone with
    emaStates := almostGone.emaStates.set ("b", ⟨"subnet", "1", "days", 5, "drawdown"⟩) ⟨1 / 2, 1⟩ }

/-- Calls that archive one hotkey leave the other as one call would, with its average moved
once. -/
theorem interrupted_scoring_beside :
    let reached := run (twoOutputs.attempt bothAbsent) ⟨beside, []⟩ (cutAndReplayed ["a"])
    (∃ final scores, twoOutputs.resolveAndScore bothAbsent beside
        (fiveDayCall ["a"] fun _ => false) = .ok (final, scores) ∧
      (∀ key, reached.tables.realizedTargets.get? key = final.realizedTargets.get? key) ∧
      ∀ hotkey ≠ "a", ∀ coordinate, twoOutputs.config.eligibleCoordinate coordinate = true →
        reached.tables.emaStates.get? (hotkey, coordinate) =
          final.emaStates.get? (hotkey, coordinate)) ∧
    reached.moves.Nodup ∧
    (∀ later : List ScoringAttempt,
      (∀ tried ∈ later, tried.call.roundId = "r2" ∧ tried.call.horizon = 5) →
      run (twoOutputs.attempt bothAbsent) ⟨beside, []⟩ (cutAndReplayed ["a"] ++ later) =
        reached) ∧
    reached.tables.emaStates.get? ("b", ⟨"subnet", "1", "days", 5, "drawdown"⟩) =
      some ⟨1 / 4, 2⟩ := by
  have same := interrupted_scoring_eq_uninterrupted twoOutputs bothAbsent beside "r2" 5
    (roundActive_twoOutputs _) {"a"} fortyAt (fun _ => rfl) (cutAndReplayed ["a"])
    (fun tried member => ?_) (by decide +kernel) (fiveDayCall ["a"] fun _ => false)
    (concerns_fiveDayCall _) (uninterrupted_fiveDayCall ["a"])
  · exact ⟨same.1, same.2.1, same.2.2, by decide +kernel⟩
  · cases member with
    | head => exact concerns_fiveDayCall _
    | tail _ rest =>
      cases rest with
      | head => exact concerns_fiveDayCall _
      | tail _ none => cases none

end Endure.Scoring
