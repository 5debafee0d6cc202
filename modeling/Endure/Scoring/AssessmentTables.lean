import Endure.Scoring.Deviation
import Endure.Storage.Rounds

/-!
# The assessment tables

The tables of realized targets, scores and moving averages of one schema, and the
transaction of `endure/storage/repository.py` that persists a scoring pass.
-/

namespace Endure.Scoring

open Library Endure.Storage

/-- What became of a target. -/
inductive TargetStatus
  | resolved
  | voided
  deriving DecidableEq

/-- A coordinate's target once it is known. -/
structure AssessmentRealizedTarget where
  coordinate : Coordinate
  value : Option ℚ
  status : TargetStatus
  providerPayloadHash : Option String
  deriving DecidableEq

/-- A score with the error behind it, if the hotkey submitted. -/
structure OutputScore where
  score : ℚ
  error : Option ℚ
  deriving DecidableEq

/-- A moving average and how many rounds it has seen. -/
structure EmaState where
  ema : ℚ
  resolvedRounds : ℕ
  deriving DecidableEq

/-- A round's score and the moving average after it. -/
structure ScoreHistoryRow where
  roundScore : ℚ
  emaAfter : ℚ
  deriving DecidableEq

/-- The assessment tables, each under its unique key. -/
structure AssessmentTables where
  realizedTargets : Dict (String × Coordinate) AssessmentRealizedTarget
  outputScores : Dict (String × Hotkey × Coordinate) OutputScore
  emaStates : Dict (Hotkey × Coordinate) EmaState
  scoreHistory : Dict (String × Hotkey × Coordinate) ScoreHistoryRow
  horizonResolutions : Dict (String × ℕ) String

/-- Tables with no rows. -/
def AssessmentTables.empty : AssessmentTables :=
  ⟨Dict.empty, Dict.empty, Dict.empty, Dict.empty, Dict.empty⟩

/-- The rows of one scoring pass. -/
structure ScoringPass where
  horizonValue : ℕ
  realizedTargets : List AssessmentRealizedTarget
  outputScores : List ((Hotkey × Coordinate) × OutputScore)
  emaUpdates : List ((Hotkey × Coordinate) × EmaState)
  scoreHistory : List ((Hotkey × Coordinate) × ScoreHistoryRow)
  complete : Bool
  archiveHotkeys : List Hotkey
  prunedHotkeys : List Hotkey
  prunedCoordinates : Option (Finset Coordinate)

namespace AssessmentTables

/-- Whether a round's horizon is completely resolved. -/
def hasAssessmentResolutionMarker (tables : AssessmentTables) (roundId : String) (horizon : ℕ) :
    Bool :=
  tables.horizonResolutions.contains (roundId, horizon)

/-- The coordinates of a round's horizon that have a target. -/
def resolvedCoordinates (tables : AssessmentTables) (roundId : String) (horizon : ℕ) :
    List Coordinate :=
  (tables.realizedTargets.filter fun key _ =>
    key.1 = roundId ∧ key.2.horizonValue = horizon).keys.map Prod.snd

/-- The moving averages that survive archival of hotkeys at one horizon. -/
def archiveHorizon (emas : Dict (Hotkey × Coordinate) EmaState) (horizon : ℕ)
    (hotkeys : List Hotkey) : Dict (Hotkey × Coordinate) EmaState :=
  emas.filter fun key _ => ¬(key.1 ∈ hotkeys ∧ key.2.horizonValue = horizon)

/-- The moving averages that survive the pruning of hotkeys, at the given coordinates
or at all of them. -/
def prune (emas : Dict (Hotkey × Coordinate) EmaState) (hotkeys : List Hotkey)
    (coordinates : Option (Finset Coordinate)) : Dict (Hotkey × Coordinate) EmaState :=
  emas.filter fun key _ => ¬(key.1 ∈ hotkeys ∧ coordinates.all (key.2 ∈ ·))

/-- The moving averages after a pass: its updates, then archival, then pruning. -/
def updatedEmas (emas : Dict (Hotkey × Coordinate) EmaState) (pass : ScoringPass) :
    Dict (Hotkey × Coordinate) EmaState :=
  prune (archiveHorizon (emas.setAll pass.emaUpdates) pass.horizonValue pass.archiveHotkeys)
    pass.prunedHotkeys pass.prunedCoordinates

/-- Persist one scoring pass atomically; a replay of a completed horizon changes
nothing. -/
def recordAssessmentScoringPass (tables : AssessmentTables) (roundId : String)
    (pass : ScoringPass) (nowIso : String) : Except ScoringError AssessmentTables :=
  if pass.prunedCoordinates = some ∅ then .error .emptyActiveSet
  else if tables.hasAssessmentResolutionMarker roundId pass.horizonValue then .ok tables
  else .ok {
    realizedTargets := tables.realizedTargets.insertAllIfAbsent
      (pass.realizedTargets.map fun target => ((roundId, target.coordinate), target))
    outputScores := tables.outputScores.insertAllIfAbsent
      (pass.outputScores.map fun entry => ((roundId, entry.1), entry.2))
    emaStates := updatedEmas tables.emaStates pass
    scoreHistory := tables.scoreHistory.insertAllIfAbsent
      (pass.scoreHistory.map fun entry => ((roundId, entry.1), entry.2))
    horizonResolutions :=
      if pass.complete then
        tables.horizonResolutions.insertIfAbsent (roundId, pass.horizonValue) nowIso
      else tables.horizonResolutions }

/-- The rows a pass leaves when its horizon is still open. -/
theorem recordAssessmentScoringPass_eq_ok {tables tables' : AssessmentTables} {roundId : String}
    {pass : ScoringPass} {nowIso : String}
    (unmarked : tables.hasAssessmentResolutionMarker roundId pass.horizonValue = false) :
    tables.recordAssessmentScoringPass roundId pass nowIso = .ok tables' ↔
      pass.prunedCoordinates ≠ some ∅ ∧ tables' =
        { realizedTargets := tables.realizedTargets.insertAllIfAbsent
            (pass.realizedTargets.map fun target => ((roundId, target.coordinate), target))
          outputScores := tables.outputScores.insertAllIfAbsent
            (pass.outputScores.map fun entry => ((roundId, entry.1), entry.2))
          emaStates := updatedEmas tables.emaStates pass
          scoreHistory := tables.scoreHistory.insertAllIfAbsent
            (pass.scoreHistory.map fun entry => ((roundId, entry.1), entry.2))
          horizonResolutions :=
            if pass.complete then
              tables.horizonResolutions.insertIfAbsent (roundId, pass.horizonValue) nowIso
            else tables.horizonResolutions } := by
  rw [recordAssessmentScoringPass, unmarked]
  by_cases empty : pass.prunedCoordinates = some ∅
  · rw [if_pos empty]
    exact iff_of_false nofun fun both => both.1 empty
  · rw [if_neg empty, if_neg Bool.false_ne_true, Except.ok.injEq, eq_comm]
    exact (and_iff_right empty).symm

/-- A pass over a set of active coordinates that is not empty can be recorded. -/
theorem exists_recorded {tables : AssessmentTables} {roundId : String} {pass : ScoringPass}
    (nonempty : pass.prunedCoordinates ≠ some ∅) (nowIso : String) :
    ∃ tables', tables.recordAssessmentScoringPass roundId pass nowIso = .ok tables' := by
  rw [recordAssessmentScoringPass, if_neg nonempty]
  split
  · exact ⟨tables, rfl⟩
  · exact ⟨_, rfl⟩

/-- A recorded pass completes its horizon exactly when it says so. -/
theorem hasAssessmentResolutionMarker_recorded {tables tables' : AssessmentTables}
    {roundId : String} {pass : ScoringPass} {nowIso : String}
    (unmarked : tables.hasAssessmentResolutionMarker roundId pass.horizonValue = false)
    (recorded : tables.recordAssessmentScoringPass roundId pass nowIso = .ok tables') :
    tables'.hasAssessmentResolutionMarker roundId pass.horizonValue = pass.complete := by
  obtain ⟨-, rfl⟩ := (recordAssessmentScoringPass_eq_ok unmarked).mp recorded
  simp only [hasAssessmentResolutionMarker, Dict.contains] at unmarked ⊢
  cases pass.complete with
  | false => rw [if_neg Bool.false_ne_true, unmarked]
  | true => rw [if_pos rfl, Dict.get?_insertIfAbsent, if_pos rfl, Option.isSome_or, unmarked]; rfl

theorem mem_resolvedCoordinates {tables : AssessmentTables} {roundId : String} {horizon : ℕ}
    {coordinate : Coordinate} :
    coordinate ∈ tables.resolvedCoordinates roundId horizon ↔
      coordinate.horizonValue = horizon ∧
        (tables.realizedTargets.get? (roundId, coordinate)).isSome := by
  rw [resolvedCoordinates, List.mem_map]
  constructor
  · rintro ⟨⟨round, found⟩, member, rfl⟩
    obtain ⟨target, held⟩ := Dict.mem_keys_iff.mp member
    rw [Dict.get?_filter, Option.filter_eq_some_iff, decide_eq_true_iff] at held
    obtain ⟨held, rfl, same⟩ := held
    exact ⟨same, Option.isSome_iff_exists.mpr ⟨target, held⟩⟩
  · rintro ⟨same, held⟩
    obtain ⟨target, found⟩ := Option.isSome_iff_exists.mp held
    refine ⟨(roundId, coordinate), Dict.mem_keys_iff.mpr ⟨target, ?_⟩, rfl⟩
    rw [Dict.get?_filter, found, Option.filter_some, if_pos (by simpa using same)]

theorem get?_archiveHorizon (emas : Dict (Hotkey × Coordinate) EmaState) (horizon : ℕ)
    (hotkeys : List Hotkey) (hotkey : Hotkey) (coordinate : Coordinate) :
    (archiveHorizon emas horizon hotkeys).get? (hotkey, coordinate) =
      if hotkey ∈ hotkeys ∧ coordinate.horizonValue = horizon then none
      else emas.get? (hotkey, coordinate) := by
  rw [archiveHorizon, Dict.get?_filter]
  by_cases archived : hotkey ∈ hotkeys ∧ coordinate.horizonValue = horizon
  · simp [archived]
  · rw [if_neg archived]
    cases emas.get? (hotkey, coordinate) <;> simp [archived]

theorem get?_prune (emas : Dict (Hotkey × Coordinate) EmaState) (hotkeys : List Hotkey)
    (coordinates : Option (Finset Coordinate)) (hotkey : Hotkey) (coordinate : Coordinate) :
    (prune emas hotkeys coordinates).get? (hotkey, coordinate) =
      if hotkey ∈ hotkeys ∧ coordinates.all (coordinate ∈ ·) = true then none
      else emas.get? (hotkey, coordinate) := by
  rw [prune, Dict.get?_filter]
  by_cases pruned : hotkey ∈ hotkeys ∧ coordinates.all (coordinate ∈ ·) = true
  · simp [pruned]
  · rw [if_neg pruned]
    cases emas.get? (hotkey, coordinate) <;> simp [pruned]

end AssessmentTables

end Endure.Scoring
