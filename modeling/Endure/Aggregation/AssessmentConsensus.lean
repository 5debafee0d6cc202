import Endure.Aggregation.Consensus
import Endure.Library.Checked
import Endure.Storage.Rounds

/-!
# Consensus over the coordinate spine

The model of `endure/aggregation/assessment_consensus.py`. The samples of every
coordinate are collected from the accepted bundles in the order of the hotkeys,
each under its hotkey's consensus weight, and aggregated cell by cell. A group of
miners with too little weight in a cell cannot move its median out of the values
of the others.
-/

namespace Endure.Aggregation

open Library Library.Checked Library.WeightedMedian Endure.Storage
open Endure.Scoring (Hotkey)

/-- One submitted value, within what every bundle model checks. -/
structure AssessmentOutputValue where
  horizonSeconds : ℕ
  output : String
  value : ℤ
  horizon_pos : 0 < horizonSeconds
  output_named : output ≠ ""

/-- The values submitted for one subnet, one at most for an output and a horizon. -/
structure AssessmentAsset where
  netuid : ℕ
  outputs : List AssessmentOutputValue
  distinct : (outputs.map fun item => (item.output, item.horizonSeconds)).Nodup

/-- A parsed bundle, with no subnet twice. -/
structure AssessmentConsensusBundle where
  assets : List AssessmentAsset
  distinct : (assets.map AssessmentAsset.netuid).Nodup

/-- `AssessmentCoordinate.subnet_asset`, for values that its own checks accept. -/
def subnetAsset (netuid horizonSeconds : ℕ) (output : String) : Coordinate where
  targetKind := "subnet_asset"
  targetId := Nat.repr netuid
  horizonKind := "seconds"
  horizonValue := horizonSeconds
  output := output

/-- The values of a bundle with their coordinates. -/
def AssessmentConsensusBundle.submissions (bundle : AssessmentConsensusBundle) :
    List (Coordinate × ℤ) :=
  bundle.assets.flatMap fun asset => asset.outputs.map fun item =>
    (subnetAsset asset.netuid item.horizonSeconds item.output, item.value)

/-- The hotkeys in the order they are read. -/
def sortedHotkeys (bundles : Dict Hotkey AssessmentConsensusBundle) : List Hotkey :=
  bundles.keys.insertionSort (· ≤ ·)

/-- What one hotkey submitted. -/
def submissionsOf (bundles : Dict Hotkey AssessmentConsensusBundle) (hotkey : Hotkey) :
    List (Coordinate × ℤ) :=
  match bundles.get? hotkey with
  | some bundle => bundle.submissions
  | none => []

/-- The samples of every coordinate. -/
def collectSamples (bundles : Dict Hotkey AssessmentConsensusBundle) (blends : Dict Hotkey ℚ) :
    Dict Coordinate (List (ℤ × ℚ)) :=
  Dict.collect ((sortedHotkeys bundles).flatMap fun hotkey =>
    (submissionsOf bundles hotkey).map fun submission =>
      (submission.1, (submission.2, consensusWeight blends hotkey)))

/-- A row of the consensus, checked as it is made. -/
def consensusRow (coordinate : Coordinate) (cell : CellAggregate) :
    Except ConsensusError AssessmentConsensusRow := do
  ensure (0 ≤ cell.dispersion) .negativeDispersion
  ensure (0 < cell.count) .noSubmitters
  return ⟨coordinate, cell.median, cell.dispersion, cell.count⟩

/-- The row of one coordinate's samples. -/
def rowOf (samples : Dict Coordinate (List (ℤ × ℚ))) (coordinate : Coordinate) :
    Except ConsensusError AssessmentConsensusRow := do
  let cell ← aggregateCell (samples.getD coordinate [])
  consensusRow coordinate cell

/-- The consensus of every submitted coordinate, in the order of the coordinates. -/
def computeAssessmentConsensus (bundles : Dict Hotkey AssessmentConsensusBundle)
    (blends : Dict Hotkey ℚ) : Except ConsensusError (List AssessmentConsensusRow) :=
  let samples := collectSamples bundles blends
  (samples.keys.insertionSort fun first second => (compare first second).isLE).mapM (rowOf samples)

/-! ### Samples of a cell -/

/-- What a hotkey submitted for a coordinate. -/
def submitted (bundles : Dict Hotkey AssessmentConsensusBundle) (hotkey : Hotkey)
    (coordinate : Coordinate) : Option ℤ :=
  (submissionsOf bundles hotkey).lookup coordinate

/-- The hotkeys that submitted for a coordinate, with their values. -/
def cellEntries (bundles : Dict Hotkey AssessmentConsensusBundle) (coordinate : Coordinate) :
    List (Hotkey × ℤ) :=
  (sortedHotkeys bundles).filterMap fun hotkey =>
    (submitted bundles hotkey coordinate).map (hotkey, ·)

/-- The samples of entries under the weights of their hotkeys. -/
def weigh (blends : Dict Hotkey ℚ) (entries : List (Hotkey × ℤ)) : List (ℤ × ℚ) :=
  entries.map fun entry => (entry.2, consensusWeight blends entry.1)

/-- The weight of all the submitters of a cell. -/
def cellWeight (bundles : Dict Hotkey AssessmentConsensusBundle) (blends : Dict Hotkey ℚ)
    (coordinate : Coordinate) : ℚ :=
  ((cellEntries bundles coordinate).map fun entry => consensusWeight blends entry.1).sum

/-- The weight of the submitters of a cell that belong to a coalition. -/
def coalitionWeight (bundles : Dict Hotkey AssessmentConsensusBundle) (blends : Dict Hotkey ℚ)
    (coordinate : Coordinate) (coalition : Finset Hotkey) : ℚ :=
  (((cellEntries bundles coordinate).filter fun entry => entry.1 ∈ coalition).map fun entry =>
    consensusWeight blends entry.1).sum

variable {bundles : Dict Hotkey AssessmentConsensusBundle} {blends : Dict Hotkey ℚ}
  {coordinate : Coordinate} {hotkey : Hotkey}

theorem subnetAsset_inj {netuid netuid' horizon horizon' : ℕ} {output output' : String} :
    subnetAsset netuid horizon output = subnetAsset netuid' horizon' output' ↔
      netuid = netuid' ∧ (output, horizon) = (output', horizon') := by
  rw [subnetAsset, subnetAsset, Coordinate.mk.injEq, Prod.mk.injEq, Nat.repr_inj]
  tauto

/-- A bundle has one value at most for a coordinate. -/
theorem AssessmentConsensusBundle.submissions_nodup (bundle : AssessmentConsensusBundle) :
    (bundle.submissions.map Prod.fst).Nodup := by
  rw [submissions, List.map_flatMap, List.nodup_flatMap]
  constructor
  · intro asset member
    rw [List.map_map]
    refine List.Nodup.of_map (fun coordinate => (coordinate.output, coordinate.horizonValue)) ?_
    rw [List.map_map]
    exact asset.distinct
  · refine (List.pairwise_map.mp bundle.distinct).imp ?_
    intro first second apart
    rw [Function.onFun, List.disjoint_left]
    intro coordinate inFirst inSecond
    simp only [List.map_map, List.mem_map, Function.comp_apply] at inFirst inSecond
    obtain ⟨item, -, rfl⟩ := inFirst
    obtain ⟨other, -, same⟩ := inSecond
    exact apart (subnetAsset_inj.mp same).1.symm

theorem submissionsOf_nodup : ((submissionsOf bundles hotkey).map Prod.fst).Nodup := by
  rw [submissionsOf]
  cases bundles.get? hotkey with
  | none => exact List.nodup_nil
  | some bundle => exact bundle.submissions_nodup

/-- The entries under one key of a list with distinct keys. -/
theorem filter_fst_eq {entries : List (Coordinate × ℤ)} (nodup : (entries.map Prod.fst).Nodup)
    (coordinate : Coordinate) : entries.filter (fun entry => entry.1 = coordinate) =
      ((entries.lookup coordinate).map (coordinate, ·)).toList := by
  induction entries with
  | nil => rfl
  | cons entry rest ih =>
    rw [List.map_cons, List.nodup_cons] at nodup
    by_cases same : entry.1 = coordinate
    · have none : rest.filter (fun entry => entry.1 = coordinate) = [] := by
        rw [List.filter_eq_nil_iff]
        intro other member
        have apart : other.1 ≠ entry.1 := fun equal =>
          nodup.1 (equal ▸ List.mem_map_of_mem member)
        simpa [same] using apart
      rw [List.filter_cons_of_pos (by simpa using same), none, List.lookup_cons]
      simp [← same]
    · have unequal : (coordinate == entry.1) = false := beq_false_of_ne (Ne.symm same)
      rw [List.filter_cons_of_neg (by simpa using same), ih nodup.2, List.lookup_cons, unequal]

/-- The samples of a cell are its entries under their weights. -/
theorem getD_collectSamples :
    (collectSamples bundles blends).getD coordinate [] =
      weigh blends (cellEntries bundles coordinate) := by
  rw [collectSamples, Dict.getD_collect, List.filter_flatMap, List.map_flatMap, weigh, cellEntries,
    List.map_filterMap, List.filterMap_eq_flatMap_toList]
  refine List.flatMap_congr fun hotkey _ => ?_
  rw [List.filter_map]
  have same : (fun entry : Coordinate × ℤ × ℚ => decide (entry.1 = coordinate)) ∘
      (fun submission : Coordinate × ℤ =>
        (submission.1, (submission.2, consensusWeight blends hotkey))) =
      fun submission => decide (submission.1 = coordinate) := rfl
  rw [same, filter_fst_eq submissionsOf_nodup, submitted]
  cases (submissionsOf bundles hotkey).lookup coordinate with
  | none => rfl
  | some value => rfl

theorem mem_sortedHotkeys : hotkey ∈ sortedHotkeys bundles ↔ hotkey ∈ bundles.keys :=
  (List.perm_insertionSort _ _).mem_iff

theorem mem_cellEntries {value : ℤ} :
    (hotkey, value) ∈ cellEntries bundles coordinate ↔
      submitted bundles hotkey coordinate = some value := by
  rw [cellEntries, List.mem_filterMap]
  constructor
  · rintro ⟨other, -, found⟩
    obtain ⟨same, some', made⟩ := Option.map_eq_some_iff.mp found
    rw [Prod.mk.injEq] at made
    rw [← made.1, some', made.2]
  · intro found
    refine ⟨hotkey, ?_, by rw [found, Option.map_some]⟩
    rw [mem_sortedHotkeys]
    by_contra absent
    rw [submitted, submissionsOf, Dict.get?_eq_none_iff.mpr absent] at found
    cases found

/-- Looking up a list with distinct keys finds exactly its entries. -/
theorem submitted_eq_some {value : ℤ} : submitted bundles hotkey coordinate = some value ↔
    (coordinate, value) ∈ submissionsOf bundles hotkey := by
  have nodup : ((submissionsOf bundles hotkey).map Prod.fst).Nodup := submissionsOf_nodup
  have entries := filter_fst_eq nodup coordinate
  have member : (coordinate, value) ∈ submissionsOf bundles hotkey ↔
      (coordinate, value) ∈ (submissionsOf bundles hotkey).filter
        fun entry => entry.1 = coordinate := by
    simp [List.mem_filter]
  rw [member, entries, submitted]
  simp

theorem mem_keys_collectSamples :
    coordinate ∈ (collectSamples bundles blends).keys ↔
      ∃ hotkey value, submitted bundles hotkey coordinate = some value := by
  rw [collectSamples, Dict.mem_keys_collect]
  simp only [List.mem_map, List.mem_flatMap, submitted_eq_some]
  constructor
  · rintro ⟨_, ⟨hotkey, -, ⟨coordinate, value⟩, inside, rfl⟩, rfl⟩
    exact ⟨hotkey, value, inside⟩
  · rintro ⟨hotkey, value, inside⟩
    have sorted : hotkey ∈ sortedHotkeys bundles := by
      rw [mem_sortedHotkeys]
      by_contra absent
      rw [submissionsOf, Dict.get?_eq_none_iff.mpr absent] at inside
      cases inside
    exact ⟨_, ⟨hotkey, sorted, (coordinate, value), inside, rfl⟩, rfl⟩

/-! ### Weights -/

theorem consensusWeight_pos (blends : Dict Hotkey ℚ) (hotkey : Hotkey) :
    0 < consensusWeight blends hotkey :=
  lt_max_of_lt_right (by norm_num [minConsensusWeight])

theorem weigh_nonneg (blends : Dict Hotkey ℚ) (entries : List (Hotkey × ℤ)) :
    ∀ sample ∈ weigh blends entries, 0 ≤ sample.2 := by
  intro sample member
  obtain ⟨entry, -, rfl⟩ := List.mem_map.mp member
  exact (consensusWeight_pos blends entry.1).le

theorem total_weigh (blends : Dict Hotkey ℚ) (entries : List (Hotkey × ℤ)) :
    total (weigh blends entries) = (entries.map fun entry => consensusWeight blends entry.1).sum := by
  rw [total, weigh, List.map_map]
  rfl

theorem total_weigh_pos {entries : List (Hotkey × ℤ)} (nonempty : entries ≠ []) :
    0 < total (weigh blends entries) := by
  obtain ⟨entry, rest, rfl⟩ := List.exists_cons_of_ne_nil nonempty
  have later := total_nonneg (weigh_nonneg blends rest)
  have here := consensusWeight_pos blends entry.1
  rw [weigh, List.map_cons, total_cons]
  exact add_pos_of_pos_of_nonneg here later

/-- The weight a coalition leaves to the others must exceed half of the cell's, by the
rounding errors of its sums unless these are exact. -/
def Outweighed (bundles : Dict Hotkey AssessmentConsensusBundle) (blends : Dict Hotkey ℚ)
    (coordinate : Coordinate) (coalition : Finset Hotkey) : Prop :=
  highFactor (cellEntries bundles coordinate).length * (cellWeight bundles blends coordinate / 2) <
      lowFactor (cellEntries bundles coordinate).length *
        (cellWeight bundles blends coordinate -
          coalitionWeight bundles blends coordinate coalition) ∨
    FitsContext (weigh blends (cellEntries bundles coordinate)) ∧
      coalitionWeight bundles blends coordinate coalition < cellWeight bundles blends coordinate / 2

/-- An outweighed coalition leaves a halving value between the values of the others. -/
theorem between_of_outweighed {coalition : Finset Hotkey} {cell : CellAggregate}
    (nearly : Aggregates (lowFactor (cellEntries bundles coordinate).length)
      (highFactor (cellEntries bundles coordinate).length)
      (weigh blends (cellEntries bundles coordinate)) cell)
    (exactly : FitsContext (weigh blends (cellEntries bundles coordinate)) →
      Aggregates 1 1 (weigh blends (cellEntries bundles coordinate)) cell)
    (outweighed : Outweighed bundles blends coordinate coalition) :
    (∃ hotkey value, hotkey ∉ coalition ∧ submitted bundles hotkey coordinate = some value ∧
        value ≤ cell.median) ∧
      ∃ hotkey value, hotkey ∉ coalition ∧ submitted bundles hotkey coordinate = some value ∧
        cell.median ≤ value := by
  set entries := cellEntries bundles coordinate with hentries
  set members := entries.filter fun entry => entry.1 ∈ coalition with hmembers
  set others := entries.filter fun entry => !decide (entry.1 ∈ coalition) with hothers
  -- the entries of the coalition and the entries of everyone else
  have parts : entries.Perm (others ++ members) :=
    ((List.filter_append_perm _ entries).symm).trans List.perm_append_comm
  have split : (weigh blends entries).Perm (weigh blends others ++ weigh blends members) := by
    rw [weigh, weigh, weigh, ← List.map_append]
    exact parts.map _
  have whole : total (weigh blends entries) = cellWeight bundles blends coordinate :=
    total_weigh blends entries
  have left : total (weigh blends others) = cellWeight bundles blends coordinate -
      coalitionWeight bundles blends coordinate coalition := by
    have sum := total_perm split
    rw [total_append, whole, total_weigh blends members] at sum
    rw [coalitionWeight, ← hentries, ← hmembers]
    linarith
  have between : (∃ sample ∈ weigh blends others, sample.1 ≤ cell.median) ∧
      ∃ sample ∈ weigh blends others, cell.median ≤ sample.1 := by
    have nonneg := weigh_nonneg blends entries
    rcases outweighed with majority | ⟨fits, minority⟩
    · refine nearly.median.between nonneg (lowFactor_pos _) (highFactor_pos _) split ?_
      rw [whole, left]
      exact majority
    · refine (exactly fits).median.between nonneg one_pos one_pos split ?_
      rw [whole, left]
      linarith
  -- a sample outside the coalition is somebody's submitted value
  have honest : ∀ sample ∈ weigh blends others, ∃ hotkey, hotkey ∉ coalition ∧
      submitted bundles hotkey coordinate = some sample.1 := by
    intro sample member
    obtain ⟨⟨hotkey, value⟩, inside, rfl⟩ := List.mem_map.mp member
    rw [hothers, List.mem_filter] at inside
    exact ⟨hotkey, by simpa using inside.2, mem_cellEntries.mp inside.1⟩
  obtain ⟨⟨lower, inLower, below⟩, upper, inUpper, above⟩ := between
  obtain ⟨hotkey, outside, found⟩ := honest lower inLower
  obtain ⟨hotkey', outside', found'⟩ := honest upper inUpper
  exact ⟨⟨hotkey, lower.1, outside, found, below⟩, hotkey', upper.1, outside', found', above⟩

/-- What a coordinate's row publishes: the aggregate of its cell. -/
structure Publishes (bundles : Dict Hotkey AssessmentConsensusBundle) (blends : Dict Hotkey ℚ)
    (coordinate : Coordinate) (row : AssessmentConsensusRow) (cell : CellAggregate) : Prop where
  row_eq : row = ⟨coordinate, cell.median, cell.dispersion, cell.count⟩
  nearly : Aggregates (lowFactor (cellEntries bundles coordinate).length)
    (highFactor (cellEntries bundles coordinate).length)
    (weigh blends (cellEntries bundles coordinate)) cell
  exactly : FitsContext (weigh blends (cellEntries bundles coordinate)) →
    Aggregates 1 1 (weigh blends (cellEntries bundles coordinate)) cell

/-- Every submitted coordinate has its row. -/
theorem exists_row (submits : ∃ hotkey value, submitted bundles hotkey coordinate = some value) :
    ∃ row cell, rowOf (collectSamples bundles blends) coordinate = .ok row ∧
      Publishes bundles blends coordinate row cell := by
  obtain ⟨hotkey, value, found⟩ := submits
  have member := mem_cellEntries.mpr found
  have nonempty : cellEntries bundles coordinate ≠ [] := List.ne_nil_of_mem member
  have length : (weigh blends (cellEntries bundles coordinate)).length =
      (cellEntries bundles coordinate).length := List.length_map _
  have positive : 0 < total (weigh blends (cellEntries bundles coordinate)) :=
    total_weigh_pos nonempty
  obtain ⟨cell, made, nearly, exactly⟩ := exists_aggregateCell (weigh_nonneg blends _) positive
  rw [length] at nearly
  have dispersed : 0 ≤ cell.dispersion := by
    obtain ⟨sample, inside, same⟩ := List.mem_map.mp nearly.dispersion.sampled
    obtain ⟨sampled, -, rfl⟩ := List.mem_map.mp inside
    rw [← same]
    exact abs_nonneg _
  have counted : 0 < cell.count := by
    rw [nearly.count, length]
    exact List.length_pos_of_ne_nil nonempty
  refine ⟨_, cell, bind_eq_ok.mpr ⟨cell, ?_, ?_⟩, rfl, nearly, exactly⟩
  · rw [getD_collectSamples, made]
  · rw [consensusRow, ensure_bind dispersed, ensure_bind counted]
    rfl

/-! ### The published consensus -/

/-- Every cell with weight has a sample that halves it, up to the rounding of its sums, and
a dispersion that halves the deviations from it, in whatever order the samples come. Every
submitted coordinate is published, and an outweighed coalition leaves its median between
the values of the others. -/
theorem consensus_robust :
    (∀ values : List (ℤ × ℚ), (∀ sample ∈ values, 0 ≤ sample.2) → 0 < total values →
      ∃ cell, weightedMedian values = .ok cell.median ∧
        weightedMedian (deviations values cell.median) = .ok cell.dispersion ∧
        Aggregates (lowFactor values.length) (highFactor values.length) values cell ∧
        (FitsContext values → Aggregates 1 1 values cell) ∧
        ∀ reordered : List (ℤ × ℚ), reordered.Perm values → aggregateCell reordered = .ok cell) ∧
    ∀ (bundles : Dict Hotkey AssessmentConsensusBundle) (blends : Dict Hotkey ℚ),
      ∃ rows, computeAssessmentConsensus bundles blends = .ok rows ∧
        (∀ coordinate, coordinate ∈ rows.map AssessmentConsensusRow.coordinate ↔
          ∃ hotkey value, submitted bundles hotkey coordinate = some value) ∧
        ∀ row ∈ rows, ∀ coalition : Finset Hotkey,
          Outweighed bundles blends row.coordinate coalition →
            (∃ hotkey, ∃ value : ℤ, hotkey ∉ coalition ∧
              submitted bundles hotkey row.coordinate = some value ∧ (value : ℚ) ≤ row.value) ∧
            ∃ hotkey, ∃ value : ℤ, hotkey ∉ coalition ∧
              submitted bundles hotkey row.coordinate = some value ∧ row.value ≤ (value : ℚ) := by
  constructor
  · intro values nonneg positive
    obtain ⟨cell, made, nearly, exactly⟩ := exists_aggregateCell nonneg positive
    obtain ⟨median, dispersion, -⟩ := aggregateCell_eq_ok.mp made
    refine ⟨cell, median, dispersion, nearly, exactly, fun reordered perm => ?_⟩
    rw [aggregateCell_perm perm, made]
  · intro bundles blends
    -- rows are made for the sorted coordinates of the samples
    set keys := (collectSamples bundles blends).keys.insertionSort
      fun first second => (compare first second).isLE with hkeys
    have submits : ∀ coordinate, coordinate ∈ keys ↔
        ∃ hotkey value, submitted bundles hotkey coordinate = some value := by
      intro coordinate
      rw [hkeys, (List.perm_insertionSort _ _).mem_iff, mem_keys_collectSamples]
    have each : ∀ coordinate ∈ keys, ∃ row,
        rowOf (collectSamples bundles blends) coordinate = .ok row := by
      intro coordinate member
      obtain ⟨row, -, made, -⟩ := exists_row ((submits coordinate).mp member)
      exact ⟨row, made⟩
    -- no cell is empty, so no row fails
    obtain ⟨rows, done⟩ := exists_mapM_eq_ok each
    have publishes : ∀ coordinate ∈ keys, ∀ row,
        rowOf (collectSamples bundles blends) coordinate = .ok row →
          ∃ cell, Publishes bundles blends coordinate row cell := by
      intro coordinate member row computed
      obtain ⟨row', cell, made, publishes⟩ := exists_row ((submits coordinate).mp member)
      obtain rfl := Except.ok.inj (made.symm.trans computed)
      exact ⟨cell, publishes⟩
    refine ⟨rows, done, fun coordinate => ?_, fun row member coalition outweighed => ?_⟩
    · rw [← submits, List.mem_map]
      constructor
      · rintro ⟨row, member, rfl⟩
        obtain ⟨coordinate, inside, computed⟩ := exists_item done member
        obtain ⟨cell, published⟩ := publishes coordinate inside row computed
        rw [published.row_eq]
        exact inside
      · intro inside
        obtain ⟨row, member, computed⟩ := exists_result done inside
        obtain ⟨cell, published⟩ := publishes coordinate inside row computed
        exact ⟨row, member, by rw [published.row_eq]⟩
    · obtain ⟨coordinate, inside, computed⟩ := exists_item done member
      obtain ⟨cell, rfl, nearly, exactly⟩ := publishes coordinate inside row computed
      obtain ⟨⟨hotkey, low, outside, found, below⟩, hotkey', high, outside', found', above⟩ :=
        between_of_outweighed nearly exactly outweighed
      exact ⟨⟨hotkey, low, outside, found, Int.cast_le.mpr below⟩,
        hotkey', high, outside', found', Int.cast_le.mpr above⟩

/-- A bundle with one value for one output of one subnet. -/
def singleBundle (value : ℤ) : AssessmentConsensusBundle where
  assets := [⟨1, [⟨86400, "twap_price", value, by norm_num, by decide⟩], by simp⟩]
  distinct := by simp

/-- Two miners say zero and two say ten. -/
def splitBundles : Dict Hotkey AssessmentConsensusBundle :=
  ⟨[("a", singleBundle 0), ("b", singleBundle 0), ("c", singleBundle 10), ("d", singleBundle 10)],
    by decide⟩

/-- The blends of the first two fall short of the others' by two units of the 28th digit. -/
def splitBlends : Dict Hotkey ℚ :=
  ⟨[("a", 5000000000000000000000000001 / 10 ^ 28), ("b", 1 / 2),
    ("c", 5000000000000000000000000003 / 10 ^ 28), ("d", 1 / 2)], by decide⟩

/-- The sum of four blends of 28 digits is rounded: miners with less than half of the weight
decide the median, and less than half of the weight lies at or below it. -/
theorem rounded_sum_decides :
    computeAssessmentConsensus splitBundles splitBlends =
        .ok [⟨subnetAsset 1 86400 "twap_price", 0, 0, 4⟩] ∧
      coalitionWeight splitBundles splitBlends (subnetAsset 1 86400 "twap_price") {"a", "b"} <
        cellWeight splitBundles splitBlends (subnetAsset 1 86400 "twap_price") / 2 ∧
      upTo (weigh splitBlends (cellEntries splitBundles (subnetAsset 1 86400 "twap_price"))) 0 <
        total (weigh splitBlends (cellEntries splitBundles (subnetAsset 1 86400 "twap_price"))) / 2 ∧
      ∀ entry ∈ cellEntries splitBundles (subnetAsset 1 86400 "twap_price"),
        entry.1 ∉ ({"a", "b"} : Finset Hotkey) → entry.2 = 10 := by
  decide +kernel

end Endure.Aggregation
