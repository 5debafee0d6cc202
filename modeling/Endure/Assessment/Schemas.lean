import Endure.Assessment.Universe
import Endure.Assessment.Wire

/-!
# The two submission schemas

`endure/assessment/schemas/subnet_alpha_risk.py` and `endure/assessment/schemas/forge_lending.py`:
the outputs, their bounds, and which outputs an asset must carry. The registry of
`endure/assessment/registry.py` serves the first and keeps the second dormant.
-/

namespace Endure.Assessment

open Library Endure.Protocol

/-! ### Alpha Risk V1 -/

/-- The four Alpha Risk V1 outputs. -/
inductive RiskOutput
  | maxDrawdown
  | realizedVolatility
  | twapPrice
  | liquidityDepth
  deriving DecidableEq

namespace RiskOutput

/-- The wire name of an output. -/
def value : RiskOutput → String
  | maxDrawdown => "max_drawdown"
  | realizedVolatility => "realized_volatility"
  | twapPrice => "twap_price"
  | liquidityDepth => "liquidity_depth"

/-- The outputs in the order of the enumeration. -/
def members : List RiskOutput := [maxDrawdown, realizedVolatility, twapPrice, liquidityDepth]

theorem value_injective : Function.Injective value := by
  intro first second same
  cases first <;> cases second <;> first | rfl | simp [value] at same

theorem mem_members (output : RiskOutput) : output ∈ members := by
  cases output <;> simp [members]

end RiskOutput

def riskSchemaId : String := "risk.v1.subnet_alpha"

def horizon5dSeconds : ℤ := 5 * 24 * 60 * 60

def horizon30dSeconds : ℤ := 30 * 24 * 60 * 60

/-- `RISK_HORIZONS`. -/
def riskHorizons : List ℤ := [horizon5dSeconds, horizon30dSeconds]

def maxRiskAssetsPerBundle : ℕ := 256

def defaultConfidenceFloorBps : ℤ := 1000

def riskValueMaxInt64 : ℤ := 2 ^ 63 - 1

/-- `RISK_SPECS_BY_OUTPUT`. -/
def riskSpecsByOutput : RiskOutput → WireParameterSpec
  | .maxDrawdown => ⟨"bps", defaultConfidenceFloorBps, 0, some 10000⟩
  | .realizedVolatility => ⟨"bps", defaultConfidenceFloorBps, 0, some 1000000⟩
  | .twapPrice => ⟨"rao_per_alpha", defaultConfidenceFloorBps, 1, some riskValueMaxInt64⟩
  | .liquidityDepth => ⟨"rao", defaultConfidenceFloorBps, 0, some riskValueMaxInt64⟩

/-- An output at a horizon. -/
def riskCell (item : OutputValue RiskOutput) : RiskOutput × ℤ := (item.output, item.horizonSeconds)

/-- Every output at every horizon. -/
def riskCells : List (RiskOutput × ℤ) := RiskOutput.members ×ˢ riskHorizons

/-- Every output at every horizon, none twice. -/
def riskOutputsValid (items : List (OutputValue RiskOutput)) : Bool :=
  decide (items.map riskCell).Nodup && riskCells.all (items.map riskCell).contains &&
    (items.map riskCell).all riskCells.contains

/-- `(item.horizon_seconds, item.output.value)`. -/
def riskOutputKey (item : OutputValue RiskOutput) : ℤ ×ₗ String :=
  toLex (item.horizonSeconds, item.output.value)

theorem riskOutputsValid_iff (items : List (OutputValue RiskOutput)) :
    riskOutputsValid items = true ↔
      (items.map riskCell).Nodup ∧ ∀ cell, cell ∈ items.map riskCell ↔ cell ∈ riskCells := by
  simp only [riskOutputsValid, Bool.and_eq_true, decide_eq_true_eq, List.all_eq_true,
    List.contains_iff_mem, and_assoc]
  refine and_congr_right fun _ => ?_
  constructor
  · rintro ⟨expected, seen⟩ cell
    exact ⟨seen cell, expected cell⟩
  · intro same
    exact ⟨fun cell => (same cell).mpr, fun cell => (same cell).mp⟩

theorem riskOutputsValid_perm {items items' : List (OutputValue RiskOutput)}
    (perm : items.Perm items') (valid : riskOutputsValid items = true) :
    riskOutputsValid items' = true := by
  rw [riskOutputsValid_iff] at valid ⊢
  have cells := perm.map riskCell
  exact ⟨cells.nodup_iff.mp valid.1, fun cell => cells.mem_iff.symm.trans (valid.2 cell)⟩

/-- Outputs that pass have distinct sort keys. -/
theorem nodup_riskOutputKey {items : List (OutputValue RiskOutput)}
    (valid : riskOutputsValid items = true) : (items.map riskOutputKey).Nodup := by
  have cells := ((riskOutputsValid_iff items).mp valid).1
  have same : items.map riskOutputKey =
      (items.map riskCell).map fun cell => toLex (cell.2, cell.1.value) := by
    rw [List.map_map]
    rfl
  rw [same]
  refine cells.map fun first second equal => ?_
  have parts := Prod.ext_iff.mp (toLex.injective equal)
  exact Prod.ext (RiskOutput.value_injective parts.2) parts.1

/-- `RiskSubmissionBundle` and the models inside it. -/
def riskSchema : SubmissionSchema RiskOutput where
  schemaId := riskSchemaId
  outputs := RiskOutput.members
  name := RiskOutput.value
  specOf := riskSpecsByOutput
  horizonAllowed horizon := riskHorizons.contains horizon
  maxAssets := maxRiskAssetsPerBundle
  outputsValid := riskOutputsValid
  assetValid _ := true
  outputKey := riskOutputKey
  name_injective := RiskOutput.value_injective
  mem_outputs := RiskOutput.mem_members
  outputsValid_perm := riskOutputsValid_perm
  assetValid_perm := fun _ _ valid => valid
  nodup_keys := nodup_riskOutputKey

/-! ### Forge lending -/

/-- The seven lending outputs. -/
inductive LendingOutput
  | safeAssetPrice
  | collateralFactor
  | liquidationThreshold
  | liquidationIncentive
  | supplyCap
  | borrowCap
  | riskTier
  deriving DecidableEq

namespace LendingOutput

/-- The wire name of an output. -/
def value : LendingOutput → String
  | safeAssetPrice => "safe_asset_price"
  | collateralFactor => "collateral_factor"
  | liquidationThreshold => "liquidation_threshold"
  | liquidationIncentive => "liquidation_incentive"
  | supplyCap => "supply_cap"
  | borrowCap => "borrow_cap"
  | riskTier => "risk_tier"

/-- The outputs in the order of the enumeration. -/
def members : List LendingOutput :=
  [safeAssetPrice, collateralFactor, liquidationThreshold, liquidationIncentive, supplyCap,
    borrowCap, riskTier]

theorem value_injective : Function.Injective value := by
  intro first second same
  cases first <;> cases second <;> first | rfl | simp [value] at same

theorem mem_members (output : LendingOutput) : output ∈ members := by
  cases output <;> simp [members]

end LendingOutput

def forgeLendingSchemaId : String := "lending.v1.subnet_asset"

def lendingHorizonSeconds : ℤ := 5 * 24 * 60 * 60

def maxLendingAssetsPerBundle : ℕ := 256

def oneE18 : ℤ := 10 ^ 18

/-- `LENDING_SPECS_BY_OUTPUT`. -/
def lendingSpecsByOutput : LendingOutput → WireParameterSpec
  | .safeAssetPrice => ⟨"price_1e18", defaultConfidenceFloorBps, 1, some (10 ^ 30)⟩
  | .collateralFactor => ⟨"ltv_bps", defaultConfidenceFloorBps, 1, some 10000⟩
  | .liquidationThreshold => ⟨"ltv_bps", defaultConfidenceFloorBps, 1, some 10000⟩
  | .liquidationIncentive => ⟨"mantissa_1e18", defaultConfidenceFloorBps, oneE18, some (2 * oneE18)⟩
  | .supplyCap => ⟨"underlying_units", defaultConfidenceFloorBps, 0, some (10 ^ 30)⟩
  | .borrowCap => ⟨"tao_units", defaultConfidenceFloorBps, 0, some (10 ^ 30)⟩
  | .riskTier => ⟨"ordinal", defaultConfidenceFloorBps, 1, some 6⟩

/-- Every output once. -/
def lendingOutputsValid (items : List (OutputValue LendingOutput)) : Bool :=
  decide (items.map OutputValue.output).Nodup &&
    LendingOutput.members.all (items.map OutputValue.output).contains

/-- The value of an output, the last one given counting. -/
def lendingValue (items : List (OutputValue LendingOutput)) (output : LendingOutput) : Option ℤ :=
  (items.reverse.find? fun item => item.output = output).map OutputValue.value

/-- The collateral factor is at most the liquidation threshold. -/
def lendingAssetValid (items : List (OutputValue LendingOutput)) : Bool :=
  match lendingValue items .collateralFactor, lendingValue items .liquidationThreshold with
  | some factor, some threshold => factor ≤ threshold
  | _, _ => false

/-- `(0, item.output.value)`. -/
def lendingOutputKey (item : OutputValue LendingOutput) : ℤ ×ₗ String :=
  toLex (0, item.output.value)

theorem lendingOutputsValid_iff (items : List (OutputValue LendingOutput)) :
    lendingOutputsValid items = true ↔
      (items.map OutputValue.output).Nodup ∧ ∀ output, output ∈ items.map OutputValue.output := by
  simp only [lendingOutputsValid, Bool.and_eq_true, decide_eq_true_eq, List.all_eq_true,
    List.contains_iff_mem]
  refine and_congr_right fun _ => ?_
  exact ⟨fun each output => each output (LendingOutput.mem_members output),
    fun each output _ => each output⟩

theorem lendingOutputsValid_perm {items items' : List (OutputValue LendingOutput)}
    (perm : items.Perm items') (valid : lendingOutputsValid items = true) :
    lendingOutputsValid items' = true := by
  rw [lendingOutputsValid_iff] at valid ⊢
  have outputs := perm.map OutputValue.output
  exact ⟨outputs.nodup_iff.mp valid.1, fun output => outputs.mem_iff.mp (valid.2 output)⟩

/-- An output given once has the value given with it. -/
theorem lendingValue_eq_some_iff {items : List (OutputValue LendingOutput)}
    (nodup : (items.map OutputValue.output).Nodup) (output : LendingOutput) (value : ℤ) :
    lendingValue items output = some value ↔
      ∃ item ∈ items, item.output = output ∧ item.value = value := by
  rw [lendingValue, Option.map_eq_some_iff]
  constructor
  · rintro ⟨item, found, rfl⟩
    exact ⟨item, List.mem_reverse.mp (List.mem_of_find?_eq_some found),
      by simpa using List.find?_some found, rfl⟩
  · rintro ⟨item, member, rfl, rfl⟩
    cases found : items.reverse.find? fun other => other.output = item.output with
    | none =>
      have missing := List.find?_eq_none.mp found item (List.mem_reverse.mpr member)
      simp at missing
    | some other =>
      have listed := List.mem_reverse.mp (List.mem_of_find?_eq_some found)
      have same : other.output = item.output := by simpa using List.find?_some found
      exact ⟨other, rfl, congrArg _ (List.inj_on_of_nodup_map nodup listed member same)⟩

theorem lendingValue_perm {items items' : List (OutputValue LendingOutput)}
    (perm : items.Perm items') (nodup : (items.map OutputValue.output).Nodup)
    (output : LendingOutput) : lendingValue items output = lendingValue items' output := by
  have nodup' := (perm.map OutputValue.output).nodup_iff.mp nodup
  ext value
  rw [lendingValue_eq_some_iff nodup, lendingValue_eq_some_iff nodup']
  simp only [perm.mem_iff]

theorem lendingAssetValid_perm {items items' : List (OutputValue LendingOutput)}
    (perm : items.Perm items') (listed : lendingOutputsValid items = true)
    (valid : lendingAssetValid items = true) : lendingAssetValid items' = true := by
  have nodup := ((lendingOutputsValid_iff items).mp listed).1
  rw [lendingAssetValid, lendingValue_perm perm nodup, lendingValue_perm perm nodup] at valid
  exact valid

theorem nodup_lendingOutputKey {items : List (OutputValue LendingOutput)}
    (valid : lendingOutputsValid items = true) : (items.map lendingOutputKey).Nodup := by
  have outputs := ((lendingOutputsValid_iff items).mp valid).1
  have same : items.map lendingOutputKey =
      (items.map OutputValue.output).map fun output => toLex ((0 : ℤ), output.value) := by
    rw [List.map_map]
    rfl
  rw [same]
  refine outputs.map fun first second equal => ?_
  exact LendingOutput.value_injective (Prod.ext_iff.mp (toLex.injective equal)).2

/-- `LendingSubmissionBundle` and the models inside it. -/
def lendingSchema : SubmissionSchema LendingOutput where
  schemaId := forgeLendingSchemaId
  outputs := LendingOutput.members
  name := LendingOutput.value
  specOf := lendingSpecsByOutput
  horizonAllowed horizon := horizon = lendingHorizonSeconds
  maxAssets := maxLendingAssetsPerBundle
  outputsValid := lendingOutputsValid
  assetValid := lendingAssetValid
  outputKey := lendingOutputKey
  name_injective := LendingOutput.value_injective
  mem_outputs := LendingOutput.mem_members
  outputsValid_perm := lendingOutputsValid_perm
  assetValid_perm := lendingAssetValid_perm
  nodup_keys := nodup_lendingOutputKey

end Endure.Assessment
