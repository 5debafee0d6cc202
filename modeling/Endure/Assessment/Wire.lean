import Endure.Library.Collected
import Endure.Library.Json
import Endure.Protocol.Validation

/-!
# Submissions on the wire

`endure/assessment/schemas/wire.py` and what the submission models of the two schemas share: the
record of an output, of an asset and of a bundle, their validators, and the canonical payload. A
schema gives the outputs, their bounds and the rules on which outputs an asset carries. A failed
validation is the list of the types of its errors.
-/

namespace Endure.Assessment

open Library Library.Collected Endure.Protocol

/-- The type of an error that a validator raises as a `ValueError`. -/
def valueError : String := "value_error"

/-! ### Fields of a model -/

/-- A required field of a record. -/
def field {α : Type} (entries : List (String × Json)) (name : String)
    (check : Json → Except (List String) α) : Except (List String) α :=
  match entries.lookup name with
  | none => .error ["missing"]
  | some value => check value

/-- `extra="forbid"`. -/
def forbidExtra (entries : List (String × Json)) (names : List String) :
    Except (List String) Unit :=
  match entries.filter fun entry => entry.1 ∉ names with
  | [] => .ok ()
  | extra => .error (extra.map fun _ => "extra_forbidden")

/-- `StrictInt`: no boolean, no float and no text. -/
def strictInt : Json → Except (List String) ℤ
  | .int value => .ok value
  | _ => .error ["int_type"]

/-- `str`. -/
def text : Json → Except (List String) String
  | .str value => .ok value
  | _ => .error ["string_type"]

/-- `tuple[..., ...]`. -/
def tupleOf {α : Type} (check : Json → Except (List String) α) :
    Json → Except (List String) (List α)
  -- an array is decoded to a list, which a tuple field takes
  | .list items => each check items
  | _ => .error ["tuple_type"]

/-- A `Literal` of one text. -/
def literal (expected : String) : Json → Except (List String) String
  | .str value => if value = expected then .ok value else .error ["literal_error"]
  | _ => .error ["literal_error"]

/-- A `StrEnum` of some members. -/
def memberOf {α : Type} (members : List α) (value : α → String) : Json → Except (List String) α
  | .str name =>
    match members.find? fun member => value member = name with
    | some member => .ok member
    | none => .error ["enum"]
  | _ => .error ["enum"]

/-! ### Validators -/

/-- Bounds of an output's wire value. -/
structure WireParameterSpec where
  unit : String
  confidenceFloorBps : ℤ
  minValue : ℤ
  maxValue : Option ℤ

structure ReasonCodePolicy where
  maxCodes : ℕ
  maxLength : ℕ
  pattern : List Char → Bool

/-- `^[a-z][a-z0-9_]*$`, matched against a whole text. -/
def reasonCodePattern : List Char → Bool
  | [] => false
  | c :: rest => c.isLower && rest.all fun c => c.isLower || c.isDigit || c = '_'

def reasonCodePolicy : ReasonCodePolicy := ⟨8, 64, reasonCodePattern⟩

def maxConfidenceBps : ℤ := 10000

def validateConfidenceBps (value upper : ℤ) : Except (List String) ℤ :=
  if 0 ≤ value ∧ value ≤ upper then .ok value else .error [outOfBoundsError]

/-- The codes of an output, sorted once they are checked. -/
def validateReasonCodes (value : List String) (policy : ReasonCodePolicy) :
    Except (List String) (List String) :=
  if policy.maxCodes < value.length then .error [valueError]
  else if ¬value.Nodup then .error [valueError]
  else if ¬value.all fun code => code.length ≤ policy.maxLength && policy.pattern code.toList then
    .error [valueError]
  else .ok (sortBy id value)

/-- One submitted output value and its envelope. -/
structure OutputValue (Output : Type) where
  output : Output
  value : ℤ
  confidenceBps : ℤ
  reasonCodes : List String
  horizonSeconds : ℤ
  unit : String

/-- The outputs submitted for one subnet. -/
structure AssetSubmission (Output : Type) where
  netuid : ℤ
  outputs : List (OutputValue Output)

/-- One miner's submission for a round. -/
structure SubmissionBundle (Output : Type) where
  roundId : String
  schemaId : String
  assets : List (AssetSubmission Output)

variable {Output : Type}

def validateOutputValueAgainstSpec (submitted : OutputValue Output) (spec : WireParameterSpec) :
    Except (List String) Unit :=
  if submitted.unit ≠ spec.unit then .error [valueError]
  else if submitted.confidenceBps < spec.confidenceFloorBps then .error [outOfBoundsError]
  else if submitted.value < spec.minValue then .error [outOfBoundsError]
  else if spec.maxValue.any fun maximum => maximum < submitted.value then .error [outOfBoundsError]
  else .ok ()

/-! ### Schemas -/

/-- What the submission models of two schemas differ in. The two rules on the outputs of an asset
do not depend on their order, and outputs that pass have distinct sort keys. -/
structure SubmissionSchema (Output : Type) where
  schemaId : String
  outputs : List Output
  name : Output → String
  specOf : Output → WireParameterSpec
  horizonAllowed : ℤ → Bool
  maxAssets : ℕ
  /-- The field validator of an asset's outputs. -/
  outputsValid : List (OutputValue Output) → Bool
  /-- The validator of an asset whose fields passed. -/
  assetValid : List (OutputValue Output) → Bool
  outputKey : OutputValue Output → ℤ ×ₗ String
  name_injective : Function.Injective name
  mem_outputs : ∀ output, output ∈ outputs
  outputsValid_perm : ∀ {items items' : List (OutputValue Output)}, items.Perm items' →
    outputsValid items = true → outputsValid items' = true
  assetValid_perm : ∀ {items items' : List (OutputValue Output)}, items.Perm items' →
    outputsValid items = true → assetValid items = true → assetValid items' = true
  nodup_keys : ∀ {items : List (OutputValue Output)}, outputsValid items = true →
    (items.map outputKey).Nodup

namespace SubmissionSchema

variable (schema : SubmissionSchema Output)

/-- `confidence_bps` with its field validator. -/
def validateConfidence (raw : Json) : Except (List String) ℤ := do
  validateConfidenceBps (← strictInt raw) maxConfidenceBps

/-- `horizon_seconds` with its field validator. -/
def validateHorizon (raw : Json) : Except (List String) ℤ := do
  let value ← strictInt raw
  if schema.horizonAllowed value then return value else throw [valueError]

/-- `reason_codes` with its field validator. -/
def validateCodes (raw : Json) : Except (List String) (List String) := do
  validateReasonCodes (← tupleOf text raw) reasonCodePolicy

/-- The validation of an output value. -/
def validateOutput : Json → Except (List String) (OutputValue Output)
  | .dict entries => do
    -- the errors of all fields are reported together
    let (output, value, confidenceBps, reasonCodes, horizonSeconds, unit, ()) ←
      both (field entries "output" (memberOf schema.outputs schema.name)) <|
      both (field entries "value" strictInt) <|
      both (field entries "confidence_bps" validateConfidence) <|
      both (field entries "reason_codes" validateCodes) <|
      both (field entries "horizon_seconds" schema.validateHorizon) <|
      both (field entries "unit" text) <|
      forbidExtra entries
        ["output", "value", "confidence_bps", "reason_codes", "horizon_seconds", "unit"]
    let item : OutputValue Output :=
      ⟨output, value, confidenceBps, reasonCodes, horizonSeconds, unit⟩
    -- the bounds are checked once every field has passed
    validateOutputValueAgainstSpec item (schema.specOf output)
    return item
  | _ => .error ["model_type"]

/-- `netuid` with its field validator. -/
def validateNetuid (raw : Json) : Except (List String) ℤ := do
  let value ← strictInt raw
  if value < 0 then throw [valueError] else return value

/-- `outputs` with its field validator. -/
def validateOutputs (raw : Json) : Except (List String) (List (OutputValue Output)) := do
  let value ← tupleOf schema.validateOutput raw
  if schema.outputsValid value then return value else throw [valueError]

/-- The validation of an asset. -/
def validateAsset : Json → Except (List String) (AssetSubmission Output)
  | .dict entries => do
    let (netuid, outputs, ()) ←
      both (field entries "netuid" validateNetuid) <|
      both (field entries "outputs" schema.validateOutputs) <|
      forbidExtra entries ["netuid", "outputs"]
    if schema.assetValid outputs then return ⟨netuid, outputs⟩ else throw [valueError]
  | _ => .error ["model_type"]

/-- The rules on the assets of a bundle: some, not too many, and no subnet twice. -/
def assetsValid (assets : List (AssetSubmission Output)) : Bool :=
  assets.length ≠ 0 && assets.length ≤ schema.maxAssets &&
    decide (assets.map AssetSubmission.netuid).Nodup

/-- `round_id` with its field validator. -/
def validateRoundId (raw : Json) : Except (List String) String := do
  let value ← text raw
  if isCanonicalRoundId value then return value else throw [valueError]

/-- `assets` with its field validator. -/
def validateAssets (raw : Json) : Except (List String) (List (AssetSubmission Output)) := do
  let value ← tupleOf schema.validateAsset raw
  if schema.assetsValid value then return value else throw [valueError]

/-- The validation of a bundle. -/
def validateBundle : Json → Except (List String) (SubmissionBundle Output)
  | .dict entries => do
    let (roundId, schemaId, assets, ()) ←
      both (field entries "round_id" validateRoundId) <|
      both (field entries "schema_id" (literal schema.schemaId)) <|
      both (field entries "assets" schema.validateAssets) <|
      forbidExtra entries ["round_id", "schema_id", "assets"]
    return ⟨roundId, schemaId, assets⟩
  | _ => .error ["model_type"]

/-! ### The canonical payload -/

/-- `model_dump` of an output value. -/
def outputPayload (item : OutputValue Output) : Json :=
  .dict [("output", .str (schema.name item.output)), ("value", .int item.value),
    ("confidence_bps", .int item.confidenceBps),
    ("reason_codes", .list (item.reasonCodes.map Json.str)),
    ("horizon_seconds", .int item.horizonSeconds), ("unit", .str item.unit)]

def assetPayload (asset : AssetSubmission Output) : Json :=
  .dict [("netuid", .int asset.netuid),
    ("outputs", .list ((sortBy schema.outputKey asset.outputs).map schema.outputPayload))]

/-- Assets by netuid, the outputs of each in the schema's order. -/
def canonicalAssetsPayload (assets : List (AssetSubmission Output)) : List Json :=
  (sortBy AssetSubmission.netuid assets).map schema.assetPayload

def toCanonicalPayload (bundle : SubmissionBundle Output) : Json :=
  .dict [("round_id", .str bundle.roundId), ("schema_id", .str bundle.schemaId),
    ("assets", .list (schema.canonicalAssetsPayload bundle.assets))]

/-- The surface of a bundle that validation works on. -/
def canonicalBundle (bundle : SubmissionBundle Output) : CanonicalBundle Json where
  roundId := bundle.roundId
  schemaId := bundle.schemaId
  toCanonicalPayload := schema.toCanonicalPayload bundle

/-- `bundle_model.model_validate`. -/
def modelValidate (loaded : Json) : Except (List String) (Option (CanonicalBundle Json)) :=
  (schema.validateBundle loaded).map fun bundle => some (schema.canonicalBundle bundle)

end SubmissionSchema

end Endure.Assessment
