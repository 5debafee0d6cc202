import Endure.Assessment.Wire
import Endure.Library.Checked

/-!
# Submissions and their canonical payloads

What the validators of a schema let through, and that the canonical payload of a valid submission,
with its keys sorted as its text has them, validates as the submission in canonical order.
-/

namespace Endure.Assessment

open Library Library.Collected Library.Checked Endure.Protocol

/-! ### Fields -/

/-- A field of a record without double keys, wherever it stands. -/
theorem field_of_mem {α : Type} {entries : List (String × Json)} {name : String} {value : Json}
    {check : Json → Except (List String) α} (nodup : (entries.map Prod.fst).Nodup)
    (member : (name, value) ∈ entries) : field entries name check = check value := by
  have found : entries.lookup name = some value := by
    induction entries with
    | nil => cases member
    | cons entry rest ih =>
      rw [List.map_cons, List.nodup_cons] at nodup
      rcases List.mem_cons.mp member with rfl | later
      · exact List.lookup_cons_self
      · have other : (name == entry.1) = false := by
          rw [beq_eq_false_iff_ne]
          rintro rfl
          exact nodup.1 (List.mem_map.mpr ⟨_, later, rfl⟩)
        rw [List.lookup_cons, other]
        exact ih nodup.2 later
  rw [field, found]

theorem forbidExtra_eq_ok {entries : List (String × Json)} {names : List String}
    (known : ∀ entry ∈ entries, entry.1 ∈ names) : forbidExtra entries names = .ok () := by
  have none : entries.filter (fun entry => entry.1 ∉ names) = [] := by
    rw [List.filter_eq_nil_iff]
    intro entry member
    simp [known entry member]
  rw [forbidExtra, none]

/-- A member is read from its name. -/
theorem memberOf_str {α : Type} {members : List α} {value : α → String} {member : α}
    (injective : Function.Injective value) (listed : member ∈ members) :
    memberOf members value (.str (value member)) = .ok member := by
  rw [memberOf]
  cases found : members.find? fun other => value other = value member with
  | none =>
    have missing := List.find?_eq_none.mp found member listed
    simp at missing
  | some other =>
    have same : value other = value member := by simpa using List.find?_some found
    rw [injective same]

theorem tupleOf_text (items : List String) : tupleOf text (.list (items.map Json.str)) = .ok items :=
  each_map fun _ _ => rfl

/-- Checked codes are the codes in order. -/
theorem validateReasonCodes_sorted {value sorted : List String} {policy : ReasonCodePolicy}
    (checked : validateReasonCodes value policy = .ok sorted) :
    validateReasonCodes sorted policy = .ok sorted := by
  unfold validateReasonCodes at checked
  split_ifs at checked with many double invalid
  cases checked
  have nodup : (sortBy id value).Nodup := (perm_sortBy id value).nodup_iff.mpr double
  unfold validateReasonCodes
  rw [length_sortBy, if_neg many, if_neg (not_not.mpr nodup), if_neg, sortBy_sortBy]
  rw [not_not]
  rw [List.all_eq_true] at invalid ⊢
  intro code member
  exact invalid code (mem_sortBy.mp member)

/-! ### Valid submissions -/

namespace SubmissionSchema

variable {Output : Type} (schema : SubmissionSchema Output)

/-- What the validators leave of an output value. -/
structure OutputValid (item : OutputValue Output) : Prop where
  confidence : 0 ≤ item.confidenceBps ∧ item.confidenceBps ≤ maxConfidenceBps
  reasonCodes : validateReasonCodes item.reasonCodes reasonCodePolicy = .ok item.reasonCodes
  horizon : schema.horizonAllowed item.horizonSeconds = true
  bounds : validateOutputValueAgainstSpec item (schema.specOf item.output) = .ok ()

structure AssetValid (asset : AssetSubmission Output) : Prop where
  netuid : 0 ≤ asset.netuid
  each : ∀ item ∈ asset.outputs, schema.OutputValid item
  outputs : schema.outputsValid asset.outputs = true
  asset : schema.assetValid asset.outputs = true

structure BundleValid (bundle : SubmissionBundle Output) : Prop where
  roundId : isCanonicalRoundId bundle.roundId = true
  schemaId : bundle.schemaId = schema.schemaId
  each : ∀ asset ∈ bundle.assets, schema.AssetValid asset
  assets : schema.assetsValid bundle.assets = true

variable {schema}

theorem field_eq_ok {α : Type} {entries : List (String × Json)} {name : String}
    {check : Json → Except (List String) α} {value : α}
    (read : field entries name check = .ok value) :
    ∃ raw, entries.lookup name = some raw ∧ check raw = .ok value := by
  rw [field] at read
  cases found : entries.lookup name with
  | none =>
    rw [found] at read
    cases read
  | some raw =>
    rw [found] at read
    exact ⟨raw, rfl, read⟩

theorem outputValid_of_validateOutput {json : Json} {item : OutputValue Output}
    (read : schema.validateOutput json = .ok item) : schema.OutputValid item := by
  cases json with
  | dict entries =>
    rw [validateOutput, bind_eq_ok] at read
    obtain ⟨⟨output, value, confidenceBps, reasonCodes, horizonSeconds, unit, ⟨⟩⟩, fields, read⟩ :=
      read
    obtain ⟨-, fields⟩ := both_eq_ok.mp fields
    obtain ⟨-, fields⟩ := both_eq_ok.mp fields
    obtain ⟨confidence, fields⟩ := both_eq_ok.mp fields
    obtain ⟨codes, fields⟩ := both_eq_ok.mp fields
    obtain ⟨horizon, -⟩ := both_eq_ok.mp fields
    -- three fields have validators of their own
    obtain ⟨_, -, confidence⟩ := field_eq_ok confidence
    obtain ⟨given, -, confidence⟩ := bind_eq_ok.mp confidence
    obtain ⟨_, -, codes⟩ := field_eq_ok codes
    obtain ⟨_, -, codes⟩ := bind_eq_ok.mp codes
    obtain ⟨_, -, horizon⟩ := field_eq_ok horizon
    obtain ⟨_, -, horizon⟩ := bind_eq_ok.mp horizon
    obtain ⟨⟨⟩, bounds, done⟩ := bind_eq_ok.mp read
    cases done
    refine ⟨?_, validateReasonCodes_sorted codes, ?_, bounds⟩
    · rw [validateConfidenceBps] at confidence
      split_ifs at confidence with inside
      cases confidence
      exact inside
    · split_ifs at horizon with allowed
      cases horizon
      exact allowed
  | _ => cases read

theorem assetValid_of_validateAsset {json : Json} {asset : AssetSubmission Output}
    (read : schema.validateAsset json = .ok asset) : schema.AssetValid asset := by
  cases json with
  | dict entries =>
    rw [validateAsset, bind_eq_ok] at read
    obtain ⟨⟨netuid, outputs, ⟨⟩⟩, fields, read⟩ := read
    obtain ⟨netuid, fields⟩ := both_eq_ok.mp fields
    obtain ⟨outputs, -⟩ := both_eq_ok.mp fields
    obtain ⟨_, -, netuid⟩ := field_eq_ok netuid
    obtain ⟨_, -, netuid⟩ := bind_eq_ok.mp netuid
    obtain ⟨raw, -, outputs⟩ := field_eq_ok outputs
    obtain ⟨items, items_eq, outputs⟩ := bind_eq_ok.mp outputs
    split_ifs at netuid with negative
    split_ifs at outputs with listed
    dsimp only at read
    split_ifs at read with valid
    cases netuid
    cases outputs
    cases read
    refine ⟨not_lt.mp negative, ?_, listed, valid⟩
    intro item member
    cases raw with
    | list raws =>
      obtain ⟨raw, -, read⟩ := exists_of_each_eq_ok items_eq member
      exact outputValid_of_validateOutput read
    | _ => cases items_eq
  | _ => cases read

theorem bundleValid_of_validateBundle {json : Json} {bundle : SubmissionBundle Output}
    (read : schema.validateBundle json = .ok bundle) : schema.BundleValid bundle := by
  cases json with
  | dict entries =>
    rw [validateBundle, bind_eq_ok] at read
    -- each field was there and passed its own check
    obtain ⟨⟨roundId, schemaId, assets, ⟨⟩⟩, fields, read⟩ := read
    obtain ⟨roundId, fields⟩ := both_eq_ok.mp fields
    obtain ⟨schemaId, fields⟩ := both_eq_ok.mp fields
    obtain ⟨assets, -⟩ := both_eq_ok.mp fields
    obtain ⟨_, -, roundId⟩ := field_eq_ok roundId
    obtain ⟨_, -, roundId⟩ := bind_eq_ok.mp roundId
    obtain ⟨named, -, schemaId⟩ := field_eq_ok schemaId
    obtain ⟨raw, -, assets⟩ := field_eq_ok assets
    obtain ⟨items, items_eq, assets⟩ := bind_eq_ok.mp assets
    cases read
    split_ifs at roundId with canonical
    split_ifs at assets with listed
    cases roundId
    cases assets
    refine ⟨canonical, ?_, ?_, listed⟩
    · cases named with
      | str name =>
        rw [literal] at schemaId
        split_ifs at schemaId with same
        cases schemaId
        exact same
      | _ => cases schemaId
    · intro asset member
      cases raw with
      | list raws =>
        obtain ⟨raw, -, read⟩ := exists_of_each_eq_ok items_eq member
        exact assetValid_of_validateAsset read
      | _ => cases items_eq
  | _ => cases read

/-! ### Reading a payload back -/

variable (schema)

/-- The asset with its outputs in the schema's order. -/
def canonicalAsset (asset : AssetSubmission Output) : AssetSubmission Output where
  netuid := asset.netuid
  outputs := sortBy schema.outputKey asset.outputs

/-- The bundle with its assets by netuid and their outputs in the schema's order. -/
def canonical (bundle : SubmissionBundle Output) : SubmissionBundle Output where
  roundId := bundle.roundId
  schemaId := bundle.schemaId
  assets := (sortBy AssetSubmission.netuid bundle.assets).map schema.canonicalAsset

variable {schema}

theorem netuids_canonical (bundle : SubmissionBundle Output) :
    (schema.canonical bundle).assets.map AssetSubmission.netuid =
      (sortBy AssetSubmission.netuid bundle.assets).map AssetSubmission.netuid := by
  rw [canonical, List.map_map]
  rfl

/-- The rules on assets ask for their number and their netuids. -/
theorem assetsValid_iff (assets : List (AssetSubmission Output)) :
    schema.assetsValid assets = true ↔
      assets.length ≠ 0 ∧ assets.length ≤ schema.maxAssets ∧
        (assets.map AssetSubmission.netuid).Nodup := by
  simp [assetsValid, and_assoc]

theorem assetValid_canonicalAsset {asset : AssetSubmission Output}
    (valid : schema.AssetValid asset) : schema.AssetValid (schema.canonicalAsset asset) where
  netuid := valid.netuid
  each := fun item member => valid.each item (mem_sortBy.mp member)
  outputs := schema.outputsValid_perm (perm_sortBy _ _).symm valid.outputs
  asset := schema.assetValid_perm (perm_sortBy _ _).symm valid.outputs valid.asset

theorem nodup_netuids {bundle : SubmissionBundle Output} (valid : schema.BundleValid bundle) :
    (bundle.assets.map AssetSubmission.netuid).Nodup :=
  ((assetsValid_iff _).mp valid.assets).2.2

/-- A valid bundle is valid in canonical order. -/
theorem bundleValid_canonical {bundle : SubmissionBundle Output}
    (valid : schema.BundleValid bundle) : schema.BundleValid (schema.canonical bundle) := by
  have rules := (assetsValid_iff _).mp valid.assets
  have length : (schema.canonical bundle).assets.length = bundle.assets.length := by
    rw [canonical, List.length_map, length_sortBy]
  refine ⟨valid.roundId, valid.schemaId, ?_, (assetsValid_iff _).mpr ⟨?_, ?_, ?_⟩⟩
  · intro asset member
    obtain ⟨source, listed, rfl⟩ := List.mem_map.mp member
    exact assetValid_canonicalAsset (valid.each source (mem_sortBy.mp listed))
  · exact length.symm ▸ rules.1
  · exact length.symm ▸ rules.2.1
  · rw [netuids_canonical]
    exact nodup_map_sortBy rules.2.2

/-- The assets in canonical order are in order. -/
theorem sortBy_assets_canonical (bundle : SubmissionBundle Output) :
    sortBy AssetSubmission.netuid (schema.canonical bundle).assets =
      (sortBy AssetSubmission.netuid bundle.assets).map schema.canonicalAsset := by
  have moved : (sortBy AssetSubmission.netuid (sortBy AssetSubmission.netuid bundle.assets)).map
      schema.canonicalAsset = sortBy AssetSubmission.netuid (schema.canonical bundle).assets :=
    map_sortBy _ AssetSubmission.netuid (fun _ => rfl) _
  rw [← moved, sortBy_sortBy]

/-- The payload of a bundle is that of the bundle in canonical order. -/
theorem toCanonicalPayload_canonical (bundle : SubmissionBundle Output) :
    schema.toCanonicalPayload (schema.canonical bundle) = schema.toCanonicalPayload bundle := by
  have same : schema.assetPayload ∘ schema.canonicalAsset = schema.assetPayload := by
    funext asset
    simp [assetPayload, canonicalAsset]
  rw [toCanonicalPayload, canonicalAssetsPayload, sortBy_assets_canonical, List.map_map, same]
  rfl

section Records

variable {entries : List (String × Json)}

/-- A record with sorted keys shows every field it was given. -/
theorem field_sortBy {α : Type} (nodup : (entries.map Prod.fst).Nodup) (name : String)
    (value : Json) {result : α} (member : (name, value) ∈ entries)
    {check : Json → Except (List String) α} (checked : check value = .ok result) :
    field (sortBy Prod.fst entries) name check = .ok result :=
  (field_of_mem (nodup_map_sortBy nodup) (mem_sortBy.mpr member)).trans checked

theorem forbidExtra_sortBy :
    forbidExtra (sortBy Prod.fst entries) (entries.map Prod.fst) = .ok () :=
  forbidExtra_eq_ok fun _ member => List.mem_map_of_mem (mem_sortBy.mp member)

end Records

theorem sortedItems_str (items : List String) :
    Json.sortedItems (items.map Json.str) = items.map Json.str := by
  rw [Json.sortedItems_eq_map, List.map_map]
  exact List.map_congr_left fun code _ => by simp [Json.sorted]

/-- An output value is read back from its payload. -/
theorem validateOutput_outputPayload {item : OutputValue Output} (valid : schema.OutputValid item) :
    schema.validateOutput (schema.outputPayload item).sorted = .ok item := by
  let entries : List (String × Json) :=
    [("output", .str (schema.name item.output)), ("value", .int item.value),
      ("confidence_bps", .int item.confidenceBps),
      ("reason_codes", .list (item.reasonCodes.map Json.str)),
      ("horizon_seconds", .int item.horizonSeconds), ("unit", .str item.unit)]
  -- sorting moves the entries, and each field is still found under its name
  have shown : (schema.outputPayload item).sorted = .dict (sortBy Prod.fst entries) := by
    simp [outputPayload, Json.sorted, Json.sortedEntries, sortedItems_str, entries]
  have nodup : (entries.map Prod.fst).Nodup := by simp [entries]
  have output : field (sortBy Prod.fst entries) "output" (memberOf schema.outputs schema.name) =
      .ok item.output :=
    field_sortBy nodup _ (.str (schema.name item.output)) (by simp [entries])
      (memberOf_str schema.name_injective (schema.mem_outputs item.output))
  have value : field (sortBy Prod.fst entries) "value" strictInt = .ok item.value :=
    field_sortBy nodup _ (.int item.value) (by simp [entries]) rfl
  have confidence : field (sortBy Prod.fst entries) "confidence_bps" validateConfidence =
      .ok item.confidenceBps :=
    field_sortBy nodup _ (.int item.confidenceBps) (by simp [entries]) (if_pos valid.confidence)
  have codes : field (sortBy Prod.fst entries) "reason_codes" validateCodes =
      .ok item.reasonCodes := by
    refine field_sortBy nodup _ (.list (item.reasonCodes.map Json.str)) (by simp [entries]) ?_
    rw [validateCodes, tupleOf_text]
    exact valid.reasonCodes
  have horizon : field (sortBy Prod.fst entries) "horizon_seconds" schema.validateHorizon =
      .ok item.horizonSeconds :=
    field_sortBy nodup _ (.int item.horizonSeconds) (by simp [entries]) (if_pos valid.horizon)
  have unit : field (sortBy Prod.fst entries) "unit" text = .ok item.unit :=
    field_sortBy nodup _ (.str item.unit) (by simp [entries]) rfl
  have extra : forbidExtra (sortBy Prod.fst entries)
      ["output", "value", "confidence_bps", "reason_codes", "horizon_seconds", "unit"] = .ok () :=
    forbidExtra_sortBy
  rw [shown, validateOutput, output, value, confidence, codes, horizon, unit, extra]
  simp only [both_ok, bind, Except.bind, valid.bounds]
  rfl

/-- An asset is read back from its payload, its outputs in order. -/
theorem validateAsset_assetPayload {asset : AssetSubmission Output}
    (valid : schema.AssetValid asset) :
    schema.validateAsset (schema.assetPayload asset).sorted = .ok (schema.canonicalAsset asset) := by
  have valid' := assetValid_canonicalAsset valid
  let outputs := sortBy schema.outputKey asset.outputs
  let entries : List (String × Json) :=
    [("netuid", .int asset.netuid),
      ("outputs", .list (outputs.map fun item => (schema.outputPayload item).sorted))]
  have shown : (schema.assetPayload asset).sorted = .dict (sortBy Prod.fst entries) := by
    simp [assetPayload, Json.sorted, Json.sortedEntries, Json.sortedItems_eq_map, entries, outputs]
    rfl
  have nodup : (entries.map Prod.fst).Nodup := by simp [entries]
  have netuid : field (sortBy Prod.fst entries) "netuid" validateNetuid = .ok asset.netuid :=
    field_sortBy nodup _ (.int asset.netuid) (by simp [entries]) (if_neg (not_lt.mpr valid.netuid))
  have read : field (sortBy Prod.fst entries) "outputs" schema.validateOutputs = .ok outputs := by
    refine field_sortBy nodup _ (.list (outputs.map fun item => (schema.outputPayload item).sorted))
      (by simp [entries]) ?_
    have items : each schema.validateOutput
        (outputs.map fun item => (schema.outputPayload item).sorted) = .ok outputs :=
      each_map fun item member => validateOutput_outputPayload (valid'.each item member)
    rw [validateOutputs, tupleOf, items]
    exact if_pos valid'.outputs
  have extra : forbidExtra (sortBy Prod.fst entries) ["netuid", "outputs"] = .ok () :=
    forbidExtra_sortBy
  rw [shown, validateAsset, netuid, read, extra]
  exact if_pos valid'.asset

/-- A bundle is read back from its payload in canonical order. -/
theorem validateBundle_toCanonicalPayload {bundle : SubmissionBundle Output}
    (valid : schema.BundleValid bundle) :
    schema.validateBundle (schema.toCanonicalPayload bundle).sorted =
      .ok (schema.canonical bundle) := by
  have valid' := bundleValid_canonical valid
  let assets := sortBy AssetSubmission.netuid bundle.assets
  let entries : List (String × Json) :=
    [("round_id", .str bundle.roundId), ("schema_id", .str bundle.schemaId),
      ("assets", .list (assets.map fun asset => (schema.assetPayload asset).sorted))]
  have shown : (schema.toCanonicalPayload bundle).sorted = .dict (sortBy Prod.fst entries) := by
    simp [toCanonicalPayload, canonicalAssetsPayload, Json.sorted, Json.sortedEntries,
      Json.sortedItems_eq_map, entries, assets]
    rfl
  have nodup : (entries.map Prod.fst).Nodup := by simp [entries]
  have roundId : field (sortBy Prod.fst entries) "round_id" validateRoundId = .ok bundle.roundId :=
    field_sortBy nodup _ (.str bundle.roundId) (by simp [entries]) (if_pos valid.roundId)
  have schemaId : field (sortBy Prod.fst entries) "schema_id" (literal schema.schemaId) =
      .ok bundle.schemaId :=
    field_sortBy nodup _ (.str bundle.schemaId) (by simp [entries]) (if_pos valid.schemaId)
  have read : field (sortBy Prod.fst entries) "assets" schema.validateAssets =
      .ok (schema.canonical bundle).assets := by
    refine field_sortBy nodup _ (.list (assets.map fun asset => (schema.assetPayload asset).sorted))
      (by simp [entries]) ?_
    have related : each schema.validateAsset
        (assets.map fun asset => (schema.assetPayload asset).sorted) =
          .ok (assets.map schema.canonicalAsset) := by
      -- asset by asset, in the order of the canonical bundle
      rw [each_eq_ok, List.forall₂_map_left_iff, List.forall₂_map_right_iff, List.forall₂_same]
      exact fun asset member => validateAsset_assetPayload (valid.each asset (mem_sortBy.mp member))
    rw [validateAssets, tupleOf, related]
    exact if_pos valid'.assets
  have extra : forbidExtra (sortBy Prod.fst entries) ["round_id", "schema_id", "assets"] = .ok () :=
    forbidExtra_sortBy
  rw [shown, validateBundle, roundId, schemaId, read, extra]
  rfl

end SubmissionSchema

end Endure.Assessment
