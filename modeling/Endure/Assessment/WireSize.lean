import Endure.Assessment.Schemas
import Endure.Assessment.WireRoundTrip
import Endure.Library.JsonSize

/-!
# The size of a submission

Both schemas bound every text and every number of a submission apart from the netuids, so the
canonical text of a few assets stays far below the cap on reveals.
-/

namespace Endure.Assessment

open Library Library.Json Endure.Protocol

/-! ### Plain texts -/

/-- A text that is written as itself and is not too long. -/
structure PlainText (width : ℕ) (value : String) : Prop where
  plain : value.toList.all isPlain = true
  short : value.length ≤ width

theorem PlainText.size_le {width : ℕ} {value : String} (plain : PlainText width value) :
    (Json.str value).size ≤ width + 2 := by
  have length := bytes_quoted plain.plain
  have shown : (Json.str value).size = bytes (quoted value) := by rw [size, write]; all_goals simp
  have short := plain.short
  omega

theorem isPlain_of_isDigit {c : Char} (isDigit : c.isDigit = true) : isPlain c = true := by
  have range : 48 ≤ c.toNat ∧ c.toNat ≤ 57 := by
    rw [Char.isDigit, Bool.and_eq_true, decide_eq_true_eq, decide_eq_true_eq] at isDigit
    exact ⟨UInt32.le_iff_toNat_le.mp isDigit.1, UInt32.le_iff_toNat_le.mp isDigit.2⟩
  refine isPlain_of ?_ ?_ (by omega) (by omega) <;> (rintro rfl; revert range; decide)

theorem isPlain_of_isLower {c : Char} (isLower : c.isLower = true) : isPlain c = true := by
  have range : 97 ≤ c.toNat ∧ c.toNat ≤ 122 := by
    rw [Char.isLower, Bool.and_eq_true, decide_eq_true_eq, decide_eq_true_eq] at isLower
    exact ⟨UInt32.le_iff_toNat_le.mp isLower.1, UInt32.le_iff_toNat_le.mp isLower.2⟩
  refine isPlain_of ?_ ?_ (by omega) (by omega) <;> (rintro rfl; revert range; decide)

/-- A round id has digits and dashes. -/
theorem plainText_roundId {roundId : String} (canonical : isCanonicalRoundId roundId = true) :
    PlainText maxRoundIdLength roundId := by
  rw [isCanonicalRoundId, Bool.and_eq_true, decide_eq_true_eq] at canonical
  refine ⟨?_, canonical.1⟩
  have shape := canonical.2
  split at shape
  · next y₁ y₂ y₃ y₄ m₁ m₂ d₁ d₂ chars =>
    simp only [Bool.and_eq_true, List.all_cons, List.all_nil, Bool.and_true] at shape
    rw [List.all_eq_true]
    intro c member
    rw [chars] at member
    have dash : isPlain '-' = true := by decide
    simp only [List.mem_cons, List.not_mem_nil, or_false] at member
    rcases member with rfl | rfl | rfl | rfl | rfl | rfl | rfl | rfl | rfl | rfl
    all_goals first | exact dash | (apply isPlain_of_isDigit; tauto)
  · cases shape

/-- A reason code has lower-case letters, digits and underscores. -/
theorem plainText_reasonCode {codes : List String}
    (checked : validateReasonCodes codes reasonCodePolicy = .ok codes) {code : String}
    (member : code ∈ codes) : PlainText 64 code := by
  unfold validateReasonCodes at checked
  split_ifs at checked with many double invalid
  rw [List.all_eq_true] at invalid
  have valid := invalid code member
  rw [Bool.and_eq_true, decide_eq_true_eq] at valid
  refine ⟨?_, valid.1⟩
  have pattern : reasonCodePattern code.toList = true := valid.2
  rw [List.all_eq_true]
  intro c listed
  cases chars : code.toList with
  | nil =>
    rw [chars] at listed
    cases listed
  | cons first rest =>
    rw [chars] at listed pattern
    rw [reasonCodePattern, Bool.and_eq_true, List.all_eq_true] at pattern
    rcases List.mem_cons.mp listed with rfl | later
    · exact isPlain_of_isLower pattern.1
    · have kind := pattern.2 c later
      simp only [Bool.or_eq_true, decide_eq_true_eq] at kind
      rcases kind with (lower | digit) | rfl
      · exact isPlain_of_isLower lower
      · exact isPlain_of_isDigit digit
      · decide

/-! ### Bounded schemas -/

namespace SubmissionSchema

variable {Output : Type}

/-- The bounds that a schema puts on the texts and numbers of an output. -/
structure Bounded (schema : SubmissionSchema Output) : Prop where
  schemaId : PlainText 23 schema.schemaId
  name : ∀ output, PlainText 21 (schema.name output)
  unit : ∀ output, PlainText 16 (schema.specOf output).unit
  minValue : ∀ output, 0 ≤ (schema.specOf output).minValue
  maxValue : ∀ output, ∃ maximum, (schema.specOf output).maxValue = some maximum ∧
    maximum < 10 ^ 31
  horizon : ∀ horizon, schema.horizonAllowed horizon = true → 0 ≤ horizon ∧ horizon < 10 ^ 7
  outputs : ∀ items, schema.outputsValid items = true → items.length ≤ 8

variable {schema : SubmissionSchema Output}

theorem size_int_le {value : ℤ} {width : ℕ} (nonneg : 0 ≤ value) (small : value < 10 ^ width)
    (pos : 0 < width) : (Json.int value).size ≤ width := by
  rw [size_int_of_nonneg nonneg]
  exact length_digits_le nonneg small pos

/-- The bounds that the specification of an output puts on it. -/
theorem OutputValid.inside {item : OutputValue Output} (valid : schema.OutputValid item) :
    item.unit = (schema.specOf item.output).unit ∧
      (schema.specOf item.output).minValue ≤ item.value ∧
      ∀ maximum ∈ (schema.specOf item.output).maxValue, item.value ≤ maximum := by
  have bounds := valid.bounds
  unfold validateOutputValueAgainstSpec at bounds
  split_ifs at bounds with unit floor minimum maximum
  refine ⟨not_not.mp unit, not_lt.mp minimum, ?_⟩
  intro value given
  rw [Option.mem_def.mp given, Option.any_some, decide_eq_true_eq] at maximum
  exact not_lt.mp maximum

theorem size_outputPayload_le (bounded : schema.Bounded) {item : OutputValue Output}
    (valid : schema.OutputValid item) : (schema.outputPayload item).size ≤ 704 := by
  obtain ⟨unit, minimum, maximum⟩ := valid.inside
  obtain ⟨most, given, small⟩ := bounded.maxValue item.output
  have value : (Json.int item.value).size ≤ 31 :=
    size_int_le ((bounded.minValue item.output).trans minimum)
      ((maximum most given).trans_lt small) (by omega)
  have confidence : (Json.int item.confidenceBps).size ≤ 5 := by
    refine size_int_le valid.confidence.1 (valid.confidence.2.trans_lt ?_) (by omega)
    decide
  have horizon : (Json.int item.horizonSeconds).size ≤ 7 :=
    have inside := bounded.horizon _ valid.horizon
    size_int_le inside.1 inside.2 (by omega)
  have name := (bounded.name item.output).size_le
  have unitSize := (bounded.unit item.output).size_le
  have codes : (Json.list (item.reasonCodes.map Json.str)).size ≤ 2 + 8 * 67 := by
    -- eight codes of 64 characters, each with its quotes and a comma
    have few : item.reasonCodes.length ≤ 8 := by
      have checked := valid.reasonCodes
      unfold validateReasonCodes at checked
      split_ifs at checked with many
      exact not_lt.mp many
    have each : sizeItems (item.reasonCodes.map Json.str) ≤
        (item.reasonCodes.map Json.str).length * (1 + 66) := by
      apply sizeItems_le
      intro code member
      obtain ⟨text, listed, rfl⟩ := List.mem_map.mp member
      exact (plainText_reasonCode valid.reasonCodes listed).size_le
    rw [List.length_map] at each
    rw [size]
    omega
  have keys : bytes (quoted "output") = 8 ∧ bytes (quoted "value") = 7 ∧
      bytes (quoted "confidence_bps") = 16 ∧ bytes (quoted "reason_codes") = 14 ∧
      bytes (quoted "horizon_seconds") = 17 ∧ bytes (quoted "unit") = 6 := by
    refine ⟨?_, ?_, ?_, ?_, ?_, ?_⟩ <;> exact bytes_quoted (by decide +kernel)
  rw [← unit] at unitSize
  rw [outputPayload, size]
  simp only [sizeEntries, keys]
  omega

/-- A valid asset whose netuid has few digits. -/
theorem size_assetPayload_le (bounded : schema.Bounded) {asset : AssetSubmission Output}
    (valid : schema.AssetValid asset) {width : ℕ} (short : (digits asset.netuid).length ≤ width) :
    (schema.assetPayload asset).size ≤ 5665 + width := by
  have netuid : (Json.int asset.netuid).size ≤ width := by
    rw [size_int_of_nonneg valid.netuid]
    exact short
  have few := bounded.outputs _ valid.outputs
  have outputs : sizeItems ((sortBy schema.outputKey asset.outputs).map schema.outputPayload) ≤
      ((sortBy schema.outputKey asset.outputs).map schema.outputPayload).length * (1 + 704) := by
    apply sizeItems_le
    intro payload member
    obtain ⟨item, listed, rfl⟩ := List.mem_map.mp member
    exact size_outputPayload_le bounded (valid.each item (mem_sortBy.mp listed))
  have keys : bytes (quoted "netuid") = 8 ∧ bytes (quoted "outputs") = 9 := by
    refine ⟨?_, ?_⟩ <;> exact bytes_quoted (by decide +kernel)
  rw [List.length_map, length_sortBy] at outputs
  have list : (Json.list ((sortBy schema.outputKey asset.outputs).map schema.outputPayload)).size =
      2 + sizeItems ((sortBy schema.outputKey asset.outputs).map schema.outputPayload) := by
    rw [size]
  rw [assetPayload, size]
  simp only [sizeEntries, keys, list]
  omega

/-- The canonical text of a valid bundle of few assets fits the cap on reveals. -/
theorem utf8ByteSize_dumps_le_cap (bounded : schema.Bounded) {bundle : SubmissionBundle Output}
    (valid : schema.BundleValid bundle) (few : bundle.assets.length ≤ 15)
    (short : ∀ asset ∈ bundle.assets, (digits asset.netuid).length ≤ maxStrDigits) :
    (schema.toCanonicalPayload bundle).dumps.utf8ByteSize ≤ maxRevealBundleBytes := by
  have roundId : (Json.str bundle.roundId).size ≤ 64 + 2 := (plainText_roundId valid.roundId).size_le
  have schemaId : (Json.str bundle.schemaId).size ≤ 23 + 2 := by
    rw [valid.schemaId]
    exact bounded.schemaId.size_le
  have assets : sizeItems (schema.canonicalAssetsPayload bundle.assets) ≤
      (schema.canonicalAssetsPayload bundle.assets).length * (1 + (5665 + 4300)) := by
    apply sizeItems_le
    intro payload member
    obtain ⟨asset, listed, rfl⟩ := List.mem_map.mp member
    have source := mem_sortBy.mp listed
    exact size_assetPayload_le bounded (valid.each asset source) (short asset source)
  have length : (schema.canonicalAssetsPayload bundle.assets).length = bundle.assets.length := by
    rw [canonicalAssetsPayload, List.length_map, length_sortBy]
  have keys : bytes (quoted "round_id") = 10 ∧ bytes (quoted "schema_id") = 11 ∧
      bytes (quoted "assets") = 8 := by
    refine ⟨?_, ?_, ?_⟩ <;> exact bytes_quoted (by decide +kernel)
  have list : (Json.list (schema.canonicalAssetsPayload bundle.assets)).size =
      2 + sizeItems (schema.canonicalAssetsPayload bundle.assets) := by
    rw [size]
  -- even with netuids of 4300 digits fifteen assets stay below the cap
  refine (utf8ByteSize_dumps_le _).trans ?_
  rw [length] at assets
  rw [toCanonicalPayload, size, maxRevealBundleBytes]
  simp only [sizeEntries, keys, list]
  omega

end SubmissionSchema

/-! ### The two schemas are bounded -/

theorem bounded_riskSchema : riskSchema.Bounded where
  schemaId := ⟨by decide +kernel, by decide +kernel⟩
  name output := by cases output <;> exact ⟨by decide +kernel, by decide +kernel⟩
  unit output := by cases output <;> exact ⟨by decide +kernel, by decide +kernel⟩
  minValue output := by cases output <;> decide
  maxValue output := by cases output <;> exact ⟨_, rfl, by decide⟩
  horizon horizon allowed := by
    have member : horizon ∈ riskHorizons := List.contains_iff_mem.mp allowed
    simp only [riskHorizons, horizon5dSeconds, horizon30dSeconds, List.mem_cons, List.not_mem_nil,
      or_false] at member
    omega
  outputs items valid := by
    obtain ⟨nodup, same⟩ := (riskOutputsValid_iff items).mp valid
    have within : (items.map riskCell).Subperm riskCells :=
      nodup.subperm fun cell member => (same cell).mp member
    have length := within.length_le
    rw [List.length_map] at length
    exact length

end Endure.Assessment
