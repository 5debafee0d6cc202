import Endure.Aggregation.AssessmentConsensus
import Endure.Assessment.WireSize
import Endure.Protocol.CommitmentBinding

/-!
# From a miner's bundle to the scored values

What a miner assembles from a valid bundle is accepted in both windows and scored as it was
submitted: assembly, canonical serialization, the caps, the decoder, the models, membership and the
extraction of `endure/scoring/assessment_orchestrator.py` fit together.
-/

namespace Endure.Protocol

open Library Library.Checked Endure.Aggregation Endure.Assessment Endure.Scoring Endure.Storage

/-! ### Extraction -/

section Extraction

variable {Output : Type}

/-- The submitted value at each coordinate that a schema scores. -/
def submittedAssessmentValues (assets : List (AssetSubmission Output))
    (coordinateFor : ℤ → ℤ → Output → Option Coordinate) : Dict Coordinate ℤ :=
  Dict.ofEntries (assets.flatMap fun asset => asset.outputs.filterMap fun item =>
    (coordinateFor asset.netuid item.horizonSeconds item.output).map fun coordinate =>
      (coordinate, item.value))

/-- The bundle that a text holds, as the scoring side reads it. -/
def readBundle (schema : SubmissionSchema Output) (bundleJson : String) :
    Option (SubmissionBundle Output) :=
  (Json.loads maxStrDigits bundleJson).bind fun loaded => (schema.validateBundle loaded).toOption

/-- The values of an accepted bundle's text; one that does not parse has none. -/
def bundleValues (schema : SubmissionSchema Output)
    (coordinateFor : ℤ → ℤ → Output → Option Coordinate) (bundleJson : String) :
    Option (Dict Coordinate ℤ) :=
  (readBundle schema bundleJson).map fun bundle =>
    submittedAssessmentValues bundle.assets coordinateFor

/-- A value submitted at a coordinate. -/
def Submits (assets : List (AssetSubmission Output))
    (coordinateFor : ℤ → ℤ → Output → Option Coordinate) (coordinate : Coordinate) (value : ℤ) :
    Prop :=
  ∃ asset ∈ assets, ∃ item ∈ asset.outputs,
    coordinateFor asset.netuid item.horizonSeconds item.output = some coordinate ∧
      item.value = value

/-- Where no coordinate has two values, extraction finds exactly what was submitted. -/
theorem get?_submittedAssessmentValues {assets : List (AssetSubmission Output)}
    {coordinateFor : ℤ → ℤ → Output → Option Coordinate}
    (functional : ∀ coordinate value value', Submits assets coordinateFor coordinate value →
      Submits assets coordinateFor coordinate value' → value = value')
    {coordinate : Coordinate} {value : ℤ} :
    (submittedAssessmentValues assets coordinateFor).get? coordinate = some value ↔
      Submits assets coordinateFor coordinate value := by
  have listed (coordinate : Coordinate) (value : ℤ) :
      (coordinate, value) ∈ (assets.flatMap fun asset => asset.outputs.filterMap fun item =>
        (coordinateFor asset.netuid item.horizonSeconds item.output).map fun coordinate =>
          (coordinate, item.value)) ↔ Submits assets coordinateFor coordinate value := by
    simp only [Submits, List.mem_flatMap, List.mem_filterMap, Option.map_eq_some_iff,
      Prod.mk.injEq, ↓existsAndEq, true_and]
  rw [submittedAssessmentValues, Dict.get?_ofEntries_of_functional, listed]
  rintro ⟨first, value⟩ member ⟨second, value'⟩ member' same
  cases same
  exact functional _ _ _ ((listed _ _).mp member) ((listed _ _).mp member')

/-- A bundle in canonical order holds the same outputs. -/
theorem exists_output_canonical {schema : SubmissionSchema Output}
    {bundle : SubmissionBundle Output} {holds : ℤ → OutputValue Output → Prop} :
    (∃ asset ∈ (schema.canonical bundle).assets, ∃ item ∈ asset.outputs, holds asset.netuid item) ↔
      ∃ asset ∈ bundle.assets, ∃ item ∈ asset.outputs, holds asset.netuid item := by
  constructor
  · rintro ⟨asset, member, item, listed, found⟩
    obtain ⟨source, sorted, rfl⟩ := List.mem_map.mp member
    exact ⟨source, mem_sortBy.mp sorted, item, mem_sortBy.mp listed, found⟩
  · rintro ⟨asset, member, item, listed, found⟩
    exact ⟨schema.canonicalAsset asset, List.mem_map_of_mem (mem_sortBy.mpr member), item,
      mem_sortBy.mpr listed, found⟩

/-- A bundle in canonical order submits the same values. -/
theorem submits_canonical {schema : SubmissionSchema Output} {bundle : SubmissionBundle Output}
    {coordinateFor : ℤ → ℤ → Output → Option Coordinate} {coordinate : Coordinate} {value : ℤ} :
    Submits (schema.canonical bundle).assets coordinateFor coordinate value ↔
      Submits bundle.assets coordinateFor coordinate value :=
  @exists_output_canonical _ schema bundle fun netuid item =>
    coordinateFor netuid item.horizonSeconds item.output = some coordinate ∧ item.value = value

end Extraction

/-- The text that is assembled is read as the bundle in canonical order. -/
theorem readBundle_dumps {Output : Type} {schema : SubmissionSchema Output}
    {bundle : SubmissionBundle Output} (bounded : schema.Bounded) (valid : schema.BundleValid bundle)
    (short : ∀ asset ∈ bundle.assets, (Json.digits asset.netuid).length ≤ maxStrDigits) :
    readBundle schema (schema.toCanonicalPayload bundle).dumps = some (schema.canonical bundle) := by
  have loaded := Json.loads_dumps (canonicalizable_of_valid bounded valid short).readable
  rw [readBundle, loaded, Option.bind_some,
    SubmissionSchema.validateBundle_toCanonicalPayload valid]
  rfl

/-! ### Alpha Risk submissions -/

/-- `risk_coordinate`, for values that the models let through. -/
def riskCoordinate (netuid horizon : ℤ) (output : RiskOutput) : Coordinate :=
  subnetAsset netuid.toNat horizon.toNat output.value

/-- Every output of an Alpha Risk bundle is scored. -/
def riskCoordinateFor (netuid horizon : ℤ) (output : RiskOutput) : Option Coordinate :=
  some (riskCoordinate netuid horizon output)

/-- The values of an Alpha Risk bundle's text. -/
def riskBundleValues (bundleJson : String) : Option (Dict Coordinate ℤ) :=
  bundleValues riskSchema riskCoordinateFor bundleJson

/-- A coordinate names one subnet, horizon and output. -/
theorem riskCoordinate_inj {netuid netuid' horizon horizon' : ℤ} {output output' : RiskOutput}
    (netuids : 0 ≤ netuid ∧ 0 ≤ netuid') (horizons : 0 ≤ horizon ∧ 0 ≤ horizon')
    (same : riskCoordinate netuid horizon output = riskCoordinate netuid' horizon' output') :
    netuid = netuid' ∧ horizon = horizon' ∧ output = output' := by
  rw [riskCoordinate, riskCoordinate, subnetAsset, subnetAsset, Coordinate.mk.injEq] at same
  have target := Nat.repr_injective same.2.1
  have span := same.2.2.2.1
  refine ⟨by omega, by omega, RiskOutput.value_injective same.2.2.2.2⟩

/-- A valid bundle submits one value at each coordinate. -/
theorem submits_functional {bundle : SubmissionBundle RiskOutput}
    (valid : riskSchema.BundleValid bundle) (coordinate : Coordinate) (value value' : ℤ)
    (submits : Submits bundle.assets riskCoordinateFor coordinate value)
    (submits' : Submits bundle.assets riskCoordinateFor coordinate value') : value = value' := by
  obtain ⟨asset, member, item, listed, found, rfl⟩ := submits
  obtain ⟨asset', member', item', listed', found', rfl⟩ := submits'
  have assetValid := valid.each asset member
  have assetValid' := valid.each asset' member'
  have horizon := bounded_riskSchema.horizon _ (assetValid.each item listed).horizon
  have horizon' := bounded_riskSchema.horizon _ (assetValid'.each item' listed').horizon
  have same := Option.some.inj (found.trans found'.symm)
  obtain ⟨netuids, horizons, outputs⟩ := riskCoordinate_inj ⟨assetValid.netuid, assetValid'.netuid⟩
    ⟨horizon.1, horizon'.1⟩ same
  -- no subnet is submitted twice, and no cell twice for a subnet
  have assets : asset = asset' :=
    List.inj_on_of_nodup_map (SubmissionSchema.nodup_netuids valid) member member' netuids
  subst assets
  have cells := ((riskOutputsValid_iff _).mp assetValid.outputs).1
  have items : item = item' :=
    List.inj_on_of_nodup_map cells listed listed' (Prod.ext outputs horizons)
  rw [items]

/-- The values read from an assembled text are the submitted ones. -/
theorem get?_riskBundleValues {bundle : SubmissionBundle RiskOutput}
    (valid : riskSchema.BundleValid bundle)
    (short : ∀ asset ∈ bundle.assets, (Json.digits asset.netuid).length ≤ maxStrDigits) :
    ∃ values, riskBundleValues (riskSchema.toCanonicalPayload bundle).dumps = some values ∧
      ∀ coordinate value, values.get? coordinate = some value ↔
        ∃ asset ∈ bundle.assets, ∃ item ∈ asset.outputs,
          riskCoordinate asset.netuid item.horizonSeconds item.output = coordinate ∧
            item.value = value := by
  have read := readBundle_dumps bounded_riskSchema valid short
  have functional := submits_functional (SubmissionSchema.bundleValid_canonical valid)
  refine ⟨submittedAssessmentValues (riskSchema.canonical bundle).assets riskCoordinateFor, ?_, ?_⟩
  · rw [riskBundleValues, bundleValues, read]
    rfl
  · intro coordinate value
    rw [get?_submittedAssessmentValues functional, submits_canonical, Submits]
    simp only [riskCoordinateFor, Option.some.injEq]

/-- A commit of a hash is accepted in its window. -/
theorem validateCommit_accepted {payload : Type} {codec : Codec payload} {roundId schemaId : String}
    {bundleHash : String} {now commitOpen commitClose : ℤ}
    (canonical : isCanonicalRoundId roundId = true) (known : (codec.registry schemaId).isSome)
    (opened : commitOpen ≤ now) (closes : now ≤ commitClose)
    (digest : isHexDigest bundleHash = true) :
    (validateCommit codec roundId schemaId currentVersionKey bundleHash now commitOpen
      commitClose).accepted = true := by
  have registered : ¬(codec.registry schemaId).isNone = true := by
    rw [Option.isNone_iff_eq_none]
    exact Option.isSome_iff_ne_none.mp known
  rw [validateCommit, if_neg (not_not.mpr canonical), if_neg (not_not.mpr rfl),
    if_neg registered, if_neg (not_not.mpr ⟨opened, closes⟩), if_neg (not_not.mpr digest)]
  rfl

/-- An assembled submission is accepted in both windows, and its text holds the values of its bundle
and no others. -/
structure RoundTrips (blake2b : List UInt8 → String) (members : List String)
    (bundle : SubmissionBundle RiskOutput) (minerHotkey : Hotkey)
    (assembled : AssembledSubmission) : Prop where
  commit : ∀ now commitOpen commitClose, commitOpen ≤ now → now ≤ commitClose →
    (validateCommit (defaultCodec blake2b) bundle.roundId bundle.schemaId currentVersionKey
      assembled.bundleHash now commitOpen commitClose).accepted = true
  reveal : ∀ now revealOpen revealClose, revealOpen ≤ now → now ≤ revealClose →
    (validateReveal (defaultCodec blake2b) bundle.roundId bundle.schemaId currentVersionKey
      assembled.bundleJson assembled.nonceHex (some assembled.bundleHash) minerHotkey now
      revealOpen revealClose members).accepted = true
  values : ∃ values, riskBundleValues assembled.bundleJson = some values ∧
    ∀ coordinate value, values.get? coordinate = some value ↔
      ∃ asset ∈ bundle.assets, ∃ item ∈ asset.outputs,
        riskCoordinate asset.netuid item.horizonSeconds item.output = coordinate ∧
          item.value = value

/-- What is assembled from a valid bundle over a stored universe round-trips. -/
theorem roundTrips_of_valid {blake2b : List UInt8 → String}
    (digest : ∀ bytes, isHexDigest (blake2b bytes) = true) {netuids : List ℕ} {members : List String}
    (stored : canonicalUniverseMembers alphaRiskUniverseTexts netuids = .ok members)
    (capped : netuids.length ≤ maxAlphaRiskTargetsPerRound) {bundle : SubmissionBundle RiskOutput}
    (valid : riskSchema.BundleValid bundle)
    (inside : ∀ asset ∈ bundle.assets, ∃ netuid ∈ netuids, (netuid : ℤ) = asset.netuid)
    (minerHotkey : Hotkey) {nonce : List UInt8} (length : nonce.length = commitNonceBytes) :
    ∃ assembled, assembleBundle (defaultCodec blake2b) (riskSchema.canonicalBundle bundle)
        minerHotkey nonce = .ok assembled ∧
      RoundTrips blake2b members bundle minerHotkey assembled := by
  have few : bundle.assets.length ≤ 15 := (length_assets_le valid inside).trans capped
  have short := short_of_members stored inside
  have known : (defaultRegistry bundle.schemaId).isSome := by
    rw [valid.schemaId]
    exact Option.isSome_iff_exists.mpr ⟨_, defaultRegistry_risk⟩
  refine ⟨_, assembleBundle_eq_ok minerHotkey length, ?_, ?_, ?_⟩
  · intro now commitOpen commitClose opened closes
    exact validateCommit_accepted valid.roundId known opened closes (digest _)
  · intro now revealOpen revealClose opened closes
    exact validateReveal_accepted_iff.mpr ⟨rfl, ⟨opened, closes⟩, nonce, _,
      admitted_of_valid defaultRegistry_risk bounded_riskSchema valid few stored inside minerHotkey
        length⟩
  · exact get?_riskBundleValues valid short

/-- **Submissions round-trip.** A valid Alpha Risk bundle over a stored universe, assembled with any
nonce for any hotkey, is accepted in both windows, and the scoring side reads from its text exactly
the submitted value at every coordinate. -/
theorem submission_round_trips {blake2b : List UInt8 → String}
    (digest : ∀ bytes, isHexDigest (blake2b bytes) = true) {netuids : List ℕ} {members : List String}
    (stored : canonicalUniverseMembers alphaRiskUniverseTexts netuids = .ok members)
    (capped : netuids.length ≤ maxAlphaRiskTargetsPerRound) {bundle : SubmissionBundle RiskOutput}
    (valid : riskSchema.BundleValid bundle)
    (inside : ∀ asset ∈ bundle.assets, ∃ netuid ∈ netuids, (netuid : ℤ) = asset.netuid)
    (minerHotkey : Hotkey) {nonce : List UInt8} (length : nonce.length = commitNonceBytes) :
    ∃ assembled, assembleBundle (defaultCodec blake2b) (riskSchema.canonicalBundle bundle)
        minerHotkey nonce = .ok assembled ∧
      (∀ now commitOpen commitClose, commitOpen ≤ now → now ≤ commitClose →
        (validateCommit (defaultCodec blake2b) bundle.roundId bundle.schemaId currentVersionKey
          assembled.bundleHash now commitOpen commitClose).accepted = true) ∧
      (∀ now revealOpen revealClose, revealOpen ≤ now → now ≤ revealClose →
        (validateReveal (defaultCodec blake2b) bundle.roundId bundle.schemaId currentVersionKey
          assembled.bundleJson assembled.nonceHex (some assembled.bundleHash) minerHotkey now
          revealOpen revealClose members).accepted = true) ∧
      ∃ values, riskBundleValues assembled.bundleJson = some values ∧
        ∀ coordinate value, values.get? coordinate = some value ↔
          ∃ asset ∈ bundle.assets, ∃ item ∈ asset.outputs,
            riskCoordinate asset.netuid item.horizonSeconds item.output = coordinate ∧
              item.value = value := by
  obtain ⟨assembled, made, through⟩ :=
    roundTrips_of_valid digest stored capped valid inside minerHotkey length
  exact ⟨assembled, made, through.commit, through.reveal, through.values⟩

/-- The bundle of one subnet, read back. -/
theorem submission_round_trips_riskBundle :
    ∃ assembled, assembleBundle (defaultCodec fun _ => riskBundleHash)
        (riskSchema.canonicalBundle riskBundle) "5Miner" riskNonce = .ok assembled ∧
      (∀ now commitOpen commitClose, commitOpen ≤ now → now ≤ commitClose →
        (validateCommit (defaultCodec fun _ => riskBundleHash) riskBundle.roundId
          riskBundle.schemaId currentVersionKey assembled.bundleHash now commitOpen
          commitClose).accepted = true) ∧
      (∀ now revealOpen revealClose, revealOpen ≤ now → now ≤ revealClose →
        (validateReveal (defaultCodec fun _ => riskBundleHash) riskBundle.roundId
          riskBundle.schemaId currentVersionKey assembled.bundleJson assembled.nonceHex
          (some assembled.bundleHash) "5Miner" now revealOpen revealClose ["3"]).accepted = true) ∧
      ∃ values, riskBundleValues assembled.bundleJson = some values ∧
        ∀ coordinate value, values.get? coordinate = some value ↔
          ∃ asset ∈ riskBundle.assets, ∃ item ∈ asset.outputs,
            riskCoordinate asset.netuid item.horizonSeconds item.output = coordinate ∧
              item.value = value :=
  submission_round_trips (fun _ => by decide +kernel) riskUniverse_stored (by decide)
    riskBundle_valid riskBundle_inside "5Miner" rfl

/-! ### One text for one submission -/

section Rows

variable {Output : Type}

/-- One submitted output, its reason codes as a set. -/
structure SubmittedRow (Output : Type) where
  netuid : ℤ
  output : Output
  value : ℤ
  confidenceBps : ℤ
  reasonCodes : Finset String
  horizonSeconds : ℤ
  unit : String

def rowOf (netuid : ℤ) (item : OutputValue Output) : SubmittedRow Output where
  netuid := netuid
  output := item.output
  value := item.value
  confidenceBps := item.confidenceBps
  reasonCodes := item.reasonCodes.toFinset
  horizonSeconds := item.horizonSeconds
  unit := item.unit

/-- What a bundle submits, in no order. -/
def rows (bundle : SubmissionBundle Output) : Set (SubmittedRow Output) :=
  {row | ∃ asset ∈ bundle.assets, ∃ item ∈ asset.outputs, rowOf asset.netuid item = row}

variable {schema : SubmissionSchema Output} {bundle bundle' : SubmissionBundle Output}

/-- A bundle in canonical order submits the same rows. -/
theorem rows_canonical : rows (schema.canonical bundle) = rows bundle :=
  Set.ext fun row => @exists_output_canonical _ schema bundle fun netuid item =>
    rowOf netuid item = row

/-- Checked reason codes are determined by their set. -/
theorem reasonCodes_eq {codes codes' : List String} {policy : ReasonCodePolicy}
    (checked : validateReasonCodes codes policy = .ok codes)
    (checked' : validateReasonCodes codes' policy = .ok codes')
    (same : codes.toFinset = codes'.toFinset) : codes = codes' := by
  have facts {codes : List String} (checked : validateReasonCodes codes policy = .ok codes) :
      codes.Nodup ∧ sortBy id codes = codes := by
    unfold validateReasonCodes at checked
    split_ifs at checked with many double invalid
    exact ⟨double, Except.ok.inj checked⟩
  have perm : codes.Perm codes' :=
    List.perm_of_nodup_nodup_toFinset_eq (facts checked).1 (facts checked').1 same
  have nodup : (codes.map id).Nodup := by
    rw [List.map_id]
    exact (facts checked).1
  rw [← (facts checked).2, ← (facts checked').2]
  exact sortBy_eq_of_perm nodup perm

/-- Valid outputs with the same row are the same. -/
theorem outputValue_eq_of_rowOf {netuid netuid' : ℤ} {item item' : OutputValue Output}
    (valid : schema.OutputValid item) (valid' : schema.OutputValid item')
    (same : rowOf netuid item = rowOf netuid' item') : netuid = netuid' ∧ item = item' := by
  rw [rowOf, rowOf, SubmittedRow.mk.injEq] at same
  obtain ⟨netuids, outputs, values, confidences, codes, horizons, units⟩ := same
  refine ⟨netuids, ?_⟩
  have codesSame := reasonCodes_eq valid.reasonCodes valid'.reasonCodes codes
  cases item
  cases item'
  simp_all

/-- An output of an asset is found in the asset of the same subnet of a bundle with its rows. -/
theorem mem_outputs_of_rows (valid : schema.BundleValid bundle) (valid' : schema.BundleValid bundle')
    (within : rows bundle ⊆ rows bundle') {asset asset' : AssetSubmission Output}
    (member : asset ∈ bundle.assets) (member' : asset' ∈ bundle'.assets)
    (netuids : asset.netuid = asset'.netuid) {item : OutputValue Output}
    (listed : item ∈ asset.outputs) : item ∈ asset'.outputs := by
  obtain ⟨other, known, item', listed', same⟩ := within ⟨asset, member, item, listed, rfl⟩
  have itemValid := (valid.each asset member).each item listed
  have itemValid' := (valid'.each other known).each item' listed'
  obtain ⟨others, rfl⟩ := outputValue_eq_of_rowOf itemValid' itemValid same
  have assets : other = asset' :=
    List.inj_on_of_nodup_map (SubmissionSchema.nodup_netuids valid') known member'
      (others.trans netuids)
  exact assets ▸ listed'

/-- An asset in canonical order is one of every valid bundle with the same rows. -/
theorem mem_canonical_of_rows (valid : schema.BundleValid bundle)
    (valid' : schema.BundleValid bundle') (same : rows bundle = rows bundle')
    (nonempty : ∀ items, schema.outputsValid items = true → items ≠ [])
    {asset : AssetSubmission Output} (member : asset ∈ (schema.canonical bundle).assets) :
    asset ∈ (schema.canonical bundle').assets := by
  obtain ⟨source, sorted, rfl⟩ := List.mem_map.mp member
  have source_mem := mem_sortBy.mp sorted
  have sourceValid := valid.each source source_mem
  obtain ⟨item, listed⟩ := List.exists_mem_of_ne_nil _ (nonempty _ sourceValid.outputs)
  -- a row of the asset leads to the asset of the same subnet
  obtain ⟨other, other_mem, item', listed', row⟩ : rowOf source.netuid item ∈ rows bundle' :=
    same ▸ ⟨source, source_mem, item, listed, rfl⟩
  have netuids : source.netuid = other.netuid := congrArg SubmittedRow.netuid row.symm
  have keys := schema.nodup_keys sourceValid.outputs
  have keys' := schema.nodup_keys (valid'.each other other_mem).outputs
  have perm : source.outputs.Perm other.outputs :=
    (List.perm_ext_iff_of_nodup keys.of_map keys'.of_map).mpr fun item =>
      ⟨mem_outputs_of_rows valid valid' same.subset source_mem other_mem netuids,
        mem_outputs_of_rows valid' valid same.symm.subset other_mem source_mem netuids.symm⟩
  have assets : schema.canonicalAsset source = schema.canonicalAsset other := by
    rw [SubmissionSchema.canonicalAsset, SubmissionSchema.canonicalAsset, netuids,
      sortBy_eq_of_perm keys perm]
  rw [assets]
  exact List.mem_map_of_mem (mem_sortBy.mpr other_mem)

/-- Valid bundles of one round that submit the same rows are one bundle in canonical order. -/
theorem canonical_eq_of_rows (valid : schema.BundleValid bundle)
    (valid' : schema.BundleValid bundle') (rounds : bundle.roundId = bundle'.roundId)
    (same : rows bundle = rows bundle')
    (nonempty : ∀ items, schema.outputsValid items = true → items ≠ []) :
    schema.canonical bundle = schema.canonical bundle' := by
  have nodup := SubmissionSchema.nodup_netuids (SubmissionSchema.bundleValid_canonical valid)
  have nodup' := SubmissionSchema.nodup_netuids (SubmissionSchema.bundleValid_canonical valid')
  have perm : (schema.canonical bundle).assets.Perm (schema.canonical bundle').assets :=
    (List.perm_ext_iff_of_nodup nodup.of_map nodup'.of_map).mpr fun asset =>
      ⟨mem_canonical_of_rows valid valid' same nonempty,
        mem_canonical_of_rows valid' valid same.symm nonempty⟩
  -- both are sorted by netuid and neither repeats one
  have assets : (schema.canonical bundle).assets = (schema.canonical bundle').assets := by
    have sorted := sortBy_eq_of_perm nodup perm
    rwa [SubmissionSchema.sortBy_assets_canonical, SubmissionSchema.sortBy_assets_canonical]
      at sorted
  have schemas : bundle.schemaId = bundle'.schemaId := valid.schemaId.trans valid'.schemaId.symm
  rw [SubmissionSchema.canonical, SubmissionSchema.canonical] at assets ⊢
  rw [rounds, schemas]
  exact congrArg _ assets

end Rows

/-- An admitted Alpha Risk text is the canonical text of the valid bundle it holds, on subnets of the
universe. -/
theorem readBundle_of_admitted {blake2b : List UInt8 → String} {roundId bundleJson nonceHex
    committed : String} {minerHotkey : Hotkey} {tickers : List String} {nonce : List UInt8}
    {view : CanonicalBundle Json}
    (admitted : Admitted (defaultCodec blake2b) roundId riskSchemaId bundleJson nonceHex committed
      minerHotkey tickers nonce view) :
    ∃ bundle, readBundle riskSchema bundleJson = some bundle ∧ riskSchema.BundleValid bundle ∧
      bundle.roundId = roundId ∧ (riskSchema.toCanonicalPayload bundle).dumps = bundleJson ∧
      validateNetuidMembership (bundle.assets.map AssetSubmission.netuid) tickers = true := by
  obtain ⟨entry, known, reads⟩ := admitted.reads
  cases defaultRegistry_risk.symm.trans known
  obtain ⟨loaded, text, modelled⟩ := reads.parsed
  obtain ⟨bundle, read, same⟩ := map_eq_ok.mp modelled
  cases same
  -- validation is what makes a bundle valid: nothing is assumed of its sender
  have valid := SubmissionSchema.bundleValid_of_validateBundle read
  have loads : Json.loads maxStrDigits bundleJson = some loaded := text
  refine ⟨bundle, ?_, valid, reads.roundId, encode_injective reads.canonical, ?_⟩
  · rw [readBundle, loads, Option.bind_some, read]
    rfl
  · rw [← SubmissionSchema.membershipValid_canonicalBundle valid.schemaId]
    exact reads.members _ rfl

/-- An accepted Alpha Risk text is the canonical text of the valid bundle it holds. -/
theorem readBundle_of_accepted {blake2b : List UInt8 → String} {roundId bundleJson nonceHex
    committed : String} {specVersion now revealOpen revealClose : ℤ} {minerHotkey : Hotkey}
    {tickers : List String}
    (accepted : (validateReveal (defaultCodec blake2b) roundId riskSchemaId specVersion bundleJson
      nonceHex (some committed) minerHotkey now revealOpen revealClose tickers).accepted = true) :
    ∃ bundle, readBundle riskSchema bundleJson = some bundle ∧ riskSchema.BundleValid bundle ∧
      bundle.roundId = roundId ∧ (riskSchema.toCanonicalPayload bundle).dumps = bundleJson := by
  obtain ⟨-, -, nonce, view, admitted⟩ := validateReveal_accepted_iff.mp accepted
  obtain ⟨bundle, read, valid, round, text, -⟩ := readBundle_of_admitted admitted
  exact ⟨bundle, read, valid, round, text⟩

/-- Valid Alpha Risk bundles of one round with the same rows have one text. -/
theorem dumps_eq_of_rows {bundle bundle' : SubmissionBundle RiskOutput}
    (valid : riskSchema.BundleValid bundle) (valid' : riskSchema.BundleValid bundle')
    (rounds : bundle.roundId = bundle'.roundId) (same : rows bundle = rows bundle') :
    (riskSchema.toCanonicalPayload bundle).dumps =
      (riskSchema.toCanonicalPayload bundle').dumps := by
  -- an asset without outputs would leave no row
  have nonempty : ∀ items, riskSchema.outputsValid items = true → items ≠ [] := by
    rintro items listed rfl
    have cells := ((riskOutputsValid_iff []).mp listed).2 (.maxDrawdown, horizon5dSeconds)
    simp [riskCells, RiskOutput.members, riskHorizons] at cells
  have canonical := canonical_eq_of_rows valid valid' rounds same nonempty
  rw [← SubmissionSchema.toCanonicalPayload_canonical bundle, canonical,
    SubmissionSchema.toCanonicalPayload_canonical]

/-- **One text for one submission.** Two accepted Alpha Risk texts, in whatever order their senders
held the assets, outputs and reason codes, are equal exactly when they are for one round and submit
the same rows. -/
theorem accepted_text_eq_iff {blake2b blake2b' : List UInt8 → String} {roundId roundId' bundleJson
    bundleJson' nonceHex nonceHex' committed committed' : String}
    {specVersion specVersion' now now' revealOpen revealOpen' revealClose revealClose' : ℤ}
    {minerHotkey minerHotkey' : Hotkey} {tickers tickers' : List String}
    (accepted : (validateReveal (defaultCodec blake2b) roundId riskSchemaId specVersion bundleJson
      nonceHex (some committed) minerHotkey now revealOpen revealClose tickers).accepted = true)
    (accepted' : (validateReveal (defaultCodec blake2b') roundId' riskSchemaId specVersion'
      bundleJson' nonceHex' (some committed') minerHotkey' now' revealOpen' revealClose'
        tickers').accepted = true) :
    ∃ bundle bundle', readBundle riskSchema bundleJson = some bundle ∧
      readBundle riskSchema bundleJson' = some bundle' ∧
        (bundleJson = bundleJson' ↔ roundId = roundId' ∧ rows bundle = rows bundle') := by
  obtain ⟨bundle, read, valid, round, text⟩ := readBundle_of_accepted accepted
  obtain ⟨bundle', read', valid', round', text'⟩ := readBundle_of_accepted accepted'
  refine ⟨bundle, bundle', read, read', ?_⟩
  constructor
  · rintro rfl
    cases read.symm.trans read'
    exact ⟨round.symm.trans round', rfl⟩
  · rintro ⟨rounds, same⟩
    rw [← text, ← text', dumps_eq_of_rows valid valid' (round.trans (rounds.trans round'.symm)) same]

/-- `validate_reveal` accepts a text as an Alpha Risk bundle, in some round and universe, from some
hotkey and at some time. -/
def AcceptedText (bundleJson : String) : Prop :=
  ∃ blake2b roundId nonceHex committed minerHotkey tickers,
    ∃ specVersion now revealOpen revealClose : ℤ,
      (validateReveal (defaultCodec blake2b) roundId riskSchemaId specVersion bundleJson nonceHex
        (some committed) minerHotkey now revealOpen revealClose tickers).accepted = true

/-- **From the miner to the score and back.** Over a frozen universe every valid bundle within it
round-trips, for every hotkey and nonce; and accepted texts that hold one round and the same rows, in
whatever order, are the same bytes. -/
theorem miner_to_validator_round_trip {blake2b : List UInt8 → String}
    (digest : ∀ bytes, isHexDigest (blake2b bytes) = true) {netuids : List ℕ} {members : List String}
    (stored : canonicalUniverseMembers alphaRiskUniverseTexts netuids = .ok members)
    (capped : netuids.length ≤ maxAlphaRiskTargetsPerRound) :
    (∀ bundle, riskSchema.BundleValid bundle →
      (∀ asset ∈ bundle.assets, ∃ netuid ∈ netuids, (netuid : ℤ) = asset.netuid) →
      ∀ minerHotkey (nonce : List UInt8), nonce.length = commitNonceBytes →
        ∃ assembled, assembleBundle (defaultCodec blake2b) (riskSchema.canonicalBundle bundle)
            minerHotkey nonce = .ok assembled ∧
          RoundTrips blake2b members bundle minerHotkey assembled) ∧
    ∀ bundleJson bundleJson' bundle bundle', AcceptedText bundleJson → AcceptedText bundleJson' →
      readBundle riskSchema bundleJson = some bundle →
      readBundle riskSchema bundleJson' = some bundle' →
      bundle.roundId = bundle'.roundId → rows bundle = rows bundle' → bundleJson = bundleJson' := by
  constructor
  · intro bundle valid inside minerHotkey nonce length
    exact roundTrips_of_valid digest stored capped valid inside minerHotkey length
  · rintro bundleJson bundleJson' bundle bundle' ⟨_, _, _, _, _, _, _, _, _, _, accepted⟩
      ⟨_, _, _, _, _, _, _, _, _, _, accepted'⟩ read read' rounds same
    obtain ⟨_, held, valid, -, text⟩ := readBundle_of_accepted accepted
    obtain ⟨_, held', valid', -, text'⟩ := readBundle_of_accepted accepted'
    cases read.symm.trans held
    cases read'.symm.trans held'
    rw [← text, ← text', dumps_eq_of_rows valid valid' rounds same]

/-! ### Two orders of one submission -/

/-- A bundle of some outputs for one subnet. -/
def bundleOf (items : List (OutputValue RiskOutput)) : SubmissionBundle RiskOutput :=
  ⟨"2026-01-05", riskSchemaId, [⟨3, items⟩]⟩

/-- Its text. -/
def textOf (items : List (OutputValue RiskOutput)) : String :=
  (riskSchema.toCanonicalPayload (bundleOf items)).dumps

/-- What `riskBundle` predicts, and the same with more confidence. -/
def riskItems : List (OutputValue RiskOutput) := riskCells.map riskItem

def surerItems : List (OutputValue RiskOutput) :=
  riskItems.map fun item => { item with confidenceBps := 6000 }

section Texts

variable {items : List (OutputValue RiskOutput)}

theorem bundleOf_valid (each : ∀ item ∈ items, riskSchema.OutputValid item)
    (outputs : riskSchema.outputsValid items = true) : riskSchema.BundleValid (bundleOf items) where
  roundId := riskBundle_valid.roundId
  schemaId := rfl
  each asset member := by
    cases List.mem_singleton.mp member
    exact ⟨by norm_num, each, outputs, rfl⟩
  assets := rfl

theorem inside_bundleOf :
    ∀ asset ∈ (bundleOf items).assets, ∃ netuid ∈ ([3] : List ℕ), (netuid : ℤ) = asset.netuid := by
  simp [bundleOf]

theorem textOf_accepted (valid : riskSchema.BundleValid (bundleOf items)) :
    (validateReveal (defaultCodec fun _ => riskBundleHash) "2026-01-05" riskSchemaId
      currentVersionKey (textOf items) (toHex riskNonce) (some riskBundleHash) "5Miner" 35 30 40
      ["3"]).accepted = true :=
  validateReveal_accepted_iff.mpr ⟨rfl, by decide, riskNonce, _,
    admitted_of_valid defaultRegistry_risk bounded_riskSchema valid (by simp [bundleOf])
      riskUniverse_stored inside_bundleOf "5Miner" rfl⟩

theorem readBundle_textOf (valid : riskSchema.BundleValid (bundleOf items)) :
    readBundle riskSchema (textOf items) = some (riskSchema.canonical (bundleOf items)) :=
  readBundle_dumps bounded_riskSchema valid (short_of_members riskUniverse_stored inside_bundleOf)

theorem riskItems_valid : ∀ item ∈ riskItems, riskSchema.OutputValid item := by
  intro item listed
  obtain ⟨cell, known, rfl⟩ := List.mem_map.mp listed
  exact riskItem_valid known

theorem surerItems_valid : ∀ item ∈ surerItems, riskSchema.OutputValid item := by
  intro item listed
  obtain ⟨source, known, rfl⟩ := List.mem_map.mp listed
  have valid := riskItems_valid source known
  obtain ⟨⟨output, horizon⟩, -, rfl⟩ := List.mem_map.mp known
  refine ⟨by norm_num [maxConfidenceBps], valid.reasonCodes, valid.horizon, ?_⟩
  cases output <;> rfl

end Texts

theorem riskItems_reverse_valid : riskSchema.BundleValid (bundleOf riskItems.reverse) :=
  bundleOf_valid (fun item listed => riskItems_valid item (List.mem_reverse.mp listed)) (by decide)

theorem rows_reverse (items : List (OutputValue RiskOutput)) :
    rows (bundleOf items.reverse) = rows (bundleOf items) := by
  ext row
  simp [rows, bundleOf]

/-- The bundle's outputs in reverse make the same text; with other confidences they do not. -/
theorem accepted_text_eq_iff_reversed :
    riskItems.reverse.map riskCell ≠ riskItems.map riskCell ∧
      textOf riskItems.reverse = textOf riskItems ∧ textOf riskItems ≠ textOf surerItems := by
  have valid := bundleOf_valid riskItems_valid (by decide)
  have reversed := riskItems_reverse_valid
  have surer := bundleOf_valid surerItems_valid (by decide)
  refine ⟨by decide, ?_, ?_⟩
  · obtain ⟨bundle, bundle', read, read', same⟩ :=
      accepted_text_eq_iff (textOf_accepted reversed) (textOf_accepted valid)
    cases (readBundle_textOf reversed).symm.trans read
    cases (readBundle_textOf valid).symm.trans read'
    refine same.mpr ⟨rfl, ?_⟩
    rw [rows_canonical, rows_canonical, rows_reverse]
  · intro equal
    obtain ⟨bundle, bundle', read, read', same⟩ :=
      accepted_text_eq_iff (textOf_accepted valid) (textOf_accepted surer)
    cases (readBundle_textOf valid).symm.trans read
    cases (readBundle_textOf surer).symm.trans read'
    have rowsSame := (same.mp equal).2
    rw [rows_canonical, rows_canonical] at rowsSame
    have first : rowOf 3 (riskItem (.maxDrawdown, horizon5dSeconds)) ∈ rows (bundleOf surerItems) :=
      rowsSame ▸ ⟨_, List.mem_singleton_self _, _, List.mem_map_of_mem (by decide), rfl⟩
    obtain ⟨asset, member, item, listed, row⟩ := first
    cases List.mem_singleton.mp member
    obtain ⟨source, -, rfl⟩ := List.mem_map.mp listed
    have confidence : (6000 : ℤ) = 5000 := congrArg SubmittedRow.confidenceBps row
    exact absurd confidence (by decide)

/-- The reversed bundle gets through, and its text is the one of the bundle. -/
theorem miner_to_validator_round_trip_reversed :
    (∃ assembled, assembleBundle (defaultCodec fun _ => riskBundleHash)
        (riskSchema.canonicalBundle (bundleOf riskItems.reverse)) "5Miner" riskNonce =
          .ok assembled ∧
      RoundTrips (fun _ => riskBundleHash) ["3"] (bundleOf riskItems.reverse) "5Miner" assembled) ∧
    textOf riskItems.reverse = textOf riskItems := by
  have valid := bundleOf_valid riskItems_valid (by decide)
  have reversed := riskItems_reverse_valid
  obtain ⟨through, same⟩ := @miner_to_validator_round_trip (fun _ => riskBundleHash)
    (fun _ => by decide +kernel) [3] ["3"] riskUniverse_stored (by decide)
  refine ⟨through _ reversed inside_bundleOf "5Miner" riskNonce rfl, ?_⟩
  refine same _ _ _ _ ⟨_, _, _, _, _, _, _, _, _, _, textOf_accepted reversed⟩
    ⟨_, _, _, _, _, _, _, _, _, _, textOf_accepted valid⟩ (readBundle_textOf reversed)
    (readBundle_textOf valid) rfl ?_
  rw [rows_canonical, rows_canonical, rows_reverse]

end Endure.Protocol
