import Endure.Assessment.Registry
import Endure.Assessment.WireSize
import Endure.Protocol.Bundles

/-!
# Admitted reveals

What an accepted reveal rests on: the caps, the nonce, the commitment it opens and the bundle that
the schema of its round reads from its text. What a miner assembles from a valid bundle is admitted.
-/

namespace Endure.Protocol

open Library Library.Checked Endure.Assessment Endure.Scoring Endure.Storage

/-! ### What an accepted reveal rests on -/

section Accepted

variable {payload : Type} {codec : Codec payload} {roundId schemaId bundleJson nonceHex : String}
variable {specVersion now revealOpen revealClose : ℤ} {committed : String} {minerHotkey : Hotkey}
variable {tickers : List String}

/-- A bundle that the schema of an entry reads from a text, for a round and its universe. -/
structure Reads (codec : Codec payload) (entry : SchemaRegistryEntry payload)
    (roundId schemaId bundleJson : String) (tickers : List String)
    (bundle : CanonicalBundle payload) : Prop where
  parsed : ∃ loaded, codec.loads bundleJson = some loaded ∧
    entry.modelValidate loaded = .ok (some bundle)
  roundId : bundle.roundId = roundId
  schemaId : bundle.schemaId = schemaId
  canonical : codec.canonicalBundleBytes bundle.toCanonicalPayload = encode bundleJson
  members : ∀ valid ∈ entry.bundleMembershipValid, valid bundle tickers = true

theorem validateRevealBundle_accepted {entry : SchemaRegistryEntry payload} :
    (validateRevealBundle codec entry roundId schemaId bundleJson tickers).accepted = true ↔
      ∃ bundle, Reads codec entry roundId schemaId bundleJson tickers bundle := by
  rw [validateRevealBundle]
  cases loaded : codec.loads bundleJson with
  | none =>
    refine iff_of_false (by simp) ?_
    rintro ⟨bundle, ⟨parsed, same, -⟩, -⟩
    rw [loaded] at same
    cases same
  | some value =>
    cases modelled : entry.modelValidate value with
    | error errors =>
      refine iff_of_false (by simp [modelled]) ?_
      rintro ⟨bundle, ⟨parsed, same, done⟩, -⟩
      rw [loaded] at same
      cases same
      rw [modelled] at done
      cases done
    | ok parsed =>
      cases parsed with
      | none =>
        refine iff_of_false (by simp [modelled]) ?_
        rintro ⟨bundle, ⟨parsed, same, done⟩, -⟩
        rw [loaded] at same
        cases same
        rw [modelled] at done
        cases done
      | some bundle =>
        simp only [modelled]
        constructor
        -- the checks left are the fields of what is read
        · intro accepted
          split_ifs at accepted with named canonical members
          · cases accepted
          · cases accepted
          · cases accepted
          · rw [not_or, not_not, not_not] at named
            refine ⟨bundle, ⟨value, loaded, modelled⟩, named.1, named.2, not_not.mp canonical, ?_⟩
            intro valid given
            by_contra invalid
            refine members ?_
            rw [Option.mem_def.mp given, Option.any_some]
            simpa using invalid
        · rintro ⟨other, ⟨parsed, same, done⟩, roundIds, schemaIds, canonical, members⟩
          rw [loaded] at same
          cases same
          rw [modelled] at done
          cases done
          have allowed : ¬entry.bundleMembershipValid.any (fun valid => !valid bundle tickers) := by
            cases given : entry.bundleMembershipValid with
            | none => simp
            | some valid => simp [members valid given]
          rw [if_neg (by simp [roundIds, schemaIds]), if_neg (not_not.mpr canonical),
            if_neg allowed]
          rfl

/-- What an accepted reveal of a committed hash rests on. -/
structure Admitted (codec : Codec payload) (roundId schemaId bundleJson nonceHex committed : String)
    (minerHotkey : Hotkey) (tickers : List String) (nonce : List UInt8)
    (bundle : CanonicalBundle payload) : Prop where
  canonicalRound : isCanonicalRoundId roundId = true
  size : revealPayloadRejection bundleJson nonceHex = none
  hex : fromHex nonceHex.toList = some nonce
  nonceBytes : commitNonceBytes ≤ nonce.length
  opens : commitHash codec (encode bundleJson) nonce minerHotkey = committed
  reads : ∃ entry, codec.registry schemaId = some entry ∧
    Reads codec entry roundId schemaId bundleJson tickers bundle

/-- A reveal of a committed hash is accepted in its window when it is admitted. -/
theorem validateReveal_accepted_iff :
    (validateReveal codec roundId schemaId specVersion bundleJson nonceHex (some committed)
      minerHotkey now revealOpen revealClose tickers).accepted = true ↔
      specVersion = currentVersionKey ∧ (revealOpen ≤ now ∧ now ≤ revealClose) ∧
        ∃ nonce bundle, Admitted codec roundId schemaId bundleJson nonceHex committed minerHotkey
          tickers nonce bundle := by
  constructor
  -- each check that fails rejects with its own code, so accepting passes them all
  · intro accepted
    rw [validateReveal] at accepted
    split at accepted
    · cases accepted
    next canonical =>
    split at accepted
    · cases accepted
    next version =>
    cases known : codec.registry schemaId with
    | none =>
      rw [known] at accepted
      cases accepted
    | some entry =>
      cases size : revealPayloadRejection bundleJson nonceHex with
      | some code =>
        rw [known, size] at accepted
        cases accepted
      | none =>
        simp only [known, size] at accepted
        split at accepted
        · cases accepted
        next inside =>
        rw [validateRevealPreimage] at accepted
        cases hex : fromHex nonceHex.toList with
        | none =>
          rw [hex] at accepted
          cases accepted
        | some nonce =>
          simp only [hex] at accepted
          split at accepted
          · cases accepted
          next short =>
          split at accepted
          · cases accepted
          next opens =>
          obtain ⟨bundle, reads⟩ := validateRevealBundle_accepted.mp accepted
          exact ⟨not_not.mp version, not_not.mp inside, nonce, bundle, not_not.mp canonical, size,
            hex, not_lt.mp short, not_not.mp opens, entry, known, reads⟩
  · rintro ⟨version, inside, nonce, bundle, admitted⟩
    obtain ⟨entry, known, reads⟩ := admitted.reads
    have bundled := validateRevealBundle_accepted.mpr ⟨bundle, reads⟩
    rw [validateReveal, if_neg (not_not.mpr admitted.canonicalRound), if_neg (not_not.mpr version)]
    simp only [known, admitted.size]
    rw [if_neg (not_not.mpr inside), validateRevealPreimage]
    simp only [admitted.hex]
    rw [if_neg (not_lt.mpr admitted.nonceBytes), if_neg (not_not.mpr admitted.opens)]
    exact bundled

end Accepted

/-! ### Assembly -/

/-- The bytes that a commit hash is taken over. -/
def preimage (bundleJson : String) (nonce : List UInt8) (minerHotkey : Hotkey) : List UInt8 :=
  encode bundleJson ++ nonce ++ encode minerHotkey

theorem decode_encode (value : String) : decode (encode value) = some value := by
  have bytes : (⟨(encode value).toArray⟩ : ByteArray) = value.toByteArray := by
    ext1
    exact Array.toArray_toList
  rw [decode, bytes, String.fromUTF8?, dif_pos value.isValidUTF8]
  rfl

theorem length_toHex (nonce : List UInt8) : (toHex nonce).length = 2 * nonce.length := by
  rw [toHex, String.length_ofList]
  induction nonce with
  | nil => rfl
  | cons byte rest ih =>
    rw [List.flatMap_cons, List.length_append, ih, List.length_cons]
    simp only [List.length_cons, List.length_nil]
    omega

section Assembly

variable {Output : Type} {schema : SubmissionSchema Output} {bundle : SubmissionBundle Output}
variable {registry : String → Option (SchemaRegistryEntry Json)} {blake2b : List UInt8 → String}

/-- What assembly makes of a bundle. -/
def assembledSubmission (blake2b : List UInt8 → String) (payload : Json) (minerHotkey : Hotkey)
    (nonce : List UInt8) : AssembledSubmission :=
  ⟨payload.dumps, toHex nonce, blake2b (preimage payload.dumps nonce minerHotkey)⟩

theorem assembleBundle_eq_ok (minerHotkey : Hotkey) {nonce : List UInt8}
    (length : nonce.length = commitNonceBytes) :
    assembleBundle (wireCodec registry blake2b) (schema.canonicalBundle bundle) minerHotkey nonce =
      .ok (assembledSubmission blake2b (schema.toCanonicalPayload bundle) minerHotkey nonce) := by
  rw [assembleBundle, if_neg (not_not.mpr length)]
  simp only [wireCodec_canonicalBundleBytes, SubmissionSchema.canonicalBundle, decode_encode]
  rfl

/-- The payload of a valid bundle is canonicalizable where its netuids are short enough. -/
theorem canonicalizable_of_valid (bounded : schema.Bounded) (valid : schema.BundleValid bundle)
    (short : ∀ asset ∈ bundle.assets, (Json.digits asset.netuid).length ≤ maxStrDigits) :
    Canonicalizable maxStrDigits (schema.toCanonicalPayload bundle) := by
  apply SubmissionSchema.canonicalizable_toCanonicalPayload
  intro asset member
  simp only [Json.Readable]
  refine ⟨.inr (short asset member), ?_⟩
  intro item listed
  have itemValid := (valid.each asset member).each item listed
  obtain ⟨-, minimum, maximum⟩ := itemValid.inside
  obtain ⟨most, given, small⟩ := bounded.maxValue item.output
  have nonneg := (bounded.minValue item.output).trans minimum
  -- every number of an output is bounded by the schema; only netuids are not
  have value := Json.length_digits_le nonneg ((maximum most given).trans_lt small) (by omega)
  have confidence : (Json.digits item.confidenceBps).length ≤ 5 := by
    refine Json.length_digits_le itemValid.confidence.1
      (itemValid.confidence.2.trans_lt ?_) (by omega)
    decide
  have inside := bounded.horizon _ itemValid.horizon
  have horizon := Json.length_digits_le inside.1 inside.2 (by omega)
  have limit : 31 ≤ maxStrDigits := by decide
  exact ⟨.inr (by omega), .inr (by omega), .inr (by omega)⟩

/-- The netuids of a stored whitelist are short enough to be read. -/
theorem short_of_members {texts : UniverseTexts} {netuids : List ℕ} {members : List String}
    (stored : canonicalUniverseMembers texts netuids = .ok members)
    {assets : List (AssetSubmission Output)}
    (inside : ∀ asset ∈ assets, ∃ netuid ∈ netuids, (netuid : ℤ) = asset.netuid) :
    ∀ asset ∈ assets, (Json.digits asset.netuid).length ≤ maxStrDigits := by
  intro asset member
  obtain ⟨netuid, listed, same⟩ := inside asset member
  rw [← same]
  exact (parseUniverseMembers_canonical stored).2.2 netuid listed

/-- An assembled text is read by the schema's entry as the bundle in canonical order. -/
theorem reads_of_valid (bounded : schema.Bounded) (valid : schema.BundleValid bundle)
    (short : ∀ asset ∈ bundle.assets, (Json.digits asset.netuid).length ≤ maxStrDigits)
    {members : List String}
    (inside : validateNetuidMembership
      ((schema.canonical bundle).assets.map AssetSubmission.netuid) members = true) :
    Reads (wireCodec registry blake2b) (registryEntry schema) bundle.roundId bundle.schemaId
      (schema.toCanonicalPayload bundle).dumps members
      (schema.canonicalBundle (schema.canonical bundle)) where
  parsed := by
    have loaded := Json.loads_dumps (canonicalizable_of_valid bounded valid short).readable
    have read := SubmissionSchema.validateBundle_toCanonicalPayload valid
    refine ⟨(schema.toCanonicalPayload bundle).sorted, ?_, ?_⟩
    · rw [wireCodec_loads]
      exact loaded
    · rw [registryEntry_modelValidate, read]
      rfl
  roundId := rfl
  schemaId := rfl
  canonical := by
    rw [wireCodec_canonicalBundleBytes, SubmissionSchema.canonicalBundle,
      SubmissionSchema.toCanonicalPayload_canonical]
  members := by
    intro check given
    rw [registryEntry_bundleMembershipValid, Option.mem_def, Option.some.injEq] at given
    rw [← given, SubmissionSchema.membershipValid_canonicalBundle
      (SubmissionSchema.bundleValid_canonical valid).schemaId]
    exact inside

/-- A valid bundle has no more assets than the universe has members. -/
theorem length_assets_le (valid : schema.BundleValid bundle) {netuids : List ℕ}
    (inside : ∀ asset ∈ bundle.assets, ∃ netuid ∈ netuids, (netuid : ℤ) = asset.netuid) :
    bundle.assets.length ≤ netuids.length := by
  have within : (bundle.assets.map AssetSubmission.netuid).Subperm (netuids.map Int.ofNat) := by
    refine (SubmissionSchema.nodup_netuids valid).subperm fun netuid listed => ?_
    obtain ⟨asset, member, rfl⟩ := List.mem_map.mp listed
    obtain ⟨netuid, known, same⟩ := inside asset member
    exact List.mem_map.mpr ⟨netuid, known, same⟩
  have lengths := within.length_le
  rwa [List.length_map, List.length_map] at lengths

/-- What is assembled is within the caps on reveals. -/
theorem revealPayloadRejection_of_valid (bounded : schema.Bounded)
    (valid : schema.BundleValid bundle) (few : bundle.assets.length ≤ 15)
    (short : ∀ asset ∈ bundle.assets, (Json.digits asset.netuid).length ≤ maxStrDigits)
    {nonce : List UInt8} (length : nonce.length = commitNonceBytes) :
    revealPayloadRejection (schema.toCanonicalPayload bundle).dumps (toHex nonce) = none := by
  have size := SubmissionSchema.utf8ByteSize_dumps_le_cap bounded valid few short
  have nonceFits : ¬maxNonceBytes * 2 < (toHex nonce).length := by
    rw [length_toHex, length]
    decide
  rw [revealPayloadRejection, if_neg]
  exact not_or.mpr ⟨not_lt.mpr size, nonceFits⟩

/-- An assembled submission of a registered schema is admitted against its own hash. -/
theorem admitted_of_valid (known : registry schema.schemaId = some (registryEntry schema))
    (bounded : schema.Bounded) (valid : schema.BundleValid bundle)
    (few : bundle.assets.length ≤ 15) {texts : UniverseTexts} {netuids : List ℕ}
    {members : List String} (stored : canonicalUniverseMembers texts netuids = .ok members)
    (inside : ∀ asset ∈ bundle.assets, ∃ netuid ∈ netuids, (netuid : ℤ) = asset.netuid)
    (minerHotkey : Hotkey) {nonce : List UInt8} (length : nonce.length = commitNonceBytes) :
    Admitted (wireCodec registry blake2b) bundle.roundId bundle.schemaId
      (schema.toCanonicalPayload bundle).dumps (toHex nonce)
      (blake2b (preimage (schema.toCanonicalPayload bundle).dumps nonce minerHotkey)) minerHotkey
      members nonce (schema.canonicalBundle (schema.canonical bundle)) where
  canonicalRound := valid.roundId
  size := revealPayloadRejection_of_valid bounded valid few
    (short_of_members stored inside) length
  hex := fromHex_toHex nonce
  nonceBytes := length.ge
  opens := rfl
  reads := by
    refine ⟨registryEntry schema, ?_, reads_of_valid bounded valid (short_of_members stored inside) ?_⟩
    · rw [valid.schemaId]
      exact known
    · apply (validateNetuidMembership_eq_true_iff stored _).mpr
      intro netuid listed
      rw [SubmissionSchema.netuids_canonical] at listed
      obtain ⟨asset, sorted, rfl⟩ := List.mem_map.mp listed
      exact inside asset (mem_sortBy.mp sorted)

end Assembly

/-! ### A bundle of one subnet -/

/-- A predicted output of a bundle. -/
def riskItem (cell : RiskOutput × ℤ) : OutputValue RiskOutput where
  output := cell.1
  value :=
    match cell.1 with
    | .maxDrawdown => 500
    | .realizedVolatility => 2000
    | .twapPrice => 7
    | .liquidityDepth => 1000
  confidenceBps := 5000
  reasonCodes := []
  horizonSeconds := cell.2
  unit := (riskSpecsByOutput cell.1).unit

/-- A bundle for one subnet over both horizons. -/
def riskBundle : SubmissionBundle RiskOutput :=
  ⟨"2026-01-05", riskSchemaId, [⟨3, riskCells.map riskItem⟩]⟩

theorem riskItem_valid {cell : RiskOutput × ℤ} (known : cell ∈ riskCells) :
    riskSchema.OutputValid (riskItem cell) where
  confidence := by simp [riskItem, maxConfidenceBps]
  reasonCodes := rfl
  horizon := by
    have horizon := (List.mem_product.mp known).2
    simpa [riskSchema, riskItem] using horizon
  bounds := by
    obtain ⟨output, horizon⟩ := cell
    cases output <;> rfl

theorem riskBundle_valid : riskSchema.BundleValid riskBundle where
  roundId := by decide +kernel
  schemaId := rfl
  each := by
    intro asset member
    cases List.mem_singleton.mp member
    refine ⟨by decide, ?_, by decide, rfl⟩
    intro item listed
    obtain ⟨cell, known, rfl⟩ := List.mem_map.mp listed
    exact riskItem_valid known
  assets := by decide

def riskNonce : List UInt8 := [0, 1, 2, 3, 4, 5, 6, 7, 8, 9, 10, 11, 12, 13, 14, 15]

/-- The digest of the bundle's text with the nonce and the hotkey `5Miner`. -/
def riskBundleHash : String := "cff47338f683302e4a62f9cd8212e9270c9e04d227e4c225bbcfb5edd017e7de"

/-- The bundle's text. -/
def riskText : String := (riskSchema.toCanonicalPayload riskBundle).dumps

theorem riskUniverse_stored : canonicalUniverseMembers alphaRiskUniverseTexts [3] = .ok ["3"] := by
  decide +kernel

theorem riskBundle_inside :
    ∀ asset ∈ riskBundle.assets, ∃ netuid ∈ ([3] : List ℕ), (netuid : ℤ) = asset.netuid := by
  simp [riskBundle]

/-- The bundle is accepted against its digest. -/
theorem riskText_accepted {now revealOpen revealClose : ℤ}
    (inside : revealOpen ≤ now ∧ now ≤ revealClose) :
    (validateReveal (defaultCodec fun _ => riskBundleHash) "2026-01-05" riskSchemaId
      currentVersionKey riskText (toHex riskNonce) (some riskBundleHash) "5Miner" now revealOpen
      revealClose ["3"]).accepted = true :=
  validateReveal_accepted_iff.mpr ⟨rfl, inside, riskNonce, _,
    admitted_of_valid defaultRegistry_risk bounded_riskSchema riskBundle_valid (by decide)
      riskUniverse_stored riskBundle_inside "5Miner" rfl⟩

end Endure.Protocol
