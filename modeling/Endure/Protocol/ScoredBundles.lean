import Endure.Protocol.BackedReveals

/-!
# What is scored is well formed

Whatever miners send and whatever the operator does, every bundle that scoring or consensus is given
for a round parses and has one value in bounds for every output at every horizon of each of its
subnets, which are members of the round's universe.
-/

namespace Endure.Protocol

open Library Endure.Assessment Endure.Scoring Endure.Storage

/-- What scoring finds in the text of a bundle for a round. -/
structure ScoredBundle (round : RoundKey) (tickers : List String) (text : String)
    (bundle : SubmissionBundle RiskOutput) (values : Dict Coordinate ℤ) : Prop where
  read : readBundle riskSchema text = some bundle
  canonical : (riskSchema.toCanonicalPayload bundle).dumps = text
  roundId : bundle.roundId = round.roundId
  nonempty : bundle.assets ≠ []
  distinct : (bundle.assets.map AssetSubmission.netuid).Nodup
  members : ∀ asset ∈ bundle.assets, ∃ netuid : ℕ, (netuid : ℤ) = asset.netuid ∧
    Nat.repr netuid ∈ tickers
  extracted : riskBundleValues text = some values
  cells : ∀ asset ∈ bundle.assets, ∀ cell ∈ riskCells, ∃ value,
    values.get? (riskCoordinate asset.netuid cell.2 cell.1) = some value ∧
      (riskSpecsByOutput cell.1).minValue ≤ value ∧
        ∀ maximum ∈ (riskSpecsByOutput cell.1).maxValue, value ≤ maximum
  others : ∀ coordinate value, values.get? coordinate = some value → ∃ asset ∈ bundle.assets,
    ∃ cell ∈ riskCells, riskCoordinate asset.netuid cell.2 cell.1 = coordinate

/-! ### Members -/

/-- A netuid that passes is that of a ticker. -/
theorem ticker_of_validateNetuidMembership {netuids : List ℤ} {tickers : List String}
    (valid : validateNetuidMembership netuids tickers = true) {netuid : ℤ}
    (listed : netuid ∈ netuids) : ∃ member : ℕ, (member : ℤ) = netuid ∧ Nat.repr member ∈ tickers := by
  rw [validateNetuidMembership] at valid
  cases parsed : parseUniverseMembers tickers with
  | none =>
    rw [parsed] at valid
    cases valid
  | some members =>
    simp only [parsed, List.all_eq_true, List.any_eq_true, decide_eq_true_eq] at valid
    obtain ⟨member, known, same⟩ := valid netuid listed
    refine ⟨member, same, ?_⟩
    rw [← (parseUniverseMembers_eq_some_iff.mp parsed).1]
    exact List.mem_map_of_mem known

/-! ### Values -/

section Values

variable {bundle : SubmissionBundle RiskOutput} {values : Dict Coordinate ℤ}

/-- Every cell of an asset is submitted once, in the bounds of its output. -/
theorem value_of_cell (valid : riskSchema.BundleValid bundle) {asset : AssetSubmission RiskOutput}
    (member : asset ∈ bundle.assets) {cell : RiskOutput × ℤ} (known : cell ∈ riskCells) :
    ∃ value, Submits bundle.assets riskCoordinateFor (riskCoordinate asset.netuid cell.2 cell.1)
      value ∧ (riskSpecsByOutput cell.1).minValue ≤ value ∧
        ∀ maximum ∈ (riskSpecsByOutput cell.1).maxValue, value ≤ maximum := by
  have assetValid := valid.each asset member
  have listed := (((riskOutputsValid_iff _).mp assetValid.outputs).2 cell).mpr known
  obtain ⟨item, item_mem, rfl⟩ := List.mem_map.mp listed
  obtain ⟨-, minimum, maximum⟩ := (assetValid.each item item_mem).inside
  exact ⟨item.value, ⟨asset, member, item, item_mem, rfl, rfl⟩, minimum, maximum⟩

/-- A submitted value is that of a cell of an asset. -/
theorem cell_of_value (valid : riskSchema.BundleValid bundle) {coordinate : Coordinate} {value : ℤ}
    (submits : Submits bundle.assets riskCoordinateFor coordinate value) :
    ∃ asset ∈ bundle.assets, ∃ cell ∈ riskCells,
      riskCoordinate asset.netuid cell.2 cell.1 = coordinate := by
  obtain ⟨asset, member, item, listed, found, -⟩ := submits
  have cells := ((riskOutputsValid_iff _).mp (valid.each asset member).outputs).2
  exact ⟨asset, member, riskCell item, (cells _).mp (List.mem_map_of_mem listed),
    Option.some.inj found⟩

end Values

/-- What is admitted is scored. -/
theorem scoredBundle_of_admitted {blake2b : List UInt8 → String} {round : RoundKey}
    {text nonceHex committed : String} {hotkey : Hotkey} {tickers : List String}
    {nonce : List UInt8} {view : CanonicalBundle Json} (schema : round.schemaId = riskSchemaId)
    (admitted : Admitted (defaultCodec blake2b) round.roundId round.schemaId text nonceHex committed
      hotkey tickers nonce view) :
    ∃ bundle values, ScoredBundle round tickers text bundle values := by
  rw [schema] at admitted
  obtain ⟨bundle, read, valid, roundId, canonical, members⟩ := readBundle_of_admitted admitted
  -- one value a coordinate, so the dictionary loses none
  have functional := submits_functional valid
  refine ⟨bundle, submittedAssessmentValues bundle.assets riskCoordinateFor, read, canonical, roundId,
    ?_, SubmissionSchema.nodup_netuids valid, ?_, ?_, ?_, ?_⟩
  · intro empty
    have some := valid.assets
    simp [SubmissionSchema.assetsValid, empty] at some
  · intro asset member
    exact ticker_of_validateNetuidMembership members (List.mem_map_of_mem member)
  · rw [riskBundleValues, bundleValues, read]
    rfl
  · intro asset member cell known
    obtain ⟨value, submits, bounds⟩ := value_of_cell valid member known
    exact ⟨value, (get?_submittedAssessmentValues functional).mpr submits, bounds⟩
  · intro coordinate value found
    exact cell_of_value valid ((get?_submittedAssessmentValues functional).mp found)

/-! ### Rounds -/

/-- Every bundle that is scored is that of an accepted row. -/
theorem accepted_of_scoringBundles {store : Store} (consistent : store.Consistent)
    {round : RoundKey} {hotkey : Hotkey} {bundleJson : Option String}
    (listed : (hotkey, bundleJson) ∈ store.scoringBundles round) :
    ∃ row, store.submissions.get? (round, hotkey) = some row ∧ row.verdict = .accepted ∧
      row.bundleJson = bundleJson := by
  refine Store.mem_acceptedBundles.mp ?_
  -- a closed round is scored from its snapshot, which is what was accepted
  by_cases closed : store.IsClosed round
  · rwa [Store.scoringBundles_of_closed closed, consistent.consensusBundles_eq closed] at listed
  · rw [Store.scoringBundles] at listed
    cases found : store.roundState round with
    | none => rwa [found] at listed
    | some state =>
      cases state with
      | «open» => rwa [found] at listed
      | revealed => exact absurd ⟨_, found, by simp⟩ closed
      | partiallyScored => exact absurd ⟨_, found, by simp⟩ closed
      | closed => exact absurd ⟨_, found, by simp⟩ closed

/-- **What is scored is well formed.** In every store that the handlers and the operator reach, every
bundle listed for scoring in an Alpha Risk round, open or closed, parses, is for that round, names
distinct subnets of the round's universe, and has exactly one value in bounds for every output at
every horizon of each of them and none elsewhere. -/
theorem scored_bundles_well_formed {blake2b : List UInt8 → String}
    {handlers : SubmissionHandlers Json} (codec : handlers.codec = defaultCodec blake2b)
    {store : Store} {acknowledged : List Acknowledgement}
    (reached : Reaches handlers store acknowledged) {round : RoundKey}
    (schema : round.schemaId = riskSchemaId) {hotkey : Hotkey} {bundleJson : Option String}
    (listed : (hotkey, bundleJson) ∈ store.scoringBundles round) :
    ∃ text snapshot bundle values, bundleJson = some text ∧
      store.universeFor round = some snapshot ∧
      ScoredBundle round snapshot.tickers text bundle values := by
  obtain ⟨consistent, backed⟩ := reached.sound
  obtain ⟨row, found, accepted, rfl⟩ := accepted_of_scoringBundles consistent listed
  obtain ⟨text, nonceHex, committed, backing⟩ := backed round hotkey row found accepted
  obtain ⟨snapshot, nonce, view, stored, admitted⟩ := backing.admitted
  rw [codec] at admitted
  obtain ⟨bundle, values, scored⟩ := scoredBundle_of_admitted schema admitted
  exact ⟨text, snapshot, bundle, values, backing.bundle, stored, scored⟩

/-- The bundle of one subnet. -/
theorem scored_bundles_well_formed_riskText :
    ∃ text snapshot bundle values, some riskAssembled.bundleJson = some text ∧
      (wireRevealed 10).2.universeFor ⟨"2026-01-05", riskSchemaId⟩ = some snapshot ∧
      ScoredBundle ⟨"2026-01-05", riskSchemaId⟩ snapshot.tickers text bundle values := by
  obtain ⟨acknowledged, reached⟩ := wireRevealed_reached 10
  obtain ⟨row, held, waits⟩ := wireRevealed_row (by decide : 0 < 10)
  have listed : ("5Miner", some riskAssembled.bundleJson) ∈
      (wireRevealed 10).2.scoringBundles ⟨"2026-01-05", riskSchemaId⟩ := by
    rw [Store.scoringBundles, waits.isOpen]
    exact Store.mem_acceptedBundles.mpr ⟨row, waits.row, held.accepted, held.bundle⟩
  exact scored_bundles_well_formed rfl reached rfl listed

end Endure.Protocol
