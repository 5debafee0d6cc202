import Endure.Assessment.Schemas
import Endure.Assessment.WireRoundTrip
import Endure.Library.JsonReader

/-!
# The registry and the wire codec

`default_registry` of `endure/assessment/registry.py` and the serialization of
`endure/protocol/canonical.py`, which together give the codec that validation works with. The hash
is a parameter.
-/

namespace Endure.Assessment

open Library Endure.Protocol Endure.Storage

/-! ### Canonical serialization -/

mutual

/-- `_validate`: floats are not canonicalizable. -/
def validateNode : Json → Except String Unit
  | .float _ => .error "float values are not canonicalizable; encode bps as integers"
  | .list items => validateItems items
  | .dict entries => validateEntries entries
  | _ => .ok ()

def validateItems : List Json → Except String Unit
  | [] => .ok ()
  | item :: rest => do
    validateNode item
    validateItems rest

def validateEntries : List (String × Json) → Except String Unit
  | [] => .ok ()
  | (_, value) :: rest => do
    validateNode value
    validateEntries rest

end

/-- The canonical bytes of a payload without floats. -/
def canonicalBundleBytes (payload : Json) : Except String (List UInt8) := do
  validateNode payload
  return encode payload.dumps

/-! ### Membership -/

/-- The netuid of one asset of a payload. -/
def payloadNetuid : Json → Option ℤ
  | .dict entries =>
    match entries.lookup "netuid" with
    | some (.int netuid) => some netuid
    | _ => none
  | _ => none

/-- The netuids of the assets of a payload. -/
def payloadNetuids : Json → List ℤ
  | .dict entries =>
    match entries.lookup "assets" with
    | some (.list assets) => assets.filterMap payloadNetuid
    | _ => []
  | _ => []

/-- A bundle of a schema names members of the universe; a bundle of another one is not judged. -/
def membershipValid (schemaId : String) (bundle : CanonicalBundle Json) (tickers : List String) :
    Bool :=
  if bundle.schemaId ≠ schemaId then true
  else validateNetuidMembership (payloadNetuids bundle.toCanonicalPayload) tickers

/-! ### The registry -/

/-- The entry of a schema. -/
def registryEntry {Output : Type} (schema : SubmissionSchema Output) : SchemaRegistryEntry Json where
  modelValidate := schema.modelValidate
  bundleMembershipValid := some (membershipValid schema.schemaId)

@[simp] theorem registryEntry_modelValidate {Output : Type} (schema : SubmissionSchema Output)
    (loaded : Json) : (registryEntry schema).modelValidate loaded =
      (schema.validateBundle loaded).map fun bundle => some (schema.canonicalBundle bundle) := rfl

@[simp] theorem registryEntry_bundleMembershipValid {Output : Type}
    (schema : SubmissionSchema Output) :
    (registryEntry schema).bundleMembershipValid = some (membershipValid schema.schemaId) := rfl

/-- `default_registry`: the schemas known to this build. -/
def defaultRegistry (schemaId : String) : Option (SchemaRegistryEntry Json) :=
  [(forgeLendingSchemaId, registryEntry lendingSchema),
    (riskSchemaId, registryEntry riskSchema)].lookup schemaId

/-- Validation over JSON texts with some registry and some hash. -/
def wireCodec (registry : String → Option (SchemaRegistryEntry Json))
    (blake2b : List UInt8 → String) : Codec Json where
  registry := registry
  loads := Json.loads maxStrDigits
  canonicalBundleBytes payload := encode payload.dumps
  blake2b := blake2b

section WireCodec

variable (registry : String → Option (SchemaRegistryEntry Json)) (blake2b : List UInt8 → String)

@[simp] theorem wireCodec_registry : (wireCodec registry blake2b).registry = registry := rfl

@[simp] theorem wireCodec_loads :
    (wireCodec registry blake2b).loads = Json.loads maxStrDigits := rfl

@[simp] theorem wireCodec_canonicalBundleBytes (payload : Json) :
    (wireCodec registry blake2b).canonicalBundleBytes payload = encode payload.dumps := rfl

@[simp] theorem wireCodec_blake2b : (wireCodec registry blake2b).blake2b = blake2b := rfl

end WireCodec

/-- The codec of this build. -/
def defaultCodec (blake2b : List UInt8 → String) : Codec Json := wireCodec defaultRegistry blake2b

theorem defaultRegistry_risk : defaultRegistry riskSchemaId = some (registryEntry riskSchema) := by
  rw [defaultRegistry, List.lookup_cons, List.lookup_cons_self]
  rfl

/-- The schemas of the registry. -/
theorem defaultRegistry_cases {schemaId : String} {entry : SchemaRegistryEntry Json}
    (known : defaultRegistry schemaId = some entry) :
    schemaId = forgeLendingSchemaId ∧ entry = registryEntry lendingSchema ∨
      schemaId = riskSchemaId ∧ entry = registryEntry riskSchema := by
  rw [defaultRegistry, List.lookup_cons, List.lookup_cons] at known
  split at known
  · next same =>
    cases known
    exact .inl ⟨beq_iff_eq.mp same, rfl⟩
  · split at known
    · next same =>
      cases known
      exact .inr ⟨beq_iff_eq.mp same, rfl⟩
    · cases known

/-! ### What validated payloads are -/

/-- An object whose text is read back, whatever limit the integers of the reader have. -/
structure Canonicalizable (limit : ℕ) (payload : Json) : Prop where
  isDict : payload.IsDict
  readable : payload.Readable limit

mutual

/-- A payload that is read back is canonicalizable. -/
theorem validateNode_of_readable {limit : ℕ} : (value : Json) → value.Readable limit →
    validateNode value = .ok ()
  | .null, _ => by rw [validateNode] <;> simp
  | .bool _, _ => by rw [validateNode] <;> simp
  | .int _, _ => by rw [validateNode] <;> simp
  | .float _, readable => by rw [Json.Readable] at readable; exact readable.elim
  | .str _, _ => by rw [validateNode] <;> simp
  | .list items, readable => by
    rw [Json.Readable] at readable
    rw [validateNode]
    exact validateItems_of_readable items readable
  | .dict entries, readable => by
    rw [Json.Readable] at readable
    rw [validateNode]
    exact validateEntries_of_readable entries readable.2

theorem validateItems_of_readable {limit : ℕ} : (items : List Json) →
    Json.ReadableItems limit items → validateItems items = .ok ()
  | [], _ => rfl
  | item :: rest, readable => by
    rw [Json.ReadableItems] at readable
    rw [validateItems, validateNode_of_readable item readable.1]
    exact validateItems_of_readable rest readable.2

theorem validateEntries_of_readable {limit : ℕ} : (entries : List (String × Json)) →
    Json.ReadableEntries limit entries → validateEntries entries = .ok ()
  | [], _ => rfl
  | (_, value) :: rest, readable => by
    rw [Json.ReadableEntries] at readable
    rw [validateEntries, validateNode_of_readable value readable.1]
    exact validateEntries_of_readable rest readable.2

end

/-- Serialization does not fail on a payload that is read back. -/
theorem canonicalBundleBytes_of_canonicalizable {limit : ℕ} {payload : Json}
    (canonical : Canonicalizable limit payload) :
    canonicalBundleBytes payload = .ok (encode payload.dumps) := by
  rw [canonicalBundleBytes, validateNode_of_readable payload canonical.readable]
  rfl

namespace SubmissionSchema

variable {Output : Type} {schema : SubmissionSchema Output}

theorem payloadNetuids_toCanonicalPayload (bundle : SubmissionBundle Output) :
    payloadNetuids (schema.toCanonicalPayload bundle) =
      (sortBy AssetSubmission.netuid bundle.assets).map AssetSubmission.netuid := by
  have found : payloadNetuids (schema.toCanonicalPayload bundle) =
      (schema.canonicalAssetsPayload bundle.assets).filterMap payloadNetuid := rfl
  have each (assets : List (AssetSubmission Output)) :
      (assets.map schema.assetPayload).filterMap payloadNetuid =
        assets.map AssetSubmission.netuid := by
    rw [List.filterMap_map, ← List.filterMap_eq_map]
    rfl
  rw [found]
  exact each _

/-- The members are asked of the netuids that a bundle names. -/
theorem membershipValid_canonicalBundle {bundle : SubmissionBundle Output}
    (named : bundle.schemaId = schema.schemaId) (tickers : List String) :
    membershipValid schema.schemaId (schema.canonicalBundle bundle) tickers =
      validateNetuidMembership (bundle.assets.map AssetSubmission.netuid) tickers := by
  have same : ¬(schema.canonicalBundle bundle).schemaId ≠ schema.schemaId := not_not.mpr named
  rw [membershipValid, if_neg same, canonicalBundle, payloadNetuids_toCanonicalPayload,
    validateNetuidMembership, validateNetuidMembership]
  cases parseUniverseMembers tickers with
  | none => rfl
  | some members =>
    exact ((perm_sortBy AssetSubmission.netuid bundle.assets).map AssetSubmission.netuid).all_eq

/-- The payload of a bundle whose integers are short enough is read back. -/
theorem canonicalizable_toCanonicalPayload {limit : ℕ} {bundle : SubmissionBundle Output}
    (short : ∀ asset ∈ bundle.assets, (Json.int asset.netuid).Readable limit ∧
      ∀ item ∈ asset.outputs, (Json.int item.value).Readable limit ∧
        (Json.int item.confidenceBps).Readable limit ∧
          (Json.int item.horizonSeconds).Readable limit) :
    Canonicalizable limit (schema.toCanonicalPayload bundle) := by
  refine ⟨⟨_, rfl⟩, ?_⟩
  have output (item : OutputValue Output) (value : (Json.int item.value).Readable limit)
      (confidence : (Json.int item.confidenceBps).Readable limit)
      (horizon : (Json.int item.horizonSeconds).Readable limit) :
      (schema.outputPayload item).Readable limit := by
    have codes : Json.ReadableItems limit (item.reasonCodes.map Json.str) := by
      rw [Json.readableItems_iff]
      intro code member
      obtain ⟨text, -, rfl⟩ := List.mem_map.mp member
      simp [Json.Readable]
    simp only [Json.Readable] at value confidence horizon
    simp [outputPayload, Json.Readable, Json.ReadableEntries, codes, value, confidence, horizon]
  have asset (asset : AssetSubmission Output) (member : asset ∈ bundle.assets) :
      (schema.assetPayload asset).Readable limit := by
    have outputs : Json.ReadableItems limit
        ((sortBy schema.outputKey asset.outputs).map schema.outputPayload) := by
      rw [Json.readableItems_iff]
      intro payload listed
      obtain ⟨item, item_mem, rfl⟩ := List.mem_map.mp listed
      have ints := (short asset member).2 item (mem_sortBy.mp item_mem)
      exact output item ints.1 ints.2.1 ints.2.2
    have netuid := (short asset member).1
    simp only [Json.Readable] at netuid
    simp [assetPayload, Json.Readable, Json.ReadableEntries, outputs, netuid]
  have assets : Json.ReadableItems limit (schema.canonicalAssetsPayload bundle.assets) := by
    rw [Json.readableItems_iff]
    intro payload listed
    obtain ⟨source, source_mem, rfl⟩ := List.mem_map.mp listed
    exact asset source (mem_sortBy.mp source_mem)
  simp [toCanonicalPayload, Json.Readable, Json.ReadableEntries, assets]

end SubmissionSchema

end Endure.Assessment
