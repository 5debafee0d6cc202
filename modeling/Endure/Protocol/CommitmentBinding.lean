import Endure.Protocol.AdmittedReveals

/-!
# Commitments bind

A commit hash is taken over the bundle, the nonce and the hotkey with nothing between them. The
canonical texts of bundles form a prefix code, so the bytes can be split in one way only: two
reveals that open one hash are the same reveal, or their preimages are a collision of the hash.
-/

namespace Endure.Protocol

open Library Library.Checked Endure.Assessment Endure.Scoring

/-! ### One way to split a preimage -/

/-- Texts whose bytes start alike start alike. -/
theorem isPrefix_of_encode_append {first second : String} {rest : List UInt8}
    (same : encode first ++ rest = encode second) : first.toList <+: second.toList := by
  have bytes : first.toList.utf8Encode ++ (⟨rest.toArray⟩ : ByteArray) =
      second.toList.utf8Encode := by
    rw [String.utf8Encode_toList, String.utf8Encode_toList]
    ext1
    apply Array.toList_inj.mp
    rw [ByteArray.data_append, Array.toList_append]
    exact same
  exact List.isPrefix_of_utf8Encode_append_eq_utf8Encode _ bytes

theorem encode_injective : Function.Injective encode := by
  intro first second same
  have forth := isPrefix_of_encode_append ((List.append_nil _).trans same)
  have back := isPrefix_of_encode_append ((List.append_nil _).trans same.symm)
  exact String.toList_inj.mp (forth.eq_of_length_le back.length_le)

/-- What follows the canonical bytes of one payload does not turn them into those of another. -/
theorem dumps_eq_of_encode_append {limit : ℕ} {first second : Json}
    (canonical : Canonicalizable limit first) (canonical' : Canonicalizable limit second)
    {rest rest' : List UInt8} (same : encode first.dumps ++ rest = encode second.dumps ++ rest') :
    first.dumps = second.dumps := by
  rcases List.append_eq_append_iff.mp same with ⟨more, longer, -⟩ | ⟨more, longer, -⟩
  · exact Json.dumps_eq_of_isPrefix canonical.readable canonical'.readable canonical.isDict
      canonical'.isDict (isPrefix_of_encode_append longer.symm)
  · exact (Json.dumps_eq_of_isPrefix canonical'.readable canonical.readable canonical'.isDict
      canonical.isDict (isPrefix_of_encode_append longer.symm)).symm

/-- Payloads with one text have the same entries. -/
theorem perm_of_dumps_eq {limit : ℕ} {entries entries' : List (String × Json)}
    (readable : (Json.dict entries).Readable limit)
    (readable' : (Json.dict entries').Readable limit)
    (same : (Json.dict entries).dumps = (Json.dict entries').dumps) :
    (Json.sortedEntries entries).Perm (Json.sortedEntries entries') := by
  have read := Json.loads_dumps readable
  rw [same, Json.loads_dumps readable', Option.some.injEq, Json.sorted, Json.sorted,
    Json.dict.injEq] at read
  exact (perm_sortBy Prod.fst _).symm.trans (read ▸ perm_sortBy Prod.fst _)

/-- Two byte strings on which a hash collides. -/
def Collides (hash : List UInt8 → String) (first second : List UInt8) : Prop :=
  first ≠ second ∧ hash first = hash second

/-- A payload names the round and the schema of its bundle. -/
def Names (bundle : CanonicalBundle Json) : Prop :=
  ∃ assets, bundle.toCanonicalPayload = .dict [("round_id", .str bundle.roundId),
    ("schema_id", .str bundle.schemaId), ("assets", assets)]

/-- Every bundle that validates has a payload that names it and whose text is read back. -/
def CanonicalRegistry (registry : String → Option (SchemaRegistryEntry Json)) : Prop :=
  ∀ schemaId entry loaded bundle, registry schemaId = some entry →
    entry.modelValidate loaded = .ok (some bundle) →
      Canonicalizable 0 bundle.toCanonicalPayload ∧ Names bundle

theorem canonicalRegistry_default : CanonicalRegistry defaultRegistry := by
  have each {Output : Type} (schema : SubmissionSchema Output) (loaded : Json)
      (bundle : CanonicalBundle Json) (done : schema.modelValidate loaded = .ok (some bundle)) :
      Canonicalizable 0 bundle.toCanonicalPayload ∧ Names bundle := by
    obtain ⟨read, -, same⟩ := map_eq_ok.mp done
    cases same
    refine ⟨SubmissionSchema.canonicalizable_toCanonicalPayload ?_, _, rfl⟩
    simp [Json.Readable]
  intro schemaId entry loaded bundle known done
  rcases defaultRegistry_cases known with ⟨-, rfl⟩ | ⟨-, rfl⟩
  · exact each lendingSchema loaded bundle done
  · exact each riskSchema loaded bundle done

/-- Bundles whose payloads have one text are of one round and schema. -/
theorem ids_eq_of_dumps_eq {bundle bundle' : CanonicalBundle Json} (names : Names bundle)
    (names' : Names bundle') (canonical : Canonicalizable 0 bundle.toCanonicalPayload)
    (canonical' : Canonicalizable 0 bundle'.toCanonicalPayload)
    (same : bundle.toCanonicalPayload.dumps = bundle'.toCanonicalPayload.dumps) :
    bundle.roundId = bundle'.roundId ∧ bundle.schemaId = bundle'.schemaId := by
  obtain ⟨assets, payload⟩ := names
  obtain ⟨assets', payload'⟩ := names'
  have readable := canonical.readable
  have readable' := canonical'.readable
  rw [payload] at readable same
  rw [payload'] at readable' same
  -- sorting only permutes entries, so each id is among the other payload's entries
  have perm := perm_of_dumps_eq readable readable' same
  simp only [Json.sortedEntries, Json.sorted] at perm
  constructor
  · have found : ("round_id", Json.str bundle.roundId) ∈ _ := perm.mem_iff.mp (.head _)
    simpa using found
  · have found : ("schema_id", Json.str bundle.schemaId) ∈ _ :=
      perm.mem_iff.mp (.tail _ (.head _))
    simpa using found

section Binding

variable {registry : String → Option (SchemaRegistryEntry Json)} {blake2b : List UInt8 → String}

/-- The serialization that an admitted text is compared with does not fail. -/
theorem Admitted.canonicalBundleBytes (canonical : CanonicalRegistry registry)
    {roundId schemaId bundleJson nonceHex committed : String} {hotkey : Hotkey}
    {tickers : List String} {nonce : List UInt8} {bundle : CanonicalBundle Json}
    (admitted : Admitted (wireCodec registry blake2b) roundId schemaId bundleJson nonceHex committed
      hotkey tickers nonce bundle) :
    Endure.Assessment.canonicalBundleBytes bundle.toCanonicalPayload = .ok (encode bundleJson) := by
  obtain ⟨entry, known, reads⟩ := admitted.reads
  obtain ⟨loaded, -, done⟩ := reads.parsed
  rw [canonicalBundleBytes_of_canonicalizable (canonical _ _ _ _ known done).1]
  exact congrArg Except.ok reads.canonical

/-- Equal preimages of admitted reveals by hotkeys of one length are of one reveal. -/
theorem Admitted.eq_of_preimage (canonical : CanonicalRegistry registry)
    {roundId roundId' schemaId schemaId' bundleJson bundleJson' nonceHex nonceHex' committed
      committed' : String} {hotkey hotkey' : Hotkey} {tickers tickers' : List String}
    {nonce nonce' : List UInt8} {bundle bundle' : CanonicalBundle Json}
    (admitted : Admitted (wireCodec registry blake2b) roundId schemaId bundleJson nonceHex committed
      hotkey tickers nonce bundle)
    (admitted' : Admitted (wireCodec registry blake2b) roundId' schemaId' bundleJson' nonceHex'
      committed' hotkey' tickers' nonce' bundle')
    (lengths : (encode hotkey).length = (encode hotkey').length)
    (same : preimage bundleJson nonce hotkey = preimage bundleJson' nonce' hotkey') :
    (roundId = roundId' ∧ schemaId = schemaId') ∧
      bundleJson = bundleJson' ∧ nonce = nonce' ∧ hotkey = hotkey' := by
  obtain ⟨entry, known, reads⟩ := admitted.reads
  obtain ⟨entry', known', reads'⟩ := admitted'.reads
  obtain ⟨loaded, -, done⟩ := reads.parsed
  obtain ⟨loaded', -, done'⟩ := reads'.parsed
  -- both texts are canonical texts of objects
  have text : bundle.toCanonicalPayload.dumps = bundleJson := encode_injective reads.canonical
  have text' : bundle'.toCanonicalPayload.dumps = bundleJson' := encode_injective reads'.canonical
  have canonical' := canonical _ _ _ _ known' done'
  have canonical := canonical _ _ _ _ known done
  -- no text of an object starts another, so both preimages split at one place
  have bundles : bundleJson = bundleJson' := by
    rw [← text, ← text']
    have split : encode bundle.toCanonicalPayload.dumps ++ (nonce ++ encode hotkey) =
        encode bundle'.toCanonicalPayload.dumps ++ (nonce' ++ encode hotkey') := by
      rw [text, text', ← List.append_assoc, ← List.append_assoc]
      exact same
    exact dumps_eq_of_encode_append canonical.1 canonical'.1 split
  subst bundles
  have ids := ids_eq_of_dumps_eq canonical.2 canonical'.2 canonical.1 canonical'.1
    (text.trans text'.symm)
  have rest : nonce ++ encode hotkey = nonce' ++ encode hotkey' := by
    rw [preimage, preimage, List.append_assoc, List.append_assoc] at same
    exact List.append_cancel_left same
  -- nonces may differ in length, hotkeys do not: split what is left from the right
  obtain ⟨nonces, hotkeys⟩ := List.append_inj' rest lengths
  rw [reads.roundId, reads.schemaId, reads'.roundId, reads'.schemaId] at ids
  exact ⟨ids, rfl, nonces, encode_injective hotkeys⟩

/-- Reveals that open one hash are one reveal, or their preimages collide. -/
theorem Admitted.eq_or_collides (canonical : CanonicalRegistry registry)
    {roundId roundId' schemaId schemaId' bundleJson bundleJson' nonceHex nonceHex'
      committed : String} {hotkey hotkey' : Hotkey} {tickers tickers' : List String}
    {nonce nonce' : List UInt8} {bundle bundle' : CanonicalBundle Json}
    (admitted : Admitted (wireCodec registry blake2b) roundId schemaId bundleJson nonceHex committed
      hotkey tickers nonce bundle)
    (admitted' : Admitted (wireCodec registry blake2b) roundId' schemaId' bundleJson' nonceHex'
      committed hotkey' tickers' nonce' bundle')
    (lengths : (encode hotkey).length = (encode hotkey').length) :
    (roundId = roundId' ∧ schemaId = schemaId') ∧
        bundleJson = bundleJson' ∧ nonce = nonce' ∧ hotkey = hotkey' ∨
      Collides blake2b (preimage bundleJson nonce hotkey) (preimage bundleJson' nonce' hotkey') := by
  by_cases same : preimage bundleJson nonce hotkey = preimage bundleJson' nonce' hotkey'
  · exact .inl (admitted.eq_of_preimage canonical admitted' lengths same)
  · exact .inr ⟨same, admitted.opens.trans admitted'.opens.symm⟩

end Binding

/-- **Commitments bind.** Two reveals accepted against one commit hash, from hotkeys of one length
and in whatever rounds, schemas, windows and universes, are of one round and schema and carry the
same bundle text, nonce and hotkey, or the bytes they were hashed from are a collision. -/
theorem commitment_binds {blake2b : List UInt8 → String} {hotkey hotkey' : Hotkey}
    (lengths : (encode hotkey).length = (encode hotkey').length)
    {roundId roundId' schemaId schemaId' bundleJson bundleJson' nonceHex nonceHex'
      committed : String} {specVersion specVersion' now now' revealOpen revealOpen' revealClose
      revealClose' : ℤ} {tickers tickers' : List String}
    (accepted : (validateReveal (defaultCodec blake2b) roundId schemaId specVersion bundleJson
      nonceHex (some committed) hotkey now revealOpen revealClose tickers).accepted = true)
    (accepted' : (validateReveal (defaultCodec blake2b) roundId' schemaId' specVersion' bundleJson'
      nonceHex' (some committed) hotkey' now' revealOpen' revealClose' tickers').accepted = true) :
    ∃ nonce nonce', fromHex nonceHex.toList = some nonce ∧ fromHex nonceHex'.toList = some nonce' ∧
      ((roundId = roundId' ∧ schemaId = schemaId') ∧
          bundleJson = bundleJson' ∧ nonce = nonce' ∧ hotkey = hotkey' ∨
        Collides blake2b (preimage bundleJson nonce hotkey)
          (preimage bundleJson' nonce' hotkey')) := by
  obtain ⟨-, -, nonce, bundle, admitted⟩ := validateReveal_accepted_iff.mp accepted
  obtain ⟨-, -, nonce', bundle', admitted'⟩ := validateReveal_accepted_iff.mp accepted'
  exact ⟨nonce, nonce', admitted.hex, admitted'.hex,
    admitted.eq_or_collides canonicalRegistry_default admitted' lengths⟩

/-- One reveal at two instants. -/
theorem commitment_binds_twice : ∃ nonce nonce', fromHex (toHex riskNonce).toList = some nonce ∧
    fromHex (toHex riskNonce).toList = some nonce' ∧
      (("2026-01-05" = "2026-01-05" ∧ riskSchemaId = riskSchemaId) ∧
          riskText = riskText ∧ nonce = nonce' ∧ "5Miner" = "5Miner" ∨
        Collides (fun _ => riskBundleHash) (preimage riskText nonce "5Miner")
          (preimage riskText nonce' "5Miner")) :=
  commitment_binds rfl (riskText_accepted (by decide : (30 : ℤ) ≤ 35 ∧ (35 : ℤ) ≤ 40))
    (riskText_accepted (by decide : (30 : ℤ) ≤ 38 ∧ (38 : ℤ) ≤ 40))

/-! ### What opens a hash -/

/-- `validate_reveal` accepts a bundle's text and nonce from a hotkey against a commit hash, in some
round and at some time. -/
def OpensHash (blake2b : List UInt8 → String) (committed : String) (hotkey : Hotkey)
    (bundleJson : String) (nonce : List UInt8) : Prop :=
  ∃ roundId schemaId nonceHex tickers, ∃ specVersion now revealOpen revealClose : ℤ,
    fromHex nonceHex.toList = some nonce ∧
    (validateReveal (defaultCodec blake2b) roundId schemaId specVersion bundleJson nonceHex
      (some committed) hotkey now revealOpen revealClose tickers).accepted = true

section Openings

variable {blake2b : List UInt8 → String} {committed : String} {hotkey hotkey' : Hotkey}
  {bundleJson bundleJson' : String} {nonce nonce' : List UInt8}

/-- What is hashed has the hash that it opens. -/
theorem OpensHash.hash (opens : OpensHash blake2b committed hotkey bundleJson nonce) :
    blake2b (preimage bundleJson nonce hotkey) = committed := by
  obtain ⟨_, _, _, _, _, _, _, _, hex, accepted⟩ := opens
  obtain ⟨-, -, nonce₁, bundle, admitted⟩ := validateReveal_accepted_iff.mp accepted
  cases hex.symm.trans admitted.hex
  exact admitted.opens

/-- Of what opens one hash from hotkeys of one length, different reveals are a collision. -/
theorem OpensHash.eq_or_collides (opens : OpensHash blake2b committed hotkey bundleJson nonce)
    (opens' : OpensHash blake2b committed hotkey' bundleJson' nonce')
    (lengths : (encode hotkey).length = (encode hotkey').length) :
    bundleJson = bundleJson' ∧ hotkey = hotkey' ∨
      Collides blake2b (preimage bundleJson nonce hotkey) (preimage bundleJson' nonce' hotkey') := by
  obtain ⟨_, _, _, _, _, _, _, _, hex, accepted⟩ := opens
  obtain ⟨_, _, _, _, _, _, _, _, hex', accepted'⟩ := opens'
  obtain ⟨-, -, nonce₁, bundle, admitted⟩ := validateReveal_accepted_iff.mp accepted
  obtain ⟨-, -, nonce₂, bundle', admitted'⟩ := validateReveal_accepted_iff.mp accepted'
  cases hex.symm.trans admitted.hex
  cases hex'.symm.trans admitted'.hex
  exact (admitted.eq_or_collides canonicalRegistry_default admitted' lengths).imp_left
    fun same => ⟨same.2.1, same.2.2.2⟩

end Openings

/-- Where the hash has no collision on what opens a commit hash, that is one text at most for each
hotkey, whatever the nonces and rounds, and for two hotkeys of one length not both. -/
theorem commitment_opens_once {blake2b : List UInt8 → String} {committed : String}
    (collisionFree : ∀ hotkey hotkey' bundleJson bundleJson' nonce nonce',
      OpensHash blake2b committed hotkey bundleJson nonce →
      OpensHash blake2b committed hotkey' bundleJson' nonce' →
      ¬Collides blake2b (preimage bundleJson nonce hotkey)
        (preimage bundleJson' nonce' hotkey')) :
    (∀ hotkey bundleJson bundleJson' nonce nonce',
      OpensHash blake2b committed hotkey bundleJson nonce →
      OpensHash blake2b committed hotkey bundleJson' nonce' → bundleJson = bundleJson') ∧
    ∀ hotkey hotkey', hotkey ≠ hotkey' → (encode hotkey).length = (encode hotkey').length →
      ∀ bundleJson bundleJson' nonce nonce',
        OpensHash blake2b committed hotkey bundleJson nonce →
          ¬OpensHash blake2b committed hotkey' bundleJson' nonce' := by
  constructor
  · intro hotkey bundleJson bundleJson' nonce nonce' opens opens'
    rcases opens.eq_or_collides opens' rfl with same | collides
    · exact same.1
    · exact absurd collides (collisionFree _ _ _ _ _ _ opens opens')
  · intro hotkey hotkey' different lengths bundleJson bundleJson' nonce nonce' opens opens'
    rcases opens.eq_or_collides opens' lengths with same | collides
    · exact different same.2
    · exact collisionFree _ _ _ _ _ _ opens opens' collides

/-- A hash that gives the digest to one byte string only. -/
def riskHash (bytes : List UInt8) : String :=
  if bytes = preimage riskText riskNonce "5Miner" then riskBundleHash else ""

/-- The digest is opened by the bundle's text, by no other text and by no other hotkey of the same
length. -/
theorem commitment_opens_once_riskText :
    OpensHash riskHash riskBundleHash "5Miner" riskText riskNonce ∧
    (∀ bundleJson nonce, OpensHash riskHash riskBundleHash "5Miner" bundleJson nonce →
      riskText = bundleJson) ∧
    ∀ bundleJson nonce, ¬OpensHash riskHash riskBundleHash "5Other" bundleJson nonce := by
  have opens : OpensHash riskHash riskBundleHash "5Miner" riskText riskNonce := by
    have admitted : Admitted (defaultCodec riskHash) "2026-01-05" riskSchemaId riskText
        (toHex riskNonce) (riskHash (preimage riskText riskNonce "5Miner")) "5Miner" ["3"] riskNonce
        (riskSchema.canonicalBundle (riskSchema.canonical riskBundle)) :=
      admitted_of_valid defaultRegistry_risk bounded_riskSchema riskBundle_valid (by decide)
        riskUniverse_stored riskBundle_inside "5Miner" rfl
    rw [riskHash, if_pos rfl] at admitted
    exact ⟨"2026-01-05", riskSchemaId, toHex riskNonce, ["3"], currentVersionKey, 35, 30, 40,
      fromHex_toHex riskNonce,
      validateReveal_accepted_iff.mpr ⟨rfl, by decide, riskNonce, _, admitted⟩⟩
  have known {hotkey bundleJson nonce} (other : OpensHash riskHash riskBundleHash hotkey bundleJson
      nonce) : preimage bundleJson nonce hotkey = preimage riskText riskNonce "5Miner" := by
    by_contra different
    have hash := other.hash
    rw [riskHash, if_neg different] at hash
    exact absurd hash (by decide)
  obtain ⟨once, others⟩ := @commitment_opens_once riskHash riskBundleHash
    fun _ _ _ _ _ _ first second collides => collides.1 ((known first).trans (known second).symm)
  exact ⟨opens, fun _ _ other => once _ _ _ _ _ opens other,
    fun _ _ other => others "5Miner" "5Other" (by decide) rfl _ _ _ _ opens other⟩

end Endure.Protocol
