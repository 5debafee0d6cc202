import Mathlib

/-!
# Weight intents

The identity of an emission: the hash of `endure/protocol/weight_intent.py` over the
protocol key, the chain and validator, and the targets, and the unversioned hash that
older rows of `endure/storage/repository.py` carry. The digest of the canonical JSON is a
parameter.
-/

namespace Endure.Emission

/-- The protocol key that emissions are made under. -/
def currentVersionKey : ℕ := 2044

/-- A UID, the hotkey it belongs to, and its weight. -/
structure WeightTarget where
  uid : ℤ
  hotkey : String
  weight : ℤ
  deriving DecidableEq

/-- Python's order on targets as tuples. -/
def WeightTarget.key (target : WeightTarget) : ℤ ×ₗ String ×ₗ ℤ :=
  toLex (target.uid, toLex (target.hotkey, target.weight))

theorem WeightTarget.key_injective : Function.Injective WeightTarget.key := by
  rintro ⟨uid, hotkey, weight⟩ ⟨uid', hotkey', weight'⟩ same
  simp only [WeightTarget.key, EmbeddingLike.apply_eq_iff_eq, Prod.mk.injEq] at same
  obtain ⟨rfl, rfl, rfl⟩ := same
  rfl

instance : LinearOrder WeightTarget := LinearOrder.lift' WeightTarget.key WeightTarget.key_injective

/-- What a weight intent is about. -/
structure IntentPayload where
  chainIdentity : String
  netuid : ℤ
  validatorUid : ℤ
  validatorHotkey : String
  targets : List WeightTarget

/-- The digest of a payload's canonical JSON, with the version key when it has one. -/
abbrev Digest := Option ℕ → IntentPayload → String

/-- The payload with its targets in order. -/
def IntentPayload.canonical (payload : IntentPayload) : IntentPayload :=
  { payload with targets := payload.targets.insertionSort (· ≤ ·) }

/-- The hash of an intent: versioned, or in the older form without a key. -/
def weightIntentHash (digest : Digest) (payload : IntentPayload) :
    (protocolVersionKey : Option ℕ) → String
  | some version => toString version ++ ":" ++ digest (some version) payload.canonical
  | none => digest none payload.canonical

/-- A character of a lowercase hexadecimal numeral. -/
def isHexDigit (char : Char) : Bool :=
  ('0' ≤ char ∧ char ≤ '9') ∨ ('a' ≤ char ∧ char ≤ 'f')

/-- The text matches `[0-9a-f]{64}`. -/
def isDigest (text : List Char) : Bool := text.length = 64 ∧ text.all isHexDigit

/-- The text matches `0|[1-9][0-9]*`. -/
def isVersion (text : List Char) : Bool :=
  text = ['0'] ∨ (text.head?.any (fun char => '1' ≤ char ∧ char ≤ '9') ∧
    text.all fun char => '0' ≤ char ∧ char ≤ '9')

/-- The number a numeral stands for. -/
def versionOf (text : List Char) : ℕ :=
  text.foldl (fun number char => 10 * number + (char.toNat - '0'.toNat)) 0

/-- The version a stored hash was made under, if its form has one; `none` when the hash
has neither form. -/
def recordedProtocolVersion (intentHash : String) : Option (Option ℕ) :=
  let text := intentHash.toList
  if isDigest text then some none
  else
    match text.dropWhile (· ≠ ':') with
    | ':' :: digest =>
      if isVersion (text.takeWhile (· ≠ ':')) ∧ isDigest digest then
        some (some (versionOf (text.takeWhile (· ≠ ':'))))
      else none
    | _ => none

/-- Canonical payloads do not depend on the order of their targets. -/
theorem canonical_of_perm {payload : IntentPayload} {targets : List WeightTarget}
    (perm : targets.Perm payload.targets) :
    IntentPayload.canonical { payload with targets } = payload.canonical := by
  have sorted : (targets.insertionSort (· ≤ ·)).Perm (payload.targets.insertionSort (· ≤ ·)) :=
    (List.perm_insertionSort _ _).trans (perm.trans (List.perm_insertionSort _ _).symm)
  have same := sorted.eq_of_pairwise' (List.pairwise_insertionSort _ _)
    (List.pairwise_insertionSort _ _)
  simp only [IntentPayload.canonical, same]

theorem weightIntentHash_of_perm (digest : Digest) {payload : IntentPayload}
    {targets : List WeightTarget} (perm : targets.Perm payload.targets) (version : Option ℕ) :
    weightIntentHash digest { payload with targets } version =
      weightIntentHash digest payload version := by
  cases version with
  | none => rw [weightIntentHash, canonical_of_perm perm, weightIntentHash]
  | some key => rw [weightIntentHash, canonical_of_perm perm, weightIntentHash]

/-- A hash made under the current key is recorded as such. -/
theorem recordedProtocolVersion_weightIntentHash {digest : Digest} {payload : IntentPayload}
    (hex : isDigest (digest (some currentVersionKey) payload.canonical).toList = true) :
    recordedProtocolVersion (weightIntentHash digest payload (some currentVersionKey)) =
      some (some currentVersionKey) := by
  have chars : (weightIntentHash digest payload (some currentVersionKey)).toList =
      ['2', '0', '4', '4', ':'] ++
        (digest (some currentVersionKey) payload.canonical).toList := by
    rw [weightIntentHash, String.toList_append, String.toList_append]
    rfl
  have long : (digest (some currentVersionKey) payload.canonical).toList.length = 64 :=
    (of_decide_eq_true hex).1
  have versioned : isDigest (['2', '0', '4', '4', ':'] ++
      (digest (some currentVersionKey) payload.canonical).toList) = false := by
    refine decide_eq_false fun both => ?_
    have length := both.1
    rw [List.length_append, long] at length
    simp at length
  rw [recordedProtocolVersion, chars]
  simp only [versioned, Bool.false_eq_true, if_false]
  simp [isVersion, versionOf, currentVersionKey]
  exact hex

end Endure.Emission
