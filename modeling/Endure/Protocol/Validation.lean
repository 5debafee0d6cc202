import Endure.Scoring.BurnCommitment
import Endure.Storage.Rounds

/-!
# Commit and reveal verdicts

The pure verdict functions of `endure/protocol/validation.py`. The JSON decoder, the
bundle models and their canonical encoder, and the hash are taken as given.
-/

namespace Endure.Protocol

open Endure.Scoring

/-- Stable wire codes of a rejection. -/
inductive RejectionCode
  | versionMismatch
  | unknownSchema
  | lateCommit
  | noCommit
  | lateReveal
  | hashMismatch
  | invalidTicker
  | outOfBounds
  | malformedBundle
  | payloadTooLarge
  | rateLimited
  | roundUnavailable
  deriving DecidableEq

/-- The wire text of a code. -/
def RejectionCode.value : RejectionCode → String
  | versionMismatch => "VERSION_MISMATCH"
  | unknownSchema => "UNKNOWN_SCHEMA"
  | lateCommit => "LATE_COMMIT"
  | noCommit => "NO_COMMIT"
  | lateReveal => "LATE_REVEAL"
  | hashMismatch => "HASH_MISMATCH"
  | invalidTicker => "INVALID_TICKER"
  | outOfBounds => "OUT_OF_BOUNDS"
  | malformedBundle => "MALFORMED_BUNDLE"
  | payloadTooLarge => "PAYLOAD_TOO_LARGE"
  | rateLimited => "RATE_LIMITED"
  | roundUnavailable => "ROUND_UNAVAILABLE"

/-- The protocol version this build serves. -/
def currentVersionKey : ℤ := 2044

/-- Wire caps, checked before any hashing or parsing. -/
def maxRevealBundleBytes : ℕ := 262144
def maxNonceBytes : ℕ := 32
def maxRoundIdLength : ℕ := 64
def commitHashDigestSize : ℕ := 32
def commitNonceBytes : ℕ := 16

/-- The error type of a value outside its schema's bounds. -/
def outOfBoundsError : String := "endure_out_of_bounds"

/-- A verdict on a submission; it carries a code exactly when it rejects. -/
structure Verdict where
  accepted : Bool
  rejectionCode : Option RejectionCode
  coherent : accepted = true ↔ rejectionCode = none
  deriving DecidableEq

/-- A rejection. -/
def Verdict.reject (code : RejectionCode) : Verdict := ⟨false, some code, by simp⟩

/-- An acceptance. -/
def Verdict.accept : Verdict := ⟨true, none, by simp⟩

@[simp] theorem Verdict.reject_accepted (code : RejectionCode) : (reject code).accepted = false := rfl

@[simp] theorem Verdict.accept_accepted : accept.accepted = true := rfl

/-! ### What validation takes as given -/

/-- The parsed surface that registered bundle models share. -/
structure CanonicalBundle (payload : Type) where
  roundId : String
  schemaId : String
  toCanonicalPayload : payload

/-- A registered schema: its bundle model, which yields the types of its errors or a
parsed value that may be canonical, and its membership test. -/
structure SchemaRegistryEntry (payload : Type) where
  modelValidate : payload → Except (List String) (Option (CanonicalBundle payload))
  bundleMembershipValid : Option (CanonicalBundle payload → List String → Bool)

/-- The registry and the libraries behind validation. -/
structure Codec (payload : Type) where
  registry : String → Option (SchemaRegistryEntry payload)
  loads : String → Option payload
  canonicalBundleBytes : payload → List UInt8
  blake2b : List UInt8 → String

/-! ### Round ids -/

/-- The number of days in a month of the Gregorian calendar. -/
def daysInMonth (year month : ℕ) : ℕ :=
  if month = 2 then
    if year % 4 = 0 ∧ (year % 100 ≠ 0 ∨ year % 400 = 0) then 29 else 28
  else if month = 4 ∨ month = 6 ∨ month = 9 ∨ month = 11 then 30
  else 31

/-- A round id is exactly the canonical ISO session date. Every other form the date
parser takes renders differently from how it was written. -/
def isCanonicalRoundId (value : String) : Bool :=
  value.length ≤ maxRoundIdLength &&
    match value.toList with
    | [y₁, y₂, y₃, y₄, '-', m₁, m₂, '-', d₁, d₂] =>
      let year := Nat.ofDigitChars 10 [y₁, y₂, y₃, y₄] 0
      let month := Nat.ofDigitChars 10 [m₁, m₂] 0
      let day := Nat.ofDigitChars 10 [d₁, d₂] 0
      [y₁, y₂, y₃, y₄, m₁, m₂, d₁, d₂].all Char.isDigit && 1 ≤ year && 1 ≤ month &&
        month ≤ 12 && 1 ≤ day && day ≤ daysInMonth year month
    | _ => false

example : isCanonicalRoundId "2024-02-29" = true ∧ isCanonicalRoundId "2023-02-29" = false ∧
    isCanonicalRoundId "20240229" = false := by decide +kernel

/-! ### Verdicts -/

/-- The bytes of a text. -/
def encode (text : String) : List UInt8 := text.toUTF8.data.toList

/-- Why a reveal's payload is refused before it is parsed. -/
def revealPayloadRejection (bundleJson nonceHex : String) : Option RejectionCode :=
  if maxRevealBundleBytes < bundleJson.utf8ByteSize ∨ maxNonceBytes * 2 < nonceHex.length then
    some .payloadTooLarge
  else none

/-- A lower-case hexadecimal digest of the commit hash's size. -/
def isHexDigest (value : String) : Bool :=
  value.length = commitHashDigestSize * 2 && value.toList.all (fun c => c.toLower = c) &&
    (fromHex value.toList).isSome

variable {payload : Type} (codec : Codec payload)

/-- Hex digest over `bundle || nonce || hotkey`. -/
def commitHash (bundleBytes nonce : List UInt8) (minerHotkey : Hotkey) : String :=
  codec.blake2b (bundleBytes ++ nonce ++ encode minerHotkey)

/-- Verdict for a commit. -/
def validateCommit (roundId schemaId : String) (specVersion : ℤ) (bundleHash : String)
    (now commitOpen commitClose : ℤ) : Verdict :=
  if ¬isCanonicalRoundId roundId then .reject .malformedBundle
  else if specVersion ≠ currentVersionKey then .reject .versionMismatch
  else if (codec.registry schemaId).isNone then .reject .unknownSchema
  else if ¬(commitOpen ≤ now ∧ now ≤ commitClose) then .reject .lateCommit
  else if ¬isHexDigest bundleHash then .reject .malformedBundle
  else .accept

/-- The code for a bundle the model refuses. -/
def classifyValidationError (errors : List String) : RejectionCode :=
  if outOfBoundsError ∈ errors then .outOfBounds else .malformedBundle

/-- Parse a bundle and check its round, its canonical bytes and its members. -/
def validateRevealBundle (entry : SchemaRegistryEntry payload) (roundId schemaId bundleJson : String)
    (tickers : List String) : Verdict :=
  match codec.loads bundleJson with
  | none => .reject .malformedBundle
  | some loaded =>
    match entry.modelValidate loaded with
    | .error errors => .reject (classifyValidationError errors)
    | .ok none => .reject .malformedBundle
    | .ok (some bundle) =>
      if bundle.roundId ≠ roundId ∨ bundle.schemaId ≠ schemaId then .reject .malformedBundle
      else if codec.canonicalBundleBytes bundle.toCanonicalPayload ≠ encode bundleJson then
        .reject .malformedBundle
      else if entry.bundleMembershipValid.any fun valid => !valid bundle tickers then
        .reject .invalidTicker
      else .accept

/-- Check a reveal against its commitment, then its bundle. -/
def validateRevealPreimage (entry : SchemaRegistryEntry payload)
    (roundId schemaId bundleJson nonceHex committedHash : String) (minerHotkey : Hotkey)
    (tickers : List String) : Verdict :=
  match fromHex nonceHex.toList with
  | none => .reject .malformedBundle
  | some nonce =>
    if nonce.length < commitNonceBytes then .reject .malformedBundle
    -- the hash covers the raw text, before anything of it is parsed
    else if commitHash codec (encode bundleJson) nonce minerHotkey ≠ committedHash then
      .reject .hashMismatch
    else validateRevealBundle codec entry roundId schemaId bundleJson tickers

/-- Verdict for a reveal. -/
def validateReveal (roundId schemaId : String) (specVersion : ℤ) (bundleJson nonceHex : String)
    (committedHash : Option String) (minerHotkey : Hotkey) (now revealOpen revealClose : ℤ)
    (tickers : List String) : Verdict :=
  if ¬isCanonicalRoundId roundId then .reject .malformedBundle
  else if specVersion ≠ currentVersionKey then .reject .versionMismatch
  else
    match codec.registry schemaId with
    | none => .reject .unknownSchema
    | some entry =>
      -- oversized payloads are refused before window and commitment are looked at
      match revealPayloadRejection bundleJson nonceHex with
      | some code => .reject code
      | none =>
        if ¬(revealOpen ≤ now ∧ now ≤ revealClose) then .reject .lateReveal
        else
          match committedHash with
          | none => .reject .noCommit
          | some committed =>
            validateRevealPreimage codec entry roundId schemaId bundleJson nonceHex committed
              minerHotkey tickers

variable {codec}

/-- Only a committed hotkey reveals, and only inside the window. -/
theorem validateReveal_accepted {roundId schemaId : String} {specVersion : ℤ}
    {bundleJson nonceHex : String} {committedHash : Option String} {minerHotkey : Hotkey}
    {now revealOpen revealClose : ℤ} {tickers : List String}
    (accepted : (validateReveal codec roundId schemaId specVersion bundleJson nonceHex committedHash
      minerHotkey now revealOpen revealClose tickers).accepted = true) :
    committedHash.isSome ∧ revealOpen ≤ now ∧ now ≤ revealClose := by
  rw [validateReveal] at accepted
  split at accepted
  · cases accepted
  split at accepted
  · cases accepted
  cases entry : codec.registry schemaId with
  | none => simp [entry] at accepted
  | some _ =>
    cases refused : revealPayloadRejection bundleJson nonceHex with
    | some _ => simp [entry, refused] at accepted
    | none =>
      simp only [entry, refused] at accepted
      split at accepted
      · cases accepted
      next inside =>
        cases committedHash with
        | none => cases accepted
        | some _ => exact ⟨rfl, not_not.mp inside⟩

end Endure.Protocol
