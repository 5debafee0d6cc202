import Endure.Protocol.Validation

/-!
# Assembling a submission

`endure/protocol/bundles.py`: the canonical text of a bundle, hashed with a nonce and the
miner's hotkey into the pair that the commit and reveal windows carry.
-/

namespace Endure.Protocol

open Endure.Scoring

/-- The lower-case hexadecimal digit of a number below 16. -/
def hexDigit (digit : ℕ) : Char :=
  if digit < 10 then Char.ofNat ('0'.toNat + digit) else Char.ofNat ('a'.toNat + (digit - 10))

/-- `bytes.hex`: two digits for each byte. -/
def toHex (bytes : List UInt8) : String :=
  String.ofList (bytes.flatMap fun byte => [hexDigit (byte.toNat / 16), hexDigit (byte.toNat % 16)])

/-- `bytes.decode("utf-8")`. -/
def decode (bytes : List UInt8) : Option String := String.fromUTF8? ⟨bytes.toArray⟩

structure AssembledSubmission where
  bundleJson : String
  nonceHex : String
  bundleHash : String
  deriving DecidableEq

/-- Serialize and hash a bundle into a commit and reveal pair. -/
def assembleBundle {payload : Type} (codec : Codec payload) (bundle : CanonicalBundle payload)
    (minerHotkey : Hotkey) (nonce : List UInt8) : Except String AssembledSubmission :=
  let bundleBytes := codec.canonicalBundleBytes bundle.toCanonicalPayload
  if nonce.length ≠ commitNonceBytes then .error "nonce must be 16 bytes"
  else
    match decode bundleBytes with
    | none => .error "invalid utf-8"
    | some bundleJson =>
      .ok ⟨bundleJson, toHex nonce, commitHash codec bundleBytes nonce minerHotkey⟩

/-- A bundle text and a nonce open a hash for a hotkey. -/
def Opens {payload : Type} (codec : Codec payload) (minerHotkey : Hotkey)
    (bundleJson nonceHex bundleHash : String) : Prop :=
  ∃ nonce, fromHex nonceHex.toList = some nonce ∧
    commitHash codec (encode bundleJson) nonce minerHotkey = bundleHash

theorem hexValue_hexDigit {digit : ℕ} (small : digit < 16) :
    hexValue (hexDigit digit) = some digit ∧ asciiSpace (hexDigit digit) = false := by
  interval_cases digit <;> decide

/-- The digits of some bytes are read back as these bytes. -/
theorem fromHex_toHex (bytes : List UInt8) : fromHex (toHex bytes).toList = some bytes := by
  rw [toHex, String.toList_ofList]
  induction bytes with
  | nil => rfl
  | cons byte rest ih =>
    have high := hexValue_hexDigit (show byte.toNat / 16 < 16 by have := byte.toNat_lt; omega)
    have low := hexValue_hexDigit (show byte.toNat % 16 < 16 by omega)
    have whole : 16 * (byte.toNat / 16) + byte.toNat % 16 = byte.toNat := by omega
    rw [List.flatMap_cons, List.cons_append, List.cons_append, List.nil_append, fromHex,
      if_neg (by simp [high.2]), high.1, low.1, ih]
    simp [whole]

/-- The text that bytes decode to has these bytes. -/
theorem encode_of_decode {bytes : List UInt8} {text : String} (decoded : decode bytes = some text) :
    encode text = bytes := by
  rw [decode, String.fromUTF8?] at decoded
  split at decoded
  · cases decoded
    rfl
  · cases decoded

/-- What is assembled opens its own hash. -/
theorem opens_of_assembleBundle {payload : Type} {codec : Codec payload}
    {bundle : CanonicalBundle payload} {minerHotkey : Hotkey} {nonce : List UInt8}
    {assembled : AssembledSubmission}
    (done : assembleBundle codec bundle minerHotkey nonce = .ok assembled) :
    Opens codec minerHotkey assembled.bundleJson assembled.nonceHex assembled.bundleHash := by
  rw [assembleBundle] at done
  split at done
  · cases done
  · split at done
    · cases done
    · next text decoded =>
      cases done
      exact ⟨nonce, fromHex_toHex nonce, by rw [encode_of_decode decoded]⟩

end Endure.Protocol
