import P256Index.Checked
import P256Index.Contract.Challenge

/-!
# Key validation and possession proofs

`_validatePublicKey`, the bounds of the other fields and `_verifyProof`, check by check in the
contract's order. A proof carries the base64url text of the challenge it was made for at its own
`challengeIndex`, so one proof can be accepted for one challenge only
(`ProofOk.challenge_unique`).
-/

namespace P256Index.Contract

/-! ## Constants -/

def maxRpIdLength : Nat := 253
def uncompressedP256KeyLength : Nat := 65
def maxMetadataLength : Nat := 2048
def attestationLength : Nat := 20
def attestationVersion : UInt8 := 1
def maxCredentialIdLength : Nat := 1023
def maxAuthenticatorAttachmentLength : Nat := 32
def maxTransportsLength : Nat := 255
def maxMembers : Nat := 7

/-- The field prime of P-256. -/
def p256P : Nat := 0xffffffff00000001000000000000000000000000ffffffffffffffffffffffff

/-- The curve coefficient `b`. -/
def p256B : Nat := 0x5ac635d8aa3a93e7b3ebbd55769886bc651d06b0cc53b0f63bce3c3e27d2604b

/-! ## Field checks -/

/-- The coordinates of an uncompressed point. -/
def coordinates (publicKey : Bytes) : Nat × Nat :=
  (ofBe ((publicKey.drop 1).take 32), ofBe ((publicKey.drop 33).take 32))

/-- `y² = x³ - 3x + b` over the field. -/
def onCurve (x y : Nat) : Bool :=
  let lhs := y * y % p256P
  let x2 := x * x % p256P
  let x3 := x2 * x % p256P
  let rhs := ((x3 + (p256P - 3) * x % p256P) % p256P + p256B) % p256P
  lhs == rhs

def validatePublicKey (publicKey : Bytes) : Except Revert (Nat × Nat) := do
  revertIf (publicKey.length ≠ uncompressedP256KeyLength) (.invalidPublicKeyLength publicKey.length)
  revertIf (publicKey.headD 0 ≠ 4) (.invalidPublicKeyPrefix (publicKey.headD 0))
  let key := coordinates publicKey
  revertIf (p256P ≤ key.1 ∨ p256P ≤ key.2) .invalidPublicKeyCoordinate
  revertIf (onCurve key.1 key.2 = false) .invalidPublicKeyPoint
  pure key

def validateRpId (rpId : Bytes) : Except Revert Unit := do
  revertIf (rpId.length = 0) .emptyRpId
  revertIf (maxRpIdLength < rpId.length) (.rpIdTooLong rpId.length)

def validateMetadata (metadata : Bytes) : Except Revert Unit :=
  revertIf (maxMetadataLength < metadata.length) (.metadataTooLong metadata.length)

/-- Empty, or exactly 20 bytes starting with the version byte. -/
def validateAttestation (attestation : Bytes) : Except Revert Unit :=
  if attestation.length = 0 then pure ()
  else
    revertIf (attestation.length ≠ attestationLength ∨ attestation.headD 0 ≠ attestationVersion)
      (.invalidAttestation attestation.length)

/-! ## Possession proofs -/

/-- Does `data` carry `expected` at `offset`? The sum is checked arithmetic. -/
def checkSubstring (data : Bytes) (offset : U256) (expected : Bytes) : Except Revert Bool := do
  revertIf (2 ^ 256 ≤ offset.val + expected.length) .panic
  if data.length < offset.val + expected.length then pure false
  else pure (expected.isPrefixOf (data.drop offset.val))

/-- `"type":"webauthn.get"`. -/
def typeField : Bytes := utf8 "\"type\":\"webauthn.get\""

/-- `"challenge":"…"` around the base64url text of the challenge. -/
def challengeField (challenge : Bytes32) : Bytes :=
  utf8 "\"challenge\":\"" ++ encode32 challenge ++ utf8 "\""

variable (E : Evm)

/-- What the precompile is asked: `abi.encode(digest, r, s, x, y)`. -/
def verifierInput (digest : Bytes32) (r s x y : Nat) : Bytes :=
  digest.val ++ word r ++ word s ++ word x ++ word y

/-- The message both sides hash: `sha256(authData || sha256(clientData))`. -/
def signedDigest (proof : Proof) : Bytes32 :=
  E.sha256 (proof.authenticatorData ++ (E.sha256 proof.clientDataJSON).val)

def verifyProof (proof : Proof) (challenge : Bytes32) (rpId : Bytes) (key : Nat × Nat) :
    Except Revert Unit := do
  let authData := proof.authenticatorData
  revertIf (authData.length < 37) .invalidProof
  revertIf (authData.take 32 ≠ (E.sha256 rpId).val) .rpIdMismatch
  revertIf ((authData.getD 32 0) &&& 0x01 = 0) .invalidProof
  let typed ← checkSubstring proof.clientDataJSON proof.typeIndex typeField
  revertIf (typed = false) .invalidProof
  let bound ← checkSubstring proof.clientDataJSON proof.challengeIndex (challengeField challenge)
  revertIf (bound = false) .invalidProof
  let input := verifierInput (signedDigest E proof) proof.r.val proof.s.val key.1 key.2
  revertIf (E.p256Verifier input ≠ some (word 1)) .invalidProof

/-! ## What an accepted field satisfies -/

/-- An uncompressed point of the curve. -/
structure ValidKey (publicKey : Bytes) : Prop where
  length_eq : publicKey.length = uncompressedP256KeyLength
  head_eq : publicKey.headD 0 = 4
  x_lt : (coordinates publicKey).1 < p256P
  y_lt : (coordinates publicKey).2 < p256P
  on_curve : onCurve (coordinates publicKey).1 (coordinates publicKey).2 = true

theorem validatePublicKey_eq_ok {publicKey : Bytes} {k : Nat × Nat} :
    validatePublicKey publicKey = .ok k ↔ ValidKey publicKey ∧ coordinates publicKey = k := by
  simp only [validatePublicKey, revertIf_bind_eq_ok, Except.pure_eq_ok, not_not, not_or, not_le,
    Bool.not_eq_false]
  constructor
  · rintro ⟨hlen, hhead, ⟨hx, hy⟩, hc, hk⟩
    exact ⟨⟨hlen, hhead, hx, hy, hc⟩, hk⟩
  · rintro ⟨⟨hlen, hhead, hx, hy, hc⟩, hk⟩
    exact ⟨hlen, hhead, ⟨hx, hy⟩, hc, hk⟩

theorem validateRpId_eq_ok {rpId : Bytes} {u : Unit} :
    validateRpId rpId = .ok u ↔ rpId.length ≠ 0 ∧ rpId.length ≤ maxRpIdLength := by
  simp only [validateRpId, revertIf_bind_eq_ok, revertIf_eq_ok, not_lt, ne_eq]

theorem validateMetadata_eq_ok {metadata : Bytes} {u : Unit} :
    validateMetadata metadata = .ok u ↔ metadata.length ≤ maxMetadataLength := by
  simp only [validateMetadata, revertIf_eq_ok, not_lt]

/-- `data` carries `expected` at `offset`, within the word range. -/
def Carries (data : Bytes) (offset : U256) (expected : Bytes) : Prop :=
  offset.val + expected.length < 2 ^ 256 ∧ expected <+: data.drop offset.val

theorem checkSubstring_eq_ok_true {data : Bytes} {offset : U256} {expected : Bytes}
    (hne : expected ≠ []) :
    checkSubstring data offset expected = .ok true ↔ Carries data offset expected := by
  simp only [checkSubstring, revertIf_bind_eq_ok, not_le, Carries]
  refine and_congr_right fun _ => ?_
  by_cases hlen : data.length < offset.val + expected.length
  · rw [if_pos hlen]
    refine ⟨fun h => (by cases h), fun h => ?_⟩
    have hle := h.length_le
    rw [List.length_drop] at hle
    have hpos := List.length_pos_iff.mpr hne
    omega
  · rw [if_neg hlen, Except.pure_eq_ok, List.isPrefixOf_iff_prefix]

/-- Everything `_verifyProof` asks of a proof. -/
structure ProofOk (proof : Proof) (challenge : Bytes32) (rpId : Bytes) (key : Nat × Nat) :
    Prop where
  length_le : 37 ≤ proof.authenticatorData.length
  rp_id : proof.authenticatorData.take 32 = (E.sha256 rpId).val
  user_present : (proof.authenticatorData.getD 32 0) &&& 0x01 ≠ 0
  type_field : Carries proof.clientDataJSON proof.typeIndex typeField
  challenge_field : Carries proof.clientDataJSON proof.challengeIndex (challengeField challenge)
  signature : E.p256Verifier (verifierInput (signedDigest E proof) proof.r.val proof.s.val
    key.1 key.2) = some (word 1)

theorem verifyProof_eq_ok {proof : Proof} {challenge : Bytes32} {rpId : Bytes} {key : Nat × Nat}
    {u : Unit} :
    verifyProof E proof challenge rpId key = .ok u ↔ ProofOk E proof challenge rpId key := by
  have htype : typeField ≠ [] := by decide +kernel
  have hchal : challengeField challenge ≠ [] := by
    simp only [challengeField, List.append_assoc]
    exact List.append_ne_nil_of_left_ne_nil (by decide +kernel) _
  simp only [verifyProof, Except.bind_eq_ok, revertIf_eq_ok, exists_const, not_lt, not_not,
    Bool.not_eq_false, ne_eq]
  constructor
  · rintro ⟨hlen, hrp, hup, _, ht, rfl, _, hc, rfl, hsig⟩
    exact ⟨hlen, hrp, hup, (checkSubstring_eq_ok_true htype).mp ht,
      (checkSubstring_eq_ok_true hchal).mp hc, hsig⟩
  · rintro ⟨hlen, hrp, hup, ht, hc, hsig⟩
    exact ⟨hlen, hrp, hup, true, (checkSubstring_eq_ok_true htype).mpr ht, rfl,
      true, (checkSubstring_eq_ok_true hchal).mpr hc, rfl, hsig⟩

theorem challengeField_length (c : Bytes32) : (challengeField c).length = 57 := by
  have h43 : (encode32 c).length = 43 := by
    simp [encode32, encodeChunk, encodeTail, List.length_flatMap]
  have h1 : (utf8 "\"challenge\":\"").length = 13 := by decide +kernel
  have h2 : (utf8 "\"").length = 1 := by decide +kernel
  simp only [challengeField, List.length_append, h43, h1, h2]

/-- One proof is accepted for one challenge only: its bytes hold the challenge's text. -/
theorem ProofOk.challenge_unique {proof : Proof} {c c' : Bytes32} {rpId rpId' : Bytes}
    {key key' : Nat × Nat} (h : ProofOk E proof c rpId key) (h' : ProofOk E proof c' rpId' key') :
    c = c' := by
  have heq : challengeField c = challengeField c' := by
    have hlen : (challengeField c).length = (challengeField c').length := by
      rw [challengeField_length, challengeField_length]
    exact List.IsPrefix.eq_of_length
      (List.prefix_of_prefix_length_le h.challenge_field.2 h'.challenge_field.2 hlen.le) hlen
  simp only [challengeField, List.append_assoc, List.append_cancel_left_eq] at heq
  exact encode32_injective (List.append_cancel_right heq)

end P256Index.Contract
