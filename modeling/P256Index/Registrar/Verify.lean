import P256Index.Contract.Verify
import P256Index.Registrar.Protocol

/-!
# Possession proofs, service side

The service checks every proof before it spends gas, mirroring the contract's check in its own code:
its own base64url encoder, its own substring search over machine words, and the `p256` crate instead
of the chain's verifier. `verifyProof_eq_ok` says what an accepted proof satisfies; that this is
what the contract asks is shown where the two are compared.
-/

namespace P256Index.Registrar

/-- The `p256` crate as far as the service calls it: which encoded points it reads, which scalar
pairs it takes for a signature, and its verification of a digest. -/
structure P256Crate where
  fromSec1Bytes : Bytes → Bool
  fromScalars : Bytes32 → Bytes32 → Bool
  verifyPrehash : Bytes → Bytes32 → Bytes32 → Bytes32 → Bool

/-! ## Encoding and substrings -/

/-- `BASE64URL_ALPHABET`. -/
def base64urlAlphabet : Bytes :=
  utf8 "ABCDEFGHIJKLMNOPQRSTUVWXYZabcdefghijklmnopqrstuvwxyz0123456789-_"

/-- `BASE64URL_ALPHABET[n & 0x3f]`. -/
def base64urlAt (n : Nat) : UInt8 := base64urlAlphabet.getD (n &&& 0x3f) 0

/-- The service and the contract have the same table. -/
theorem base64urlAt_eq (n : Nat) : base64urlAt n = Contract.alphabetAt n := rfl

/-- Groups of three bytes, then the two trailing ones: 43 characters for 32 bytes. -/
def base64urlChars : Bytes → Bytes
  | a :: b :: c :: rest =>
      let v := (a.toNat <<< 16) ||| (b.toNat <<< 8) ||| c.toNat
      base64urlAt (v >>> 18) :: base64urlAt (v >>> 12) :: base64urlAt (v >>> 6) :: base64urlAt v ::
        base64urlChars rest
  | [a, b] =>
      let tail := (a.toNat <<< 8) ||| b.toNat
      [base64urlAt (tail >>> 10), base64urlAt (tail >>> 4), base64urlAt (tail <<< 2)]
  | _ => []

/-- `base64url_32`. -/
def base64url32 (value : Bytes32) : Bytes := base64urlChars value.val

/-- `check_substring` with a 64-bit `usize`: the sum of offset and length is checked. -/
def checkSubstring (data : Bytes) (offset : UInt64) (expected : Bytes) : Bool :=
  offset.toNat + expected.length < 2 ^ 64 &&
    (offset.toNat + expected.length ≤ data.length &&
      (data.drop offset.toNat).take expected.length == expected)

def typeField : Bytes := utf8 "\"type\":\"webauthn.get\""

def challengeField (challenge : Bytes32) : Bytes :=
  utf8 "\"challenge\":\"" ++ base64url32 challenge ++ utf8 "\""

/-! ## The check -/

variable (E : Contract.Evm) (K : P256Crate)

/-- The digest both sides verify the signature of. -/
def signedDigest (authData clientData : Bytes) : Bytes32 :=
  E.sha256 (authData ++ (E.sha256 clientData).val)

/-- The error names the failed check. -/
def verifyProof (proof : Proof) (challenge : Bytes32) (rpId : String) (publicKey : Bytes) :
    Except String Unit := do
  let authData ← okOr (parseHexBytes proof.authenticatorData.val)
    "authenticatorData must be a valid hex string"
  revertIf (authData.length < 37) "authenticatorData must be at least 37 bytes"
  revertIf (authData.take 32 ≠ (E.sha256 (utf8 rpId)).val)
    "authenticatorData rpIdHash does not match rpId"
  revertIf ((authData.getD 32 0) &&& 0x01 = 0) "authenticatorData user-present flag is not set"
  let clientData := utf8 proof.clientDataJSON.val
  revertIf (checkSubstring clientData proof.typeIndex typeField = false)
    "clientDataJSON does not carry \"type\":\"webauthn.get\" at typeIndex"
  revertIf (checkSubstring clientData proof.challengeIndex (challengeField challenge) = false)
    "clientDataJSON does not carry the storage-authorization challenge at challengeIndex"
  revertIf (K.fromSec1Bytes publicKey = false) "publicKey is not a valid P-256 point"
  let r ← okOr (parseB256 proof.r) "signature r must be 32-byte hex"
  let s ← okOr (parseB256 proof.s) "signature s must be 32-byte hex"
  revertIf (K.fromScalars r s = false) "signature scalars are out of range"
  revertIf (K.verifyPrehash publicKey (signedDigest E authData clientData) r s = false)
    "signature does not verify for this publicKey"

/-! ## What an accepted proof satisfies -/

/-- The two encoders write the same text. -/
theorem base64urlChars_eq (k : Nat) (b : Bytes) (h : b.length = 3 * k + 2) :
    base64urlChars b = Base64Url.encode b := by
  induction k generalizing b with
  | zero =>
      obtain ⟨x, y, rfl⟩ := List.length_eq_two.mp (by simpa using h)
      exact Contract.encodeTail_two x y
  | succ k ih =>
      match b, h with
      | x :: y :: z :: rest, h =>
          have hrest : rest.length = 3 * k + 2 := by
            simp only [List.length_cons] at h
            omega
          have hchunk := Contract.encodeChunk_cons x y z rest
          simp only [Contract.encodeChunk, List.getD_cons_zero, List.getD_cons_succ, Nat.zero_add,
            List.cons.injEq, and_true] at hchunk
          simp only [base64urlChars, base64urlAt_eq, hchunk, ih rest hrest]
          rfl

theorem base64url32_eq (value : Bytes32) : base64url32 value = Base64Url.encode value.val :=
  base64urlChars_eq 10 value.val value.property

/-- Both encoders write the standard text of a word: 43 characters of the URL-safe alphabet, out of
which the word is read back. So the text determines the challenge. -/
theorem base64url32_standard :
    (∀ value : Bytes32, base64url32 value = Contract.encode32 value ∧
      (base64url32 value).length = 43 ∧
        base64url32 value ⊆ Base64Url.alphabet ∧
          Base64Url.decode (base64url32 value) = some value.val) ∧
      Function.Injective base64url32 ∧ Function.Injective Contract.encode32 := by
  refine ⟨fun value => ?_, fun a b h => ?_, Contract.encode32_injective⟩
  · rw [base64url32_eq, Contract.encode32_eq, Base64Url.encode_length, value.property]
    exact ⟨rfl, rfl, Base64Url.encode_subset _, Base64Url.decode_encode _⟩
  · rw [base64url32_eq, base64url32_eq] at h
    exact Subtype.ext (Base64Url.encode_injective h)

theorem challengeField_eq (challenge : Bytes32) :
    challengeField challenge = Contract.challengeField challenge := by
  rw [challengeField, Contract.challengeField, Contract.encode32_eq, base64url32_eq]

/-- The service's substring search over machine words agrees with the contract's over 256-bit words.
-/
theorem checkSubstring_carries {data expected : Bytes} {offset : UInt64}
    (h : checkSubstring data offset expected = true) :
    Contract.Carries data (u256OfU64 offset) expected := by
  simp only [checkSubstring, Bool.and_eq_true, decide_eq_true_eq, beq_iff_eq] at h
  obtain ⟨hsum, -, htake⟩ := h
  refine ⟨lt_trans hsum (by norm_num), ?_⟩
  rw [← htake]
  exact List.take_prefix _ _

/-- Everything `verify_proof` asks, with the parsed proof. -/
structure ProofAccepted (proof : Proof) (sol : Contract.Proof) (challenge : Bytes32) (rpId : String)
    (publicKey : Bytes) : Prop where
  parsed : proofSol proof = some sol
  length_le : 37 ≤ sol.authenticatorData.length
  rp_id : sol.authenticatorData.take 32 = (E.sha256 (utf8 rpId)).val
  user_present : (sol.authenticatorData.getD 32 0) &&& 0x01 ≠ 0
  type_field : Contract.Carries sol.clientDataJSON sol.typeIndex Contract.typeField
  challenge_field :
    Contract.Carries sol.clientDataJSON sol.challengeIndex (Contract.challengeField challenge)
  read : K.fromSec1Bytes publicKey = true
  verified : ∃ r s : Bytes32, sol.r = u256OfBytes r ∧ sol.s = u256OfBytes s ∧
    K.fromScalars r s = true ∧ K.verifyPrehash publicKey (Contract.signedDigest E sol) r s = true

theorem verifyProof_eq_ok {proof : Proof} {challenge : Bytes32} {rpId : String} {publicKey : Bytes}
    {u : Unit} (h : verifyProof E K proof challenge rpId publicKey = .ok u) :
    ∃ sol, ProofAccepted E K proof sol challenge rpId publicKey := by
  simp only [verifyProof, Except.bind_eq_ok, revertIf_eq_ok, okOr_eq_ok, exists_const,
    not_lt, not_not, Bool.not_eq_false, ne_eq] at h
  obtain ⟨auth, hauth, hlen, hrp, hup, htype, hchal, hread, r, hr, s, hs, hrange, hver⟩ := h
  rw [challengeField_eq] at hchal
  let sol : Contract.Proof :=
    { authenticatorData := auth
      clientDataJSON := utf8 proof.clientDataJSON.val
      challengeIndex := u256OfU64 proof.challengeIndex
      typeIndex := u256OfU64 proof.typeIndex
      r := u256OfBytes r
      s := u256OfBytes s }
  have hsol : proofSol proof = some sol := by simp [proofSol, hauth, hr, hs, sol]
  exact ⟨sol, hsol, hlen, hrp, hup, checkSubstring_carries htype, checkSubstring_carries hchal,
    hread, r, s, rfl, rfl, hrange, hver⟩

end P256Index.Registrar
