import P256Index.Contract.Types

/-!
# Calldata

The ABI layout of the two writes and a decoder for it. `encodeCall` is the canonical encoding, the
one the services produce; `decodeCall` reads it back (`decodeCall_encodeCall`) and only ever returns
calls whose lengths fit in 64 bits (`decodeCall_fits`).
-/

namespace P256Index.Contract

open Abi

/-- `(bytes, string, uint256, uint256, uint256, uint256)`. -/
def proofFields : Fields (Bytes × Bytes × U256 × U256 × U256 × U256 × Unit) :=
  .cons bytes (.cons bytes (.cons uint256 (.cons uint256 (.cons uint256 (.cons uint256 .nil)))))

def proofCodec : Codec Proof :=
  (Codec.tuple proofFields).via
    (fun v => ⟨v.1, v.2.1, v.2.2.1, v.2.2.2.1, v.2.2.2.2.1, v.2.2.2.2.2.1⟩)
    (fun p => (p.authenticatorData, p.clientDataJSON, p.challengeIndex, p.typeIndex, p.r, p.s, ()))

theorem proofFields_lawful : proofFields.Lawful := by
  have h := Fields.cons_lawful uint256_lawful Fields.nil_lawful
  have h := Fields.cons_lawful uint256_lawful (Fields.cons_lawful uint256_lawful h)
  have h := Fields.cons_lawful uint256_lawful h
  exact Fields.cons_lawful bytes_lawful (Fields.cons_lawful bytes_lawful h)

theorem proofCodec_lawful : proofCodec.Lawful :=
  Codec.via_lawful (Codec.tuple_lawful proofFields_lawful) (fun _ => rfl)

/-- `(bytes, bytes, bytes, bytes, bytes, Proof)`. -/
def memberFields : Fields (Bytes × Bytes × Bytes × Bytes × Bytes × Proof × Unit) :=
  .cons bytes (.cons bytes (.cons bytes (.cons bytes (.cons bytes (.cons proofCodec .nil)))))

def memberCodec : Codec Member :=
  (Codec.tuple memberFields).via
    (fun v => ⟨v.1, v.2.1, v.2.2.1, v.2.2.2.1, v.2.2.2.2.1, v.2.2.2.2.2.1⟩)
    (fun m => (m.publicKey, m.attestation, m.credentialId, m.authenticatorAttachment,
      m.transports, m.proof, ()))

theorem memberFields_lawful : memberFields.Lawful := by
  have h := Fields.cons_lawful proofCodec_lawful Fields.nil_lawful
  have h := Fields.cons_lawful bytes_lawful (Fields.cons_lawful bytes_lawful h)
  have h := Fields.cons_lawful bytes_lawful h
  exact Fields.cons_lawful bytes_lawful (Fields.cons_lawful bytes_lawful h)

theorem memberCodec_lawful : memberCodec.Lawful :=
  Codec.via_lawful (Codec.tuple_lawful memberFields_lawful) (fun _ => rfl)

/-- The parameters of `register`. -/
def registerFields : Fields (Bytes × Bytes × Bytes × Proof × List Member × Unit) :=
  .cons bytes (.cons bytes (.cons bytes (.cons proofCodec (.cons (array memberCodec) .nil))))

def registerCodec : Codec RegisterArgs :=
  (Codec.tuple registerFields).via
    (fun v => ⟨v.1, v.2.1, v.2.2.1, v.2.2.2.1, v.2.2.2.2.1⟩)
    (fun a => (a.rpId, a.metadata, a.groupPublicKey, a.groupProof, a.members, ()))

theorem registerFields_lawful : registerFields.Lawful := by
  have h := Fields.cons_lawful (array_lawful memberCodec_lawful (by decide)) Fields.nil_lawful
  have h := Fields.cons_lawful bytes_lawful (Fields.cons_lawful proofCodec_lawful h)
  exact Fields.cons_lawful bytes_lawful (Fields.cons_lawful bytes_lawful h)

theorem registerCodec_lawful : registerCodec.Lawful :=
  Codec.via_lawful (Codec.tuple_lawful registerFields_lawful) (fun _ => rfl)

/-- The parameters of `refer`. -/
def referFields : Fields (Bytes × Bytes × Member × Unit) :=
  .cons bytes (.cons bytes (.cons memberCodec .nil))

def referCodec : Codec ReferArgs :=
  (Codec.tuple referFields).via
    (fun v => ⟨v.1, v.2.1, v.2.2.1⟩)
    (fun a => (a.groupPublicKey, a.metadata, a.member, ()))

theorem referFields_lawful : referFields.Lawful :=
  Fields.cons_lawful bytes_lawful (Fields.cons_lawful bytes_lawful
    (Fields.cons_lawful memberCodec_lawful Fields.nil_lawful))

theorem referCodec_lawful : referCodec.Lawful :=
  Codec.via_lawful (Codec.tuple_lawful referFields_lawful) (fun _ => rfl)

/-! ## Sizes of encodings

A call that fits is far shorter than what a word can address. -/

theorem Proof.Fits.encode_length_lt {p : Proof} (h : p.Fits) :
    (proofCodec.encode p).length < 2 ^ 66 := by
  obtain ⟨ha, hc⟩ := h
  have h1 := bytes_encode_length_le p.authenticatorData
  have h2 := bytes_encode_length_le p.clientDataJSON
  have htails : proofFields.tails (p.authenticatorData, p.clientDataJSON, p.challengeIndex,
      p.typeIndex, p.r, p.s, ()) =
      bytes.encode p.authenticatorData ++ bytes.encode p.clientDataJSON := by simp [proofFields]
  have hsize : proofFields.headSize = 192 := rfl
  rw [proofCodec, Codec.via, proofFields_lawful.encode_length, htails, hsize, List.length_append]
  omega

theorem Member.Fits.encode_length_lt {m : Member} (h : m.Fits) :
    (memberCodec.encode m).length < 2 ^ 68 := by
  obtain ⟨hk, ha, hc, hh, ht, hp⟩ := h
  have h1 := bytes_encode_length_le m.publicKey
  have h2 := bytes_encode_length_le m.attestation
  have h3 := bytes_encode_length_le m.credentialId
  have h4 := bytes_encode_length_le m.authenticatorAttachment
  have h5 := bytes_encode_length_le m.transports
  have h6 := hp.encode_length_lt
  have htail : proofCodec.tail m.proof = proofCodec.encode m.proof := rfl
  have htails : memberFields.tails (m.publicKey, m.attestation, m.credentialId,
      m.authenticatorAttachment, m.transports, m.proof, ()) =
      bytes.encode m.publicKey ++ (bytes.encode m.attestation ++ (bytes.encode m.credentialId ++
        (bytes.encode m.authenticatorAttachment ++ (bytes.encode m.transports ++
          proofCodec.encode m.proof)))) := by simp [memberFields, htail]
  have hsize : memberFields.headSize = 192 := rfl
  rw [memberCodec, Codec.via, memberFields_lawful.encode_length, htails, hsize]
  simp only [List.length_append]
  omega

theorem RegisterArgs.Fits.encode_length_lt {a : RegisterArgs} (h : a.Fits) :
    (registerCodec.encode a).length < 2 ^ 140 := by
  obtain ⟨hr, hm, hg, hp, hn, hms⟩ := h
  have h1 := bytes_encode_length_le a.rpId
  have h2 := bytes_encode_length_le a.metadata
  have h3 := bytes_encode_length_le a.groupPublicKey
  have h4 := hp.encode_length_lt
  have h5 : ((array memberCodec).encode a.members).length ≤
      32 + a.members.length * (memberCodec.headSize + 2 ^ 68) := by
    refine array_encode_length_le memberCodec_lawful (fun m hmem => ?_)
    exact le_of_lt (hms m hmem).encode_length_lt
  have h6 : a.members.length * (memberCodec.headSize + 2 ^ 68) ≤ 2 ^ 64 * (32 + 2 ^ 68) :=
    Nat.mul_le_mul (le_of_lt hn) (le_of_eq rfl)
  have htail : proofCodec.tail a.groupProof = proofCodec.encode a.groupProof := rfl
  have htails : registerFields.tails (a.rpId, a.metadata, a.groupPublicKey, a.groupProof,
      a.members, ()) = bytes.encode a.rpId ++ (bytes.encode a.metadata ++
        (bytes.encode a.groupPublicKey ++ (proofCodec.encode a.groupProof ++
          (array memberCodec).encode a.members))) := by simp [registerFields, htail]
  have hsize : registerFields.headSize = 160 := rfl
  rw [registerCodec, Codec.via, registerFields_lawful.encode_length, htails, hsize]
  simp only [List.length_append]
  omega

theorem ReferArgs.Fits.encode_length_lt {a : ReferArgs} (h : a.Fits) :
    (referCodec.encode a).length < 2 ^ 140 := by
  obtain ⟨hg, hm, hmem⟩ := h
  have h1 := bytes_encode_length_le a.groupPublicKey
  have h2 := bytes_encode_length_le a.metadata
  have h3 := hmem.encode_length_lt
  have htail : memberCodec.tail a.member = memberCodec.encode a.member := rfl
  have htails : referFields.tails (a.groupPublicKey, a.metadata, a.member, ()) =
      bytes.encode a.groupPublicKey ++
        (bytes.encode a.metadata ++ memberCodec.encode a.member) := by
    simp [referFields, htail]
  have hsize : referFields.headSize = 96 := rfl
  rw [referCodec, Codec.via, referFields_lawful.encode_length, htails, hsize]
  simp only [List.length_append]
  omega

/-! ## The two writes as calldata -/

/-- First four bytes of the keccak digest of
`register(string,bytes,bytes,(bytes,string,uint256,uint256,uint256,uint256),(bytes,…)[])`. -/
def registerSelector : Bytes := [0xcd, 0x43, 0x8f, 0x9b]

/-- First four bytes of the keccak digest of `refer(bytes,bytes,(bytes,…))`. -/
def referSelector : Bytes := [0xe0, 0xc4, 0xe5, 0x16]

/-- The canonical calldata of a write. -/
def encodeCall : Call → Bytes
  | .register args => registerSelector ++ registerCodec.encode args
  | .refer args => referSelector ++ referCodec.encode args

/-- Dispatch on the selector, then read the parameters; a length beyond 64 bits is refused. -/
def decodeCall (data : Bytes) : Option Call :=
  let call :=
    if data.take 4 = registerSelector then (registerCodec.decode (data.drop 4)).map Call.register
    else if data.take 4 = referSelector then (referCodec.decode (data.drop 4)).map Call.refer
    else none
  call.filter fun c => c.Fits

theorem decodeCall_fits {data : Bytes} {c : Call} (h : decodeCall data = some c) : c.Fits := by
  obtain ⟨-, hfits⟩ := Option.filter_eq_some_iff.mp h
  simpa using hfits

/-- What the canonical encoding says is what is read. -/
theorem decodeCall_encodeCall {c : Call} (h : c.Fits) : decodeCall (encodeCall c) = some c := by
  refine Option.filter_eq_some_iff.mpr ⟨?_, by simpa using h⟩
  cases c with
  | register args =>
      have hdec := registerCodec_lawful.decode_encode args [] (by
        have := RegisterArgs.Fits.encode_length_lt h
        simp only [List.append_nil]
        omega)
      rw [List.append_nil] at hdec
      simp [encodeCall, registerSelector, hdec]
  | refer args =>
      have hdec := referCodec_lawful.decode_encode args [] (by
        have := ReferArgs.Fits.encode_length_lt h
        simp only [List.append_nil]
        omega)
      rw [List.append_nil] at hdec
      simp [encodeCall, registerSelector, referSelector, hdec]

end P256Index.Contract
