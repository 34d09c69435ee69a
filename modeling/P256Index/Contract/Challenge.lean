import P256Index.Codec.Base64Url
import P256Index.Contract.Calldata

/-!
# Challenges and digests

What the keys sign. The hash functions, the P-256 precompile and the compiler's calldata decoder are
parameters (`Evm`): nothing here depends on what they compute, except that the decoder reads the
canonical encoding and bounds lengths. The three bindings and the content hash are `keccak256` of
ABI encodings, so on inputs without collisions each determines the fields it covers.
-/

namespace P256Index.Contract

open Abi

/-- The execution environment of the contract. `p256Verifier` is the precompile at `0x100`: `none`
is a failed `staticcall`, `some` its output. -/
structure Evm where
  keccak256 : Bytes → Bytes32
  sha256 : Bytes → Bytes32
  p256Verifier : Bytes → Option Bytes
  decode : Bytes → Option Call
  decode_fits : ∀ {data : Bytes} {c : Call}, decode data = some c → c.Fits
  decode_encodeCall : ∀ {c : Call}, c.Fits → decode (encodeCall c) = some c

/-- The frozen signature domain. -/
structure Domain where
  chainId : U256
  registry : Address
  deriving DecidableEq

/-! ## `Base64Url.encode32` -/

/-- `ALPHABET`. -/
def alphabet : Bytes := utf8 "ABCDEFGHIJKLMNOPQRSTUVWXYZabcdefghijklmnopqrstuvwxyz0123456789-_"

theorem alphabet_eq : alphabet = Base64Url.alphabet := by decide +kernel

/-- `ALPHABET[n & 0x3f]`. -/
def alphabetAt (n : Nat) : UInt8 := alphabet.getD (n &&& 0x3f) 0

/-- One iteration of the encoder's loop: the four characters of the three bytes at `i`. -/
def encodeChunk (value : Bytes) (i : Nat) : Bytes :=
  let chunk := ((value.getD i 0).toNat <<< 16) ||| ((value.getD (i + 1) 0).toNat <<< 8) |||
    (value.getD (i + 2) 0).toNat
  [alphabetAt (chunk >>> 18), alphabetAt (chunk >>> 12), alphabetAt (chunk >>> 6),
    alphabetAt chunk]

/-- The three characters of the two bytes at `i`. -/
def encodeTail (value : Bytes) (i : Nat) : Bytes :=
  let tail := ((value.getD i 0).toNat <<< 8) ||| (value.getD (i + 1) 0).toNat
  [alphabetAt (tail >>> 10), alphabetAt (tail >>> 4), alphabetAt (tail <<< 2)]

/-- Ten groups of three bytes, then the trailing two. -/
def encode32 (value : Bytes32) : Bytes :=
  ((List.range 10).flatMap fun k => encodeChunk value.val (3 * k)) ++ encodeTail value.val 30

theorem alphabetAt_eq (n : Nat) : alphabetAt n = Base64Url.sextet n := by
  have hand : n &&& 0x3f = n % 64 := Nat.and_two_pow_sub_one_eq_mod n 6
  rw [alphabetAt, Base64Url.sextet, hand, alphabet_eq]

theorem shiftLeft_or_byte (m : Nat) (b : UInt8) : (m <<< 8) ||| b.toNat = m * 256 + b.toNat := by
  rw [← Nat.shiftLeft_add_eq_or_of_lt (by simpa using b.toNat_lt), Nat.shiftLeft_eq]

theorem encodeChunk_cons (a b c : UInt8) (rest : Bytes) :
    encodeChunk (a :: b :: c :: rest) 0 =
      [Base64Url.sextet ((a.toNat * 65536 + b.toNat * 256 + c.toNat) / 262144),
        Base64Url.sextet ((a.toNat * 65536 + b.toNat * 256 + c.toNat) / 4096),
        Base64Url.sextet ((a.toNat * 65536 + b.toNat * 256 + c.toNat) / 64),
        Base64Url.sextet (a.toNat * 65536 + b.toNat * 256 + c.toNat)] := by
  have hchunk : (a.toNat <<< 16) ||| (b.toNat <<< 8) ||| c.toNat =
      a.toNat * 65536 + b.toNat * 256 + c.toNat := by
    have hshift : a.toNat <<< 16 = (a.toNat <<< 8) <<< 8 := by
      rw [← Nat.shiftLeft_add]
    rw [hshift, ← Nat.shiftLeft_or_distrib, shiftLeft_or_byte, shiftLeft_or_byte]
    ring
  simp only [encodeChunk, List.getD_cons_zero, List.getD_cons_succ, Nat.zero_add, hchunk,
    alphabetAt_eq, Nat.shiftRight_eq_div_pow]

theorem encodeChunk_succ (a b c : UInt8) (rest : Bytes) (k : Nat) :
    encodeChunk (a :: b :: c :: rest) (3 * (k + 1)) = encodeChunk rest (3 * k) := by
  have h0 : 3 * (k + 1) = 3 * k + 3 := by ring
  simp only [encodeChunk, h0, List.getD_cons_succ, Nat.add_right_comm _ 3]

theorem encodeTail_two (a b : UInt8) : encodeTail [a, b] 0 = Base64Url.encode [a, b] := by
  have htail : (a.toNat <<< 8) ||| b.toNat = a.toNat * 256 + b.toNat := shiftLeft_or_byte _ b
  simp only [encodeTail, List.getD_cons_zero, List.getD_cons_succ, Nat.zero_add, htail]
  simp only [alphabetAt_eq, Nat.shiftRight_eq_div_pow, Nat.shiftLeft_eq]
  rfl

theorem encodeTail_succ (a b c : UInt8) (rest : Bytes) (k : Nat) :
    encodeTail (a :: b :: c :: rest) (3 * (k + 1)) = encodeTail rest (3 * k) := by
  have h0 : 3 * (k + 1) = 3 * k + 3 := by ring
  simp only [encodeTail, h0, List.getD_cons_succ, Nat.add_right_comm _ 3]

/-- The loop over `k` groups and the tail is base64url of the `3k + 2` bytes. -/
theorem encodeChunks_eq (k : Nat) (b : Bytes) (h : b.length = 3 * k + 2) :
    ((List.range k).flatMap fun i => encodeChunk b (3 * i)) ++ encodeTail b (3 * k) =
      Base64Url.encode b := by
  induction k generalizing b with
  | zero =>
      obtain ⟨x, y, rfl⟩ := List.length_eq_two.mp (by simpa using h)
      simpa using encodeTail_two x y
  | succ k ih =>
      match b, h with
      | x :: y :: z :: rest, h =>
          have hrest : rest.length = 3 * k + 2 := by
            simp only [List.length_cons] at h
            omega
          rw [List.range_succ_eq_map, List.flatMap_cons, List.flatMap_map]
          simp only [encodeChunk_succ, encodeTail_succ, Nat.mul_zero, List.append_assoc]
          rw [ih rest hrest, encodeChunk_cons]
          rfl

/-- The contract's encoder is base64url. -/
theorem encode32_eq (v : Bytes32) : encode32 v = Base64Url.encode v.val :=
  encodeChunks_eq 10 v.val v.property

theorem encode32_injective : Function.Injective encode32 := by
  intro v w h
  rw [encode32_eq, encode32_eq] at h
  exact Subtype.ext (Base64Url.encode_injective h)

/-! ## The signed digests -/

/-- The components of a challenge preimage. -/
def challengeFields : Fields (U256 × Address × Bytes × Bytes × Bytes32 × Unit) :=
  .cons uint256 (.cons address (.cons bytes (.cons bytes (.cons bytes32 .nil))))

/-- Two byte strings: a member binding, or one member's contribution to the content hash. -/
def pairFields : Fields (Bytes × Bytes × Unit) := .cons bytes (.cons bytes .nil)

/-- Three byte strings: a reference binding. -/
def tripleFields : Fields (Bytes × Bytes × Bytes × Unit) :=
  .cons bytes (.cons bytes (.cons bytes .nil))

/-- The components of a content-hash preimage. -/
def contentFields : Fields (Bytes × Bytes × Bytes × List Bytes32 × Unit) :=
  .cons bytes (.cons bytes (.cons bytes (.cons (array bytes32) .nil)))

/-- `abi.encode(DOMAIN_CHAIN_ID, DOMAIN_REGISTRY, rpId, publicKey, binding)`. -/
def challengePreimage (d : Domain) (rpId publicKey : Bytes) (binding : Bytes32) : Bytes :=
  (Codec.tuple challengeFields).encode (d.chainId, d.registry, rpId, publicKey, binding, ())

/-- `abi.encode(a, b)`. -/
def pairPreimage (a b : Bytes) : Bytes := (Codec.tuple pairFields).encode (a, b, ())

/-- `abi.encode(groupPublicKey, attestation, metadata)`. -/
def triplePreimage (a b c : Bytes) : Bytes := (Codec.tuple tripleFields).encode (a, b, c, ())

/-- `abi.encode(rpId, metadata, groupPublicKey, memberHashes)`. -/
def contentPreimage (rpId metadata groupPublicKey : Bytes) (memberHashes : List Bytes32) : Bytes :=
  (Codec.tuple contentFields).encode (rpId, metadata, groupPublicKey, memberHashes, ())

variable (E : Evm)

/-- The storage-authorization challenge one key signs. -/
def challengeFor (d : Domain) (rpId publicKey : Bytes) (binding : Bytes32) : Bytes32 :=
  E.keccak256 (challengePreimage d rpId publicKey binding)

/-- The binding a member passkey signs. -/
def memberBindingFor (groupPublicKey attestation : Bytes) : Bytes32 :=
  E.keccak256 (pairPreimage groupPublicKey attestation)

/-- The binding a referring passkey signs. -/
def referenceBindingFor (groupPublicKey attestation metadata : Bytes) : Bytes32 :=
  E.keccak256 (triplePreimage groupPublicKey attestation metadata)

/-- One member's contribution to the content hash. -/
def memberHash (publicKey attestation : Bytes) : Bytes32 :=
  E.keccak256 (pairPreimage publicKey attestation)

/-- The founding digest over pairs of key and attestation, in order. -/
def contentHashOf (rpId metadata groupPublicKey : Bytes) (pairs : List (Bytes × Bytes)) : Bytes32 :=
  E.keccak256 (contentPreimage rpId metadata groupPublicKey
    (pairs.map fun p => memberHash E p.1 p.2))

/-- The group's frozen founding digest: what the group key signs. -/
def contentHashFor (rpId metadata groupPublicKey : Bytes) (members : List Member) : Bytes32 :=
  contentHashOf E rpId metadata groupPublicKey
    (members.map fun m => (m.publicKey, m.attestation))

theorem contentHashFor_eq (rpId metadata groupPublicKey : Bytes) (members : List Member) :
    contentHashFor E rpId metadata groupPublicKey members =
      E.keccak256 (contentPreimage rpId metadata groupPublicKey
        (members.map fun m => memberHash E m.publicKey m.attestation)) := by
  simp only [contentHashFor, contentHashOf, List.map_map, Function.comp_def]

/-! ## Preimages determine their fields -/

theorem challengeFields_lawful : challengeFields.Lawful := by
  have h := Fields.cons_lawful bytes_lawful (Fields.cons_lawful bytes32_lawful Fields.nil_lawful)
  have h := Fields.cons_lawful address_lawful (Fields.cons_lawful bytes_lawful h)
  exact Fields.cons_lawful uint256_lawful h

theorem pairFields_lawful : pairFields.Lawful :=
  Fields.cons_lawful bytes_lawful (Fields.cons_lawful bytes_lawful Fields.nil_lawful)

theorem tripleFields_lawful : tripleFields.Lawful :=
  Fields.cons_lawful bytes_lawful pairFields_lawful

theorem contentFields_lawful : contentFields.Lawful := by
  have h := Fields.cons_lawful (array_lawful bytes32_lawful (by decide)) Fields.nil_lawful
  have h := Fields.cons_lawful bytes_lawful (Fields.cons_lawful bytes_lawful h)
  exact Fields.cons_lawful bytes_lawful h

theorem challengePreimage_length (d : Domain) (rpId publicKey : Bytes) (binding : Bytes32) :
    (challengePreimage d rpId publicKey binding).length =
      160 + (bytes.encode rpId).length + (bytes.encode publicKey).length := by
  have htails : challengeFields.tails (d.chainId, d.registry, rpId, publicKey, binding, ()) =
      bytes.encode rpId ++ bytes.encode publicKey := by simp [challengeFields]
  rw [challengePreimage, challengeFields_lawful.encode_length, htails, List.length_append,
    Nat.add_assoc]
  rfl

theorem challengePreimage_injective {d d' : Domain} {r r' k k' : Bytes} {b b' : Bytes32}
    (hr : r.length < 2 ^ 64) (hk : k.length < 2 ^ 64)
    (h : challengePreimage d r k b = challengePreimage d' r' k' b') :
    d = d' ∧ r = r' ∧ k = k' ∧ b = b' := by
  have hlen : (challengePreimage d r k b).length < 2 ^ 256 := by
    have h1 := bytes_encode_length_le r
    have h2 := bytes_encode_length_le k
    rw [challengePreimage_length]
    omega
  have heq := (Codec.tuple_lawful challengeFields_lawful).encode_injective hlen h
  obtain ⟨cid, reg⟩ := d
  obtain ⟨cid', reg'⟩ := d'
  simp only [Prod.mk.injEq] at heq
  obtain ⟨rfl, rfl, rfl, rfl, rfl, -⟩ := heq
  exact ⟨rfl, rfl, rfl, rfl⟩

theorem pairPreimage_length (a b : Bytes) :
    (pairPreimage a b).length = 64 + (bytes.encode a).length + (bytes.encode b).length := by
  have htails : pairFields.tails (a, b, ()) = bytes.encode a ++ bytes.encode b := by
    simp [pairFields]
  rw [pairPreimage, pairFields_lawful.encode_length, htails, List.length_append, Nat.add_assoc]
  rfl

theorem pairPreimage_injective {a a' b b' : Bytes} (ha : a.length < 2 ^ 64)
    (hb : b.length < 2 ^ 64) (h : pairPreimage a b = pairPreimage a' b') : a = a' ∧ b = b' := by
  have hlen : (pairPreimage a b).length < 2 ^ 256 := by
    have h1 := bytes_encode_length_le a
    have h2 := bytes_encode_length_le b
    rw [pairPreimage_length]
    omega
  have heq := (Codec.tuple_lawful pairFields_lawful).encode_injective hlen h
  simp only [Prod.mk.injEq, and_true] at heq
  exact heq

theorem triplePreimage_injective {a a' b b' c c' : Bytes} (ha : a.length < 2 ^ 64)
    (hb : b.length < 2 ^ 64) (hc : c.length < 2 ^ 64)
    (h : triplePreimage a b c = triplePreimage a' b' c') : a = a' ∧ b = b' ∧ c = c' := by
  have hlen : (triplePreimage a b c).length < 2 ^ 256 := by
    have h1 := bytes_encode_length_le a
    have h2 := bytes_encode_length_le b
    have h3 := bytes_encode_length_le c
    have htails : tripleFields.tails (a, b, c, ()) =
        bytes.encode a ++ (bytes.encode b ++ bytes.encode c) := by simp [tripleFields]
    have hsize : tripleFields.headSize = 96 := rfl
    rw [triplePreimage, tripleFields_lawful.encode_length, htails, hsize, List.length_append,
      List.length_append]
    omega
  have heq := (Codec.tuple_lawful tripleFields_lawful).encode_injective hlen h
  simp only [Prod.mk.injEq, and_true] at heq
  exact heq

theorem contentPreimage_injective {r r' m m' g g' : Bytes} {hs hs' : List Bytes32}
    (hr : r.length < 2 ^ 64) (hm : m.length < 2 ^ 64) (hg : g.length < 2 ^ 64)
    (hn : hs.length < 2 ^ 64) (h : contentPreimage r m g hs = contentPreimage r' m' g' hs') :
    r = r' ∧ m = m' ∧ g = g' ∧ hs = hs' := by
  have hlen : (contentPreimage r m g hs).length < 2 ^ 256 := by
    have h1 := bytes_encode_length_le r
    have h2 := bytes_encode_length_le m
    have h3 := bytes_encode_length_le g
    have h4 : ((array bytes32).encode hs).length ≤ 32 + hs.length * (bytes32.headSize + 0) :=
      array_encode_length_le bytes32_lawful (fun v _ => by simp)
    have h5 : bytes32.headSize + 0 = 32 := rfl
    have htails : contentFields.tails (r, m, g, hs, ()) =
        bytes.encode r ++ (bytes.encode m ++ (bytes.encode g ++ (array bytes32).encode hs)) := by
      simp [contentFields]
    have hsize : contentFields.headSize = 128 := rfl
    rw [h5] at h4
    rw [contentPreimage, contentFields_lawful.encode_length, htails, hsize, List.length_append,
      List.length_append, List.length_append]
    omega
  have heq := (Codec.tuple_lawful contentFields_lawful).encode_injective hlen h
  simp only [Prod.mk.injEq, and_true] at heq
  exact heq

end P256Index.Contract
