import P256Index.Codec.Hex
import P256Index.Contract.Acceptance

/-!
# A recorded history

Five calls of one client, with the digests and signatures that Keccak-256, SHA-256 and P-256 give on
exactly these inputs, under the frozen domain of the deployed registry. The keys are the first four
multiples of the base point; the last two calls use keys of the first ones again, with other
metadata. Outside the recorded inputs the tables answer zero and the verifier rejects.
-/

namespace P256Index.Contract.Sample

/-- A recorded digest. -/
def digest (n : Nat) : Bytes32 := ⟨word n, word_length n⟩

/-- The uncompressed form of a point. -/
def point (x y : Nat) : Bytes := 4 :: (word x ++ word y)

theorem point_length (x y : Nat) : (point x y).length = 65 := by simp [point]

theorem coordinates_point {x y : Nat} (hx : x < 2 ^ 256) (hy : y < 2 ^ 256) :
    coordinates (point x y) = (x, y) := by
  have hleft : ((point x y).drop 1).take 32 = word x := by
    rw [point, List.drop_succ_cons, List.drop_zero]
    exact List.take_left' (word_length x)
  have hright : ((point x y).drop 33).take 32 = word y := by
    rw [point, List.drop_succ_cons, List.drop_left' (word_length x)]
    exact List.take_of_length_le (word_length y).le
  rw [coordinates, hleft, hright, ofBe_word hx, ofBe_word hy]

/-- A point of the curve is a valid key. -/
theorem validKey_point {x y : Nat} (hx : x < p256P) (hy : y < p256P) (hcurve : onCurve x y = true) :
    ValidKey (point x y) := by
  have hp : p256P < 2 ^ 256 := by norm_num [p256P]
  have hxy := coordinates_point (hx.trans hp) (hy.trans hp)
  exact ⟨point_length x y, rfl,
    by rw [hxy]; exact hx, by rw [hxy]; exact hy, by rw [hxy]; exact hcurve⟩

def domain : Domain where
  chainId := 100
  registry := 0x5266DfF591B9F9EecfEdb8E7EfEf6c687854edaf

def rpId : Bytes := utf8 "example.com"

def groupKey : Bytes :=
  point 0x6b17d1f2e12c4247f8bce6e563a440f277037d812deb33a0f4a13945d898c296
    0x4fe342e2fe1a7f9b8ee7eb4a7c0f9e162bce33576b315ececbb6406837bf51f5

def memberKey : Bytes :=
  point 0x7cf27b188d034f7e8a52380304b51ac3c08969e277f21b35a60b48fc47669978
    0x07775510db8ed040293d9ac69f7430dbba7dade63ce982299e04b79d227873d1

def otherGroupKey : Bytes :=
  point 0x5ecbe4d1a6330a44c8f7ef951d4bf165e6c6b721efada985fb41661bc6e7fd6c
    0x8734640c4998ff7e374b06ce1a64a2ecd82ab036384fb83d9a79b127a27d5032

def deviceKey : Bytes :=
  point 0xe2534a3532d08fbba02dde659ee62bd0031fe2db785596ef509302446b030852
    0xe0f1575a4c633cc719dfee5fda862d764efc96c3f30ee0055c42c23f184ed8c6

/-- The member's 20-byte attestation; the device has none. -/
def attestation : Bytes := 1 :: List.replicate 19 0

/-! ## Functions given by a record

A hash known on finitely many inputs; everything else is answered with zero. -/

/-- The digest on record. -/
def recorded (rows : List (Bytes × Nat)) (b : Bytes) : Bytes32 := digest ((rows.lookup b).getD 0)

/-- The digest of an input on record is that of its row. -/
theorem exists_recorded {rows : List (Bytes × Nat)} {b : Bytes} (hb : b ∈ rows.map Prod.fst) :
    ∃ n, (b, n) ∈ rows ∧ recorded rows b = digest n := by
  obtain ⟨⟨b, m⟩, hmem, rfl⟩ := List.mem_map.mp hb
  have hsome : (rows.lookup b).isSome := List.lookup_isSome_iff.mpr ⟨_, hmem, beq_self_eq_true b⟩
  obtain ⟨n, hn⟩ := Option.isSome_iff_exists.mp hsome
  obtain ⟨l, l', rfl, -⟩ := List.lookup_eq_some_iff.mp hn
  refine ⟨n, List.mem_append_right l List.mem_cons_self, ?_⟩
  rw [recorded, hn]
  rfl

/-- A record with one row for each input answers with that row. -/
theorem recorded_of_mem {rows : List (Bytes × Nat)} {b : Bytes} {n : Nat}
    (hkeys : (rows.map Prod.fst).Nodup) (h : (b, n) ∈ rows) : recorded rows b = digest n := by
  obtain ⟨m, hmem, hm⟩ := exists_recorded (List.mem_map_of_mem (f := Prod.fst) h)
  cases List.inj_on_of_nodup_map hkeys hmem h rfl
  exact hm

theorem digest_inj {m n : Nat} (hm : m < 2 ^ 256) (hn : n < 2 ^ 256) (h : digest m = digest n) :
    m = n :=
  word_injective hm hn (by simpa only [digest, Subtype.mk.injEq] using h)

theorem digest_ne {m n : Nat} (hm : m < 2 ^ 256) (hn : n < 2 ^ 256) (h : m ≠ n) :
    digest m ≠ digest n :=
  fun heq => h (digest_inj hm hn heq)

/-- A record with pairwise different digests has no collision among its inputs. -/
theorem recorded_injOn {rows : List (Bytes × Nat)}
    (h : (rows.map Prod.snd).Nodup ∧ ∀ row ∈ rows, row.2 < 2 ^ 256) :
    Set.InjOn (recorded rows) {b | b ∈ rows.map Prod.fst} := by
  intro b hb b' hb' heq
  obtain ⟨n, hmem, hn⟩ := exists_recorded hb
  obtain ⟨n', hmem', hn'⟩ := exists_recorded hb'
  have hdigest : digest n = digest n' := hn.symm.trans (heq.trans hn')
  have hsame : n = n' := digest_inj (h.2 (b, n) hmem) (h.2 (b', n') hmem') hdigest
  exact congrArg Prod.fst (List.inj_on_of_nodup_map h.1 hmem hmem' hsame)

/-! ## Signatures -/

/-- One signed challenge: who signed which binding, and the digests on the way to `(r, s)`. -/
structure Signature where
  key : Bytes
  binding : Nat
  challenge : Nat
  clientHash : Nat
  message : Nat
  r : U256
  s : U256

def authenticatorData : Bytes :=
  word 0xa379a6f6eeafb9a55e378c118034e2751e682fab9f2d30ab13d2125586ce1947 ++ [5, 0, 0, 0, 0]

theorem take_authenticatorData : authenticatorData.take 32 =
    word 0xa379a6f6eeafb9a55e378c118034e2751e682fab9f2d30ab13d2125586ce1947 :=
  List.take_left' (word_length _)

def Signature.clientDataJSON (σ : Signature) : Bytes :=
  utf8 "\x7b" ++ typeField ++ utf8 "," ++ challengeField (digest σ.challenge) ++ utf8 "\x7d"

def Signature.proof (σ : Signature) : Proof where
  authenticatorData := authenticatorData
  clientDataJSON := σ.clientDataJSON
  challengeIndex := 23
  typeIndex := 1
  r := σ.r
  s := σ.s

theorem Signature.clientDataJSON_length (σ : Signature) : σ.clientDataJSON.length = 81 := by
  have hfixed : (utf8 "\x7b" ++ typeField ++ utf8 ",").length = 23 ∧ (utf8 "\x7d").length = 1 := by
    decide +kernel
  rw [clientDataJSON, List.length_append, List.length_append, hfixed.1, hfixed.2,
    challengeField_length]

theorem Signature.proof_fits (σ : Signature) : σ.proof.Fits := by
  have hauthenticator : authenticatorData.length = 37 := by simp [authenticatorData]
  refine ⟨?_, ?_⟩
  · show authenticatorData.length < 2 ^ 64
    rw [hauthenticator]
    norm_num
  · show σ.clientDataJSON.length < 2 ^ 64
    rw [σ.clientDataJSON_length]
    norm_num

/-- The digests on the way to a signature are those on record, and the verifier knows it. -/
structure Signature.Known (E : Evm) (σ : Signature) : Prop where
  challenge : challengeFor E domain rpId σ.key (digest σ.binding) = digest σ.challenge
  rpId : authenticatorData.take 32 = (E.sha256 rpId).val
  client : E.sha256 σ.clientDataJSON = digest σ.clientHash
  message : E.sha256 (authenticatorData ++ word σ.clientHash) = digest σ.message
  accepted : E.p256Verifier (verifierInput (digest σ.message) σ.r.val σ.s.val
    (coordinates σ.key).1 (coordinates σ.key).2) = some (word 1)

theorem Signature.carries_type (σ : Signature) : Carries σ.clientDataJSON 1 typeField := by
  refine ⟨by decide +kernel, ?_⟩
  have hdrop : σ.clientDataJSON.drop 1 =
      typeField ++ (utf8 "," ++ challengeField (digest σ.challenge) ++ utf8 "\x7d") := by
    rw [clientDataJSON]
    simp only [List.append_assoc]
    exact List.drop_left' (by decide +kernel)
  show typeField <+: σ.clientDataJSON.drop 1
  rw [hdrop]
  exact List.prefix_append _ _

theorem Signature.carries_challenge (σ : Signature) :
    Carries σ.clientDataJSON 23 (challengeField (digest σ.challenge)) := by
  have hlength := challengeField_length (digest σ.challenge)
  refine ⟨?_, ?_⟩
  · rw [hlength]
    decide
  have hdrop : σ.clientDataJSON.drop 23 = challengeField (digest σ.challenge) ++ utf8 "\x7d" := by
    rw [clientDataJSON]
    simp only [List.append_assoc]
    rw [← List.append_assoc typeField, ← List.append_assoc (utf8 "\x7b")]
    exact List.drop_left' (by decide +kernel)
  show challengeField (digest σ.challenge) <+: σ.clientDataJSON.drop 23
  rw [hdrop]
  exact List.prefix_append _ _

/-- A known signature passes the contract's check. -/
theorem Signature.Known.proofOk {E : Evm} {σ : Signature} (h : σ.Known E) :
    ProofOk E σ.proof (challengeFor E domain Sample.rpId σ.key (digest σ.binding)) Sample.rpId
      (coordinates σ.key) where
  length_le := show 37 ≤ authenticatorData.length by decide +kernel
  rp_id := h.rpId
  user_present := show authenticatorData.getD 32 0 &&& 0x01 ≠ 0 by decide +kernel
  type_field := σ.carries_type
  challenge_field := by
    rw [h.challenge]
    exact σ.carries_challenge
  signature := by
    have hdigest : signedDigest E σ.proof = digest σ.message := by
      show E.sha256 (authenticatorData ++ (E.sha256 σ.clientDataJSON).val) = _
      rw [h.client]
      exact h.message
    rw [hdigest]
    exact h.accepted

/-- The group key over the content hash of its group. -/
def groupSignature : Signature where
  key := groupKey
  binding := 0x8d307f39c97f4a5f57c40dbf1f3d5372777387fe54613e726295915dae81a9dc
  challenge := 0x0aca84f1ab928bb2459cd3a31ad52787925997def7588cebb7ca8773f0ee0d91
  clientHash := 0x5c8d72daaa41a8c3dcb5b08c9c48e564acf52a53a193cff311e3910e2c849cd8
  message := 0x623e65b8839cc3811c5222459d29d04fbf3ca4b6a62818f14b166b6f72e5411e
  r := 0xb8fa1a4acbd900b788ff1f8524ccfff1dd2a3d6c917e4009af604fbd406db702
  s := 0x379447cea2a3b3a72f44f1fc5cddafd2f3f7a05b4de025e9c4c468e964c664fb

/-- The member joining the group. -/
def memberSignature : Signature where
  key := memberKey
  binding := 0x6c512b54a1ab77c03ad2747fa428bbf1de6f9b1e85aa5dcde9bec6072947e59c
  challenge := 0x22b191a4aef0ce768bee5f34be230dfb2d03d855ae5b758c0c3bdba253ba931f
  clientHash := 0x04551dd729f811dd8778815619af91bd4f7b28c2ecbf30f93231e17f9af0dc26
  message := 0xf967968a45d8113e335570453523397fdf042c2fc8b1622afc39231bd1f57310
  r := 0xccf7a87be5ca16eac008923dab1e28b8123105aa3ccd9918705222ca5d3a7cc6
  s := 0x67b93ee3157ffaf31fa2c17dc345a86b090cca40ac72b2490df2c9ef8a5279c7

/-- The second group's key over the content hash of its group. -/
def otherGroupSignature : Signature where
  key := otherGroupKey
  binding := 0xaa4f3aaa8830a728b11cb7cd35f86360725031b493c4d05e3e104fe53ae6f228
  challenge := 0xb3c679abecb534a98a596a938a54cb34941c9fd7bd98e650d1a499bb1384924a
  clientHash := 0x58bf1858a2d0e5eba282681928ed3c479dcb811f10306d2bdab56260ad331814
  message := 0xf6aef2db568125f7c3313e5c36cb7265ec7688cb84895a498bfe1602984a3c05
  r := 0xf728c57e47115f2e20cc0dcbf9680a1a9ac29309fc28928af7ea01cd36b4b7b9
  s := 0x67b159be062ce4387bb1b6c737bb46ea1aaa86df7371f95b2183b37b8e3219cd

/-- The same member joining the second group. -/
def otherMemberSignature : Signature where
  key := memberKey
  binding := 0x6a3d694fecdcbc1c30305be675e33ac032ab11aa78ae983fa80ebfbbd1dc9198
  challenge := 0x16fae9c281f8a228681720d609b89a570f11ac7d1b2399756cab9c9cb861c850
  clientHash := 0x1329ebc7220af1e9de36adf0b5b9bf917ced6e5a13fbc8d06ef04ae1b88244b3
  message := 0x5486db1b3e2bc0d36bba6e93f0bc78f68764b08c14f1cac75529c1bb0c24680d
  r := 0x494bea600d0f64cf2635a49bacdbf788172d8eb72087824f08e854d738e5cb9
  s := 0x4349d79574d56d11829985b52d546514a11edc0b68390177345b3360ec6e00db

/-- The device referring to the first group. -/
def deviceSignature : Signature where
  key := deviceKey
  binding := 0x1e5d94a67702290f818cc11ee1164ee1394be43017bc83d484c6a669bfb1608c
  challenge := 0xba5a5c46647b96f95381cf4f43c8a5cf0e689be766a5606134e817209f044a42
  clientHash := 0x467e5989cdcaa8cef0518dfeda5310b7a777f017d376ff20e429a81fef2fb675
  message := 0x1f04fee21a5f9b21f6f0b63455e453d96fa62373efaba84959fdcf05fe11f2d0
  r := 0xd72f8a16dbf6fc3302de69ad5caa862fcd805af2f8a4413ec17d4eba4ae4a409
  s := 0x463e278f581b1652ddd5c77ca9c2f256c635d191c9452f329ef006c006f794f3

/-- The first group's key over the content hash of a group with other metadata. -/
def secondGroupSignature : Signature where
  key := groupKey
  binding := 0x49bf7db8e5113c9bf1564e47a1807c32e6ab85d4a8974fd0996fdc2d95c3a88d
  challenge := 0xeaeeee86b0e1fcd98fbccfbb3953580104b5169c27c8c755c7030bd9ab4246fd
  clientHash := 0x0f74c14aa9fa85c18a03b781844b5cb77154b717bee3642d0ebd34c42fc956eb
  message := 0xf6e64d423bbb36336d1f91499b608531e64db6f288c115a7c0467f4e5d26b76e
  r := 0x563de1815d45ec472059b6eec5e07a65a3afc2390dd3da694faa2ddf35a87e25
  s := 0x7b18f12071d7ef78ff0883ee9055db01f959f841cccbaea39785a064228a00ca

/-- The device referring to the group with other metadata. -/
def secondDeviceSignature : Signature where
  key := deviceKey
  binding := 0x2d8ccdeda72eff6c1009cc0b6d56cd07d25c56994d95a0e0b9309f305304e335
  challenge := 0xb8645444bbe86ec0edf9ab7a3c9a23f7f34e5fb943d8d69d454a0fc7d6bd92d0
  clientHash := 0x5d0fc84474669b979e88acc742cb750546a2533640e8ab2b1006f6f903a14c52
  message := 0x27b8ad36c3cfea1b0d43f5a00b4e6767736c02def9dfcc38ef5bcc9b3a13d155
  r := 0xbfc2439471358b6a5f3956588c3bf33f5d13c0b97a279d4817cbf8dd9e8e0a6c
  s := 0x5302d8802e801be123a006ff3b344b74ab75e6154d3b726f774aab45482b0397

def signatures : List Signature :=
  [groupSignature, memberSignature, otherGroupSignature, otherMemberSignature, deviceSignature,
    secondGroupSignature, secondDeviceSignature]

/-! ## The recorded functions -/

def keccakRows : List (Bytes × Nat) :=
  [(groupKey, 0x0d08d3191a4c30523fbf7976d0e394810ed6857e564a12c873cb0e1123118bca),
    (memberKey, 0xde2d18dfb411213bcecc633a649b2fd9413efb875bc2332a2b84b96a3649d94b),
    (otherGroupKey, 0x2e26614adc81367d27c08487b831149ee04a78621bd84248417d84765d50ca8a),
    (deviceKey, 0xfb9cbf3700d7d2b3759b780a10b2c14037632137365e10ab7958c807cfdcd6fb),
    (attestation, 0xf22bb46edf31af855938befaa870ed3d86a4ad93a9ecf7c63ceaa80daea9ac4d),
    ([], 0xc5d2460186f7233c927e7db2dcc703c0e500b653ca82273b7bfad8045d85a470),
    ([1], 0x5fe7f977e71dba2ea1a68e21057beebb9be2ac30c6410aa38d4f3fbe41dcffd2),
    ([2], 0xf2ee15ea639b73fa3db9b34a245bdfa015c260c598b211bf05a1ecc4b3e3b4f2),
    (pairPreimage memberKey attestation,
      0x05b64a4e02a72ab4179a8998d9892fb5760aba76ccb7a8089809179c28bd1bda),
    (pairPreimage groupKey attestation, memberSignature.binding),
    (pairPreimage otherGroupKey attestation, otherMemberSignature.binding),
    (triplePreimage groupKey [] [0xaa], deviceSignature.binding),
    (contentPreimage rpId [] groupKey
      [digest 0x05b64a4e02a72ab4179a8998d9892fb5760aba76ccb7a8089809179c28bd1bda],
      groupSignature.binding),
    (contentPreimage rpId [] otherGroupKey
      [digest 0x05b64a4e02a72ab4179a8998d9892fb5760aba76ccb7a8089809179c28bd1bda],
      otherGroupSignature.binding),
    -- what the service itself hashes: the identity of the refer, and of a register without its
    -- group key
    (pairPreimage groupKey deviceKey,
      0x9cf27516dfccad48a5fea08d264abdb1e277b5d05c600b3c7b15ff3e9220505b),
    (beBytes 4 11 ++ rpId ++ beBytes 4 0 ++ beBytes 4 130 ++ utf8 (Hex.encode memberKey),
      0xe96c789f1304d5195f851e71027fe0e90ea1a2b38ca749def189824c23b4eea4),
    -- the same keys with other metadata
    (contentPreimage rpId [0xbb] groupKey
      [digest 0x05b64a4e02a72ab4179a8998d9892fb5760aba76ccb7a8089809179c28bd1bda],
      secondGroupSignature.binding),
    (triplePreimage groupKey [] [0xbb], secondDeviceSignature.binding),
    (beBytes 4 11 ++ rpId ++ beBytes 4 4 ++ utf8 "0xbb" ++ beBytes 4 130 ++
      utf8 (Hex.encode memberKey),
      0xaead673c1e708558a3e12da63072f1413f0be0bc8caba50f0459e96ae6bd9cc2)] ++
  signatures.map fun σ => (challengePreimage domain rpId σ.key (digest σ.binding), σ.challenge)

def sha256Rows : List (Bytes × Nat) :=
  (rpId, 0xa379a6f6eeafb9a55e378c118034e2751e682fab9f2d30ab13d2125586ce1947) ::
    signatures.flatMap fun σ => [(σ.clientDataJSON, σ.clientHash),
      (authenticatorData ++ word σ.clientHash, σ.message)]

def verified : List Bytes :=
  signatures.map fun σ => verifierInput (digest σ.message) σ.r.val σ.s.val
    (coordinates σ.key).1 (coordinates σ.key).2

def evm : Evm where
  keccak256 := recorded keccakRows
  sha256 := recorded sha256Rows
  p256Verifier := fun input => if input ∈ verified then some (word 1) else some []
  decode := decodeCall
  decode_fits := decodeCall_fits
  decode_encodeCall := decodeCall_encodeCall

/-! ## The calls -/

def member : Member where
  publicKey := memberKey
  attestation := attestation
  credentialId := [1]
  authenticatorAttachment := []
  transports := []
  proof := memberSignature.proof

/-- A group with one member. -/
def registerArgs : RegisterArgs where
  rpId := rpId
  metadata := []
  groupPublicKey := groupKey
  groupProof := groupSignature.proof
  members := [member]

/-- A second group with the same member. -/
def otherRegisterArgs : RegisterArgs where
  rpId := rpId
  metadata := []
  groupPublicKey := otherGroupKey
  groupProof := otherGroupSignature.proof
  members := [{ member with proof := otherMemberSignature.proof }]

/-- A later device pointing at the first group. -/
def referArgs : ReferArgs where
  groupPublicKey := groupKey
  metadata := [0xaa]
  member :=
    { publicKey := deviceKey
      attestation := []
      credentialId := [2]
      authenticatorAttachment := []
      transports := []
      proof := deviceSignature.proof }

/-- The first group's key signs a group with other metadata. -/
def secondArgs : RegisterArgs :=
  { registerArgs with metadata := [0xbb], groupProof := secondGroupSignature.proof }

/-- The device refers to the group with other metadata. -/
def secondReferArgs : ReferArgs :=
  { referArgs with
    metadata := [0xbb]
    member := { referArgs.member with proof := secondDeviceSignature.proof } }

def registerData : Bytes := encodeCall (.register registerArgs)

def otherRegisterData : Bytes := encodeCall (.register otherRegisterArgs)

def referData : Bytes := encodeCall (.refer referArgs)

def secondData : Bytes := encodeCall (.register secondArgs)

def secondReferData : Bytes := encodeCall (.refer secondReferArgs)

/-- The strings the record hashes. -/
def hashedStrings : Set Bytes := {b | b ∈ keccakRows.map Prod.fst}

instance (b : Bytes) : Decidable (b ∈ hashedStrings) :=
  inferInstanceAs (Decidable (b ∈ keccakRows.map Prod.fst))

theorem mem_hashedStrings {b : Bytes} {n : Nat} (h : (b, n) ∈ keccakRows) : b ∈ hashedStrings :=
  List.mem_map_of_mem (f := Prod.fst) h

theorem keccak256_injOn : Set.InjOn evm.keccak256 hashedStrings :=
  recorded_injOn (by decide +kernel)

theorem sha256_injOn : Set.InjOn evm.sha256 {b | b ∈ sha256Rows.map Prod.fst} :=
  recorded_injOn (by decide +kernel)

/-- Every input is on record once. -/
theorem nodup_keccakRows : (keccakRows.map Prod.fst).Nodup := by decide +kernel

theorem nodup_sha256Rows : (sha256Rows.map Prod.fst).Nodup := by decide +kernel

theorem keccak256_of_mem {b : Bytes} {n : Nat} (h : (b, n) ∈ keccakRows) :
    evm.keccak256 b = digest n :=
  recorded_of_mem nodup_keccakRows h

theorem sha256_of_mem {b : Bytes} {n : Nat} (h : (b, n) ∈ sha256Rows) : evm.sha256 b = digest n :=
  recorded_of_mem nodup_sha256Rows h

theorem p256Verifier_of_mem {input : Bytes} (h : input ∈ verified) :
    evm.p256Verifier input = some (word 1) :=
  if_pos h

/-- Every signature of the history is known. -/
theorem known {σ : Signature} (hσ : σ ∈ signatures) : σ.Known evm where
  challenge := by
    have hrow :
        (challengePreimage domain rpId σ.key (digest σ.binding), σ.challenge) ∈ keccakRows :=
      List.mem_append_right _ (List.mem_map.mpr ⟨σ, hσ, rfl⟩)
    exact keccak256_of_mem hrow
  rpId := by
    have hrow :
        (rpId, 0xa379a6f6eeafb9a55e378c118034e2751e682fab9f2d30ab13d2125586ce1947) ∈ sha256Rows :=
      List.mem_cons_self
    rw [sha256_of_mem hrow]
    exact take_authenticatorData
  client := by
    have hrow : (σ.clientDataJSON, σ.clientHash) ∈ sha256Rows :=
      List.mem_cons_of_mem _ (List.mem_flatMap.mpr ⟨σ, hσ, List.mem_cons_self⟩)
    exact sha256_of_mem hrow
  message := by
    have hrow : (authenticatorData ++ word σ.clientHash, σ.message) ∈ sha256Rows :=
      List.mem_cons_of_mem _
        (List.mem_flatMap.mpr ⟨σ, hσ, List.mem_cons_of_mem _ List.mem_cons_self⟩)
    exact sha256_of_mem hrow
  accepted := by
    have hmem : verifierInput (digest σ.message) σ.r.val σ.s.val (coordinates σ.key).1
        (coordinates σ.key).2 ∈ verified := List.mem_map.mpr ⟨σ, hσ, rfl⟩
    exact p256Verifier_of_mem hmem

theorem mem_verified {input : Bytes} (h : evm.p256Verifier input = some (word 1)) :
    input ∈ verified := by
  by_contra hno
  rw [show evm.p256Verifier input = some [] from if_neg hno] at h
  exact absurd (congrArg List.length (Option.some.inj h)) (by decide)

/-- The verifier accepts a signature for one message and key only. -/
theorem p256Verifier_unique {m m' : Bytes32} {r s x y x' y' : Nat}
    (h : evm.p256Verifier (verifierInput m r s x y) = some (word 1))
    (h' : evm.p256Verifier (verifierInput m' r s x' y') = some (word 1)) :
    verifierInput m r s x y = verifierInput m' r s x' y' := by
  have hmid : ∀ (m : Bytes32) (r s x y : Nat),
      ((verifierInput m r s x y).drop 32).take 64 = word r ++ word s := by
    intro m r s x y
    simp only [verifierInput, List.append_assoc]
    rw [List.drop_left' m.property, ← List.append_assoc, List.take_left' (by simp)]
  have hnodup : (verified.map fun i => (i.drop 32).take 64).Nodup := by
    -- the signatures on record differ in their first component
    have hfirst : (signatures.map fun σ => σ.r.val).Nodup := by decide +kernel
    have hread : ∀ σ : Signature, ofBe ((word σ.r.val ++ word σ.s.val).take 32) = σ.r.val := by
      intro σ
      rw [List.take_left' (word_length _), ofBe_word σ.r.isLt]
    refine List.Nodup.of_map (fun b => ofBe (b.take 32)) ?_
    simpa only [verified, List.map_map, Function.comp_def, hmid, hread] using hfirst
  exact List.inj_on_of_nodup_map hnodup (mem_verified h) (mem_verified h')
    ((hmid m r s x y).trans (hmid m' r s x' y').symm)

theorem register_fits {key metadata : Bytes} (σ τ : Signature) (hkey : key.length = 65)
    (hmetadata : metadata.length ≤ 1) : RegisterArgs.Fits ⟨rpId, metadata, key, σ.proof,
      [⟨memberKey, attestation, [1], [], [], τ.proof⟩]⟩ := by
  have hrpId : rpId.length = 11 := by decide
  have hmember : Member.Fits ⟨memberKey, attestation, [1], [], [], τ.proof⟩ :=
    ⟨by simp [memberKey,
      point_length], by simp [attestation], by simp, by simp, by simp, τ.proof_fits⟩
  refine ⟨by simp [hrpId], ?_, by simp [hkey], σ.proof_fits, by simp,
    List.forall_mem_singleton.mpr hmember⟩
  exact hmetadata.trans_lt (by norm_num)

theorem refer_fits {metadata : Bytes} (σ : Signature) (hmetadata : metadata.length ≤ 1) :
    ReferArgs.Fits ⟨groupKey, metadata, ⟨deviceKey, [], [2], [], [], σ.proof⟩⟩ := by
  have hmember : Member.Fits ⟨deviceKey, [], [2], [], [], σ.proof⟩ :=
    ⟨by simp [deviceKey, point_length], by simp, by simp, by simp, by simp, σ.proof_fits⟩
  exact ⟨by simp [groupKey, point_length], hmetadata.trans_lt (by norm_num), hmember⟩

theorem decode_registerData : evm.decode registerData = some (.register registerArgs) :=
  evm.decode_encodeCall
    (register_fits groupSignature memberSignature (point_length _ _) (Nat.zero_le 1))

theorem decode_otherRegisterData :
    evm.decode otherRegisterData = some (.register otherRegisterArgs) :=
  evm.decode_encodeCall
    (register_fits otherGroupSignature otherMemberSignature (point_length _ _) (Nat.zero_le 1))

theorem decode_referData : evm.decode referData = some (.refer referArgs) :=
  evm.decode_encodeCall (refer_fits deviceSignature (Nat.le_refl 1))

theorem decode_secondData : evm.decode secondData = some (.register secondArgs) :=
  evm.decode_encodeCall
    (register_fits secondGroupSignature memberSignature (point_length _ _) (Nat.le_refl 1))

theorem decode_secondReferData : evm.decode secondReferData = some (.refer secondReferArgs) :=
  evm.decode_encodeCall (refer_fits secondDeviceSignature (Nat.le_refl 1))

theorem groupKey_valid : ValidKey groupKey :=
  validKey_point (by norm_num [p256P]) (by norm_num [p256P]) (by norm_num [onCurve, p256P, p256B])

theorem memberKey_valid : ValidKey memberKey :=
  validKey_point (by norm_num [p256P]) (by norm_num [p256P]) (by norm_num [onCurve, p256P, p256B])

theorem otherGroupKey_valid : ValidKey otherGroupKey :=
  validKey_point (by norm_num [p256P]) (by norm_num [p256P]) (by norm_num [onCurve, p256P, p256B])

theorem deviceKey_valid : ValidKey deviceKey :=
  validKey_point (by norm_num [p256P]) (by norm_num [p256P]) (by norm_num [onCurve, p256P, p256B])

/-- A call for a group with the recorded member passes the checks that look at it alone. -/
theorem registerOk_of_known {E : Evm} {key metadata : Bytes} {σ τ : Signature} (hσ : σ.Known E)
    (hτ : τ.Known E) (hgroup : ValidKey key) (hkey : σ.key = key) (hmemberKey : τ.key = memberKey)
    (hmetadata : metadata.length ≤ maxMetadataLength)
    (hmember : memberHash E memberKey attestation =
      digest 0x05b64a4e02a72ab4179a8998d9892fb5760aba76ccb7a8089809179c28bd1bda)
    (hcontent : E.keccak256
      (contentPreimage rpId metadata key
        [digest 0x05b64a4e02a72ab4179a8998d9892fb5760aba76ccb7a8089809179c28bd1bda]) =
          digest σ.binding)
    (hbinding : memberBindingFor E key attestation = digest τ.binding)
    (hne : E.keccak256 key ≠ E.keccak256 memberKey) :
    RegisterOk E domain ⟨rpId, metadata, key, σ.proof,
      [⟨memberKey, attestation, [1], [], [], τ.proof⟩]⟩ where
  rpId := show rpId.length ≠ 0 ∧ rpId.length ≤ maxRpIdLength by decide +kernel
  metadata := hmetadata
  members_pos := Nat.one_ne_zero
  members_le := show 1 ≤ maxMembers by decide
  group_key := hgroup
  group_proof := by
    have hhash :
        contentHashFor E rpId metadata key [⟨memberKey, attestation, [1], [], [], τ.proof⟩] =
        digest σ.binding := by
      rw [contentHashFor_eq, List.map_singleton, hmember]
      exact hcontent
    have hproof := hσ.proofOk
    rw [hkey, ← hhash] at hproof
    exact hproof
  distinct := List.nodup_singleton _
  not_group := fun hmem => hne (List.mem_singleton.mp hmem)
  members := by
    intro m hm
    cases List.mem_singleton.mp hm
    have hproof := hτ.proofOk
    rw [hmemberKey, ← hbinding] at hproof
    exact ⟨memberKey_valid, hproof⟩

theorem keccak256_groupKey : evm.keccak256 groupKey =
    digest 0x0d08d3191a4c30523fbf7976d0e394810ed6857e564a12c873cb0e1123118bca :=
  keccak256_of_mem List.mem_cons_self

theorem keccak256_memberKey : evm.keccak256 memberKey =
    digest 0xde2d18dfb411213bcecc633a649b2fd9413efb875bc2332a2b84b96a3649d94b :=
  keccak256_of_mem (List.mem_of_getElem? (i := 1) rfl)

theorem keccak256_otherGroupKey : evm.keccak256 otherGroupKey =
    digest 0x2e26614adc81367d27c08487b831149ee04a78621bd84248417d84765d50ca8a :=
  keccak256_of_mem (List.mem_of_getElem? (i := 2) rfl)

theorem keccak256_deviceKey : evm.keccak256 deviceKey =
    digest 0xfb9cbf3700d7d2b3759b780a10b2c14037632137365e10ab7958c807cfdcd6fb :=
  keccak256_of_mem (List.mem_of_getElem? (i := 3) rfl)

theorem groupKey_ne_memberKey : evm.keccak256 groupKey ≠ evm.keccak256 memberKey := by
  rw [keccak256_groupKey, keccak256_memberKey]
  exact digest_ne (by norm_num) (by norm_num) (by norm_num)

theorem deviceKey_ne_groupKey : evm.keccak256 deviceKey ≠ evm.keccak256 groupKey := by
  rw [keccak256_deviceKey, keccak256_groupKey]
  exact digest_ne (by norm_num) (by norm_num) (by norm_num)

theorem deviceKey_ne_memberKey : evm.keccak256 deviceKey ≠ evm.keccak256 memberKey := by
  rw [keccak256_deviceKey, keccak256_memberKey]
  exact digest_ne (by norm_num) (by norm_num) (by norm_num)

theorem memberHash_member : memberHash evm memberKey attestation =
    digest 0x05b64a4e02a72ab4179a8998d9892fb5760aba76ccb7a8089809179c28bd1bda := by
  have hrow : (pairPreimage memberKey attestation,
      0x05b64a4e02a72ab4179a8998d9892fb5760aba76ccb7a8089809179c28bd1bda) ∈ keccakRows :=
    List.mem_of_getElem? (i := 8) rfl
  exact keccak256_of_mem hrow

/-- The digest of the group with other metadata is on record. -/
theorem contentHash_second :
    contentHashFor evm rpId [0xbb] groupKey [member] = digest secondGroupSignature.binding := by
  have hrow : (contentPreimage rpId [0xbb] groupKey
      [digest 0x05b64a4e02a72ab4179a8998d9892fb5760aba76ccb7a8089809179c28bd1bda],
      secondGroupSignature.binding) ∈ keccakRows := List.mem_of_getElem? (i := 16) rfl
  rw [contentHashFor_eq, List.map_singleton]
  show evm.keccak256
      (contentPreimage rpId [0xbb] groupKey [memberHash evm memberKey attestation]) = _
  rw [memberHash_member]
  exact keccak256_of_mem hrow

/-- The group's founding digest is on record. -/
theorem content_row : (contentPreimage rpId [] groupKey
    ([member].map fun m => memberHash evm m.publicKey m.attestation), groupSignature.binding) ∈
      keccakRows := by
  have hrow : (contentPreimage rpId [] groupKey
      [digest 0x05b64a4e02a72ab4179a8998d9892fb5760aba76ccb7a8089809179c28bd1bda],
      groupSignature.binding) ∈ keccakRows := List.mem_of_getElem? (i := 12) rfl
  rw [List.map_singleton]
  show (contentPreimage rpId [] groupKey [memberHash evm memberKey attestation], _) ∈ keccakRows
  rw [memberHash_member]
  exact hrow

theorem contentHash_member :
    contentHashFor evm rpId [] groupKey [member] = digest groupSignature.binding := by
  rw [contentHashFor_eq]
  exact keccak256_of_mem content_row

theorem keccak256_groupKey_deviceKey : evm.keccak256 (pairPreimage groupKey deviceKey) =
    digest 0x9cf27516dfccad48a5fea08d264abdb1e277b5d05c600b3c7b15ff3e9220505b := by
  have hrow : (pairPreimage groupKey deviceKey,
      0x9cf27516dfccad48a5fea08d264abdb1e277b5d05c600b3c7b15ff3e9220505b) ∈ keccakRows :=
    List.mem_of_getElem? (i := 14) rfl
  exact keccak256_of_mem hrow

/-- The group is registered on the empty storage. -/
theorem registerArgs_ok : RegisterOk evm domain registerArgs := by
  have hσ : groupSignature.Known evm := known (List.mem_of_getElem? (i := 0) rfl)
  have hτ : memberSignature.Known evm := known (List.mem_of_getElem? (i := 1) rfl)
  have hbinding : (pairPreimage groupKey attestation, memberSignature.binding) ∈ keccakRows :=
    List.mem_of_getElem? (i := 9) rfl
  have hcontent : (contentPreimage rpId [] groupKey
      [digest 0x05b64a4e02a72ab4179a8998d9892fb5760aba76ccb7a8089809179c28bd1bda],
      groupSignature.binding) ∈ keccakRows := List.mem_of_getElem? (i := 12) rfl
  exact registerOk_of_known hσ hτ groupKey_valid rfl rfl (Nat.zero_le _) memberHash_member
    (keccak256_of_mem hcontent) (keccak256_of_mem hbinding) groupKey_ne_memberKey

theorem secondArgs_ok : RegisterOk evm domain secondArgs := by
  have hσ : secondGroupSignature.Known evm := known (List.mem_of_getElem? (i := 5) rfl)
  have hτ : memberSignature.Known evm := known (List.mem_of_getElem? (i := 1) rfl)
  have hbinding : (pairPreimage groupKey attestation, memberSignature.binding) ∈ keccakRows :=
    List.mem_of_getElem? (i := 9) rfl
  have hcontent : (contentPreimage rpId [0xbb] groupKey
      [digest 0x05b64a4e02a72ab4179a8998d9892fb5760aba76ccb7a8089809179c28bd1bda],
      secondGroupSignature.binding) ∈ keccakRows := List.mem_of_getElem? (i := 16) rfl
  exact registerOk_of_known hσ hτ groupKey_valid rfl rfl (by decide) memberHash_member
    (keccak256_of_mem hcontent) (keccak256_of_mem hbinding) groupKey_ne_memberKey

theorem otherRegisterArgs_ok : RegisterOk evm domain otherRegisterArgs := by
  have hσ : otherGroupSignature.Known evm := known (List.mem_of_getElem? (i := 2) rfl)
  have hτ : otherMemberSignature.Known evm := known (List.mem_of_getElem? (i := 3) rfl)
  have hbinding :
      (pairPreimage otherGroupKey attestation, otherMemberSignature.binding) ∈ keccakRows :=
    List.mem_of_getElem? (i := 10) rfl
  have hcontent : (contentPreimage rpId [] otherGroupKey
      [digest 0x05b64a4e02a72ab4179a8998d9892fb5760aba76ccb7a8089809179c28bd1bda],
      otherGroupSignature.binding) ∈ keccakRows := List.mem_of_getElem? (i := 13) rfl
  have hne : evm.keccak256 otherGroupKey ≠ evm.keccak256 memberKey := by
    rw [keccak256_otherGroupKey, keccak256_memberKey]
    exact digest_ne (by norm_num) (by norm_num) (by norm_num)
  exact registerOk_of_known hσ hτ otherGroupKey_valid rfl rfl (Nat.zero_le _) memberHash_member
    (keccak256_of_mem hcontent) (keccak256_of_mem hbinding) hne

/-- A reference of the recorded device passes the checks that look at it and at the rpId. -/
theorem referOk_of_known {E : Evm} {metadata : Bytes} {σ : Signature} (hσ : σ.Known E)
    (hkey : σ.key = deviceKey) (hmetadata : metadata.length ≤ maxMetadataLength)
    (hbinding : referenceBindingFor E groupKey [] metadata = digest σ.binding)
    (hne : E.keccak256 deviceKey ≠ E.keccak256 groupKey) :
    ReferOk E domain rpId ⟨groupKey, metadata, ⟨deviceKey, [], [2], [], [], σ.proof⟩⟩ where
  metadata := hmetadata
  not_group := hne
  key := deviceKey_valid
  proof := by
    have hproof := hσ.proofOk
    rw [hkey, ← hbinding] at hproof
    exact hproof

theorem referArgs_ok : ReferOk evm domain rpId referArgs := by
  have hσ : deviceSignature.Known evm := known (List.mem_of_getElem? (i := 4) rfl)
  have hbinding : (triplePreimage groupKey [] [0xaa], deviceSignature.binding) ∈ keccakRows :=
    List.mem_of_getElem? (i := 11) rfl
  exact referOk_of_known hσ rfl (by decide) (keccak256_of_mem hbinding) deviceKey_ne_groupKey

theorem secondReferArgs_ok : ReferOk evm domain rpId secondReferArgs := by
  have hσ : secondDeviceSignature.Known evm := known (List.mem_of_getElem? (i := 6) rfl)
  have hbinding : (triplePreimage groupKey [] [0xbb], secondDeviceSignature.binding) ∈ keccakRows :=
    List.mem_of_getElem? (i := 17) rfl
  exact referOk_of_known hσ rfl (by decide) (keccak256_of_mem hbinding) deviceKey_ne_groupKey

theorem member_firstSightOk : FirstSightOk member := by decide

/-- The storage after the first group was registered. -/
def registered : Registry := Registry.empty.registered evm 0 registerData registerArgs

theorem call_registerData : call evm domain 0 registerData Registry.empty = .ok registered := by
  apply call_eq_ok.mpr (Or.inl ⟨_, decode_registerData, _⟩)
  apply (register_eq_ok fun _ => Nat.le_refl 0).mpr ⟨registerArgs_ok, rfl, _, rfl⟩
  intro m hm
  rw [List.mem_singleton.mp hm]
  exact Or.inl ⟨rfl, member_firstSightOk⟩

theorem reachable_registered : Reachable evm domain registered :=
  Reachable.call Reachable.empty call_registerData

/-- The storage after the device referred to the group as well. -/
def referred : Registry := registered.referred evm 0 referData 0 referArgs

theorem registered_groupKey :
    registered.unitIdPlusOneByGroupKey (evm.keccak256 groupKey) = 0 + 1 := by
  have hupdate : registered.unitIdPlusOneByGroupKey =
      Function.update (fun _ => 0) (evm.keccak256 groupKey) (0 + 1) := rfl
  rw [hupdate, Function.update_self]

theorem registered_deviceKey : registered.entryIdPlusOneByKey (evm.keccak256 deviceKey) = 0 := by
  have hupdate : registered.entryIdPlusOneByKey =
      Function.update (fun _ => 0) (evm.keccak256 memberKey) (0 + 1) := rfl
  rw [hupdate, Function.update_of_ne deviceKey_ne_memberKey]

theorem call_referData : call evm domain 0 referData registered = .ok referred := by
  have hfirst : FirstSightOk referArgs.member := by decide
  refine call_eq_ok.mpr (Or.inr ⟨_, decode_referData, ?_⟩)
  exact refer_eq_ok.mpr ⟨0, registerArgs.unit evm 0, registered_groupKey, rfl, referArgs_ok,
    Or.inl ⟨registered_deviceKey, hfirst⟩, rfl, rfl⟩

/-- The device is new, so the reference creates its entry. -/
theorem resolved_device :
    registered.resolved evm 0 referArgs.member =
      registered.pushEntry (evm.keccak256 deviceKey) (referArgs.member.entry 0) :=
  if_pos registered_deviceKey

theorem referred_entries : referred.entries = [member.entry 0, referArgs.member.entry 0] := by
  rw [referred, Registry.referred, resolved_device]
  rfl

theorem referred_units : referred.units = [registerArgs.unit evm 0] := by
  rw [referred, Registry.referred, resolved_device]
  rfl

theorem referred_references : referred.references.length = 1 := by
  rw [referred, Registry.referred, resolved_device]
  rfl

theorem reachable_referred : Reachable evm domain referred :=
  Reachable.call reachable_registered call_referData

end P256Index.Contract.Sample
