import P256Index.Contract.Sample
import P256Index.Contract.Views
import P256Index.Registrar.Admission
import P256Index.Registrar.Fields

/-!
# What admission accepts, the contract accepts

Two validators check one write: the service over hex text and machine words, the contract over
calldata. `validated_write` compares them. The calldata of a validated task can always be built, and
a registry with the same signature domain turns it down only for something in its own state, an
`Obstacle`; no check of the contract on the call alone is left to fail.
-/

namespace P256Index.Registrar

open Contract (ValidKey ProofOk FirstSightOk RegisterOk ReferOk MemberOk Registry coordinates)

variable {K : P256Crate} {E : Contract.Evm}

/-! ## The crate and the chain -/

/-- The `p256` crate and the chain's verifier agree on uncompressed keys, the only ones either side
lets through: the crate reads exactly the points of the curve, and both take the same signatures of
the same digests under the keys it reads. -/
structure CrateAgrees (K : P256Crate) (E : Contract.Evm) : Prop where
  points : ∀ key : Bytes, key.length = 65 → key.headD 0 = 4 →
    (K.fromSec1Bytes key = true ↔ ValidKey key)
  signatures : ∀ key : Bytes, key.length = 65 → key.headD 0 = 4 → K.fromSec1Bytes key = true →
    ∀ digest r s : Bytes32,
    (K.fromScalars r s = true ∧ K.verifyPrehash key digest r s = true ↔
      E.p256Verifier (Contract.verifierInput digest (ofBe r.val) (ofBe s.val) (coordinates key).1
        (coordinates key).2) = some (word 1))

theorem KeyTaken.valid {key : Bytes} (h : KeyTaken K key) (hK : CrateAgrees K E) : ValidKey key :=
  (hK.points key h.length_eq h.head_eq).mp h.read

theorem ProofAccepted.proofOk {proof : Proof} {sol : Contract.Proof} {challenge : Bytes32}
    {rpId : String} {key : Bytes} (h : ProofAccepted E K proof sol challenge rpId key)
    (hK : CrateAgrees K E) (hkey : ValidKey key) :
    ProofOk E sol challenge (utf8 rpId) (coordinates key) where
  length_le := h.length_le
  rp_id := h.rp_id
  user_present := h.user_present
  type_field := h.type_field
  challenge_field := h.challenge_field
  signature := by
    obtain ⟨r, s, hr, hs, hrange, hver⟩ := h.verified
    rw [hr, hs]
    exact (hK.signatures key hkey.length_eq hkey.head_eq h.read _ r s).mp ⟨hrange, hver⟩

/-! ## Sizes -/

theorem parseHexBytes_length_le {value : String} {b : Bytes} (h : parseHexBytes value = some b) :
    b.length ≤ (utf8 value).length := by
  have hlen := Hex.length_of_decode h
  have hstrip : (stripHexMarker value.toList).length ≤ value.toList.length := by
    unfold stripHexMarker
    split
    · rename_i rest heq
      rw [heq, List.length_cons, List.length_cons]
      omega
    · exact le_refl _
  have hutf := length_le_utf8 value
  omega

/-- Text in memory is short enough for calldata. -/
theorem proofSol_fits {proof : Proof} {sol : Contract.Proof} (h : proofSol proof = some sol) :
    sol.Fits := by
  simp only [proofSol, Option.bind_eq_bind, Option.bind_eq_some_iff, Option.pure_def,
    Option.some.injEq] at h
  obtain ⟨auth, hauth, r, -, s, -, rfl⟩ := h
  have hle := parseHexBytes_length_le hauth
  have hauthText := proof.authenticatorData.property
  have hclientText := proof.clientDataJSON.property
  refine ⟨?_, ?_⟩
  · show auth.length < 2 ^ 64
    omega
  · show (utf8 proof.clientDataJSON.val).length < 2 ^ 64
    omega

/-! ## The other direction

A proof the contract takes, given as text, is one the service takes. -/

theorem checkSubstring_of_carries {data expected : Bytes} {offset : UInt64}
    (hdata : data.length < 2 ^ 64) (hne : expected ≠ [])
    (h : Contract.Carries data (u256OfU64 offset) expected) :
    checkSubstring data offset expected = true := by
  obtain ⟨-, htake⟩ := h
  replace htake : expected <+: data.drop offset.toNat := htake
  have hpos := List.length_pos_iff.mpr hne
  have hle := htake.length_le
  rw [List.length_drop] at hle
  have hend : offset.toNat + expected.length ≤ data.length := by omega
  have hword : offset.toNat + expected.length < 2 ^ 64 := by omega
  simp only [checkSubstring, hword, hend, decide_true, Bool.true_and, beq_iff_eq]
  exact (List.prefix_iff_eq_take.mp htake).symm

theorem challengeField_ne_nil (challenge : Bytes32) : Contract.challengeField challenge ≠ [] := by
  rw [Contract.challengeField, List.append_assoc]
  exact List.append_ne_nil_of_left_ne_nil (by decide +kernel) _

theorem verifyProof_of_proofOk {proof : Proof} {sol : Contract.Proof} {challenge : Bytes32}
    {rpId : String} {key : Bytes} (hK : CrateAgrees K E) (hparsed : proofSol proof = some sol)
    (hkey : ValidKey key) (h : ProofOk E sol challenge (utf8 rpId) (coordinates key)) :
    verifyProof E K proof challenge rpId key = .ok () := by
  have hfits := (proofSol_fits hparsed).2
  simp only [proofSol, Option.bind_eq_bind, Option.bind_eq_some_iff, Option.pure_def,
    Option.some.injEq] at hparsed
  obtain ⟨auth, hauth, r, hr, s, hs, rfl⟩ := hparsed
  have hread := (hK.points key hkey.length_eq hkey.head_eq).mpr hkey
  obtain ⟨hrange, hver⟩ :=
    (hK.signatures key hkey.length_eq hkey.head_eq hread _ r s).mpr h.signature
  simp only [verifyProof, Except.bind_eq_ok, revertIf_eq_ok, okOr_eq_ok, exists_const,
    not_lt, not_not, Bool.not_eq_false, ne_eq]
  refine ⟨auth, hauth, h.length_le, h.rp_id, h.user_present, ?_, ?_, hread, r, hr, s,
    hs, hrange, hver⟩
  · exact checkSubstring_of_carries hfits (by decide +kernel) h.type_field
  · rw [challengeField_eq]
    exact checkSubstring_of_carries hfits (challengeField_ne_nil challenge) h.challenge_field

/-! ## Members -/

/-- A member of a task and the contract's view of it: every decoder succeeds, and the contract's
bounds are met. -/
structure Translated (E : Contract.Evm) (member : Member) (m : Contract.Member) : Prop where
  sol : memberSol member = some m
  proof_eq : proofSol member.proof = some m.proof
  key_eq : m.publicKey = keyBytesOf member.publicKey
  attestation_eq : m.attestation = fieldBytesOf member.attestation
  credentialId_eq : m.credentialId = fieldBytesOf member.credentialId
  hash : memberHash E member = some (Contract.memberHash E m.publicKey m.attestation)
  first : FirstSightOk m
  fits : m.Fits

theorem AttestationShape.validate {bytes : Bytes} (h : AttestationShape bytes) :
    Contract.validateAttestation bytes = .ok () := by
  unfold Contract.validateAttestation
  rcases h with rfl | ⟨hlen, hhead⟩
  · rfl
  · have hne : bytes.length ≠ 0 := by
      rw [hlen]
      decide
    rw [if_neg hne, revertIf_eq_ok]
    rintro (h | h)
    · exact h hlen
    · exact h hhead

section Fields

variable {member : Member} {key attestation credentialId : Bytes}

theorem MemberFields.key_eq (h : MemberFields K member key attestation credentialId) :
    keyBytesOf member.publicKey = key := by
  rw [h.key_text, keyBytesOf_encode]

theorem MemberFields.attestation_eq (h : MemberFields K member key attestation credentialId) :
    fieldBytesOf member.attestation = attestation := by
  rw [h.attestation_text, fieldBytesOf_normalHex]

theorem MemberFields.memberHash_eq (h : MemberFields K member key attestation credentialId) :
    memberHash E member = some (Contract.memberHash E (keyBytesOf member.publicKey)
      (fieldBytesOf member.attestation)) := by
  rw [h.key_eq, h.attestation_eq]
  simp [memberHash, Contract.memberHash, h.key_text, h.attestation_text]

/-- A validated member has its form in calldata. -/
theorem MemberFields.exists_translated (h : MemberFields K member key attestation credentialId)
    {sol : Contract.Proof} (hproof : proofSol member.proof = some sol) :
    ∃ m, Translated E member m := by
  have hkey := h.key_eq
  have hatt := h.attestation_eq
  have hcred : fieldBytesOf member.credentialId = credentialId := by
    rw [h.credentialId_text, fieldBytesOf_normalHex]
  have hhash := h.memberHash_eq (E := E)
  rw [hkey, hatt] at hhash
  have hlen := h.key_taken.length_eq
  have hattlen : attestation.length ≤ 20 := by
    rcases h.attestation_shape with rfl | ⟨hlen, -⟩
    · exact Nat.zero_le _
    · exact le_of_eq hlen
  have hcredlen := h.credentialId_le
  have hattach := h.attachment_le
  have htrans := h.transports_le
  refine ⟨⟨key, attestation, credentialId, utf8 member.authenticatorAttachment,
    utf8 member.transports, sol⟩, ?_, hproof, hkey.symm, hatt.symm, hcred.symm, hhash, ?_, ?_⟩
  · simp [memberSol, h.key_text, h.attestation_text, h.credentialId_text, hproof]
  · exact ⟨h.attestation_shape.validate, hcredlen, hattach, htrans⟩
  · refine ⟨?_, ?_, ?_, ?_, ?_, proofSol_fits hproof⟩ <;> simp only <;> omega

/-- The contract takes its key and its proof. -/
theorem MemberFields.valid (h : MemberFields K member key attestation credentialId)
    (hK : CrateAgrees K E) {m : Contract.Member} (hm : Translated E member m) :
    ValidKey m.publicKey := by
  rw [hm.key_eq, h.key_eq]
  exact h.key_taken.valid hK

theorem Translated.proofOk {m : Contract.Member} (h : Translated E member m) (hK : CrateAgrees K E)
    (hvalid : ValidKey m.publicKey) {sol : Contract.Proof} {challenge : Bytes32} {rpId : String}
    (hproof : ProofAccepted E K member.proof sol challenge rpId (keyBytesOf member.publicKey)) :
    ProofOk E m.proof challenge (utf8 rpId) (coordinates m.publicKey) := by
  cases h.proof_eq.symm.trans hproof.parsed
  rw [← h.key_eq] at hproof
  exact hproof.proofOk hK hvalid

end Fields

/-! ## Keys -/

/-- The keys a task names, the group key first. -/
def RegisterTask.keyBytes (task : RegisterTask) : List Bytes :=
  keyBytesOf task.groupPublicKey :: task.members.map fun member => keyBytesOf member.publicKey

/-- Validated key texts are canonical, so that different texts are different keys; and different
keys of one task have different hashes. -/
theorem keccak256_keyBytesOf_ne {task : RegisterTask} {text text' : String}
    (hkeccak : Set.InjOn E.keccak256 {key | key ∈ task.keyBytes}) (hne : text ≠ text')
    (hmem : keyBytesOf text ∈ task.keyBytes) (hmem' : keyBytesOf text' ∈ task.keyBytes)
    (htext : ∃ key, text = Hex.encode key ∧ KeyTaken K key)
    (htext' : ∃ key, text' = Hex.encode key ∧ KeyTaken K key) :
    E.keccak256 (keyBytesOf text) ≠ E.keccak256 (keyBytesOf text') := by
  intro heq
  have hbytes := hkeccak hmem hmem' heq
  obtain ⟨key, rfl, -⟩ := htext
  obtain ⟨key', rfl, -⟩ := htext'
  rw [keyBytesOf_encode, keyBytesOf_encode] at hbytes
  exact hne (congrArg Hex.encode hbytes)

theorem parseMember_key {request : MemberRequest} {member : Member}
    (h : parseMember K request = .ok member) :
    ∃ key, member.publicKey = Hex.encode key ∧ KeyTaken K key := by
  obtain ⟨key, _, _, hfields⟩ := parseMember_eq_ok h
  exact ⟨key, hfields.key_text, hfields.key_taken⟩

/-! ## `register` -/

/-- The digest the service computes from the text is the contract's. -/
theorem contentHashFor_register {task : RegisterTask} {group metadata : Bytes}
    {ms : List Contract.Member} (hkind : task.kind = .register)
    (hgroup : task.groupPublicKey = Hex.encode group)
    (hmetadata : task.metadata = normalHex metadata)
    (hms : List.Forall₂ (Translated E) task.members ms) :
    contentHashFor E task =
      some (Contract.contentHashFor E (utf8 task.rpId) metadata group ms) := by
  have hhashes : task.members.mapM (memberHash E) =
      some (ms.map fun m => Contract.memberHash E m.publicKey m.attestation) := by
    apply mapM_of_forall₂
    exact hms.imp fun _ _ h => h.hash
  simp [contentHashFor, hgroup, hmetadata, hhashes, hkind, Contract.contentHashFor_eq]

/-- A register and its arguments in calldata. -/
structure TranslatedRegister (E : Contract.Evm) (task : RegisterTask) (groupProof : Proof)
    (a : Contract.RegisterArgs) : Prop where
  args : registerArgs task = some a
  fits : a.Fits
  rpId_eq : a.rpId = utf8 task.rpId
  metadata_eq : a.metadata = fieldBytesOf task.metadata
  group_eq : a.groupPublicKey = keyBytesOf task.groupPublicKey
  proof_eq : proofSol groupProof = some a.groupProof
  members : List.Forall₂ (Translated E) task.members a.members

section Register

variable {request : RegisterRequest} {newTaskId : String} {nowMs chainId : UInt64}
  {address : Address} {groupProof : Proof} {contentHash : Bytes32} {task : RegisterTask}

theorem RegisterAccepted.memberFields
    (h : RegisterAccepted K E request newTaskId nowMs chainId address groupProof contentHash task) :
    ∀ member ∈ task.members, ∃ key attestation credentialId,
      MemberFields K member key attestation credentialId := by
  obtain ⟨requests, -, -, -, hparse⟩ := h.members
  obtain ⟨-, -, hall⟩ := parseMembers_nil_eq_ok hparse
  intro member hmember
  obtain ⟨-, request, -, hrequest⟩ := hall member hmember
  exact parseMember_eq_ok hrequest

/-- The arguments of a validated register carry the bytes of its text, and fit. -/
theorem RegisterAccepted.translated
    (h : RegisterAccepted K E request newTaskId nowMs chainId address groupProof contentHash task) :
    ∃ a, TranslatedRegister E task groupProof a := by
  have hgroupProof : task.groupProof = some groupProof := congrArg RegisterTask.groupProof h.task_eq
  obtain ⟨-, hrp⟩ := parseRpId_eq_ok h.rpId
  obtain ⟨metadata, hmetaText, hmetaLen⟩ := parseMetadata_eq_ok h.metadata
  obtain ⟨group, hgroupText, hgroupTaken⟩ := parsePublicKey_eq_ok h.group_key
  have hmetadata : fieldBytesOf task.metadata = metadata := by
    rw [hmetaText, fieldBytesOf_normalHex]
  have hgroup : keyBytesOf task.groupPublicKey = group := by rw [hgroupText, keyBytesOf_encode]
  obtain ⟨requests, -, -, hle, hparse⟩ := h.members
  obtain ⟨hcount, -, -⟩ := parseMembers_nil_eq_ok hparse
  have hproofs := verifyMembers_eq_ok h.member_proofs
  -- each member of the text has its counterpart in the calldata
  have heach : ∀ member ∈ task.members, ∃ m, memberSol member = some m ∧ Translated E member m := by
    intro member hmember
    obtain ⟨key, attestation, credentialId, hfields⟩ := h.memberFields member hmember
    obtain ⟨sol, hsol⟩ := hproofs member hmember
    obtain ⟨m, hm⟩ := hfields.exists_translated hsol.parsed
    exact ⟨m, hm.sol, hm⟩
  obtain ⟨ms, hms, hpairs⟩ := exists_mapM heach
  obtain ⟨sol, hsol⟩ := verifyProof_eq_ok E K h.group_proof
  have hlen : ms.length = requests.length := by rw [← hpairs.length_eq, hcount]
  have hgroupLen := hgroupTaken.length_eq
  refine ⟨⟨utf8 task.rpId, metadata, group, sol, ms⟩, ?_, ?_, rfl, hmetadata.symm, hgroup.symm,
    hsol.parsed, hpairs⟩
  · simp [registerArgs, hms, hgroupProof, hmetaText, hgroupText, hsol.parsed]
  · have hmeta : metadata.length ≤ 2048 := hmetaLen
    have hseven : requests.length ≤ 7 := hle
    have hrpLen : (utf8 task.rpId).length ≤ 253 := hrp
    refine ⟨?_, ?_, ?_, proofSol_fits hsol.parsed, ?_, ?_⟩
    · show (utf8 task.rpId).length < 2 ^ 64
      omega
    · show metadata.length < 2 ^ 64
      omega
    · show group.length < 2 ^ 64
      omega
    · show ms.length < 2 ^ 64
      omega
    · intro m hm
      obtain ⟨_, -, hmember⟩ := exists_of_forall₂_right hpairs hm
      exact hmember.fits

/-- A validated register passes every check of the contract that looks at the call alone. -/
theorem RegisterAccepted.written
    (h : RegisterAccepted K E request newTaskId nowMs chainId address groupProof contentHash task)
    (hK : CrateAgrees K E) (hkeccak : Set.InjOn E.keccak256 {key | key ∈ task.keyBytes})
    {a : Contract.RegisterArgs} (ha : TranslatedRegister E task groupProof a) :
    RegisterOk E (domainOf chainId address) a := by
  have hkind : task.kind = .register := congrArg RegisterTask.kind h.task_eq
  obtain ⟨hrp0, hrp⟩ := parseRpId_eq_ok h.rpId
  obtain ⟨metadata, hmetaText, hmetaLen⟩ := parseMetadata_eq_ok h.metadata
  obtain ⟨group, hgroupText, hgroupTaken⟩ := parsePublicKey_eq_ok h.group_key
  have hgroup : a.groupPublicKey = group := by rw [ha.group_eq, hgroupText, keyBytesOf_encode]
  have hmetadata : a.metadata = metadata := by
    rw [ha.metadata_eq, hmetaText, fieldBytesOf_normalHex]
  obtain ⟨requests, -, hne, hle, hparse⟩ := h.members
  obtain ⟨hcount, hnodup, hall⟩ := parseMembers_nil_eq_ok hparse
  have hproofs := verifyMembers_eq_ok h.member_proofs
  have hhashes : a.members.map (Contract.Member.keyHash E) =
      (task.members.map Member.publicKey).map fun text => E.keccak256 (keyBytesOf text) := by
    rw [List.map_map]
    apply map_eq_of_forall₂
    exact ha.members.imp fun member m hm => congrArg E.keccak256 hm.key_eq
  have hmemKey : ∀ text ∈ task.members.map Member.publicKey,
      keyBytesOf text ∈ task.keyBytes ∧ text ≠ task.groupPublicKey ∧
        ∃ key, text = Hex.encode key ∧ KeyTaken K key := by
    intro text htext
    obtain ⟨member, hmember, rfl⟩ := List.mem_map.mp htext
    obtain ⟨hneq, request, -, hrequest⟩ := hall member hmember
    exact ⟨List.mem_cons_of_mem _ (List.mem_map_of_mem hmember), hneq, parseMember_key hrequest⟩
  have hcontent := contentHashFor_register hkind hgroupText hmetaText ha.members
  rw [h.content_hash, Option.some.injEq] at hcontent
  have hlen : a.members.length = requests.length := by rw [← ha.members.length_eq, hcount]
  have hvalid : ValidKey a.groupPublicKey := hgroup ▸ hgroupTaken.valid hK
  obtain ⟨sol, hsol⟩ := verifyProof_eq_ok E K h.group_proof
  cases ha.proof_eq.symm.trans hsol.parsed
  refine ⟨?_, ?_, ?_, ?_, hvalid, ?_, ?_, ?_, ?_⟩
  · rw [ha.rpId_eq]
    exact ⟨hrp0, hrp⟩
  · rw [hmetadata]
    exact hmetaLen
  · rw [hlen]
    exact fun hzero => hne (List.length_eq_zero_iff.mp hzero)
  · rw [hlen]
    exact hle
  · rw [← ha.group_eq] at hsol
    have hproof := hsol.proofOk hK hvalid
    rw [hcontent] at hproof
    rw [ha.rpId_eq, hmetadata, hgroup]
    rw [hgroup] at hproof
    exact hproof
  · rw [hhashes]
    refine List.Nodup.map_on ?_ hnodup
    intro text htext text' htext' heq
    by_contra hneq
    exact keccak256_keyBytesOf_ne hkeccak hneq (hmemKey text htext).1 (hmemKey text' htext').1
      (hmemKey text htext).2.2 (hmemKey text' htext').2.2 heq
  · rw [hhashes, ha.group_eq]
    intro hmem
    obtain ⟨text, htext, heq⟩ := List.mem_map.mp hmem
    exact keccak256_keyBytesOf_ne hkeccak (hmemKey text htext).2.1 (hmemKey text htext).1
      List.mem_cons_self (hmemKey text htext).2.2 ⟨group, hgroupText, hgroupTaken⟩ heq
  · intro m hm
    obtain ⟨member, hmember, htranslated⟩ := exists_of_forall₂_right ha.members hm
    obtain ⟨key, attestation, credentialId, hfields⟩ := h.memberFields member hmember
    obtain ⟨sol, hsol⟩ := hproofs member hmember
    have hkey := hfields.valid hK htranslated
    refine ⟨hkey, ?_⟩
    have hproof := htranslated.proofOk hK hkey hsol
    rw [← htranslated.key_eq, ← htranslated.attestation_eq, ← ha.group_eq] at hproof
    rw [ha.rpId_eq]
    exact hproof

end Register

/-! ## `refer` -/

/-- A refer of one member and its arguments in calldata. -/
structure TranslatedRefer (E : Contract.Evm) (task : RegisterTask) (member : Member)
    (a : Contract.ReferArgs) : Prop where
  args : referArgs task = some a
  fits : a.Fits
  group_eq : a.groupPublicKey = keyBytesOf task.groupPublicKey
  metadata_eq : a.metadata = fieldBytesOf task.metadata
  member : Translated E member a.member

section Refer

variable {request : ReferRequest} {newTaskId : String} {nowMs chainId : UInt64} {address : Address}
  {member : Member} {contentHash : Bytes32} {task : RegisterTask}

theorem ReferAccepted.members_eq
    (h : ReferAccepted K E request newTaskId nowMs chainId address member contentHash task) :
    task.members = [member] := congrArg RegisterTask.members h.task_eq

theorem ReferAccepted.memberFields
    (h : ReferAccepted K E request newTaskId nowMs chainId address member contentHash task) :
    ∃ key attestation credentialId, MemberFields K member key attestation credentialId := by
  obtain ⟨memberRequest, -, hparse⟩ := h.request_member
  exact parseMember_eq_ok hparse

/-- The arguments of a validated refer carry the bytes of its text, and fit. -/
theorem ReferAccepted.translated
    (h : ReferAccepted K E request newTaskId nowMs chainId address member contentHash task) :
    ∃ a, TranslatedRefer E task member a := by
  obtain ⟨metadata, hmetaText, hmetaLen⟩ := parseMetadata_eq_ok h.metadata
  obtain ⟨group, hgroupText, hgroupTaken⟩ := parsePublicKey_eq_ok h.group_key
  have hmetadata : fieldBytesOf task.metadata = metadata := by
    rw [hmetaText, fieldBytesOf_normalHex]
  have hgroup : keyBytesOf task.groupPublicKey = group := by rw [hgroupText, keyBytesOf_encode]
  obtain ⟨key, attestation, credentialId, hfields⟩ := h.memberFields
  obtain ⟨sol, hsol⟩ := verifyProof_eq_ok E K h.proof
  obtain ⟨m, hm⟩ := hfields.exists_translated hsol.parsed
  refine ⟨{ groupPublicKey := group, metadata := metadata, member := m }, ?_, ?_, hgroup.symm,
    hmetadata.symm, hm⟩
  · simp [referArgs, h.members_eq, hgroupText, hmetaText, hm.sol]
  · have hgroupLen := hgroupTaken.length_eq
    have hbound : metadata.length ≤ 2048 := hmetaLen
    refine ⟨?_, ?_, hm.fits⟩
    · show group.length < 2 ^ 64
      omega
    · show metadata.length < 2 ^ 64
      omega

/-- A validated refer passes every check of the contract that looks at the call alone, for a group
of its own rpId. -/
theorem ReferAccepted.written
    (h : ReferAccepted K E request newTaskId nowMs chainId address member contentHash task)
    (hK : CrateAgrees K E) (hkeccak : Set.InjOn E.keccak256 {key | key ∈ task.keyBytes})
    {a : Contract.ReferArgs} (ha : TranslatedRefer E task member a) :
    ReferOk E (domainOf chainId address) (utf8 task.rpId) a := by
  obtain ⟨metadata, hmetaText, hmetaLen⟩ := parseMetadata_eq_ok h.metadata
  obtain ⟨memberRequest, -, hparse⟩ := h.request_member
  obtain ⟨key, attestation, credentialId, hfields⟩ := h.memberFields
  obtain ⟨sol, hsol⟩ := verifyProof_eq_ok E K h.proof
  have hvalid := hfields.valid hK ha.member
  refine ⟨?_, ?_, hvalid, ?_⟩
  · rw [ha.metadata_eq, hmetaText, fieldBytesOf_normalHex]
    exact hmetaLen
  · rw [Contract.Member.keyHash, ha.member.key_eq, ha.group_eq]
    apply keccak256_keyBytesOf_ne hkeccak h.not_group
    · simp [RegisterTask.keyBytes, h.members_eq]
    · exact List.mem_cons_self
    · exact parseMember_key hparse
    · exact parsePublicKey_eq_ok h.group_key
  · have hproof := ha.member.proofOk hK hvalid hsol
    rw [← ha.member.key_eq, ← ha.member.attestation_eq, ← ha.group_eq, ← ha.metadata_eq] at hproof
    exact hproof

end Refer

/-! ## Two validators, one verdict -/

/-- What a registry may hold against a write, all of it prior state. -/
inductive Obstacle (E : Contract.Evm) (s : Registry) (task : RegisterTask) : Prop
  | groupKeyUsed (hkind : task.kind = .register)
      (hused : s.getUnitByGroupKey E (keyBytesOf task.groupPublicKey) ≠ none)
  | entryDiffers {member : Member} {id : Nat} {entry : Contract.Entry}
        (hmember : member ∈ task.members)
      (hentry : s.getEntryByKey E (keyBytesOf member.publicKey) = some (id, entry))
      (hdiffers : entry.attestation ≠ fieldBytesOf member.attestation ∨
        entry.credentialId ≠ fieldBytesOf member.credentialId)
  | groupAbsent (hkind : task.kind = .refer)
      (habsent : s.getUnitByGroupKey E (keyBytesOf task.groupPublicKey) = none)
  | otherRpId {id : Nat} {unit : Contract.GroupUnit} (hkind : task.kind = .refer)
      (hunit : s.getUnitByGroupKey E (keyBytesOf task.groupPublicKey) = some (id, unit))
      (hrpId : unit.rpId ≠ utf8 task.rpId)
  | alreadyReferenced {member : Member} (hkind : task.kind = .refer)
        (hmember : member ∈ task.members)
      (hreferenced : s.isReferenced E (keyBytesOf task.groupPublicKey)
        (keyBytesOf member.publicKey) = true)

/-- Without an obstacle every member is in line with its file. -/
theorem Translated.entryOk {s : Registry} {task : RegisterTask} {member : Member}
    {m : Contract.Member} (h : Translated E member m) (hs : s.Indexed)
    (hmember : member ∈ task.members) (hclear : ¬ Obstacle E s task) : Contract.EntryOk E s m := by
  apply Contract.entryOk_of_read hs h.first
  intro id entry hentry
  rw [h.key_eq] at hentry
  rw [h.attestation_eq, h.credentialId_eq]
  by_contra hdiffers
  exact hclear (.entryDiffers hmember hentry (not_and_or.mp hdiffers))

/-- The calldata of a validated task can be built, and a registry with the same signature domain
accepts it unless its state holds an obstacle. -/
theorem validated_write {submitted : Admission.Submission} {task : RegisterTask} {text : String}
    (hK : CrateAgrees K E) (hvalid : Admission.validate K E submitted = .ok (task, text))
    (hkeccak : Set.InjOn E.keccak256 {key | key ∈ task.keyBytes}) :
    ∃ data, writeCalldata task = some data ∧
      ∀ address, parseAddress submitted.registry = some address → ∀ s now,
        Contract.Reachable E (domainOf submitted.chainId address) s →
          (∃ s', Contract.call E (domainOf submitted.chainId address) now data s = .ok s') ∨
            Obstacle E s task := by
  obtain ⟨request, newTaskId, nowMs, chainId, registry⟩ := submitted
  cases request with
  | register request =>
      obtain ⟨address, groupProof, contentHash, haddress, -, h⟩ := validateRegister_eq_ok hvalid
      have hkind : task.kind = .register := congrArg RegisterTask.kind h.task_eq
      obtain ⟨a, ha⟩ := h.translated
      have hok := h.written hK hkeccak ha
      refine ⟨Contract.encodeCall (.register a), ?_, ?_⟩
      · simp [writeCalldata, hkind, registerCalldata, ha.args]
      intro address' haddress' s now hreach
      cases haddress.symm.trans haddress'
      refine or_iff_not_imp_right.mpr fun hclear => ?_
      have hc := hreach.consistent
      refine ⟨s.registered E now (Contract.encodeCall (.register a)) a,
        Contract.call_eq_ok.mpr (.inl ⟨a, E.decode_encodeCall ha.fits, ?_⟩)⟩
      refine (Contract.register_eq_ok hc.indexed).mpr ⟨hok, ?_, ?_, rfl⟩
      · rw [ha.group_eq]
        apply hc.getUnitByGroupKey_eq_none.mp
        by_contra hused
        exact hclear (.groupKeyUsed hkind hused)
      · intro m hm
        obtain ⟨member, hmember, htranslated⟩ := exists_of_forall₂_right ha.members hm
        exact htranslated.entryOk hc.indexed hmember hclear
  | refer request =>
      obtain ⟨address, member, contentHash, haddress, -, h⟩ := validateRefer_iff.mp hvalid
      have hkind : task.kind = .refer := congrArg RegisterTask.kind h.task_eq
      have hmember : member ∈ task.members := by
        rw [h.members_eq]
        exact List.mem_singleton_self member
      obtain ⟨a, ha⟩ := h.translated
      have hok := h.written hK hkeccak ha
      refine ⟨Contract.encodeCall (.refer a), ?_, ?_⟩
      · simp [writeCalldata, hkind, referCalldata, ha.args]
      intro address' haddress' s now hreach
      cases haddress.symm.trans haddress'
      refine or_iff_not_imp_right.mpr fun hclear => ?_
      have hc := hreach.consistent
      -- the group is there, with the rpId of the request
      rcases hunit : s.getUnitByGroupKey E (keyBytesOf task.groupPublicKey) with _ | ⟨unitId, unit⟩
      · exact (hclear (.groupAbsent hkind hunit)).elim
      have hrpId : unit.rpId = utf8 task.rpId := by
        by_contra hne
        exact hclear (.otherRpId hkind hunit hne)
      obtain ⟨hindex, hget⟩ := Contract.getUnitByGroupKey_eq_some.mp hunit
      rw [← ha.group_eq] at hindex
      refine ⟨s.referred E now (Contract.encodeCall (.refer a)) unitId a,
        Contract.call_eq_ok.mpr (.inr ⟨a, E.decode_encodeCall ha.fits, ?_⟩)⟩
      refine Contract.refer_eq_ok.mpr ⟨unitId, unit, hindex, hget, ?_, ?_, ?_, rfl⟩
      · rw [hrpId]
        exact hok
      · exact ha.member.entryOk hc.indexed hmember hclear
      · apply hc.link_eq_zero hindex
        rw [ha.group_eq, ha.member.key_eq, ← Bool.not_eq_true]
        exact fun hreferenced => hclear (.alreadyReferenced hkind hmember hreferenced)

/-! ## The recorded history as requests

The calls of the recorded history as a client sends them, and the crate on their inputs. -/

namespace Sample

open Contract.Sample
  (evm domain groupKey memberKey deviceKey Signature groupSignature memberSignature
  deviceSignature secondGroupSignature verified digest)

/-- The order of the curve's group. -/
def p256N : Nat := 0xffffffff00000000ffffffffffffffffbce6faada7179e84f3b9cac2fc632551

/-- A scalar of a signature is not zero and below the order. -/
def inRange (n : Nat) : Bool := 0 < n && n < p256N

def crate : P256Crate where
  fromSec1Bytes key := (Contract.validatePublicKey key).toBool
  fromScalars r s := inRange (ofBe r.val) && inRange (ofBe s.val)
  verifyPrehash key digest r s := evm.p256Verifier (Contract.verifierInput digest (ofBe r.val)
    (ofBe s.val) (coordinates key).1 (coordinates key).2) == some (word 1)

theorem crate_reads {key : Bytes} : crate.fromSec1Bytes key = true ↔ ValidKey key := by
  constructor
  · intro h
    obtain ⟨k, hk⟩ := Except.exists_of_toBool h
    exact (Contract.validatePublicKey_eq_ok.mp hk).1
  · intro h
    show (Contract.validatePublicKey key).toBool = true
    rw [Contract.validatePublicKey_eq_ok.mpr ⟨h, rfl⟩]
    rfl

/-- Every signature on record has its scalars in range. -/
theorem inRange_of_verified {m : Bytes32} {r s x y : Nat} (hr : r < 2 ^ 256) (hs : s < 2 ^ 256)
    (h : evm.p256Verifier (Contract.verifierInput m r s x y) = some (word 1)) :
    inRange r = true ∧ inRange s = true := by
  have hmem := Contract.Sample.mem_verified h
  have hscalars : ∀ σ ∈ Contract.Sample.signatures,
      inRange σ.r.val = true ∧ inRange σ.s.val = true := by
    decide +kernel
  have hfirst : ∀ (m : Bytes32) (r s x y : Nat),
      ((Contract.verifierInput m r s x y).drop 32).take 32 = word r := by
    intro m r s x y
    simp only [Contract.verifierInput, List.append_assoc]
    rw [List.drop_left' m.property, List.take_left' (word_length r)]
  have hsecond : ∀ (m : Bytes32) (r s x y : Nat),
      ((Contract.verifierInput m r s x y).drop 64).take 32 = word s := by
    intro m r s x y
    rw [Contract.verifierInput, List.append_assoc, List.append_assoc]
    rw [List.drop_left' (by simp [m.property]), List.take_left' (word_length s)]
  obtain ⟨σ, hσ, heq⟩ := List.mem_map.mp hmem
  have hr' : σ.r.val = r := by
    have hwords := congrArg (fun input => (input.drop 32).take 32) heq
    simp only [hfirst] at hwords
    exact word_injective σ.r.isLt hr hwords
  have hs' : σ.s.val = s := by
    have hwords := congrArg (fun input => (input.drop 64).take 32) heq
    simp only [hsecond] at hwords
    exact word_injective σ.s.isLt hs hwords
  rw [← hr', ← hs']
  exact hscalars σ hσ

theorem crate_agrees : CrateAgrees crate evm where
  points key _ _ := crate_reads
  signatures key _ _ _ m r s := by
    simp only [crate, Bool.and_eq_true, beq_iff_eq]
    refine ⟨fun h => h.2, fun h => ⟨?_, h⟩⟩
    exact inRange_of_verified (u256OfBytes r).isLt (u256OfBytes s).isLt h

variable (σ : Signature) (id : String)

theorem clientDataJSON_ascii : ∀ byte ∈ σ.clientDataJSON, byte.toNat < 128 := by
  have hliteral : ∀ byte ∈ utf8 "\x7b" ++ Contract.typeField ++ utf8 "," ++
      utf8 "\"challenge\":\"" ++ utf8 "\"" ++ utf8 "\x7d", byte.toNat < 128 := by decide +kernel
  have hencoded := Base64Url.encode_ascii (digest σ.challenge).val
  intro byte hbyte
  simp only [Contract.Sample.Signature.clientDataJSON, Contract.challengeField,
    Contract.encode32_eq, List.mem_append] at hbyte
  simp only [List.mem_append] at hliteral
  grind

theorem clientDataJSON_length : σ.clientDataJSON.length < 2 ^ 63 := by
  rw [Contract.Sample.Signature.clientDataJSON_length]
  norm_num

def authenticatorData : RustString :=
  ⟨hexText Contract.Sample.authenticatorData, by rw [utf8_hexText_length]; decide⟩

def clientDataJSON : RustString :=
  ⟨asciiText σ.clientDataJSON, by
    rw [utf8_asciiText (clientDataJSON_ascii σ)]
    exact clientDataJSON_length σ⟩

def proof : Proof where
  authenticatorData := authenticatorData
  clientDataJSON := clientDataJSON σ
  challengeIndex := 23
  typeIndex := 1
  r := hexText (word σ.r.val)
  s := hexText (word σ.s.val)

def proofRequest : ProofRequest where
  authenticatorData := some authenticatorData
  clientDataJSON := some (clientDataJSON σ)
  challengeIndex := some 23
  typeIndex := some 1
  r := some (hexText (word σ.r.val))
  s := some (hexText (word σ.s.val))

theorem proofSol_proof : proofSol (proof σ) = some σ.proof := by
  have hword : ∀ n : U256, parseB256 (hexText (word n.val)) =
      some ⟨word n.val, word_length n.val⟩ :=
    fun n => parseB256_hexText ⟨word n.val, word_length n.val⟩
  have hclient : utf8 (clientDataJSON σ).val = σ.clientDataJSON :=
    utf8_asciiText (clientDataJSON_ascii σ)
  simp only [proofSol, proof, authenticatorData, parseHexBytes_hexText, hword, hclient,
    u256OfBytes_word, Option.bind_eq_bind, Option.bind_some, Option.pure_def]
  rfl

def member : Member where
  publicKey := Hex.encode memberKey
  attestation := normalHex Contract.Sample.attestation
  credentialId := normalHex [1]
  authenticatorAttachment := ""
  transports := ""
  proof := proof memberSignature

def memberRequest : MemberRequest where
  publicKey := some (hexText memberKey)
  attestation := some (hexText Contract.Sample.attestation)
  credentialId := some (hexText [1])
  authenticatorAttachment := none
  transports := none
  proof := some (proofRequest memberSignature)

def device : Member where
  publicKey := Hex.encode deviceKey
  attestation := ""
  credentialId := normalHex [2]
  authenticatorAttachment := ""
  transports := ""
  proof := proof deviceSignature

def deviceRequest : MemberRequest where
  publicKey := some (hexText deviceKey)
  attestation := none
  credentialId := some (hexText [2])
  authenticatorAttachment := none
  transports := none
  proof := some (proofRequest deviceSignature)

theorem keyTaken {key : Bytes} (h : ValidKey key) : KeyTaken crate key :=
  ⟨h.length_eq, h.head_eq, crate_reads.mpr h⟩

theorem validKey_groupKey : ValidKey groupKey := Contract.Sample.registerArgs_ok.group_key

theorem validKey_memberKey : ValidKey memberKey :=
  (Contract.Sample.registerArgs_ok.members _ List.mem_cons_self).key

theorem validKey_deviceKey : ValidKey deviceKey := Contract.Sample.referArgs_ok.key

theorem parseMember_memberRequest : parseMember crate memberRequest = .ok member := by
  have hatt : validateAttestationHex (hexText Contract.Sample.attestation) =
      .ok (normalHex Contract.Sample.attestation) := by
    simp only [validateAttestationHex, parseHexBytes_hexText]
    rfl
  have hcred : normalizeCredentialId (hexText [1]) = .ok (normalHex [1]) := by
    simp only [normalizeCredentialId, parseHexBytes_hexText]
    rfl
  simp only [parseMember, memberRequest, Except.bind_eq_ok, Except.pure_eq_ok, Option.getD_some,
    Option.getD_none]
  exact ⟨_, parsePublicKey_hexText (keyTaken validKey_memberKey), _, hatt, _, hcred,
    "", rfl, "", rfl, _, rfl, rfl⟩

theorem parseMember_deviceRequest : parseMember crate deviceRequest = .ok device := by
  have hcred : normalizeCredentialId (hexText [2]) = .ok (normalHex [2]) := by
    simp only [normalizeCredentialId, parseHexBytes_hexText]
    rfl
  simp only [parseMember, deviceRequest, Except.bind_eq_ok, Except.pure_eq_ok, Option.getD_some,
    Option.getD_none]
  exact ⟨_, parsePublicKey_hexText (keyTaken validKey_deviceKey), "", rfl, _, hcred,
    "", rfl, "", rfl, _, rfl, rfl⟩

/-- A request for the group with one member. -/
def groupRequest (metadata : Option String) : RegisterRequest where
  rpId := some "example.com"
  metadata := metadata
  groupPublicKey := some (hexText groupKey)
  groupProof := some (proofRequest σ)
  members := some [memberRequest]

def registerRequest : RegisterRequest := groupRequest groupSignature none

/-- The same keys again, with other metadata. -/
def secondRequest : RegisterRequest := groupRequest secondGroupSignature (some (hexText [0xbb]))

/-- The device pointing at the group. -/
def referRequest : ReferRequest where
  rpId := some "example.com"
  groupPublicKey := some (hexText groupKey)
  metadata := some (hexText [0xaa])
  member := some deviceRequest

def registry : String := "0x5266DfF591B9F9EecfEdb8E7EfEf6c687854edaf"

def submitted (request : AdmissionRequest) : Admission.Submission where
  request := request
  newTaskId := id
  nowMs := 0
  chainId := 100
  registry := registry

def registerHash : Bytes32 := digest groupSignature.binding

def referHash : Bytes32 := digest 0x9cf27516dfccad48a5fea08d264abdb1e277b5d05c600b3c7b15ff3e9220505b

def groupTask (metadata : Bytes) : RegisterTask :=
  { newTask id .register "example.com" (normalHex metadata) (Hex.encode groupKey)
      (some (proof σ)) [member] 0 with
    contentHash := hexText (digest σ.binding).val }

def registerTask : RegisterTask := groupTask groupSignature id []

def secondTask : RegisterTask := groupTask secondGroupSignature id [0xbb]

def referTask : RegisterTask :=
  { newTask id .refer "example.com" (normalHex [0xaa]) (Hex.encode groupKey) none [device] 0 with
    contentHash := hexText referHash.val }

theorem parseAddress_registry : parseAddress registry = some domain.registry := by decide +kernel

theorem keyBytesOf_member : keyBytesOf member.publicKey = memberKey := keyBytesOf_encode memberKey

theorem contentHash_register : Contract.contentHashFor evm Contract.Sample.rpId [] groupKey
    [Contract.Sample.member] = registerHash :=
  Contract.Sample.contentHash_member

theorem translated_member : Translated evm member Contract.Sample.member where
  sol := by
    simp only [memberSol, member, parseHexBytes_encode, parseHexBytes_normalHex, proofSol_proof,
      Option.bind_eq_bind, Option.bind_some, Option.pure_def]
    rfl
  proof_eq := proofSol_proof _
  key_eq := keyBytesOf_member.symm
  attestation_eq := (fieldBytesOf_normalHex _).symm
  credentialId_eq := (fieldBytesOf_normalHex [1]).symm
  hash := by
    simp only [memberHash, member, parseHexBytes_encode, parseHexBytes_normalHex,
      Option.bind_eq_bind, Option.bind_some, Option.pure_def]
    rfl
  first := Contract.Sample.member_firstSightOk
  fits := by decide +kernel

theorem contentHashFor_registerTask : contentHashFor evm (registerTask id) = some registerHash := by
  rw [← contentHash_register]
  exact contentHashFor_register rfl rfl rfl (.cons translated_member .nil)

/-- A request for the group with any metadata is accepted with the group's signature. -/
theorem validate_group {metadata : Option String} {bytes : Bytes}
    (hmetadata : parseMetadata metadata = .ok (normalHex bytes))
    (hok : Contract.RegisterOk evm domain
      ⟨Contract.Sample.rpId, bytes, groupKey, σ.proof, [Contract.Sample.member]⟩)
    (hhash : Contract.contentHashFor evm Contract.Sample.rpId bytes groupKey
      [Contract.Sample.member] = digest σ.binding) :
    Admission.validate crate evm (submitted id (.register (groupRequest σ metadata))) =
      .ok (groupTask σ id bytes, hexText (digest σ.binding).val) := by
  have hcontent : contentHashFor evm (groupTask σ id bytes) = some (digest σ.binding) := by
    rw [← hhash]
    exact contentHashFor_register rfl rfl rfl (.cons translated_member .nil)
  have hgroup : verifyProof evm crate (proof σ)
      (challengeFor evm 100 domain.registry "example.com" (keyBytesOf (Hex.encode groupKey))
        (digest σ.binding)) "example.com" (keyBytesOf (Hex.encode groupKey)) = .ok () := by
    rw [keyBytesOf_encode, ← hhash]
    exact verifyProof_of_proofOk crate_agrees (proofSol_proof _) validKey_groupKey
      hok.group_proof
  have hmember : verifyMembers crate evm 100 domain.registry "example.com"
      (keyBytesOf (Hex.encode groupKey)) 0 [member] = .ok () := by
    simp only [verifyMembers, keyBytesOf_encode, keyBytesOf_member, Except.bind_eq_ok,
      Except.mapError_eq_ok, Except.pure_eq_ok]
    refine ⟨(), ?_, trivial⟩
    have hatt : fieldBytesOf member.attestation = Contract.Sample.attestation :=
      fieldBytesOf_normalHex _
    rw [hatt]
    exact verifyProof_of_proofOk crate_agrees (proofSol_proof _) validKey_memberKey
      (hok.members _ List.mem_cons_self).proof
  have hmembers : parseMembers crate (Hex.encode groupKey) 0 [] [memberRequest] = .ok [member] := by
    simp only [parseMembers, parseMember_memberRequest, Except.bind_eq_ok, Except.mapError_eq_ok,
      revertIf_eq_ok, exists_const]
    refine ⟨member, rfl, ?_, by simp, rfl⟩
    intro heq
    have hkeys : memberKey = groupKey := Hex.encode_injective heq
    exact absurd hkeys (by decide)
  have hrpId : parseRpId (some "example.com") = .ok "example.com" := by decide +kernel
  show validateRegister crate evm (groupRequest σ metadata) id 0 100 _ = _
  simp only [validateRegister, Except.bind_eq_ok, okOr_eq_ok, revertIf_eq_ok, Except.mapError_eq_ok,
    exists_const, not_lt, Except.pure_eq_ok, Option.filter_eq_some_iff, decide_eq_true_eq]
  exact ⟨domain.registry, parseAddress_registry, "example.com", hrpId, normalHex bytes, hmetadata,
    [memberRequest], ⟨rfl, List.cons_ne_nil _ _⟩, by decide, Hex.encode groupKey,
    parsePublicKey_hexText (keyTaken validKey_groupKey), proof σ, rfl,
    [member], hmembers, digest σ.binding, hcontent, (), hgroup, (), hmember, rfl⟩

theorem validate_register :
    Admission.validate crate evm (submitted id (.register registerRequest)) =
    .ok (registerTask id, hexText registerHash.val) :=
  validate_group groupSignature id rfl Contract.Sample.registerArgs_ok contentHash_register

theorem validate_second : Admission.validate crate evm (submitted id (.register secondRequest)) =
    .ok (secondTask id, hexText (digest secondGroupSignature.binding).val) := by
  refine validate_group secondGroupSignature id ?_ Contract.Sample.secondArgs_ok
    Contract.Sample.contentHash_second
  simp only [parseMetadata, Option.getD_some, parseHexBytes_hexText]
  rfl

theorem keyBytesOf_device : keyBytesOf device.publicKey = deviceKey := keyBytesOf_encode deviceKey

theorem contentHashFor_referTask : contentHashFor evm (referTask id) = some referHash := by
  have hpair : evm.keccak256 (Contract.pairPreimage groupKey deviceKey) = referHash :=
    Contract.Sample.keccak256_groupKey_deviceKey
  have hatt : parseHexBytes device.attestation = some [] := parseHexBytes_normalHex []
  have hkey : parseHexBytes device.publicKey = some deviceKey := parseHexBytes_encode deviceKey
  have hhashes : (referTask id).members.mapM (memberHash evm) =
      some [evm.keccak256 (Contract.pairPreimage deviceKey [])] := by
    show [device].mapM (memberHash evm) = _
    simp only [List.mapM_cons, List.mapM_nil, memberHash, hkey, hatt, Option.bind_eq_bind,
      Option.bind_some, Option.pure_def]
  have hgroup : parseHexBytes (referTask id).groupPublicKey = some groupKey :=
    parseHexBytes_encode groupKey
  have hmeta : parseHexBytes (referTask id).metadata = some [0xaa] := parseHexBytes_normalHex [0xaa]
  have hkind : (referTask id).kind = .refer := rfl
  have hmembers : (referTask id).members = [device] := rfl
  rw [hmembers] at hhashes
  simp only [contentHashFor, hgroup, hmeta, hkind, hmembers, hhashes, List.head?_cons, hkey, hpair,
    Option.bind_eq_bind, Option.bind_some, Option.pure_def]

theorem validate_refer : Admission.validate crate evm (submitted id (.refer referRequest)) =
    .ok (referTask id, hexText referHash.val) := by
  have hmeta : parseMetadata (some (hexText [0xaa])) = .ok (normalHex [0xaa]) := by
    simp only [parseMetadata, Option.getD_some, parseHexBytes_hexText]
    rfl
  have hatt : fieldBytesOf device.attestation = [] := fieldBytesOf_normalHex []
  have hproof : verifyProof evm crate device.proof
      (challengeFor evm 100 domain.registry "example.com" (keyBytesOf device.publicKey)
        (referenceBindingFor evm (keyBytesOf (Hex.encode groupKey))
          (fieldBytesOf device.attestation)
          (fieldBytesOf (normalHex [0xaa])))) "example.com"
            (keyBytesOf device.publicKey) = .ok () := by
    rw [keyBytesOf_encode, keyBytesOf_device, hatt, fieldBytesOf_normalHex]
    exact verifyProof_of_proofOk crate_agrees (proofSol_proof _) validKey_deviceKey
      Contract.Sample.referArgs_ok.proof
  show validateRefer crate evm referRequest id 0 100 _ = _
  simp only [validateRefer, Except.bind_eq_ok, okOr_eq_ok, revertIf_eq_ok, Except.mapError_eq_ok,
    exists_const, Except.pure_eq_ok]
  refine ⟨domain.registry, parseAddress_registry, "example.com", ?_, Hex.encode groupKey,
    parsePublicKey_hexText (keyTaken validKey_groupKey), normalHex [0xaa], hmeta, deviceRequest,
    rfl, device, parseMember_deviceRequest, ?_, referHash, contentHashFor_referTask id, (), hproof,
    rfl⟩
  · decide +kernel
  · intro heq
    have hkeys : deviceKey = groupKey := Hex.encode_injective heq
    exact absurd hkeys (by decide)

theorem keccak256_injOn_referTask :
    Set.InjOn evm.keccak256 {key | key ∈ (referTask id).keyBytes} := by
  apply Contract.Sample.keccak256_injOn.mono
  intro key hkey
  have hkeys : (referTask id).keyBytes = [groupKey, deviceKey] := by
    show [keyBytesOf (Hex.encode groupKey), keyBytesOf device.publicKey] = _
    rw [keyBytesOf_encode, keyBytesOf_device]
  have hmem : key ∈ [groupKey, deviceKey] := by rwa [← hkeys]
  rcases List.mem_pair.mp hmem with rfl | rfl
  · exact Contract.Sample.mem_hashedStrings (List.mem_of_getElem? (i := 0) rfl)
  · exact Contract.Sample.mem_hashedStrings (List.mem_of_getElem? (i := 3) rfl)

/-- The registered group holds nothing against the device. -/
theorem no_obstacle : ¬ Obstacle evm Contract.Sample.registered (referTask id) := by
  have hgroup : keyBytesOf (referTask id).groupPublicKey = groupKey := keyBytesOf_encode groupKey
  have hdevice : ∀ m ∈ (referTask id).members, keyBytesOf m.publicKey = deviceKey := by
    intro m hm
    rw [List.mem_singleton.mp hm, keyBytesOf_device]
  intro h
  cases h with
  | groupKeyUsed hkind => cases hkind
  | entryDiffers hmember hentry =>
      rw [hdevice _ hmember] at hentry
      have hnone : (Contract.Sample.registered.getEntryByKey evm deviceKey).isNone = true := by
        decide +kernel
      rw [hentry] at hnone
      cases hnone
  | groupAbsent _ habsent =>
      rw [hgroup] at habsent
      have hsome : (Contract.Sample.registered.getUnitByGroupKey evm groupKey).isSome = true := by
        decide +kernel
      rw [habsent] at hsome
      cases hsome
  | otherRpId _ hunit hrpId =>
      have hunits : ∀ u ∈ Contract.Sample.registered.units, u.rpId = utf8 "example.com" := by
        decide +kernel
      exact hrpId (hunits _ (List.mem_of_getElem? (Contract.getUnitByGroupKey_eq_some.mp hunit).2))
  | alreadyReferenced _ hmember hreferenced =>
      rw [hgroup, hdevice _ hmember] at hreferenced
      have hfree : Contract.Sample.registered.isReferenced evm groupKey deviceKey = false := by
        decide +kernel
      rw [hfree] at hreferenced
      cases hreferenced

end Sample

open Sample in
/-- The device's validated refer is accepted by the registry that holds its group. -/
theorem validated_write_device : CrateAgrees crate Contract.Sample.evm ∧
    Admission.validate crate Contract.Sample.evm (submitted "device" (.refer referRequest)) =
      .ok (referTask "device", hexText referHash.val) ∧
    ∃ data, writeCalldata (referTask "device") = some data ∧
      ∃ s', Contract.call Contract.Sample.evm Contract.Sample.domain 0 data
        Contract.Sample.registered = .ok s' := by
  refine ⟨crate_agrees, validate_refer "device", ?_⟩
  obtain ⟨data, hdata, hverdict⟩ := validated_write crate_agrees (validate_refer "device")
    (keccak256_injOn_referTask "device")
  refine ⟨data, hdata, ?_⟩
  rcases hverdict Contract.Sample.domain.registry parseAddress_registry Contract.Sample.registered 0
    Contract.Sample.reachable_registered with haccepted | hobstacle
  · exact haccepted
  · exact (no_obstacle "device" hobstacle).elim

end P256Index.Registrar
