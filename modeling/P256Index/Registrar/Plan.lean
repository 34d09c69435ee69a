import P256Index.Registrar.Fields

/-!
# Validation in two stages

Everything `validate_register` and `validate_refer` do before they look at a signature is a plan:
the canonical task, and with it the challenge every key has to have signed. What follows is the
verification of each proof against its challenge. The two stages together are the functions of the
source.
-/

namespace P256Index.Registrar

variable (K : P256Crate) (E : Contract.Evm)

/-! ## Register -/

structure RegisterPlan where
  registry : Address
  groupProof : Proof
  contentHash : Bytes32
  task : RegisterTask

/-- The plan of a unit whose fields were parsed. -/
def registerPlan (newTaskId : String) (nowMs : UInt64) (registry : Address)
    (rpId metadata groupPublicKey : String) (groupProof : Proof) (members : List Member)
    (contentHash : Bytes32) : RegisterPlan where
  registry := registry
  groupProof := groupProof
  contentHash := contentHash
  task :=
    { newTask newTaskId .register rpId metadata groupPublicKey (some groupProof) members nowMs with
      contentHash := hexText contentHash.val }

/-- The checks of `validate_register` before proof verification. -/
def prepareRegister (request : RegisterRequest) (newTaskId : String) (nowMs : UInt64)
    (registry : String) : Except String RegisterPlan := do
  let registry ← okOr (parseAddress registry) misconfigured
  let rpId ← parseRpId request.rpId
  let metadata ← parseMetadata request.metadata
  let members ← okOr (request.members.filter fun members => members ≠ [])
    "members is required (1 to 7 entries)"
  revertIf (maxMembers < members.length) "members must contain 1 to 7 entries"
  let groupPublicKey ←
    (parsePublicKey K request.groupPublicKey).mapError fun message => "groupPublicKey: " ++ message
  let groupProof ← (parseProof request.groupProof).mapError fun message => "groupProof: " ++ message
  let members ← parseMembers K groupPublicKey 0 [] members
  let task :=
    newTask newTaskId .register rpId metadata groupPublicKey (some groupProof) members nowMs
  let contentHash ← okOr (contentHashFor E task) "invalid hex"
  pure (registerPlan newTaskId nowMs registry rpId metadata groupPublicKey groupProof
    members contentHash)

namespace RegisterPlan

def groupKeyBytes (p : RegisterPlan) : Bytes := keyBytesOf p.task.groupPublicKey

/-- What the group key signs: it binds the content hash. -/
def groupChallenge (p : RegisterPlan) (chainId : UInt64) : Bytes32 :=
  challengeFor E chainId p.registry p.task.rpId p.groupKeyBytes p.contentHash

/-- A member binds the group key and its own attestation. -/
def memberBinding (p : RegisterPlan) (member : Member) : Bytes32 :=
  memberBindingFor E p.groupKeyBytes (fieldBytesOf member.attestation)

/-- What a member signs. -/
def memberChallenge (p : RegisterPlan) (chainId : UInt64) (member : Member) : Bytes32 :=
  challengeFor E chainId p.registry p.task.rpId (keyBytesOf member.publicKey)
    (p.memberBinding E member)

end RegisterPlan

/-- Each member's proof against its own challenge. -/
def verifyAgainst (rpId : String) (challenge : Member → Bytes32) (index : Nat) :
    List Member → Except String Unit
  | [] => pure ()
  | member :: rest => do
      (verifyProof E K member.proof (challenge member) rpId (keyBytesOf member.publicKey)).mapError
        fun error => atMember index ("proof rejected: " ++ error)
      verifyAgainst rpId challenge (index + 1) rest

/-- The verification of a plan. -/
def RegisterPlan.verify (chainId : UInt64) (p : RegisterPlan) :
    Except String (RegisterTask × String) := do
  (verifyProof E K p.groupProof (p.groupChallenge E chainId) p.task.rpId p.groupKeyBytes).mapError
    fun error => "groupProof: proof rejected: " ++ error
  verifyAgainst K E p.task.rpId (p.memberChallenge E chainId) 0 p.task.members
  pure (p.task, p.task.contentHash)

variable {K E}

theorem verifyMembers_eq {chainId : UInt64} {registry : Address} {rpId : String}
    {groupKeyBytes : Bytes} {index : Nat} {members : List Member} :
    verifyMembers K E chainId registry rpId groupKeyBytes index members =
      verifyAgainst K E rpId (fun member =>
        challengeFor E chainId registry rpId (keyBytesOf member.publicKey)
        (memberBindingFor E groupKeyBytes (fieldBytesOf member.attestation))) index members := by
  induction members generalizing index with
  | nil => rfl
  | cons member members ih =>
      rw [verifyMembers, verifyAgainst]
      simp only [ih]

/-- A register request is prepared, and then verified. -/
theorem validateRegister_eq_bind {request : RegisterRequest} {newTaskId registry : String}
    {nowMs chainId : UInt64} : validateRegister K E request newTaskId nowMs chainId registry =
      prepareRegister K E request newTaskId nowMs registry >>= RegisterPlan.verify K E chainId := by
  simp only [validateRegister, prepareRegister, bind_assoc, pure_bind, verifyMembers_eq]
  rfl

/-- What a prepared register request went through. -/
theorem prepareRegister_iff {request : RegisterRequest} {newTaskId registry : String}
    {nowMs : UInt64} {p : RegisterPlan} :
    prepareRegister K E request newTaskId nowMs registry = .ok p ↔
      ∃ address rpId metadata requests groupPublicKey groupProof members contentHash,
        parseAddress registry = some address ∧ parseRpId request.rpId = .ok rpId ∧
        parseMetadata request.metadata = .ok metadata ∧
        request.members = some requests ∧ requests ≠ [] ∧ requests.length ≤ maxMembers ∧
        parsePublicKey K request.groupPublicKey = .ok groupPublicKey ∧
        parseProof request.groupProof = .ok groupProof ∧
        parseMembers K groupPublicKey 0 [] requests = .ok members ∧
        contentHashFor E (newTask newTaskId .register rpId metadata groupPublicKey
          (some groupProof) members nowMs) = some contentHash ∧
        registerPlan newTaskId nowMs address rpId metadata groupPublicKey groupProof members
          contentHash = p := by
  simp only [prepareRegister, Except.bind_eq_ok, okOr_eq_ok, revertIf_eq_ok, Except.mapError_eq_ok,
    exists_const, not_lt, Except.pure_eq_ok, Option.filter_eq_some_iff, decide_eq_true_eq]
  constructor
  · rintro ⟨address, haddress, rpId, hrpId, metadata, hmetadata, requests, ⟨hrequests, hne⟩, hlen,
      group, hgroup, groupProof, hgroupProof, members, hmembers, contentHash, hhash, rfl⟩
    exact ⟨address, rpId, metadata, requests, group, groupProof, members, contentHash, haddress,
      hrpId, hmetadata, hrequests, hne, hlen, hgroup, hgroupProof, hmembers, hhash, rfl⟩
  · rintro ⟨address, rpId, metadata, requests, group, groupProof, members, contentHash, haddress,
      hrpId, hmetadata, hrequests, hne, hlen, hgroup, hgroupProof, hmembers, hhash, rfl⟩
    exact ⟨address, haddress, rpId, hrpId, metadata, hmetadata, requests, ⟨hrequests, hne⟩, hlen,
      group, hgroup, groupProof, hgroupProof, members, hmembers, contentHash, hhash, rfl⟩

/-! ## Refer -/

structure ReferPlan where
  registry : Address
  contentHash : Bytes32
  member : Member
  task : RegisterTask

/-- The plan of a reference whose fields were parsed. -/
def referPlan (newTaskId : String) (nowMs : UInt64) (registry : Address)
    (rpId metadata groupPublicKey : String) (member : Member) (contentHash : Bytes32) :
    ReferPlan where
  registry := registry
  contentHash := contentHash
  member := member
  task := { newTask newTaskId .refer rpId metadata groupPublicKey none [member] nowMs with
              contentHash := hexText contentHash.val }

variable (K E)

/-- The checks of `validate_refer` before proof verification. -/
def prepareRefer (request : ReferRequest) (newTaskId : String) (nowMs : UInt64)
    (registry : String) : Except String ReferPlan := do
  let registry ← okOr (parseAddress registry) misconfigured
  let rpId ← parseRpId request.rpId
  let groupPublicKey ←
    (parsePublicKey K request.groupPublicKey).mapError fun message => "groupPublicKey: " ++ message
  let metadata ← parseMetadata request.metadata
  let member ← okOr request.member "member is required"
  let member ← (parseMember K member).mapError fun message => "member: " ++ message
  revertIf (member.publicKey = groupPublicKey) "member: the group key cannot also be a member"
  let task := newTask newTaskId .refer rpId metadata groupPublicKey none [member] nowMs
  let contentHash ← okOr (contentHashFor E task) "invalid hex"
  pure (referPlan newTaskId nowMs registry rpId metadata groupPublicKey member contentHash)

namespace ReferPlan

/-- The referring key binds the group key, its own attestation and the metadata of the reference. -/
def binding (p : ReferPlan) : Bytes32 :=
  referenceBindingFor E (keyBytesOf p.task.groupPublicKey) (fieldBytesOf p.member.attestation)
    (fieldBytesOf p.task.metadata)

def challenge (p : ReferPlan) (chainId : UInt64) : Bytes32 :=
  challengeFor E chainId p.registry p.task.rpId (keyBytesOf p.member.publicKey) (p.binding E)

/-- The verification of a plan. -/
def verify (chainId : UInt64) (p : ReferPlan) : Except String (RegisterTask × String) := do
  (verifyProof E K p.member.proof (p.challenge E chainId) p.task.rpId
    (keyBytesOf p.member.publicKey)).mapError fun error => "member: proof rejected: " ++ error
  pure (p.task, p.task.contentHash)

end ReferPlan

variable {K E}

/-- A refer request is prepared, and then verified. -/
theorem validateRefer_eq_bind {request : ReferRequest} {newTaskId registry : String}
    {nowMs chainId : UInt64} : validateRefer K E request newTaskId nowMs chainId registry =
      prepareRefer K E request newTaskId nowMs registry >>= ReferPlan.verify K E chainId := by
  simp only [validateRefer, prepareRefer, bind_assoc, pure_bind]
  rfl

/-- What a prepared refer request went through. -/
theorem prepareRefer_iff {request : ReferRequest} {newTaskId registry : String} {nowMs : UInt64}
    {p : ReferPlan} : prepareRefer K E request newTaskId nowMs registry = .ok p ↔
      ∃ address rpId groupPublicKey metadata memberRequest member contentHash,
        parseAddress registry = some address ∧ parseRpId request.rpId = .ok rpId ∧
        parsePublicKey K request.groupPublicKey = .ok groupPublicKey ∧
        parseMetadata request.metadata = .ok metadata ∧ request.member = some memberRequest ∧
        parseMember K memberRequest = .ok member ∧ member.publicKey ≠ groupPublicKey ∧
        contentHashFor E
          (newTask newTaskId .refer rpId metadata groupPublicKey none [member] nowMs) =
          some contentHash ∧
        referPlan newTaskId nowMs address rpId metadata groupPublicKey member contentHash = p := by
  simp only [prepareRefer, Except.bind_eq_ok, okOr_eq_ok, revertIf_eq_ok, Except.mapError_eq_ok,
    exists_const, Except.pure_eq_ok]
  constructor
  · rintro ⟨address, haddress, rpId, hrpId, group, hgroup, metadata, hmetadata, memberRequest,
      hrequest, member, hmember, hne, contentHash, hhash, rfl⟩
    exact ⟨address, rpId, group, metadata, memberRequest, member, contentHash, haddress, hrpId,
      hgroup, hmetadata, hrequest, hmember, hne, hhash, rfl⟩
  · rintro ⟨address, rpId, group, metadata, memberRequest, member, contentHash, haddress, hrpId,
      hgroup, hmetadata, hrequest, hmember, hne, hhash, rfl⟩
    exact ⟨address, haddress, rpId, hrpId, group, hgroup, metadata, hmetadata, memberRequest,
      hrequest, member, hmember, hne, contentHash, hhash, rfl⟩

end P256Index.Registrar
