import P256Index.Registrar.Verify

/-!
# Validation of a request

Shapes, bounds and every possession proof, before anything touches the store. Validation also fixes
the canonical form of each field: keys are lowercase hex without a marker, byte strings are empty or
`0x`-hex, hints are trimmed.
-/

namespace P256Index.Registrar

/-! ## Requests -/

structure ProofRequest where
  authenticatorData : Option RustString
  clientDataJSON : Option RustString
  challengeIndex : Option UInt64
  typeIndex : Option UInt64
  r : Option String
  s : Option String
  deriving DecidableEq

structure MemberRequest where
  publicKey : Option String
  attestation : Option String
  credentialId : Option String
  authenticatorAttachment : Option String
  transports : Option String
  proof : Option ProofRequest
  deriving DecidableEq

structure RegisterRequest where
  rpId : Option String
  metadata : Option String
  groupPublicKey : Option String
  groupProof : Option ProofRequest
  members : Option (List MemberRequest)
  deriving DecidableEq

structure ReferRequest where
  rpId : Option String
  groupPublicKey : Option String
  metadata : Option String
  member : Option MemberRequest
  deriving DecidableEq

inductive AdmissionRequest where
  | register (request : RegisterRequest)
  | refer (request : ReferRequest)
  deriving DecidableEq

/-! ## Bounds -/

def maxMembers : Nat := 7
def maxMetadataBytes : Nat := 2048
def attestationBytes : Nat := 20
def attestationVersion : UInt8 := 1

/-! ## Fields -/

/-- `str::parse::<Address>`: twenty bytes of hex, with or without the marker. -/
def parseAddress (value : String) : Option Address := do
  let bytes ← parseHexBytes value
  if bytes.length = 20 then some (Fin.ofNat (2 ^ 160) (ofBe bytes)) else none

/-- The stored form of a byte field: empty, or `0x`-hex. -/
def normalHex (bytes : Bytes) : String := if bytes.isEmpty then "" else hexText bytes

/-- The characters of the Unicode property `White_Space`, as `char::is_whitespace` has them. -/
def isWhitespace (c : Char) : Bool :=
  let n := c.toNat
  (9 ≤ n && n ≤ 13) || n == 0x20 || n == 0x85 || n == 0xa0 || n == 0x1680 ||
    (0x2000 ≤ n && n ≤ 0x200a) || n == 0x2028 || n == 0x2029 || n == 0x202f || n == 0x205f ||
      n == 0x3000

/-- `str::trim`. -/
def trim (value : String) : String :=
  String.ofList (((value.toList.dropWhile isWhitespace).reverse.dropWhile isWhitespace).reverse)

def isAsciiHexdigit (c : Char) : Bool := (Hex.value c).isSome

variable (K : P256Crate)

/-- Key shape and curve membership; returns the normalized lowercase hex. -/
def parsePublicKey (value : Option String) : Except String String := do
  let publicKey ← okOr value "publicKey is required"
  let raw := stripHexMarker publicKey.toList
  revertIf (¬ ((utf8 (String.ofList raw)).length = 130 ∧ raw.all isAsciiHexdigit = true))
    "publicKey must be an uncompressed P-256 point (04 + 128 hex chars)"
  revertIf (['0', '4'].isPrefixOf raw = false)
    "publicKey must start with the uncompressed prefix 04"
  let publicKey := raw.map Char.toLower
  -- `expect("validated hex")`: 130 hex digits always decode
  let keyBytes := (Hex.decodeChars publicKey).getD []
  revertIf (K.fromSec1Bytes keyBytes = false) "publicKey must be a valid point on the P-256 curve"
  pure (String.ofList publicKey)

/-- Field presence for a proof; verification happens once the challenge exists. -/
def parseProof (proof : Option ProofRequest) : Except String Proof := do
  let proof ← okOr proof "proof is required"
  let authenticatorData ← okOr proof.authenticatorData "proof.authenticatorData is required"
  let clientDataJSON ← okOr proof.clientDataJSON "proof.clientDataJSON is required"
  let challengeIndex ← okOr proof.challengeIndex "proof.challengeIndex is required"
  let typeIndex ← okOr proof.typeIndex "proof.typeIndex is required"
  let r ← okOr proof.r "proof.r is required"
  let s ← okOr proof.s "proof.s is required"
  pure { authenticatorData := authenticatorData, clientDataJSON := clientDataJSON
         challengeIndex := challengeIndex, typeIndex := typeIndex, r := r, s := s }

/-- Attestation shape (empty, or 20 versioned bytes). -/
def validateAttestationHex (value : String) : Except String String := do
  let bytes ← okOr (parseHexBytes value) "attestation must be a valid hex string"
  revertIf (bytes ≠ [] ∧ bytes.length ≠ attestationBytes) "attestation must be 20 bytes"
  revertIf (bytes ≠ [] ∧ bytes.headD 0 ≠ attestationVersion)
    "attestation must start with version byte 0x01"
  pure (normalHex bytes)

def normalizeCredentialId (value : String) : Except String String := do
  let bytes ← okOr (parseHexBytes value) "credentialId must be a valid hex string"
  revertIf (1023 < bytes.length) "credentialId exceeds 1023 bytes"
  pure (normalHex bytes)

/-- A browser-reported display hint: an opaque token, trimmed and bounded in bytes. -/
def normalizeHint (value : String) (maxBytes : Nat) (field : String) : Except String String := do
  let trimmed := trim value
  revertIf (maxBytes < (utf8 trimmed).length)
    (field ++ " exceeds " ++ toString maxBytes ++ " bytes")
  pure trimmed

/-- Structural parse of one member. -/
def parseMember (member : MemberRequest) : Except String Member := do
  let publicKey ← parsePublicKey K member.publicKey
  let attestation ← validateAttestationHex (member.attestation.getD "")
  let credentialId ← normalizeCredentialId (member.credentialId.getD "")
  let authenticatorAttachment ←
    normalizeHint (member.authenticatorAttachment.getD "") 32 "authenticatorAttachment"
  let transports ← normalizeHint (member.transports.getD "") 255 "transports"
  let proof ← parseProof member.proof
  pure { publicKey := publicKey, attestation := attestation, credentialId := credentialId
         authenticatorAttachment := authenticatorAttachment, transports :=
           transports, proof := proof }

/-- `rpId`: present, not empty, bounded in bytes. -/
def parseRpId (rpId : Option String) : Except String String := do
  let rpId ← okOr (rpId.filter fun value => value ≠ "") "rpId is required"
  revertIf (253 < (utf8 rpId).length) "rpId exceeds max length (253)"
  pure rpId

def parseMetadata (metadata : Option String) : Except String String := do
  let bytes ← okOr (parseHexBytes (metadata.getD "")) "metadata must be a valid hex string"
  revertIf (maxMetadataBytes < bytes.length) "metadata exceeds max length (2048 bytes)"
  pure (normalHex bytes)

/-- The error of a member names its place in the list. -/
def atMember (index : Nat) (message : String) : String :=
  "members[" ++ toString index ++ "]: " ++ message

/-- The loop over the members: `parsed` holds the earlier ones. -/
def parseMembers (groupPublicKey : String) (index : Nat) (parsed : List Member) :
    List MemberRequest → Except String (List Member)
  | [] => pure parsed
  | request :: rest => do
      let member ← (parseMember K request).mapError (atMember index)
      revertIf (member.publicKey = groupPublicKey)
        (atMember index "the group key cannot also be a member")
      revertIf (parsed.any (fun earlier => earlier.publicKey = member.publicKey) = true)
        (atMember index "duplicate public key within the unit")
      parseMembers groupPublicKey (index + 1) (parsed ++ [member]) rest

/-- `hex::decode(..).expect("validated hex")` of a normalized key. -/
def keyBytesOf (publicKey : String) : Bytes := (Hex.decodeChars publicKey.toList).getD []

/-- `parse_hex_bytes(..).expect("validated hex")` of a normalized field. -/
def fieldBytesOf (value : String) : Bytes := (parseHexBytes value).getD []

variable (E : Contract.Evm)

/-- Every member's proof binds the group key and its own attestation. -/
def verifyMembers (chainId : UInt64) (registry : Address) (rpId : String) (groupKeyBytes : Bytes)
    (index : Nat) : List Member → Except String Unit
  | [] => pure ()
  | member :: rest => do
      let keyBytes := keyBytesOf member.publicKey
      let binding := memberBindingFor E groupKeyBytes (fieldBytesOf member.attestation)
      let challenge := challengeFor E chainId registry rpId keyBytes binding
      (verifyProof E K member.proof challenge rpId keyBytes).mapError fun error =>
        atMember index ("proof rejected: " ++ error)
      verifyMembers chainId registry rpId groupKeyBytes (index + 1) rest

/-- `now_ms as i64`. -/
def createdAtOf (nowMs : UInt64) : Int := (nowMs.toNat : Int).bmod (2 ^ 64)

/-- A fresh task: pending, not admitted, without its content hash. -/
def newTask (id : String) (kind : TaskKind) (rpId metadata groupPublicKey : String)
    (groupProof : Option Proof) (members : List Member) (nowMs : UInt64) : RegisterTask where
  id := id
  status := .pending
  kind := kind
  rpId := rpId
  metadata := metadata
  contentHash := ""
  groupPublicKey := groupPublicKey
  groupProof := groupProof
  members := members
  txHash := none
  onChainId := none
  error := none
  retries := 0
  createdAt := createdAtOf nowMs
  admitted := false

def misconfigured : String := "service misconfigured: invalid registry address"

/-- The canonical task of a register request and its content hash. -/
def validateRegister (request : RegisterRequest) (newTaskId : String) (nowMs chainId : UInt64)
    (registry : String) : Except String (RegisterTask × String) := do
  let registry ← okOr (parseAddress registry) misconfigured
  let rpId ← parseRpId request.rpId
  let metadata ← parseMetadata request.metadata
  let members ← okOr (request.members.filter fun members => members ≠ [])
    "members is required (1 to 7 entries)"
  revertIf (maxMembers < members.length) "members must contain 1 to 7 entries"
  let groupPublicKey ←
    (parsePublicKey K request.groupPublicKey).mapError fun message => "groupPublicKey: " ++ message
  let groupProof ← (parseProof request.groupProof).mapError fun message => "groupProof: " ++ message
  let members ← parseMembers K groupPublicKey 0 [] members
  let task :=
    newTask newTaskId .register rpId metadata groupPublicKey (some groupProof) members nowMs
  -- every field was parsed above, so the hash exists
  let contentHash ← okOr (contentHashFor E task) "invalid hex"
  let groupKeyBytes := keyBytesOf groupPublicKey
  let challenge := challengeFor E chainId registry rpId groupKeyBytes contentHash
  (verifyProof E K groupProof challenge rpId groupKeyBytes).mapError fun error =>
    "groupProof: proof rejected: " ++ error
  verifyMembers K E chainId registry rpId groupKeyBytes 0 members
  pure ({ task with contentHash := hexText contentHash.val }, hexText contentHash.val)

/-- The canonical task of a refer request and its content hash. -/
def validateRefer (request : ReferRequest) (newTaskId : String) (nowMs chainId : UInt64)
    (registry : String) : Except String (RegisterTask × String) := do
  let registry ← okOr (parseAddress registry) misconfigured
  let rpId ← parseRpId request.rpId
  let groupPublicKey ←
    (parsePublicKey K request.groupPublicKey).mapError fun message => "groupPublicKey: " ++ message
  let metadata ← parseMetadata request.metadata
  let member ← okOr request.member "member is required"
  let member ← (parseMember K member).mapError fun message => "member: " ++ message
  revertIf (member.publicKey = groupPublicKey) "member: the group key cannot also be a member"
  let task := newTask newTaskId .refer rpId metadata groupPublicKey none [member] nowMs
  let contentHash ← okOr (contentHashFor E task) "invalid hex"
  let keyBytes := keyBytesOf member.publicKey
  let binding := referenceBindingFor E (keyBytesOf groupPublicKey) (fieldBytesOf member.attestation)
    (fieldBytesOf metadata)
  let challenge := challengeFor E chainId registry rpId keyBytes binding
  (verifyProof E K member.proof challenge rpId keyBytes).mapError fun error =>
    "member: proof rejected: " ++ error
  pure ({ task with contentHash := hexText contentHash.val }, hexText contentHash.val)

/-! ## Accepted requests -/

variable {K E} {newTaskId registry text : String} {nowMs chainId : UInt64} {task : RegisterTask}

/-- The parts of an accepted register request, with the checks they passed. -/
structure RegisterAccepted (K : P256Crate) (E : Contract.Evm) (request : RegisterRequest)
    (newTaskId : String) (nowMs chainId : UInt64) (address : Address) (groupProof : Proof)
    (contentHash : Bytes32) (task : RegisterTask) : Prop where
  rpId : parseRpId request.rpId = .ok task.rpId
  metadata : parseMetadata request.metadata = .ok task.metadata
  group_key : parsePublicKey K request.groupPublicKey = .ok task.groupPublicKey
  members : ∃ requests, request.members = some requests ∧ requests ≠ [] ∧
    requests.length ≤ maxMembers ∧ parseMembers K task.groupPublicKey 0 [] requests =
      .ok task.members
  content_hash : contentHashFor E task = some contentHash
  group_proof : verifyProof E K groupProof
    (challengeFor E chainId address task.rpId (keyBytesOf task.groupPublicKey) contentHash)
      task.rpId (keyBytesOf task.groupPublicKey) = .ok ()
  member_proofs : verifyMembers K E chainId address task.rpId (keyBytesOf task.groupPublicKey) 0
    task.members = .ok ()
  task_eq : task =
    { newTask newTaskId .register task.rpId task.metadata task.groupPublicKey (some groupProof)
        task.members nowMs with contentHash := hexText contentHash.val }

/-- A register request is accepted exactly if its parts pass their checks. -/
theorem validateRegister_iff {request : RegisterRequest} :
    validateRegister K E request newTaskId nowMs chainId registry = .ok (task, text) ↔
      ∃ address groupProof contentHash, parseAddress registry = some address ∧
        parseProof request.groupProof = .ok groupProof ∧ text = hexText contentHash.val ∧
          RegisterAccepted K E request newTaskId nowMs chainId address groupProof
            contentHash task := by
  simp only [validateRegister, Except.bind_eq_ok, okOr_eq_ok, revertIf_eq_ok, Except.mapError_eq_ok,
    exists_const, not_lt, Except.pure_eq_ok, Prod.mk.injEq, Option.filter_eq_some_iff,
    decide_eq_true_eq]
  constructor
  · rintro ⟨address, haddress, rpId, hrpId, metadata, hmetadata, requests, ⟨hrequests, hne⟩, hlen,
      group, hgroup, groupProof, hgroupProof, members, hmembers, contentHash, hhash, _, hproof, _,
      hproofs, rfl, rfl⟩
    exact ⟨address, groupProof, contentHash, haddress, hgroupProof, rfl, hrpId, hmetadata, hgroup,
      ⟨requests, hrequests, hne, hlen, hmembers⟩, hhash, hproof, hproofs, rfl⟩
  · rintro ⟨address, groupProof, contentHash, haddress, hgroupProof, rfl, h⟩
    obtain ⟨requests, hrequests, hne, hlen, hmembers⟩ := h.members
    have hhash := h.content_hash
    rw [h.task_eq] at hhash
    exact ⟨address, haddress, task.rpId, h.rpId, task.metadata, h.metadata, requests,
      ⟨hrequests, hne⟩, hlen, task.groupPublicKey, h.group_key, groupProof, hgroupProof,
      task.members, hmembers, contentHash, hhash, (), h.group_proof, (), h.member_proofs,
      h.task_eq.symm, rfl⟩

theorem validateRegister_eq_ok {request : RegisterRequest}
    (h : validateRegister K E request newTaskId nowMs chainId registry = .ok (task, text)) :
    ∃ address groupProof contentHash, parseAddress registry = some address ∧
      text = hexText contentHash.val ∧
        RegisterAccepted K E request newTaskId nowMs chainId address groupProof
          contentHash task := by
  obtain ⟨address, groupProof, contentHash, haddress, -, htext, haccepted⟩ :=
    validateRegister_iff.mp h
  exact ⟨address, groupProof, contentHash, haddress, htext, haccepted⟩

/-- The parts of an accepted refer request, with the checks they passed. -/
structure ReferAccepted (K : P256Crate) (E : Contract.Evm) (request : ReferRequest)
    (newTaskId : String) (nowMs chainId : UInt64) (address : Address) (member : Member)
    (contentHash : Bytes32) (task : RegisterTask) : Prop where
  rpId : parseRpId request.rpId = .ok task.rpId
  metadata : parseMetadata request.metadata = .ok task.metadata
  group_key : parsePublicKey K request.groupPublicKey = .ok task.groupPublicKey
  request_member : ∃ memberRequest, request.member = some memberRequest ∧
    parseMember K memberRequest = .ok member
  not_group : member.publicKey ≠ task.groupPublicKey
  content_hash : contentHashFor E task = some contentHash
  proof : verifyProof E K member.proof
    (challengeFor E chainId address task.rpId (keyBytesOf member.publicKey)
      (referenceBindingFor E (keyBytesOf task.groupPublicKey) (fieldBytesOf member.attestation)
        (fieldBytesOf task.metadata))) task.rpId (keyBytesOf member.publicKey) = .ok ()
  task_eq : task =
    { newTask newTaskId .refer task.rpId task.metadata task.groupPublicKey none [member] nowMs with
        contentHash := hexText contentHash.val }

/-- A refer request is accepted exactly if its parts pass their checks. -/
theorem validateRefer_iff {request : ReferRequest} :
    validateRefer K E request newTaskId nowMs chainId registry = .ok (task, text) ↔
      ∃ address member contentHash, parseAddress registry = some address ∧
        text = hexText contentHash.val ∧
          ReferAccepted K E request newTaskId nowMs chainId address member contentHash task := by
  simp only [validateRefer, Except.bind_eq_ok, okOr_eq_ok, revertIf_eq_ok, Except.mapError_eq_ok,
    exists_const, Except.pure_eq_ok, Prod.mk.injEq]
  constructor
  · rintro ⟨address, haddress, rpId, hrpId, group, hgroup, metadata, hmetadata,
      memberRequest, hrequest, member, hmember, hne, contentHash, hhash, _, hproof, rfl, rfl⟩
    exact ⟨address, member, contentHash, haddress, rfl, hrpId, hmetadata, hgroup,
      ⟨memberRequest, hrequest, hmember⟩, hne, hhash, hproof, rfl⟩
  · rintro ⟨address, member, contentHash, haddress, rfl, h⟩
    obtain ⟨memberRequest, hrequest, hmember⟩ := h.request_member
    have hhash := h.content_hash
    rw [h.task_eq] at hhash
    exact ⟨address, haddress, task.rpId, h.rpId, task.groupPublicKey, h.group_key, task.metadata,
      h.metadata, memberRequest, hrequest, member, hmember, h.not_group, contentHash, hhash, (),
      h.proof, h.task_eq.symm, rfl⟩

end P256Index.Registrar
