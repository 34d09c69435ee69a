import P256Index.Contract.Verify

/-!
# The registry contract

The storage of `WebAuthnP256PublicKeyRegistry` and its two writes, statement by statement. Arrays
are lists, mappings are total functions with Solidity's zero as the default, and a revert is an
error, so that a reverted call has no state. `E` supplies the hashes and the precompile, `d` is the
frozen signature domain and `now` is `block.timestamp`.

Every write is split into the checks that may revert and one total update of the storage
(`openUnit`, `resolve`, `linkMember`, `pushReference`); the acceptance theorems say exactly when the
checks pass:

* `register_eq_ok` — static checks, an unused group key, and every member in line with its entry;
* `refer_eq_ok` — an existing group, the static checks for its rpId, and a fresh pair.
-/

namespace P256Index.Contract

/-- The storage of one deployment. -/
structure Registry where
  entries : List Entry
  units : List GroupUnit
  references : List Reference
  entryIdPlusOneByKey : Bytes32 → Nat
  unitIdPlusOneByGroupKey : Bytes32 → Nat
  unitIdPlusOneByContent : Bytes32 → Nat
  groupEntryIds : Nat → List Nat
  entryUnitIds : Nat → List Nat
  isMemberLink : Nat → Nat → Bool
  referenceIdsByEntry : Nat → List Nat
  referenceIdsByUnit : Nat → List Nat
  referenceIdPlusOneByLink : Nat → Nat → Nat
  rpIds : List Bytes
  rpCreatedAt : Bytes → Nat
  unitIdsByRpId : Bytes → List Nat
  registerPayload : Nat → Bytes
  referPayload : Nat → Bytes

/-- A fresh deployment. -/
def Registry.empty : Registry where
  entries := []
  units := []
  references := []
  entryIdPlusOneByKey := fun _ => 0
  unitIdPlusOneByGroupKey := fun _ => 0
  unitIdPlusOneByContent := fun _ => 0
  groupEntryIds := fun _ => []
  entryUnitIds := fun _ => []
  isMemberLink := fun _ _ => false
  referenceIdsByEntry := fun _ => []
  referenceIdsByUnit := fun _ => []
  referenceIdPlusOneByLink := fun _ _ => 0
  rpIds := []
  rpCreatedAt := fun _ => 0
  unitIdsByRpId := fun _ => []
  registerPayload := fun _ => []
  referPayload := fun _ => []

/-! ## Storage updates -/

/-- `_entries.push(…)` and its key index. -/
def Registry.pushEntry (s : Registry) (keyHash : Bytes32) (e : Entry) : Registry :=
  { s with
    entries := s.entries ++ [e]
    entryIdPlusOneByKey := Function.update s.entryIdPlusOneByKey keyHash (s.entries.length + 1) }

/-- `_units.push(…)` with the group-key, content and rpId indexes. -/
def Registry.openUnit (s : Registry) (groupKeyHash : Bytes32) (u : GroupUnit) : Registry :=
  let unitId := s.units.length
  { s with
    units := s.units ++ [u]
    unitIdPlusOneByGroupKey := Function.update s.unitIdPlusOneByGroupKey groupKeyHash (unitId + 1)
    unitIdPlusOneByContent := Function.update s.unitIdPlusOneByContent u.contentHash (unitId + 1)
    rpIds := if (s.unitIdsByRpId u.rpId).length = 0 then s.rpIds ++ [u.rpId] else s.rpIds
    rpCreatedAt :=
      if (s.unitIdsByRpId u.rpId).length = 0 then Function.update s.rpCreatedAt u.rpId u.createdAt
      else s.rpCreatedAt
    unitIdsByRpId := Function.update s.unitIdsByRpId u.rpId (s.unitIdsByRpId u.rpId ++ [unitId]) }

/-- The three writes that make an entry a member of a unit. -/
def Registry.linkMember (s : Registry) (unitId entryId : Nat) : Registry :=
  { s with
    isMemberLink :=
      Function.update s.isMemberLink unitId (Function.update (s.isMemberLink unitId) entryId true)
    groupEntryIds := Function.update s.groupEntryIds unitId (s.groupEntryIds unitId ++ [entryId])
    entryUnitIds := Function.update s.entryUnitIds entryId (s.entryUnitIds entryId ++ [unitId]) }

/-- `_references.push(…)` with its three indexes and its payload. -/
def Registry.pushReference (s : Registry) (r : Reference) (data : Bytes) : Registry :=
  let referenceId := s.references.length
  { s with
    references := s.references ++ [r]
    referenceIdPlusOneByLink :=
      Function.update s.referenceIdPlusOneByLink r.unitId
        (Function.update (s.referenceIdPlusOneByLink r.unitId) r.entryId (referenceId + 1))
    referenceIdsByEntry :=
      Function.update s.referenceIdsByEntry r.entryId
        (s.referenceIdsByEntry r.entryId ++ [referenceId])
    referenceIdsByUnit :=
      Function.update s.referenceIdsByUnit r.unitId (s.referenceIdsByUnit r.unitId ++ [referenceId])
    referPayload := Function.update s.referPayload referenceId data }

/-- `_registerPayload[unitId] = msg.data`. -/
def Registry.storeRegisterPayload (s : Registry) (unitId : Nat) (data : Bytes) : Registry :=
  { s with registerPayload := Function.update s.registerPayload unitId data }

/-- The entry a member's first appearance creates. -/
def Member.entry (m : Member) (now : Nat) : Entry where
  publicKey := m.publicKey
  attestation := m.attestation
  credentialId := m.credentialId
  authenticatorAttachment := m.authenticatorAttachment
  transports := m.transports
  createdAt := now

/-! ## The writes -/

variable (E : Evm) (d : Domain)

/-- The key's entry: matched against the file when there is one, created otherwise. -/
def resolveEntry (now : Nat) (keyHash : Bytes32) (m : Member) (s : Registry) :
    Except Revert (Nat × Registry) := do
  let plusOne := s.entryIdPlusOneByKey keyHash
  if plusOne ≠ 0 then
    let entryId := plusOne - 1
    match s.entries[entryId]? with
    | none => throw .panic
    | some e => do
      revertIf (E.keccak256 e.attestation ≠ E.keccak256 m.attestation)
        (.attestationMismatch entryId)
      revertIf (E.keccak256 e.credentialId ≠ E.keccak256 m.credentialId)
        (.credentialIdMismatch entryId)
      pure (entryId, s)
  else do
    validateAttestation m.attestation
    revertIf (maxCredentialIdLength < m.credentialId.length)
      (.credentialIdTooLong m.credentialId.length)
    revertIf (maxAuthenticatorAttachmentLength < m.authenticatorAttachment.length)
      (.authenticatorAttachmentTooLong m.authenticatorAttachment.length)
    revertIf (maxTransportsLength < m.transports.length) (.transportsTooLong m.transports.length)
    pure (s.entries.length, s.pushEntry keyHash (m.entry now))

/-- The group key's authorization of the frozen record. -/
def verifyGroup (rpId groupPublicKey : Bytes) (groupProof : Proof) (contentHash : Bytes32) :
    Except Revert Unit := do
  let key ← validatePublicKey groupPublicKey
  verifyProof E groupProof (challengeFor E d rpId groupPublicKey contentHash) rpId key

/-- One member joining the group being registered. -/
def admitMember (now unitId : Nat) (rpId groupPublicKey : Bytes) (keyHash : Bytes32) (m : Member)
    (s : Registry) : Except Revert Registry := do
  let key ← validatePublicKey m.publicKey
  let (entryId, s) ← resolveEntry E now keyHash m s
  let s := s.linkMember unitId entryId
  let binding := memberBindingFor E groupPublicKey m.attestation
  verifyProof E m.proof (challengeFor E d rpId m.publicKey binding) rpId key
  pure s

/-- The first loop over the members: their key hashes, pairwise distinct and none the group key's.
`keyHashes` holds the hashes of the members before. -/
def distinctKeyHashes (groupKeyHash : Bytes32) (keyHashes : List Bytes32) :
    List Member → Except Revert (List Bytes32)
  | [] => pure keyHashes
  | m :: rest => do
      let keyHash := E.keccak256 m.publicKey
      revertIf (keyHash = groupKeyHash) (.duplicateMemberKey keyHashes.length)
      revertIf (keyHash ∈ keyHashes) (.duplicateMemberKey keyHashes.length)
      distinctKeyHashes groupKeyHash (keyHashes ++ [keyHash]) rest

/-- The second loop over the members. -/
def admitMembers (now unitId : Nat) (rpId groupPublicKey : Bytes) :
    List (Bytes32 × Member) → Registry → Except Revert Registry
  | [], s => pure s
  | (keyHash, m) :: rest, s => do
      let s ← admitMember E d now unitId rpId groupPublicKey keyHash m s
      admitMembers now unitId rpId groupPublicKey rest s

/-- The unit row a call opens. -/
def RegisterArgs.unit (a : RegisterArgs) (now : Nat) : GroupUnit where
  rpId := a.rpId
  metadata := a.metadata
  groupPublicKey := a.groupPublicKey
  contentHash := contentHashFor E a.rpId a.metadata a.groupPublicKey a.members
  memberCount := a.members.length % 2 ^ 32
  createdAt := now

/-- Write 1: register a group. `data` is `msg.data`. -/
def register (now : Nat) (data : Bytes) (a : RegisterArgs) (s : Registry) :
    Except Revert Registry := do
  validateRpId a.rpId
  validateMetadata a.metadata
  revertIf (a.members.length = 0 ∨ maxMembers < a.members.length)
    (.invalidMemberCount a.members.length)
  let groupKeyHash := E.keccak256 a.groupPublicKey
  revertIf (s.unitIdPlusOneByGroupKey groupKeyHash ≠ 0) (.groupKeyAlreadyUsed groupKeyHash)
  let unitId := s.units.length
  let s := s.openUnit groupKeyHash (a.unit E now)
  verifyGroup E d a.rpId a.groupPublicKey a.groupProof (a.unit E now).contentHash
  let keyHashes ← distinctKeyHashes E groupKeyHash [] a.members
  let s ← admitMembers E d now unitId a.rpId a.groupPublicKey (keyHashes.zip a.members) s
  pure (s.storeRegisterPayload unitId data)

/-- Write 2: refer a passkey to a group. -/
def refer (now : Nat) (data : Bytes) (a : ReferArgs) (s : Registry) : Except Revert Registry := do
  validateMetadata a.metadata
  let groupKeyHash := E.keccak256 a.groupPublicKey
  let unitPlusOne := s.unitIdPlusOneByGroupKey groupKeyHash
  revertIf (unitPlusOne = 0) (.groupNotFound groupKeyHash)
  let unitId := unitPlusOne - 1
  match s.units[unitId]? with
  | none => throw .panic
  | some unit => do
    let keyHash := E.keccak256 a.member.publicKey
    revertIf (keyHash = groupKeyHash) (.duplicateMemberKey 0)
    let key ← validatePublicKey a.member.publicKey
    let (entryId, s) ← resolveEntry E now keyHash a.member s
    let linkPlusOne := s.referenceIdPlusOneByLink unitId entryId
    revertIf (linkPlusOne ≠ 0) (.alreadyReferenced (linkPlusOne - 1))
    let binding := referenceBindingFor E a.groupPublicKey a.member.attestation a.metadata
    verifyProof E a.member.proof (challengeFor E d unit.rpId a.member.publicKey binding) unit.rpId
      key
    pure (s.pushReference
      { entryId := entryId, unitId := unitId, metadata := a.metadata, createdAt := now } data)

/-- One message to the contract: the dispatcher decodes it and runs the write. -/
def call (now : Nat) (data : Bytes) (s : Registry) : Except Revert Registry :=
  match E.decode data with
  | some (.register a) => register E d now data a s
  | some (.refer a) => refer E d now data a s
  | none => throw .noSelector

/-- Messages in order, stopping at the first revert. -/
def calls : List (Nat × Bytes) → Registry → Except Revert Registry
  | [], s => pure s
  | (now, data) :: rest, s => do
      let s ← call E d now data s
      calls rest s

/-- The states of a deployment: any number of accepted messages from the empty storage. A reverted
message changes nothing. -/
inductive Reachable : Registry → Prop
  | empty : Reachable Registry.empty
  | call {s s' : Registry} {now : Nat} {data : Bytes} :
      Reachable s → call E d now data s = .ok s' → Reachable s'

end P256Index.Contract
