import P256Index.Contract.Verify

/-!
# The legacy index

`WebAuthnP256PublicKeyIndex`: passkey records named by their rpId and credential id, written in two
steps. A digest of the seven fields is committed first, and a later block reveals them. Records are
found by name, by wallet reference and through lists for each rpId; a rotated key names the record
its line began with.

Strings are byte strings, mappings total functions with Solidity's zero as the default, and a revert
is an error, so that a reverted call has no state.
-/

namespace P256Index.Legacy

open Abi

/-! ## Storage -/

/-- The arguments of `createRecord`. -/
structure CreateArgs where
  rpId : Bytes
  credentialId : Bytes
  walletRef : Bytes32
  publicKey : Bytes
  name : Bytes
  initialCredentialId : Bytes
  metadata : Bytes
  deriving DecidableEq

structure PublicKeyRecord extends CreateArgs where
  createdAt : Nat
  deriving DecidableEq

/-- `bytes32(0)`. -/
def zero32 : Bytes32 := ⟨List.replicate 32 0, List.length_replicate⟩

def PublicKeyRecord.zero : PublicKeyRecord where
  rpId := []
  credentialId := []
  walletRef := zero32
  publicKey := []
  name := []
  initialCredentialId := []
  metadata := []
  createdAt := 0

structure Index where
  records : Bytes32 → PublicKeyRecord
  commitBlockPlusOne : Bytes32 → Nat
  totalCredentials : Nat
  rpIds : List Bytes
  rpCreatedAt : Bytes → Nat
  rpCredentials : Bytes → List Bytes
  recordKeyByWalletRef : Bytes32 → Bytes32

namespace Index

/-- A fresh deployment. -/
def empty : Index where
  records := fun _ => .zero
  commitBlockPlusOne := fun _ => 0
  totalCredentials := 0
  rpIds := []
  rpCreatedAt := fun _ => 0
  rpCredentials := fun _ => []
  recordKeyByWalletRef := fun _ => zero32

def recordExists (s : Index) (key : Bytes32) : Bool := (s.records key).rpId.length != 0

end Index

/-! ## Digests -/

/-- `abi.encode(rpId, credentialId)`. -/
def nameFields : Fields (Bytes × Bytes × Unit) := .cons bytes (.cons bytes .nil)

def nameEncoding (rpId credentialId : Bytes) : Bytes :=
  (Codec.tuple nameFields).encode (rpId, credentialId, ())

/-- `abi.encode(rpId, credentialId, walletRef, publicKey, name, initialCredentialId, metadata)`. -/
def argsFields : Fields (Bytes × Bytes × Bytes32 × Bytes × Bytes × Bytes × Bytes × Unit) :=
  .cons bytes
    (.cons bytes (.cons bytes32 (.cons bytes (.cons bytes (.cons bytes (.cons bytes .nil))))))

def CreateArgs.encoding (a : CreateArgs) : Bytes :=
  (Codec.tuple argsFields).encode
    (a.rpId, a.credentialId, a.walletRef, a.publicKey, a.name, a.initialCredentialId,
      a.metadata, ())

variable (keccak256 : Bytes → Bytes32)

def recordKey (rpId credentialId : Bytes) : Bytes32 := keccak256 (nameEncoding rpId credentialId)

def CreateArgs.commitment (a : CreateArgs) : Bytes32 := keccak256 a.encoding

/-! ## Checks -/

inductive IndexRevert where
  | emptyRpId
  | emptyCredentialId
  | invalidPublicKeyLength (length : Nat)
  | rpIdTooLong (length : Nat)
  | credentialIdTooLong (length : Nat)
  | nameTooLong (length : Nat)
  | recordAlreadyExists (rpId credentialId : Bytes)
  | recordNotFound (rpId credentialId : Bytes)
  | invalidPublicKeyPrefix (byte : UInt8)
  | initialCredentialIdTooLong (length : Nat)
  | metadataTooLong (length : Nat)
  | initialRecordNotFound (rpId initialCredentialId : Bytes)
  | initialRecordNotRoot (rpId initialCredentialId : Bytes)
  | notCommitted
  | revealTooEarly
  | emptyWalletRef
  | walletRefNotFound (walletRef : Bytes32)
  | walletRefAlreadyExists (walletRef : Bytes32)
  | invalidPublicKeyCoordinate
  | invalidPublicKeyPoint
  deriving DecidableEq

def maxRpIdLength : Nat := 253
def maxCredentialIdLength : Nat := 1024
def maxNameLength : Nat := 256
def uncompressedP256KeyLength : Nat := 65
def maxMetadataLength : Nat := 1024
def revealDelay : Nat := 1

def validatePublicKey (publicKey : Bytes) : Except IndexRevert Unit := do
  revertIf (publicKey.length ≠ uncompressedP256KeyLength) (.invalidPublicKeyLength publicKey.length)
  revertIf (publicKey.headD 0 ≠ 4) (.invalidPublicKeyPrefix (publicKey.headD 0))
  let key := Contract.coordinates publicKey
  revertIf (Contract.p256P ≤ key.1 ∨ Contract.p256P ≤ key.2) .invalidPublicKeyCoordinate
  revertIf (Contract.onCurve key.1 key.2 = false) .invalidPublicKeyPoint

/-- The checks of `createRecord` that read the arguments alone, in order. -/
def validateArgs (a : CreateArgs) : Except IndexRevert Unit := do
  revertIf (a.rpId.length = 0) .emptyRpId
  revertIf (maxRpIdLength < a.rpId.length) (.rpIdTooLong a.rpId.length)
  revertIf (a.credentialId.length = 0) .emptyCredentialId
  revertIf (maxCredentialIdLength < a.credentialId.length)
    (.credentialIdTooLong a.credentialId.length)
  validatePublicKey a.publicKey
  revertIf (maxNameLength < a.name.length) (.nameTooLong a.name.length)
  revertIf (maxCredentialIdLength < a.initialCredentialId.length)
    (.initialCredentialIdTooLong a.initialCredentialId.length)
  revertIf (maxMetadataLength < a.metadata.length) (.metadataTooLong a.metadata.length)
  revertIf (a.walletRef = zero32) .emptyWalletRef

/-- A rotated key must name an existing record that names itself. -/
def checkInitial (a : CreateArgs) (s : Index) : Except IndexRevert Unit :=
  if keccak256 a.initialCredentialId ≠ keccak256 a.credentialId then do
    let initKey := recordKey keccak256 a.rpId a.initialCredentialId
    revertIf (s.recordExists initKey = false) (.initialRecordNotFound a.rpId a.initialCredentialId)
    revertIf (keccak256 (s.records initKey).initialCredentialId ≠ keccak256 a.initialCredentialId)
      (.initialRecordNotRoot a.rpId a.initialCredentialId)
  else pure ()

/-! ## Writes -/

namespace Index

/-- `commit`: a commitment that stands is left as it is. -/
def commit (s : Index) (block : Nat) (commitment : Bytes32) : Index :=
  if s.commitBlockPlusOne commitment = 0 then
    { s with commitBlockPlusOne := Function.update s.commitBlockPlusOne commitment (block + 1) }
  else s

/-- `delete _commitBlockPlusOne[commitment]`. -/
def consume (s : Index) (commitment : Bytes32) : Index :=
  { s with commitBlockPlusOne := Function.update s.commitBlockPlusOne commitment 0 }

/-- The writes of `createRecord` once every check has passed. -/
def store (s : Index) (key : Bytes32) (r : PublicKeyRecord) : Index :=
  { s with
    records := Function.update s.records key r
    rpIds := if (s.rpCredentials r.rpId).length = 0 then s.rpIds ++ [r.rpId] else s.rpIds
    rpCreatedAt :=
      if (s.rpCredentials r.rpId).length = 0 then Function.update s.rpCreatedAt r.rpId r.createdAt
      else s.rpCreatedAt
    rpCredentials :=
      Function.update s.rpCredentials r.rpId (s.rpCredentials r.rpId ++ [r.credentialId])
    recordKeyByWalletRef := Function.update s.recordKeyByWalletRef r.walletRef key
    totalCredentials := s.totalCredentials + 1 }

end Index

/-- `createRecord` in a block with this number and timestamp. -/
def createRecord (block now : Nat) (a : CreateArgs) (s : Index) : Except IndexRevert Index := do
  validateArgs a
  revertIf (s.recordKeyByWalletRef a.walletRef ≠ zero32) (.walletRefAlreadyExists a.walletRef)
  let commitment := a.commitment keccak256
  revertIf (s.commitBlockPlusOne commitment = 0) .notCommitted
  revertIf (block < s.commitBlockPlusOne commitment - 1 + revealDelay) .revealTooEarly
  let s := s.consume commitment
  let key := recordKey keccak256 a.rpId a.credentialId
  revertIf (s.recordExists key = true) (.recordAlreadyExists a.rpId a.credentialId)
  checkInitial keccak256 a s
  pure (s.store key { a with createdAt := now })

/-! ## Reads -/

namespace Index

def getCommitBlock (s : Index) (commitment : Bytes32) : Nat :=
  let v := s.commitBlockPlusOne commitment
  if v = 0 then 0 else v - 1

def getRecord (s : Index) (rpId credentialId : Bytes) : Except IndexRevert PublicKeyRecord := do
  let key := recordKey keccak256 rpId credentialId
  revertIf (s.recordExists key = false) (.recordNotFound rpId credentialId)
  pure (s.records key)

def getRecordByWalletRef (s : Index) (walletRef : Bytes32) :
    Except IndexRevert PublicKeyRecord := do
  let key := s.recordKeyByWalletRef walletRef
  revertIf (key = zero32) (.walletRefNotFound walletRef)
  pure (s.records key)

def hasRecord (s : Index) (rpId credentialId : Bytes) : Bool :=
  s.recordExists (recordKey keccak256 rpId credentialId)

def getTotalCredentialsByRpId (s : Index) (rpId : Bytes) : Nat := (s.rpCredentials rpId).length

def getTotalCredentials (s : Index) : Nat := s.totalCredentials

def getTotalRpIds (s : Index) : Nat := s.rpIds.length

end Index

end P256Index.Legacy
