import P256Index.Contract.Challenge
import P256Index.Registrar.Task

/-!
# The registry protocol, service side

Hex plumbing, the digests a client signs, the calldata of the two writes, and the classification of
chain errors. The digests are those of the contract, over the bytes the hex fields stand for; the
calldata is the ABI encoding of the contract's own argument types.
-/

namespace P256Index.Registrar

/-! ## Chain errors -/

inductive ChainError where
  | unavailable
  | reverted (text : String)
  | invalidResponse
  | missingSigner
  | rejected (text : String)
  deriving DecidableEq

/-- `Display`: the text of the node never leaves the error. -/
def ChainError.display : ChainError → String
  | .unavailable => "chain RPC temporarily unavailable"
  | .reverted _ => "EVM execution reverted"
  | .invalidResponse => "chain RPC returned an invalid response"
  | .missingSigner => "PRIVATE_KEY is required for chain writes"
  | .rejected _ => "chain RPC rejected the request"

def selectorGroupKeyAlreadyUsed : String := "0x10eafb1a"
def selectorAlreadyReferenced : String := "0x40709c5d"
def selectorGroupNotFound : String := "0xdec308b4"
def selectorInvalidProof : String := "0x09bde339"

/-- `str::contains`. -/
def contains (value pattern : String) : Bool :=
  value.toList.tails.any fun t => pattern.toList.isPrefixOf t

def toAsciiLowercase (s : String) : String := String.ofList (s.toList.map Char.toLower)

/-- Does an RPC error text describe an EVM revert? -/
def isRevert (value : String) : Bool :=
  let value := toAsciiLowercase value
  contains value "execution reverted" || contains value "revert" ||
    contains value selectorGroupKeyAlreadyUsed || contains value selectorAlreadyReferenced ||
      contains value selectorInvalidProof

/-- The target group of a refer is not (yet) on-chain. -/
def isGroupNotFoundError : ChainError → Bool
  | .reverted value | .rejected value =>
      contains value "GroupNotFound" || contains value selectorGroupNotFound
  | _ => false

/-- The write's target may already exist on-chain. -/
def isAlreadyExistsError : ChainError → Bool
  | .reverted value | .rejected value =>
      contains value "GroupKeyAlreadyUsed" || contains value selectorGroupKeyAlreadyUsed ||
        contains value "AlreadyReferenced" || contains value selectorAlreadyReferenced
  | _ => false

/-- The node saw a replacement and judged its bid too low. -/
def isReplacementUnderpriced : ChainError → Bool
  | .rejected value | .reverted value =>
      let value := toAsciiLowercase value
      contains value "underpriced" || contains value "replacement transaction" ||
        contains value "already known"
  | _ => false

def isTransient : ChainError → Bool
  | .unavailable | .invalidResponse => true
  | .rejected value =>
      !isRevert value && !contains value "GroupKeyAlreadyUsed" &&
        !contains value "AlreadyReferenced" && !contains value "InvalidProof"
  | .reverted _ | .missingSigner => false

inductive ErrorClass where
  | alreadyExists
  | transient
  | poison
  deriving DecidableEq

def classifyChainError (error : ChainError) : ErrorClass :=
  if isAlreadyExistsError error then .alreadyExists
  else if isGroupNotFoundError error || isTransient error then .transient
  else .poison

/-! ## Hex plumbing -/

/-- `strip_prefix("0x").unwrap_or(value)`. -/
def stripHexMarker : List Char → List Char
  | '0' :: 'x' :: rest => rest
  | cs => cs

/-- Its error text is replaced by every caller, so only failure is kept. -/
def parseHexBytes (value : String) : Option Bytes := Hex.decodeChars (stripHexMarker value.toList)

def parseB256 (value : String) : Option Bytes32 := do
  let bytes ← parseHexBytes value
  if h : bytes.length = 32 then some ⟨bytes, h⟩ else none

/-- `format!("0x{}", hex::encode(bytes))`. -/
def hexText (bytes : Bytes) : String := "0x" ++ Hex.encode bytes

/-! ## Challenge and content hash -/

variable (E : Contract.Evm)

/-- The chain id is a `u64`. -/
def domainOf (chainId : UInt64) (registry : Address) : Contract.Domain where
  chainId := ⟨chainId.toNat, lt_trans chainId.toNat_lt (by norm_num)⟩
  registry := registry

def challengeFor (chainId : UInt64) (registry : Address) (rpId : String) (publicKey : Bytes)
    (binding : Bytes32) : Bytes32 :=
  E.keccak256 (Contract.challengePreimage (domainOf chainId registry) (utf8 rpId) publicKey binding)

def memberBindingFor (groupPublicKey attestation : Bytes) : Bytes32 :=
  E.keccak256 (Contract.pairPreimage groupPublicKey attestation)

def referenceBindingFor (groupPublicKey attestation metadata : Bytes) : Bytes32 :=
  E.keccak256 (Contract.triplePreimage groupPublicKey attestation metadata)

/-- One member's contribution to the content hash. -/
def memberHash (member : Member) : Option Bytes32 := do
  let publicKey ← parseHexBytes member.publicKey
  let attestation ← parseHexBytes member.attestation
  pure (E.keccak256 (Contract.pairPreimage publicKey attestation))

/-- The task's identity: the contract's content hash, or for a refer the digest of the pair the
chain itself keeps unique. Every member is parsed for either kind. -/
def contentHashFor (task : RegisterTask) : Option Bytes32 := do
  let group ← parseHexBytes task.groupPublicKey
  let metadata ← parseHexBytes task.metadata
  let memberHashes ← task.members.mapM (memberHash E)
  match task.kind with
  | .register =>
      pure (E.keccak256 (Contract.contentPreimage (utf8 task.rpId) metadata group memberHashes))
  | .refer => do
      let member ← task.members.head?
      let memberKey ← parseHexBytes member.publicKey
      pure (E.keccak256 (Contract.pairPreimage group memberKey))

/-! ## Calldata -/

/-- A `u64` or a big-endian word as a `uint256`. -/
def u256OfU64 (n : UInt64) : U256 := ⟨n.toNat, lt_trans n.toNat_lt (by norm_num)⟩

def u256OfBytes (b : Bytes32) : U256 :=
  ⟨ofBe b.val, by have h := ofBe_lt b.val; rw [b.property] at h; norm_num at h ⊢; exact h⟩

def proofSol (proof : Proof) : Option Contract.Proof := do
  let authenticatorData ← parseHexBytes proof.authenticatorData.val
  let r ← parseB256 proof.r
  let s ← parseB256 proof.s
  pure { authenticatorData := authenticatorData
         clientDataJSON := utf8 proof.clientDataJSON.val
         challengeIndex := u256OfU64 proof.challengeIndex
         typeIndex := u256OfU64 proof.typeIndex
         r := u256OfBytes r
         s := u256OfBytes s }

def memberSol (member : Member) : Option Contract.Member := do
  let publicKey ← parseHexBytes member.publicKey
  let attestation ← parseHexBytes member.attestation
  let credentialId ← parseHexBytes member.credentialId
  let proof ← proofSol member.proof
  pure { publicKey := publicKey
         attestation := attestation
         credentialId := credentialId
         authenticatorAttachment := utf8 member.authenticatorAttachment
         transports := utf8 member.transports
         proof := proof }

/-- The arguments of one `register` transaction. -/
def registerArgs (task : RegisterTask) : Option Contract.RegisterArgs := do
  let members ← task.members.mapM memberSol
  let groupProof ← task.groupProof
  let metadata ← parseHexBytes task.metadata
  let groupPublicKey ← parseHexBytes task.groupPublicKey
  let groupProof ← proofSol groupProof
  pure { rpId := utf8 task.rpId
         metadata := metadata
         groupPublicKey := groupPublicKey
         groupProof := groupProof
         members := members }

/-- The arguments of one `refer` transaction. -/
def referArgs (task : RegisterTask) : Option Contract.ReferArgs := do
  let member ← task.members.head?
  let groupPublicKey ← parseHexBytes task.groupPublicKey
  let metadata ← parseHexBytes task.metadata
  let member ← memberSol member
  pure { groupPublicKey := groupPublicKey, metadata := metadata, member := member }

def registerCalldata (task : RegisterTask) : Option Bytes :=
  (registerArgs task).map fun a => Contract.encodeCall (.register a)

def referCalldata (task : RegisterTask) : Option Bytes :=
  (referArgs task).map fun a => Contract.encodeCall (.refer a)

def writeCalldata (task : RegisterTask) : Option Bytes :=
  match task.kind with
  | .register => registerCalldata task
  | .refer => referCalldata task

end P256Index.Registrar
