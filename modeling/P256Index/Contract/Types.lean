import P256Index.Codec.Abi

/-!
# The registry's tables and calls

The three row types of `WebAuthnP256PublicKeyRegistry`, the arguments of its two writes, and what a
write can revert with. Byte fields are byte strings of any length: every bound is a check of the
contract, not of the type.
-/

namespace P256Index.Contract

/-- The WebAuthn-formatted possession proof. -/
structure Proof where
  authenticatorData : Bytes
  clientDataJSON : Bytes
  challengeIndex : U256
  typeIndex : U256
  r : U256
  s : U256
  deriving DecidableEq

/-- One member passkey of a call. `credentialId` and the two hints are stored, not signed. -/
structure Member where
  publicKey : Bytes
  attestation : Bytes
  credentialId : Bytes
  authenticatorAttachment : Bytes
  transports : Bytes
  proof : Proof
  deriving DecidableEq

/-- The global file of one passkey. -/
structure Entry where
  publicKey : Bytes
  attestation : Bytes
  credentialId : Bytes
  authenticatorAttachment : Bytes
  transports : Bytes
  createdAt : Nat
  deriving DecidableEq

/-- One group, frozen at creation (the contract's `Unit`). -/
structure GroupUnit where
  rpId : Bytes
  metadata : Bytes
  groupPublicKey : Bytes
  contentHash : Bytes32
  memberCount : Nat
  createdAt : Nat
  deriving DecidableEq

/-- One passkey pointing at one group. -/
structure Reference where
  entryId : Nat
  unitId : Nat
  metadata : Bytes
  createdAt : Nat
  deriving DecidableEq

/-- The decoded arguments of `register`. -/
structure RegisterArgs where
  rpId : Bytes
  metadata : Bytes
  groupPublicKey : Bytes
  groupProof : Proof
  members : List Member
  deriving DecidableEq

/-- The decoded arguments of `refer`. -/
structure ReferArgs where
  groupPublicKey : Bytes
  metadata : Bytes
  member : Member
  deriving DecidableEq

/-- One of the two writes. -/
inductive Call where
  | register (args : RegisterArgs)
  | refer (args : ReferArgs)
  deriving DecidableEq

/-- The custom errors of the two writes; `panic` is the compiler's arithmetic check and `noSelector`
the dispatcher's answer to calldata that is neither write. -/
inductive Revert where
  | emptyRpId
  | rpIdTooLong (length : Nat)
  | invalidPublicKeyLength (length : Nat)
  | invalidPublicKeyPrefix (byte : UInt8)
  | invalidPublicKeyCoordinate
  | invalidPublicKeyPoint
  | metadataTooLong (length : Nat)
  | invalidAttestation (length : Nat)
  | credentialIdTooLong (length : Nat)
  | credentialIdMismatch (entryId : Nat)
  | authenticatorAttachmentTooLong (length : Nat)
  | transportsTooLong (length : Nat)
  | attestationMismatch (entryId : Nat)
  | invalidMemberCount (count : Nat)
  | duplicateMemberKey (index : Nat)
  | groupKeyAlreadyUsed (groupKeyHash : Bytes32)
  | groupNotFound (groupKeyHash : Bytes32)
  | alreadyReferenced (referenceId : Nat)
  | invalidProof
  | rpIdMismatch
  | panic
  | noSelector
  deriving DecidableEq

/-! ## Sizes

Calldata lengths fit in 64 bits: the compiler's decoder refuses anything longer. `Fits` says so for
every dynamic field of a call. -/

def Proof.Fits (p : Proof) : Prop :=
  p.authenticatorData.length < 2 ^ 64 ∧ p.clientDataJSON.length < 2 ^ 64

def Member.Fits (m : Member) : Prop :=
  m.publicKey.length < 2 ^ 64 ∧ m.attestation.length < 2 ^ 64 ∧ m.credentialId.length < 2 ^ 64 ∧
    m.authenticatorAttachment.length < 2 ^ 64 ∧ m.transports.length < 2 ^ 64 ∧ m.proof.Fits

def RegisterArgs.Fits (a : RegisterArgs) : Prop :=
  a.rpId.length < 2 ^ 64 ∧ a.metadata.length < 2 ^ 64 ∧ a.groupPublicKey.length < 2 ^ 64 ∧
    a.groupProof.Fits ∧ a.members.length < 2 ^ 64 ∧ ∀ m ∈ a.members, m.Fits

def ReferArgs.Fits (a : ReferArgs) : Prop :=
  a.groupPublicKey.length < 2 ^ 64 ∧ a.metadata.length < 2 ^ 64 ∧ a.member.Fits

def Call.Fits : Call → Prop
  | .register args => args.Fits
  | .refer args => args.Fits

instance (p : Proof) : Decidable p.Fits := inferInstanceAs (Decidable (_ ∧ _))
instance (m : Member) : Decidable m.Fits := inferInstanceAs (Decidable (_ ∧ _))
instance (a : RegisterArgs) : Decidable a.Fits := inferInstanceAs (Decidable (_ ∧ _))
instance (a : ReferArgs) : Decidable a.Fits := inferInstanceAs (Decidable (_ ∧ _))
instance : (c : Call) → Decidable c.Fits
  | .register args => inferInstanceAs (Decidable args.Fits)
  | .refer args => inferInstanceAs (Decidable args.Fits)

end P256Index.Contract
