import P256Index.Codec.Hex

/-!
# Tasks

A task carries one chain write from an accepted request to its on-chain outcome; the two kinds
mirror the contract's two writes. Byte fields are hex text here and become bytes only when the
calldata is built. Status walks from `pending` to `done` or `failed`, with nothing in between.
-/

namespace P256Index.Registrar

/-- A string the process holds in memory: shorter than `isize::MAX` bytes, as the language has it.
-/
abbrev RustString := { s : String // (utf8 s).length < 2 ^ 63 }

theorem utf8_empty_lt : (utf8 "").length < 2 ^ 63 := by decide

/-- The possession proof, as submitted. -/
structure Proof where
  authenticatorData : RustString
  clientDataJSON : RustString
  challengeIndex : UInt64
  typeIndex : UInt64
  r : String
  s : String
  deriving DecidableEq

/-- One member passkey. -/
structure Member where
  publicKey : String
  attestation : String
  credentialId : String
  authenticatorAttachment : String
  transports : String
  proof : Proof
  deriving DecidableEq

inductive TaskKind where
  | register
  | refer
  deriving DecidableEq

inductive TaskStatus where
  | pending
  | done
  | failed
  deriving DecidableEq

def TaskStatus.isTerminal : TaskStatus → Bool
  | .pending => false
  | .done => true
  | .failed => true

structure RegisterTask where
  id : String
  status : TaskStatus
  kind : TaskKind
  rpId : String
  metadata : String
  contentHash : String
  groupPublicKey : String
  groupProof : Option Proof
  members : List Member
  txHash : Option String
  onChainId : Option UInt64
  error : Option String
  retries : Nat
  createdAt : Int
  admitted : Bool
  deriving DecidableEq

theorem TaskStatus.isTerminal_eq_false {s : TaskStatus} : s.isTerminal = false ↔ s = .pending := by
  cases s <;> decide

end P256Index.Registrar
