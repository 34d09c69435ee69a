import P256Index.Codec.Base64Url
import P256Index.Codec.Json
import P256Index.Registrar.Plan
import P256Index.Registrar.Spelling

/-!
# The challenge endpoint

What a key has to sign, handed out before anything is signed. Both shells read an untyped body and
go through the checks of admission a second time, in their own order: in group mode for the whole
unit, in reference mode for one key that points at a group, in member mode for one key of a unit
that does not exist yet.
-/

namespace P256Index.Endpoint

open Registrar

/-- A response that is no answer: its status and the text of its error. -/
abbrev Failure := Nat × String

def badRequest (message : String) : Failure := (400, message)

/-! ## Answers -/

/-- `URL_SAFE_NO_PAD.encode`, as text. -/
def base64url (bytes : Bytes) : String :=
  String.ofList ((Base64Url.encode bytes).map fun b => Char.ofNat b.toNat)

/-- `render_challenge`. -/
def renderChallenge (challenge : Bytes32) : List (String × Json) :=
  [("challenge", .string (hexText challenge.val)),
    ("challengeBase64url", .string (base64url challenge.val))]

/-- The answer in member and reference mode. -/
def singleAnswer (challenge binding : Bytes32) : Json :=
  .object (renderChallenge challenge ++ [("binding", .string (hexText binding.val))])

/-- The answer in group mode. -/
def groupAnswer (contentHash groupChallenge : Bytes32) (members : List (String × Bytes32)) : Json :=
  .object [("contentHash", .string (hexText contentHash.val)),
    ("groupChallenge", .object (renderChallenge groupChallenge)),
    ("members", .array (members.map fun (publicKey, challenge) =>
      .object (renderChallenge challenge ++ [("publicKey", .string publicKey)])))]

/-! ## The body -/

variable (K : P256Crate) (E : Contract.Evm)

def readRpId (body : Json) : Except Failure String := do
  let rpId ← okOr (body.text "rpId") (badRequest "rpId is required")
  revertIf (rpId = "" ∨ 253 < (utf8 rpId).length) (badRequest "rpId must be 1..=253 bytes")
  pure rpId

/-- A key that has to be there: `missing` and `named` say what an error reads like. -/
def readKey (value : Json) (key missing : String) (named : String → String) :
    Except Failure String := do
  let publicKey ← okOr (value.text key) (badRequest missing)
  (parsePublicKey K (some publicKey)).mapError fun message => badRequest (named message)

def readAttestation (value : Json) (named : String → String) : Except Failure String :=
  (validateAttestationHex ((value.text "attestation").getD "")).mapError fun message =>
    badRequest (named message)

def readMetadata (body : Json) : Except Failure Bytes := do
  let bytes ← okOr (parseHexBytes ((body.text "metadata").getD ""))
      (badRequest "metadata must be hex")
  revertIf (maxMetadataBytes < bytes.length) (badRequest "metadata exceeds max length")
  pure bytes

def emptyProof : Proof where
  authenticatorData := ⟨"", utf8_empty_lt⟩
  clientDataJSON := ⟨"", utf8_empty_lt⟩
  challengeIndex := 0
  typeIndex := 0
  r := ""
  s := ""

/-- A member of which only the key and the attestation are known. -/
def skeletonMember (publicKey attestation : String) : Member where
  publicKey := publicKey
  attestation := attestation
  credentialId := ""
  authenticatorAttachment := ""
  transports := ""
  proof := emptyProof

/-- The loop over the members: the checks of admission, with the attestation last. -/
def skeletonMembers (groupPublicKey : String) (index : Nat) (parsed : List Member) :
    List Json → Except Failure (List Member)
  | [] => pure parsed
  | item :: rest => do
      let publicKey ← readKey K item "publicKey" (atMember index "publicKey is required")
          (atMember index)
      revertIf (publicKey = groupPublicKey)
        (badRequest (atMember index "the group key cannot also be a member"))
      revertIf (parsed.any (fun earlier => earlier.publicKey = publicKey) = true)
        (badRequest (atMember index "duplicate public key within the unit"))
      let attestation ← readAttestation item (atMember index)
      skeletonMembers groupPublicKey (index + 1)
        (parsed ++ [skeletonMember publicKey attestation]) rest

/-- Member and reference mode: one key. -/
def singleChallenge (chainId : UInt64) (registry : Address) (rpId groupPublicKey : String)
    (body : Json) : Except Failure Json := do
  let publicKey ← readKey K body "publicKey"
      "publicKey (member mode) or members (group mode) is required"
    fun message => "publicKey: " ++ message
  revertIf (publicKey = groupPublicKey) (badRequest "the group key cannot also be a member")
  let attestation ← readAttestation body fun message => "attestation: " ++ message
  let attestationBytes := fieldBytesOf attestation
  let groupKeyBytes := keyBytesOf groupPublicKey
  let binding ←
    if (body.flag "refer").getD false then do
      let metadata ← readMetadata body
      pure (referenceBindingFor E groupKeyBytes attestationBytes metadata)
    else pure (memberBindingFor E groupKeyBytes attestationBytes)
  pure (singleAnswer (challengeFor E chainId registry rpId (keyBytesOf publicKey) binding) binding)

/-- Group mode: the whole unit. -/
def groupChallenge (chainId : UInt64) (registry : Address) (rpId groupPublicKey : String)
    (body : Json) : Except Failure Json := do
  let items := body.items "members"
  revertIf (items = [] ∨ maxMembers < items.length)
    (badRequest "members must contain 1 to 7 entries")
  let metadata ← readMetadata body
  let members ← skeletonMembers K groupPublicKey 0 [] items
  let skeleton :=
    newTask "" .register rpId (normalHex metadata) groupPublicKey (some emptyProof) members 0
  -- `expect("validated fields")`
  let contentHash ← okOr (contentHashFor E skeleton) (500, "validated fields")
  let groupKeyBytes := keyBytesOf groupPublicKey
  pure (groupAnswer contentHash (challengeFor E chainId registry rpId groupKeyBytes contentHash)
    (members.map fun member => (member.publicKey,
      challengeFor E chainId registry rpId (keyBytesOf member.publicKey)
        (memberBindingFor E groupKeyBytes (fieldBytesOf member.attestation)))))

/-- The endpoint, from the parsed body on. -/
def challengeOf (chainId : UInt64) (registry : String) (body : Json) : Except Failure Json := do
  let rpId ← readRpId body
  let groupPublicKey ← readKey K body "groupPublicKey" "groupPublicKey is required"
    fun message => "groupPublicKey: " ++ message
  let registry ← okOr (parseAddress registry) (500, "registry misconfigured")
  revertIf ((body.get "members").isSome = true ∧ body.flag "refer" = some true)
    (badRequest "choose one mode: members (group) or refer (reference), not both")
  if (body.get "members").isNone then singleChallenge K E chainId registry rpId groupPublicKey body
  else groupChallenge K E chainId registry rpId groupPublicKey body

/-! ## The two shells -/

def maxBodySize : Nat := 128 * 1024

/-- What both do with the bytes they have read. -/
def answer (parse : Bytes → Option Json) (chainId : UInt64) (registry : String)
    (bytes : Option Bytes) : Except Failure Json := do
  let bytes ← okOr bytes (413, "request body too large")
  let body ← okOr (parse bytes) (badRequest "invalid JSON body")
  challengeOf K E chainId registry body

end P256Index.Endpoint

namespace P256Index.Server

/-- `to_bytes(body, MAX_BODY_SIZE)`. -/
def toBytes (bytes : Bytes) : Option Bytes :=
  if Endpoint.maxBodySize < bytes.length then none else some bytes

/-- The endpoint of the server. `parse` is `serde_json::from_slice`. -/
def challenge (K : Registrar.P256Crate) (E : Contract.Evm) (parse : Bytes → Option Json)
    (chainId : UInt64) (domainRegistry : String) (bytes : Bytes) : Except Endpoint.Failure Json :=
  Endpoint.answer K E parse chainId domainRegistry (toBytes bytes)

end P256Index.Server

namespace P256Index.Cloudflare

/-- `str::parse::<usize>`, of 32 bits. -/
def parseUsize (value : String) : Option Nat :=
  let digits := match value.toList with
    | '+' :: rest => rest
    | cs => cs
  if digits ≠ [] ∧ digits.all Char.isDigit = true then
    let n := digits.foldl (fun n c => 10 * n + (c.toNat - '0'.toNat)) 0
    if n < 2 ^ 32 then some n else none
  else none

/-- A `content-length` that is there has to be within the limit, and so has the body itself. -/
def boundedBody (contentLength : Option String) (bytes : Bytes) : Option Bytes :=
  if contentLength.all (fun value => (parseUsize value).any fun length =>
    length ≤ Endpoint.maxBodySize) then
    if Endpoint.maxBodySize < bytes.length then none else some bytes
  else none

/-- The endpoint of the worker. -/
def challenge (K : Registrar.P256Crate) (E : Contract.Evm) (parse : Bytes → Option Json)
    (chainId : UInt64) (domainRegistry : String) (contentLength : Option String) (bytes : Bytes) :
    Except Endpoint.Failure Json :=
  Endpoint.answer K E parse chainId domainRegistry (boundedBody contentLength bytes)

end P256Index.Cloudflare
