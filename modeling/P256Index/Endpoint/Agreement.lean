import P256Index.Endpoint.Challenge

/-!
# The endpoint and admission

A challenge that was handed out is the one admission verifies, and it is handed out exactly if
admission has no objection but the signature. The body and the request may spell their hex
differently.
-/

namespace P256Index.Endpoint

open Registrar

variable {K : P256Crate} {E : Contract.Evm}

/-! ## The request a body asks about -/

/-- Every field of the proof is there. -/
def Complete (request : Option ProofRequest) : Prop :=
  ∃ authenticatorData clientDataJSON challengeIndex typeIndex r s, request =
    some ⟨some authenticatorData, some clientDataJSON, some challengeIndex, some typeIndex,
      some r, some s⟩

/-- The same key with the same attestation. -/
structure Carries (value : Json) (request : MemberRequest) : Prop where
  publicKey : SameHex ((value.text "publicKey").getD "") (request.publicKey.getD "")
  attestation : SameHex ((value.text "attestation").getD "") (request.attestation.getD "")

/-- The same key with the same attestation, and nothing to say about the credential. -/
structure AsksMember (value : Json) (request : MemberRequest) :
    Prop extends Carries value request where
  credentialId : request.credentialId.getD "" = ""
  authenticatorAttachment : request.authenticatorAttachment.getD "" = ""
  transports : request.transports.getD "" = ""
  proof : Complete request.proof

/-- The register request of a body in group mode, but for its proofs. -/
structure AsksRegister (body : Json) (request : RegisterRequest) : Prop where
  rpId : (body.text "rpId").getD "" = request.rpId.getD ""
  metadata : SameHex ((body.text "metadata").getD "") (request.metadata.getD "")
  groupPublicKey : SameHex ((body.text "groupPublicKey").getD "") (request.groupPublicKey.getD "")
  groupProof : Complete request.groupProof
  members : List.Forall₂ AsksMember (body.items "members") (request.members.getD [])

/-- The refer request of a body in reference mode, but for its proof. -/
structure AsksRefer (body : Json) (request : ReferRequest) : Prop where
  rpId : (body.text "rpId").getD "" = request.rpId.getD ""
  groupPublicKey : SameHex ((body.text "groupPublicKey").getD "") (request.groupPublicKey.getD "")
  metadata : SameHex ((body.text "metadata").getD "") (request.metadata.getD "")
  member : ∃ member, request.member = some member ∧ AsksMember body member

/-! ## Fields -/

theorem readKey_iff {value : Json} {key missing text : String} {named : String → String}
    {request : Option String} (h : SameHex ((value.text key).getD "") (request.getD "")) :
    readKey K value key missing named = .ok text ↔ parsePublicKey K request = .ok text := by
  simp only [readKey, Except.bind_eq_ok, okOr_eq_ok, Except.mapError_eq_ok]
  constructor
  · rintro ⟨given, hgiven, hparse⟩
    rw [← hgiven] at hparse
    exact parsePublicKey_respelled h hparse
  · intro hparse
    have hbody := parsePublicKey_respelled h.symm hparse
    obtain ⟨given, -, hgiven, -⟩ := parsePublicKey_iff.mp hbody
    exact ⟨given, hgiven, hgiven ▸ hbody⟩

theorem readRpId_iff {body : Json} {text : String} {request : Option String}
    (h : (body.text "rpId").getD "" = request.getD "") :
    readRpId body = .ok text ↔ parseRpId request = .ok text := by
  rw [← parseRpId_respelled h]
  simp only [readRpId, parseRpId, Except.bind_eq_ok, okOr_eq_ok, revertIf_eq_ok, exists_const,
    not_or, not_lt, Except.pure_eq_ok, Option.filter_eq_some_iff, decide_eq_true_eq]
  constructor
  · rintro ⟨rpId, hbody, ⟨hne, hle⟩, rfl⟩
    exact ⟨rpId, ⟨hbody, hne⟩, hle, rfl⟩
  · rintro ⟨rpId, ⟨hbody, hne⟩, hle, rfl⟩
    exact ⟨rpId, hbody, ⟨hne, hle⟩, rfl⟩

theorem readMetadata_iff {body : Json} {text : String} {request : Option String}
    (h : SameHex ((body.text "metadata").getD "") (request.getD "")) :
    (∃ bytes, readMetadata body = .ok bytes ∧ normalHex bytes = text) ↔
      parseMetadata request = .ok text := by
  rw [parseMetadata_iff, ← h.parseHexBytes]
  simp only [readMetadata, Except.bind_eq_ok, okOr_eq_ok, revertIf_eq_ok, exists_const, not_lt,
    Except.pure_eq_ok]
  constructor
  · rintro ⟨bytes, ⟨_, hparse, hle, rfl⟩, hnormal⟩
    exact ⟨_, hparse, hle, hnormal⟩
  · rintro ⟨bytes, hparse, hle, hnormal⟩
    exact ⟨bytes, ⟨bytes, hparse, hle, rfl⟩, hnormal⟩

theorem readAttestation_iff {value : Json} {text : String} {named : String → String}
    {request : Option String} (h : SameHex ((value.text "attestation").getD "") (request.getD "")) :
    readAttestation value named = .ok text ↔
      validateAttestationHex (request.getD "") = .ok text := by
  rw [readAttestation, Except.mapError_eq_ok, validateAttestationHex_iff,
    validateAttestationHex_iff, h.parseHexBytes]

theorem Complete.parse {request : Option ProofRequest} (h : Complete request) :
    ∃ proof, parseProof request = .ok proof := by
  obtain ⟨authenticatorData, clientDataJSON, challengeIndex, typeIndex, r, s, rfl⟩ := h
  exact ⟨⟨authenticatorData, clientDataJSON, challengeIndex, typeIndex, r, s⟩, rfl⟩

/-- What admission makes of a member that is asked about. -/
theorem AsksMember.parseMember_iff {value : Json} {request : MemberRequest} {member : Member}
    (h : AsksMember value request) : parseMember K request = .ok member ↔
      ∃ publicKey attestation proof, parsePublicKey K request.publicKey = .ok publicKey ∧
        validateAttestationHex (request.attestation.getD "") = .ok attestation ∧
          parseProof request.proof = .ok proof ∧
            { skeletonMember publicKey attestation with proof := proof } = member := by
  have hcredential : normalizeCredentialId (request.credentialId.getD "") = .ok "" := by
    rw [h.credentialId]
    rfl
  have hattachment :
      normalizeHint (request.authenticatorAttachment.getD "") 32 "authenticatorAttachment" =
      .ok "" := by
    rw [h.authenticatorAttachment]
    rfl
  have htransports : normalizeHint (request.transports.getD "") 255 "transports" = .ok "" := by
    rw [h.transports]
    rfl
  simp only [parseMember, Except.bind_eq_ok, Except.pure_eq_ok, hcredential,
    hattachment, htransports]
  constructor
  · rintro ⟨publicKey, hkey, attestation, hatt, _, ⟨⟩, _, ⟨⟩, _, ⟨⟩, proof, hproof, hmember⟩
    exact ⟨publicKey, attestation, proof, hkey, hatt, hproof, hmember⟩
  · rintro ⟨publicKey, attestation, proof, hkey, hatt, hproof, hmember⟩
    exact ⟨publicKey, hkey, attestation, hatt, _, rfl, _, rfl, _, rfl, proof, hproof, hmember⟩

/-! ## Members -/

/-- What the endpoint knows of a member. -/
def strip (member : Member) : Member := skeletonMember member.publicKey member.attestation

/-- The two loops, side by side: they take the same members, up to the proofs. -/
theorem skeletonMembers_iff {group : String} {index : Nat} {items : List Json}
    {requests : List MemberRequest} {parsed stripped : List Member}
    (h : List.Forall₂ AsksMember items requests) :
    skeletonMembers K group index (parsed.map strip) items = .ok stripped ↔
      ∃ members, parseMembers K group index parsed requests = .ok members ∧
        members.map strip = stripped := by
  induction h generalizing index parsed with
  | nil => simp only [skeletonMembers, parseMembers, Except.pure_eq_ok, exists_eq_left']
  | @cons item request items requests hask _ ih =>
      have hany : ∀ key, (parsed.map strip).any (fun earlier => earlier.publicKey = key) =
          parsed.any fun earlier => earlier.publicKey = key := fun key => List.any_map
      simp only [skeletonMembers, parseMembers, Except.bind_eq_ok, Except.mapError_eq_ok,
        revertIf_eq_ok, exists_const, readKey_iff hask.publicKey,
        readAttestation_iff hask.attestation, hany, hask.parseMember_iff]
      -- the loop goes on with one member more
      have hsnoc : ∀ publicKey attestation proof,
          parsed.map strip ++ [skeletonMember publicKey attestation] =
          (parsed ++ [{ skeletonMember publicKey attestation with proof := proof }]).map strip := by
        intro publicKey attestation proof
        rw [List.map_append]
        rfl
      constructor
      · rintro ⟨publicKey, hkey, hgroup, hnew, attestation, hatt, hrest⟩
        obtain ⟨proof, hproof⟩ := hask.proof.parse
        rw [hsnoc publicKey attestation proof, ih] at hrest
        obtain ⟨members, hmembers, hstrip⟩ := hrest
        exact ⟨members,
          ⟨_, ⟨publicKey, attestation, proof, hkey, hatt, hproof, rfl⟩, hgroup, hnew, hmembers⟩,
          hstrip⟩
      · rintro ⟨members,
          ⟨_, ⟨publicKey, attestation, proof, hkey, hatt, -, rfl⟩, hgroup, hnew, hmembers⟩, hstrip⟩
        refine ⟨publicKey, hkey, hgroup, hnew, attestation, hatt, ?_⟩
        rw [hsnoc publicKey attestation proof, ih]
        exact ⟨members, hmembers, hstrip⟩

theorem skeletonMembers_nil_iff {group : String} {items : List Json} {requests : List MemberRequest}
    {stripped : List Member} (h : List.Forall₂ AsksMember items requests) :
    skeletonMembers K group 0 [] items = .ok stripped ↔
      ∃ members, parseMembers K group 0 [] requests = .ok members ∧ members.map strip = stripped :=
  @skeletonMembers_iff K group 0 items requests [] stripped h

theorem mapM_strip (members : List Member) :
    (members.map strip).mapM (memberHash E) = members.mapM (memberHash E) := by
  induction members with
  | nil => rfl
  | cons member members ih =>
      rw [List.map_cons, List.mapM_cons, List.mapM_cons, ih]
      rfl

/-- The content hash reads nothing the endpoint does not know. -/
theorem contentHashFor_strip (id rpId metadata group : String) (proof : Proof)
    (members : List Member) (nowMs : UInt64) :
    contentHashFor E
      (newTask "" .register rpId metadata group (some emptyProof) (members.map strip) 0) =
      contentHashFor E (newTask id .register rpId metadata group (some proof) members nowMs) := by
  simp only [contentHashFor, newTask, mapM_strip]

/-! ## Group mode -/

/-- What a plan has to answer with. -/
def registerAnswer (E : Contract.Evm) (chainId : UInt64) (p : RegisterPlan) : Json :=
  groupAnswer p.contentHash (p.groupChallenge E chainId)
    (p.task.members.map fun member => (member.publicKey, p.memberChallenge E chainId member))

variable {chainId nowMs : UInt64} {registry newTaskId : String} {body answer : Json}

/-- The members of a request that is asked about. -/
theorem AsksRegister.requests {request : RegisterRequest} (h : AsksRegister body request)
    (hne : body.items "members" ≠ []) :
    ∃ requests, request.members = some requests ∧ requests ≠ [] ∧
      List.Forall₂ AsksMember (body.items "members") requests := by
  have hmembers := h.members
  cases hrequests : request.members with
  | none =>
      rw [hrequests] at hmembers
      exact absurd (List.forall₂_nil_right_iff.mp hmembers) hne
  | some requests =>
      rw [hrequests] at hmembers
      refine ⟨requests, rfl, ?_, hmembers⟩
      rintro rfl
      exact hne (List.forall₂_nil_right_iff.mp hmembers)

theorem challengeOf_group {request : RegisterRequest} (hmode : (body.get "members").isSome = true)
    (hrefer : body.flag "refer" ≠ some true) (h : AsksRegister body request) :
    challengeOf K E chainId registry body = .ok answer ↔
      ∃ p, prepareRegister K E request newTaskId nowMs registry = .ok p ∧
        registerAnswer E chainId p = answer := by
  have hsome : ¬ (body.get "members").isNone = true := by
    rw [Option.isNone_iff_eq_none]
    exact Option.isSome_iff_ne_none.mp hmode
  simp only [challengeOf, groupChallenge, Except.bind_eq_ok, readRpId_iff h.rpId,
    readKey_iff h.groupPublicKey, okOr_eq_ok, revertIf_eq_ok, exists_const, hrefer, and_false,
    not_false_eq_true, true_and, if_neg hsome, not_or, not_lt, Except.pure_eq_ok,
    prepareRegister_iff]
  constructor
  · rintro ⟨rpId, hrpId, group, hgroup, address, haddress, ⟨hne, hlen⟩, metadata, hmetadata,
      stripped, hstripped, contentHash, hhash, rfl⟩
    obtain ⟨requests, hrequests, hrequestsNe, hall⟩ := h.requests hne
    obtain ⟨members, hmembers, rfl⟩ := (skeletonMembers_nil_iff hall).mp hstripped
    obtain ⟨proof, hproof⟩ := h.groupProof.parse
    have htext := (readMetadata_iff h.metadata).mp ⟨metadata, hmetadata, rfl⟩
    rw [contentHashFor_strip newTaskId rpId _ group proof members nowMs] at hhash
    rw [hall.length_eq] at hlen
    refine ⟨_,
      ⟨address, rpId, _, requests, group, proof, members, contentHash, haddress, hrpId, htext,
      hrequests, hrequestsNe, hlen, hgroup, hproof, hmembers, hhash, rfl⟩, ?_⟩
    rw [registerAnswer, List.map_map]
    rfl
  · rintro ⟨_, ⟨address, rpId, text, requests, group, proof, members, contentHash, haddress, hrpId,
      htext, hrequests, hne, hlen, hgroup, hproof, hmembers, hhash, rfl⟩, rfl⟩
    have hall := h.members
    rw [hrequests] at hall
    obtain ⟨metadata, hmetadata, rfl⟩ := (readMetadata_iff h.metadata).mpr htext
    rw [← contentHashFor_strip newTaskId rpId _ group proof members nowMs] at hhash
    refine ⟨rpId, hrpId, group, hgroup, address, haddress, ⟨?_, hall.length_eq ▸ hlen⟩, metadata,
      hmetadata, members.map strip, (skeletonMembers_nil_iff hall).mpr ⟨members, hmembers, rfl⟩,
      contentHash, hhash, ?_⟩
    · intro hnil
      rw [hnil] at hall
      exact hne (List.forall₂_nil_left_iff.mp hall)
    · rw [registerAnswer, List.map_map]
      rfl

/-! ## Reference mode -/

/-- A parsed reference has its digest. -/
theorem exists_referHash {id rpId metadata group : String} {metadataText groupText : Option String}
    {request : MemberRequest} {member : Member} {nowMs : UInt64}
    (hmetadata : parseMetadata metadataText = .ok metadata)
    (hgroup : parsePublicKey K groupText = .ok group)
    (hmember : parseMember K request = .ok member) :
    ∃ hash, contentHashFor E (newTask id .refer rpId metadata group none [member] nowMs) =
      some hash := by
  obtain ⟨metadataBytes, rfl, -⟩ := parseMetadata_eq_ok hmetadata
  obtain ⟨groupKey, rfl, -⟩ := parsePublicKey_eq_ok hgroup
  obtain ⟨key, attestation, credentialId, hfields⟩ := parseMember_eq_ok hmember
  simp [contentHashFor, newTask, memberHash, hfields.key_text, hfields.attestation_text]

theorem referPlan_binding {address : Address} {rpId group : String} {metadata : Bytes}
    {member : Member} {contentHash : Bytes32} :
    (referPlan newTaskId nowMs address rpId (normalHex metadata) group member contentHash).binding
      E = referenceBindingFor E (keyBytesOf group) (fieldBytesOf member.attestation) metadata := by
  show referenceBindingFor E (keyBytesOf group) (fieldBytesOf member.attestation)
    (fieldBytesOf (normalHex metadata)) = _
  rw [fieldBytesOf_normalHex]

theorem challengeOf_reference {request : ReferRequest} (hmode : body.get "members" = none)
    (hrefer : body.flag "refer" = some true) (h : AsksRefer body request) :
    challengeOf K E chainId registry body = .ok answer ↔ ∃ p,
      prepareRefer K E request newTaskId nowMs registry = .ok p ∧
        singleAnswer (p.challenge E chainId) (p.binding E) = answer := by
  obtain ⟨memberRequest, hrequest, hask⟩ := h.member
  simp only [challengeOf, singleChallenge, Except.bind_eq_ok, readRpId_iff h.rpId,
    readKey_iff h.groupPublicKey, readKey_iff hask.publicKey, readAttestation_iff hask.attestation,
    okOr_eq_ok, revertIf_eq_ok, exists_const, hmode, hrefer, Option.isSome_none, Option.isNone_none,
    Bool.false_eq_true, false_and, not_false_eq_true, true_and, if_true, Option.getD_some,
    Except.pure_eq_ok, prepareRefer_iff]
  constructor
  · rintro ⟨rpId, hrpId, group, hgroup, address, haddress, publicKey, hkey, hne, attestation,
      hatt, metadata, hmetadata, _, rfl, rfl⟩
    obtain ⟨proof, hproof⟩ := hask.proof.parse
    have htext := (readMetadata_iff h.metadata).mp ⟨metadata, hmetadata, rfl⟩
    have hmember :=
      hask.parseMember_iff.mpr ⟨publicKey, attestation, proof, hkey, hatt, hproof, rfl⟩
    obtain ⟨contentHash, hhash⟩ := exists_referHash (E := E) htext hgroup hmember
    refine ⟨_, ⟨address, rpId, group, _, memberRequest, _, contentHash, haddress, hrpId, hgroup,
      htext, hrequest, hmember, hne, hhash, rfl⟩, ?_⟩
    rw [ReferPlan.challenge, referPlan_binding]
    rfl
  · rintro ⟨_, ⟨address, rpId, group, text, _, member, contentHash, haddress, hrpId, hgroup, htext,
      hsame, hmember, hne, hhash, rfl⟩, rfl⟩
    cases hrequest.symm.trans hsame
    obtain ⟨publicKey, attestation, proof, hkey, hatt, -, rfl⟩ := hask.parseMember_iff.mp hmember
    obtain ⟨metadata, hmetadata, rfl⟩ := (readMetadata_iff h.metadata).mpr htext
    refine ⟨rpId, hrpId, group, hgroup, address, haddress, publicKey, hkey, hne, attestation,
      hatt, metadata, hmetadata, _, rfl, ?_⟩
    rw [ReferPlan.challenge, referPlan_binding]
    rfl

/-! ## Member mode -/

/-- A parsed member stands where its request does. -/
theorem parseMembers_getElem {group : String} {index : Nat} {requests : List MemberRequest}
    {members : List Member} (h : parseMembers K group index [] requests = .ok members) {i : Nat}
    {request : MemberRequest} (hi : requests[i]? = some request) :
    ∃ member, members[i]? = some member ∧ parseMember K request = .ok member := by
  obtain ⟨rest, rfl, hall⟩ := parseMembers_eq_ok h
  clear h
  induction hall generalizing i with
  | nil => cases hi
  | cons hhead _ ih =>
      cases i with
      | zero =>
          cases hi
          exact ⟨_, rfl, hhead.1⟩
      | succ i => exact ih hi

theorem Carries.parseMember {value : Json} {request : MemberRequest} {member : Member}
    (h : Carries value request) (hparse : parseMember K request = .ok member) :
    readKey K value "publicKey" "publicKey (member mode) or members (group mode) is required"
        (fun message => "publicKey: " ++ message) = .ok member.publicKey ∧
      readAttestation value (fun message => "attestation: " ++ message) =
        .ok member.attestation := by
  simp only [Registrar.parseMember, Except.bind_eq_ok, Except.pure_eq_ok] at hparse
  obtain ⟨publicKey, hkey, attestation, hatt, _, -, _, -, _, -, _, -, rfl⟩ := hparse
  exact ⟨(readKey_iff h.publicKey).mpr hkey, (readAttestation_iff h.attestation).mpr hatt⟩

theorem challengeOf_member {request : RegisterRequest} {p : RegisterPlan} {i : Nat}
    {memberRequest : MemberRequest} (hmode : body.get "members" = none)
    (hrefer : body.flag "refer" ≠ some true)
    (hanswer : challengeOf K E chainId registry body = .ok answer)
    (hprepared : prepareRegister K E request newTaskId nowMs registry = .ok p)
    (hrpId : (body.text "rpId").getD "" = request.rpId.getD "")
    (hgroup : SameHex ((body.text "groupPublicKey").getD "") (request.groupPublicKey.getD ""))
    (hi : (request.members.getD [])[i]? = some memberRequest)
    (hcarries : Carries body memberRequest) :
    ∃ member, p.task.members[i]? = some member ∧
      singleAnswer (p.memberChallenge E chainId member) (p.memberBinding E member) = answer := by
  obtain ⟨address, rpId, metadata, requests, group, groupProof, members, contentHash, haddress,
    hrpId', -, hrequests, -, -, hgroup', -, hmembers, -, rfl⟩ := prepareRegister_iff.mp hprepared
  rw [hrequests] at hi
  obtain ⟨member, hmember, hparse⟩ := parseMembers_getElem hmembers hi
  refine ⟨member, hmember, ?_⟩
  obtain ⟨hkey, hatt⟩ := hcarries.parseMember hparse
  have hflag : (body.flag "refer").getD false = false := by
    cases hvalue : body.flag "refer" with
    | none => rfl
    | some value =>
        cases value with
        | false => rfl
        | true => exact absurd hvalue hrefer
  simp only [challengeOf, singleChallenge, Except.bind_eq_ok, okOr_eq_ok, revertIf_eq_ok,
    exists_const, hmode, hflag, Option.isSome_none, Option.isNone_none, Bool.false_eq_true,
    false_and, not_false_eq_true, true_and, if_true, if_false, Except.pure_eq_ok] at hanswer
  obtain ⟨_, hread, _, hreadGroup, _, hparsed, _, hreadKey, -, _, hreadAtt, _, rfl, rfl⟩ := hanswer
  -- both sides read the same fields
  cases hread.symm.trans ((readRpId_iff hrpId).mpr hrpId')
  cases hreadGroup.symm.trans ((readKey_iff hgroup).mpr hgroup')
  cases hparsed.symm.trans haddress
  cases hreadKey.symm.trans hkey
  cases hreadAtt.symm.trans hatt
  rfl

/-! ## Both shells -/

def GroupMode (body : Json) : Prop :=
  (body.get "members").isSome = true ∧ body.flag "refer" ≠ some true
def ReferenceMode (body : Json) : Prop := body.get "members" = none ∧ body.flag "refer" = some true
def MemberMode (body : Json) : Prop := body.get "members" = none ∧ body.flag "refer" ≠ some true

/-- Within the size limit both shells answer from the body. -/
theorem reply_eq {parse : Bytes → Option Json} {bytes : Bytes} {contentLength : Option String}
    (hbytes : bytes.length ≤ maxBodySize)
    (hlength : ∀ value, contentLength = some value →
      ∃ n ≤ maxBodySize, Cloudflare.parseUsize value = some n)
    (hbody : parse bytes = some body) :
    ∀ reply ∈ [Server.challenge K E parse chainId registry bytes,
      Cloudflare.challenge K E parse chainId registry contentLength bytes],
        reply = challengeOf K E chainId registry body := by
  have hanswer : Endpoint.answer K E parse chainId registry (some bytes) =
      challengeOf K E chainId registry body := by
    show (okOr (parse bytes) _ >>= _) = _
    rw [hbody]
    rfl
  have hheader : contentLength.all (fun value => (Cloudflare.parseUsize value).any fun length =>
      length ≤ maxBodySize) = true := by
    cases hvalue : contentLength with
    | none => rfl
    | some value =>
        obtain ⟨n, hn, hparse⟩ := hlength value hvalue
        rw [Option.all_some, hparse]
        exact decide_eq_true hn
  intro reply hreply
  rcases List.mem_pair.mp hreply with rfl | rfl
  · rw [Server.challenge, Server.toBytes, if_neg (Nat.not_lt.mpr hbytes), hanswer]
  · rw [Cloudflare.challenge, Cloudflare.boundedBody, if_pos hheader,
      if_neg (Nat.not_lt.mpr hbytes), hanswer]

/-- Admission is a preparation and then a verification, and both endpoints know what was prepared.
In group mode the answer is there exactly if a register request with the same content can be
prepared, and it consists of the values its proofs are verified against; likewise in reference mode.
In member mode an answer is the challenge of that key in every unit that can be prepared and has the
key under that group with that attestation. -/
theorem challenge_matches_admission (K : P256Crate) (E : Contract.Evm) (parse : Bytes → Option Json)
    (chainId : UInt64) (registry : String) :
    (∀ request newTaskId nowMs, validateRegister K E request newTaskId nowMs chainId registry =
      prepareRegister K E request newTaskId nowMs registry >>= RegisterPlan.verify K E chainId) ∧
    (∀ request newTaskId nowMs, validateRefer K E request newTaskId nowMs chainId registry =
      prepareRefer K E request newTaskId nowMs registry >>= ReferPlan.verify K E chainId) ∧
    ∀ (bytes : Bytes) (contentLength : Option String) (body : Json), bytes.length ≤ maxBodySize →
      (∀ value, contentLength = some value →
        ∃ n ≤ maxBodySize, Cloudflare.parseUsize value = some n) →
      parse bytes = some body →
      ∀ reply ∈ [Server.challenge K E parse chainId registry bytes,
        Cloudflare.challenge K E parse chainId registry contentLength bytes],
      (GroupMode body → ∀ request newTaskId nowMs answer, AsksRegister body request →
        (reply = .ok answer ↔ ∃ p, prepareRegister K E request newTaskId nowMs registry = .ok p ∧
          registerAnswer E chainId p = answer)) ∧
      (ReferenceMode body → ∀ request newTaskId nowMs answer, AsksRefer body request →
        (reply = .ok answer ↔ ∃ p, prepareRefer K E request newTaskId nowMs registry = .ok p ∧
          singleAnswer (p.challenge E chainId) (p.binding E) = answer)) ∧
      (MemberMode body → ∀ answer, reply = .ok answer →
        ∀ (request : RegisterRequest) newTaskId nowMs p (i : Nat)
        memberRequest, prepareRegister K E request newTaskId nowMs registry = .ok p →
        (body.text "rpId").getD "" = request.rpId.getD "" →
        SameHex ((body.text "groupPublicKey").getD "") (request.groupPublicKey.getD "") →
        (request.members.getD [])[i]? = some memberRequest → Carries body memberRequest →
        ∃ member, p.task.members[i]? = some member ∧
          singleAnswer (p.memberChallenge E chainId member)
            (p.memberBinding E member) = answer) := by
  refine ⟨fun _ _ _ => validateRegister_eq_bind, fun _ _ _ => validateRefer_eq_bind, ?_⟩
  intro bytes contentLength body hbytes hlength hbody reply hreply
  rw [reply_eq hbytes hlength hbody reply hreply]
  refine ⟨?_, ?_, ?_⟩
  · intro hmode request newTaskId nowMs answer hask
    exact challengeOf_group hmode.1 hmode.2 hask
  · intro hmode request newTaskId nowMs answer hask
    exact challengeOf_reference hmode.1 hmode.2 hask
  · intro hmode answer hanswer request newTaskId nowMs p i memberRequest hprepared hrpId
      hgroup hi hcarries
    exact challengeOf_member hmode.1 hmode.2 hanswer hprepared hrpId hgroup hi hcarries

namespace Sample

open Registrar.Sample
open Contract.Sample (evm domain groupKey memberKey groupSignature memberSignature)

/-- The recorded member without its credential id. -/
def plainMember : Member := { member with credentialId := "" }
def plainMemberRequest : MemberRequest := { memberRequest with credentialId := none }
def plainRequest : RegisterRequest := { registerRequest with members := some [plainMemberRequest] }

/-- The bodies that ask about the member and the group. -/
def memberBody : Json :=
  .object [("publicKey", .string (hexText memberKey)),
    ("attestation", .string (hexText Contract.Sample.attestation))]

def groupBody : Json :=
  .object [("rpId", .string "example.com"), ("groupPublicKey", .string (hexText groupKey)),
    ("members", .array [memberBody])]

/-- The text of the group's body. -/
def groupText : String :=
  "\x7b\"rpId\":\"example.com\",\"groupPublicKey\":\"" ++ hexText groupKey ++
    "\",\"members\":[\x7b\"publicKey\":\"" ++ hexText memberKey ++
      "\",\"attestation\":\"" ++ hexText Contract.Sample.attestation ++ "\"\x7d]\x7d"

/-- The parser on it. -/
def parseGroup (bytes : Bytes) : Option Json :=
  if bytes = utf8 groupText then some groupBody else none

theorem parseGroup_groupText : parseGroup (utf8 groupText) = some groupBody := if_pos rfl

theorem groupText_length : (utf8 groupText).length ≤ maxBodySize := by decide +kernel

theorem asksMember_memberBody : AsksMember memberBody plainMemberRequest where
  publicKey := sameHex_refl (hexText memberKey)
  attestation := sameHex_refl (hexText Contract.Sample.attestation)
  credentialId := rfl
  authenticatorAttachment := rfl
  transports := rfl
  proof := ⟨_, _, _, _, _, _, rfl⟩

theorem asksRegister_groupBody : AsksRegister groupBody plainRequest where
  rpId := rfl
  metadata := sameHex_refl ""
  groupPublicKey := sameHex_refl (hexText groupKey)
  groupProof := ⟨_, _, _, _, _, _, rfl⟩
  members := .cons asksMember_memberBody .nil

theorem parseMember_plainMemberRequest :
    parseMember crate plainMemberRequest = .ok plainMember := by
  have hatt : validateAttestationHex (hexText Contract.Sample.attestation) =
      .ok (normalHex Contract.Sample.attestation) := by
    simp only [validateAttestationHex, parseHexBytes_hexText]
    rfl
  exact asksMember_memberBody.parseMember_iff.mpr ⟨_, _, proof memberSignature,
    parsePublicKey_hexText (keyTaken validKey_memberKey), hatt, rfl, rfl⟩

theorem prepare_plainRequest :
    ∃ p, prepareRegister crate evm plainRequest "a" 0 Registrar.Sample.registry = .ok p := by
  have hmembers : parseMembers crate (Hex.encode groupKey) 0 [] [plainMemberRequest] =
      .ok [plainMember] := by
    simp only [parseMembers, parseMember_plainMemberRequest, Except.bind_eq_ok,
      Except.mapError_eq_ok, revertIf_eq_ok, exists_const]
    refine ⟨plainMember, rfl, ?_, by simp, rfl⟩
    intro heq
    have hkeys : memberKey = groupKey := Hex.encode_injective heq
    exact absurd hkeys (by decide)
  -- the credential id is no part of the content
  have hhash : contentHashFor evm (newTask "a" .register "example.com" "" (Hex.encode groupKey)
      (some (proof groupSignature)) [plainMember] 0) = some registerHash := by
    rw [← contentHashFor_registerTask "a", ← contentHashFor_strip]
    exact contentHashFor_strip "a" "example.com" "" (Hex.encode groupKey)
      (proof groupSignature) [member] 0
  have hrpId : parseRpId (some "example.com") = .ok "example.com" := by decide +kernel
  exact ⟨_, prepareRegister_iff.mpr ⟨domain.registry, "example.com", "", [plainMemberRequest],
    Hex.encode groupKey, proof groupSignature, [plainMember], registerHash, parseAddress_registry,
    hrpId, rfl, rfl, List.cons_ne_nil _ _, by decide,
    parsePublicKey_hexText (keyTaken validKey_groupKey), rfl, hmembers, hhash, rfl⟩⟩

end Sample

open Sample in
/-- The recorded group is answered for by both shells, with the challenges it was signed for. -/
theorem challenge_matches_admission_group :
    ∃ p, prepareRegister Registrar.Sample.crate Contract.Sample.evm plainRequest "a" 0
      Registrar.Sample.registry = .ok p ∧
      Server.challenge Registrar.Sample.crate Contract.Sample.evm parseGroup 100
        Registrar.Sample.registry (utf8 groupText) =
          .ok (registerAnswer Contract.Sample.evm 100 p) ∧
      Cloudflare.challenge Registrar.Sample.crate Contract.Sample.evm parseGroup 100
        Registrar.Sample.registry none (utf8 groupText) =
          .ok (registerAnswer Contract.Sample.evm 100 p) := by
  obtain ⟨p, hp⟩ := prepare_plainRequest
  have hmode : GroupMode groupBody := ⟨rfl, by decide⟩
  obtain ⟨-, -, hreplies⟩ := challenge_matches_admission Registrar.Sample.crate Contract.Sample.evm
    parseGroup 100 Registrar.Sample.registry
  have hreply := hreplies (utf8 groupText) none groupBody groupText_length (fun _ h => by cases h)
    parseGroup_groupText
  refine ⟨p, hp, ?_, ?_⟩
  · exact ((hreply _ List.mem_cons_self).1 hmode plainRequest "a" 0 _ asksRegister_groupBody).mpr
      ⟨p, hp, rfl⟩
  · exact ((hreply _ (List.mem_cons_of_mem _ List.mem_cons_self)).1 hmode plainRequest "a" 0 _
      asksRegister_groupBody).mpr ⟨p, hp, rfl⟩

end P256Index.Endpoint
