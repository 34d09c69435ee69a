import P256Index.Registrar.Reconcile

/-!
# Requests up to spelling

One write can be asked for in many spellings: hex with or without its marker and in either case,
optional fields left out or left empty, hints with blanks around them. Validation maps all of them
to one canonical task, up to the text of the proofs, which is kept as submitted and read only as
bytes. So the keys under which a task is found again do not depend on the spelling, and, since the
two kinds of preimage are told apart by their first word, the content hash names the write and
nothing else.
-/

namespace P256Index.Registrar

open Contract (Bound)

/-! ## Spellings -/

/-- The same character, or one hex digit in two cases. -/
def SameDigit (c d : Char) : Prop := c = d ∨ (Hex.value c).isSome = true ∧ Hex.value c = Hex.value d

instance (c d : Char) : Decidable (SameDigit c d) := inferInstanceAs (Decidable (_ ∨ _))

/-- The same text, up to a `0x` in front and the case of hex digits. -/
def SameHex (a b : String) : Prop :=
  List.Forall₂ SameDigit (stripHexMarker a.toList) (stripHexMarker b.toList)

instance (a b : String) : Decidable (SameHex a b) :=
  inferInstanceAs (Decidable (List.Forall₂ _ _ _))

/-- The same text, up to blanks around it. -/
def SameHint (a b : String) : Prop :=
  ∃ before core after before' after' : List Char, a.toList = before ++ core ++ after ∧
    b.toList = before' ++ core ++ after' ∧
      ∀ c ∈ before ++ after ++ before' ++ after', isWhitespace c = true

/-- Nothing filled in. -/
def ProofRequest.empty : ProofRequest := ⟨none, none, none, none, none, none⟩

def MemberRequest.empty : MemberRequest := ⟨none, none, none, none, none, none⟩

/-- The text of a field, empty where it is left out. -/
def textOf (field : Option RustString) : String := (field.map Subtype.val).getD ""

structure SameProof (a b : ProofRequest) : Prop where
  authenticatorData : SameHex (textOf a.authenticatorData) (textOf b.authenticatorData)
  clientDataJSON : textOf a.clientDataJSON = textOf b.clientDataJSON
  challengeIndex : a.challengeIndex = b.challengeIndex
  typeIndex : a.typeIndex = b.typeIndex
  r : SameHex (a.r.getD "") (b.r.getD "")
  s : SameHex (a.s.getD "") (b.s.getD "")

structure SameMember (a b : MemberRequest) : Prop where
  publicKey : SameHex (a.publicKey.getD "") (b.publicKey.getD "")
  attestation : SameHex (a.attestation.getD "") (b.attestation.getD "")
  credentialId : SameHex (a.credentialId.getD "") (b.credentialId.getD "")
  authenticatorAttachment :
    SameHint (a.authenticatorAttachment.getD "") (b.authenticatorAttachment.getD "")
  transports : SameHint (a.transports.getD "") (b.transports.getD "")
  proof : SameProof (a.proof.getD .empty) (b.proof.getD .empty)

structure SameRegister (a b : RegisterRequest) : Prop where
  rpId : a.rpId.getD "" = b.rpId.getD ""
  metadata : SameHex (a.metadata.getD "") (b.metadata.getD "")
  groupPublicKey : SameHex (a.groupPublicKey.getD "") (b.groupPublicKey.getD "")
  groupProof : SameProof (a.groupProof.getD .empty) (b.groupProof.getD .empty)
  members : List.Forall₂ SameMember (a.members.getD []) (b.members.getD [])

structure SameRefer (a b : ReferRequest) : Prop where
  rpId : a.rpId.getD "" = b.rpId.getD ""
  groupPublicKey : SameHex (a.groupPublicKey.getD "") (b.groupPublicKey.getD "")
  metadata : SameHex (a.metadata.getD "") (b.metadata.getD "")
  member : SameMember (a.member.getD .empty) (b.member.getD .empty)

/-- Two spellings of one request: they differ in markers, the case of hex digits, fields left out or
left empty, and blanks around hints. -/
def Respelled : AdmissionRequest → AdmissionRequest → Prop
  | .register a, .register b => SameRegister a b
  | .refer a, .refer b => SameRefer a b
  | _, _ => False

/-! ## Spellings are symmetric -/

theorem SameDigit.symm {c d : Char} (h : SameDigit c d) : SameDigit d c := by
  rcases h with rfl | ⟨hsome, heq⟩
  · exact .inl rfl
  · exact .inr ⟨heq ▸ hsome, heq.symm⟩

theorem SameHex.symm {a b : String} (h : SameHex a b) : SameHex b a :=
  List.Forall₂.flip (h.imp fun _ _ => SameDigit.symm)

theorem SameHint.symm {a b : String} (h : SameHint a b) : SameHint b a := by
  obtain ⟨before, core, after, before', after', ha, hb, hblank⟩ := h
  refine ⟨before', core, after', before, after, hb, ha, ?_⟩
  intro c hc
  apply hblank
  simp only [List.mem_append] at hc ⊢
  tauto

theorem SameProof.symm {a b : ProofRequest} (h : SameProof a b) : SameProof b a :=
  ⟨h.authenticatorData.symm, h.clientDataJSON.symm, h.challengeIndex.symm,
    h.typeIndex.symm, h.r.symm, h.s.symm⟩

theorem SameMember.symm {a b : MemberRequest} (h : SameMember a b) : SameMember b a :=
  ⟨h.publicKey.symm, h.attestation.symm, h.credentialId.symm, h.authenticatorAttachment.symm,
    h.transports.symm, h.proof.symm⟩

theorem SameRegister.symm {a b : RegisterRequest} (h : SameRegister a b) : SameRegister b a :=
  ⟨h.rpId.symm, h.metadata.symm, h.groupPublicKey.symm, h.groupProof.symm,
    List.Forall₂.flip (h.members.imp fun _ _ => SameMember.symm)⟩

theorem SameRefer.symm {a b : ReferRequest} (h : SameRefer a b) : SameRefer b a :=
  ⟨h.rpId.symm, h.groupPublicKey.symm, h.metadata.symm, h.member.symm⟩

theorem Respelled.symm {a b : AdmissionRequest} (h : Respelled a b) : Respelled b a := by
  cases a with
  | register a =>
      cases b with
      | register b => exact SameRegister.symm h
      | refer b => exact h.elim
  | refer a =>
      cases b with
      | register b => exact h.elim
      | refer b => exact SameRefer.symm h

/-! ## What a field parser sees -/

variable {K : P256Crate} {E : Contract.Evm}

theorem SameHex.parseHexBytes {a b : String} (h : SameHex a b) :
    parseHexBytes a = parseHexBytes b := by
  apply Hex.decodeChars_congr
  apply map_eq_of_forall₂
  apply List.Forall₂.flip
  apply h.imp
  intro c d hcd
  rcases hcd with rfl | ⟨-, heq⟩
  · rfl
  · exact heq

theorem SameHex.parseB256 {a b : String} (h : SameHex a b) : parseB256 a = parseB256 b := by
  rw [Registrar.parseB256, Registrar.parseB256, h.parseHexBytes]

/-- Text that stands for some bytes was not left out. -/
theorem SameHex.present {a : String} {field : Option String} (h : SameHex a (field.getD ""))
    (hne : Registrar.parseHexBytes a ≠ some []) : ∃ b, field = some b ∧ SameHex a b := by
  cases field with
  | some b => exact ⟨b, rfl, h⟩
  | none => exact absurd h.parseHexBytes hne

theorem SameHint.trim {a b : String} (h : SameHint a b) : trim a = trim b := by
  -- the blanks in front fall to the first `dropWhile`, those behind to the second
  have hone : ∀ before core after : List Char, (∀ c ∈ before, isWhitespace c = true) →
      (∀ c ∈ after, isWhitespace c = true) →
        ((before ++ core ++ after).dropWhile isWhitespace).reverse.dropWhile isWhitespace =
          (core.dropWhile isWhitespace).reverse.dropWhile isWhitespace := by
    intro before core after hbefore hafter
    rw [List.append_assoc, List.dropWhile_append_of_pos hbefore, List.dropWhile_append]
    split
    · next hempty =>
        rw [List.isEmpty_iff.mp hempty, List.dropWhile_eq_nil_iff.mpr hafter]
    · rw [List.reverse_append, List.dropWhile_append_of_pos]
      exact fun c hc => hafter c (List.mem_reverse.mp hc)
  obtain ⟨before, core, after, before', after', ha, hb, hblank⟩ := h
  simp only [List.forall_mem_append] at hblank
  rw [Registrar.trim, Registrar.trim, ha, hb, hone _ _ _ hblank.1.1.1 hblank.1.1.2,
    hone _ _ _ hblank.1.2 hblank.2]

theorem SameHint.normalizeHint {a b : String} (h : SameHint a b) (maxBytes : Nat) (field : String) :
    normalizeHint a maxBytes field = normalizeHint b maxBytes field := by
  rw [Registrar.normalizeHint, Registrar.normalizeHint, h.trim]

theorem parsePublicKey_respelled {a b : Option String} {text : String}
    (h : SameHex (a.getD "") (b.getD "")) (ha : parsePublicKey K a = .ok text) :
    parsePublicKey K b = .ok text := by
  obtain ⟨given, key, rfl, hkey, htaken, rfl⟩ := parsePublicKey_iff.mp ha
  have hne : parseHexBytes given ≠ some [] := by
    intro hnil
    cases hkey.symm.trans hnil
    cases htaken.length_eq
  obtain ⟨other, rfl, hsame⟩ := SameHex.present h hne
  exact parsePublicKey_iff.mpr ⟨other, key, rfl, hsame.parseHexBytes ▸ hkey, htaken, rfl⟩

theorem parseRpId_respelled {a b : Option String} (h : a.getD "" = b.getD "") :
    parseRpId a = parseRpId b := by
  have hfilter : ∀ x : Option String,
      x.filter (fun value => decide (value ≠ "")) = (some (x.getD "")).filter fun value =>
        decide (value ≠ "") := by
    intro x
    cases x <;> rfl
  rw [parseRpId, parseRpId, hfilter a, hfilter b, h]

theorem parseMetadata_respelled {a b : Option String} (h : SameHex (a.getD "") (b.getD "")) :
    parseMetadata a = parseMetadata b := by
  rw [parseMetadata, parseMetadata, h.parseHexBytes]

/-! ## Parsed requests -/

/-- The same proof, up to the spelling of its byte fields. -/
structure Proof.Alike (p q : Proof) : Prop where
  authenticatorData : parseHexBytes p.authenticatorData.val = parseHexBytes q.authenticatorData.val
  clientDataJSON : p.clientDataJSON = q.clientDataJSON
  challengeIndex : p.challengeIndex = q.challengeIndex
  typeIndex : p.typeIndex = q.typeIndex
  r : parseB256 p.r = parseB256 q.r
  s : parseB256 p.s = parseB256 q.s

/-- The same member, up to the spelling of its proof. -/
structure Member.Alike (m n : Member) : Prop where
  publicKey : m.publicKey = n.publicKey
  attestation : m.attestation = n.attestation
  credentialId : m.credentialId = n.credentialId
  authenticatorAttachment : m.authenticatorAttachment = n.authenticatorAttachment
  transports : m.transports = n.transports
  proof : m.proof.Alike n.proof

theorem Proof.Alike.verifyProof {p q : Proof} (h : p.Alike q) (challenge : Bytes32) (rpId : String)
    (key : Bytes) :
    verifyProof E K p challenge rpId key = verifyProof E K q challenge rpId key := by
  rw [Registrar.verifyProof, Registrar.verifyProof, h.authenticatorData, h.clientDataJSON,
    h.challengeIndex, h.typeIndex, h.r, h.s]

theorem Proof.Alike.proofSol {p q : Proof} (h : p.Alike q) : proofSol p = proofSol q := by
  rw [Registrar.proofSol, Registrar.proofSol, h.authenticatorData, h.clientDataJSON,
    h.challengeIndex, h.typeIndex, h.r, h.s]

theorem Member.Alike.memberSol {m n : Member} (h : m.Alike n) : memberSol m = memberSol n := by
  rw [Registrar.memberSol, Registrar.memberSol, h.publicKey, h.attestation, h.credentialId,
    h.authenticatorAttachment, h.transports, h.proof.proofSol]

theorem Member.Alike.memberHash {m n : Member} (h : m.Alike n) :
    memberHash E m = memberHash E n := by
  rw [Registrar.memberHash, Registrar.memberHash, h.publicKey, h.attestation]

/-- A proof is parsed exactly if no field was left out. -/
theorem parseProof_iff {request : Option ProofRequest} {p : Proof} : parseProof request = .ok p ↔
    request.getD .empty = ⟨some p.authenticatorData, some p.clientDataJSON, some p.challengeIndex,
      some p.typeIndex, some p.r, some p.s⟩ := by
  simp only [parseProof, Except.bind_eq_ok, okOr_eq_ok, Except.pure_eq_ok]
  constructor
  · rintro ⟨⟨a, c, ci, ti, r, s⟩, rfl, _, rfl, _, rfl, _, rfl, _, rfl, _, rfl, _, rfl, rfl⟩
    rfl
  · intro h
    cases request with
    | none => cases h
    | some request =>
        obtain rfl : request = _ := h
        exact ⟨_, rfl, _, rfl, _, rfl, _, rfl, _, rfl, _, rfl, _, rfl, rfl⟩

/-- No text field of the proof is empty. -/
structure Proof.Filled (p : Proof) : Prop where
  authenticatorData : parseHexBytes p.authenticatorData.val ≠ some []
  clientDataJSON : p.clientDataJSON.val ≠ ""
  r : parseHexBytes p.r ≠ some []
  s : parseHexBytes p.s ≠ some []

theorem parseHexBytes_ne_nil_of_parseB256 {value : String} {w : Bytes32}
    (h : parseB256 value = some w) : parseHexBytes value ≠ some [] := by
  intro hnil
  simp [parseB256, hnil] at h

/-- A proof that verifies is filled in. -/
theorem ProofAccepted.filled {p : Proof} {sol : Contract.Proof} {challenge : Bytes32}
    {rpId : String} {key : Bytes} (h : ProofAccepted E K p sol challenge rpId key) : p.Filled := by
  have hparsed := h.parsed
  simp only [proofSol, Option.bind_eq_bind, Option.bind_eq_some_iff, Option.pure_def,
    Option.some.injEq] at hparsed
  obtain ⟨auth, hauth, r, hr, s, hs, rfl⟩ := hparsed
  refine ⟨?_, ?_, parseHexBytes_ne_nil_of_parseB256 hr, parseHexBytes_ne_nil_of_parseB256 hs⟩
  · intro hnil
    cases hauth.symm.trans hnil
    have hle : 37 ≤ ([] : Bytes).length := h.length_le
    exact absurd hle (by decide)
  · -- an empty text carries nothing
    intro hempty
    have hcarries := h.type_field.2
    rw [show utf8 p.clientDataJSON.val = [] by rw [hempty]; rfl, List.drop_nil] at hcarries
    exact absurd (List.prefix_nil.mp hcarries) (by decide)

/-- Another spelling of a proof that is filled in has all its fields too. -/
theorem parseProof_respelled {a b : Option ProofRequest} {p : Proof}
    (h : SameProof (a.getD .empty) (b.getD .empty)) (ha : parseProof a = .ok p) (hp : p.Filled) :
    ∃ q, parseProof b = .ok q ∧ p.Alike q := by
  rw [parseProof_iff] at ha
  rw [ha] at h
  obtain ⟨r, hr, hrSame⟩ := h.r.present hp.r
  obtain ⟨s, hs, hsSame⟩ := h.s.present hp.s
  obtain ⟨authText, hauthText, hauthSame⟩ := h.authenticatorData.present hp.authenticatorData
  obtain ⟨auth, hauth, rfl⟩ := Option.map_eq_some_iff.mp hauthText
  have hclient : (b.getD .empty).clientDataJSON = some p.clientDataJSON := by
    have hsame := h.clientDataJSON
    cases hb : (b.getD .empty).clientDataJSON with
    | none =>
        rw [hb] at hsame
        exact absurd hsame hp.clientDataJSON
    | some text =>
        rw [hb] at hsame
        exact congrArg some (Subtype.ext hsame.symm)
  have hindex : some p.challengeIndex = (b.getD .empty).challengeIndex := h.challengeIndex
  have htypeIndex : some p.typeIndex = (b.getD .empty).typeIndex := h.typeIndex
  refine ⟨⟨auth, p.clientDataJSON, p.challengeIndex, p.typeIndex, r, s⟩, ?_, ?_⟩
  · rw [parseProof_iff, ← hauth, ← hclient, ← hr, ← hs, hindex, htypeIndex]
  · exact ⟨hauthSame.parseHexBytes, rfl, rfl, rfl, hrSame.parseB256, hsSame.parseB256⟩

/-! ## Members -/

theorem parseMember_respelled {a b : MemberRequest} {m : Member} (h : SameMember a b)
    (ha : parseMember K a = .ok m) (hm : m.proof.Filled) :
    ∃ n, parseMember K b = .ok n ∧ m.Alike n := by
  simp only [parseMember, Except.bind_eq_ok, Except.pure_eq_ok] at ha ⊢
  obtain ⟨publicKey, hkey, attestation, hatt, credentialId, hcred, attachment, hattach, transports,
    htrans, proof, hproof, rfl⟩ := ha
  obtain ⟨q, hq, halike⟩ := parseProof_respelled h.proof hproof hm
  rw [validateAttestationHex, h.attestation.parseHexBytes] at hatt
  rw [normalizeCredentialId, h.credentialId.parseHexBytes] at hcred
  rw [h.authenticatorAttachment.normalizeHint] at hattach
  rw [h.transports.normalizeHint] at htrans
  exact ⟨_, ⟨publicKey, parsePublicKey_respelled h.publicKey hkey, attestation, hatt, credentialId,
    hcred, attachment, hattach, transports, htrans, q, hq, rfl⟩, rfl, rfl, rfl, rfl, rfl, halike⟩

theorem any_publicKey_of_alike {ms ns : List Member} (h : List.Forall₂ Member.Alike ms ns)
    (key : String) : ms.any (fun m => m.publicKey = key) = ns.any fun n => n.publicKey = key := by
  induction h with
  | nil => rfl
  | cons hmn _ ih => rw [List.any_cons, List.any_cons, hmn.publicKey, ih]

/-- The loop over the members, side by side. -/
theorem parseMembers_respelled {group : String} {index : Nat} {as bs : List MemberRequest}
    {parsed parsed' members : List Member} (h : List.Forall₂ SameMember as bs)
    (hparsed : List.Forall₂ Member.Alike parsed parsed')
    (ha : parseMembers K group index parsed as = .ok members)
    (hfilled : ∀ m ∈ members, m.proof.Filled) :
    ∃ members', parseMembers K group index parsed' bs = .ok members' ∧
      List.Forall₂ Member.Alike members members' := by
  induction h generalizing index parsed parsed' with
  | nil =>
      cases ha
      exact ⟨parsed', rfl, hparsed⟩
  | @cons a b as bs hab _ ih =>
      simp only [parseMembers, Except.bind_eq_ok, Except.mapError_eq_ok, revertIf_eq_ok,
        exists_const] at ha ⊢
      obtain ⟨m, hm, hgroup, hnew, hrest⟩ := ha
      -- the member is among those the loop ends with, so its proof is filled in
      have hmem : m ∈ members := by
        obtain ⟨rest, rfl, -⟩ := parseMembers_eq_ok hrest
        simp
      obtain ⟨n, hn, halike⟩ := parseMember_respelled hab hm (hfilled m hmem)
      obtain ⟨members', hmembers', hall⟩ := ih (List.rel_append hparsed (.cons halike .nil)) hrest
      refine ⟨members', ⟨n, hn, ?_, ?_, hmembers'⟩, hall⟩
      · rw [← halike.publicKey]
        exact hgroup
      · rw [← halike.publicKey, ← any_publicKey_of_alike hparsed]
        exact hnew

theorem verifyMembers_of_alike {ms ns : List Member} (h : List.Forall₂ Member.Alike ms ns)
    (chainId : UInt64) (registry : Address) (rpId : String) (groupKeyBytes : Bytes) (index : Nat) :
    verifyMembers K E chainId registry rpId groupKeyBytes index ms =
      verifyMembers K E chainId registry rpId groupKeyBytes index ns := by
  induction h generalizing index with
  | nil => rfl
  | cons hmn _ ih =>
      rw [verifyMembers, verifyMembers, hmn.publicKey, hmn.attestation, hmn.proof.verifyProof, ih]

/-! ## Tasks -/

/-- The same task, up to its id, its time, and the spelling of its proofs. -/
structure RegisterTask.Alike (t u : RegisterTask) : Prop where
  kind : t.kind = u.kind
  rpId : t.rpId = u.rpId
  metadata : t.metadata = u.metadata
  contentHash : t.contentHash = u.contentHash
  groupPublicKey : t.groupPublicKey = u.groupPublicKey
  groupProof : Option.Rel Proof.Alike t.groupProof u.groupProof
  members : List.Forall₂ Member.Alike t.members u.members

theorem mapM_of_alike {α : Type} {f : Member → Option α} {ms ns : List Member}
    (h : List.Forall₂ Member.Alike ms ns) (hf : ∀ m n, m.Alike n → f m = f n) :
    ms.mapM f = ns.mapM f := by
  induction h with
  | nil => rfl
  | cons hmn _ ih => rw [List.mapM_cons, List.mapM_cons, hf _ _ hmn, ih]

namespace RegisterTask.Alike

variable {t u : RegisterTask}

theorem registerArgs (h : t.Alike u) : registerArgs t = registerArgs u := by
  have hproof := h.groupProof
  rw [Registrar.registerArgs, Registrar.registerArgs, h.rpId, h.metadata, h.groupPublicKey,
    mapM_of_alike h.members fun _ _ => Member.Alike.memberSol]
  generalize t.groupProof = p at hproof ⊢
  generalize u.groupProof = q at hproof ⊢
  cases hproof with
  | none => rfl
  | some hpq => simp only [Option.bind_eq_bind, Option.bind_some, hpq.proofSol]

theorem referArgs (h : t.Alike u) : referArgs t = referArgs u := by
  have hmembers := h.members
  rw [Registrar.referArgs, Registrar.referArgs, h.metadata, h.groupPublicKey]
  generalize t.members = ms at hmembers ⊢
  generalize u.members = ns at hmembers ⊢
  cases hmembers with
  | nil => rfl
  | cons hmn _ => simp only [List.head?_cons, Option.bind_eq_bind, Option.bind_some, hmn.memberSol]

theorem writeCalldata (h : t.Alike u) : writeCalldata t = writeCalldata u := by
  rw [Registrar.writeCalldata, Registrar.writeCalldata, h.kind, registerCalldata, registerCalldata,
    referCalldata, referCalldata, h.registerArgs, h.referArgs]

theorem registerRetryDigest (h : t.Alike u) :
    Admission.registerRetryDigest E t = Admission.registerRetryDigest E u := by
  have hkeys : u.members.map Member.publicKey = t.members.map Member.publicKey :=
    map_eq_of_forall₂ (h.members.imp fun m n hmn => hmn.publicKey.symm)
  have hlower : ∀ ms : List Member, ms.map (fun m => toAsciiLowercase m.publicKey) =
      (ms.map Member.publicKey).map toAsciiLowercase := fun ms => by rw [List.map_map]; rfl
  rw [Admission.registerRetryDigest, Admission.registerRetryDigest, h.rpId, h.metadata,
    hlower, hlower, hkeys]

end RegisterTask.Alike

/-! ## Two spellings of one request -/

variable {newTaskId newTaskId' registry : String} {nowMs nowMs' chainId : UInt64}
  {task : RegisterTask} {text : String}

theorem contentHashFor_of_fields {t u : RegisterTask} (hkind : t.kind = u.kind)
    (hrpId : t.rpId = u.rpId) (hmetadata : t.metadata = u.metadata)
    (hgroup : t.groupPublicKey = u.groupPublicKey)
    (hmembers : List.Forall₂ Member.Alike t.members u.members) :
    contentHashFor E t = contentHashFor E u := by
  rw [contentHashFor, contentHashFor, hkind, hrpId, hmetadata, hgroup,
    mapM_of_alike hmembers fun _ _ => Member.Alike.memberHash]
  generalize t.members = ms at hmembers ⊢
  generalize u.members = ns at hmembers ⊢
  cases hmembers with
  | nil => rfl
  | cons hmn _ => simp only [List.head?_cons, Option.bind_eq_bind, Option.bind_some, hmn.publicKey]

/-- An accepted register has a canonical task in every other spelling too. -/
theorem register_respelled {a b : RegisterRequest} (h : SameRegister a b)
    (ha : validateRegister K E a newTaskId nowMs chainId registry = .ok (task, text)) :
    ∃ other, validateRegister K E b newTaskId' nowMs' chainId registry = .ok (other, text) ∧
      task.Alike other := by
  obtain ⟨address, groupProof, contentHash, haddress, hgroupProof, rfl, haccepted⟩ :=
    validateRegister_iff.mp ha
  obtain ⟨sol, hsol⟩ := verifyProof_eq_ok E K haccepted.group_proof
  obtain ⟨groupProof', hgroupProof', hgroupAlike⟩ :=
    parseProof_respelled h.groupProof hgroupProof hsol.filled
  obtain ⟨requests, hrequests, hne, hlen, hmembers⟩ := haccepted.members
  have hfilled : ∀ m ∈ task.members, m.proof.Filled := by
    intro m hm
    obtain ⟨sol, hsol⟩ := verifyMembers_eq_ok haccepted.member_proofs m hm
    exact hsol.filled
  have hsame : List.Forall₂ SameMember requests (b.members.getD []) := by
    have hpairs := h.members
    rwa [hrequests] at hpairs
  obtain ⟨members, hmembers', halike⟩ := parseMembers_respelled hsame .nil hmembers hfilled
  let other : RegisterTask :=
    { newTask newTaskId' .register task.rpId task.metadata task.groupPublicKey
      (some groupProof') members
        nowMs' with contentHash := hexText contentHash.val }
  have hkind : task.kind = .register := congrArg RegisterTask.kind haccepted.task_eq
  have hhash : task.contentHash = hexText contentHash.val :=
    congrArg RegisterTask.contentHash haccepted.task_eq
  have hcontent : contentHashFor E task = contentHashFor E other :=
    contentHashFor_of_fields hkind rfl rfl rfl halike
  refine ⟨other,
    validateRegister_iff.mpr ⟨address, groupProof', contentHash, haddress, hgroupProof', rfl, ?_⟩,
    ?_⟩
  · refine ⟨?_, ?_, ?_, ?_, ?_, ?_, ?_, rfl⟩
    · show parseRpId b.rpId = .ok task.rpId
      rw [← parseRpId_respelled h.rpId]
      exact haccepted.rpId
    · show parseMetadata b.metadata = .ok task.metadata
      rw [← parseMetadata_respelled h.metadata]
      exact haccepted.metadata
    · exact parsePublicKey_respelled h.groupPublicKey haccepted.group_key
    · -- the list was not left out, since it is not empty
      have hcount := hsame.length_eq
      cases hb : b.members with
      | none =>
          rw [hb] at hcount
          exact absurd (List.length_eq_zero_iff.mp hcount) hne
      | some others =>
          rw [hb] at hcount hmembers'
          refine ⟨others, rfl, ?_, hcount ▸ hlen, hmembers'⟩
          rintro rfl
          exact hne (List.length_eq_zero_iff.mp hcount)
    · rw [← hcontent]
      exact haccepted.content_hash
    · show verifyProof E K groupProof' _ _ _ = _
      rw [← hgroupAlike.verifyProof]
      exact haccepted.group_proof
    · show verifyMembers K E chainId address task.rpId (keyBytesOf task.groupPublicKey) 0
          members = .ok ()
      rw [← verifyMembers_of_alike halike]
      exact haccepted.member_proofs
  · refine ⟨hkind, rfl, rfl, hhash, rfl, ?_, halike⟩
    rw [show task.groupProof = some groupProof
      from congrArg RegisterTask.groupProof haccepted.task_eq]
    exact .some hgroupAlike

theorem refer_respelled {a b : ReferRequest} (h : SameRefer a b)
    (ha : validateRefer K E a newTaskId nowMs chainId registry = .ok (task, text)) :
    ∃ other, validateRefer K E b newTaskId' nowMs' chainId registry = .ok (other, text) ∧
      task.Alike other := by
  obtain ⟨address, member, contentHash, haddress, rfl, haccepted⟩ := validateRefer_iff.mp ha
  obtain ⟨sol, hsol⟩ := verifyProof_eq_ok E K haccepted.proof
  obtain ⟨request, hrequest, hparse⟩ := haccepted.request_member
  have hsame : SameMember request (b.member.getD .empty) := by
    have hmember := h.member
    rwa [hrequest] at hmember
  obtain ⟨n, hn, halike⟩ := parseMember_respelled hsame hparse hsol.filled
  let other : RegisterTask :=
    { newTask newTaskId' .refer task.rpId task.metadata task.groupPublicKey none [n] nowMs' with
      contentHash := hexText contentHash.val }
  have hkind : task.kind = .refer := congrArg RegisterTask.kind haccepted.task_eq
  have hmembers : List.Forall₂ Member.Alike task.members other.members := by
    rw [show task.members = [member] from congrArg RegisterTask.members haccepted.task_eq]
    exact .cons halike .nil
  have hhash : task.contentHash = hexText contentHash.val :=
    congrArg RegisterTask.contentHash haccepted.task_eq
  have hcontent : contentHashFor E task = contentHashFor E other :=
    contentHashFor_of_fields hkind rfl rfl rfl hmembers
  refine ⟨other, validateRefer_iff.mpr ⟨address, n, contentHash, haddress, rfl, ?_⟩, ?_⟩
  · refine ⟨?_, ?_, ?_, ?_, ?_, ?_, ?_, rfl⟩
    · show parseRpId b.rpId = .ok task.rpId
      rw [← parseRpId_respelled h.rpId]
      exact haccepted.rpId
    · show parseMetadata b.metadata = .ok task.metadata
      rw [← parseMetadata_respelled h.metadata]
      exact haccepted.metadata
    · exact parsePublicKey_respelled h.groupPublicKey haccepted.group_key
    · -- a member left out has no key
      cases hb : b.member with
      | none =>
          rw [hb] at hn
          cases hn
      | some request' =>
          rw [hb] at hn
          exact ⟨request', rfl, hn⟩
    · rw [← halike.publicKey]
      exact haccepted.not_group
    · rw [← hcontent]
      exact haccepted.content_hash
    · rw [← halike.proof.verifyProof, ← halike.publicKey, ← halike.attestation]
      exact haccepted.proof
  · refine ⟨hkind, rfl, rfl, hhash, rfl, ?_, hmembers⟩
    rw [show task.groupProof = none from congrArg RegisterTask.groupProof haccepted.task_eq]
    exact .none

/-! ## The write a request asks for -/

/-- What is written, as bytes: a unit with its founding data, or a reference of a key to a group. -/
inductive Write where
  | register (rpId : String) (metadata groupPublicKey : Bytes) (members : List (Bytes × Bytes))
  | refer (groupPublicKey publicKey : Bytes)
  deriving DecidableEq

/-- The key of a member and its attestation. -/
def MemberRequest.pair (request : MemberRequest) : Option (Bytes × Bytes) := do
  let publicKey ← parseHexBytes (request.publicKey.getD "")
  let attestation ← parseHexBytes (request.attestation.getD "")
  pure (publicKey, attestation)

/-- The write, read off the text of the request. -/
def writeOf : AdmissionRequest → Option Write
  | .register request => do
      let metadata ← parseHexBytes (request.metadata.getD "")
      let groupPublicKey ← parseHexBytes (request.groupPublicKey.getD "")
      let members ← (request.members.getD []).mapM MemberRequest.pair
      pure (.register (request.rpId.getD "") metadata groupPublicKey members)
  | .refer request => do
      let groupPublicKey ← parseHexBytes (request.groupPublicKey.getD "")
      let publicKey ← parseHexBytes ((request.member.getD .empty).publicKey.getD "")
      pure (.refer groupPublicKey publicKey)

/-- A refer is kept under the digest of its pair of keys, which has the form of a member's binding.
-/
def Write.bound : Write → Bound
  | .register rpId metadata groupPublicKey members =>
      .group (utf8 rpId) metadata groupPublicKey members
  | .refer groupPublicKey publicKey => .member groupPublicKey publicKey

theorem Write.bound_injective : Function.Injective Write.bound := by
  intro w w' h
  cases w with
  | register rpId metadata group members =>
      cases w' with
      | register rpId' metadata' group' members' =>
          obtain ⟨hrpId, rfl, rfl, rfl⟩ := Bound.group.inj h
          rw [utf8_injective hrpId]
      | refer group' key' => cases h
  | refer group key =>
      cases w' with
      | register rpId' metadata' group' members' => cases h
      | refer group' key' =>
          obtain ⟨rfl, rfl⟩ := Bound.member.inj h
          rfl

/-- The strings that are hashed for the content hash of a request. -/
def hashedFor (E : Contract.Evm) (request : AdmissionRequest) : Set Bytes :=
  {b | ∃ w, writeOf request = some w ∧ b ∈ w.bound.hashed E}

/-- A validated task is kept under the digest of the write its request asks for. -/
structure Identified (E : Contract.Evm) (request : AdmissionRequest)
    (task : RegisterTask) (w : Write) : Prop where
  write : writeOf request = some w
  contentHash : task.contentHash = hexText (w.bound.binding E).val
  fits : w.bound.Fits
  calldata : ∃ data, writeCalldata task = some data

/-- The bytes of a key in the request are those of its canonical text. -/
theorem parseHexBytes_of_parsePublicKey {value : Option String}
    (h : parsePublicKey K value = .ok text) :
    parseHexBytes (value.getD "") = some (keyBytesOf text) ∧ (keyBytesOf text).length = 65 := by
  obtain ⟨given, key, rfl, hkey, htaken, rfl⟩ := parsePublicKey_iff.mp h
  rw [keyBytesOf_encode]
  exact ⟨hkey, htaken.length_eq⟩

theorem key_of_parseMember {request : MemberRequest} {member : Member}
    (h : parseMember K request = .ok member) :
    parseHexBytes (request.publicKey.getD "") = some (keyBytesOf member.publicKey) ∧
      (keyBytesOf member.publicKey).length = 65 := by
  simp only [parseMember, Except.bind_eq_ok, Except.pure_eq_ok] at h
  obtain ⟨publicKey, hkey, -, -, -, -, -, -, -, -, -, -, rfl⟩ := h
  exact parseHexBytes_of_parsePublicKey hkey

theorem pair_of_parseMember {request : MemberRequest} {member : Member}
    (h : parseMember K request = .ok member) :
    request.pair = some (keyBytesOf member.publicKey, fieldBytesOf member.attestation) := by
  simp only [parseMember, Except.bind_eq_ok, Except.pure_eq_ok] at h
  obtain ⟨publicKey, hkey, attestation, hatt, -, -, -, -, -, -, -, -, rfl⟩ := h
  obtain ⟨bytes, hbytes, -, rfl⟩ := validateAttestationHex_iff.mp hatt
  simp [MemberRequest.pair, (parseHexBytes_of_parsePublicKey hkey).1, hbytes]

theorem rpId_of_parseRpId {value : Option String} (h : parseRpId value = .ok text) :
    value = some text := by
  simp only [parseRpId, Except.bind_eq_ok, okOr_eq_ok, revertIf_eq_ok, exists_const, not_lt,
    Except.pure_eq_ok, Option.filter_eq_some_iff] at h
  obtain ⟨rpId, ⟨rfl, -⟩, -, rfl⟩ := h
  rfl

variable {address : Address} {groupProof : Proof} {member : Member} {contentHash : Bytes32}

theorem RegisterAccepted.identified {request : RegisterRequest}
    (h : RegisterAccepted K E request newTaskId nowMs chainId address groupProof contentHash task) :
    Identified E (.register request) task (.register task.rpId (fieldBytesOf task.metadata)
      (keyBytesOf task.groupPublicKey) task.pairs) := by
  obtain ⟨metadata, hmetadata, -, hmetaText⟩ := parseMetadata_iff.mp h.metadata
  obtain ⟨hgroup, -⟩ := parseHexBytes_of_parsePublicKey h.group_key
  obtain ⟨requests, hrequests, -, -, hparse⟩ := h.members
  obtain ⟨rest, hrest, hall⟩ := parseMembers_eq_ok hparse
  obtain rfl : task.members = rest := hrest
  have hpairs : requests.mapM MemberRequest.pair = some task.pairs :=
    mapM_of_forall₂ (hall.imp fun request member hmember => pair_of_parseMember hmember.1)
  refine ⟨?_, ?_, h.bound_fits, h.ownCheck.2.2⟩
  · simp only [writeOf, hmetadata, hgroup, hrequests, Option.getD_some, hpairs,
      rpId_of_parseRpId h.rpId, ← hmetaText, fieldBytesOf_normalHex, Option.bind_eq_bind,
      Option.bind_some, Option.pure_def]
  · show task.contentHash = hexText (task.bound.binding E).val
    rw [← h.contentHash_eq]
    exact congrArg RegisterTask.contentHash h.task_eq

/-- The digest kept with a refer is the one of its pair of keys. -/
theorem ReferAccepted.contentHash_eq {request : ReferRequest}
    (h : ReferAccepted K E request newTaskId nowMs chainId address member contentHash task) :
    contentHash =
      (Bound.member (keyBytesOf task.groupPublicKey) (keyBytesOf member.publicKey)).binding E := by
  have hkind : task.kind = .refer := congrArg RegisterTask.kind h.task_eq
  obtain ⟨metadata, hmetaText, -⟩ := parseMetadata_eq_ok h.metadata
  have hmembers := h.members_eq
  obtain ⟨hgroup, hkey⟩ := h.keys_read
  obtain ⟨memberRequest, -, hparse⟩ := h.request_member
  obtain ⟨key, attestation, credentialId, hfields⟩ := parseMember_eq_ok hparse
  have hcontent := h.content_hash
  simp only [contentHashFor, hgroup, hmetaText, parseHexBytes_normalHex, hkind, hmembers,
    List.mapM_cons, List.mapM_nil, hfields.memberHash_eq, List.head?_cons, hkey,
    Option.bind_eq_bind, Option.bind_some, Option.pure_def, Option.some.injEq] at hcontent
  exact hcontent.symm

theorem ReferAccepted.identified {request : ReferRequest}
    (h : ReferAccepted K E request newTaskId nowMs chainId address member contentHash task) :
    Identified E (.refer request) task (.refer (keyBytesOf task.groupPublicKey)
      (keyBytesOf member.publicKey)) := by
  obtain ⟨hgroup, hgroupLen⟩ := parseHexBytes_of_parsePublicKey h.group_key
  obtain ⟨memberRequest, hrequest, hparse⟩ := h.request_member
  obtain ⟨hkey, hkeyLen⟩ := key_of_parseMember hparse
  refine ⟨?_, ?_, ⟨?_, ?_⟩, h.ownCheck.2.2⟩
  · simp only [writeOf, hgroup, hrequest, Option.getD_some, hkey, Option.bind_eq_bind,
      Option.bind_some, Option.pure_def]
  · show task.contentHash = hexText ((Bound.member _ _).binding E).val
    rw [← h.contentHash_eq]
    exact congrArg RegisterTask.contentHash h.task_eq
  · rw [hgroupLen]
    norm_num
  · rw [hkeyLen]
    norm_num

/-! ## Idempotency keys -/

open Admission (Submission validate)

theorem exists_identified {s : Submission} (h : validate K E s = .ok (task, text)) :
    ∃ w, Identified E s.request task w := by
  obtain ⟨request, newTaskId, nowMs, chainId, registry⟩ := s
  cases request with
  | register request =>
      obtain ⟨address, groupProof, contentHash, -, -, haccepted⟩ := validateRegister_eq_ok h
      exact ⟨_, haccepted.identified⟩
  | refer request =>
      obtain ⟨address, member, contentHash, -, -, haccepted⟩ := validateRefer_iff.mp h
      exact ⟨_, haccepted.identified⟩

theorem validate_respelled {s s' : Submission} (hchain : s.chainId = s'.chainId)
    (hregistry : s.registry = s'.registry) (hsame : Respelled s.request s'.request)
    (h : validate K E s = .ok (task, text)) :
    ∃ task', validate K E s' = .ok (task', text) ∧ task.Alike task' := by
  obtain ⟨request, newTaskId, nowMs, chainId, registry⟩ := s
  obtain ⟨request', newTaskId', nowMs', chainId', registry'⟩ := s'
  obtain rfl : chainId = chainId' := hchain
  obtain rfl : registry = registry' := hregistry
  cases request with
  | register a =>
      cases request' with
      | register b => exact register_respelled hsame h
      | refer b => exact hsame.elim
  | refer a =>
      cases request' with
      | register b => exact hsame.elim
      | refer b => exact refer_respelled hsame h

/-- Two validated tasks have one content hash exactly if their requests ask for one write. Two
spellings of one request are both rejected, or both accepted with one content hash, one retry digest
and one calldata. -/
theorem contentHash_names_write (K : P256Crate) (E : Contract.Evm) :
    (∀ (s s' : Submission) (task task' : RegisterTask) (text text' : String),
      validate K E s = .ok (task, text) → validate K E s' = .ok (task', text') →
        Set.InjOn E.keccak256 (hashedFor E s.request ∪ hashedFor E s'.request) →
          ∃ w w', writeOf s.request = some w ∧ writeOf s'.request = some w' ∧
            (task.contentHash = task'.contentHash ↔ w = w')) ∧
    ∀ s s' : Submission, s.chainId = s'.chainId → s.registry = s'.registry →
      Respelled s.request s'.request →
        (∃ e, validate K E s = .error e) ∧ (∃ e', validate K E s' = .error e') ∨
        ∃ task task' text data, validate K E s = .ok (task, text) ∧
          validate K E s' = .ok (task', text) ∧ task.contentHash = task'.contentHash ∧
            Admission.registerRetryDigest E task = Admission.registerRetryDigest E task' ∧
              writeCalldata task = some data ∧ writeCalldata task' = some data := by
  constructor
  · intro s s' task task' text text' hs hs' hkeccak
    obtain ⟨w, hw⟩ := exists_identified hs
    obtain ⟨w', hw'⟩ := exists_identified hs'
    refine ⟨w, w', hw.write, hw'.write, ?_⟩
    rw [hw.contentHash, hw'.contentHash]
    constructor
    · intro htexts
      have hdigest : w.bound.binding E = w'.bound.binding E :=
        Option.some.inj ((parseB256_hexText _).symm.trans ((congrArg parseB256 htexts).trans
          (parseB256_hexText _)))
      apply Write.bound_injective
      refine Bound.eq_of_binding_eq hkeccak ?_ ?_ hw.fits hdigest
      · exact fun b hb => .inl ⟨w, hw.write, hb⟩
      · exact fun b hb => .inr ⟨w', hw'.write, hb⟩
    · rintro rfl
      rfl
  · intro s s' hchain hregistry hsame
    cases h : validate K E s with
    | ok accepted =>
        obtain ⟨task', h', halike⟩ := validate_respelled hchain hregistry hsame h
        obtain ⟨w, hw⟩ := exists_identified h
        obtain ⟨data, hdata⟩ := hw.calldata
        refine .inr ⟨accepted.1, task', accepted.2, data, rfl, h', halike.contentHash,
          halike.registerRetryDigest, hdata, ?_⟩
        rw [← halike.writeCalldata]
        exact hdata
    | error e =>
        refine .inl ⟨⟨e, rfl⟩, ?_⟩
        cases h' : validate K E s' with
        | ok accepted =>
            -- the other spelling would have been accepted with it
            obtain ⟨task, h'', -⟩ := validate_respelled hchain.symm hregistry.symm hsame.symm h'
            cases h.symm.trans h''
        | error e' => exact ⟨e', rfl⟩

namespace Sample

open Contract.Sample (evm domain groupKey memberKey deviceKey)

/-- The recorded register in another spelling: the group key in upper case and without its marker,
the metadata written out as empty, and a hint of blanks. -/
def respelledRequest : RegisterRequest :=
  { registerRequest with
    metadata := some "0x"
    groupPublicKey := some (String.ofList ((Hex.encodeChars groupKey).map Char.toUpper))
    members := some [{ memberRequest with transports := some "  " }] }

theorem sameHex_refl (a : String) : SameHex a a := List.forall₂_same.mpr fun _ _ => .inl rfl

theorem sameProof_refl (p : ProofRequest) : SameProof p p :=
  ⟨sameHex_refl _, rfl, rfl, rfl, sameHex_refl _, sameHex_refl _⟩

theorem respelled_registerRequest :
    Respelled (.register registerRequest) (.register respelledRequest) := by
  refine ⟨rfl, by decide +kernel, ?_, sameProof_refl _, .cons ?_ .nil⟩
  · show SameHex (hexText groupKey) (String.ofList ((Hex.encodeChars groupKey).map Char.toUpper))
    rw [SameHex, toList_hexText, String.toList_ofList]
    decide +kernel
  · refine ⟨sameHex_refl _, sameHex_refl _, sameHex_refl _, ?_, ?_, sameProof_refl _⟩
    · exact ⟨[], [], [], [], [], rfl, rfl, by simp⟩
    · exact ⟨[], [], [], [' ', ' '], [], rfl, by decide +kernel, by simp [isWhitespace]⟩

theorem writeOf_registerRequest : writeOf (.register registerRequest) =
    some (.register "example.com" [] groupKey [(memberKey, Contract.Sample.attestation)]) := by
  have hempty : parseHexBytes "" = some [] := parseHexBytes_normalHex []
  simp [writeOf, registerRequest, groupRequest, MemberRequest.pair, memberRequest, hempty]

theorem writeOf_referRequest :
    writeOf (.refer referRequest) = some (.refer groupKey deviceKey) := by
  simp [writeOf, referRequest, deviceRequest]

theorem hashedFor_subset :
    hashedFor evm (.register registerRequest) ∪ hashedFor evm (.refer referRequest) ⊆
      Contract.Sample.hashedStrings := by
  rintro b (⟨w, hw, hb⟩ | ⟨w, hw, hb⟩)
  · cases hw.symm.trans writeOf_registerRequest
    rcases hb with rfl | ⟨m, hm, rfl⟩
    · decide +kernel
    · cases List.mem_singleton.mp hm
      decide +kernel
  · cases hw.symm.trans writeOf_referRequest
    rcases hb with rfl
    decide +kernel

end Sample

open Sample in
/-- The recorded register and the recorded refer are kept under different digests, and the register
in another spelling is accepted with the digest it has. -/
theorem contentHash_names_write_group :
    (registerTask "a").contentHash ≠ (referTask "b").contentHash ∧
      ∃ task text, validate crate Contract.Sample.evm (submitted "c" (.register respelledRequest)) =
        .ok (task, text) ∧ (registerTask "a").contentHash = task.contentHash := by
  obtain ⟨hnames, hspelled⟩ := contentHash_names_write crate Contract.Sample.evm
  constructor
  · obtain ⟨w, w', hw, hw', hiff⟩ := hnames _ _ _ _ _ _ (validate_register "a") (validate_refer "b")
      (Contract.Sample.keccak256_injOn.mono hashedFor_subset)
    cases hw.symm.trans writeOf_registerRequest
    cases hw'.symm.trans writeOf_referRequest
    intro heq
    cases hiff.mp heq
  · rcases hspelled (submitted "a" (.register registerRequest))
      (submitted "c" (.register respelledRequest))
      rfl rfl respelled_registerRequest with ⟨⟨e, he⟩, -⟩ | ⟨task, task', text, data, h, h',
        hhash, -, -, -⟩
    · cases he.symm.trans (validate_register "a")
    · cases h.symm.trans (validate_register "a")
      exact ⟨task', _, h', hhash⟩

end P256Index.Registrar
