import P256Index.Registrar.Validate
import P256Index.Table

/-!
# What a validated field is

One lemma for each field parser: the text it returns is the canonical text of some bytes, and those
bytes satisfy the bounds of the field. Reading such a text back gives the bytes, so that every later
decoder of a validated task succeeds; `MemberFields` collects this for a member.
-/

namespace P256Index.Registrar

/-! ## Reading canonical text back -/

theorem stripHexMarker_encodeChars (b : Bytes) :
    stripHexMarker (Hex.encodeChars b) = Hex.encodeChars b := by
  unfold stripHexMarker
  split
  · rename_i rest heq
    -- the marker's `x` is no digit
    have hx : 'x' ∈ Hex.encodeChars b := by simp [heq]
    cases Hex.value_isSome_of_mem hx
  · rfl

@[simp] theorem parseHexBytes_encode (b : Bytes) : parseHexBytes (Hex.encode b) = some b := by
  rw [parseHexBytes, Hex.toList_encode, stripHexMarker_encodeChars, Hex.decodeChars_encodeChars]

theorem toList_hexText (b : Bytes) : (hexText b).toList = '0' :: 'x' :: Hex.encodeChars b := by
  rw [hexText, String.toList_append, Hex.toList_encode]
  rfl

theorem utf8_hexText_length (b : Bytes) : (utf8 (hexText b)).length = 2 + 2 * b.length := by
  rw [hexText, utf8_append, List.length_append, Hex.encode,
    Hex.utf8_length_of_digits fun _ => Hex.value_isSome_of_mem, Hex.encodeChars_length]
  rfl

@[simp] theorem parseHexBytes_hexText (b : Bytes) : parseHexBytes (hexText b) = some b := by
  rw [parseHexBytes, toList_hexText]
  exact Hex.decodeChars_encodeChars b

@[simp] theorem parseB256_hexText (b : Bytes32) : parseB256 (hexText b.val) = some b := by
  simp [parseB256, b.property]

theorem u256OfBytes_val (b : Bytes32) : (u256OfBytes b).val = ofBe b.val := by
  unfold u256OfBytes
  dsimp only

/-- A word written and read back. -/
@[simp] theorem u256OfBytes_word (n : U256) (h : (word n.val).length = 32) :
    u256OfBytes ⟨word n.val, h⟩ = n := by
  apply Fin.ext
  rw [u256OfBytes_val]
  exact ofBe_word n.isLt

@[simp] theorem parseHexBytes_normalHex (b : Bytes) : parseHexBytes (normalHex b) = some b := by
  cases b with
  | nil => rfl
  | cons x b => exact parseHexBytes_hexText (x :: b)

@[simp] theorem keyBytesOf_encode (b : Bytes) : keyBytesOf (Hex.encode b) = b := by
  rw [keyBytesOf, Hex.toList_encode, Hex.decodeChars_encodeChars, Option.getD_some]

@[simp] theorem fieldBytesOf_normalHex (b : Bytes) : fieldBytesOf (normalHex b) = b := by
  rw [fieldBytesOf, parseHexBytes_normalHex, Option.getD_some]

/-! ## Field parsers -/

variable {K : P256Crate} {text : String}

/-- A key the service takes: 65 bytes, marked as uncompressed, and read by the crate. -/
structure KeyTaken (K : P256Crate) (key : Bytes) : Prop where
  length_eq : key.length = 65
  head_eq : key.headD 0 = 4
  read : K.fromSec1Bytes key = true

/-- The digits of the byte 4 have no other spelling. -/
theorem marker_of_decode {raw : List Char} {key : Bytes} (h : Hex.decodeChars raw = some key)
    (hkey : key.length = 65) : ['0', '4'].isPrefixOf raw = true ↔ key.headD 0 = 4 := by
  have hlen := Hex.length_of_decode h
  match raw, hlen with
  | hi :: lo :: rest, hlen =>
      obtain ⟨x, y, r, hx, hy, -, rfl⟩ := Hex.decodeChars_cons.mp h
      have hx' := Hex.value_lt hx
      have hy' := Hex.value_lt hy
      constructor
      · intro hmark
        obtain ⟨rest', heq⟩ := List.isPrefixOf_iff_prefix.mp hmark
        cases heq
        cases hx
        cases hy
        rfl
      · intro hhead
        have hbyte : (UInt8.ofNat (16 * x + y)).toNat = 4 := congrArg UInt8.toNat hhead
        rw [UInt8.toNat_ofNat'] at hbyte
        obtain rfl : x = 0 := by omega
        obtain rfl : y = 4 := by omega
        rw [Hex.eq_zero_of_value hx, Hex.eq_four_of_value hy]
        rfl
  | [], hlen =>
      rw [List.length_nil] at hlen
      omega
  | [c], hlen =>
      rw [List.length_singleton] at hlen
      omega

/-- A key is taken as the bytes its text stands for. -/
theorem parsePublicKey_iff {value : Option String} : parsePublicKey K value = .ok text ↔
    ∃ given key, value = some given ∧ parseHexBytes given = some key ∧ KeyTaken K key ∧
      text = Hex.encode key := by
  simp only [parsePublicKey, Except.bind_eq_ok, okOr_eq_ok, revertIf_eq_ok, exists_const, not_not,
    Bool.not_eq_false, Except.pure_eq_ok]
  constructor
  · rintro ⟨given, rfl, ⟨hlen, hdig⟩, hmark, hread, rfl⟩
    have hdigits : ∀ c ∈ stripHexMarker given.toList, (Hex.value c).isSome :=
      List.all_eq_true.mp hdig
    rw [Hex.utf8_length_of_digits hdigits] at hlen
    obtain ⟨key, hkey⟩ := Hex.exists_decode hdigits (by omega)
    have hlower := Hex.lower_of_decode hkey
    have hcount : key.length = 65 := by
      have := Hex.length_of_decode hkey
      omega
    rw [hlower, Hex.decodeChars_encodeChars, Option.getD_some] at hread
    exact ⟨given, key, rfl, hkey, ⟨hcount, (marker_of_decode hkey hcount).mp hmark, hread⟩,
      congrArg String.ofList hlower⟩
  · rintro ⟨given, key, rfl, hkey, htaken, rfl⟩
    have hdigits := Hex.value_isSome_of_decode hkey
    have hlower := Hex.lower_of_decode hkey
    have hcount := Hex.length_of_decode hkey
    rw [htaken.length_eq] at hcount
    refine ⟨given, rfl, ⟨?_, List.all_eq_true.mpr hdigits⟩,
      (marker_of_decode hkey htaken.length_eq).mpr htaken.head_eq, ?_,
      congrArg String.ofList hlower⟩
    · rw [Hex.utf8_length_of_digits hdigits, hcount]
    · rw [hlower, Hex.decodeChars_encodeChars, Option.getD_some]
      exact htaken.read

theorem parsePublicKey_eq_ok {value : Option String} (h : parsePublicKey K value = .ok text) :
    ∃ key, text = Hex.encode key ∧ KeyTaken K key := by
  obtain ⟨-, key, -, -, htaken, rfl⟩ := parsePublicKey_iff.mp h
  exact ⟨key, rfl, htaken⟩

/-- The text of a key that is taken is accepted as it stands. -/
theorem parsePublicKey_hexText {key : Bytes} (h : KeyTaken K key) :
    parsePublicKey K (some (hexText key)) = .ok (Hex.encode key) :=
  parsePublicKey_iff.mpr ⟨_, key, rfl, parseHexBytes_hexText key, h, rfl⟩

/-- Empty, or twenty bytes behind the version. -/
def AttestationShape (bytes : Bytes) : Prop :=
  bytes = [] ∨ bytes.length = attestationBytes ∧ bytes.headD 0 = attestationVersion

theorem validateAttestationHex_iff {value : String} : validateAttestationHex value = .ok text ↔
    ∃ bytes, parseHexBytes value = some bytes ∧ AttestationShape bytes ∧
      text = normalHex bytes := by
  simp only [validateAttestationHex, Except.bind_eq_ok, okOr_eq_ok, revertIf_eq_ok, exists_const,
    not_and, ne_eq, not_not, Except.pure_eq_ok]
  refine exists_congr fun bytes => and_congr_right fun _ => ?_
  constructor
  · rintro ⟨hlen, hhead, rfl⟩
    refine ⟨?_, rfl⟩
    by_cases hempty : bytes = []
    · exact .inl hempty
    · exact .inr ⟨hlen hempty, hhead hempty⟩
  · rintro ⟨hshape, rfl⟩
    rcases hshape with rfl | ⟨hlen, hhead⟩
    · exact ⟨fun h => absurd rfl h, fun h => absurd rfl h, rfl⟩
    · exact ⟨fun _ => hlen, fun _ => hhead, rfl⟩

theorem validateAttestationHex_eq_ok {value : String}
    (h : validateAttestationHex value = .ok text) :
    ∃ bytes, text = normalHex bytes ∧ AttestationShape bytes := by
  obtain ⟨bytes, -, hshape, rfl⟩ := validateAttestationHex_iff.mp h
  exact ⟨bytes, rfl, hshape⟩

theorem normalizeCredentialId_eq_ok {value : String} (h : normalizeCredentialId value = .ok text) :
    ∃ bytes, text = normalHex bytes ∧ bytes.length ≤ 1023 := by
  simp only [normalizeCredentialId, Except.bind_eq_ok, okOr_eq_ok, revertIf_eq_ok,
    exists_const, not_lt, Except.pure_eq_ok] at h
  obtain ⟨bytes, -, hlen, rfl⟩ := h
  exact ⟨bytes, rfl, hlen⟩

theorem normalizeHint_eq_ok {value field : String} {maxBytes : Nat}
    (h : normalizeHint value maxBytes field = .ok text) : (utf8 text).length ≤ maxBytes := by
  simp only [normalizeHint, Except.bind_eq_ok, revertIf_eq_ok, exists_const, not_lt,
    Except.pure_eq_ok] at h
  obtain ⟨hlen, rfl⟩ := h
  exact hlen

theorem parseRpId_eq_ok {value : Option String} (h : parseRpId value = .ok text) :
    (utf8 text).length ≠ 0 ∧ (utf8 text).length ≤ 253 := by
  simp only [parseRpId, Except.bind_eq_ok, okOr_eq_ok, revertIf_eq_ok, exists_const, not_lt,
    Except.pure_eq_ok, Option.filter_eq_some_iff, decide_eq_true_eq] at h
  obtain ⟨rpId, ⟨-, hne⟩, hlen, rfl⟩ := h
  refine ⟨fun hzero => hne ?_, hlen⟩
  apply utf8_injective
  exact List.length_eq_zero_iff.mp hzero

theorem parseMetadata_iff {value : Option String} : parseMetadata value = .ok text ↔
    ∃ bytes, parseHexBytes (value.getD "") = some bytes ∧ bytes.length ≤ maxMetadataBytes ∧
      normalHex bytes = text := by
  simp only [parseMetadata, Except.bind_eq_ok, okOr_eq_ok, revertIf_eq_ok, exists_const, not_lt,
    Except.pure_eq_ok]

theorem parseMetadata_eq_ok {value : Option String} (h : parseMetadata value = .ok text) :
    ∃ bytes, text = normalHex bytes ∧ bytes.length ≤ maxMetadataBytes := by
  obtain ⟨bytes, -, hlen, rfl⟩ := parseMetadata_iff.mp h
  exact ⟨bytes, rfl, hlen⟩

/-! ## Members -/

/-- The bytes behind the text of a validated member, within their bounds. -/
structure MemberFields (K : P256Crate) (member : Member) (key attestation credentialId : Bytes) :
    Prop where
  key_text : member.publicKey = Hex.encode key
  key_taken : KeyTaken K key
  attestation_text : member.attestation = normalHex attestation
  attestation_shape : AttestationShape attestation
  credentialId_text : member.credentialId = normalHex credentialId
  credentialId_le : credentialId.length ≤ 1023
  attachment_le : (utf8 member.authenticatorAttachment).length ≤ 32
  transports_le : (utf8 member.transports).length ≤ 255

theorem parseMember_eq_ok {request : MemberRequest} {member : Member}
    (h : parseMember K request = .ok member) :
    ∃ key attestation credentialId, MemberFields K member key attestation credentialId := by
  simp only [parseMember, Except.bind_eq_ok, Except.pure_eq_ok] at h
  obtain ⟨publicKey, hkey, attestationText, hatt, credentialText, hcred, attachment,
    hattach, transports, htrans, proof, -, rfl⟩ := h
  obtain ⟨key, rfl, htaken⟩ := parsePublicKey_eq_ok hkey
  obtain ⟨attestation, rfl, hshape⟩ := validateAttestationHex_eq_ok hatt
  obtain ⟨credentialId, rfl, hlen⟩ := normalizeCredentialId_eq_ok hcred
  exact ⟨key, attestation, credentialId, rfl, htaken, rfl, hshape, rfl, hlen,
    normalizeHint_eq_ok hattach, normalizeHint_eq_ok htrans⟩

/-- The loop keeps the members it has and adds one for each request, in order, none with the group's
key. -/
theorem parseMembers_eq_ok {group : String} {index : Nat} {parsed members : List Member}
    {requests : List MemberRequest} (h : parseMembers K group index parsed requests = .ok members) :
    ∃ rest, members = parsed ++ rest ∧ List.Forall₂
      (fun request member => parseMember K request = .ok member ∧ member.publicKey ≠ group)
      requests rest := by
  induction requests generalizing index parsed with
  | nil =>
      cases h
      exact ⟨[], (List.append_nil _).symm, .nil⟩
  | cons request requests ih =>
      simp only [parseMembers, Except.bind_eq_ok, Except.mapError_eq_ok, revertIf_eq_ok,
        exists_const] at h
      obtain ⟨member, hmember, hgroup, -, hrest⟩ := h
      obtain ⟨rest, rfl, hall⟩ := ih hrest
      exact ⟨member :: rest, by simp, .cons ⟨hmember, hgroup⟩ hall⟩

/-- The loop refuses a key twice. -/
theorem parseMembers_nodup {group : String} {index : Nat} {parsed members : List Member}
    {requests : List MemberRequest} (hnodup : (parsed.map Member.publicKey).Nodup)
    (h : parseMembers K group index parsed requests = .ok members) :
    (members.map Member.publicKey).Nodup := by
  induction requests generalizing index parsed with
  | nil =>
      cases h
      exact hnodup
  | cons request requests ih =>
      simp only [parseMembers, Except.bind_eq_ok, Except.mapError_eq_ok,
        revertIf_eq_ok, exists_const, Bool.not_eq_true, List.any_eq_false, decide_eq_true_eq] at h
      obtain ⟨member, -, -, hnew, hrest⟩ := h
      refine ih ?_ hrest
      rw [List.map_append, List.map_cons, List.map_nil]
      apply nodup_snoc hnodup
      intro hmem
      obtain ⟨earlier, hearlier, heq⟩ := List.mem_map.mp hmem
      exact hnew earlier hearlier heq

/-- The whole list: one member for each request, with different keys, none of them the group's. -/
theorem parseMembers_nil_eq_ok {group : String} {index : Nat} {members : List Member}
    {requests : List MemberRequest} (h : parseMembers K group index [] requests = .ok members) :
    members.length = requests.length ∧ (members.map Member.publicKey).Nodup ∧
      ∀ member ∈ members, member.publicKey ≠ group ∧
        ∃ request ∈ requests, parseMember K request = .ok member := by
  have hnil : (([] : List Member).map Member.publicKey).Nodup := List.nodup_nil
  obtain ⟨rest, rfl, hall⟩ := parseMembers_eq_ok h
  refine ⟨hall.length_eq.symm, parseMembers_nodup hnil h, ?_⟩
  intro member hmember
  obtain ⟨request, hrequest, hparse, hgroup⟩ := exists_of_forall₂_right hall hmember
  exact ⟨hgroup, request, hrequest, hparse⟩

variable {E : Contract.Evm}

theorem verifyMembers_eq_ok {chainId : UInt64} {registry : Address} {rpId : String}
    {groupKeyBytes : Bytes} {index : Nat} {members : List Member} {u : Unit}
    (h : verifyMembers K E chainId registry rpId groupKeyBytes index members = .ok u) :
    ∀ member ∈ members, ∃ sol, ProofAccepted E K member.proof sol
      (challengeFor E chainId registry rpId (keyBytesOf member.publicKey)
        (memberBindingFor E groupKeyBytes (fieldBytesOf member.attestation)))
      rpId (keyBytesOf member.publicKey) := by
  induction members generalizing index with
  | nil => simp
  | cons member members ih =>
      simp only [verifyMembers, Except.bind_eq_ok, Except.mapError_eq_ok] at h
      obtain ⟨_, hproof, hrest⟩ := h
      intro m hm
      rcases List.mem_cons.mp hm with rfl | hm
      · exact verifyProof_eq_ok E K hproof
      · exact ih hrest m hm

end P256Index.Registrar
