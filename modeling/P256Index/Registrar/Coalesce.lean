import P256Index.Registrar.Spelling

/-!
# The retry digest

A register that is resubmitted with a regenerated group key is recognised by a digest of its rpId,
its metadata and its member keys. Each part is hashed behind its length, so the parts can be read
back, and the keys are hashed in sorted order, so their order is forgotten. `retryDigest_eq_iff`
says that the digest knows these three things and nothing else.
-/

namespace P256Index.Registrar

open Admission (Submission validate registerRetryDigest digestPart)

/-! ## Parts behind their lengths -/

/-- Two parts at the head of two strings are the same. -/
theorem digestPart_append {p q : String} {rest rest' : Bytes} (hp : (utf8 p).length < 2 ^ 32)
    (hq : (utf8 q).length < 2 ^ 32) (h : digestPart p ++ rest = digestPart q ++ rest') :
    p = q ∧ rest = rest' := by
  simp only [digestPart, List.append_assoc] at h
  obtain ⟨hword, htail⟩ := List.append_inj h (by simp)
  have hlen : (utf8 p).length = (utf8 q).length := by
    have hvalue := congrArg ofBe hword
    rw [Nat.mod_eq_of_lt hp, Nat.mod_eq_of_lt hq, ofBe_beBytes_of_lt (by simpa using hp),
      ofBe_beBytes_of_lt (by simpa using hq)] at hvalue
    exact hvalue
  obtain ⟨htext, hrest⟩ := List.append_inj htail hlen
  exact ⟨utf8_injective htext, hrest⟩

theorem digestPart_ne_nil (p : String) : digestPart p ≠ [] := by
  intro h
  have hlen := congrArg List.length h
  simp [digestPart] at hlen

/-- Short parts can be read back. -/
theorem flatMap_digestPart_injOn {ps qs : List String} (hps : ∀ p ∈ ps, (utf8 p).length < 2 ^ 32)
    (hqs : ∀ q ∈ qs, (utf8 q).length < 2 ^ 32) (h : ps.flatMap digestPart = qs.flatMap digestPart) :
    ps = qs := by
  induction ps generalizing qs with
  | nil =>
      cases qs with
      | nil => rfl
      | cons q qs =>
          rw [List.flatMap_nil, List.flatMap_cons, eq_comm, List.append_eq_nil_iff] at h
          exact absurd h.1 (digestPart_ne_nil q)
  | cons p ps ih =>
      cases qs with
      | nil =>
          rw [List.flatMap_nil, List.flatMap_cons, List.append_eq_nil_iff] at h
          exact absurd h.1 (digestPart_ne_nil p)
      | cons q qs =>
          obtain ⟨hp, hps'⟩ := List.forall_mem_cons.mp hps
          obtain ⟨hq, hqs'⟩ := List.forall_mem_cons.mp hqs
          rw [List.flatMap_cons, List.flatMap_cons] at h
          obtain ⟨hhead, hrest⟩ := digestPart_append hp hq h
          rw [hhead, ih hps' hqs' hrest]

/-! ## Sorted keys -/

theorem pairwise_mergeSort_text (texts : List String) :
    (texts.mergeSort fun a b => decide (a ≤ b)).Pairwise fun a b => a ≤ b := by
  refine (List.pairwise_mergeSort ?_ ?_ texts).imp ?_
  · intro a b c hab hbc
    simp only [decide_eq_true_eq] at hab hbc ⊢
    exact hab.trans hbc
  · intro a b
    simpa using le_total a b
  · intro a b hab
    simpa using hab

/-- Sorting forgets the order, and nothing else. -/
theorem mergeSort_eq_iff_perm {texts texts' : List String} :
    (texts.mergeSort fun a b => decide (a ≤ b)) = (texts'.mergeSort fun a b => decide (a ≤ b)) ↔
      texts.Perm texts' := by
  have hperm := List.mergeSort_perm texts fun a b => decide (a ≤ b)
  have hperm' := List.mergeSort_perm texts' fun a b => decide (a ≤ b)
  constructor
  · intro h
    exact hperm.symm.trans (h ▸ hperm')
  · intro h
    refine ((hperm.trans h).trans hperm'.symm).eq_of_pairwise ?_ (pairwise_mergeSort_text texts)
      (pairwise_mergeSort_text texts')
    intro a b _ _ hab hba
    exact le_antisymm hab hba

/-! ## What is hashed for a task -/

def retryParts (task : RegisterTask) : List String :=
  task.rpId :: task.metadata ::
    (task.members.map fun member => toAsciiLowercase member.publicKey).mergeSort fun a b =>
      decide (a ≤ b)

def retryPreimage (task : RegisterTask) : Bytes := (retryParts task).flatMap digestPart

/-- The member keys a request asks for, as bytes. -/
def RegisterRequest.memberKeys (request : RegisterRequest) : Set Bytes :=
  { key | ∃ member ∈ request.members.getD [], parseHexBytes (member.publicKey.getD "") = some key }

variable {K : P256Crate} {E : Contract.Evm} {request : RegisterRequest} {newTaskId text : String}
  {nowMs chainId : UInt64} {address : Address} {groupProof : Proof} {contentHash : Bytes32}
    {task : RegisterTask}

theorem toAsciiLowercase_encode (key : Bytes) :
    toAsciiLowercase (Hex.encode key) = Hex.encode key := by
  rw [toAsciiLowercase, Hex.toList_encode, Hex.lower_encodeChars]
  rfl

theorem utf8_normalHex_length_le (bytes : Bytes) :
    (utf8 (normalHex bytes)).length ≤ 2 + 2 * bytes.length := by
  unfold normalHex
  split
  · exact Nat.zero_le _
  · exact (utf8_hexText_length bytes).le

theorem utf8_encode_length (key : Bytes) : (utf8 (Hex.encode key)).length = 2 * key.length := by
  have hdigits : ∀ c ∈ Hex.encodeChars key, (Hex.value c).isSome :=
    fun c hc => Hex.value_isSome_of_mem hc
  rw [← Hex.encodeChars_length]
  exact Hex.utf8_length_of_digits hdigits

namespace RegisterAccepted

variable (h : RegisterAccepted K E request newTaskId nowMs chainId address groupProof
  contentHash task)

include h

/-- The keys of the task are those of the request, in their canonical text. -/
theorem member_texts :
    { key | key ∈ task.members.map fun member => toAsciiLowercase member.publicKey } =
    Hex.encode '' request.memberKeys := by
  obtain ⟨requests, hrequests, -, -, hparse⟩ := h.members
  obtain ⟨rest, hrest, hall⟩ := parseMembers_eq_ok hparse
  obtain rfl : task.members = rest := hrest
  have hkeys : ∀ {given : MemberRequest} {member : Member}, parseMember K given = .ok member →
      ∃ key, parseHexBytes (given.publicKey.getD "") = some key ∧
        toAsciiLowercase member.publicKey = Hex.encode key := by
    intro given member hmember
    obtain ⟨hkey, -⟩ := key_of_parseMember hmember
    obtain ⟨key, _, _, hfields⟩ := parseMember_eq_ok hmember
    rw [hfields.key_text, keyBytesOf_encode] at hkey
    exact ⟨key, hkey, by rw [hfields.key_text, toAsciiLowercase_encode]⟩
  ext key
  constructor
  · intro hmem
    obtain ⟨member, hmember, rfl⟩ := List.mem_map.mp hmem
    obtain ⟨given, hgiven, hparsed, -⟩ := exists_of_forall₂_right hall hmember
    obtain ⟨bytes, hbytes, htext⟩ := hkeys hparsed
    refine ⟨bytes, ⟨given, ?_, hbytes⟩, htext.symm⟩
    rw [hrequests]
    exact hgiven
  · rintro ⟨bytes, ⟨given, hgiven, hbytes⟩, rfl⟩
    rw [hrequests, Option.getD_some] at hgiven
    obtain ⟨member, hmember, hparsed, -⟩ := exists_of_forall₂_left hall hgiven
    obtain ⟨bytes', hbytes', htext⟩ := hkeys hparsed
    cases hbytes.symm.trans hbytes'
    exact List.mem_map.mpr ⟨member, hmember, htext⟩

theorem member_texts_nodup :
    (task.members.map fun member => toAsciiLowercase member.publicKey).Nodup := by
  obtain ⟨requests, -, -, -, hparse⟩ := h.members
  obtain ⟨-, hnodup, hmembers⟩ := parseMembers_nil_eq_ok hparse
  have hsame : task.members.map (fun member => toAsciiLowercase member.publicKey) =
      task.members.map Member.publicKey := by
    apply List.map_congr_left
    intro member hmember
    obtain ⟨-, given, -, hparsed⟩ := hmembers member hmember
    obtain ⟨key, _, _, hfields⟩ := parseMember_eq_ok hparsed
    rw [hfields.key_text, toAsciiLowercase_encode]
  rw [hsame]
  exact hnodup

/-- Every part fits its length word. -/
theorem retryParts_short : ∀ part ∈ retryParts task, (utf8 part).length < 2 ^ 32 := by
  intro part hpart
  rcases List.mem_cons.mp hpart with rfl | hpart
  · have hle := (parseRpId_eq_ok h.rpId).2
    omega
  rcases List.mem_cons.mp hpart with rfl | hpart
  · obtain ⟨bytes, htext, hle⟩ := parseMetadata_eq_ok h.metadata
    have hlen := utf8_normalHex_length_le bytes
    rw [htext]
    unfold maxMetadataBytes at hle
    omega
  · have hmem := (List.mergeSort_perm _ _).mem_iff.mp hpart
    obtain ⟨requests, -, -, -, hparse⟩ := h.members
    obtain ⟨member, hmember, rfl⟩ := List.mem_map.mp hmem
    obtain ⟨-, given, -, hparsed⟩ := (parseMembers_nil_eq_ok hparse).2.2 member hmember
    obtain ⟨key, _, _, hfields⟩ := parseMember_eq_ok hparsed
    rw [hfields.key_text, toAsciiLowercase_encode, utf8_encode_length, hfields.key_taken.length_eq]
    norm_num

end RegisterAccepted

/-! ## Which requests coalesce -/

section Coalesce

variable {a b : RegisterRequest} {idA idB registryA registryB textA textB : String}
  {nowA nowB chainA chainB : UInt64} {t u : RegisterTask}

/-- Equal preimages, part by part. -/
theorem retryPreimage_eq_iff (ht : ∀ part ∈ retryParts t, (utf8 part).length < 2 ^ 32)
    (hu : ∀ part ∈ retryParts u, (utf8 part).length < 2 ^ 32) :
    retryPreimage t = retryPreimage u ↔ t.rpId = u.rpId ∧ t.metadata = u.metadata ∧
      (t.members.map fun member => toAsciiLowercase member.publicKey).Perm
        (u.members.map fun member => toAsciiLowercase member.publicKey) := by
  rw [← mergeSort_eq_iff_perm]
  constructor
  · intro h
    have hparts : retryParts t = retryParts u := flatMap_digestPart_injOn ht hu h
    simpa only [retryParts, List.cons.injEq] using hparts
  · rintro ⟨hrpId, hmetadata, hkeys⟩
    rw [retryPreimage, retryPreimage, retryParts, retryParts, hrpId, hmetadata, hkeys]

/-- Two accepted registers have one retry digest exactly if they agree on the rpId, on the metadata
and on the set of member keys. The group key, the order of the members and the spelling of the bytes
play no part. -/
theorem retryDigest_eq_iff (ha : validateRegister K E a idA nowA chainA registryA = .ok (t, textA))
    (hb : validateRegister K E b idB nowB chainB registryB = .ok (u, textB))
    (hcollision : Set.InjOn E.keccak256 { retryPreimage t, retryPreimage u }) :
    registerRetryDigest E t = registerRetryDigest E u ↔
      a.rpId = b.rpId ∧ t.metadata = u.metadata ∧ a.memberKeys = b.memberKeys := by
  obtain ⟨_, _, _, -, -, hat⟩ := validateRegister_eq_ok ha
  obtain ⟨_, _, _, -, -, hbu⟩ := validateRegister_eq_ok hb
  have hdigest : registerRetryDigest E t = registerRetryDigest E u ↔
      retryPreimage t = retryPreimage u := by
    constructor
    · intro h
      apply hcollision (.inl rfl) (.inr rfl)
      exact Subtype.ext (Hex.encode_injective h)
    · intro h
      show Hex.encode (E.keccak256 (retryPreimage t)).val =
          Hex.encode (E.keccak256 (retryPreimage u)).val
      rw [h]
  have hrpId : t.rpId = u.rpId ↔ a.rpId = b.rpId := by
    rw [rpId_of_parseRpId hat.rpId, rpId_of_parseRpId hbu.rpId, Option.some.injEq]
  -- neither list repeats a key, so the lists agree up to order as soon as their sets do
  have hkeys : (t.members.map fun member => toAsciiLowercase member.publicKey).Perm
      (u.members.map fun member => toAsciiLowercase member.publicKey) ↔
        a.memberKeys = b.memberKeys := by
    rw [List.perm_ext_iff_of_nodup hat.member_texts_nodup hbu.member_texts_nodup,
      ← (Set.image_injective.mpr Hex.encode_injective).eq_iff, ← hat.member_texts,
      ← hbu.member_texts]
    exact Set.ext_iff.symm
  rw [hdigest, retryPreimage_eq_iff hat.retryParts_short hbu.retryParts_short, hrpId, hkeys]

theorem RegisterTask.Alike.retryPreimage_eq (h : t.Alike u) :
    retryPreimage t = retryPreimage u := by
  have hkeys : u.members.map (fun member => toAsciiLowercase member.publicKey) =
      t.members.map (fun member => toAsciiLowercase member.publicKey) :=
    map_eq_of_forall₂ (h.members.imp fun m n hmn => by rw [hmn.publicKey])
  rw [retryPreimage, retryPreimage, retryParts, retryParts, h.rpId, h.metadata, hkeys]

end Coalesce

namespace Sample

open Contract.Sample (evm Signature memberKey keccakRows hashedStrings mem_hashedStrings)

theorem retryPreimage_groupTask (σ : Signature) (id : String) (metadata : Bytes) :
    retryPreimage (groupTask σ id metadata) = beBytes 4 11 ++ (Contract.Sample.rpId ++
      (digestPart (normalHex metadata) ++ (beBytes 4 130 ++ utf8 (Hex.encode memberKey)))) := by
  have hrpId : digestPart "example.com" = beBytes 4 11 ++ Contract.Sample.rpId := by decide +kernel
  have hkey : digestPart (Hex.encode memberKey) = beBytes 4 130 ++ utf8 (Hex.encode memberKey) := by
    rw [digestPart, utf8_encode_length]
    rfl
  have hkeys :
      (groupTask σ id metadata).members.map (fun member => toAsciiLowercase member.publicKey) =
      [Hex.encode memberKey] := congrArg (· :: []) (toAsciiLowercase_encode memberKey)
  rw [retryPreimage, retryParts, hkeys, List.mergeSort_singleton]
  show digestPart "example.com" ++ (digestPart (normalHex metadata) ++
    (digestPart (Hex.encode memberKey) ++ [])) = _
  rw [hrpId, hkey, List.append_nil, List.append_assoc]

theorem retryPreimage_registerTask : retryPreimage (registerTask "a") ∈ hashedStrings := by
  have hrow : (beBytes 4 11 ++ Contract.Sample.rpId ++ beBytes 4 0 ++ beBytes 4 130 ++
      utf8 (Hex.encode memberKey),
      0xe96c789f1304d5195f851e71027fe0e90ea1a2b38ca749def189824c23b4eea4) ∈ keccakRows :=
    List.mem_of_getElem? (i := 15) rfl
  have hnone : digestPart (normalHex []) = beBytes 4 0 := by decide +kernel
  rw [registerTask, retryPreimage_groupTask, hnone]
  simpa only [List.append_assoc] using mem_hashedStrings hrow

theorem retryPreimage_secondTask : retryPreimage (secondTask "d") ∈ hashedStrings := by
  have hrow :
      (beBytes 4 11 ++ Contract.Sample.rpId ++ beBytes 4 4 ++ utf8 "0xbb" ++ beBytes 4 130 ++
      utf8 (Hex.encode memberKey),
      0xaead673c1e708558a3e12da63072f1413f0be0bc8caba50f0459e96ae6bd9cc2) ∈ keccakRows :=
    List.mem_of_getElem? (i := 18) rfl
  have hbyte : digestPart (normalHex [0xbb]) = beBytes 4 4 ++ utf8 "0xbb" := by decide +kernel
  rw [secondTask, retryPreimage_groupTask, hbyte]
  simpa only [List.append_assoc] using mem_hashedStrings hrow

end Sample

open Sample in
/-- The recorded register in another spelling coalesces with the recorded one, and the one with
other metadata does not. -/
theorem retryDigest_eq_iff_respelled :
    (∃ task text, Admission.validate crate Contract.Sample.evm
        (submitted "c" (.register respelledRequest)) = .ok (task, text) ∧
      (registerRetryDigest Contract.Sample.evm (registerTask "a") =
          registerRetryDigest Contract.Sample.evm task ↔
        registerRequest.rpId = respelledRequest.rpId ∧ (registerTask "a").metadata = task.metadata ∧
          registerRequest.memberKeys = respelledRequest.memberKeys)) ∧
      registerRetryDigest Contract.Sample.evm (registerTask "a") ≠
        registerRetryDigest Contract.Sample.evm (secondTask "d") := by
  constructor
  · have hchain : (submitted "a" (.register registerRequest)).chainId =
        (submitted "c" (.register respelledRequest)).chainId := rfl
    obtain ⟨task, htask, halike⟩ :=
      validate_respelled hchain rfl respelled_registerRequest (validate_register "a")
    refine ⟨task, _, htask, retryDigest_eq_iff (validate_register "a") htask ?_⟩
    rw [halike.retryPreimage_eq, Set.pair_eq_singleton]
    exact Set.injOn_singleton _ _
  · intro heq
    have hcollision : Set.InjOn Contract.Sample.evm.keccak256
        { retryPreimage (registerTask "a"), retryPreimage (secondTask "d") } :=
      Contract.Sample.keccak256_injOn.mono
        (Set.pair_subset retryPreimage_registerTask retryPreimage_secondTask)
    obtain ⟨-, hmetadata, -⟩ :=
      (retryDigest_eq_iff (validate_register "a") (validate_second "d") hcollision).mp heq
    exact absurd hmetadata (by decide)

end P256Index.Registrar
