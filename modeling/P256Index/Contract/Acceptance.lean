import P256Index.Table
import P256Index.Contract.Registry

/-!
# When a write is accepted

A write is a chain of checks around one update of the storage. Here the checks are collected into
predicates, split into those that look at the call alone (`RegisterOk`, `ReferOk`: sizes, keys,
signatures) and those that look at the state (`EntryOk`, an unused group key, a fresh pair), and the
update becomes a total function (`registered`, `referred`). `register_eq_ok` and `refer_eq_ok` put
the two together; nothing after this module unfolds a write.
-/

namespace P256Index.Contract

variable {E : Evm} {d : Domain} {s s' : Registry} {now unitId : Nat} {data : Bytes}

/-! ## One entry -/

/-- The checks of a key's first appearance, and of no later one. -/
structure FirstSightOk (m : Member) : Prop where
  attestation : validateAttestation m.attestation = .ok ()
  credentialId : m.credentialId.length ≤ maxCredentialIdLength
  authenticatorAttachment : m.authenticatorAttachment.length ≤ maxAuthenticatorAttachmentLength
  transports : m.transports.length ≤ maxTransportsLength

theorem firstSightOk_iff (m : Member) : FirstSightOk m ↔
    validateAttestation m.attestation = .ok () ∧ m.credentialId.length ≤ maxCredentialIdLength ∧
      m.authenticatorAttachment.length ≤ maxAuthenticatorAttachmentLength ∧
        m.transports.length ≤ maxTransportsLength :=
  ⟨fun ⟨h1, h2, h3, h4⟩ => ⟨h1, h2, h3, h4⟩, fun ⟨h1, h2, h3, h4⟩ => ⟨h1, h2, h3, h4⟩⟩

instance (m : Member) : Decidable (FirstSightOk m) :=
  decidable_of_iff _ (firstSightOk_iff m).symm

variable (E) in
/-- The comparison with a file that exists already. -/
def Matches (e : Entry) (m : Member) : Prop :=
  E.keccak256 e.attestation = E.keccak256 m.attestation ∧
    E.keccak256 e.credentialId = E.keccak256 m.credentialId

variable (E) in
/-- The key under which a member's entry is indexed. -/
def Member.keyHash (m : Member) : Bytes32 := E.keccak256 m.publicKey

variable (E) in
/-- A member is in line with the state: new and within the limits, or the same as its file. -/
def EntryOk (s : Registry) (m : Member) : Prop :=
  (s.entryIdPlusOneByKey (m.keyHash E) = 0 ∧ FirstSightOk m) ∨
    (s.entryIdPlusOneByKey (m.keyHash E) ≠ 0 ∧
      ∃ e, s.entries[s.entryIdPlusOneByKey (m.keyHash E) - 1]? = some e ∧ Matches E e m)

variable (E) in
/-- The entry id a member resolves to. -/
def Registry.resolvedId (s : Registry) (m : Member) : Nat :=
  if s.entryIdPlusOneByKey (m.keyHash E) = 0 then s.entries.length
  else s.entryIdPlusOneByKey (m.keyHash E) - 1

variable (E) in
/-- The state after a member was resolved. -/
def Registry.resolved (s : Registry) (now : Nat) (m : Member) : Registry :=
  if s.entryIdPlusOneByKey (m.keyHash E) = 0 then s.pushEntry (m.keyHash E) (m.entry now) else s

theorem resolveEntry_eq_ok {m : Member} {id : Nat} :
    resolveEntry E now (m.keyHash E) m s = .ok (id, s') ↔
      EntryOk E s m ∧ id = s.resolvedId E m ∧ s' = s.resolved E now m := by
  by_cases h0 : s.entryIdPlusOneByKey (m.keyHash E) = 0
  · simp only [resolveEntry, ne_eq, h0, not_true_eq_false, if_false, Except.bind_eq_ok,
      revertIf_eq_ok, exists_const, not_lt, Except.pure_eq_ok, Prod.mk.injEq, EntryOk, true_and,
      false_and, or_false, firstSightOk_iff, Registry.resolvedId, Registry.resolved, if_true]
    constructor
    · rintro ⟨_, h1, h2, h3, h4, rfl, rfl⟩
      exact ⟨⟨h1, h2, h3, h4⟩, rfl, rfl⟩
    · rintro ⟨⟨h1, h2, h3, h4⟩, rfl, rfl⟩
      exact ⟨(), h1, h2, h3, h4, rfl, rfl⟩
  · cases he : s.entries[s.entryIdPlusOneByKey (m.keyHash E) - 1]? with
    | none =>
        simp only [resolveEntry, ne_eq, h0, not_false_eq_true, if_true, he, EntryOk, false_and,
          false_or, true_and, reduceCtorEq, exists_false]
    | some e =>
        simp only [resolveEntry, ne_eq, h0, not_false_eq_true, if_true, he, EntryOk, false_and,
          false_or, true_and, Option.some.injEq, exists_eq_left', Matches, Except.bind_eq_ok,
          revertIf_eq_ok, exists_const, not_not, Except.pure_eq_ok, Prod.mk.injEq,
          Registry.resolvedId, Registry.resolved, if_false, and_assoc, eq_comm (a := id),
          eq_comm (a := s')]

/-! ## Members of a register call -/

variable (E d) in
/-- What a member proves: its key is a point, and it signed the group key and its attestation. -/
structure MemberOk (rpId groupPublicKey : Bytes) (m : Member) : Prop where
  key : ValidKey m.publicKey
  proof : ProofOk E m.proof
    (challengeFor E d rpId m.publicKey (memberBindingFor E groupPublicKey m.attestation)) rpId
    (coordinates m.publicKey)

variable (E) in
/-- The state after a member was admitted to a unit. -/
def Registry.admitted (now unitId : Nat) (s : Registry) (m : Member) : Registry :=
  (s.resolved E now m).linkMember unitId (s.resolvedId E m)

theorem admitMember_eq_ok {rpId groupPublicKey : Bytes} {m : Member} :
    admitMember E d now unitId rpId groupPublicKey (m.keyHash E) m s = .ok s' ↔
      MemberOk E d rpId groupPublicKey m ∧ EntryOk E s m ∧ s' = s.admitted E now unitId m := by
  simp only [admitMember, Except.bind_eq_ok, Prod.exists, validatePublicKey_eq_ok,
    resolveEntry_eq_ok, Except.pure_eq_ok]
  constructor
  · rintro ⟨x, y, ⟨hkey, hxy⟩, id, s1, ⟨hok, rfl, rfl⟩, _, hproof, rfl⟩
    rw [← hxy] at hproof
    exact ⟨⟨hkey, (verifyProof_eq_ok E).mp hproof⟩, hok, rfl⟩
  · rintro ⟨⟨hkey, hproof⟩, hok, rfl⟩
    exact ⟨_, _, ⟨hkey, rfl⟩, _, _, ⟨hok, rfl, rfl⟩, (), (verifyProof_eq_ok E).mpr hproof, rfl⟩

/-- Index values point into the table, so that no lookup can panic. -/
def Registry.Indexed (s : Registry) : Prop :=
  ∀ h, s.entryIdPlusOneByKey h ≤ s.entries.length

@[simp] theorem linkMember_entries (s : Registry) (u e : Nat) :
    (s.linkMember u e).entries = s.entries := rfl

@[simp] theorem linkMember_entryIdPlusOneByKey (s : Registry) (u e : Nat) :
    (s.linkMember u e).entryIdPlusOneByKey = s.entryIdPlusOneByKey := rfl

theorem Registry.resolved_entries (s : Registry) (now : Nat) (m : Member) :
    s.entries <+: (s.resolved E now m).entries := by
  unfold Registry.resolved
  split
  · exact List.prefix_append _ _
  · exact List.prefix_refl _

theorem Registry.resolved_entryIdPlusOneByKey_of_ne {m : Member} {h : Bytes32}
    (hne : h ≠ m.keyHash E) :
    (s.resolved E now m).entryIdPlusOneByKey h = s.entryIdPlusOneByKey h := by
  unfold Registry.resolved
  split
  · exact Function.update_of_ne hne _ _
  · rfl

theorem Registry.Indexed.pushEntry (hs : s.Indexed) (h : Bytes32) (e : Entry) :
    (s.pushEntry h e).Indexed := by
  intro k
  by_cases hk : k = h
  · subst hk
    simp [Registry.pushEntry]
  · have := hs k
    simp only [Registry.pushEntry, Function.update_of_ne hk, List.length_append,
      List.length_singleton]
    omega

theorem Registry.Indexed.resolved (hs : s.Indexed) (now : Nat) (m : Member) :
    (s.resolved E now m).Indexed := by
  unfold Registry.resolved
  split
  · exact hs.pushEntry _ _
  · exact hs

theorem Registry.Indexed.admitted (hs : s.Indexed) (now unitId : Nat) (m : Member) :
    (s.admitted E now unitId m).Indexed :=
  fun h => hs.resolved now m h

/-- Another key's file is the same before and after. -/
theorem EntryOk.admitted_iff (hs : s.Indexed) {m m' : Member} (hne : m'.keyHash E ≠ m.keyHash E) :
    EntryOk E (s.admitted E now unitId m) m' ↔ EntryOk E s m' := by
  have hidx : (s.admitted E now unitId m).entryIdPlusOneByKey (m'.keyHash E) =
      s.entryIdPlusOneByKey (m'.keyHash E) := Registry.resolved_entryIdPlusOneByKey_of_ne hne
  unfold EntryOk
  rw [hidx]
  refine or_congr_right (and_congr_right fun h0 => ?_)
  have hlt : s.entryIdPlusOneByKey (m'.keyHash E) - 1 < s.entries.length := by
    have := hs (m'.keyHash E)
    omega
  have hget : (s.admitted E now unitId m).entries[s.entryIdPlusOneByKey (m'.keyHash E) - 1]? =
      s.entries[s.entryIdPlusOneByKey (m'.keyHash E) - 1]? := by
    obtain ⟨tail, htail⟩ := Registry.resolved_entries (E := E) s now m
    have heq : (s.admitted E now unitId m).entries = s.entries ++ tail := htail.symm
    rw [heq, List.getElem?_append_left hlt]
  rw [hget]

theorem admitMembers_eq_ok {rpId groupPublicKey : Bytes} {ms : List Member} (hs : s.Indexed)
    (hnodup : (ms.map (Member.keyHash E)).Nodup) :
    admitMembers E d now unitId rpId groupPublicKey (ms.map fun m => (m.keyHash E, m)) s = .ok s' ↔
      (∀ m ∈ ms, MemberOk E d rpId groupPublicKey m) ∧ (∀ m ∈ ms, EntryOk E s m) ∧
        s' = ms.foldl (Registry.admitted E now unitId) s := by
  induction ms generalizing s with
  | nil =>
      simp only [List.map_nil, admitMembers, Except.pure_eq_ok, List.not_mem_nil, false_implies,
        implies_true, List.foldl_nil, true_and]
      exact eq_comm
  | cons m ms ih =>
      rw [List.map_cons, List.nodup_cons] at hnodup
      obtain ⟨hm, hms⟩ := hnodup
      simp only [List.map_cons, admitMembers, Except.bind_eq_ok, admitMember_eq_ok,
        List.forall_mem_cons, List.foldl_cons]
      -- the later members have other keys, so admitting `m` leaves their files alone
      have hother : ∀ m' ∈ ms, (EntryOk E (s.admitted E now unitId m) m' ↔ EntryOk E s m') := by
        intro m' hm'
        apply EntryOk.admitted_iff hs
        intro heq
        exact hm (heq ▸ List.mem_map_of_mem hm')
      constructor
      · rintro ⟨s1, ⟨hmem, hok, rfl⟩, hrest⟩
        obtain ⟨hmems, hoks, rfl⟩ := (ih (hs.admitted now unitId m) hms).mp hrest
        exact ⟨⟨hmem, hmems⟩, ⟨hok, fun m' hm' => (hother m' hm').mp (hoks m' hm')⟩, rfl⟩
      · rintro ⟨⟨hmem, hmems⟩, ⟨hok, hoks⟩, rfl⟩
        refine ⟨_, ⟨hmem, hok, rfl⟩, (ih (hs.admitted now unitId m) hms).mpr ⟨hmems, ?_, rfl⟩⟩
        exact fun m' hm' => (hother m' hm').mpr (hoks m' hm')

theorem distinctKeyHashes_eq_ok {groupKeyHash : Bytes32} {seen hs : List Bytes32}
    {ms : List Member} (hseen : seen.Nodup) :
    distinctKeyHashes E groupKeyHash seen ms = .ok hs ↔
      (seen ++ ms.map (Member.keyHash E)).Nodup ∧ groupKeyHash ∉ ms.map (Member.keyHash E) ∧
        hs = seen ++ ms.map (Member.keyHash E) := by
  induction ms generalizing seen with
  | nil =>
      simp only [distinctKeyHashes, Except.pure_eq_ok, List.map_nil, List.append_nil,
        List.not_mem_nil, not_false_eq_true, true_and, hseen]
      exact eq_comm
  | cons m ms ih =>
      simp only [distinctKeyHashes, Except.bind_eq_ok, revertIf_eq_ok, exists_const, List.map_cons,
        List.mem_cons, not_or]
      have happ : seen ++ m.keyHash E :: ms.map (Member.keyHash E) =
          (seen ++ [m.keyHash E]) ++ ms.map (Member.keyHash E) := by simp
      rw [happ]
      constructor
      · rintro ⟨hgroup, hnew, hrest⟩
        have hsnoc : (seen ++ [m.keyHash E]).Nodup := nodup_snoc hseen hnew
        obtain ⟨h1, h2, h3⟩ := (ih hsnoc).mp hrest
        exact ⟨h1, ⟨fun h => hgroup h.symm, h2⟩, h3⟩
      · rintro ⟨h1, ⟨hgroup, h2⟩, h3⟩
        have hsnoc : (seen ++ [m.keyHash E]).Nodup := (List.nodup_append.mp h1).1
        refine ⟨fun h => hgroup h.symm, fun hmem => ?_, (ih hsnoc).mpr ⟨h1, h2, h3⟩⟩
        exact (List.nodup_append.mp hsnoc).2.2 _ hmem _ (List.mem_singleton.mpr rfl) rfl

/-! ## `register` -/

variable (E d) in
/-- The checks of `register` that look at the call alone. -/
structure RegisterOk (a : RegisterArgs) : Prop where
  rpId : a.rpId.length ≠ 0 ∧ a.rpId.length ≤ maxRpIdLength
  metadata : a.metadata.length ≤ maxMetadataLength
  members_pos : a.members.length ≠ 0
  members_le : a.members.length ≤ maxMembers
  group_key : ValidKey a.groupPublicKey
  group_proof : ProofOk E a.groupProof
    (challengeFor E d a.rpId a.groupPublicKey
      (contentHashFor E a.rpId a.metadata a.groupPublicKey a.members)) a.rpId
    (coordinates a.groupPublicKey)
  distinct : (a.members.map (Member.keyHash E)).Nodup
  not_group : E.keccak256 a.groupPublicKey ∉ a.members.map (Member.keyHash E)
  members : ∀ m ∈ a.members, MemberOk E d a.rpId a.groupPublicKey m

variable (E) in
/-- The state after an accepted `register`. -/
def Registry.registered (s : Registry) (now : Nat) (data : Bytes) (a : RegisterArgs) : Registry :=
  (a.members.foldl (Registry.admitted E now s.units.length)
    (s.openUnit (E.keccak256 a.groupPublicKey) (a.unit E now))).storeRegisterPayload
      s.units.length data

/-- A member without the fields that are stored but not signed. -/
def Member.signed (m : Member) : Member :=
  { m with credentialId := [], authenticatorAttachment := [], transports := [] }

/-- A call without the unsigned fields of its members. -/
def RegisterArgs.signed (a : RegisterArgs) : RegisterArgs :=
  { a with members := a.members.map Member.signed }

/-- No check of the call alone looks at an unsigned field. -/
theorem registerOk_signed {a : RegisterArgs} : RegisterOk E d a.signed ↔ RegisterOk E d a := by
  have hcontent :
      contentHashFor E a.rpId a.metadata a.groupPublicKey (a.members.map Member.signed) =
      contentHashFor E a.rpId a.metadata a.groupPublicKey a.members := by
    rw [contentHashFor_eq, contentHashFor_eq, List.map_map]
    rfl
  have hkeys : (a.members.map Member.signed).map (Member.keyHash E) =
      a.members.map (Member.keyHash E) := by
    rw [List.map_map]
    rfl
  have hmembers : (∀ m ∈ a.members.map Member.signed, MemberOk E d a.rpId a.groupPublicKey m) ↔
      ∀ m ∈ a.members, MemberOk E d a.rpId a.groupPublicKey m := by
    rw [List.forall_mem_map]
    exact forall₂_congr fun m _ => ⟨fun ⟨hk, hp⟩ => ⟨hk, hp⟩, fun ⟨hk, hp⟩ => ⟨hk, hp⟩⟩
  constructor
  · rintro ⟨h1, h2, h3, h4, h5, h6, h7, h8, h9⟩
    simp only [RegisterArgs.signed, List.length_map, hcontent, hkeys, hmembers] at h3 h4 h6 h7 h8 h9
    exact ⟨h1, h2, h3, h4, h5, h6, h7, h8, h9⟩
  · rintro ⟨h1, h2, h3, h4, h5, h6, h7, h8, h9⟩
    refine ⟨h1, h2, ?_, ?_, h5, ?_, ?_, ?_, ?_⟩
    all_goals simp only [RegisterArgs.signed, List.length_map, hcontent, hkeys, hmembers]
    all_goals assumption

theorem verifyGroup_eq_ok {rpId groupPublicKey : Bytes} {proof : Proof} {contentHash : Bytes32}
    {u : Unit} : verifyGroup E d rpId groupPublicKey proof contentHash = .ok u ↔
      ValidKey groupPublicKey ∧ ProofOk E proof
        (challengeFor E d rpId groupPublicKey contentHash) rpId (coordinates groupPublicKey) := by
  simp only [verifyGroup, Except.bind_eq_ok, validatePublicKey_eq_ok, verifyProof_eq_ok]
  constructor
  · rintro ⟨_, ⟨hkey, rfl⟩, hproof⟩
    exact ⟨hkey, hproof⟩
  · rintro ⟨hkey, hproof⟩
    exact ⟨_, ⟨hkey, rfl⟩, hproof⟩

/-- `register` accepts exactly the calls that are sound in themselves, open an unused group key and
agree with the entries there are. -/
theorem register_eq_ok {a : RegisterArgs} (hs : s.Indexed) :
    register E d now data a s = .ok s' ↔
      RegisterOk E d a ∧ s.unitIdPlusOneByGroupKey (E.keccak256 a.groupPublicKey) = 0 ∧
        (∀ m ∈ a.members, EntryOk E s m) ∧ s' = s.registered E now data a := by
  have hopen : (s.openUnit (E.keccak256 a.groupPublicKey) (a.unit E now)).Indexed := hs
  have hzip : ∀ ms : List Member,
      (ms.map (Member.keyHash E)).zip ms = ms.map fun m => (m.keyHash E, m) := by
    intro ms
    induction ms with
    | nil => rfl
    | cons m ms ih => rw [List.map_cons, List.zip_cons_cons, ih, List.map_cons]
  simp only [register, Except.bind_eq_ok, validateRpId_eq_ok, validateMetadata_eq_ok,
    verifyGroup_eq_ok, revertIf_eq_ok, exists_const, not_or, not_lt, ne_eq, not_not,
    distinctKeyHashes_eq_ok List.nodup_nil, List.nil_append, Except.pure_eq_ok]
  constructor
  · rintro ⟨hrp, hmeta, ⟨hpos, hle⟩, hfree, ⟨hgk, hgp⟩, _, ⟨hdist, hng, rfl⟩, s2, hadm, rfl⟩
    rw [hzip] at hadm
    obtain ⟨hmem, hok, rfl⟩ := (admitMembers_eq_ok hopen hdist).mp hadm
    exact ⟨⟨hrp, hmeta, hpos, hle, hgk, hgp, hdist, hng, hmem⟩, hfree, hok, rfl⟩
  · rintro ⟨⟨hrp, hmeta, hpos, hle, hgk, hgp, hdist, hng, hmem⟩, hfree, hok, rfl⟩
    refine ⟨hrp, hmeta, ⟨hpos, hle⟩, hfree, ⟨hgk, hgp⟩, _, ⟨hdist, hng, rfl⟩, _, ?_, rfl⟩
    rw [hzip]
    exact (admitMembers_eq_ok hopen hdist).mpr ⟨hmem, hok, rfl⟩

/-! ## `refer` -/

variable (E d) in
/-- The checks of `refer` that look at the call and the group's rpId alone. -/
structure ReferOk (rpId : Bytes) (a : ReferArgs) : Prop where
  metadata : a.metadata.length ≤ maxMetadataLength
  not_group : a.member.keyHash E ≠ E.keccak256 a.groupPublicKey
  key : ValidKey a.member.publicKey
  proof : ProofOk E a.member.proof
    (challengeFor E d rpId a.member.publicKey
      (referenceBindingFor E a.groupPublicKey a.member.attestation a.metadata)) rpId
    (coordinates a.member.publicKey)

variable (E) in
/-- The state after an accepted `refer` to the unit `unitId`. -/
def Registry.referred (s : Registry) (now : Nat) (data : Bytes) (unitId : Nat) (a : ReferArgs) :
    Registry :=
  (s.resolved E now a.member).pushReference
    { entryId := s.resolvedId E a.member, unitId := unitId, metadata := a.metadata,
      createdAt := now } data

theorem Registry.resolved_referenceIdPlusOneByLink (s : Registry) (now : Nat) (m : Member) :
    (s.resolved E now m).referenceIdPlusOneByLink = s.referenceIdPlusOneByLink := by
  unfold Registry.resolved
  split <;> rfl

/-- `refer` accepts exactly the calls to an existing group that are sound for its rpId, agree with
the entry there is, and are the first of their pair. -/
theorem refer_eq_ok {a : ReferArgs} :
    refer E d now data a s = .ok s' ↔
      ∃ unitId unit, s.unitIdPlusOneByGroupKey (E.keccak256 a.groupPublicKey) = unitId + 1 ∧
        s.units[unitId]? = some unit ∧ ReferOk E d unit.rpId a ∧ EntryOk E s a.member ∧
          s.referenceIdPlusOneByLink unitId (s.resolvedId E a.member) = 0 ∧
            s' = s.referred E now data unitId a := by
  rcases Nat.eq_zero_or_eq_succ_pred
    (s.unitIdPlusOneByGroupKey (E.keccak256 a.groupPublicKey)) with h0 | h0
  · simp only [refer, h0, Except.bind_eq_ok, revertIf_eq_ok, exists_const, not_true_eq_false,
      false_and, and_false, false_iff, not_exists]
    intro unitId _ h
    omega
  · generalize Nat.pred (s.unitIdPlusOneByGroupKey (E.keccak256 a.groupPublicKey)) = u at h0
    cases hu : s.units[u]? with
    | none =>
        simp only [refer, h0, Except.bind_eq_ok, Nat.succ_eq_add_one, Nat.add_sub_cancel, hu,
          Nat.add_right_cancel_iff]
        constructor
        · rintro ⟨_, _, _, _, h⟩
          cases h
        · rintro ⟨_, _, rfl, h, _⟩
          rw [hu] at h
          cases h
    | some unit =>
        simp only [refer, h0, Except.bind_eq_ok, Nat.succ_eq_add_one, Nat.add_sub_cancel, hu,
          Nat.add_right_cancel_iff, validateMetadata_eq_ok, revertIf_eq_ok, exists_const,
          validatePublicKey_eq_ok, ← Member.keyHash.eq_1, Prod.exists, resolveEntry_eq_ok,
          Except.pure_eq_ok, ne_eq, not_not]
        constructor
        · rintro ⟨hmeta, -, hng, x, y, ⟨hkey, hxy⟩, id, s1, ⟨hok, rfl, rfl⟩, hlink, _, hproof, rfl⟩
          rw [Registry.resolved_referenceIdPlusOneByLink] at hlink
          rw [← hxy] at hproof
          exact ⟨u, unit, rfl, hu, ⟨hmeta, hng, hkey, (verifyProof_eq_ok E).mp hproof⟩, hok, hlink,
            rfl⟩
        · rintro ⟨_, unit', rfl, hu', ⟨hmeta, hng, hkey, hproof⟩, hok, hlink, rfl⟩
          cases hu.symm.trans hu'
          refine ⟨hmeta, Nat.succ_ne_zero _, hng, _, _, ⟨hkey, rfl⟩, _, _, ⟨hok, rfl, rfl⟩, ?_, (),
            (verifyProof_eq_ok E).mpr hproof, rfl⟩
          rw [Registry.resolved_referenceIdPlusOneByLink]
          exact hlink

/-! ## Messages -/

theorem call_eq_ok : call E d now data s = .ok s' ↔
    (∃ a, E.decode data = some (.register a) ∧ register E d now data a s = .ok s') ∨
      ∃ a, E.decode data = some (.refer a) ∧ refer E d now data a s = .ok s' := by
  unfold call
  rcases E.decode data with _ | (a | a)
  · simp
  · simp
  · simp

theorem Registry.Indexed.registered (hs : s.Indexed) (now : Nat) (data : Bytes)
    (a : RegisterArgs) : (s.registered E now data a).Indexed := by
  have hfold : ∀ (unitId : Nat) (ms : List Member) (s : Registry), s.Indexed →
      (ms.foldl (Registry.admitted E now unitId) s).Indexed := by
    intro unitId ms
    induction ms with
    | nil => exact fun _ h => h
    | cons m ms ih => exact fun s h => ih _ (h.admitted now _ m)
  exact hfold _ a.members (s.openUnit _ _) hs

theorem Reachable.indexed (h : Reachable E d s) : s.Indexed := by
  induction h with
  | empty => exact fun _ => Nat.le_refl 0
  | call _ hcall ih =>
      rcases call_eq_ok.mp hcall with ⟨a, _, ha⟩ | ⟨a, _, ha⟩
      · obtain ⟨_, _, _, rfl⟩ := (register_eq_ok ih).mp ha
        exact ih.registered _ _ a
      · obtain ⟨_, _, _, _, _, _, _, rfl⟩ := refer_eq_ok.mp ha
        exact fun h => ih.resolved _ a.member h

/-- Induction over the accepted writes, each with everything its acceptance says. -/
theorem Reachable.induction {P : Registry → Prop} (hempty : P Registry.empty)
    (hregister : ∀ s now data a, Reachable E d s → P s → E.decode data = some (.register a) →
      RegisterOk E d a → s.unitIdPlusOneByGroupKey (E.keccak256 a.groupPublicKey) = 0 →
      (∀ m ∈ a.members, EntryOk E s m) → P (s.registered E now data a))
    (hrefer : ∀ s now data a unitId unit, Reachable E d s → P s →
      E.decode data = some (.refer a) →
      s.unitIdPlusOneByGroupKey (E.keccak256 a.groupPublicKey) = unitId + 1 →
      s.units[unitId]? = some unit → ReferOk E d unit.rpId a → EntryOk E s a.member →
      s.referenceIdPlusOneByLink unitId (s.resolvedId E a.member) = 0 →
      P (s.referred E now data unitId a))
    (h : Reachable E d s) : P s := by
  induction h with
  | empty => exact hempty
  | call hs hcall ih =>
      rcases call_eq_ok.mp hcall with ⟨a, hdec, ha⟩ | ⟨a, hdec, ha⟩
      · obtain ⟨hok, hfree, hentries, rfl⟩ := (register_eq_ok hs.indexed).mp ha
        exact hregister _ _ _ a hs ih hdec hok hfree hentries
      · obtain ⟨u, unit, hu, hunit, hok, hentry, hlink, rfl⟩ := refer_eq_ok.mp ha
        exact hrefer _ _ _ a u unit hs ih hdec hu hunit hok hentry hlink

end P256Index.Contract
