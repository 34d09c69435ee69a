import P256Index.Contract.Record
import P256Index.Contract.Sample

/-!
# What a reader of the registry may rely on

Two results about every reachable state, in terms of the stored bytes rather than of hashes. The
hash enters as `Set.InjOn`: no two different strings among those the registry hashed
(`Registry.hashed`) share a digest. No function to 32 bytes is injective outright.

* `tables_agree` — the tables and the indexes describe each other;
* `rows_authorized` — every row is recomputable from the stored data and signed by the keys it
  names, the proofs being those of the stored payload.
-/

namespace P256Index.Contract

variable {E : Evm} {d : Domain} {s : Registry}

variable (E) in
/-- The strings behind the hashes a state holds or was checked against: keys and attestations of the
rows and of the payloads, and the content-hash preimages. -/
def Registry.hashed (s : Registry) : Set Bytes :=
  {b | (∃ e ∈ s.entries, b = e.publicKey ∨ b = e.attestation) ∨
    (∃ i a, i < s.units.length ∧ E.decode (s.registerPayload i) = some (.register a) ∧
      (b = a.groupPublicKey ∨
        b = contentPreimage a.rpId a.metadata a.groupPublicKey
          (a.members.map fun m => memberHash E m.publicKey m.attestation) ∨
        ∃ m ∈ a.members, b = m.publicKey ∨ b = m.attestation)) ∨
    (∃ i a, i < s.references.length ∧ E.decode (s.referPayload i) = some (.refer a) ∧
      (b = a.groupPublicKey ∨ b = a.member.publicKey ∨ b = a.member.attestation))}

theorem Registry.hashed_entry {e : Entry} (he : e ∈ s.entries) :
    e.publicKey ∈ s.hashed E ∧ e.attestation ∈ s.hashed E :=
  ⟨Or.inl ⟨e, he, Or.inl rfl⟩, Or.inl ⟨e, he, Or.inr rfl⟩⟩

theorem UnitRecord.hashed_group {i now : Nat} {a : RegisterArgs} (h : UnitRecord E d s i a now) :
    a.groupPublicKey ∈ s.hashed E :=
  Or.inr (Or.inl ⟨i, a, h.lt_length, h.payload, Or.inl rfl⟩)

theorem UnitRecord.hashed_content {i now : Nat} {a : RegisterArgs} (h : UnitRecord E d s i a now) :
    contentPreimage a.rpId a.metadata a.groupPublicKey
      (a.members.map fun m => memberHash E m.publicKey m.attestation) ∈ s.hashed E :=
  Or.inr (Or.inl ⟨i, a, h.lt_length, h.payload, Or.inr (Or.inl rfl)⟩)

theorem UnitRecord.hashed_member {i now : Nat} {a : RegisterArgs} {m : Member}
    (h : UnitRecord E d s i a now) (hm : m ∈ a.members) :
    m.publicKey ∈ s.hashed E ∧ m.attestation ∈ s.hashed E :=
  ⟨Or.inr (Or.inl ⟨i, a, h.lt_length, h.payload, Or.inr (Or.inr ⟨m, hm, Or.inl rfl⟩)⟩),
    Or.inr (Or.inl ⟨i, a, h.lt_length, h.payload, Or.inr (Or.inr ⟨m, hm, Or.inr rfl⟩)⟩)⟩

/-- A filed member is its entry, byte for byte, where the hash does not collide. -/
theorem Filed.entry_eq {S : Set Bytes} {m : Member} {i : Nat} (hc : Consistent E s)
    (hS : Set.InjOn E.keccak256 S) (hsub : s.hashed E ⊆ S) (hm : Filed E s m i)
    (hkey : m.publicKey ∈ S) (hatt : m.attestation ∈ S) :
    ∃ e, s.entries[i]? = some e ∧ e.publicKey = m.publicKey ∧ e.attestation = m.attestation := by
  obtain ⟨hi, e, he, hmatch, -⟩ := hm
  obtain ⟨e', he', hk⟩ := (hc.keys _ _).mp hi
  cases he.symm.trans he'
  obtain ⟨hpk, hea⟩ := Registry.hashed_entry (E := E) (List.mem_of_getElem? he)
  exact ⟨e, he, hS (hsub hpk) hkey hk, hS (hsub hea) hatt hmatch⟩

/-! ## Agreement of the tables -/

variable (E) in
/-- The tables and indexes describe each other; `S` bounds the strings whose digests are looked
up. -/
structure TablesAgree (S : Set Bytes) (s : Registry) : Prop where
  entry_key_unique : ∀ (i j : Nat) (e e' : Entry), s.entries[i]? = some e →
    s.entries[j]? = some e' → e.publicKey = e'.publicKey → i = j
  group_key_unique : ∀ (i j : Nat) (u u' : GroupUnit), s.units[i]? = some u →
    s.units[j]? = some u' → u.groupPublicKey = u'.groupPublicKey → i = j
  content_hash_unique : ∀ (i j : Nat) (u u' : GroupUnit), s.units[i]? = some u →
    s.units[j]? = some u' → u.contentHash = u'.contentHash → i = j
  key_index : ∀ k ∈ S, ∀ i, s.entryIdPlusOneByKey (E.keccak256 k) = i + 1 ↔
    ∃ e, s.entries[i]? = some e ∧ e.publicKey = k
  group_index : ∀ k ∈ S, ∀ i, s.unitIdPlusOneByGroupKey (E.keccak256 k) = i + 1 ↔
    ∃ u, s.units[i]? = some u ∧ u.groupPublicKey = k
  content_index : ∀ h i, s.unitIdPlusOneByContent h = i + 1 ↔
    ∃ u, s.units[i]? = some u ∧ u.contentHash = h
  member_list_nodup : ∀ u, (s.groupEntryIds u).Nodup
  member_count : ∀ i u, s.units[i]? = some u →
    (s.groupEntryIds i).length = u.memberCount ∧ 1 ≤ u.memberCount ∧ u.memberCount ≤ 7
  member_lists : ∀ u e, (e ∈ s.groupEntryIds u ↔ s.isMemberLink u e = true) ∧
    (u ∈ s.entryUnitIds e ↔ s.isMemberLink u e = true)
  member_rows : ∀ u e, s.isMemberLink u e = true → u < s.units.length ∧ e < s.entries.length
  reference_unique : ∀ (i j : Nat) (r r' : Reference), s.references[i]? = some r →
    s.references[j]? = some r' → r.unitId = r'.unitId → r.entryId = r'.entryId → i = j
  references_by_link : ∀ u e i, s.referenceIdPlusOneByLink u e = i + 1 ↔
    ∃ r, s.references[i]? = some r ∧ r.unitId = u ∧ r.entryId = e
  references_by_entry : ∀ e,
    s.referenceIdsByEntry e = idsWhere (fun r => r.entryId = e) s.references
  references_by_unit : ∀ u,
    s.referenceIdsByUnit u = idsWhere (fun r => r.unitId = u) s.references
  rpIds_nodup : s.rpIds.Nodup
  units_by_rpId : ∀ rpId, s.unitIdsByRpId rpId = idsWhere (fun u => u.rpId = rpId) s.units
  rpIds_partition : ∀ i < s.units.length, ∃! rpId, rpId ∈ s.rpIds ∧ i ∈ s.unitIdsByRpId rpId
  rpIds_used : ∀ rpId ∈ s.rpIds, s.unitIdsByRpId rpId ≠ []
  entry_owned : ∀ e < s.entries.length,
    (∃ u < s.units.length, e ∈ s.groupEntryIds u) ∨ ∃ r ∈ s.references, r.entryId = e

/-- Two units with one content hash are one unit: the hash covers the group key. -/
theorem content_hash_unique {i j : Nat} {u u' : GroupUnit} (h : Reachable E d s)
    (hS : Set.InjOn E.keccak256 (s.hashed E)) (hu : s.units[i]? = some u)
    (hu' : s.units[j]? = some u') (heq : u.contentHash = u'.contentHash) : i = j := by
  obtain ⟨a, now, ha⟩ := h.recorded.units i (List.getElem?_eq_some_iff.mp hu).1
  obtain ⟨a', now', ha'⟩ := h.recorded.units j (List.getElem?_eq_some_iff.mp hu').1
  cases hu.symm.trans ha.row
  cases hu'.symm.trans ha'.row
  have hpre := hS ha.hashed_content ha'.hashed_content
    (by rw [← contentHashFor_eq, ← contentHashFor_eq]; exact heq)
  have hrp := ha.ok.rpId.2
  have hmeta := ha.ok.metadata
  have hgk := ha.ok.group_key.length_eq
  have hn := ha.ok.members_le
  simp only [maxRpIdLength, maxMetadataLength, uncompressedP256KeyLength, maxMembers] at *
  obtain ⟨-, -, hgpk, -⟩ := contentPreimage_injective (by omega) (by omega) (by omega)
    (by rw [List.length_map]; omega) hpre
  exact h.consistent.groups.unique ha.row ha'.row (congrArg E.keccak256 hgpk)

theorem member_count {i : Nat} {u : GroupUnit} (h : Reachable E d s) (hu : s.units[i]? = some u) :
    (s.groupEntryIds i).length = u.memberCount ∧ 1 ≤ u.memberCount ∧ u.memberCount ≤ 7 := by
  obtain ⟨a, now, ha⟩ := h.recorded.units i (List.getElem?_eq_some_iff.mp hu).1
  cases hu.symm.trans ha.row
  have hlen := ha.members.length_eq
  have hpos := ha.ok.members_pos
  have hle := ha.ok.members_le
  simp only [maxMembers, RegisterArgs.unit] at *
  omega

theorem rpIds_partition {i : Nat} (hc : Consistent E s) (hi : i < s.units.length) :
    ∃! rpId, rpId ∈ s.rpIds ∧ i ∈ s.unitIdsByRpId rpId := by
  obtain ⟨u, hu⟩ : ∃ u, s.units[i]? = some u := ⟨s.units[i], List.getElem?_eq_getElem hi⟩
  refine ⟨u.rpId, ⟨?_, ?_⟩, ?_⟩
  · exact (hc.mem_rpIds _).mpr ⟨u, List.mem_of_getElem? hu, rfl⟩
  · exact hc.by_rpId.mem.mpr ⟨u, hu, rfl⟩
  · rintro rpId ⟨-, hmem⟩
    obtain ⟨u', hu', hrp⟩ := hc.by_rpId.mem.mp hmem
    cases hu.symm.trans hu'
    exact hrp.symm

/-- In every reachable state the tables and the indexes agree, for every set of strings without
collisions that covers the hashed ones. -/
theorem tables_agree (h : Reachable E d s) (S : Set Bytes) (hS : Set.InjOn E.keccak256 S)
    (hsub : s.hashed E ⊆ S) : TablesAgree E S s where
  entry_key_unique i j e e' he he' hk := h.consistent.keys.unique he he' (congrArg E.keccak256 hk)
  group_key_unique i j u u' hu hu' hk :=
    h.consistent.groups.unique hu hu' (congrArg E.keccak256 hk)
  content_hash_unique i j u u' := content_hash_unique h (hS.mono hsub)
  key_index := by
    intro k hk i
    rw [h.consistent.keys]
    constructor
    · rintro ⟨e, he, hek⟩
      have hmem := (Registry.hashed_entry (E := E) (List.mem_of_getElem? he)).1
      exact ⟨e, he, hS (hsub hmem) hk hek⟩
    · rintro ⟨e, he, rfl⟩
      exact ⟨e, he, rfl⟩
  group_index := by
    intro k hk i
    rw [h.consistent.groups]
    constructor
    · rintro ⟨u, hu, huk⟩
      obtain ⟨a, now, ha⟩ := h.recorded.units i (List.getElem?_eq_some_iff.mp hu).1
      cases hu.symm.trans ha.row
      exact ⟨_, hu, hS (hsub ha.hashed_group) hk huk⟩
    · rintro ⟨u, hu, rfl⟩
      exact ⟨u, hu, rfl⟩
  content_index := by
    intro c i
    refine ⟨h.consistent.content_some c i, ?_⟩
    rintro ⟨u, hu, rfl⟩
    have hne := h.consistent.content_ne_zero u (List.mem_of_getElem? hu)
    obtain ⟨j, hj⟩ := Nat.exists_eq_succ_of_ne_zero hne
    obtain ⟨u', hu', hc⟩ := h.consistent.content_some _ j hj
    rw [hj, content_hash_unique h (hS.mono hsub) hu' hu hc]
  member_list_nodup := h.consistent.members.nodup_fwd
  member_count i u := member_count h
  member_lists u e := ⟨h.consistent.members.mem_fwd u e, h.consistent.members.mem_bwd u e⟩
  member_rows := h.consistent.member_lt
  reference_unique i j r r' hr hr' hu he :=
    h.consistent.links.unique hr hr' (Prod.ext hu he)
  references_by_link u e i := by
    rw [h.consistent.links (u, e) i]
    simp only [Prod.mk.injEq]
  references_by_entry := h.consistent.by_entry
  references_by_unit := h.consistent.by_unit
  rpIds_nodup := h.consistent.rpIds_nodup
  units_by_rpId := h.consistent.by_rpId
  rpIds_partition i hi := rpIds_partition h.consistent hi
  rpIds_used rpId hrp hnil := by
    obtain ⟨u, hu, hurp⟩ := (h.consistent.mem_rpIds rpId).mp hrp
    exact h.consistent.by_rpId.eq_nil_iff.mp hnil u hu hurp
  entry_owned e he := by
    rcases h.owned e he with ⟨u, hu⟩ | hr
    · exact Or.inl ⟨u, (h.consistent.member_lt u e hu).1, (h.consistent.members.mem_fwd u e).mpr hu⟩
    · exact Or.inr hr

/-- The recorded history hashes recorded strings only. -/
theorem hashed_referred : Sample.referred.hashed Sample.evm ⊆ Sample.hashedStrings := by
  have hmember : Sample.memberKey ∈ Sample.hashedStrings ∧
      Sample.attestation ∈ Sample.hashedStrings :=
    ⟨Sample.mem_hashedStrings (List.mem_of_getElem? (i := 1) rfl),
      Sample.mem_hashedStrings (List.mem_of_getElem? (i := 4) rfl)⟩
  have hdevice : Sample.deviceKey ∈ Sample.hashedStrings ∧ [] ∈ Sample.hashedStrings :=
    ⟨Sample.mem_hashedStrings (List.mem_of_getElem? (i := 3) rfl),
      Sample.mem_hashedStrings (List.mem_of_getElem? (i := 5) rfl)⟩
  have hgroup : Sample.groupKey ∈ Sample.hashedStrings :=
    Sample.mem_hashedStrings (List.mem_of_getElem? (i := 0) rfl)
  rintro b (⟨e, he, hb⟩ | ⟨i, a, hi, hdec, hb⟩ | ⟨i, a, hi, hdec, hb⟩)
  · rw [Sample.referred_entries] at he
    rcases List.mem_pair.mp he with rfl | rfl
    · rcases hb with rfl | rfl
      · exact hmember.1
      · exact hmember.2
    · rcases hb with rfl | rfl
      · exact hdevice.1
      · exact hdevice.2
  · rw [Sample.referred_units, List.length_singleton] at hi
    obtain rfl : i = 0 := by omega
    cases hdec.symm.trans Sample.decode_registerData
    rcases hb with rfl | rfl | ⟨m, hm, hb⟩
    · exact hgroup
    · exact Sample.mem_hashedStrings Sample.content_row
    · cases List.mem_singleton.mp hm
      rcases hb with rfl | rfl
      · exact hmember.1
      · exact hmember.2
  · rw [Sample.referred_references] at hi
    obtain rfl : i = 0 := by omega
    cases hdec.symm.trans Sample.decode_referData
    rcases hb with rfl | rfl | rfl
    · exact hgroup
    · exact hdevice.1
    · exact hdevice.2

theorem tables_agree_referred : Sample.referred.units.length = 1 ∧
    Sample.referred.references.length = 1 ∧
      TablesAgree Sample.evm Sample.hashedStrings Sample.referred :=
  ⟨by decide +kernel, by decide +kernel,
    tables_agree Sample.reachable_referred _ Sample.keccak256_injOn hashed_referred⟩

/-! ## Authorization of the rows -/

/-- The entries of a unit's members, in member-list order. -/
def Registry.memberEntries (s : Registry) (i : Nat) : List Entry :=
  (s.groupEntryIds i).filterMap fun e => s.entries[e]?

variable (E d) in
/-- A proof under `publicKey` that was accepted for `binding`. -/
def Accepted (proof : Proof) (rpId publicKey : Bytes) (binding : Bytes32) : Prop :=
  validatePublicKey publicKey = .ok (coordinates publicKey) ∧
    verifyProof E proof (challengeFor E d rpId publicKey binding) rpId (coordinates publicKey) =
      .ok ()

variable (E d) in
/-- A unit can be recomputed from what is stored, and the proofs of its stored call are the
authorization of its group key and of each member. -/
structure UnitAuthorized (s : Registry) (i : Nat) (u : GroupUnit) (a : RegisterArgs) : Prop where
  payload : E.decode (s.registerPayload i) = some (.register a)
  member_rows : (s.memberEntries i).length = (s.groupEntryIds i).length
  content_hash : u.contentHash = contentHashOf E u.rpId u.metadata u.groupPublicKey
    ((s.memberEntries i).map fun e => (e.publicKey, e.attestation))
  group : Accepted E d a.groupProof u.rpId u.groupPublicKey u.contentHash
  members : List.Forall₂ (fun (m : Member) (e : Entry) => m.publicKey = e.publicKey ∧
    Accepted E d m.proof u.rpId e.publicKey (memberBindingFor E u.groupPublicKey e.attestation))
    a.members (s.memberEntries i)

variable (E d) in
/-- The proof of a reference's stored call is the authorization of its entry's key, for the group,
the entry's attestation and the stored metadata. -/
structure ReferenceAuthorized (s : Registry) (i : Nat) (r : Reference) (a : ReferArgs)
    (u : GroupUnit) (e : Entry) : Prop where
  payload : E.decode (s.referPayload i) = some (.refer a)
  unit_row : s.units[r.unitId]? = some u
  entry_row : s.entries[r.entryId]? = some e
  key : a.member.publicKey = e.publicKey
  member : Accepted E d a.member.proof u.rpId e.publicKey
    (referenceBindingFor E u.groupPublicKey e.attestation r.metadata)

theorem accepted_of {proof : Proof} {rpId publicKey : Bytes} {binding : Bytes32}
    (hkey : ValidKey publicKey)
    (hproof : ProofOk E proof (challengeFor E d rpId publicKey binding) rpId
      (coordinates publicKey)) : Accepted E d proof rpId publicKey binding :=
  ⟨validatePublicKey_eq_ok.mpr ⟨hkey, rfl⟩, (verifyProof_eq_ok E).mpr hproof⟩

/-- Members and the entries filed for them correspond one to one. -/
theorem forall₂_memberEntries {ms : List Member} {ids : List Nat} {R : Member → Entry → Prop}
    (h : List.Forall₂ (fun m i => ∃ e, s.entries[i]? = some e ∧ R m e) ms ids) :
    List.Forall₂ R ms (ids.filterMap fun e => s.entries[e]?) := by
  induction h with
  | nil => exact .nil
  | cons hm _ ih =>
      obtain ⟨e, he, hR⟩ := hm
      rw [List.filterMap_cons_some he]
      exact .cons hR ih

/-- The members of a unit's call are the stored entries of its members, in order. -/
theorem UnitRecord.memberEntries {i now : Nat} {a : RegisterArgs} (ha : UnitRecord E d s i a now)
    (hc : Consistent E s) (hS : Set.InjOn E.keccak256 (s.hashed E)) :
    List.Forall₂ (fun (m : Member) (e : Entry) => m ∈ a.members ∧ e.publicKey = m.publicKey ∧
      e.attestation = m.attestation) a.members (s.memberEntries i) := by
  apply forall₂_memberEntries
  have hmem : List.Forall₂ (fun (m : Member) i => m ∈ a.members ∧ Filed E s m i) a.members
      (s.groupEntryIds i) :=
    List.forall₂_iff_zip.mpr ⟨ha.members.length_eq, fun hz =>
      ⟨(List.of_mem_zip hz).1, (List.forall₂_iff_zip.mp ha.members).2 hz⟩⟩
  refine hmem.imp fun m id hm => ?_
  obtain ⟨hkey, hatt⟩ := ha.hashed_member hm.1
  obtain ⟨e, he, hpk, hat⟩ := hm.2.entry_eq hc hS subset_rfl hkey hatt
  exact ⟨e, he, hm.1, hpk, hat⟩

theorem unit_authorized {i : Nat} {u : GroupUnit} (h : Reachable E d s)
    (hS : Set.InjOn E.keccak256 (s.hashed E)) (hu : s.units[i]? = some u) :
    ∃ a, UnitAuthorized E d s i u a := by
  obtain ⟨a, now, ha⟩ := h.recorded.units i (List.getElem?_eq_some_iff.mp hu).1
  cases hu.symm.trans ha.row
  have hsame := ha.memberEntries h.consistent hS
  refine ⟨a, ha.payload, ?_, ?_, ?_, ?_⟩
  · rw [← hsame.length_eq, ha.members.length_eq]
  · show contentHashFor E a.rpId a.metadata a.groupPublicKey a.members = _
    have hpairs : List.Forall₂ (· = ·) (a.members.map fun m => (m.publicKey, m.attestation))
        ((s.memberEntries i).map fun e => (e.publicKey, e.attestation)) :=
      List.forall₂_map_left_iff.mpr (List.forall₂_map_right_iff.mpr
        (hsame.imp fun m e hm => Prod.ext hm.2.1.symm hm.2.2.symm))
    rw [List.forall₂_eq_eq_eq] at hpairs
    rw [contentHashFor, hpairs]
    rfl
  · exact accepted_of ha.ok.group_key ha.ok.group_proof
  · refine hsame.imp fun m e hm => ⟨hm.2.1.symm, ?_⟩
    have hok := ha.ok.members m hm.1
    rw [hm.2.1, hm.2.2]
    exact accepted_of hok.key hok.proof

theorem ReferenceRecord.hashed {i : Nat} {a : ReferArgs} {r : Reference} {u : GroupUnit}
    (ha : ReferenceRecord E d s i a r u) {b : Bytes}
    (hb : b = a.groupPublicKey ∨ b = a.member.publicKey ∨ b = a.member.attestation) :
    b ∈ s.hashed E :=
  Or.inr (Or.inr ⟨i, a, (List.getElem?_eq_some_iff.mp ha.row).1, ha.payload, hb⟩)

/-- The member of a reference's call is the stored entry. -/
theorem ReferenceRecord.entry_eq {i : Nat} {a : ReferArgs} {r : Reference} {u : GroupUnit}
    (ha : ReferenceRecord E d s i a r u) (hc : Consistent E s)
    (hS : Set.InjOn E.keccak256 (s.hashed E)) :
    ∃ e, s.entries[r.entryId]? = some e ∧ e.publicKey = a.member.publicKey ∧
      e.attestation = a.member.attestation :=
  ha.member.entry_eq hc hS subset_rfl (ha.hashed (Or.inr (Or.inl rfl)))
    (ha.hashed (Or.inr (Or.inr rfl)))

/-- The group named by a reference's call is its unit's. -/
theorem ReferenceRecord.group_eq {i : Nat} {a : ReferArgs} {r : Reference} {u : GroupUnit}
    (ha : ReferenceRecord E d s i a r u) (h : Reachable E d s)
    (hS : Set.InjOn E.keccak256 (s.hashed E)) : u.groupPublicKey = a.groupPublicKey := by
  obtain ⟨u', hu', hk⟩ := (h.consistent.groups _ _).mp ha.group
  cases ha.unit_row.symm.trans hu'
  obtain ⟨b, now, hb⟩ := h.recorded.units _ (List.getElem?_eq_some_iff.mp hu').1
  cases hu'.symm.trans hb.row
  exact hS hb.hashed_group (ha.hashed (Or.inl rfl)) hk

theorem reference_authorized {i : Nat} {r : Reference} (h : Reachable E d s)
    (hS : Set.InjOn E.keccak256 (s.hashed E)) (hr : s.references[i]? = some r) :
    ∃ a u e, ReferenceAuthorized E d s i r a u e := by
  obtain ⟨a, r', u, ha⟩ := h.recorded.references i (List.getElem?_eq_some_iff.mp hr).1
  cases hr.symm.trans ha.row
  obtain ⟨e, he, hpk, hat⟩ := ha.entry_eq h.consistent hS
  refine ⟨a, u, e, ha.payload, ha.unit_row, he, hpk.symm, ?_⟩
  rw [hpk, hat, ha.group_eq h hS, ha.metadata]
  exact accepted_of ha.ok.key ha.ok.proof

/-- In every reachable state every row is authorized by the keys it names and stays recomputable
from what is stored. -/
theorem rows_authorized (h : Reachable E d s) (hS : Set.InjOn E.keccak256 (s.hashed E)) :
    (∀ i u, s.units[i]? = some u → ∃ a, UnitAuthorized E d s i u a) ∧
      ∀ i r, s.references[i]? = some r → ∃ a u e, ReferenceAuthorized E d s i r a u e :=
  ⟨fun _ _ hu => unit_authorized h hS hu, fun _ _ hr => reference_authorized h hS hr⟩

theorem rows_authorized_referred :
    (∃ a, UnitAuthorized Sample.evm Sample.domain Sample.referred 0
      (Sample.registerArgs.unit Sample.evm 0) a) ∧
      ∃ a u e, ReferenceAuthorized Sample.evm Sample.domain Sample.referred 0
        { entryId := 1, unitId := 0, metadata := [0xaa], createdAt := 0 } a u e := by
  have hauth := rows_authorized Sample.reachable_referred
    (Sample.keccak256_injOn.mono hashed_referred)
  exact ⟨hauth.1 0 _ (by decide +kernel), hauth.2 0 _ (by decide +kernel)⟩

end P256Index.Contract
