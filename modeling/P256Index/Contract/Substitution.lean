import P256Index.Contract.Record
import P256Index.Contract.Sample

/-!
# What a proof fixes

A proof holds the text of one challenge, and a challenge is a hash of what its key signs: the group
key signs the content hash, a referring key signs its group, attestation and metadata. So two
accepted calls with the same proofs agree on everything that is signed, and leave registries that
differ at most in what is not: the credential id and the two hints of entries that the call itself
creates (`same_proofs_same_records`). Those three fields are stored, not signed, and anyone who sees
a call can change them before it lands (`not_noSubstitution`).
-/

namespace P256Index.Contract

variable {E : Evm} {d : Domain} {s t t' : Registry} {now now' : Nat} {data data' : Bytes}

/-! ## Registries that differ in unsigned fields only -/

/-- The part of an entry its key signs. -/
def Entry.signed (e : Entry) : Bytes × Bytes := (e.publicKey, e.attestation)

/-- A unit without its block time. -/
def GroupUnit.frozen (u : GroupUnit) : GroupUnit := { u with createdAt := 0 }

/-- A reference without its block time. -/
def Reference.frozen (r : Reference) : Reference := { r with createdAt := 0 }

/-- The same units, memberships, references and indexes, and entries with the same signed part. -/
structure Alike (t t' : Registry) : Prop where
  entries : t.entries.map Entry.signed = t'.entries.map Entry.signed
  units : t.units.map GroupUnit.frozen = t'.units.map GroupUnit.frozen
  references : t.references.map Reference.frozen = t'.references.map Reference.frozen
  entryIdPlusOneByKey : t.entryIdPlusOneByKey = t'.entryIdPlusOneByKey
  unitIdPlusOneByGroupKey : t.unitIdPlusOneByGroupKey = t'.unitIdPlusOneByGroupKey
  unitIdPlusOneByContent : t.unitIdPlusOneByContent = t'.unitIdPlusOneByContent
  groupEntryIds : t.groupEntryIds = t'.groupEntryIds
  entryUnitIds : t.entryUnitIds = t'.entryUnitIds
  isMemberLink : t.isMemberLink = t'.isMemberLink
  referenceIdsByEntry : t.referenceIdsByEntry = t'.referenceIdsByEntry
  referenceIdsByUnit : t.referenceIdsByUnit = t'.referenceIdsByUnit
  referenceIdPlusOneByLink : t.referenceIdPlusOneByLink = t'.referenceIdPlusOneByLink
  rpIds : t.rpIds = t'.rpIds
  unitIdsByRpId : t.unitIdsByRpId = t'.unitIdsByRpId

namespace Alike

theorem refl (t : Registry) : Alike t t :=
  ⟨rfl, rfl, rfl, rfl, rfl, rfl, rfl, rfl, rfl, rfl, rfl, rfl, rfl, rfl⟩

theorem entries_length (h : Alike t t') : t.entries.length = t'.entries.length := by
  have := congrArg List.length h.entries
  simpa using this

theorem units_length (h : Alike t t') : t.units.length = t'.units.length := by
  have := congrArg List.length h.units
  simpa using this

theorem references_length (h : Alike t t') : t.references.length = t'.references.length := by
  have := congrArg List.length h.references
  simpa using this

theorem resolvedId (h : Alike t t') {m m' : Member} (hk : m.publicKey = m'.publicKey) :
    t.resolvedId E m = t'.resolvedId E m' := by
  have hhash : m.keyHash E = m'.keyHash E := congrArg E.keccak256 hk
  rw [Registry.resolvedId, Registry.resolvedId, h.entryIdPlusOneByKey, h.entries_length, hhash]

theorem resolved (h : Alike t t') {m m' : Member} (hk : m.publicKey = m'.publicKey)
    (ha : m.attestation = m'.attestation) :
    Alike (t.resolved E now m) (t'.resolved E now' m') := by
  have hhash : m.keyHash E = m'.keyHash E := congrArg E.keccak256 hk
  unfold Registry.resolved
  rw [h.entryIdPlusOneByKey, hhash]
  split
  · refine { h with entries := ?_, entryIdPlusOneByKey := ?_ }
    · simp only [Registry.pushEntry, List.map_append, h.entries, List.map_singleton, Entry.signed,
        Member.entry, hk, ha]
    · simp only [Registry.pushEntry, h.entryIdPlusOneByKey, h.entries_length]
  · exact h

theorem linkMember (h : Alike t t') (u e : Nat) : Alike (t.linkMember u e) (t'.linkMember u e) := by
  refine { h with groupEntryIds := ?_, entryUnitIds := ?_, isMemberLink := ?_ }
  · simp only [Registry.linkMember, h.groupEntryIds]
  · simp only [Registry.linkMember, h.entryUnitIds]
  · simp only [Registry.linkMember, h.isMemberLink]

theorem admitAll {ms ms' : List Member} (h : Alike t t') (now now' u : Nat)
    (hms : List.Forall₂ (fun m m' : Member => m.publicKey = m'.publicKey ∧
      m.attestation = m'.attestation) ms ms') :
    Alike (ms.foldl (Registry.admitted E now u) t) (ms'.foldl (Registry.admitted E now' u) t') := by
  induction hms generalizing t t' with
  | nil => exact h
  | cons hm _ ih =>
      apply ih
      unfold Registry.admitted
      rw [h.resolvedId hm.1]
      exact (h.resolved hm.1 hm.2).linkMember _ _

theorem openUnit (h : Alike t t') {k : Bytes32} {u u' : GroupUnit} (hu : u.frozen = u'.frozen) :
    Alike (t.openUnit k u) (t'.openUnit k u') := by
  have hc : u.contentHash = u'.contentHash := (GroupUnit.mk.inj hu).2.2.2.1
  have hrp : u.rpId = u'.rpId := (GroupUnit.mk.inj hu).1
  refine { h with
    units := ?_, unitIdPlusOneByGroupKey := ?_, unitIdPlusOneByContent := ?_, rpIds := ?_,
    unitIdsByRpId := ?_ }
  · simp only [Registry.openUnit, List.map_append, h.units, List.map_singleton, hu]
  · simp only [Registry.openUnit, h.unitIdPlusOneByGroupKey, h.units_length]
  · simp only [Registry.openUnit, h.unitIdPlusOneByContent, h.units_length, hc]
  · simp only [Registry.openUnit, h.rpIds, h.unitIdsByRpId, hrp]
  · simp only [Registry.openUnit, h.unitIdsByRpId, h.units_length, hrp]

theorem registered {a a' : RegisterArgs} (h : Alike t t')
    (hu : (a.unit E now).frozen = (a'.unit E now').frozen)
    (hms : List.Forall₂ (fun m m' : Member => m.publicKey = m'.publicKey ∧
      m.attestation = m'.attestation) a.members a'.members) :
    Alike (t.registered E now data a) (t'.registered E now' data' a') := by
  have hg : a.groupPublicKey = a'.groupPublicKey := (GroupUnit.mk.inj hu).2.2.1
  have hfold := (h.openUnit (k := E.keccak256 a.groupPublicKey) hu).admitAll
    (E := E) now now' t.units.length hms
  obtain ⟨h1, h2, h3, h4, h5, h6, h7, h8, h9, h10, h11, h12, h13, h14⟩ := hfold
  unfold Registry.registered
  rw [← h.units_length, ← hg]
  exact ⟨h1, h2, h3, h4, h5, h6, h7, h8, h9, h10, h11, h12, h13, h14⟩

theorem pushReference (h : Alike t t') {r r' : Reference} (hr : r.frozen = r'.frozen) :
    Alike (t.pushReference r data) (t'.pushReference r' data') := by
  have he : r.entryId = r'.entryId := (Reference.mk.inj hr).1
  have hu : r.unitId = r'.unitId := (Reference.mk.inj hr).2.1
  refine { h with
    references := ?_, referenceIdsByEntry := ?_, referenceIdsByUnit := ?_,
    referenceIdPlusOneByLink := ?_ }
  · simp only [Registry.pushReference, List.map_append, h.references, List.map_singleton, hr]
  · simp only [Registry.pushReference, h.referenceIdsByEntry, h.references_length, he]
  · simp only [Registry.pushReference, h.referenceIdsByUnit, h.references_length, hu]
  · simp only [Registry.pushReference, h.referenceIdPlusOneByLink, h.references_length, he, hu]

end Alike

/-! ## What the proofs determine -/

/-- Two calls of one kind with the same keys and proofs. -/
def SameProofs : Call → Call → Prop
  | .register a, .register a' =>
      a.groupPublicKey = a'.groupPublicKey ∧ a.groupProof = a'.groupProof ∧
        a.members.map (fun m => (m.publicKey, m.proof)) =
          a'.members.map fun m => (m.publicKey, m.proof)
  | .refer a, .refer a' =>
      a.groupPublicKey = a'.groupPublicKey ∧ a.member.publicKey = a'.member.publicKey ∧
        a.member.proof = a'.member.proof
  | _, _ => False

variable (E d) in
/-- The strings whose hashes a call's proofs are checked against in the state `s`. -/
def Call.preimages (s : Registry) : Call → Set Bytes
  | .register a => {b |
      b = challengePreimage d a.rpId a.groupPublicKey
        (contentHashFor E a.rpId a.metadata a.groupPublicKey a.members) ∨
      b = contentPreimage a.rpId a.metadata a.groupPublicKey
        (a.members.map fun m => memberHash E m.publicKey m.attestation) ∨
      ∃ m ∈ a.members, b = pairPreimage m.publicKey m.attestation}
  | .refer a => {b |
      (∃ u ∈ s.units, b = challengePreimage d u.rpId a.member.publicKey
        (referenceBindingFor E a.groupPublicKey a.member.attestation a.metadata)) ∨
      b = triplePreimage a.groupPublicKey a.member.attestation a.metadata}

/-- Equal member hashes come from equal keys and attestations. -/
theorem members_of_memberHash {ms ms' : List Member} {S : Set Bytes}
    (hinj : Set.InjOn E.keccak256 S) (hfits : ∀ m ∈ ms, m.Fits)
    (hms : ∀ m ∈ ms, pairPreimage m.publicKey m.attestation ∈ S)
    (hms' : ∀ m ∈ ms', pairPreimage m.publicKey m.attestation ∈ S)
    (heq : ms.map (fun m => memberHash E m.publicKey m.attestation) =
      ms'.map fun m => memberHash E m.publicKey m.attestation) :
    List.Forall₂ (fun m m' : Member => m.publicKey = m'.publicKey ∧
      m.attestation = m'.attestation) ms ms' := by
  induction ms generalizing ms' with
  | nil =>
      rw [List.map_nil, eq_comm, List.map_eq_nil_iff] at heq
      rw [heq]
      exact .nil
  | cons m ms ih =>
      cases ms' with
      | nil => cases heq
      | cons m' ms' =>
          rw [List.map_cons, List.map_cons, List.cons.injEq] at heq
          rw [List.forall_mem_cons] at hfits hms hms'
          obtain ⟨hk, ha, -⟩ := hfits.1
          exact .cons (pairPreimage_injective hk ha (hinj hms.1 hms'.1 heq.1))
            (ih hfits.2 hms.2 hms'.2 heq.2)

/-- The group proof of an accepted `register` determines every signed field. -/
theorem register_determined {a a' : RegisterArgs} (now now' : Nat) (hfits : a.Fits)
    (hok : RegisterOk E d a) (hok' : RegisterOk E d a') (hproof : a.groupProof = a'.groupProof)
    (hinj : Set.InjOn E.keccak256
      ((Call.register a).preimages E d s ∪ (Call.register a').preimages E d s)) :
    (a.unit E now).frozen = (a'.unit E now').frozen ∧
      List.Forall₂ (fun m m' : Member => m.publicKey = m'.publicKey ∧
        m.attestation = m'.attestation) a.members a'.members := by
  obtain ⟨hrl, hml, hgl, -, hnl, hmf⟩ := hfits
  have hgp' := hok'.group_proof
  rw [← hproof] at hgp'
  -- one proof, one challenge
  have hchal := hinj (Or.inl (Or.inl rfl)) (Or.inr (Or.inl rfl))
    (hok.group_proof.challenge_unique E hgp')
  obtain ⟨-, hrp, hgk, hcontent⟩ := challengePreimage_injective hrl hgl hchal
  -- one content hash, one content
  have hpre := hcontent
  rw [contentHashFor_eq, contentHashFor_eq] at hpre
  have hpre := hinj (Or.inl (Or.inr (Or.inl rfl))) (Or.inr (Or.inr (Or.inl rfl))) hpre
  obtain ⟨-, hmeta, -, hhashes⟩ := contentPreimage_injective hrl hml hgl
    (by rw [List.length_map]; exact hnl) hpre
  have hms := members_of_memberHash hinj hmf
    (fun m hm => Or.inl (Or.inr (Or.inr ⟨m, hm, rfl⟩)))
    (fun m hm => Or.inr (Or.inr (Or.inr ⟨m, hm, rfl⟩))) hhashes
  refine ⟨?_, hms⟩
  rw [RegisterArgs.unit, RegisterArgs.unit, hcontent]
  simp only [GroupUnit.frozen, hrp, hmeta, hgk, hms.length_eq]

/-- The proof of an accepted `refer` determines every signed field. -/
theorem refer_determined {a a' : ReferArgs} {u u' : GroupUnit} (hfits : a.Fits)
    (hu : u ∈ s.units) (hu' : u' ∈ s.units) (hrp : u.rpId.length < 2 ^ 64)
    (hok : ReferOk E d u.rpId a) (hok' : ReferOk E d u'.rpId a')
    (hproof : a.member.proof = a'.member.proof)
    (hinj : Set.InjOn E.keccak256
      ((Call.refer a).preimages E d s ∪ (Call.refer a').preimages E d s)) :
    a.groupPublicKey = a'.groupPublicKey ∧ a.metadata = a'.metadata ∧
      a.member.publicKey = a'.member.publicKey ∧ a.member.attestation = a'.member.attestation := by
  obtain ⟨hgl, hml, hkl, hal, -⟩ := hfits
  have hp' := hok'.proof
  rw [← hproof] at hp'
  have hchal := hinj (Or.inl (Or.inl ⟨u, hu, rfl⟩)) (Or.inr (Or.inl ⟨u', hu', rfl⟩))
    (hok.proof.challenge_unique E hp')
  obtain ⟨-, -, hk, hbind⟩ := challengePreimage_injective hrp hkl hchal
  have hpre := hinj (Or.inl (Or.inr rfl)) (Or.inr (Or.inr rfl)) hbind
  obtain ⟨hg, ha, hm⟩ := triplePreimage_injective hgl hal hml hpre
  exact ⟨hg, hm, hk, ha⟩

/-! ## Two accepted calls with the same proofs -/

/-- Two calls with the same keys and proofs, both accepted in one state, leave the same registry up
to block times and the unsigned fields of entries created by the call. Entries that were there
before are untouched. -/
theorem same_proofs_same_records {c c' : Call} (hs : Reachable E d s)
    (hdec : E.decode data = some c) (hdec' : E.decode data' = some c') (hproofs : SameProofs c c')
    (hinj : Set.InjOn E.keccak256 (c.preimages E d s ∪ c'.preimages E d s))
    (hcall : call E d now data s = .ok t) (hcall' : call E d now' data' s = .ok t') :
    Alike t t' ∧ s.entries <+: t.entries ∧ s.entries <+: t'.entries := by
  cases c with
  | register a =>
      cases c' with
      | refer a' => exact hproofs.elim
      | register a' =>
          have hreg : register E d now data a s = .ok t := by simpa [call, hdec] using hcall
          have hreg' : register E d now' data' a' s = .ok t' := by simpa [call, hdec'] using hcall'
          obtain ⟨hok, hfree, -, rfl⟩ := (register_eq_ok hs.indexed).mp hreg
          obtain ⟨hok', hfree', -, rfl⟩ := (register_eq_ok hs.indexed).mp hreg'
          obtain ⟨hunit, hms⟩ :=
            register_determined now now' (E.decode_fits hdec) hok hok' hproofs.2.1 hinj
          exact ⟨(Alike.refl s).registered hunit hms, (Extends.registered now data hfree).entries,
            (Extends.registered now' data' hfree').entries⟩
  | refer a =>
      cases c' with
      | register a' => exact hproofs.elim
      | refer a' =>
          have href : refer E d now data a s = .ok t := by simpa [call, hdec] using hcall
          have href' : refer E d now' data' a' s = .ok t' := by simpa [call, hdec'] using hcall'
          obtain ⟨i, u, hi, hu, hok, -, -, rfl⟩ := refer_eq_ok.mp href
          obtain ⟨i', u', hi', hu', hok', -, -, rfl⟩ := refer_eq_ok.mp href'
          have hrp : u.rpId.length < 2 ^ 64 := by
            obtain ⟨b, bt, hb⟩ := hs.recorded.units i (List.getElem?_eq_some_iff.mp hu).1
            cases hu.symm.trans hb.row
            have := hb.ok.rpId.2
            simp only [maxRpIdLength, RegisterArgs.unit] at *
            omega
          obtain ⟨hg, hmeta, hk, ha⟩ := refer_determined (E.decode_fits hdec)
            (List.mem_of_getElem? hu) (List.mem_of_getElem? hu') hrp hok hok' hproofs.2.2 hinj
          have hii : i = i' := by
            rw [hg, hi'] at hi
            omega
          subst hii
          refine ⟨?_, (Extends.referred 0 s now data i a).entries,
            (Extends.referred 0 s now' data' i a').entries⟩
          apply ((Alike.refl s).resolved hk ha).pushReference
          simp only [Reference.frozen, hmeta, (Alike.refl s).resolvedId hk]

/-! ## The unsigned fields -/

namespace Sample

/-- The recorded call with another credential id and other hints. -/
def substitutedArgs : RegisterArgs :=
  { registerArgs with
    members := [{ member with
      credentialId := [2]
      authenticatorAttachment := [3]
      transports := [4] }] }

def substitutedData : Bytes := encodeCall (.register substitutedArgs)

def substituted : Registry := Registry.empty.registered evm 0 substitutedData substitutedArgs

theorem decode_substitutedData : evm.decode substitutedData = some (.register substitutedArgs) :=
  evm.decode_encodeCall (by decide +kernel)

theorem call_substitutedData :
    call evm domain 0 substitutedData Registry.empty = .ok substituted := by
  have hsigned : substitutedArgs.signed = registerArgs.signed := rfl
  have hok : RegisterOk evm domain substitutedArgs := by
    rw [← registerOk_signed, hsigned, registerOk_signed]
    exact registerArgs_ok
  apply call_eq_ok.mpr (Or.inl ⟨_, decode_substitutedData, _⟩)
  apply (register_eq_ok fun _ => Nat.le_refl 0).mpr ⟨hok, rfl, _, rfl⟩
  intro m hm
  rw [List.mem_singleton.mp hm]
  exact Or.inl ⟨rfl, by decide⟩

theorem sameProofs : SameProofs (.register registerArgs) (.register substitutedArgs) :=
  ⟨rfl, rfl, rfl⟩

/-- Both calls are checked against the same recorded strings. -/
theorem preimages_subset :
    (Call.register registerArgs).preimages evm domain Registry.empty ∪
      (Call.register substitutedArgs).preimages evm domain Registry.empty ⊆ hashedStrings := by
  rintro b ((rfl | rfl | ⟨m, hm, rfl⟩) | (rfl | rfl | ⟨m, hm, rfl⟩))
  · decide +kernel
  · decide +kernel
  · rw [List.mem_singleton.mp hm]
    decide +kernel
  · decide +kernel
  · decide +kernel
  · rw [List.mem_singleton.mp hm]
    decide +kernel

end Sample

theorem same_proofs_same_records_sample :
    call Sample.evm Sample.domain 0 Sample.registerData Registry.empty = .ok Sample.registered ∧
      call Sample.evm Sample.domain 0 Sample.substitutedData Registry.empty =
        .ok Sample.substituted ∧ Alike Sample.registered Sample.substituted :=
  ⟨Sample.call_registerData, Sample.call_substitutedData,
    (same_proofs_same_records Reachable.empty Sample.decode_registerData
      Sample.decode_substitutedData Sample.sameProofs
      (Sample.keccak256_injOn.mono Sample.preimages_subset) Sample.call_registerData
      Sample.call_substitutedData).1⟩

/-- An entry without its block time. -/
def Entry.stored (e : Entry) : Entry := { e with createdAt := 0 }

/-- Every stored byte is fixed by the proofs: what would hold if the credential id and the hints
were signed as well. -/
def NoSubstitution (E : Evm) (d : Domain) : Prop :=
  ∀ (s t t' : Registry) (now now' : Nat) (data data' : Bytes) (c c' : Call), Reachable E d s →
    E.decode data = some c → E.decode data' = some c' → SameProofs c c' →
    Set.InjOn E.keccak256 (c.preimages E d s ∪ c'.preimages E d s) →
    call E d now data s = .ok t → call E d now' data' s = .ok t' →
    Alike t t' ∧ t.entries.map Entry.stored = t'.entries.map Entry.stored

/-- It does not hold, with hashes that do not collide and a verifier that accepts a signature for
one message and key only. -/
theorem not_noSubstitution :
    Set.InjOn Sample.evm.keccak256 Sample.hashedStrings ∧
      Set.InjOn Sample.evm.sha256 {b | b ∈ Sample.sha256Rows.map Prod.fst} ∧
      (∀ (m m' : Bytes32) (r s x y x' y' : Nat),
        Sample.evm.p256Verifier (verifierInput m r s x y) = some (word 1) →
        Sample.evm.p256Verifier (verifierInput m' r s x' y') = some (word 1) →
          verifierInput m r s x y = verifierInput m' r s x' y') ∧
      ¬ NoSubstitution Sample.evm Sample.domain := by
  refine ⟨Sample.keccak256_injOn, Sample.sha256_injOn,
    fun _ _ _ _ _ _ _ _ h h' => Sample.p256Verifier_unique h h', fun hno => ?_⟩
  have hentries := (hno _ _ _ 0 0 _ _ _ _ Reachable.empty Sample.decode_registerData
    Sample.decode_substitutedData Sample.sameProofs
    (Sample.keccak256_injOn.mono Sample.preimages_subset) Sample.call_registerData
    Sample.call_substitutedData).2
  -- one entry each, with credential ids `[1]` and `[2]`
  exact absurd hentries (by decide +kernel)

end P256Index.Contract
