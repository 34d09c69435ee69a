import P256Index.Contract.Record

/-!
# Reads of the registry

The reads the services ask for, and what they say about the next write: in a state of a deployment
the index of a read always points into its table, so that a read that finds nothing means the index
is empty.
-/

namespace P256Index.Contract

variable (E : Evm) (s : Registry)

/-- `getEntryByKey`: the file of a key with its id. -/
def Registry.getEntryByKey (publicKey : Bytes) : Option (Nat × Entry) :=
  match s.entryIdPlusOneByKey (E.keccak256 publicKey) with
  | 0 => none
  | entryId + 1 => s.entries[entryId]?.map fun entry => (entryId, entry)

/-- `getUnitByGroupKey`: the record of a group with its id. -/
def Registry.getUnitByGroupKey (publicKey : Bytes) : Option (Nat × GroupUnit) :=
  match s.unitIdPlusOneByGroupKey (E.keccak256 publicKey) with
  | 0 => none
  | unitId + 1 => s.units[unitId]?.map fun unit => (unitId, unit)

def Registry.isContentRegistered (contentHash : Bytes32) : Bool :=
  s.unitIdPlusOneByContent contentHash != 0

def Registry.isReferenced (groupPublicKey memberPublicKey : Bytes) : Bool :=
  match s.unitIdPlusOneByGroupKey (E.keccak256 groupPublicKey),
    s.entryIdPlusOneByKey (E.keccak256 memberPublicKey) with
  | unitId + 1, entryId + 1 => s.referenceIdPlusOneByLink unitId entryId != 0
  | _, _ => false

/-! ## What a read says about a write -/

variable {E s}

theorem isReferenced_iff {groupPublicKey memberPublicKey : Bytes} :
    s.isReferenced E groupPublicKey memberPublicKey = true ↔
    ∃ unitId entryId, s.unitIdPlusOneByGroupKey (E.keccak256 groupPublicKey) = unitId + 1 ∧
      s.entryIdPlusOneByKey (E.keccak256 memberPublicKey) = entryId + 1 ∧
        s.referenceIdPlusOneByLink unitId entryId ≠ 0 := by
  unfold Registry.isReferenced
  split
  · next unitId entryId hunit hentry => simp [hunit, hentry]
  · next hnone =>
      refine iff_of_false (by simp) ?_
      rintro ⟨unitId, entryId, hunit, hentry, -⟩
      exact hnone unitId entryId hunit hentry

/-- The pair of a stored refer is found. -/
theorem ReferenceRecord.isReferenced {d : Domain} {i : Nat} {a : ReferArgs} {r : Reference}
    {unit : GroupUnit} (h : ReferenceRecord E d s i a r unit) (hc : Consistent E s) :
    s.isReferenced E a.groupPublicKey a.member.publicKey = true := by
  have hlink := (hc.links (r.unitId, r.entryId) i).mpr ⟨r, h.row, rfl⟩
  have hkey : s.entryIdPlusOneByKey (E.keccak256 a.member.publicKey) = r.entryId + 1 := h.member.1
  rw [Registry.isReferenced, h.group, hkey]
  simp only [bne_iff_ne]
  exact ne_of_eq_of_ne hlink (Nat.succ_ne_zero i)

theorem getEntryByKey_eq_some {publicKey : Bytes} {id : Nat} {entry : Entry} :
    s.getEntryByKey E publicKey = some (id, entry) ↔
      s.entryIdPlusOneByKey (E.keccak256 publicKey) = id + 1 ∧ s.entries[id]? = some entry := by
  unfold Registry.getEntryByKey
  split
  · rename_i h
    simp [h]
  · rename_i i h
    simp only [Option.map_eq_some_iff, Prod.mk.injEq, h]
    grind

theorem getUnitByGroupKey_eq_some {publicKey : Bytes} {id : Nat} {unit : GroupUnit} :
    s.getUnitByGroupKey E publicKey = some (id, unit) ↔
      s.unitIdPlusOneByGroupKey (E.keccak256 publicKey) = id + 1 ∧ s.units[id]? = some unit := by
  unfold Registry.getUnitByGroupKey
  split
  · rename_i h
    simp [h]
  · rename_i i h
    simp only [Option.map_eq_some_iff, Prod.mk.injEq, h]
    grind

theorem Consistent.getUnitByGroupKey_eq_none (hc : Consistent E s) {publicKey : Bytes} :
    s.getUnitByGroupKey E publicKey = none ↔
      s.unitIdPlusOneByGroupKey (E.keccak256 publicKey) = 0 := by
  rcases hindex : s.unitIdPlusOneByGroupKey (E.keccak256 publicKey) with _ | id
  · simp [Registry.getUnitByGroupKey, hindex]
  · obtain ⟨unit, hunit, -⟩ := (hc.groups _ _).mp hindex
    have hsome := getUnitByGroupKey_eq_some.mpr ⟨hindex, hunit⟩
    simp [hsome]

/-- A member within the limits is in line with the state when its file, if any, has its data. -/
theorem entryOk_of_read (hs : s.Indexed) {m : Member} (hfirst : FirstSightOk m)
    (hsame : ∀ id entry, s.getEntryByKey E m.publicKey = some (id, entry) →
      entry.attestation = m.attestation ∧ entry.credentialId = m.credentialId) : EntryOk E s m := by
  have hle := hs (m.keyHash E)
  rcases hindex : s.entryIdPlusOneByKey (m.keyHash E) with _ | id
  · exact .inl ⟨hindex, hfirst⟩
  · rw [hindex] at hle
    have hentry : s.entries[id]? = some s.entries[id] := List.getElem?_eq_getElem hle
    obtain ⟨hatt, hcred⟩ := hsame id _ (getEntryByKey_eq_some.mpr ⟨hindex, hentry⟩)
    refine .inr ⟨by rw [hindex]; exact Nat.succ_ne_zero id, s.entries[id], ?_, ?_, ?_⟩
    · rw [hindex]
      exact hentry
    · rw [hatt]
    · rw [hcred]

/-- A pair the read does not know is free. -/
theorem Consistent.link_eq_zero (hc : Consistent E s) {groupPublicKey : Bytes} {m : Member}
    {unitId : Nat} (hunit : s.unitIdPlusOneByGroupKey (E.keccak256 groupPublicKey) = unitId + 1)
    (hread : s.isReferenced E groupPublicKey m.publicKey = false) :
    s.referenceIdPlusOneByLink unitId (s.resolvedId E m) = 0 := by
  rcases hindex : s.entryIdPlusOneByKey (m.keyHash E) with _ | entryId
  · -- a key without a file resolves past the table, and no reference points there
    rw [Registry.resolvedId, if_pos hindex]
    by_contra hne
    obtain ⟨i, hi⟩ := Nat.exists_eq_succ_of_ne_zero hne
    obtain ⟨r, hr, hlink⟩ := (hc.links (unitId, s.entries.length) i).mp hi
    have hlt := (hc.reference_lt r (List.mem_of_getElem? hr)).2
    simp only [Prod.mk.injEq] at hlink
    omega
  · have hkey : s.entryIdPlusOneByKey (E.keccak256 m.publicKey) = entryId + 1 := hindex
    have hresolved : s.resolvedId E m = entryId := by
      simp [Registry.resolvedId, Member.keyHash, hkey]
    rw [Registry.isReferenced, hunit, hkey] at hread
    simpa [hresolved] using hread

end P256Index.Contract
