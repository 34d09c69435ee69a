import P256Index.Contract.Growth
import P256Index.Contract.Presence

/-!
# Duplicate errors stay

Each write raises its duplicate error at a fixed place: a register after the checks of its own
fields, a refer after its group, its member and the member's file were found sound. `Repeats` says
what has to hold there. It is what an accepted call leaves behind, and growth keeps it, so a call
that was accepted, or that failed as a duplicate, fails as a duplicate from then on.
-/

namespace P256Index.Contract

variable {E : Evm} {d : Domain} {s s' : Registry} {now n : Nat} {data : Bytes}

/-! ## What comes before the duplicate error -/

/-- The register passes the checks of its fields, and its group key is in use. -/
structure RegisterRepeats (E : Evm) (s : Registry) (a : RegisterArgs) : Prop where
  rpId : a.rpId.length ≠ 0 ∧ a.rpId.length ≤ maxRpIdLength
  metadata : a.metadata.length ≤ maxMetadataLength
  members_pos : a.members.length ≠ 0
  members_le : a.members.length ≤ maxMembers
  taken : ∃ unitId, s.unitIdPlusOneByGroupKey (E.keccak256 a.groupPublicKey) = unitId + 1

/-- The refer names a group and a member on file, and the pair is linked. -/
structure ReferRepeats (E : Evm) (s : Registry) (a : ReferArgs) (unitId entryId : Nat) : Prop where
  metadata : a.metadata.length ≤ maxMetadataLength
  group : s.unitIdPlusOneByGroupKey (E.keccak256 a.groupPublicKey) = unitId + 1
  unit_row : ∃ unit, s.units[unitId]? = some unit
  not_group : a.member.keyHash E ≠ E.keccak256 a.groupPublicKey
  key : ValidKey a.member.publicKey
  member : Filed E s a.member entryId
  linked : s.referenceIdPlusOneByLink unitId entryId ≠ 0

def Repeats (E : Evm) (s : Registry) : Call → Prop
  | .register a => RegisterRepeats E s a
  | .refer a => ∃ unitId entryId, ReferRepeats E s a unitId entryId

theorem Repeats.mono {c : Call} (hgrows : Grows n s s') (h : Repeats E s c) : Repeats E s' c := by
  cases c with
  | register a =>
      obtain ⟨unitId, htaken⟩ := h.taken
      exact ⟨h.rpId, h.metadata, h.members_pos, h.members_le, unitId, hgrows.groups _ _ htaken⟩
  | refer a =>
      obtain ⟨unitId, entryId, h⟩ := h
      obtain ⟨unit, hunit⟩ := h.unit_row
      have hlinked : s'.referenceIdPlusOneByLink unitId entryId ≠ 0 := by
        rw [(hgrows.new_links unitId).eq_of_ne_zero h.linked]
        exact h.linked
      exact ⟨unitId, entryId, h.metadata, hgrows.groups _ _ h.group,
        ⟨unit, getElem?_of_prefix hgrows.units hunit⟩, h.not_group, h.key,
        h.member.mono hgrows.toExtends, hlinked⟩

/-! ## The error -/

theorem RegisterRepeats.fails {a : RegisterArgs} (h : RegisterRepeats E s a) :
    register E d now data a s = .error (.groupKeyAlreadyUsed (E.keccak256 a.groupPublicKey)) := by
  obtain ⟨unitId, htaken⟩ := h.taken
  have hrpId : validateRpId a.rpId = .ok () := validateRpId_eq_ok.mpr h.rpId
  have hmetadata : validateMetadata a.metadata = .ok () := validateMetadata_eq_ok.mpr h.metadata
  have hcount : ¬ (a.members.length = 0 ∨ maxMembers < a.members.length) :=
    not_or.mpr ⟨h.members_pos, not_lt.mpr h.members_le⟩
  have hused : s.unitIdPlusOneByGroupKey (E.keccak256 a.groupPublicKey) ≠ 0 := by
    rw [htaken]
    exact Nat.succ_ne_zero unitId
  unfold register
  rw [hrpId, hmetadata, revertIf_neg hcount]
  show (revertIf (s.unitIdPlusOneByGroupKey (E.keccak256 a.groupPublicKey) ≠ 0) _ >>= _) = _
  rw [revertIf_pos hused]
  rfl

theorem ReferRepeats.fails {a : ReferArgs} {unitId entryId : Nat}
    (h : ReferRepeats E s a unitId entryId) :
    ∃ referenceId, refer E d now data a s = .error (.alreadyReferenced referenceId) := by
  obtain ⟨unit, hunit⟩ := h.unit_row
  have hmetadata : validateMetadata a.metadata = .ok () := validateMetadata_eq_ok.mpr h.metadata
  have hkey : validatePublicKey a.member.publicKey = .ok (coordinates a.member.publicKey) :=
    validatePublicKey_eq_ok.mpr ⟨h.key, rfl⟩
  have hfile : s.entryIdPlusOneByKey (a.member.keyHash E) ≠ 0 := by
    rw [h.member.1]
    exact Nat.succ_ne_zero entryId
  have hid : s.resolvedId E a.member = entryId := by
    rw [Registry.resolvedId, if_neg hfile, h.member.1]
    rfl
  have hentry : EntryOk E s a.member := by
    obtain ⟨hindex, e, he, hmatches⟩ := h.member
    refine .inr ⟨hfile, e, ?_, hmatches⟩
    rw [hindex]
    exact he
  have hresolve : resolveEntry E now (a.member.keyHash E) a.member s =
      .ok (entryId, s.resolved E now a.member) :=
    resolveEntry_eq_ok.mpr ⟨hentry, hid.symm, rfl⟩
  refine ⟨s.referenceIdPlusOneByLink unitId entryId - 1, ?_⟩
  unfold refer
  simp only [h.group, Nat.add_sub_cancel, hunit, ← Member.keyHash.eq_1]
  rw [hmetadata, revertIf_neg (Nat.succ_ne_zero unitId), revertIf_neg h.not_group, hkey, hresolve]
  show (revertIf
    ((s.resolved E now a.member).referenceIdPlusOneByLink unitId entryId ≠ 0) _ >>= _) = _
  rw [Registry.resolved_referenceIdPlusOneByLink, revertIf_pos h.linked]
  rfl

/-! ## Where the error was -/

theorem registerRepeats_of_error {a : RegisterArgs} {h : Bytes32}
    (herror : register E d now data a s = .error (.groupKeyAlreadyUsed h)) :
    RegisterRepeats E s a := by
  have hother : ¬ (Revert.groupKeyAlreadyUsed h).Other := by simp [Revert.Other, Revert.isDuplicate]
  have hcount :
      FailsWith Revert.Other (revertIf (a.members.length = 0 ∨ maxMembers < a.members.length)
      (.invalidMemberCount a.members.length)) := failsWith_revertIf fun _ => rfl
  obtain ⟨_, hrpId, hrest⟩ := (validateRpId_fails a.rpId).error_later hother herror
  obtain ⟨_, hmetadata, hrest⟩ := (validateMetadata_fails a.metadata).error_later hother hrest
  obtain ⟨_, hmembers, -⟩ := hcount.error_later hother hrest
  rw [revertIf_eq_ok, not_or, not_lt] at hmembers
  rcases register_fails a _ herror with hno | ⟨htaken, -⟩
  · exact absurd hno hother
  obtain ⟨unitId, hunitId⟩ := Nat.exists_eq_succ_of_ne_zero htaken
  exact ⟨validateRpId_eq_ok.mp hrpId, validateMetadata_eq_ok.mp hmetadata, hmembers.1, hmembers.2,
    unitId, hunitId⟩

/-- A linked pair has a member on file, so the entry of the link is the member's own. -/
theorem EntryOk.filed_of_linked {m : Member} {unitId : Nat} (hc : Consistent E s)
    (h : EntryOk E s m) (hlinked : s.referenceIdPlusOneByLink unitId (s.resolvedId E m) ≠ 0) :
    Filed E s m (s.resolvedId E m) := by
  rcases h with ⟨h0, -⟩ | ⟨h0, e, he, hmatches⟩
  · exfalso
    rw [Registry.resolvedId, if_pos h0] at hlinked
    obtain ⟨i, hi⟩ := Nat.exists_eq_succ_of_ne_zero hlinked
    obtain ⟨r, hr, hpair⟩ := (hc.links (unitId, s.entries.length) i).mp hi
    have hlt := (hc.reference_lt r (List.mem_of_getElem? hr)).2
    simp only [Prod.mk.injEq] at hpair
    omega
  · rw [Registry.resolvedId, if_neg h0]
    exact ⟨(Nat.succ_pred_eq_of_ne_zero h0).symm, e, he, hmatches⟩

theorem referRepeats_of_error {a : ReferArgs} {referenceId : Nat} (hc : Consistent E s)
    (herror : refer E d now data a s = .error (.alreadyReferenced referenceId)) :
    ∃ unitId entryId, ReferRepeats E s a unitId entryId := by
  have hother : ¬ (Revert.alreadyReferenced referenceId).Other := by
    simp [Revert.Other, Revert.isDuplicate]
  obtain ⟨_, hmetadata, hrest⟩ := (validateMetadata_fails a.metadata).error_later hother herror
  have hgroup : FailsWith Revert.Other (revertIf
      (s.unitIdPlusOneByGroupKey (E.keccak256 a.groupPublicKey) = 0)
      (.groupNotFound (E.keccak256 a.groupPublicKey))) := failsWith_revertIf fun _ => rfl
  obtain ⟨_, hfound, hrest⟩ := hgroup.error_later hother hrest
  rw [revertIf_eq_ok] at hfound
  dsimp only at hrest
  split at hrest
  · cases hrest
  next unit hunit =>
    have hself :
        FailsWith Revert.Other (revertIf (a.member.keyHash E = E.keccak256 a.groupPublicKey)
        (.duplicateMemberKey 0)) := failsWith_revertIf fun _ => rfl
    obtain ⟨_, hnotGroup, hrest⟩ := hself.error_later hother hrest
    obtain ⟨_, hkey, hrest⟩ := (validatePublicKey_fails _).error_later hother hrest
    obtain ⟨⟨entryId, s'⟩, hresolved, hrest⟩ := (resolveEntry_fails _ _).error_later hother hrest
    obtain ⟨hentry, rfl, rfl⟩ := resolveEntry_eq_ok.mp hresolved
    rw [revertIf_eq_ok] at hnotGroup
    have hlinked :
        s.referenceIdPlusOneByLink (s.unitIdPlusOneByGroupKey (E.keccak256 a.groupPublicKey) - 1)
        (s.resolvedId E a.member) ≠ 0 := by
      intro hfree
      rw [← Registry.resolved_referenceIdPlusOneByLink s now a.member] at hfree
      dsimp only at hrest
      rw [revertIf_neg (not_not.mpr hfree)] at hrest
      obtain ⟨_, -, hrest⟩ := (verifyProof_fails _ _ _ _).error_later hother hrest
      cases hrest
    exact ⟨_, _, validateMetadata_eq_ok.mp hmetadata, (Nat.succ_pred_eq_of_ne_zero hfound).symm,
      ⟨unit, hunit⟩, hnotGroup, (validatePublicKey_eq_ok.mp hkey).1,
      hentry.filed_of_linked hc hlinked, hlinked⟩

/-! ## After an accepted call -/

/-- What an accepted call wrote is what a repetition of it runs into. -/
theorem repeats_of_ok {c : Call} (hs : Reachable E d s) (hdec : E.decode data = some c)
    (hcall : call E d now data s = .ok s') : Repeats E s' c := by
  have hs' : Reachable E d s' := .call hs hcall
  rcases call_eq_ok.mp hcall with ⟨a, ha, haccepted⟩ | ⟨a, ha, haccepted⟩
  · cases hdec.symm.trans ha
    obtain ⟨hok, -, hentries, rfl⟩ := (register_eq_ok hs.indexed).mp haccepted
    have hrecord : UnitRecord E d (s.registered E now data a) s.units.length a now :=
      unitRecord_registered hs.consistent hdec hok hentries
    exact ⟨hok.rpId, hok.metadata, hok.members_pos, hok.members_le, _, hrecord.group hs'.consistent⟩
  · cases hdec.symm.trans ha
    obtain ⟨unitId, unit, hgroup, hunit, hok, hentry, -, rfl⟩ := refer_eq_ok.mp haccepted
    have hrecord :
        ReferenceRecord E d (s.referred E now data unitId a) s.references.length a _ unit :=
      referenceRecord_referred hdec hgroup hunit hok hentry
    have hlinked : (s.referred E now data unitId a).referenceIdPlusOneByLink unitId
        (s.resolvedId E a.member) = s.references.length + 1 :=
      (hs'.consistent.links (unitId, s.resolvedId E a.member) _).mpr ⟨_, hrecord.row, rfl⟩
    refine ⟨unitId, s.resolvedId E a.member, hok.metadata, hrecord.group, ⟨unit, hrecord.unit_row⟩,
      hok.not_group, hok.key, hrecord.member, ?_⟩
    rw [hlinked]
    exact Nat.succ_ne_zero _

/-! ## Archived rows -/

namespace Verify

/-- The row's kind is that of its calldata. -/
def Row.Honest (E : Evm) (row : Row) : Prop := ∀ c, E.decode row.input = some c → row.Carries E c

/-- The row's call would repeat one that is in the registry. -/
def Settled (E : Evm) (s : Registry) (row : Row) : Prop := ∃ c, row.Carries E c ∧ Repeats E s c

variable {row : Row}

theorem Settled.mono (hgrows : Grows n s s') (h : Settled E s row) : Settled E s' row := by
  obtain ⟨c, hcarries, hrepeats⟩ := h
  exact ⟨c, hcarries, hrepeats.mono hgrows⟩

/-- A settled row fails with the duplicate error of its kind, at any block time. -/
theorem Settled.outcome (h : Settled E s row) (now : Nat) :
    outcomeOf (call E d now row.input s) = .reverted (some row.kind.duplicate) := by
  obtain ⟨c, hcarries, hrepeats⟩ := h
  cases c with
  | register a =>
      obtain ⟨hkind, hdec⟩ := hcarries
      have hcall : call E d now row.input s =
          .error (.groupKeyAlreadyUsed (E.keccak256 a.groupPublicKey)) := by
        rw [call, hdec]
        exact hrepeats.fails
      rw [hcall, hkind]
      rfl
  | refer a =>
      obtain ⟨hkind, hdec⟩ := hcarries
      obtain ⟨unitId, entryId, hrepeats⟩ := hrepeats
      obtain ⟨referenceId, hfails⟩ :=
        @ReferRepeats.fails E d s now row.input a unitId entryId hrepeats
      have hcall : call E d now row.input s = .error (.alreadyReferenced referenceId) := by
        rw [call, hdec]
        exact hfails
      rw [hcall, hkind]
      rfl

/-- The duplicate error of its kind shows that the row is settled. -/
theorem settled_of_outcome (hs : Reachable E d s)
    (h : outcomeOf (call E d now row.input s) = .reverted (some row.kind.duplicate)) :
    Settled E s row := by
  cases hcall : call E d now row.input s with
  | ok s' =>
      rw [hcall] at h
      cases h
  | error r =>
      have hselector : r.selector = some row.kind.duplicate := by
        rw [hcall] at h
        simpa [outcomeOf] using h
      cases hkind : row.kind with
      | register =>
          rw [hkind] at hselector
          obtain ⟨groupKeyHash, rfl⟩ := selector_groupKeyAlreadyUsed hselector
          obtain ⟨a, hdec, -⟩ := groupKeyAlreadyUsed_taken hcall
          rw [call, hdec] at hcall
          exact ⟨.register a, ⟨hkind, hdec⟩, registerRepeats_of_error hcall⟩
      | refer =>
          rw [hkind] at hselector
          obtain ⟨referenceId, rfl⟩ := selector_alreadyReferenced hselector
          obtain ⟨a, hdec, -⟩ := alreadyReferenced_taken hcall
          rw [call, hdec] at hcall
          exact ⟨.refer a, ⟨hkind, hdec⟩, referRepeats_of_error hs.consistent hcall⟩

theorem settled_of_ok (hs : Reachable E d s) (hrow : row.Honest E)
    (hcall : call E d now row.input s = .ok s') : Settled E s' row := by
  obtain ⟨c, hdec⟩ : ∃ c, E.decode row.input = some c := by
    rcases call_eq_ok.mp hcall with ⟨a, ha, -⟩ | ⟨a, ha, -⟩
    · exact ⟨_, ha⟩
    · exact ⟨_, ha⟩
  exact ⟨c, hrow c hdec, repeats_of_ok hs hdec hcall⟩

end Verify

end P256Index.Contract
