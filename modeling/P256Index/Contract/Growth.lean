import P256Index.Contract.Audit
import P256Index.Contract.Replay
import P256Index.Contract.Views

/-!
# Storage only grows

`Grows` adds the index lists and the new ids to `Extends`: every list keeps what it held and gets
new ids only, every index value stays, and a key that gets one gets the id of a new row. Each
primitive update grows the storage, hence both writes do. A refer leaves the groups exactly as they
were, and a call that was accepted once finds its own row in every later state and is rejected.
-/

namespace P256Index.Contract

variable {E : Evm} {d : Domain} {s s' s'' : Registry} {now n : Nat} {data : Bytes}

/-! ## Growth of the storage -/

/-- Rows, ids and payloads are kept, index lists are extended by new ids, and the units below `n`
keep their members. -/
structure Grows (n : Nat) (s s' : Registry) : Prop extends Extends n s s' where
  new_keys : Kept s.entries.length s.entryIdPlusOneByKey s'.entryIdPlusOneByKey
  new_groups : Kept s.units.length s.unitIdPlusOneByGroupKey s'.unitIdPlusOneByGroupKey
  new_links : ∀ u, Kept s.references.length (s.referenceIdPlusOneByLink u)
    (s'.referenceIdPlusOneByLink u)
  member_links : ∀ u < n, s'.isMemberLink u = s.isMemberLink u
  units_of_entry : ∀ e, Appended n (s.entryUnitIds e) (s'.entryUnitIds e)
  references_of_entry : ∀ e,
    Appended s.references.length (s.referenceIdsByEntry e) (s'.referenceIdsByEntry e)
  references_of_unit : ∀ u,
    Appended s.references.length (s.referenceIdsByUnit u) (s'.referenceIdsByUnit u)
  rpIds : s.rpIds <+: s'.rpIds
  rpCreatedAt : ∀ rpId, s.unitIdsByRpId rpId ≠ [] → s'.rpCreatedAt rpId = s.rpCreatedAt rpId
  units_of_rpId : ∀ rpId,
    Appended s.units.length (s.unitIdsByRpId rpId) (s'.unitIdsByRpId rpId)

namespace Grows

theorem refl (n : Nat) (s : Registry) : Grows n s s where
  toExtends := .refl n s
  new_keys := .refl _ _
  new_groups := .refl _ _
  new_links _ := .refl _ _
  member_links _ _ := rfl
  units_of_entry _ := .refl _ _
  references_of_entry _ := .refl _ _
  references_of_unit _ := .refl _ _
  rpIds := List.prefix_refl _
  rpCreatedAt _ _ := rfl
  units_of_rpId _ := .refl _ _

theorem trans (h : Grows n s s') (h' : Grows n s' s'') : Grows n s s'' where
  toExtends := h.toExtends.trans h'.toExtends
  new_keys := h.new_keys.trans h.entries.length_le h'.new_keys
  new_groups := h.new_groups.trans h.units.length_le h'.new_groups
  new_links u := (h.new_links u).trans h.references.length_le (h'.new_links u)
  member_links u hu := (h'.member_links u hu).trans (h.member_links u hu)
  units_of_entry e := (h.units_of_entry e).trans (h'.units_of_entry e)
  references_of_entry e :=
    (h.references_of_entry e).trans ((h'.references_of_entry e).mono h.references.length_le)
  references_of_unit u :=
    (h.references_of_unit u).trans ((h'.references_of_unit u).mono h.references.length_le)
  rpIds := h.rpIds.trans h'.rpIds
  rpCreatedAt rpId hne :=
    (h'.rpCreatedAt rpId ((h.units_of_rpId rpId).ne_nil hne)).trans (h.rpCreatedAt rpId hne)
  units_of_rpId rpId :=
    (h.units_of_rpId rpId).trans ((h'.units_of_rpId rpId).mono h.units.length_le)

/-- Fewer units are looked at. -/
theorem mono {m : Nat} (hnm : n ≤ m) (h : Grows m s s') : Grows n s s' where
  toExtends := { h.toExtends with
    members := fun u hu => h.members u (lt_of_lt_of_le hu hnm)
    registerPayload := fun u hu => h.registerPayload u (lt_of_lt_of_le hu hnm) }
  new_keys := h.new_keys
  new_groups := h.new_groups
  new_links := h.new_links
  member_links u hu := h.member_links u (lt_of_lt_of_le hu hnm)
  units_of_entry e := (h.units_of_entry e).mono hnm
  references_of_entry := h.references_of_entry
  references_of_unit := h.references_of_unit
  rpIds := h.rpIds
  rpCreatedAt := h.rpCreatedAt
  units_of_rpId := h.units_of_rpId

/-! ### Primitive updates -/

theorem resolved (n : Nat) (s : Registry) (now : Nat) (m : Member) :
    Grows n s (s.resolved E now m) := by
  have hx := Extends.resolved (E := E) n s now m
  unfold Registry.resolved at hx ⊢
  split at hx
  · rename_i h0
    rw [if_pos h0]
    exact { refl n s with toExtends := hx, new_keys := Kept.update h0 le_rfl }
  · rename_i h0
    rw [if_neg h0]
    exact refl n s

theorem linkMember (n : Nat) (s : Registry) (entryId : Nat) :
    Grows n s (s.linkMember n entryId) := by
  refine { refl n s with
    toExtends := .linkMember n s entryId, member_links := ?_, units_of_entry := ?_ }
  · intro u hu
    exact Function.update_of_ne (Nat.ne_of_lt hu) _ _
  · exact Appended.update s.entryUnitIds entryId le_rfl

theorem admitAll (n now : Nat) (ms : List Member) (s : Registry) :
    Grows n s (ms.foldl (Registry.admitted E now n) s) := by
  induction ms generalizing s with
  | nil => exact refl n s
  | cons m ms ih => exact ((resolved n s now m).trans (linkMember n _ _)).trans (ih _)

theorem openUnit {unit : GroupUnit} {h : Bytes32} (hfree : s.unitIdPlusOneByGroupKey h = 0) :
    Grows n s (s.openUnit h unit) := by
  refine { refl n s with
    toExtends := .openUnit hfree
    new_groups := Kept.update hfree le_rfl
    rpIds := ?_
    rpCreatedAt := ?_
    units_of_rpId := ?_ }
  · simp only [Registry.openUnit]
    split
    · exact List.prefix_append _ _
    · exact List.prefix_refl _
  · intro rpId hne
    simp only [Registry.openUnit]
    split
    · rename_i hempty
      apply Function.update_of_ne
      rintro rfl
      exact hne (List.length_eq_zero_iff.mp hempty)
    · rfl
  · exact Appended.update s.unitIdsByRpId unit.rpId le_rfl

theorem pushReference {r : Reference} (n : Nat) (data : Bytes)
    (h0 : s.referenceIdPlusOneByLink r.unitId r.entryId = 0) :
    Grows n s (s.pushReference r data) := by
  refine { refl n s with
    toExtends := .pushReference n s r data
    new_links := ?_
    references_of_entry := Appended.update s.referenceIdsByEntry r.entryId le_rfl
    references_of_unit := Appended.update s.referenceIdsByUnit r.unitId le_rfl }
  intro u
  by_cases hu : u = r.unitId
  · subst hu
    simp only [Registry.pushReference, Function.update_self]
    exact Kept.update h0 le_rfl
  · simp only [Registry.pushReference, Function.update_of_ne hu]
    exact .refl _ _

/-! ### The writes -/

theorem registered (now : Nat) (data : Bytes) {a : RegisterArgs}
    (hfree : s.unitIdPlusOneByGroupKey (E.keccak256 a.groupPublicKey) = 0) :
    Grows s.units.length s (s.registered E now data a) := by
  have hopen : Grows s.units.length s (s.openUnit (E.keccak256 a.groupPublicKey) (a.unit E now)) :=
    openUnit hfree
  have hmembers := hopen.trans (admitAll (E := E) s.units.length now a.members _)
  refine { hmembers with toExtends := .registered now data hfree }

theorem referred (n now unitId : Nat) (data : Bytes) {a : ReferArgs}
    (h0 : s.referenceIdPlusOneByLink unitId (s.resolvedId E a.member) = 0) :
    Grows n s (s.referred E now data unitId a) := by
  refine (resolved n s now a.member).trans (pushReference n data ?_)
  rw [Registry.resolved_referenceIdPlusOneByLink]
  exact h0

end Grows

/-- The content index keeps its values where the hash does not collide. -/
theorem Grows.content (h : Grows n s s') (hs : Reachable E d s) (hs' : Reachable E d s')
    (hS : Set.InjOn E.keccak256 (s'.hashed E)) {c : Bytes32} {i : Nat}
    (hi : s.unitIdPlusOneByContent c = i + 1) : s'.unitIdPlusOneByContent c = i + 1 := by
  obtain ⟨u, hu, rfl⟩ := hs.consistent.content_some c i hi
  have hu' := getElem?_of_prefix h.units hu
  have hne := hs'.consistent.content_ne_zero u (List.mem_of_getElem? hu')
  obtain ⟨j, hj⟩ := Nat.exists_eq_succ_of_ne_zero hne
  obtain ⟨v, hv, hc⟩ := hs'.consistent.content_some _ j hj
  rw [hj, content_hash_unique hs' hS hv hu' hc]

/-! ## What a call adds -/

/-- One row more: a unit, or a reference. -/
def AddsRow (s s' : Registry) : Prop :=
  (∃ unit, s'.units = s.units ++ [unit] ∧ s'.references = s.references) ∨
    ∃ r, s'.units = s.units ∧ s'.references = s.references ++ [r]

/-- The groups, their members and the rpIds are exactly as they were. -/
structure GroupsKept (s s' : Registry) : Prop where
  units : s'.units = s.units
  members : s'.groupEntryIds = s.groupEntryIds
  member_links : s'.isMemberLink = s.isMemberLink
  units_of_entry : s'.entryUnitIds = s.entryUnitIds
  group_index : s'.unitIdPlusOneByGroupKey = s.unitIdPlusOneByGroupKey
  content_index : s'.unitIdPlusOneByContent = s.unitIdPlusOneByContent
  rpIds : s'.rpIds = s.rpIds
  rpCreatedAt : s'.rpCreatedAt = s.rpCreatedAt
  units_of_rpId : s'.unitIdsByRpId = s.unitIdsByRpId
  payloads : s'.registerPayload = s.registerPayload

theorem groupsKept_referred (s : Registry) (now unitId : Nat) (data : Bytes) (a : ReferArgs) :
    GroupsKept s (s.referred E now data unitId a) := by
  unfold Registry.referred Registry.resolved
  split <;> exact ⟨rfl, rfl, rfl, rfl, rfl, rfl, rfl, rfl, rfl, rfl⟩

theorem referred_references (s : Registry) (now unitId : Nat) (data : Bytes) (a : ReferArgs) :
    (s.referred E now data unitId a).references = s.references ++
      [{ entryId := s.resolvedId E a.member, unitId := unitId, metadata := a.metadata,
         createdAt := now }] := by
  simp only [Registry.referred, Registry.pushReference, resolved_references]

theorem call_grows (hs : Reachable E d s) (hcall : call E d now data s = .ok s') :
    Grows s.units.length s s' ∧ AddsRow s s' := by
  rcases call_eq_ok.mp hcall with ⟨a, -, ha⟩ | ⟨a, -, ha⟩
  · obtain ⟨-, hfree, -, rfl⟩ := (register_eq_ok hs.indexed).mp ha
    exact ⟨.registered now data hfree, .inl ⟨_, registered_units s now data a,
      registered_references s now data a⟩⟩
  · obtain ⟨u, -, -, -, -, -, hlink, rfl⟩ := refer_eq_ok.mp ha
    exact ⟨.referred _ now u data hlink, .inr ⟨_, (groupsKept_referred s now u data a).units,
      referred_references s now u data a⟩⟩

theorem calls_grows {xs : List (Nat × Bytes)} (hs : Reachable E d s)
    (h : calls E d xs s = .ok s') : Reachable E d s' ∧ Grows s.units.length s s' := by
  induction xs generalizing s with
  | nil =>
      cases h
      exact ⟨hs, .refl _ _⟩
  | cons x xs ih =>
      obtain ⟨t, ht, hrest⟩ := calls_cons_eq_ok.mp h
      obtain ⟨hgrows, -⟩ := call_grows hs ht
      obtain ⟨hs', hgrows'⟩ := ih (.call hs ht) hrest
      exact ⟨hs', hgrows.trans (hgrows'.mono hgrows.units.length_le)⟩

/-! ## What the reads see of a call -/

theorem Consistent.isContentRegistered_iff (hc : Consistent E s) {c : Bytes32} :
    s.isContentRegistered c = true ↔ ∃ unit ∈ s.units, unit.contentHash = c := by
  rw [Registry.isContentRegistered, bne_iff_ne]
  constructor
  · intro hne
    obtain ⟨i, hi⟩ := Nat.exists_eq_succ_of_ne_zero hne
    obtain ⟨unit, hunit, hcontent⟩ := hc.content_some c i hi
    exact ⟨unit, List.mem_of_getElem? hunit, hcontent⟩
  · rintro ⟨unit, hunit, rfl⟩
    exact hc.content_ne_zero unit hunit

theorem Consistent.isReferenced_iff_row (hc : Consistent E s) {group member : Bytes} :
    s.isReferenced E group member = true ↔ ∃ r ∈ s.references,
      s.unitIdPlusOneByGroupKey (E.keccak256 group) = r.unitId + 1 ∧
        s.entryIdPlusOneByKey (E.keccak256 member) = r.entryId + 1 := by
  rw [isReferenced_iff]
  constructor
  · rintro ⟨unitId, entryId, hunit, hentry, hlink⟩
    obtain ⟨i, hi⟩ := Nat.exists_eq_succ_of_ne_zero hlink
    obtain ⟨r, hr, hpair⟩ := (hc.links (unitId, entryId) i).mp hi
    cases hpair
    exact ⟨r, List.mem_of_getElem? hr, hunit, hentry⟩
  · rintro ⟨r, hr, hunit, hentry⟩
    obtain ⟨i, hi⟩ := List.mem_iff_getElem?.mp hr
    have hlink := (hc.links (r.unitId, r.entryId) i).mpr ⟨r, hi, rfl⟩
    exact ⟨r.unitId, r.entryId, hunit, hentry, ne_of_eq_of_ne hlink (Nat.succ_ne_zero i)⟩

/-- A content hash is there after a call exactly if it was there, or the call registers it. -/
theorem call_content_iff (hs : Reachable E d s) (hcall : call E d now data s = .ok s')
    (c : Bytes32) : s'.isContentRegistered c = true ↔ s.isContentRegistered c = true ∨
      ∃ a, E.decode data = some (.register a) ∧
        contentHashFor E a.rpId a.metadata a.groupPublicKey a.members = c := by
  have hs' : Reachable E d s' := .call hs hcall
  rw [hs'.consistent.isContentRegistered_iff, hs.consistent.isContentRegistered_iff]
  rcases call_eq_ok.mp hcall with ⟨a, hdec, ha⟩ | ⟨a, hdec, ha⟩
  · obtain ⟨-, -, -, rfl⟩ := (register_eq_ok hs.indexed).mp ha
    rw [registered_units, hdec]
    constructor
    · rintro ⟨unit, hunit, hcontent⟩
      rcases List.mem_append.mp hunit with hold | hnew
      · exact .inl ⟨unit, hold, hcontent⟩
      · cases List.mem_singleton.mp hnew
        exact .inr ⟨a, rfl, hcontent⟩
    · rintro (⟨unit, hold, hcontent⟩ | ⟨b, hb, hcontent⟩)
      · exact ⟨unit, List.mem_append_left _ hold, hcontent⟩
      · cases hb
        exact ⟨_, List.mem_append_right _ (List.mem_singleton_self _), hcontent⟩
  · obtain ⟨u, -, -, -, -, -, -, rfl⟩ := refer_eq_ok.mp ha
    rw [(groupsKept_referred s now u data a).units, hdec]
    simp

/-- A pair of keys is referenced after a call exactly if it was so before, or the call refers it. -/
theorem call_reference_iff (hs : Reachable E d s) (hcall : call E d now data s = .ok s')
    (group member : Bytes) :
    s'.isReferenced E group member = true ↔ s.isReferenced E group member = true ∨
      ∃ a, E.decode data = some (.refer a) ∧ E.keccak256 a.groupPublicKey = E.keccak256 group ∧
        E.keccak256 a.member.publicKey = E.keccak256 member := by
  have hs' : Reachable E d s' := .call hs hcall
  obtain ⟨hgrows, -⟩ := call_grows hs hcall
  -- the keys of an old row are those it had
  have hold : ∀ r ∈ s.references, (s'.unitIdPlusOneByGroupKey (E.keccak256 group) = r.unitId + 1 ∧
      s'.entryIdPlusOneByKey (E.keccak256 member) = r.entryId + 1 ↔
        s.unitIdPlusOneByGroupKey (E.keccak256 group) = r.unitId + 1 ∧
          s.entryIdPlusOneByKey (E.keccak256 member) = r.entryId + 1) := by
    intro r hr
    obtain ⟨hunit, hentry⟩ := hs.consistent.reference_lt r hr
    rw [hgrows.new_groups.eq_succ_iff hunit, hgrows.new_keys.eq_succ_iff hentry]
  rw [hs'.consistent.isReferenced_iff_row, hs.consistent.isReferenced_iff_row]
  constructor
  · rintro ⟨r, hr, hkeys⟩
    rcases call_eq_ok.mp hcall with ⟨a, hdec, ha⟩ | ⟨a, hdec, ha⟩
    · obtain ⟨-, -, -, rfl⟩ := (register_eq_ok hs.indexed).mp ha
      rw [registered_references] at hr
      exact .inl ⟨r, hr, (hold r hr).mp hkeys⟩
    · obtain ⟨u, unit, hgroup, hunit, hok, hentry, -, rfl⟩ := refer_eq_ok.mp ha
      rw [referred_references] at hr
      rcases List.mem_append.mp hr with hr | hr
      · exact .inl ⟨r, hr, (hold r hr).mp hkeys⟩
      · cases List.mem_singleton.mp hr
        have hrecord :
            ReferenceRecord E d (s.referred E now data u a) s.references.length a _ unit :=
          referenceRecord_referred hdec hgroup hunit hok hentry
        exact .inr ⟨a, hdec, hs'.consistent.groups.key_eq hrecord.group hkeys.1,
          hs'.consistent.keys.key_eq hrecord.member.1 hkeys.2⟩
  · rintro (⟨r, hr, hkeys⟩ | ⟨a, hdec, hgroup, hmember⟩)
    · exact ⟨r, hgrows.references.subset hr, (hold r hr).mpr hkeys⟩
    · rcases call_eq_ok.mp hcall with ⟨b, hb, -⟩ | ⟨b, hb, hrefer⟩
      · cases hdec.symm.trans hb
      · cases hdec.symm.trans hb
        obtain ⟨u, unit, hfound, hunit, hok, hentry, -, rfl⟩ := refer_eq_ok.mp hrefer
        have hrecord :
            ReferenceRecord E d (s.referred E now data u a) s.references.length a _ unit :=
          referenceRecord_referred hdec hfound hunit hok hentry
        rw [← hgroup, ← hmember]
        exact ⟨_, List.mem_of_getElem? hrecord.row, hrecord.group, hrecord.member.1⟩

/-! ## No call twice -/

/-- A register finds its own unit again. -/
theorem register_rejected {a : RegisterArgs} {i at' : Nat} (hs : Reachable E d s)
    (hrecord : UnitRecord E d s i a at') (now : Nat) (data : Bytes) (t : Registry) :
    register E d now data a s ≠ .ok t := by
  intro h
  obtain ⟨-, hfree, -⟩ := (register_eq_ok hs.indexed).mp h
  rw [hrecord.group hs.consistent] at hfree
  cases hfree

/-- A refer finds its own reference again. -/
theorem refer_rejected {a : ReferArgs} {i : Nat} {r : Reference} {unit : GroupUnit}
    (hs : Reachable E d s) (hrecord : ReferenceRecord E d s i a r unit) (now : Nat) (data : Bytes)
    (t : Registry) : refer E d now data a s ≠ .ok t := by
  intro h
  obtain ⟨unitId, -, hgroup, -, -, -, hlink, -⟩ := refer_eq_ok.mp h
  have hunit : unitId = r.unitId := by
    rw [hrecord.group] at hgroup
    omega
  have hentry : s.resolvedId E a.member = r.entryId := by
    rw [Registry.resolvedId, hrecord.member.1]
    simp
  have hrow : s.referenceIdPlusOneByLink r.unitId r.entryId = i + 1 :=
    (hs.consistent.links (r.unitId, r.entryId) i).mpr ⟨r, hrecord.row, rfl⟩
  rw [hunit, hentry, hrow] at hlink
  cases hlink

/-- The row of a call is there in every later state, so the call is rejected. -/
theorem call_rejected (hs : Reachable E d s) (hcall : call E d now data s = .ok s')
    (hlater : Grows s'.units.length s' s'') (hs'' : Reachable E d s'') (now' : Nat) :
    ∃ e, call E d now' data s'' = .error e := by
  cases hagain : call E d now' data s'' with
  | error e => exact ⟨e, rfl⟩
  | ok t =>
      exfalso
      rcases call_eq_ok.mp hcall with ⟨a, hdec, ha⟩ | ⟨a, hdec, ha⟩
      · obtain ⟨hok, hfree, hentries, rfl⟩ := (register_eq_ok hs.indexed).mp ha
        have hrecord : UnitRecord E d (s.registered E now data a) s.units.length a now :=
          unitRecord_registered hs.consistent hdec hok hentries
        rcases call_eq_ok.mp hagain with ⟨b, hb, hreg⟩ | ⟨b, hb, -⟩
        · cases hdec.symm.trans hb
          exact register_rejected hs'' (hrecord.mono hlater.toExtends hrecord.lt_length) _ _ _ hreg
        · cases hdec.symm.trans hb
      · obtain ⟨u, unit, hgroup, hunit, hok, hentry, -, rfl⟩ := refer_eq_ok.mp ha
        have hrecord :
            ReferenceRecord E d (s.referred E now data u a) s.references.length a _ unit :=
          referenceRecord_referred hdec hgroup hunit hok hentry
        rcases call_eq_ok.mp hagain with ⟨b, hb, -⟩ | ⟨b, hb, href⟩
        · cases hdec.symm.trans hb
        · cases hdec.symm.trans hb
          exact refer_rejected hs'' (hrecord.mono hlater.toExtends) _ _ _ href

/-! ## Append-only -/

/-- In every reachable state an accepted call only adds: one row, which takes the next id, and new
ids at the end of the lists that name it. A refer leaves the groups alone. The same message is
rejected in every state after it. -/
theorem call_appends (hs : Reachable E d s) (hcall : call E d now data s = .ok s') :
    Grows s.units.length s s' ∧ AddsRow s s' ∧
      (Set.InjOn E.keccak256 (s'.hashed E) → ∀ c i, s.unitIdPlusOneByContent c = i + 1 →
        s'.unitIdPlusOneByContent c = i + 1) ∧
      (∀ a, E.decode data = some (.refer a) → GroupsKept s s') ∧
      ∀ xs s'' now', calls E d xs s' = .ok s'' → ∃ e, call E d now' data s'' = .error e := by
  obtain ⟨hgrows, hrow⟩ := call_grows hs hcall
  have hs' : Reachable E d s' := .call hs hcall
  refine ⟨hgrows, hrow, fun hS c i hi => hgrows.content hs hs' hS hi, fun a hdec => ?_, ?_⟩
  · rcases call_eq_ok.mp hcall with ⟨b, hb, -⟩ | ⟨b, hb, href⟩
    · cases hdec.symm.trans hb
    · obtain ⟨u, -, -, -, -, -, -, rfl⟩ := refer_eq_ok.mp href
      exact groupsKept_referred s now u data b
  · intro xs s'' now' hrun
    obtain ⟨hs'', hlater⟩ := calls_grows hs' hrun
    exact call_rejected hs hcall hlater hs'' now'

/-- The recorded refer leaves the group alone, and is rejected from then on. -/
theorem call_appends_refer : GroupsKept Sample.registered Sample.referred ∧
    Sample.registered.entries <+: Sample.referred.entries ∧
      ∃ e, call Sample.evm Sample.domain 1 Sample.referData Sample.referred = .error e := by
  obtain ⟨hgrows, -, -, hkept, hrejected⟩ :=
    call_appends Sample.reachable_registered Sample.call_referData
  exact ⟨hkept _ Sample.decode_referData, hgrows.entries, hrejected [] _ 1 rfl⟩

end P256Index.Contract
