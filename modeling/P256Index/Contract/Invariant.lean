import P256Index.Contract.Acceptance

/-!
# Tables and indexes agree

`Consistent` says that every index of the storage describes its table exactly, at the level of
hashes. It is kept by each primitive update (`openUnit`, `pushEntry`, `linkMember`,
`pushReference`), hence by both writes and in every reachable state. Two facts are about whole
writes only: an entry is never left without a member link or a reference (`Owned`), and the members
of a call are linked once each, because their key hashes are distinct.
-/

namespace P256Index.Contract

variable {E : Evm} {d : Domain} {s : Registry} {now unitId entryId : Nat} {data : Bytes}

variable (E) in
/-- Every index describes its table. -/
structure Consistent (s : Registry) : Prop where
  keys : IndexedBy (fun e : Entry => E.keccak256 e.publicKey) s.entries s.entryIdPlusOneByKey
  groups : IndexedBy (fun u : GroupUnit => E.keccak256 u.groupPublicKey) s.units
    s.unitIdPlusOneByGroupKey
  content_some : ∀ h i, s.unitIdPlusOneByContent h = i + 1 →
    ∃ u, s.units[i]? = some u ∧ u.contentHash = h
  content_ne_zero : ∀ u ∈ s.units, s.unitIdPlusOneByContent u.contentHash ≠ 0
  members : Linked s.isMemberLink s.groupEntryIds s.entryUnitIds
  member_lt : ∀ u e, s.isMemberLink u e = true → u < s.units.length ∧ e < s.entries.length
  links : IndexedBy (fun r : Reference => (r.unitId, r.entryId)) s.references
    fun p => s.referenceIdPlusOneByLink p.1 p.2
  by_entry : ListedBy Reference.entryId s.references s.referenceIdsByEntry
  by_unit : ListedBy Reference.unitId s.references s.referenceIdsByUnit
  reference_lt : ∀ r ∈ s.references, r.unitId < s.units.length ∧ r.entryId < s.entries.length
  by_rpId : ListedBy GroupUnit.rpId s.units s.unitIdsByRpId
  rpIds_nodup : s.rpIds.Nodup
  mem_rpIds : ∀ rpId, rpId ∈ s.rpIds ↔ ∃ u ∈ s.units, u.rpId = rpId

/-- No entry is left over: each is a member somewhere or the source of a reference. -/
def Owned (s : Registry) : Prop :=
  ∀ e < s.entries.length, (∃ u, s.isMemberLink u e = true) ∨ ∃ r ∈ s.references, r.entryId = e

/-! ## Primitive updates -/

theorem consistent_empty : Consistent E Registry.empty where
  keys := IndexedBy.nil _
  groups := IndexedBy.nil _
  content_some := by intro h i hi; cases hi
  content_ne_zero := by intro u hu; cases hu
  members := Linked.nil
  member_lt := by intro u e h; cases h
  links := IndexedBy.nil _
  by_entry := ListedBy.nil _
  by_unit := ListedBy.nil _
  reference_lt := by intro r hr; cases hr
  by_rpId := ListedBy.nil _
  rpIds_nodup := List.nodup_nil
  mem_rpIds := by
    intro rpId
    constructor
    · intro h
      cases h
    · rintro ⟨u, hu, -⟩
      cases hu

theorem Consistent.indexed (h : Consistent E s) : s.Indexed := h.keys.le_length

theorem Consistent.openUnit (h : Consistent E s) {u : GroupUnit}
    (hfree : s.unitIdPlusOneByGroupKey (E.keccak256 u.groupPublicKey) = 0) :
    Consistent E (s.openUnit (E.keccak256 u.groupPublicKey) u) where
  keys := h.keys
  groups := h.groups.push hfree
  content_some := by
    intro c i hi
    by_cases hc : c = u.contentHash
    · subst hc
      simp only [Registry.openUnit, Function.update_self] at hi
      obtain rfl : s.units.length = i := by omega
      exact ⟨u, List.getElem?_concat_length, rfl⟩
    · simp only [Registry.openUnit, Function.update_of_ne hc] at hi
      obtain ⟨v, hv, hvc⟩ := h.content_some c i hi
      have hlt := (List.getElem?_eq_some_iff.mp hv).1
      exact ⟨v, by simp only [Registry.openUnit, List.getElem?_append_left hlt, hv], hvc⟩
  content_ne_zero := by
    intro v hv
    simp only [Registry.openUnit]
    by_cases hc : v.contentHash = u.contentHash
    · rw [hc, Function.update_self]
      exact Nat.succ_ne_zero _
    · rw [Function.update_of_ne hc]
      rcases List.mem_append.mp hv with hv | hv
      · exact h.content_ne_zero v hv
      · exact absurd (congrArg _ (List.mem_singleton.mp hv)) hc
  members := h.members
  member_lt := by
    intro v e hve
    obtain ⟨hv, he⟩ := h.member_lt v e hve
    exact ⟨by simp only [Registry.openUnit, List.length_append]; omega, he⟩
  links := h.links
  by_entry := h.by_entry
  by_unit := h.by_unit
  reference_lt := by
    intro r hr
    obtain ⟨hu, he⟩ := h.reference_lt r hr
    exact ⟨by simp only [Registry.openUnit, List.length_append]; omega, he⟩
  by_rpId := h.by_rpId.push u
  rpIds_nodup := by
    simp only [Registry.openUnit, List.length_eq_zero_iff, h.by_rpId.eq_nil_iff]
    split
    · rename_i hnew
      apply nodup_snoc h.rpIds_nodup
      intro hmem
      obtain ⟨v, hv, hrp⟩ := (h.mem_rpIds _).mp hmem
      exact hnew v hv hrp
    · exact h.rpIds_nodup
  mem_rpIds := by
    intro rpId
    simp only [Registry.openUnit, List.length_eq_zero_iff, h.by_rpId.eq_nil_iff, List.mem_append,
      List.mem_singleton, or_and_right, exists_or, exists_eq_left]
    split
    · rw [List.mem_append, List.mem_singleton, h.mem_rpIds]
      exact or_congr_right eq_comm
    · rename_i hold
      rw [h.mem_rpIds]
      constructor
      · exact Or.inl
      · rintro (hv | rfl)
        · exact hv
        · by_contra hno
          exact hold fun v hv hrp => hno ⟨v, hv, hrp⟩

theorem Consistent.pushEntry (h : Consistent E s) {e : Entry}
    (hnew : s.entryIdPlusOneByKey (E.keccak256 e.publicKey) = 0) :
    Consistent E (s.pushEntry (E.keccak256 e.publicKey) e) where
  keys := h.keys.push hnew
  groups := h.groups
  content_some := h.content_some
  content_ne_zero := h.content_ne_zero
  members := h.members
  member_lt := by
    intro u i hui
    obtain ⟨hu, hi⟩ := h.member_lt u i hui
    exact ⟨hu, by simp only [Registry.pushEntry, List.length_append]; omega⟩
  links := h.links
  by_entry := h.by_entry
  by_unit := h.by_unit
  reference_lt := by
    intro r hr
    obtain ⟨hu, he⟩ := h.reference_lt r hr
    exact ⟨hu, by simp only [Registry.pushEntry, List.length_append]; omega⟩
  by_rpId := h.by_rpId
  rpIds_nodup := h.rpIds_nodup
  mem_rpIds := h.mem_rpIds

theorem Consistent.linkMember (h : Consistent E s) (hu : unitId < s.units.length)
    (he : entryId < s.entries.length) (hnew : s.isMemberLink unitId entryId = false) :
    Consistent E (s.linkMember unitId entryId) where
  keys := h.keys
  groups := h.groups
  content_some := h.content_some
  content_ne_zero := h.content_ne_zero
  members := h.members.push hnew
  member_lt := by
    intro u e hue
    by_cases hu' : u = unitId
    · subst hu'
      by_cases he' : e = entryId
      · subst he'
        exact ⟨hu, he⟩
      · simp only [Registry.linkMember, Function.update_self, Function.update_of_ne he'] at hue
        exact h.member_lt u e hue
    · simp only [Registry.linkMember, Function.update_of_ne hu'] at hue
      exact h.member_lt u e hue
  links := h.links
  by_entry := h.by_entry
  by_unit := h.by_unit
  reference_lt := h.reference_lt
  by_rpId := h.by_rpId
  rpIds_nodup := h.rpIds_nodup
  mem_rpIds := h.mem_rpIds

theorem Consistent.storeRegisterPayload (h : Consistent E s) (u : Nat) (data : Bytes) :
    Consistent E (s.storeRegisterPayload u data) := by
  obtain ⟨h1, h2, h3, h4, h5, h6, h7, h8, h9, h10, h11, h12, h13⟩ := h
  exact ⟨h1, h2, h3, h4, h5, h6, h7, h8, h9, h10, h11, h12, h13⟩

theorem Consistent.pushReference (h : Consistent E s) {r : Reference}
    (hu : r.unitId < s.units.length) (he : r.entryId < s.entries.length)
    (hnew : s.referenceIdPlusOneByLink r.unitId r.entryId = 0) :
    Consistent E (s.pushReference r data) where
  keys := h.keys
  groups := h.groups
  content_some := h.content_some
  content_ne_zero := h.content_ne_zero
  members := h.members
  member_lt := h.member_lt
  links := by
    have hpush := h.links.push (r := r) hnew
    -- the nested mapping is the uncurried update
    have heq : (fun p : Nat × Nat => (s.pushReference r data).referenceIdPlusOneByLink p.1 p.2) =
        Function.update (fun p : Nat × Nat => s.referenceIdPlusOneByLink p.1 p.2)
          (r.unitId, r.entryId) (s.references.length + 1) := by
      funext ⟨u, e⟩
      by_cases hu : u = r.unitId
      · subst hu
        by_cases he : e = r.entryId
        · subst he
          simp [Registry.pushReference]
        · simp [Registry.pushReference, he]
      · simp [Registry.pushReference, hu]
    rw [heq]
    exact hpush
  by_entry := h.by_entry.push r
  by_unit := h.by_unit.push r
  reference_lt := by
    intro r' hr'
    rcases List.mem_append.mp hr' with hr' | hr'
    · exact h.reference_lt r' hr'
    · rw [List.mem_singleton.mp hr']
      exact ⟨hu, he⟩
  by_rpId := h.by_rpId
  rpIds_nodup := h.rpIds_nodup
  mem_rpIds := h.mem_rpIds

/-! ## Resolving a member -/

theorem Consistent.resolved (h : Consistent E s) (now : Nat) (m : Member) :
    Consistent E (s.resolved E now m) := by
  unfold Registry.resolved
  split
  · rename_i hnew
    exact h.pushEntry (e := m.entry now) hnew
  · exact h

@[simp] theorem resolved_units (s : Registry) (now : Nat) (m : Member) :
    (s.resolved E now m).units = s.units := by
  unfold Registry.resolved
  split <;> rfl

@[simp] theorem resolved_references (s : Registry) (now : Nat) (m : Member) :
    (s.resolved E now m).references = s.references := by
  unfold Registry.resolved
  split <;> rfl

@[simp] theorem resolved_isMemberLink (s : Registry) (now : Nat) (m : Member) :
    (s.resolved E now m).isMemberLink = s.isMemberLink := by
  unfold Registry.resolved
  split <;> rfl

/-- After resolving, the key index points at the resolved id. -/
theorem resolved_entryIdPlusOneByKey_self (s : Registry) (now : Nat) (m : Member) :
    (s.resolved E now m).entryIdPlusOneByKey (m.keyHash E) = s.resolvedId E m + 1 := by
  unfold Registry.resolved Registry.resolvedId
  split
  · exact Function.update_self _ _ _
  · omega

/-- Resolving adds at most the resolved entry. -/
theorem lt_resolved_entries {s : Registry} {m : Member} {e : Nat}
    (he : e < (s.resolved E now m).entries.length) :
    e < s.entries.length ∨ e = s.resolvedId E m := by
  unfold Registry.resolved at he
  unfold Registry.resolvedId
  split at he
  · rename_i h0
    simp only [Registry.pushEntry, List.length_append, List.length_singleton] at he
    rw [if_pos h0]
    omega
  · exact Or.inl he

theorem Consistent.resolvedId_lt (h : Consistent E s) (now : Nat) (m : Member) :
    s.resolvedId E m < (s.resolved E now m).entries.length := by
  have hle := (h.resolved now m).keys.le_length (m.keyHash E)
  rw [resolved_entryIdPlusOneByKey_self] at hle
  exact hle

/-- Different key hashes resolve to different entries. -/
theorem Consistent.resolvedId_ne (h : Consistent E s) {m : Member} {k : Bytes32} {i : Nat}
    (hk : k ≠ m.keyHash E) (hi : s.entryIdPlusOneByKey k = i + 1) : i ≠ s.resolvedId E m := by
  rintro rfl
  have hk' : (s.resolved E 0 m).entryIdPlusOneByKey k = s.resolvedId E m + 1 := by
    rw [Registry.resolved_entryIdPlusOneByKey_of_ne hk, hi]
  obtain ⟨e, he, hek⟩ := ((h.resolved 0 m).keys _ _).mp hk'
  obtain ⟨e', he', hek'⟩ :=
    ((h.resolved 0 m).keys _ _).mp (resolved_entryIdPlusOneByKey_self (E := E) s 0 m)
  cases he.symm.trans he'
  exact hk (hek.symm.trans hek')

/-! ## Whole writes -/

variable (E) in
/-- The member's entry, if it has one, is not in the unit yet. -/
def Unlinked (s : Registry) (unitId : Nat) (m : Member) : Prop :=
  ∀ i, s.entryIdPlusOneByKey (m.keyHash E) = i + 1 → s.isMemberLink unitId i = false

theorem Unlinked.resolvedId {m : Member} (h : Consistent E s) (hm : Unlinked E s unitId m) :
    s.isMemberLink unitId (s.resolvedId E m) = false := by
  unfold Registry.resolvedId
  split
  · -- a key of its own: the id lies past the table
    by_contra hlink
    have := (h.member_lt unitId s.entries.length (Bool.eq_true_of_not_eq_false hlink)).2
    omega
  · apply hm
    omega

theorem Consistent.admitted (h : Consistent E s) (hu : unitId < s.units.length) {m : Member}
    (hm : Unlinked E s unitId m) : Consistent E (s.admitted E now unitId m) := by
  apply (h.resolved now m).linkMember
  · rw [resolved_units]
    exact hu
  · exact h.resolvedId_lt now m
  · rw [resolved_isMemberLink]
    exact hm.resolvedId h

theorem admitted_isMemberLink (s : Registry) (now unitId : Nat) (m : Member) (u e : Nat) :
    (s.admitted E now unitId m).isMemberLink u e = true ↔
      (u = unitId ∧ e = s.resolvedId E m) ∨ s.isMemberLink u e = true := by
  simp only [Registry.admitted, Registry.linkMember, resolved_isMemberLink]
  by_cases hu : u = unitId
  · subst hu
    by_cases he : e = s.resolvedId E m
    · simp [he]
    · simp [he]
  · simp [hu]

theorem Unlinked.admitted (h : Consistent E s) {m m' : Member}
    (hne : m'.keyHash E ≠ m.keyHash E) (hm' : Unlinked E s unitId m') :
    Unlinked E (s.admitted E now unitId m) unitId m' := by
  intro i hi
  have hi' : s.entryIdPlusOneByKey (m'.keyHash E) = i + 1 :=
    (Registry.resolved_entryIdPlusOneByKey_of_ne hne).symm.trans hi
  rw [Bool.eq_false_iff, ne_eq, admitted_isMemberLink, not_or]
  constructor
  · rintro ⟨-, rfl⟩
    exact h.resolvedId_ne hne hi' rfl
  · rw [hm' i hi']
    exact Bool.false_ne_true

theorem Owned.admitted (h : Owned s) (now unitId : Nat) (m : Member) :
    Owned (s.admitted E now unitId m) := by
  intro e he
  rcases lt_resolved_entries he with he | rfl
  · rcases h e he with ⟨u, hu⟩ | ⟨r, hr, hre⟩
    · exact Or.inl ⟨u, (admitted_isMemberLink ..).mpr (Or.inr hu)⟩
    · refine Or.inr ⟨r, ?_, hre⟩
      show r ∈ (s.resolved E now m).references
      rw [resolved_references]
      exact hr
  · exact Or.inl ⟨unitId, (admitted_isMemberLink ..).mpr (Or.inl ⟨rfl, rfl⟩)⟩

@[simp] theorem admitted_units (s : Registry) (now unitId : Nat) (m : Member) :
    (s.admitted E now unitId m).units = s.units :=
  resolved_units s now m

/-- The member loop keeps the invariant: distinct keys never meet a link they set before. -/
theorem Consistent.admitAll {ms : List Member} (h : Consistent E s) (now : Nat) (ho : Owned s)
    (hu : unitId < s.units.length) (hnodup : (ms.map (Member.keyHash E)).Nodup)
    (hms : ∀ m ∈ ms, Unlinked E s unitId m) :
    Consistent E (ms.foldl (Registry.admitted E now unitId) s) ∧
      Owned (ms.foldl (Registry.admitted E now unitId) s) := by
  induction ms generalizing s with
  | nil => exact ⟨h, ho⟩
  | cons m ms ih =>
      rw [List.map_cons, List.nodup_cons] at hnodup
      rw [List.foldl_cons]
      apply ih (h.admitted hu (hms m List.mem_cons_self)) (ho.admitted now unitId m)
        (by rw [admitted_units]; exact hu) hnodup.2
      intro m' hm'
      apply Unlinked.admitted h _ (hms m' (List.mem_cons_of_mem _ hm'))
      intro heq
      exact hnodup.1 (heq ▸ List.mem_map_of_mem hm')

theorem Consistent.registered (h : Consistent E s) (ho : Owned s) {a : RegisterArgs}
    (hfree : s.unitIdPlusOneByGroupKey (E.keccak256 a.groupPublicKey) = 0)
    (hnodup : (a.members.map (Member.keyHash E)).Nodup) :
    Consistent E (s.registered E now data a) ∧ Owned (s.registered E now data a) := by
  have hopen : Consistent E (s.openUnit (E.keccak256 a.groupPublicKey) (a.unit E now)) :=
    h.openUnit (u := a.unit E now) hfree
  have hlt : s.units.length <
      (s.openUnit (E.keccak256 a.groupPublicKey) (a.unit E now)).units.length := by
    simp [Registry.openUnit]
  have hnone : ∀ m ∈ a.members, Unlinked E
      (s.openUnit (E.keccak256 a.groupPublicKey) (a.unit E now)) s.units.length m := by
    -- the unit is new, so nothing is linked to it
    intro m _ i _
    by_contra hlink
    have := (h.member_lt s.units.length i (Bool.eq_true_of_not_eq_false hlink)).1
    omega
  obtain ⟨hc, hown⟩ := hopen.admitAll now ho hlt hnodup hnone
  exact ⟨hc.storeRegisterPayload _ _, hown⟩

theorem Consistent.referred (h : Consistent E s) (ho : Owned s) {a : ReferArgs}
    (hu : unitId < s.units.length)
    (hlink : s.referenceIdPlusOneByLink unitId (s.resolvedId E a.member) = 0) :
    Consistent E (s.referred E now data unitId a) ∧ Owned (s.referred E now data unitId a) := by
  constructor
  · apply (h.resolved now a.member).pushReference
    · rw [resolved_units]
      exact hu
    · exact h.resolvedId_lt now a.member
    · rw [Registry.resolved_referenceIdPlusOneByLink]
      exact hlink
  · intro e he
    rcases lt_resolved_entries he with he | rfl
    · rcases ho e he with ⟨u, hu⟩ | ⟨r, hr, hre⟩
      · refine Or.inl ⟨u, ?_⟩
        show (s.resolved E now a.member).isMemberLink u e = true
        rw [resolved_isMemberLink]
        exact hu
      · refine Or.inr ⟨r, List.mem_append_left _ ?_, hre⟩
        rw [resolved_references]
        exact hr
    · exact Or.inr ⟨_, List.mem_append_right _ (List.mem_singleton.mpr rfl), rfl⟩

theorem Reachable.consistent_owned (h : Reachable E d s) : Consistent E s ∧ Owned s := by
  apply Reachable.induction (P := fun s => Consistent E s ∧ Owned s) _ _ _ h
  · exact ⟨consistent_empty, fun e he => absurd he (Nat.not_lt_zero e)⟩
  · intro s now data a _ ih _ hok hfree _
    exact ih.1.registered ih.2 hfree hok.distinct
  · intro s now data a unitId unit _ ih _ _ hunit _ _ hlink
    exact ih.1.referred ih.2 (List.getElem?_eq_some_iff.mp hunit).1 hlink

theorem Reachable.consistent (h : Reachable E d s) : Consistent E s := h.consistent_owned.1

theorem Reachable.owned (h : Reachable E d s) : Owned s := h.consistent_owned.2

end P256Index.Contract
