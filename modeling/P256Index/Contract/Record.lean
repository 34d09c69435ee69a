import P256Index.Contract.Invariant

/-!
# Rows and the payloads they came from

Storage only grows (`Extends`), so what an accepted call established about its row stays true.
`UnitRecord` and `ReferenceRecord` are that knowledge: the stored payload decodes to a call that
passes every check of its own, the row holds the call's fields, and the entries named by the call
are on file and in line with it. Every row of a reachable state has its record.
-/

namespace P256Index.Contract

variable {E : Evm} {d : Domain} {s s' s'' : Registry} {now unitId n : Nat} {data : Bytes}

/-! ## Growth -/

/-- Tables are extended and index values kept; the units below `n` are frozen. -/
structure Extends (n : Nat) (s s' : Registry) : Prop where
  entries : s.entries <+: s'.entries
  units : s.units <+: s'.units
  references : s.references <+: s'.references
  keys : ∀ h i, s.entryIdPlusOneByKey h = i + 1 → s'.entryIdPlusOneByKey h = i + 1
  groups : ∀ h i, s.unitIdPlusOneByGroupKey h = i + 1 → s'.unitIdPlusOneByGroupKey h = i + 1
  members : ∀ u < n, s'.groupEntryIds u = s.groupEntryIds u
  registerPayload : ∀ u < n, s'.registerPayload u = s.registerPayload u
  referPayload : ∀ i < s.references.length, s'.referPayload i = s.referPayload i

theorem getElem?_of_prefix {α : Type} {l l' : List α} (h : l <+: l') {i : Nat} {a : α}
    (hi : l[i]? = some a) : l'[i]? = some a := by
  obtain ⟨t, rfl⟩ := h
  rw [List.getElem?_append_left (List.getElem?_eq_some_iff.mp hi).1, hi]

namespace Extends

theorem refl (n : Nat) (s : Registry) : Extends n s s where
  entries := List.prefix_refl _
  units := List.prefix_refl _
  references := List.prefix_refl _
  keys := fun _ _ h => h
  groups := fun _ _ h => h
  members := fun _ _ => rfl
  registerPayload := fun _ _ => rfl
  referPayload := fun _ _ => rfl

theorem trans (h : Extends n s s') (h' : Extends n s' s'') : Extends n s s'' where
  entries := h.entries.trans h'.entries
  units := h.units.trans h'.units
  references := h.references.trans h'.references
  keys := fun k i hk => h'.keys k i (h.keys k i hk)
  groups := fun k i hk => h'.groups k i (h.groups k i hk)
  members := fun u hu => (h'.members u hu).trans (h.members u hu)
  registerPayload := fun u hu => (h'.registerPayload u hu).trans (h.registerPayload u hu)
  referPayload := fun i hi =>
    (h'.referPayload i (lt_of_lt_of_le hi h.references.length_le)).trans (h.referPayload i hi)

theorem resolved (n : Nat) (s : Registry) (now : Nat) (m : Member) :
    Extends n s (s.resolved E now m) := by
  unfold Registry.resolved
  split
  · rename_i h0
    refine { refl n s with entries := List.prefix_append _ _, keys := ?_ }
    intro k i hk
    have hne : k ≠ m.keyHash E := by
      rintro rfl
      omega
    simp only [Registry.pushEntry, Function.update_of_ne hne, hk]
  · exact refl n s

theorem linkMember (n : Nat) (s : Registry) (entryId : Nat) :
    Extends n s (s.linkMember n entryId) := by
  refine { refl n s with members := ?_ }
  intro u hu
  exact Function.update_of_ne (Nat.ne_of_lt hu) _ _

theorem admitAll (n : Nat) (now : Nat) (ms : List Member) (s : Registry) :
    Extends n s (ms.foldl (Registry.admitted E now n) s) := by
  induction ms generalizing s with
  | nil => exact refl n s
  | cons m ms ih => exact ((resolved n s now m).trans (linkMember n _ _)).trans (ih _)

theorem openUnit {u : GroupUnit} {h : Bytes32} (hfree : s.unitIdPlusOneByGroupKey h = 0) :
    Extends n s (s.openUnit h u) := by
  refine { refl n s with units := List.prefix_append _ _, groups := ?_ }
  intro k i hk
  have hne : k ≠ h := by
    rintro rfl
    omega
  simp only [Registry.openUnit, Function.update_of_ne hne, hk]

theorem registered (now : Nat) (data : Bytes) {a : RegisterArgs}
    (hfree : s.unitIdPlusOneByGroupKey (E.keccak256 a.groupPublicKey) = 0) :
    Extends s.units.length s (s.registered E now data a) := by
  apply ((openUnit hfree).trans (admitAll s.units.length now a.members _)).trans
  refine { refl _ _ with registerPayload := ?_ }
  intro u hu
  exact Function.update_of_ne (Nat.ne_of_lt hu) _ _

theorem pushReference (n : Nat) (s : Registry) (r : Reference) (data : Bytes) :
    Extends n s (s.pushReference r data) := by
  refine { refl n s with references := List.prefix_append _ _, referPayload := ?_ }
  intro i hi
  exact Function.update_of_ne (Nat.ne_of_lt hi) _ _

theorem referred (n : Nat) (s : Registry) (now : Nat) (data : Bytes) (unitId : Nat)
    (a : ReferArgs) : Extends n s (s.referred E now data unitId a) :=
  (resolved n s now a.member).trans (pushReference n _ _ data)

end Extends

/-! ## Members on file -/

variable (E) in
/-- The member's key has an entry, and the member agrees with it. -/
def Filed (s : Registry) (m : Member) (entryId : Nat) : Prop :=
  s.entryIdPlusOneByKey (m.keyHash E) = entryId + 1 ∧
    ∃ e, s.entries[entryId]? = some e ∧ Matches E e m

theorem Filed.mono {m : Member} {i : Nat} (hx : Extends n s s') (h : Filed E s m i) :
    Filed E s' m i := by
  obtain ⟨hi, e, he, hm⟩ := h
  exact ⟨hx.keys _ _ hi, e, getElem?_of_prefix hx.entries he, hm⟩

theorem EntryOk.filed {m : Member} (h : EntryOk E s m) (now : Nat) :
    Filed E (s.resolved E now m) m (s.resolvedId E m) := by
  refine ⟨resolved_entryIdPlusOneByKey_self s now m, ?_⟩
  rcases h with ⟨h0, _⟩ | ⟨h0, e, he, hm⟩
  · rw [Registry.resolved, Registry.resolvedId, if_pos h0, if_pos h0]
    exact ⟨m.entry now, List.getElem?_concat_length, rfl, rfl⟩
  · rw [Registry.resolved, Registry.resolvedId, if_neg h0, if_neg h0]
    exact ⟨e, he, hm⟩

/-- The member loop files every member, and lists their entries in order. -/
theorem filed_admitAll (now unitId : Nat) {ms : List Member} (hs : s.Indexed)
    (hnodup : (ms.map (Member.keyHash E)).Nodup) (hok : ∀ m ∈ ms, EntryOk E s m) :
    ∃ ids, List.Forall₂ (Filed E (ms.foldl (Registry.admitted E now unitId) s)) ms ids ∧
      (ms.foldl (Registry.admitted E now unitId) s).groupEntryIds unitId =
        s.groupEntryIds unitId ++ ids := by
  induction ms generalizing s with
  | nil => exact ⟨[], .nil, (List.append_nil _).symm⟩
  | cons m ms ih =>
      rw [List.map_cons, List.nodup_cons] at hnodup
      have hrest : ∀ m' ∈ ms, EntryOk E (s.admitted E now unitId m) m' := by
        intro m' hm'
        apply (EntryOk.admitted_iff hs _).mpr (hok m' (List.mem_cons_of_mem _ hm'))
        intro heq
        exact hnodup.1 (heq ▸ List.mem_map_of_mem hm')
      obtain ⟨ids, hids, hlist⟩ := ih (hs.admitted now unitId m) hnodup.2 hrest
      refine ⟨s.resolvedId E m :: ids, .cons ?_ hids, ?_⟩
      · have hm : Filed E (s.admitted E now unitId m) m (s.resolvedId E m) :=
          (hok m List.mem_cons_self).filed now
        exact hm.mono (Extends.admitAll unitId now ms _)
      · have hself : (s.admitted E now unitId m).groupEntryIds unitId =
            s.groupEntryIds unitId ++ [s.resolvedId E m] := by
          have hres : (s.resolved E now m).groupEntryIds = s.groupEntryIds := by
            unfold Registry.resolved
            split <;> rfl
          simp [Registry.admitted, Registry.linkMember, hres]
        rw [List.foldl_cons, hlist, hself, List.append_assoc]
        rfl

/-! ## Records -/

variable (E d) in
/-- What is known of a unit: the call that opened it. -/
structure UnitRecord (s : Registry) (i : Nat) (a : RegisterArgs) (now : Nat) : Prop where
  payload : E.decode (s.registerPayload i) = some (.register a)
  row : s.units[i]? = some (a.unit E now)
  ok : RegisterOk E d a
  members : List.Forall₂ (Filed E s) a.members (s.groupEntryIds i)

variable (E d) in
/-- What is known of a reference: the call that made it, and its group. -/
structure ReferenceRecord (s : Registry) (i : Nat) (a : ReferArgs) (r : Reference)
    (unit : GroupUnit) : Prop where
  payload : E.decode (s.referPayload i) = some (.refer a)
  row : s.references[i]? = some r
  metadata : r.metadata = a.metadata
  group : s.unitIdPlusOneByGroupKey (E.keccak256 a.groupPublicKey) = r.unitId + 1
  unit_row : s.units[r.unitId]? = some unit
  ok : ReferOk E d unit.rpId a
  member : Filed E s a.member r.entryId

variable (E d) in
/-- Every row has its record. -/
structure Recorded (s : Registry) : Prop where
  units : ∀ i < s.units.length, ∃ a now, UnitRecord E d s i a now
  references : ∀ i < s.references.length, ∃ a r unit, ReferenceRecord E d s i a r unit

theorem UnitRecord.lt_length {i now : Nat} {a : RegisterArgs} (h : UnitRecord E d s i a now) :
    i < s.units.length :=
  (List.getElem?_eq_some_iff.mp h.row).1

theorem UnitRecord.mono {i : Nat} {a : RegisterArgs} (hx : Extends n s s') (hi : i < n)
    (h : UnitRecord E d s i a now) : UnitRecord E d s' i a now where
  payload := by rw [hx.registerPayload i hi, h.payload]
  row := getElem?_of_prefix hx.units h.row
  ok := h.ok
  members := by
    rw [hx.members i hi]
    exact h.members.imp fun _ _ hm => hm.mono hx

theorem ReferenceRecord.mono {i : Nat} {a : ReferArgs} {r : Reference} {unit : GroupUnit}
    (hx : Extends n s s') (h : ReferenceRecord E d s i a r unit) :
    ReferenceRecord E d s' i a r unit where
  payload := by
    rw [hx.referPayload i (List.getElem?_eq_some_iff.mp h.row).1, h.payload]
  row := getElem?_of_prefix hx.references h.row
  metadata := h.metadata
  group := hx.groups _ _ h.group
  unit_row := getElem?_of_prefix hx.units h.unit_row
  ok := h.ok
  member := h.member.mono hx

theorem admitAll_units (now unitId : Nat) (ms : List Member) (s : Registry) :
    (ms.foldl (Registry.admitted E now unitId) s).units = s.units := by
  induction ms generalizing s with
  | nil => rfl
  | cons m ms ih => rw [List.foldl_cons, ih, admitted_units]

theorem admitAll_references (now unitId : Nat) (ms : List Member) (s : Registry) :
    (ms.foldl (Registry.admitted E now unitId) s).references = s.references := by
  induction ms generalizing s with
  | nil => rfl
  | cons m ms ih =>
      rw [List.foldl_cons, ih]
      exact resolved_references s now m

theorem registered_units (s : Registry) (now : Nat) (data : Bytes) (a : RegisterArgs) :
    (s.registered E now data a).units = s.units ++ [a.unit E now] :=
  admitAll_units now _ a.members _

theorem registered_references (s : Registry) (now : Nat) (data : Bytes) (a : RegisterArgs) :
    (s.registered E now data a).references = s.references :=
  admitAll_references now _ a.members _

/-- The record of the unit a call has just opened. -/
theorem unitRecord_registered {a : RegisterArgs} (hc : Consistent E s)
    (hdec : E.decode data = some (.register a)) (hok : RegisterOk E d a)
    (hentries : ∀ m ∈ a.members, EntryOk E s m) :
    UnitRecord E d (s.registered E now data a) s.units.length a now where
  payload := by
    simp only [Registry.registered, Registry.storeRegisterPayload, Function.update_self, hdec]
  row := by
    rw [registered_units]
    exact List.getElem?_concat_length
  ok := hok
  members := by
    have hnone : s.groupEntryIds s.units.length = [] := by
      rw [List.eq_nil_iff_forall_not_mem]
      intro e he
      have := (hc.member_lt _ _ ((hc.members.mem_fwd _ e).mp he)).1
      omega
    obtain ⟨ids, hids, hlist⟩ := filed_admitAll now s.units.length
      (s := s.openUnit (E.keccak256 a.groupPublicKey) (a.unit E now)) hc.indexed hok.distinct
      hentries
    have heq : (s.registered E now data a).groupEntryIds s.units.length = ids := by
      refine hlist.trans ?_
      show s.groupEntryIds s.units.length ++ ids = ids
      rw [hnone, List.nil_append]
    rw [heq]
    exact hids

/-- The record of the reference a call has just made. -/
theorem referenceRecord_referred {a : ReferArgs} {unit : GroupUnit}
    (hdec : E.decode data = some (.refer a))
    (hgroup : s.unitIdPlusOneByGroupKey (E.keccak256 a.groupPublicKey) = unitId + 1)
    (hunit : s.units[unitId]? = some unit) (hok : ReferOk E d unit.rpId a)
    (hentry : EntryOk E s a.member) :
    ReferenceRecord E d (s.referred E now data unitId a) s.references.length a
      { entryId := s.resolvedId E a.member, unitId := unitId, metadata := a.metadata,
        createdAt := now } unit where
  payload := by
    simp only [Registry.referred, Registry.pushReference, resolved_references,
      Function.update_self, hdec]
  row := by
    simp only [Registry.referred, Registry.pushReference, resolved_references]
    exact List.getElem?_concat_length
  metadata := rfl
  group := (Extends.referred 0 s now data unitId a).groups _ _ hgroup
  unit_row := getElem?_of_prefix (Extends.referred 0 s now data unitId a).units hunit
  ok := hok
  member := (hentry.filed now).mono (Extends.pushReference 0 _ _ data)

theorem Reachable.recorded (h : Reachable E d s) : Recorded E d s := by
  apply Reachable.induction (P := Recorded E d) _ _ _ h
  · exact ⟨fun i hi => absurd hi (Nat.not_lt_zero i), fun i hi => absurd hi (Nat.not_lt_zero i)⟩
  · intro s now data a hs ih hdec hok hfree hentries
    have hx := Extends.registered now data hfree
    constructor
    · intro i hi
      rw [registered_units, List.length_append, List.length_singleton] at hi
      rcases Nat.lt_succ_iff_lt_or_eq.mp hi with hlt | rfl
      · obtain ⟨a', now', h'⟩ := ih.units i hlt
        exact ⟨a', now', h'.mono hx hlt⟩
      · exact ⟨a, now, unitRecord_registered hs.consistent hdec hok hentries⟩
    · intro i hi
      rw [registered_references] at hi
      obtain ⟨a', r, unit, h'⟩ := ih.references i hi
      exact ⟨a', r, unit, h'.mono hx⟩
  · intro s now data a unitId unit hs ih hdec hgroup hunit hok hentry _
    have hx := Extends.referred (E := E) s.units.length s now data unitId a
    constructor
    · intro i hi
      have hi' : i < s.units.length := by
        simpa [Registry.referred, Registry.pushReference] using hi
      obtain ⟨a', now', h'⟩ := ih.units i hi'
      exact ⟨a', now', h'.mono hx hi'⟩
    · intro i hi
      simp only [Registry.referred, Registry.pushReference, resolved_references,
        List.length_append, List.length_singleton] at hi
      rcases Nat.lt_succ_iff_lt_or_eq.mp hi with hlt | rfl
      · obtain ⟨a', r, unit', h'⟩ := ih.references i hlt
        exact ⟨a', r, unit', h'.mono hx⟩
      · exact ⟨a, _, unit, referenceRecord_referred hdec hgroup hunit hok hentry⟩

end P256Index.Contract
