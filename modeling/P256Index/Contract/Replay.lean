import P256Index.Contract.Record
import P256Index.Contract.Sample

/-!
# Migration by replay

Every accepted call is stored verbatim, to be sent again to an empty deployment of the same
signature domain: first all `register` payloads, then all `refer` payloads, each phase in any order.
A replayed call meets its own checks again (the record of its row says so) and never a second copy
of itself, so the one thing that can differ is which call meets a key first. The limits on a
member's fields are checked at that first meeting only, and `migrates_iff` says what follows: the
replay is accepted in every order exactly if every stored call satisfies the limits by itself.
-/

namespace P256Index.Contract

variable {E : Evm} {d : Domain} {s t : Registry} {now : Nat} {data : Bytes}

/-- `registerPayloadOf` of every unit. -/
def Registry.registerPayloads (s : Registry) : List Bytes :=
  (List.range s.units.length).map s.registerPayload

/-- `referPayloadOf` of every reference. -/
def Registry.referPayloads (s : Registry) : List Bytes :=
  (List.range s.references.length).map s.referPayload

variable (E d) in
/-- The stored calls are accepted by an empty deployment, in every order within the two phases and
at any block times. -/
def Migrates (s : Registry) : Prop :=
  ∀ registers refers : List (Nat × Bytes),
    (registers.map Prod.snd).Perm s.registerPayloads → (refers.map Prod.snd).Perm s.referPayloads →
      ∃ t, calls E d (registers ++ refers) Registry.empty = .ok t

variable (E) in
/-- Every stored call satisfies the first-sight limits by itself; the member of a refer may instead
have its key among the members of some register, which the replay sends before. -/
structure WithinLimits (s : Registry) : Prop where
  registers : ∀ data ∈ s.registerPayloads, ∀ a, E.decode data = some (.register a) →
    ∀ m ∈ a.members, FirstSightOk m
  refers : ∀ data ∈ s.referPayloads, ∀ a, E.decode data = some (.refer a) →
    FirstSightOk a.member ∨ ∃ data' ∈ s.registerPayloads, ∃ b,
      E.decode data' = some (.register b) ∧ ∃ m ∈ b.members, m.keyHash E = a.member.keyHash E

/-! ## Payloads and records -/

theorem Registry.mem_registerPayloads :
    data ∈ s.registerPayloads ↔ ∃ i < s.units.length, s.registerPayload i = data := by
  simp only [Registry.registerPayloads, List.mem_map, List.mem_range]

theorem Registry.mem_referPayloads :
    data ∈ s.referPayloads ↔ ∃ i < s.references.length, s.referPayload i = data := by
  simp only [Registry.referPayloads, List.mem_map, List.mem_range]

theorem Reachable.register_record (h : Reachable E d s) (hmem : data ∈ s.registerPayloads) :
    ∃ i a now, s.registerPayload i = data ∧ UnitRecord E d s i a now := by
  obtain ⟨i, hi, rfl⟩ := Registry.mem_registerPayloads.mp hmem
  obtain ⟨a, now, ha⟩ := h.recorded.units i hi
  exact ⟨i, a, now, rfl, ha⟩

theorem Reachable.refer_record (h : Reachable E d s) (hmem : data ∈ s.referPayloads) :
    ∃ i a r u, s.referPayload i = data ∧ ReferenceRecord E d s i a r u := by
  obtain ⟨i, hi, rfl⟩ := Registry.mem_referPayloads.mp hmem
  obtain ⟨a, r, u, ha⟩ := h.recorded.references i hi
  exact ⟨i, a, r, u, rfl, ha⟩

/-- The unit of a record is found by the hash of its group key. -/
theorem UnitRecord.group {i now : Nat} {a : RegisterArgs} (hc : Consistent E s)
    (h : UnitRecord E d s i a now) :
    s.unitIdPlusOneByGroupKey (E.keccak256 a.groupPublicKey) = i + 1 :=
  (hc.groups _ _).mpr ⟨_, h.row, rfl⟩

/-- Two members on file under one key hash carry the same attestation and credential hashes. -/
theorem Filed.same {m m' : Member} {i i' : Nat} (h : Filed E s m i) (h' : Filed E s m' i')
    (hk : m.keyHash E = m'.keyHash E) : i = i' ∧
      E.keccak256 m.attestation = E.keccak256 m'.attestation ∧
        E.keccak256 m.credentialId = E.keccak256 m'.credentialId := by
  obtain ⟨hi, e, he, ha, hc⟩ := h
  obtain ⟨hi', e', he', ha', hc'⟩ := h'
  rw [hk, hi'] at hi
  obtain rfl : i' = i := by omega
  cases he.symm.trans he'
  exact ⟨rfl, ha.symm.trans ha', hc.symm.trans hc'⟩

variable (E) in
/-- A member that some stored payload names. -/
def StoredMember (s : Registry) (m : Member) : Prop :=
  (∃ data ∈ s.registerPayloads, ∃ a, E.decode data = some (.register a) ∧ m ∈ a.members) ∨
    ∃ data ∈ s.referPayloads, ∃ a, E.decode data = some (.refer a) ∧ m = a.member

theorem StoredMember.mono {m : Member} (hreg : s.registerPayloads ⊆ t.registerPayloads)
    (href : s.referPayloads ⊆ t.referPayloads) (h : StoredMember E s m) : StoredMember E t m := by
  rcases h with ⟨data, hdata, h⟩ | ⟨data, hdata, h⟩
  · exact Or.inl ⟨data, hreg hdata, h⟩
  · exact Or.inr ⟨data, href hdata, h⟩

/-- What a payload names is on file. -/
theorem StoredMember.filed {m : Member} (hs : Reachable E d s) (h : StoredMember E s m) :
    ∃ id, Filed E s m id := by
  rcases h with ⟨data, hdata, a, hdec, hm⟩ | ⟨data, hdata, a, hdec, rfl⟩
  · obtain ⟨i, b, now, rfl, hb⟩ := hs.register_record hdata
    cases hdec.symm.trans hb.payload
    obtain ⟨id, -, hid⟩ := exists_of_forall₂_left hb.members hm
    exact ⟨id, hid⟩
  · obtain ⟨i, b, r, u, rfl, hb⟩ := hs.refer_record hdata
    cases hdec.symm.trans hb.payload
    exact ⟨_, hb.member⟩

/-- What is on file is named by a payload. -/
theorem Reachable.storedMember_of_lt (h : Reachable E d s) {i : Nat} (hi : i < s.entries.length) :
    ∃ m, StoredMember E s m ∧ Filed E s m i := by
  rcases h.owned i hi with ⟨u, hu⟩ | ⟨r, hr, rfl⟩
  · have hlt := (h.consistent.member_lt u i hu).1
    obtain ⟨a, now, ha⟩ := h.recorded.units u hlt
    obtain ⟨m, hm, hfiled⟩ :=
      exists_of_forall₂_right ha.members ((h.consistent.members.mem_fwd u i).mpr hu)
    exact ⟨m, Or.inl ⟨_, Registry.mem_registerPayloads.mpr ⟨u, hlt, rfl⟩, a, ha.payload, hm⟩,
      hfiled⟩
  · obtain ⟨j, hj⟩ := List.getElem?_of_mem hr
    have hlt := (List.getElem?_eq_some_iff.mp hj).1
    obtain ⟨a, r', u, ha⟩ := h.recorded.references j hlt
    cases hj.symm.trans ha.row
    exact ⟨a.member, Or.inr ⟨_, Registry.mem_referPayloads.mpr ⟨j, hlt, rfl⟩, a, ha.payload, rfl⟩,
      ha.member⟩

theorem Reachable.storedMember_of_ne_zero (h : Reachable E d s) {k : Bytes32}
    (hk : s.entryIdPlusOneByKey k ≠ 0) :
    ∃ m i, StoredMember E s m ∧ Filed E s m i ∧ m.keyHash E = k ∧
      s.entryIdPlusOneByKey k = i + 1 := by
  obtain ⟨i, hi⟩ := Nat.exists_eq_succ_of_ne_zero hk
  have hlt : i < s.entries.length := by
    have := h.indexed k
    omega
  obtain ⟨m, hm, hfiled⟩ := h.storedMember_of_lt hlt
  refine ⟨m, i, hm, hfiled, ?_, hi⟩
  obtain ⟨e, he, hek⟩ := (h.consistent.keys _ _).mp hi
  obtain ⟨e', he', hek'⟩ := (h.consistent.keys _ _).mp hfiled.1
  cases he.symm.trans he'
  exact hek'.symm.trans hek

/-! ## Growth of the payload lists -/

theorem map_range_update {n : Nat} {f : Nat → Bytes} {data : Bytes} :
    (List.range (n + 1)).map (Function.update f n data) = (List.range n).map f ++ [data] := by
  rw [List.range_succ, List.map_append, List.map_singleton, Function.update_self]
  congr 1
  apply List.map_congr_left
  intro i hi
  exact Function.update_of_ne (Nat.ne_of_lt (List.mem_range.mp hi)) _ _

theorem admitAll_payloads (now unitId : Nat) (ms : List Member) (s : Registry) :
    (ms.foldl (Registry.admitted E now unitId) s).registerPayload = s.registerPayload ∧
      (ms.foldl (Registry.admitted E now unitId) s).referPayload = s.referPayload := by
  induction ms generalizing s with
  | nil => exact ⟨rfl, rfl⟩
  | cons m ms ih =>
      have hm : (s.admitted E now unitId m).registerPayload = s.registerPayload ∧
          (s.admitted E now unitId m).referPayload = s.referPayload := by
        unfold Registry.admitted Registry.resolved
        split <;> exact ⟨rfl, rfl⟩
      rw [List.foldl_cons, (ih _).1, (ih _).2]
      exact hm

theorem registered_registerPayloads (s : Registry) (now : Nat) (data : Bytes) (a : RegisterArgs) :
    (s.registered E now data a).registerPayloads = s.registerPayloads ++ [data] := by
  have hpay : (s.registered E now data a).registerPayload =
      Function.update s.registerPayload s.units.length data := by
    simp only [Registry.registered, Registry.storeRegisterPayload, (admitAll_payloads ..).1]
    rfl
  rw [Registry.registerPayloads, registered_units, hpay, List.length_append,
    List.length_singleton]
  exact map_range_update

theorem registered_referPayloads (s : Registry) (now : Nat) (data : Bytes) (a : RegisterArgs) :
    (s.registered E now data a).referPayloads = s.referPayloads := by
  have hpay : (s.registered E now data a).referPayload = s.referPayload := (admitAll_payloads ..).2
  rw [Registry.referPayloads, registered_references, hpay]
  rfl

theorem referred_registerPayloads (s : Registry) (now : Nat) (data : Bytes) (u : Nat)
    (a : ReferArgs) : (s.referred E now data u a).registerPayloads = s.registerPayloads := by
  unfold Registry.referred Registry.resolved
  split <;> rfl

theorem referred_referPayloads (s : Registry) (now : Nat) (data : Bytes) (u : Nat)
    (a : ReferArgs) : (s.referred E now data u a).referPayloads = s.referPayloads ++ [data] := by
  unfold Registry.referred Registry.resolved
  split
  · rw [Registry.referPayloads, Registry.pushReference, List.length_append, List.length_singleton]
    exact map_range_update
  · rw [Registry.referPayloads, Registry.pushReference, List.length_append, List.length_singleton]
    exact map_range_update

/-! ## No two rows share a payload -/

theorem Reachable.registerPayload_inj (h : Reachable E d s) {i j : Nat} {a a' : RegisterArgs}
    {now now' : Nat} (hi : UnitRecord E d s i a now) (hj : UnitRecord E d s j a' now')
    (hg : E.keccak256 a.groupPublicKey = E.keccak256 a'.groupPublicKey) : i = j :=
  h.consistent.groups.unique hi.row hj.row hg

theorem Reachable.referPayload_inj (h : Reachable E d s) {i j : Nat} {a a' : ReferArgs}
    {r r' : Reference} {u u' : GroupUnit} (hi : ReferenceRecord E d s i a r u)
    (hj : ReferenceRecord E d s j a' r' u')
    (hg : E.keccak256 a.groupPublicKey = E.keccak256 a'.groupPublicKey)
    (hk : a.member.keyHash E = a'.member.keyHash E) : i = j := by
  have hunit : r.unitId = r'.unitId := by
    have h1 := hi.group
    rw [hg, hj.group] at h1
    omega
  have hentry : r.entryId = r'.entryId := (hi.member.same hj.member hk).1
  exact h.consistent.links.unique hi.row hj.row (Prod.ext hunit hentry)

theorem Reachable.registerPayloads_nodup (h : Reachable E d s) : s.registerPayloads.Nodup := by
  apply List.Nodup.map_on _ List.nodup_range
  intro i hi j hj heq
  obtain ⟨a, now, ha⟩ := h.recorded.units i (List.mem_range.mp hi)
  obtain ⟨a', now', ha'⟩ := h.recorded.units j (List.mem_range.mp hj)
  have hdec := ha.payload
  rw [heq, ha'.payload] at hdec
  cases hdec
  exact h.registerPayload_inj ha ha' rfl

theorem Reachable.referPayloads_nodup (h : Reachable E d s) : s.referPayloads.Nodup := by
  apply List.Nodup.map_on _ List.nodup_range
  intro i hi j hj heq
  obtain ⟨a, r, u, ha⟩ := h.recorded.references i (List.mem_range.mp hi)
  obtain ⟨a', r', u', ha'⟩ := h.recorded.references j (List.mem_range.mp hj)
  have hdec := ha.payload
  rw [heq, ha'.payload] at hdec
  cases hdec
  exact h.referPayload_inj ha ha' rfl rfl

/-! ## One replayed call

`s` is the state being migrated, `t` the copy so far: all its payloads are payloads of `s`. -/

section Step

variable (hs : Reachable E d s) (ht : Reachable E d t)
  (hreg : t.registerPayloads ⊆ s.registerPayloads) (href : t.referPayloads ⊆ s.referPayloads)

include hs ht hreg href

/-- A key the copy knows came from a payload of `s`, which agrees with every other one. -/
theorem entryOk_of_copy {m : Member} (hm : StoredMember E s m)
    (hfirst : t.entryIdPlusOneByKey (m.keyHash E) = 0 → FirstSightOk m) : EntryOk E t m := by
  by_cases h0 : t.entryIdPlusOneByKey (m.keyHash E) = 0
  · exact Or.inl ⟨h0, hfirst h0⟩
  · obtain ⟨m', i, hm', ⟨-, e, he, hatt, hcred⟩, hk, hi⟩ := ht.storedMember_of_ne_zero h0
    obtain ⟨id, hid⟩ := hm.filed hs
    obtain ⟨id', hid'⟩ := (hm'.mono hreg href).filed hs
    obtain ⟨-, hatt', hcred'⟩ := hid'.same hid hk
    refine Or.inr ⟨h0, e, ?_, hatt.trans hatt', hcred.trans hcred'⟩
    rw [hi, Nat.add_sub_cancel]
    exact he

theorem replay_register (hlim : WithinLimits E s) (hdata : data ∈ s.registerPayloads)
    (hnew : data ∉ t.registerPayloads) (now : Nat) :
    ∃ a, call E d now data t = .ok (t.registered E now data a) := by
  obtain ⟨i, a, at', rfl, ha⟩ := hs.register_record hdata
  refine ⟨a, call_eq_ok.mpr (Or.inl ⟨a, ha.payload, (register_eq_ok ht.indexed).mpr
    ⟨ha.ok, ?_, ?_, rfl⟩⟩)⟩
  · -- a unit of the copy with this group key would be this payload's own
    by_contra h0
    obtain ⟨j, hj⟩ := Nat.exists_eq_succ_of_ne_zero h0
    obtain ⟨u, hu, hk⟩ := (ht.consistent.groups _ _).mp hj
    obtain ⟨b, bt, hb⟩ := ht.recorded.units j (List.getElem?_eq_some_iff.mp hu).1
    cases hu.symm.trans hb.row
    have hmem : t.registerPayload j ∈ t.registerPayloads :=
      Registry.mem_registerPayloads.mpr ⟨j, hb.lt_length, rfl⟩
    obtain ⟨i', b', bt', hpay, hb'⟩ := hs.register_record (hreg hmem)
    have hdec := hb'.payload
    rw [hpay, hb.payload] at hdec
    cases hdec
    obtain rfl := hs.registerPayload_inj ha hb' hk.symm
    rw [hpay] at hnew
    exact hnew hmem
  · intro m hm
    apply entryOk_of_copy hs ht hreg href (Or.inl ⟨_, hdata, a, ha.payload, hm⟩)
    intro _
    exact hlim.registers _ hdata a ha.payload m hm

theorem replay_refer (hlim : WithinLimits E s) (hall : s.registerPayloads ⊆ t.registerPayloads)
    (hdata : data ∈ s.referPayloads) (hnew : data ∉ t.referPayloads) (now : Nat) :
    ∃ u a, call E d now data t = .ok (t.referred E now data u a) := by
  obtain ⟨i, a, r, u, rfl, ha⟩ := hs.refer_record hdata
  -- the group was registered in `s`, hence is in the copy, with the same rpId
  obtain ⟨b, bt, hb⟩ := hs.recorded.units r.unitId (List.getElem?_eq_some_iff.mp ha.unit_row).1
  cases ha.unit_row.symm.trans hb.row
  have hgroup : E.keccak256 b.groupPublicKey = E.keccak256 a.groupPublicKey := by
    obtain ⟨u', hu', hk⟩ := (hs.consistent.groups _ _).mp ha.group
    cases ha.unit_row.symm.trans hu'
    exact hk
  have hpay : s.registerPayload r.unitId ∈ t.registerPayloads :=
    hall (Registry.mem_registerPayloads.mpr ⟨_, hb.lt_length, rfl⟩)
  obtain ⟨j, b', bt', hpay', hb'⟩ := ht.register_record hpay
  have hdec := hb'.payload
  rw [hpay', hb.payload] at hdec
  cases hdec
  have hunit := hb'.group ht.consistent
  rw [hgroup] at hunit
  refine ⟨j, a, call_eq_ok.mpr (Or.inr ⟨a, ha.payload, refer_eq_ok.mpr
    ⟨j, _, hunit, hb'.row, ha.ok, ?_, ?_, rfl⟩⟩)⟩
  · apply entryOk_of_copy hs ht hreg href (Or.inr ⟨_, hdata, a, ha.payload, rfl⟩)
    intro h0
    rcases hlim.refers _ hdata a ha.payload with hfirst | ⟨data', hdata', c, hc, m, hm, hk⟩
    · exact hfirst
    · -- a register named this key, so the copy knows it
      obtain ⟨id, hid⟩ := StoredMember.filed ht (Or.inl ⟨data', hall hdata', c, hc, hm⟩)
      rw [← hk, hid.1] at h0
      cases h0
  · -- a reference of the copy for this pair would be this payload's own
    by_contra hlink
    obtain ⟨k, hk⟩ := Nat.exists_eq_succ_of_ne_zero hlink
    obtain ⟨r', hr', hpair⟩ := (ht.consistent.links (j, t.resolvedId E a.member) k).mp hk
    obtain ⟨hru, hre⟩ := Prod.mk.inj hpair
    have hlt := (List.getElem?_eq_some_iff.mp hr').1
    obtain ⟨c, r'', v, hc⟩ := ht.recorded.references k hlt
    cases hr'.symm.trans hc.row
    have hcg : E.keccak256 c.groupPublicKey = E.keccak256 a.groupPublicKey := by
      obtain ⟨v', hv', hvk⟩ := (ht.consistent.groups _ _).mp hc.group
      obtain ⟨w, hw, hwk⟩ := (ht.consistent.groups _ _).mp hunit
      rw [hru] at hv'
      cases hv'.symm.trans hw
      exact hvk.symm.trans hwk
    have hck : c.member.keyHash E = a.member.keyHash E := by
      by_contra hne
      exact ht.consistent.resolvedId_ne hne hc.member.1 hre
    have hmem : t.referPayload k ∈ t.referPayloads :=
      Registry.mem_referPayloads.mpr ⟨k, hlt, rfl⟩
    obtain ⟨i', c', r₂, v₂, hpay₂, hc'⟩ := hs.refer_record (href hmem)
    have hdec₂ := hc'.payload
    rw [hpay₂, hc.payload] at hdec₂
    cases hdec₂
    obtain rfl := hs.referPayload_inj ha hc' hcg.symm hck.symm
    rw [hpay₂] at hnew
    exact hnew hmem

end Step

/-! ## Whole replays -/

theorem calls_cons_eq_ok {xs : List (Nat × Bytes)} {s' : Registry} :
    calls E d ((now, data) :: xs) s = .ok s' ↔
      ∃ t, call E d now data s = .ok t ∧ calls E d xs t = .ok s' := by
  rw [calls, Except.bind_eq_ok]

theorem calls_append_eq_ok {xs ys : List (Nat × Bytes)} {s' : Registry} :
    calls E d (xs ++ ys) s = .ok s' ↔
      ∃ t, calls E d xs s = .ok t ∧ calls E d ys t = .ok s' := by
  induction xs generalizing s with
  | nil =>
      constructor
      · exact fun h => ⟨s, rfl, h⟩
      · rintro ⟨t, ht, h⟩
        cases ht
        exact h
  | cons x xs ih =>
      obtain ⟨now, data⟩ := x
      simp only [List.cons_append, calls_cons_eq_ok, ih]
      constructor
      · rintro ⟨t, ht, u, hu, h⟩
        exact ⟨u, ⟨t, ht, hu⟩, h⟩
      · rintro ⟨u, ⟨t, ht, hu⟩, h⟩
        exact ⟨t, ht, u, hu, h⟩

theorem replay_registers (hs : Reachable E d s) (hlim : WithinLimits E s)
    (xs : List (Nat × Bytes)) (ht : Reachable E d t) (href : t.referPayloads = [])
    (hsub : t.registerPayloads ++ xs.map Prod.snd ⊆ s.registerPayloads)
    (hnodup : (t.registerPayloads ++ xs.map Prod.snd).Nodup) :
    ∃ t', calls E d xs t = .ok t' ∧ Reachable E d t' ∧ t'.referPayloads = [] ∧
      t'.registerPayloads = t.registerPayloads ++ xs.map Prod.snd := by
  induction xs generalizing t with
  | nil => exact ⟨t, rfl, ht, href, (List.append_nil _).symm⟩
  | cons x xs ih =>
      obtain ⟨now, data⟩ := x
      rw [List.map_cons] at hsub hnodup ⊢
      have hmem : data ∈ s.registerPayloads := hsub (by simp)
      have hnew : data ∉ t.registerPayloads := by
        intro hin
        exact (List.nodup_append.mp hnodup).2.2 data hin data List.mem_cons_self rfl
      obtain ⟨a, ha⟩ := replay_register hs ht (List.append_subset.mp hsub).1
        (by rw [href]; exact List.nil_subset _) hlim hmem hnew now
      have hgrow := registered_registerPayloads (E := E) t now data a
      have happ : (t.registered E now data a).registerPayloads ++ xs.map Prod.snd =
          t.registerPayloads ++ data :: xs.map Prod.snd := by
        rw [hgrow, List.append_assoc, List.singleton_append]
      obtain ⟨t', hrun, ht', href', hreg'⟩ := ih (Reachable.call ht ha)
        ((registered_referPayloads t now data a).trans href) (happ ▸ hsub) (happ ▸ hnodup)
      exact ⟨t', calls_cons_eq_ok.mpr ⟨_, ha, hrun⟩, ht', href', hreg'.trans happ⟩

theorem replay_refers (hs : Reachable E d s) (hlim : WithinLimits E s)
    (xs : List (Nat × Bytes)) (ht : Reachable E d t)
    (hreg : t.registerPayloads.Perm s.registerPayloads)
    (hsub : t.referPayloads ++ xs.map Prod.snd ⊆ s.referPayloads)
    (hnodup : (t.referPayloads ++ xs.map Prod.snd).Nodup) :
    ∃ t', calls E d xs t = .ok t' := by
  induction xs generalizing t with
  | nil => exact ⟨t, rfl⟩
  | cons x xs ih =>
      obtain ⟨now, data⟩ := x
      rw [List.map_cons] at hsub hnodup
      have hmem : data ∈ s.referPayloads := hsub (by simp)
      have hnew : data ∉ t.referPayloads := by
        intro hin
        exact (List.nodup_append.mp hnodup).2.2 data hin data List.mem_cons_self rfl
      obtain ⟨u, a, ha⟩ := replay_refer hs ht hreg.subset (List.append_subset.mp hsub).1 hlim
        hreg.symm.subset hmem hnew now
      have happ : (t.referred E now data u a).referPayloads ++ xs.map Prod.snd =
          t.referPayloads ++ data :: xs.map Prod.snd := by
        rw [referred_referPayloads, List.append_assoc, List.singleton_append]
      obtain ⟨t', hrun⟩ := ih (Reachable.call ht ha)
        ((referred_registerPayloads t now data u a).symm ▸ hreg) (happ ▸ hsub) (happ ▸ hnodup)
      exact ⟨t', calls_cons_eq_ok.mpr ⟨_, ha, hrun⟩⟩

theorem migrates_of_withinLimits (h : Reachable E d s) (hlim : WithinLimits E s) :
    Migrates E d s := by
  intro registers refers hregs hrefs
  obtain ⟨t, hrun, ht, href, hreg⟩ := replay_registers h hlim registers Reachable.empty rfl
    hregs.subset (hregs.nodup_iff.mpr h.registerPayloads_nodup)
  obtain ⟨t', hrun'⟩ := replay_refers h hlim refers ht (hreg ▸ hregs)
    (by rw [href]; exact hrefs.subset)
    (by rw [href]; exact hrefs.nodup_iff.mpr h.referPayloads_nodup)
  exact ⟨t', calls_append_eq_ok.mpr ⟨t, hrun, hrun'⟩⟩

variable (E) in
def isRegisterCall (data : Bytes) : Bool :=
  match E.decode data with
  | some (.register _) => true
  | _ => false

variable (E) in
def isReferCall (data : Bytes) : Bool :=
  match E.decode data with
  | some (.refer _) => true
  | _ => false

/-- An accepted run stores its calls in their order, each kind in its own table. -/
theorem calls_payloads {xs : List (Nat × Bytes)} (ht : Reachable E d t) {t' : Registry}
    (h : calls E d xs t = .ok t') : Reachable E d t' ∧
      t'.registerPayloads = t.registerPayloads ++ (xs.map Prod.snd).filter (isRegisterCall E) ∧
      t'.referPayloads = t.referPayloads ++ (xs.map Prod.snd).filter (isReferCall E) := by
  induction xs generalizing t with
  | nil =>
      cases h
      exact ⟨ht, (List.append_nil _).symm, (List.append_nil _).symm⟩
  | cons x xs ih =>
      obtain ⟨now, data⟩ := x
      obtain ⟨t1, h1, hrest⟩ := calls_cons_eq_ok.mp h
      obtain ⟨hreach, hreg, href⟩ := ih (Reachable.call ht h1) hrest
      refine ⟨hreach, ?_⟩
      rw [hreg, href, List.map_cons, List.filter_cons, List.filter_cons]
      rcases call_eq_ok.mp h1 with ⟨b, hb, hcall⟩ | ⟨b, hb, hcall⟩
      · obtain ⟨-, -, -, rfl⟩ := (register_eq_ok ht.indexed).mp hcall
        rw [registered_registerPayloads, registered_referPayloads]
        simp [isRegisterCall, isReferCall, hb]
      · obtain ⟨u, -, -, -, -, -, -, rfl⟩ := refer_eq_ok.mp hcall
        rw [referred_registerPayloads, referred_referPayloads]
        simp [isRegisterCall, isReferCall, hb]

/-- An accepted run of register payloads only adds register payloads. -/
theorem payloads_of_calls {xs : List (Nat × Bytes)} (ht : Reachable E d t)
    (hxs : ∀ x ∈ xs, ∃ a, E.decode x.2 = some (.register a)) {t' : Registry}
    (h : calls E d xs t = .ok t') :
    Reachable E d t' ∧ t'.registerPayloads = t.registerPayloads ++ xs.map Prod.snd ∧
      t'.referPayloads = t.referPayloads := by
  obtain ⟨hreach, hreg, href⟩ := calls_payloads ht h
  have hdec : ∀ data ∈ xs.map Prod.snd, isRegisterCall E data = true ∧ ¬ isReferCall E data := by
    intro data hdata
    obtain ⟨x, hx, rfl⟩ := List.mem_map.mp hdata
    obtain ⟨a, ha⟩ := hxs x hx
    simp [isRegisterCall, isReferCall, ha]
  rw [List.filter_eq_self.mpr fun data hdata => (hdec data hdata).1] at hreg
  rw [List.filter_eq_nil_iff.mpr fun data hdata => (hdec data hdata).2, List.append_nil] at href
  exact ⟨hreach, hreg, href⟩

theorem withinLimits_of_migrates (h : Reachable E d s) (hmig : Migrates E d s) :
    WithinLimits E s := by
  have htimed : ∀ l : List Bytes, (l.map fun b => (0, b)).map Prod.snd = l := by
    intro l
    rw [List.map_map]
    exact List.map_id l
  constructor
  · -- send this register first: every member is new to the empty copy
    intro data hdata a hdec m hm
    obtain ⟨t, ht⟩ := hmig ((data :: s.registerPayloads.erase data).map fun b => (0, b))
      (s.referPayloads.map fun b => (0, b))
      (by rw [htimed]; exact (List.perm_cons_erase hdata).symm)
      (by rw [htimed])
    rw [List.map_cons, List.cons_append, calls_cons_eq_ok] at ht
    obtain ⟨t1, h1, -⟩ := ht
    rcases call_eq_ok.mp h1 with ⟨b, hb, hcall⟩ | ⟨b, hb, -⟩
    · cases hdec.symm.trans hb
      obtain ⟨-, -, hentries, -⟩ := (register_eq_ok fun _ => Nat.le_refl 0).mp hcall
      rcases hentries m hm with ⟨-, hfirst⟩ | ⟨hne, -⟩
      · exact hfirst
      · exact absurd rfl hne
    · cases hdec.symm.trans hb
  · -- send this refer first after the registers: a key it finds came from one of them
    intro data hdata a hdec
    obtain ⟨t, ht⟩ := hmig (s.registerPayloads.map fun b => (0, b))
      ((data :: s.referPayloads.erase data).map fun b => (0, b))
      (by rw [htimed])
      (by rw [htimed]; exact (List.perm_cons_erase hdata).symm)
    obtain ⟨t1, h1, h2⟩ := calls_append_eq_ok.mp ht
    have hdecs : ∀ x ∈ s.registerPayloads.map (fun b => (0, b)),
        ∃ a, E.decode x.2 = some (.register a) := by
      intro x hx
      obtain ⟨b, hb, rfl⟩ := List.mem_map.mp hx
      obtain ⟨i, c, ct, rfl, hc⟩ := h.register_record hb
      exact ⟨c, hc.payload⟩
    obtain ⟨hreach, hreg, href⟩ := payloads_of_calls Reachable.empty hdecs h1
    rw [htimed] at hreg
    rw [List.map_cons, calls_cons_eq_ok] at h2
    obtain ⟨t2, h2, -⟩ := h2
    rcases call_eq_ok.mp h2 with ⟨b, hb, -⟩ | ⟨b, hb, hcall⟩
    · cases hdec.symm.trans hb
    · cases hdec.symm.trans hb
      obtain ⟨_, _, -, -, -, hentry, -⟩ := refer_eq_ok.mp hcall
      rcases hentry with ⟨-, hfirst⟩ | ⟨hne, -⟩
      · exact Or.inl hfirst
      · obtain ⟨m, i, hm, -, hk, -⟩ := hreach.storedMember_of_ne_zero hne
        rcases hm with ⟨data', hdata', c, hc, hmc⟩ | ⟨data', hdata', -⟩
        · rw [hreg] at hdata'
          exact Or.inr ⟨data', hdata', c, hc, m, hmc, hk⟩
        · rw [href] at hdata'
          cases hdata'

/-- The stored calls migrate in every order exactly if each satisfies the first-sight limits by
itself. -/
theorem migrates_iff (h : Reachable E d s) : Migrates E d s ↔ WithinLimits E s :=
  ⟨withinLimits_of_migrates h, migrates_of_withinLimits h⟩

theorem migrates_referred : WithinLimits Sample.evm Sample.referred ∧
    Migrates Sample.evm Sample.domain Sample.referred := by
  have hlim : WithinLimits Sample.evm Sample.referred := by
    constructor
    · intro data hdata a hdec m hm
      have hpay : Sample.referred.registerPayloads = [Sample.registerData] := rfl
      rw [hpay, List.mem_singleton] at hdata
      rw [hdata] at hdec
      cases hdec.symm.trans Sample.decode_registerData
      rw [List.mem_singleton.mp hm]
      exact Sample.member_firstSightOk
    · intro data hdata a hdec
      have hpay : Sample.referred.referPayloads = [Sample.referData] := rfl
      rw [hpay, List.mem_singleton] at hdata
      rw [hdata] at hdec
      cases hdec.symm.trans Sample.decode_referData
      exact Or.inl (by decide)
  exact ⟨hlim, (migrates_iff Sample.reachable_referred).mpr hlim⟩

/-! ## A history that does not migrate

The member joins a second group with a `transports` hint of 256 bytes. Its entry exists by then, so
no limit is checked; in a replay that sends this call first, the entry is new. -/

namespace Sample

def oversizedArgs : RegisterArgs :=
  { otherRegisterArgs with
    members := [{ member with
      proof := otherMemberSignature.proof
      transports := List.replicate 256 0 }] }

def oversizedData : Bytes := encodeCall (.register oversizedArgs)

def oversized : Registry := registered.registered evm 0 oversizedData oversizedArgs

theorem decode_oversizedData : evm.decode oversizedData = some (.register oversizedArgs) :=
  evm.decode_encodeCall (by decide +kernel)

theorem oversizedArgs_ok : RegisterOk evm domain oversizedArgs := by
  have hsigned : oversizedArgs.signed = otherRegisterArgs.signed := rfl
  rw [← registerOk_signed, hsigned, registerOk_signed]
  exact otherRegisterArgs_ok

theorem reachable_oversized : Reachable evm domain oversized := by
  have hcall : call evm domain 0 oversizedData registered = .ok oversized := by
    apply call_eq_ok.mpr (Or.inl ⟨_, decode_oversizedData, _⟩)
    apply (register_eq_ok reachable_registered.indexed).mpr ⟨oversizedArgs_ok, _, _, rfl⟩
    · decide +kernel
    · intro m hm
      rw [List.mem_singleton.mp hm]
      exact Or.inr ⟨by decide +kernel, member.entry 0, by decide +kernel, rfl, rfl⟩
  exact Reachable.call reachable_registered hcall

end Sample

theorem not_migrates_oversized : Reachable Sample.evm Sample.domain Sample.oversized ∧
    ¬ Migrates Sample.evm Sample.domain Sample.oversized := by
  refine ⟨Sample.reachable_oversized, fun hmig => ?_⟩
  have hlim := withinLimits_of_migrates Sample.reachable_oversized hmig
  have hpay : Sample.oversized.registerPayloads = [Sample.registerData, Sample.oversizedData] := rfl
  have hmem : Sample.oversizedData ∈ Sample.oversized.registerPayloads := by
    rw [hpay]
    exact List.mem_cons_of_mem _ List.mem_cons_self
  have hfirst := hlim.registers _ hmem _ Sample.decode_oversizedData _ List.mem_cons_self
  exact absurd hfirst.transports (by decide +kernel)

end P256Index.Contract
