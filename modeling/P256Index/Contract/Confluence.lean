import P256Index.Contract.Growth

/-!
# The order of writing does not matter

A registry is read off from the calls it stored. A unit and a reference are what their payload says,
and an entry is what every payload that names its key says, since later calls are held to the first.
So two runs that accept the same calls in different orders leave the same rows, under other ids and
at other times, with other display hints perhaps.
-/

namespace P256Index.Contract

variable {E : Evm} {d : Domain} {s t : Registry} {data : Bytes}

/-! ## Rows without their ids -/

/-- An entry without its id, its display hints and its time. -/
def Entry.content (e : Entry) : Bytes × Bytes × Bytes :=
  (e.publicKey, e.attestation, e.credentialId)

/-- A unit without its id and its time, with its members by key and its stored call. -/
structure UnitContent where
  rpId : Bytes
  metadata : Bytes
  groupPublicKey : Bytes
  contentHash : Bytes32
  memberKeys : List Bytes
  payload : Bytes
  deriving DecidableEq

/-- A reference with its group and its member by key, without its id and its time. -/
structure ReferenceContent where
  groupPublicKey : Option Bytes
  memberKey : Option Bytes
  metadata : Bytes
  payload : Bytes
  deriving DecidableEq

def Registry.unitContent (s : Registry) (i : Nat) (unit : GroupUnit) : UnitContent where
  rpId := unit.rpId
  metadata := unit.metadata
  groupPublicKey := unit.groupPublicKey
  contentHash := unit.contentHash
  memberKeys := (s.memberEntries i).map Entry.publicKey
  payload := s.registerPayload i

def Registry.unitContents (s : Registry) : List UnitContent :=
  s.units.zipIdx.map fun row => s.unitContent row.2 row.1

def Registry.referenceContent (s : Registry) (i : Nat) (r : Reference) : ReferenceContent where
  groupPublicKey := s.units[r.unitId]?.map GroupUnit.groupPublicKey
  memberKey := s.entries[r.entryId]?.map Entry.publicKey
  metadata := r.metadata
  payload := s.referPayload i

def Registry.referenceContents (s : Registry) : List ReferenceContent :=
  s.references.zipIdx.map fun row => s.referenceContent row.2 row.1

/-- The same rows under other ids: entries by key, units with their ordered members, references by
group and member, each with its stored call, and the same rpIds with the same totals. -/
structure SameRecords (s t : Registry) : Prop where
  entries : (s.entries.map Entry.content).Perm (t.entries.map Entry.content)
  units : s.unitContents.Perm t.unitContents
  references : s.referenceContents.Perm t.referenceContents
  rpIds : s.rpIds.Perm t.rpIds
  totals : ∀ rpId, (s.unitIdsByRpId rpId).length = (t.unitIdsByRpId rpId).length

/-! ## Rows from payloads -/

/-- A list with its positions, read off position by position. -/
theorem map_zipIdx_eq {α β γ : Type} {rows : List α} {f : α × Nat → β} {g : γ → Option β}
    {payload : Nat → γ}
    (h : ∀ i r, rows[i]? = some r → g (payload i) = some (f (r, i))) :
    rows.zipIdx.map f = ((List.range rows.length).map payload).filterMap g := by
  induction rows using List.reverseRecOn with
  | nil => rfl
  | append_singleton rows r ih =>
      have hlast := h rows.length r List.getElem?_concat_length
      have hinit : ∀ i r', rows[i]? = some r' → g (payload i) = some (f (r', i)) := by
        intro i r' hr'
        have hlt := (List.getElem?_eq_some_iff.mp hr').1
        exact h i r' (by rw [List.getElem?_append_left hlt, hr'])
      rw [List.zipIdx_append, List.map_append, ih hinit, List.length_append, List.length_singleton,
        List.range_succ, List.map_append, List.filterMap_append]
      simp [hlast]

variable (E) in
/-- The unit a register payload makes. -/
def unitOf (data : Bytes) : Option UnitContent :=
  match E.decode data with
  | some (.register a) => some
      { rpId := a.rpId
        metadata := a.metadata
        groupPublicKey := a.groupPublicKey
        contentHash := contentHashFor E a.rpId a.metadata a.groupPublicKey a.members
        memberKeys := a.members.map Member.publicKey
        payload := data }
  | _ => none

variable (E) in
/-- The reference a refer payload makes. -/
def referenceOf (data : Bytes) : Option ReferenceContent :=
  match E.decode data with
  | some (.refer a) => some
      { groupPublicKey := some a.groupPublicKey
        memberKey := some a.member.publicKey
        metadata := a.metadata
        payload := data }
  | _ => none

/-- The units are what the register payloads say. -/
theorem unitContents_eq (h : Reachable E d s) (hS : Set.InjOn E.keccak256 (s.hashed E)) :
    s.unitContents = s.registerPayloads.filterMap (unitOf E) := by
  apply map_zipIdx_eq
  intro i unit hunit
  obtain ⟨a, now, ha⟩ := h.recorded.units i (List.getElem?_eq_some_iff.mp hunit).1
  cases hunit.symm.trans ha.row
  have hkeys : (s.memberEntries i).map Entry.publicKey = a.members.map Member.publicKey := by
    have hsame := ha.memberEntries h.consistent hS
    have hforall : List.Forall₂ (· = ·) ((s.memberEntries i).map Entry.publicKey)
        (a.members.map Member.publicKey) :=
      List.forall₂_map_left_iff.mpr (List.forall₂_map_right_iff.mpr
        (hsame.flip.imp fun e m hm => hm.2.1))
    rwa [List.forall₂_eq_eq_eq] at hforall
  rw [unitOf, ha.payload]
  simp only [Registry.unitContent, hkeys]
  rfl

/-- The references are what the refer payloads say. -/
theorem referenceContents_eq (h : Reachable E d s) (hS : Set.InjOn E.keccak256 (s.hashed E)) :
    s.referenceContents = s.referPayloads.filterMap (referenceOf E) := by
  apply map_zipIdx_eq
  intro i r hr
  obtain ⟨a, r', u, ha⟩ := h.recorded.references i (List.getElem?_eq_some_iff.mp hr).1
  cases hr.symm.trans ha.row
  obtain ⟨e, he, hkey, -⟩ := ha.entry_eq h.consistent hS
  rw [referenceOf, ha.payload]
  simp only [Registry.referenceContent, ha.unit_row, he, Option.map_some, hkey, ha.group_eq h hS,
    ha.metadata]

/-! ## Entries from payloads -/

variable (E) in
/-- The strings behind the comparison of a member with its entry. -/
def Registry.compared (s : Registry) : Set Bytes :=
  s.hashed E ∪
    {b | (∃ e ∈ s.entries, b = e.credentialId) ∨ ∃ m, StoredMember E s m ∧ b = m.credentialId}

theorem StoredMember.hashed {m : Member} (hs : Reachable E d s) (h : StoredMember E s m) :
    m.publicKey ∈ s.hashed E ∧ m.attestation ∈ s.hashed E := by
  rcases h with ⟨data, hdata, a, hdec, hm⟩ | ⟨data, hdata, a, hdec, rfl⟩
  · obtain ⟨i, b, now, rfl, hb⟩ := hs.register_record hdata
    cases hdec.symm.trans hb.payload
    exact hb.hashed_member hm
  · obtain ⟨i, b, r, u, rfl, hb⟩ := hs.refer_record hdata
    cases hdec.symm.trans hb.payload
    exact ⟨hb.hashed (Or.inr (Or.inl rfl)), hb.hashed (Or.inr (Or.inr rfl))⟩

/-- A stored member and its entry have the same content. -/
theorem StoredMember.content_eq {m : Member} {i : Nat} (hs : Reachable E d s)
    (hS : Set.InjOn E.keccak256 (s.compared E)) (h : StoredMember E s m) (hfiled : Filed E s m i) :
    ∃ e, s.entries[i]? = some e ∧
      e.content = (m.publicKey, m.attestation, m.credentialId) := by
  obtain ⟨hkey, hatt⟩ := h.hashed hs
  obtain ⟨e, he, hpk, hat⟩ :=
    hfiled.entry_eq hs.consistent (hS.mono Set.subset_union_left) subset_rfl hkey hatt
  obtain ⟨-, e', he', -, hcred⟩ := hfiled
  cases he.symm.trans he'
  have hcredEq : e.credentialId = m.credentialId :=
    hS (Or.inr (Or.inl ⟨e, List.mem_of_getElem? he, rfl⟩)) (Or.inr (Or.inr ⟨m, h, rfl⟩)) hcred
  exact ⟨e, he, by rw [Entry.content, hpk, hat, hcredEq]⟩

/-- The entries are what the payloads say of their keys. -/
theorem mem_entries_content (hs : Reachable E d s) (hS : Set.InjOn E.keccak256 (s.compared E))
    {c : Bytes × Bytes × Bytes} : c ∈ s.entries.map Entry.content ↔
      ∃ m, StoredMember E s m ∧ c = (m.publicKey, m.attestation, m.credentialId) := by
  rw [List.mem_map]
  constructor
  · rintro ⟨e, he, rfl⟩
    obtain ⟨i, hi⟩ := List.getElem?_of_mem he
    obtain ⟨m, hm, hfiled⟩ := hs.storedMember_of_lt (List.getElem?_eq_some_iff.mp hi).1
    obtain ⟨e', he', hcontent⟩ := hm.content_eq hs hS hfiled
    cases hi.symm.trans he'
    exact ⟨m, hm, hcontent⟩
  · rintro ⟨m, hm, rfl⟩
    obtain ⟨i, hfiled⟩ := hm.filed hs
    obtain ⟨e, he, hcontent⟩ := hm.content_eq hs hS hfiled
    exact ⟨e, List.mem_of_getElem? he, hcontent⟩

theorem entries_content_nodup (hs : Reachable E d s) : (s.entries.map Entry.content).Nodup := by
  have hkeys := hs.consistent.keys.nodup
  apply List.Nodup.of_map fun c => E.keccak256 c.1
  rwa [List.map_map]

/-! ## Totals -/

theorem unitContents_rpId (s : Registry) :
    s.unitContents.map UnitContent.rpId = s.units.map GroupUnit.rpId := by
  rw [Registry.unitContents, List.map_map]
  show s.units.zipIdx.map (GroupUnit.rpId ∘ Prod.fst) = _
  rw [← List.map_map, List.zipIdx_map_fst]

theorem length_unitIdsByRpId (hs : Reachable E d s) (rpId : Bytes) :
    (s.unitIdsByRpId rpId).length = (s.units.map GroupUnit.rpId).count rpId := by
  rw [hs.consistent.by_rpId rpId, length_idsWhere, List.count, List.countP_map]
  exact List.countP_congr fun unit _ => by simp

theorem rpIds_perm (hs : Reachable E d s) (ht : Reachable E d t)
    (h : (s.units.map GroupUnit.rpId).Perm (t.units.map GroupUnit.rpId)) :
    s.rpIds.Perm t.rpIds := by
  rw [List.perm_ext_iff_of_nodup hs.consistent.rpIds_nodup ht.consistent.rpIds_nodup]
  intro rpId
  rw [hs.consistent.mem_rpIds, ht.consistent.mem_rpIds, ← List.mem_map, ← List.mem_map]
  exact h.mem_iff

/-! ## Confluence -/

/-- Two registries with the same stored calls have the same records. -/
theorem sameRecords_of_payloads (hs : Reachable E d s) (ht : Reachable E d t)
    (hS : Set.InjOn E.keccak256 (s.compared E)) (hT : Set.InjOn E.keccak256 (t.compared E))
    (hreg : s.registerPayloads.Perm t.registerPayloads)
    (href : s.referPayloads.Perm t.referPayloads) : SameRecords s t := by
  have hunits : s.unitContents.Perm t.unitContents := by
    rw [unitContents_eq hs (hS.mono Set.subset_union_left),
      unitContents_eq ht (hT.mono Set.subset_union_left)]
    exact hreg.filterMap _
  have hrpIds : (s.units.map GroupUnit.rpId).Perm (t.units.map GroupUnit.rpId) := by
    rw [← unitContents_rpId, ← unitContents_rpId]
    exact hunits.map _
  refine
    { entries := ?_
      units := hunits
      references := ?_
      rpIds := rpIds_perm hs ht hrpIds
      totals := ?_ }
  · rw [List.perm_ext_iff_of_nodup (entries_content_nodup hs) (entries_content_nodup ht)]
    intro c
    rw [mem_entries_content hs hS, mem_entries_content ht hT]
    -- a stored member is one of some stored call, whatever the order
    constructor
    · intro ⟨m, hm, hc⟩
      exact ⟨m, hm.mono hreg.subset href.subset, hc⟩
    · intro ⟨m, hm, hc⟩
      exact ⟨m, hm.mono hreg.symm.subset href.symm.subset, hc⟩
  · rw [referenceContents_eq hs (hS.mono Set.subset_union_left),
      referenceContents_eq ht (hT.mono Set.subset_union_left)]
    exact href.filterMap _
  · intro rpId
    rw [length_unitIdsByRpId hs, length_unitIdsByRpId ht, hrpIds.count_eq]

/-! ## Two groups with one member, in both orders -/

namespace Sample

def bothRegistered : Registry := registered.registered evm 1 otherRegisterData otherRegisterArgs

def otherRegistered : Registry :=
  Registry.empty.registered evm 2 otherRegisterData otherRegisterArgs

def bothReversed : Registry := otherRegistered.registered evm 3 registerData registerArgs

theorem calls_bothRegistered : calls evm domain [(0, registerData), (1, otherRegisterData)]
    Registry.empty = .ok bothRegistered := by
  refine calls_cons_eq_ok.mpr ⟨_, call_registerData, calls_cons_eq_ok.mpr ⟨_, ?_, rfl⟩⟩
  apply call_eq_ok.mpr (Or.inl ⟨_, decode_otherRegisterData, _⟩)
  apply (register_eq_ok reachable_registered.indexed).mpr ⟨otherRegisterArgs_ok, _, _, rfl⟩
  · decide +kernel
  · intro m hm
    rw [List.mem_singleton.mp hm]
    exact Or.inr ⟨by decide +kernel, member.entry 0, by decide +kernel, rfl, rfl⟩

theorem call_otherRegisterData :
    call evm domain 2 otherRegisterData Registry.empty = .ok otherRegistered := by
  apply call_eq_ok.mpr (Or.inl ⟨_, decode_otherRegisterData, _⟩)
  apply (register_eq_ok fun _ => Nat.le_refl 0).mpr ⟨otherRegisterArgs_ok, rfl, _, rfl⟩
  intro m hm
  rw [List.mem_singleton.mp hm]
  exact Or.inl ⟨rfl, by decide⟩

theorem reachable_otherRegistered : Reachable evm domain otherRegistered :=
  Reachable.call Reachable.empty call_otherRegisterData

theorem calls_bothReversed : calls evm domain [(2, otherRegisterData), (3, registerData)]
    Registry.empty = .ok bothReversed := by
  refine calls_cons_eq_ok.mpr ⟨_, call_otherRegisterData, calls_cons_eq_ok.mpr ⟨_, ?_, rfl⟩⟩
  apply call_eq_ok.mpr (Or.inl ⟨_, decode_registerData, _⟩)
  apply (register_eq_ok reachable_otherRegistered.indexed).mpr ⟨registerArgs_ok, _, _, rfl⟩
  · decide +kernel
  · intro m hm
    rw [List.mem_singleton.mp hm]
    exact Or.inr ⟨by decide +kernel, member.entry 2, by decide +kernel, rfl, rfl⟩

theorem payloads_bothRegistered :
    bothRegistered.registerPayloads = [registerData, otherRegisterData] := by
  rw [bothRegistered, registered_registerPayloads, registered, registered_registerPayloads]
  rfl

theorem payloads_bothReversed :
    bothReversed.registerPayloads = [otherRegisterData, registerData] := by
  rw [bothReversed, registered_registerPayloads, otherRegistered, registered_registerPayloads]
  rfl

theorem storedMember_both {s : Registry} {m : Member}
    (hregs : s.registerPayloads ⊆ [registerData, otherRegisterData]) (hrefs : s.references = [])
    (hm : StoredMember evm s m) : m.publicKey = memberKey ∧ m.attestation = attestation ∧
      m.credentialId = [1] := by
  rcases hm with ⟨data, hdata, a, hdec, hm⟩ | ⟨data, hdata, -⟩
  · rcases List.mem_pair.mp (hregs hdata) with rfl | rfl
    · cases hdec.symm.trans decode_registerData
      rw [List.mem_singleton.mp hm]
      exact ⟨rfl, rfl, rfl⟩
    · cases hdec.symm.trans decode_otherRegisterData
      rw [List.mem_singleton.mp hm]
      exact ⟨rfl, rfl, rfl⟩
  · rw [Registry.referPayloads, hrefs] at hdata
    cases hdata

theorem compared_both {s : Registry}
    (hentries : ∀ e ∈ s.entries, e.content = (member.entry 0).content)
    (hregs : s.registerPayloads ⊆ [registerData, otherRegisterData]) (hrefs : s.references = []) :
    s.compared evm ⊆ hashedStrings := by
  have hkey : memberKey ∈ hashedStrings := by decide +kernel
  have hatt : attestation ∈ hashedStrings := by decide +kernel
  have hcred : [1] ∈ hashedStrings := by decide +kernel
  intro b hb
  rcases hb with
    (⟨e, he, hb⟩ | ⟨i, a, hi, hdec, hb⟩ | ⟨i, a, hi, -⟩) | (⟨e, he, rfl⟩ | ⟨m, hm, rfl⟩)
  · have hpk : e.publicKey = memberKey := congrArg Prod.fst (hentries e he)
    have hat : e.attestation = attestation := congrArg (fun c => c.2.1) (hentries e he)
    rcases hb with rfl | rfl
    · exact hpk ▸ hkey
    · exact hat ▸ hatt
  · have hmem := hregs (Registry.mem_registerPayloads.mpr ⟨i, hi, rfl⟩)
    rcases List.mem_pair.mp hmem with heq | heq
    · rw [heq] at hdec
      cases hdec.symm.trans decode_registerData
      rcases hb with rfl | rfl | ⟨m, hm, hb⟩
      · decide +kernel
      · decide +kernel
      · cases List.mem_singleton.mp hm
        rcases hb with rfl | rfl
        · exact hkey
        · exact hatt
    · rw [heq] at hdec
      cases hdec.symm.trans decode_otherRegisterData
      rcases hb with rfl | rfl | ⟨m, hm, hb⟩
      · decide +kernel
      · decide +kernel
      · cases List.mem_singleton.mp hm
        rcases hb with rfl | rfl
        · exact hkey
        · exact hatt
  · rw [hrefs] at hi
    exact absurd hi (Nat.not_lt_zero _)
  · have hc : e.credentialId = [1] := congrArg (fun c => c.2.2) (hentries e he)
    exact hc ▸ hcred
  · exact (storedMember_both hregs hrefs hm).2.2 ▸ hcred

end Sample

/-- Two accepted runs of the same calls, in any orders and at any block times, leave the same
records. -/
theorem order_irrelevant {xs ys : List (Nat × Bytes)}
    (hperm : (xs.map Prod.snd).Perm (ys.map Prod.snd))
    (hs : calls E d xs Registry.empty = .ok s) (ht : calls E d ys Registry.empty = .ok t)
    (hS : Set.InjOn E.keccak256 (s.compared E)) (hT : Set.InjOn E.keccak256 (t.compared E)) :
    SameRecords s t := by
  obtain ⟨hsr, hsreg, hsref⟩ := calls_payloads Reachable.empty hs
  obtain ⟨htr, htreg, htref⟩ := calls_payloads Reachable.empty ht
  apply sameRecords_of_payloads hsr htr hS hT
  · rw [hsreg, htreg]
    exact (hperm.filter _).append_left _
  · rw [hsref, htref]
    exact (hperm.filter _).append_left _

/-- Two groups that share a member leave the same records whichever is registered first. -/
theorem order_irrelevant_both : SameRecords Sample.bothRegistered Sample.bothReversed := by
  have hperm : [Sample.registerData, Sample.otherRegisterData].Perm
      [Sample.otherRegisterData, Sample.registerData] := List.Perm.swap _ _ []
  refine order_irrelevant ?_ Sample.calls_bothRegistered Sample.calls_bothReversed
    (Sample.keccak256_injOn.mono (Sample.compared_both ?_ ?_ ?_))
    (Sample.keccak256_injOn.mono (Sample.compared_both ?_ ?_ ?_))
  · exact hperm
  · decide +kernel
  · rw [Sample.payloads_bothRegistered]
    exact List.Subset.refl _
  · rw [Sample.bothRegistered, registered_references, Sample.registered, registered_references]
    rfl
  · decide +kernel
  · rw [Sample.payloads_bothReversed]
    exact hperm.symm.subset
  · rw [Sample.bothReversed, registered_references, Sample.otherRegistered, registered_references]
    rfl

end P256Index.Contract
