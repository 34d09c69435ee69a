import P256Index.Contract.Confluence
import P256Index.Legacy.History
import P256Index.Pages

/-!
# Paged views of the two contracts

Every list the contracts store is read in pages, by one loop over indexes that are computed from an
offset and a limit the caller chooses freely. The arithmetic is checked: a result out of range
reverts. `pageOf_eq` says that it never does, and that the page is the window of the list; so the
pages of a reader who goes on from page to page are the whole list (`Paged`).

Gas and memory are not modelled. Arrays a view returns side by side are one list of rows.
-/

namespace P256Index.Contract

/-! ## Checked arithmetic -/

/-- What a view reverts with: the two panics of checked code, and its own error. -/
inductive ViewRevert where
  | arithmetic
  | outOfBounds
  | unitNotFound (unitId : Nat)
  deriving DecidableEq

def checkedSub (a b : Nat) : Except ViewRevert Nat :=
  if b ≤ a then .ok (a - b) else .error .arithmetic

def checkedAdd (a b : Nat) : Except ViewRevert Nat :=
  if a + b < 2 ^ 256 then .ok (a + b) else .error .arithmetic

/-- `array[idx]`. -/
def arrayAt {α : Type} (list : List α) (idx : Nat) : Except ViewRevert α :=
  okOr list[idx]? .outOfBounds

/-- `desc ? total - 1 - offset - i : offset + i`. -/
def pageIndex (total offset i : Nat) (desc : Bool) : Except ViewRevert Nat :=
  if desc then do
    let last ← checkedSub total 1
    let first ← checkedSub last offset
    checkedSub first i
  else checkedAdd offset i

/-! ## The loop -/

section Loop

variable {α β : Type}

/-- The body of every paged view, with what it makes of an element. -/
def pageOf (list : List α) (row : α → β) (offset limit : U256) (desc : Bool) :
    Except ViewRevert (Nat × List β) :=
  let total := list.length
  if total ≤ offset.val then .ok (total, [])
  else do
    let remaining ← checkedSub total offset.val
    let count := if remaining < limit.val then remaining else limit.val
    let page ← (List.range count).mapM fun i => do
      let idx ← pageIndex total offset.val i desc
      let element ← arrayAt list idx
      pure (row element)
    pure (total, page)

theorem pageIndex_eq {total offset i : Nat} (h : offset + i < total) (hword : total < 2 ^ 256)
    (desc : Bool) :
    pageIndex total offset i desc =
      .ok (if desc then total - 1 - (offset + i) else offset + i) := by
  cases desc with
  | false => exact if_pos (h.trans hword)
  | true =>
      have hlast : checkedSub total 1 = .ok (total - 1) := if_pos (by omega)
      have hfirst : checkedSub (total - 1) offset = .ok (total - 1 - offset) := if_pos (by omega)
      have hidx : checkedSub (total - 1 - offset) i = .ok (total - 1 - offset - i) :=
        if_pos (by omega)
      rw [pageIndex, if_pos rfl, if_pos rfl, ← Nat.sub_sub]
      exact Except.bind_eq_ok.mpr ⟨_, hlast, Except.bind_eq_ok.mpr ⟨_, hfirst, hidx⟩⟩

/-- The page is the window of the list, and nothing underflows, overflows or is read out of bounds.
-/
theorem pageOf_eq {list : List α} (hword : list.length < 2 ^ 256) (row : α → β)
    (offset limit : U256) (desc : Bool) :
    pageOf list row offset limit desc =
      .ok (list.length, window (list.map row) offset.val limit.val desc) := by
  by_cases hend : list.length ≤ offset.val
  · rw [pageOf, if_pos hend, window_eq_nil (by rwa [List.length_map])]
  have hremaining : checkedSub list.length offset.val = .ok (list.length - offset.val) :=
    if_pos (by omega)
  have hcount :
      (if list.length - offset.val < limit.val then list.length - offset.val else limit.val) =
      (window (list.map row) offset.val limit.val desc).length := by
    rw [length_window, List.length_map]
    split <;> omega
  have hpage :
      (List.range (window (list.map row) offset.val limit.val desc).length).mapM (fun i => do
      let idx ← pageIndex list.length offset.val i desc
      let element ← arrayAt list idx
      pure (row element)) = .ok (window (list.map row) offset.val limit.val desc) := by
    apply mapM_range_eq_ok
    intro i b hi
    have hlt : i < min limit.val (list.length - offset.val) := by
      have hlen := (List.getElem?_eq_some_iff.mp hi).1
      rwa [length_window, List.length_map] at hlen
    rw [window, List.getElem?_take_of_lt (by omega), List.getElem?_drop,
      getElem?_oriented (by rw [List.length_map]; omega), List.length_map, List.getElem?_map,
      Option.map_eq_some_iff] at hi
    obtain ⟨a, ha, rfl⟩ := hi
    refine Except.bind_eq_ok.mpr ⟨_, pageIndex_eq (by omega) hword desc, ?_⟩
    exact Except.bind_eq_ok.mpr ⟨a, okOr_eq_ok.mpr ha, rfl⟩
  rw [pageOf, if_neg hend]
  refine Except.bind_eq_ok.mpr ⟨_, hremaining, Except.bind_eq_ok.mpr ⟨_, ?_, rfl⟩⟩
  rw [hcount]
  exact hpage

/-! ## Reading a list to its end -/

/-- `0, limit, 2 * limit, …` as far as the list goes. -/
def offsets (total : Nat) (limit : U256) : List U256 :=
  (List.range (pageCount total limit.val)).map fun k => Fin.ofNat (2 ^ 256) (k * limit.val)

/-- What a reader has after asking for page after page. -/
def readAll (view : U256 → U256 → Bool → Except ViewRevert (Nat × List β)) (total : Nat)
    (limit : U256) (desc : Bool) : Except ViewRevert (List β) := do
  let pages ← (offsets total limit).mapM fun offset => view offset limit desc
  pure (pages.flatMap Prod.snd)

/-- A view that pages a list: every page is the window of the list with the length of the whole, and
the pages one after the other are the list, or its reverse. -/
structure Paged (view : U256 → U256 → Bool → Except ViewRevert (Nat × List β)) (list : List β) :
    Prop where
  page : ∀ offset limit desc, view offset limit desc =
    .ok (list.length, window list offset.val limit.val desc)
  whole : ∀ (limit : U256) desc, 0 < limit.val →
    readAll view list.length limit desc = .ok (oriented desc list)

/-- The offsets of a list that fits the word do not wrap. -/
theorem offset_val {total k : Nat} {limit : U256} (hword : total < 2 ^ 256) (hlimit : 0 < limit.val)
    (hk : k < pageCount total limit.val) :
    (Fin.ofNat (2 ^ 256) (k * limit.val)).val = k * limit.val :=
  Nat.mod_eq_of_lt ((mul_lt_of_lt_pageCount hlimit hk).trans hword)

theorem Paged.of_page {view : U256 → U256 → Bool → Except ViewRevert (Nat × List β)} {list : List β}
    (hword : list.length < 2 ^ 256)
    (h : ∀ offset limit desc, view offset limit desc =
      .ok (list.length, window list offset.val limit.val desc)) :
    Paged view list where
  page := h
  whole := by
    intro limit desc hlimit
    refine Except.bind_eq_ok.mpr ⟨_, mapM_eq_ok_map fun offset _ => h offset limit desc, ?_⟩
    show Except.ok _ = _
    congr 1
    rw [← flatten_windows list hlimit desc, offsets, List.flatMap_def, List.map_map, List.map_map]
    congr 1
    apply List.map_congr_left
    intro k hk
    show window list (Fin.ofNat (2 ^ 256) (k * limit.val)).val limit.val desc = _
    rw [offset_val hword hlimit (List.mem_range.mp hk)]

theorem paged_pageOf {list : List α} (hword : list.length < 2 ^ 256) (row : α → β) :
    Paged (pageOf list row) (list.map row) :=
  Paged.of_page (by rwa [List.length_map]) fun offset limit desc => by
    rw [pageOf_eq hword, List.length_map]

end Loop

/-! ## The registry's views -/

/-- `_pageIds`. -/
def pageIds (ids : List Nat) : U256 → U256 → Bool → Except ViewRevert (Nat × List Nat) :=
  pageOf ids id

/-- The list behind a key's index entry: nothing for a key the index does not have. -/
def listBehind (lists : Nat → List Nat) : Nat → List Nat
  | 0 => []
  | plusOne + 1 => lists plusOne

/-- One row of `getRpIds`, in both contracts. -/
structure RpIdRow where
  rpId : Bytes
  count : Nat
  createdAt : Nat
  deriving DecidableEq

namespace Registry

variable (E : Evm) (s : Registry)

/-- The guard and the page of the views that go through an index. -/
def pageBehind (lists : Nat → List Nat) (plusOne : Nat) (offset limit : U256) (desc : Bool) :
    Except ViewRevert (Nat × List Nat) :=
  if plusOne = 0 then .ok (0, []) else pageIds (lists (plusOne - 1)) offset limit desc

def getGroupsOfKey (publicKey : Bytes) : U256 → U256 → Bool → Except ViewRevert (Nat × List Nat) :=
  pageBehind s.entryUnitIds (s.entryIdPlusOneByKey (E.keccak256 publicKey))

def getReferencesOfKey (publicKey : Bytes) :
    U256 → U256 → Bool → Except ViewRevert (Nat × List Nat) :=
  pageBehind s.referenceIdsByEntry (s.entryIdPlusOneByKey (E.keccak256 publicKey))

def getReferencesToGroup (groupPublicKey : Bytes) :
    U256 → U256 → Bool → Except ViewRevert (Nat × List Nat) :=
  pageBehind s.referenceIdsByUnit (s.unitIdPlusOneByGroupKey (E.keccak256 groupPublicKey))

def getGroupsByRpId (rpId : Bytes) : U256 → U256 → Bool → Except ViewRevert (Nat × List Nat) :=
  pageIds (s.unitIdsByRpId rpId)

/-- The page of ids, joined with the files. -/
def getGroupMembers (unitId : Nat) (offset limit : U256) (desc : Bool) :
    Except ViewRevert (Nat × List (Nat × Entry)) := do
  revertIf (s.units.length ≤ unitId) (.unitNotFound unitId)
  let (total, entryIds) ← pageIds (s.groupEntryIds unitId) offset limit desc
  let rows ← entryIds.mapM fun entryId => do
    let entry ← arrayAt s.entries entryId
    pure (entryId, entry)
  pure (total, rows)

def rpIdRow (rp : Bytes) : RpIdRow := ⟨rp, (s.unitIdsByRpId rp).length, s.rpCreatedAt rp⟩

def getRpIds : U256 → U256 → Bool → Except ViewRevert (Nat × List RpIdRow) :=
  pageOf s.rpIds s.rpIdRow

/-- The lengths fit the word that stores them. -/
structure Fits : Prop where
  entryUnitIds : ∀ entryId, (s.entryUnitIds entryId).length < 2 ^ 256
  groupEntryIds : ∀ unitId, (s.groupEntryIds unitId).length < 2 ^ 256
  referenceIdsByEntry : ∀ entryId, (s.referenceIdsByEntry entryId).length < 2 ^ 256
  referenceIdsByUnit : ∀ unitId, (s.referenceIdsByUnit unitId).length < 2 ^ 256
  unitIdsByRpId : ∀ rpId, (s.unitIdsByRpId rpId).length < 2 ^ 256
  rpIds : s.rpIds.length < 2 ^ 256

variable {E s}

theorem length_le_of_ids {ids : List Nat} {n : Nat} (hnodup : ids.Nodup) (hlt : ∀ i ∈ ids, i < n) :
    ids.length ≤ n := by
  have hsub : ids ⊆ List.range n := fun i hi => List.mem_range.mpr (hlt i hi)
  simpa using (hnodup.subperm hsub).length_le

/-- In a state of a deployment it is enough that the three tables fit: no list is longer than the
table its ids point into. -/
theorem Fits.of_tables (hc : Consistent E s) (hentries : s.entries.length < 2 ^ 256)
    (hunits : s.units.length < 2 ^ 256) (hreferences : s.references.length < 2 ^ 256) : s.Fits where
  entryUnitIds e := by
    refine (length_le_of_ids (hc.members.nodup_bwd e) fun u hu => ?_).trans_lt hunits
    exact (hc.member_lt u e ((hc.members.mem_bwd u e).mp hu)).1
  groupEntryIds u := by
    refine (length_le_of_ids (hc.members.nodup_fwd u) fun e he => ?_).trans_lt hentries
    exact (hc.member_lt u e ((hc.members.mem_fwd u e).mp he)).2
  referenceIdsByEntry e := by
    rw [hc.by_entry e, length_idsWhere]
    exact List.countP_le_length.trans_lt hreferences
  referenceIdsByUnit u := by
    rw [hc.by_unit u, length_idsWhere]
    exact List.countP_le_length.trans_lt hreferences
  unitIdsByRpId rpId := by
    rw [hc.by_rpId rpId, length_idsWhere]
    exact List.countP_le_length.trans_lt hunits
  rpIds := by
    have hsub : s.rpIds ⊆ s.units.map GroupUnit.rpId := fun rpId h =>
      List.mem_map.mpr ((hc.mem_rpIds rpId).mp h)
    have hle := (hc.rpIds_nodup.subperm hsub).length_le
    rw [List.length_map] at hle
    exact hle.trans_lt hunits

theorem paged_pageBehind {lists : Nat → List Nat} (hword : ∀ i, (lists i).length < 2 ^ 256)
    (plusOne : Nat) : Paged (pageBehind lists plusOne) (listBehind lists plusOne) := by
  cases plusOne with
  | zero =>
      refine Paged.of_page (Nat.two_pow_pos 256) fun offset limit desc => ?_
      rw [pageBehind, if_pos rfl, listBehind, window_eq_nil (Nat.zero_le _)]
      rfl
  | succ i =>
      have hpaged := paged_pageOf (hword i) id
      rw [List.map_id] at hpaged
      exact ⟨hpaged.page, hpaged.whole⟩

theorem paged_getGroupMembers (hc : Consistent E s) (hfit : s.Fits) {unitId : Nat}
    (hunit : unitId < s.units.length) :
    ∃ rows, rows.map Prod.fst = s.groupEntryIds unitId ∧
      (∀ row ∈ rows, s.entries[row.1]? = some row.2) ∧ Paged (s.getGroupMembers unitId) rows := by
  have hfiles : ∀ id, ∃ entry, id ∈ s.groupEntryIds unitId → s.entries[id]? = some entry := by
    intro id
    by_cases hid : id ∈ s.groupEntryIds unitId
    · have hlt := (hc.member_lt unitId id ((hc.members.mem_fwd unitId id).mp hid)).2
      exact ⟨s.entries[id], fun _ => List.getElem?_eq_getElem hlt⟩
    · exact ⟨⟨[], [], [], [], [], 0⟩, fun h => absurd h hid⟩
  choose file hfile using hfiles
  refine ⟨(s.groupEntryIds unitId).map fun id => (id, file id), ?_, ?_, ?_⟩
  · rw [List.map_map]
    exact List.map_id _
  · intro row hrow
    obtain ⟨id, hid, rfl⟩ := List.mem_map.mp hrow
    exact hfile id hid
  · refine Paged.of_page (by rw [List.length_map]; exact hfit.groupEntryIds unitId)
      fun offset limit desc => ?_
    have hpage := pageOf_eq (hfit.groupEntryIds unitId) id offset limit desc
    rw [List.map_id] at hpage
    rw [List.length_map, window_map]
    refine revertIf_bind_eq_ok.mpr ⟨Nat.not_le.mpr hunit, Except.bind_eq_ok.mpr ⟨_, hpage, ?_⟩⟩
    -- every id of the page is one of the list, so it has a file
    refine Except.bind_eq_ok.mpr ⟨_, mapM_eq_ok_map fun id hid => ?_, rfl⟩
    exact Except.bind_eq_ok.mpr ⟨_, okOr_eq_ok.mpr (hfile id (mem_of_mem_window hid)), rfl⟩

end Registry

end P256Index.Contract

/-! ## The legacy index's views -/

namespace P256Index.Legacy.Index

open Contract (ViewRevert RpIdRow pageOf)

variable (x : Index)

def rpIdRow (rp : Bytes) : RpIdRow := ⟨rp, (x.rpCredentials rp).length, x.rpCreatedAt rp⟩

def getRpIds : U256 → U256 → Bool → Except ViewRevert (Nat × List RpIdRow) :=
  pageOf x.rpIds x.rpIdRow

def getKeysByRpId (keccak256 : Bytes → Bytes32) (rpId : Bytes) :
    U256 → U256 → Bool → Except ViewRevert (Nat × List PublicKeyRecord) :=
  pageOf (x.rpCredentials rpId) fun credentialId =>
    x.records (recordKey keccak256 rpId credentialId)

/-- The lengths fit the word that stores them. -/
structure Fits : Prop where
  rpIds : x.rpIds.length < 2 ^ 256
  rpCredentials : ∀ rpId, (x.rpCredentials rpId).length < 2 ^ 256

end P256Index.Legacy.Index

namespace P256Index.Contract

open Legacy (Index recordKey)

/-- Every list the two contracts store can be read completely, in both directions: whatever offset
and limit the caller chooses, a page is the window of the list, and the pages one after the other
are the list. -/
theorem stored_lists_paged {E : Evm} {d : Domain} {s : Registry} (hs : Reachable E d s)
    (hfit : s.Fits) {x : Index} (hx : x.Fits) (keccak256 : Bytes → Bytes32) :
    (∀ publicKey, Paged (s.getGroupsOfKey E publicKey)
        (listBehind s.entryUnitIds (s.entryIdPlusOneByKey (E.keccak256 publicKey)))) ∧
      (∀ publicKey, Paged (s.getReferencesOfKey E publicKey)
        (listBehind s.referenceIdsByEntry (s.entryIdPlusOneByKey (E.keccak256 publicKey)))) ∧
      (∀ groupPublicKey, Paged (s.getReferencesToGroup E groupPublicKey)
        (listBehind s.referenceIdsByUnit
          (s.unitIdPlusOneByGroupKey (E.keccak256 groupPublicKey)))) ∧
      (∀ rpId, Paged (s.getGroupsByRpId rpId) (s.unitIdsByRpId rpId)) ∧
      (∀ unitId < s.units.length, ∃ rows, rows.map Prod.fst = s.groupEntryIds unitId ∧
        (∀ row ∈ rows, s.entries[row.1]? = some row.2) ∧ Paged (s.getGroupMembers unitId) rows) ∧
      Paged s.getRpIds (s.rpIds.map s.rpIdRow) ∧
      Paged x.getRpIds (x.rpIds.map x.rpIdRow) ∧
      ∀ rpId, Paged (x.getKeysByRpId keccak256 rpId)
        ((x.rpCredentials rpId).map fun credentialId =>
          x.records (recordKey keccak256 rpId credentialId)) := by
  refine ⟨fun _ => Registry.paged_pageBehind hfit.entryUnitIds _,
    fun _ => Registry.paged_pageBehind hfit.referenceIdsByEntry _,
    fun _ => Registry.paged_pageBehind hfit.referenceIdsByUnit _, fun rpId => ?_,
    fun _ hunit => Registry.paged_getGroupMembers hs.consistent hfit hunit,
    paged_pageOf hfit.rpIds _, paged_pageOf hx.rpIds _,
    fun rpId => paged_pageOf (hx.rpCredentials rpId) _⟩
  have hpaged := paged_pageOf (hfit.unitIdsByRpId rpId) id
  rwa [List.map_id] at hpaged

namespace Sample

theorem reachable_bothRegistered : Reachable evm domain bothRegistered :=
  (calls_payloads .empty calls_bothRegistered).1

theorem bothRegistered_fits : bothRegistered.Fits :=
  Registry.Fits.of_tables reachable_bothRegistered.consistent (by decide +kernel)
    (by decide +kernel) (by decide +kernel)

/-- The old index with one record. -/
def recordedIndex : Index :=
  Legacy.written (recorded Legacy.Sample.keccakRows) 96 Legacy.Sample.rootArgs .empty

theorem recordedIndex_fits : recordedIndex.Fits where
  rpIds := by decide +kernel
  rpCredentials := by
    intro rpId
    rw [recordedIndex, Legacy.rpCredentials_written]
    split
    · decide +kernel
    · exact Nat.two_pow_pos 256

end Sample

/-- A member of two groups, asked for its groups one by one from the last, and for the members of
the first with the largest limit there is. -/
theorem stored_lists_paged_sample :
    let groups := Sample.bothRegistered.getGroupsOfKey Sample.evm Sample.memberKey
    groups 0 1 true = .ok (2, [1]) ∧ groups 1 1 true = .ok (2, [0]) ∧
      readAll groups 2 1 true = .ok [1, 0] ∧
      ∃ rows, rows.map Prod.fst = [0] ∧ Sample.bothRegistered.getGroupMembers 0 0 (-1) true =
        .ok (rows.length, window rows 0 (2 ^ 256 - 1) true) := by
  obtain ⟨hgroups, -, -, -, hmembers, -⟩ := stored_lists_paged Sample.reachable_bothRegistered
    Sample.bothRegistered_fits Sample.recordedIndex_fits (Sample.recorded Legacy.Sample.keccakRows)
  have hlist : listBehind Sample.bothRegistered.entryUnitIds
      (Sample.bothRegistered.entryIdPlusOneByKey (Sample.evm.keccak256 Sample.memberKey)) =
        [0, 1] := by
    decide +kernel
  have hpaged := hgroups Sample.memberKey
  rw [hlist] at hpaged
  obtain ⟨rows, hrows, -, hmembers⟩ := hmembers 0 (by decide +kernel)
  refine ⟨hpaged.page 0 1 true, hpaged.page 1 1 true, ?_, rows, ?_, ?_⟩
  · exact hpaged.whole 1 true Nat.one_pos
  · exact hrows.trans (by decide +kernel)
  · exact hmembers.page 0 (-1) true

end P256Index.Contract
