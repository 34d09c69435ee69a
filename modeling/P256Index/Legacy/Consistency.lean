import P256Index.Legacy.Index

/-!
# The legacy index is consistent

`Consistent` ties the four tables together by the digest of a record's name. A fresh deployment has
it, and the two writes keep it, as long as the digests of the names and arguments that occur do not
collide and are not zero.
-/

namespace P256Index.Legacy

open Abi

/-! ## Encodings -/

theorem nameFields_lawful : nameFields.Lawful :=
  Fields.cons_lawful bytes_lawful (Fields.cons_lawful bytes_lawful Fields.nil_lawful)

theorem argsFields_lawful : argsFields.Lawful := by
  have h := Fields.cons_lawful bytes_lawful (Fields.cons_lawful bytes_lawful Fields.nil_lawful)
  have h := Fields.cons_lawful bytes_lawful (Fields.cons_lawful bytes_lawful h)
  have h := Fields.cons_lawful bytes32_lawful h
  exact Fields.cons_lawful bytes_lawful (Fields.cons_lawful bytes_lawful h)

theorem nameEncoding_inj {rpId credentialId rpId' credentialId' : Bytes}
    (hrp : rpId.length ≤ maxRpIdLength) (hcred : credentialId.length ≤ maxCredentialIdLength)
    (h : nameEncoding rpId credentialId = nameEncoding rpId' credentialId') :
    rpId = rpId' ∧ credentialId = credentialId' := by
  have hlen : (nameEncoding rpId credentialId).length < 2 ^ 256 := by
    have h₁ := bytes_encode_length_le rpId
    have h₂ := bytes_encode_length_le credentialId
    rw [nameEncoding, nameFields_lawful.encode_length]
    simp only [nameFields, Fields.tails_cons, Fields.tails_nil, bytes_tail, List.length_append,
      List.length_nil]
    have hhead : (Fields.cons bytes (Fields.cons bytes Fields.nil)).headSize = 64 := rfl
    unfold maxRpIdLength at hrp
    unfold maxCredentialIdLength at hcred
    omega
  have hsame := (Codec.tuple_lawful nameFields_lawful).encode_injective hlen h
  simpa using hsame

/-! ## Accepted arguments -/

/-- Arguments that pass the checks of their own. -/
structure ArgsOk (a : CreateArgs) : Prop where
  rpId_ne : a.rpId.length ≠ 0
  rpId_le : a.rpId.length ≤ maxRpIdLength
  credentialId_le : a.credentialId.length ≤ maxCredentialIdLength
  publicKey_eq : a.publicKey.length = uncompressedP256KeyLength
  name_le : a.name.length ≤ maxNameLength
  initial_le : a.initialCredentialId.length ≤ maxCredentialIdLength
  metadata_le : a.metadata.length ≤ maxMetadataLength
  walletRef_ne : a.walletRef ≠ zero32

theorem validateArgs_eq_ok {a : CreateArgs} (h : validateArgs a = .ok ()) : ArgsOk a := by
  simp only [validateArgs, validatePublicKey, Except.bind_eq_ok, revertIf_eq_ok, exists_const,
    not_lt, not_not] at h
  obtain ⟨hrp, hrple, -, hcredle, ⟨hkey, -⟩, hname, hinitial, hmeta, hwallet⟩ := h
  exact ⟨hrp, hrple, hcredle, hkey, hname, hinitial, hmeta, hwallet⟩

theorem encoding_inj {a b : CreateArgs} (ha : ArgsOk a) (h : a.encoding = b.encoding) : a = b := by
  have hlen : a.encoding.length < 2 ^ 256 := by
    have h₁ := bytes_encode_length_le a.rpId
    have h₂ := bytes_encode_length_le a.credentialId
    have h₃ := bytes_encode_length_le a.publicKey
    have h₄ := bytes_encode_length_le a.name
    have h₅ := bytes_encode_length_le a.initialCredentialId
    have h₆ := bytes_encode_length_le a.metadata
    obtain ⟨-, hrp, hcred, hkey, hname, hinitial, hmeta, -⟩ := ha
    rw [CreateArgs.encoding, argsFields_lawful.encode_length]
    simp only [argsFields, Fields.tails_cons, Fields.tails_nil, bytes_tail, bytes32_tail,
      List.length_append, List.length_nil]
    have hhead :
        (Fields.cons bytes
          (Fields.cons bytes (Fields.cons bytes32 (Fields.cons bytes (Fields.cons bytes
      (Fields.cons bytes (Fields.cons bytes Fields.nil))))))).headSize = 224 := rfl
    unfold maxRpIdLength at hrp
    unfold maxCredentialIdLength at hcred hinitial
    unfold uncompressedP256KeyLength at hkey
    unfold maxNameLength at hname
    unfold maxMetadataLength at hmeta
    omega
  have hsame := (Codec.tuple_lawful argsFields_lawful).encode_injective hlen h
  simp only [Prod.mk.injEq, and_true] at hsame
  obtain ⟨h₁, h₂, h₃, h₄, h₅, h₆, h₇⟩ := hsame
  cases a
  cases b
  simp_all

/-! ## Accepted creations -/

variable {keccak256 : Bytes → Bytes32} {s s' : Index} {a b : CreateArgs} {block now : Nat}
  {key : Bytes32}

/-- What the checks of `createRecord` ask of the state. -/
structure Accepted (keccak256 : Bytes → Bytes32) (block : Nat) (a : CreateArgs) (s : Index) :
    Prop where
  args : ArgsOk a
  wallet : s.recordKeyByWalletRef a.walletRef = zero32
  committed : s.commitBlockPlusOne (a.commitment keccak256) ≠ 0
  revealed : s.commitBlockPlusOne (a.commitment keccak256) - 1 + revealDelay ≤ block
  fresh : s.recordExists (recordKey keccak256 a.rpId a.credentialId) = false
  initial : keccak256 a.initialCredentialId = keccak256 a.credentialId ∨
    s.recordExists (recordKey keccak256 a.rpId a.initialCredentialId) = true ∧
      keccak256 (s.records (recordKey keccak256 a.rpId a.initialCredentialId)).initialCredentialId =
        keccak256 a.initialCredentialId

/-- The state an accepted creation leaves. -/
def written (keccak256 : Bytes → Bytes32) (now : Nat) (a : CreateArgs) (s : Index) : Index :=
  (s.consume (a.commitment keccak256)).store (recordKey keccak256 a.rpId a.credentialId)
    { a with createdAt := now }

theorem checkInitial_eq_ok (h : checkInitial keccak256 a s = .ok ()) :
    keccak256 a.initialCredentialId = keccak256 a.credentialId ∨
      s.recordExists (recordKey keccak256 a.rpId a.initialCredentialId) = true ∧
        keccak256
          (s.records (recordKey keccak256 a.rpId a.initialCredentialId)).initialCredentialId =
          keccak256 a.initialCredentialId := by
  unfold checkInitial at h
  split at h
  · simp only [Except.bind_eq_ok, revertIf_eq_ok, exists_const, not_not, Bool.not_eq_false] at h
    exact .inr h
  · rename_i hsame
    exact .inl (not_not.mp hsame)

theorem createRecord_eq_ok (h : createRecord keccak256 block now a s = .ok s') :
    Accepted keccak256 block a s ∧ s' = written keccak256 now a s := by
  simp only [createRecord, Except.bind_eq_ok, revertIf_eq_ok, exists_const, not_lt, not_not,
    Bool.not_eq_true, Except.pure_eq_ok] at h
  obtain ⟨_, hargs, hwallet, hcommitted, hrevealed, hfresh, _, hinitial, rfl⟩ := h
  exact ⟨⟨validateArgs_eq_ok hargs, hwallet, hcommitted, hrevealed, hfresh,
    checkInitial_eq_ok hinitial⟩, rfl⟩

/-! ## The invariant -/

/-- The strings a creation has hashed. -/
def CreateArgs.hashed (a : CreateArgs) : Set Bytes :=
  {nameEncoding a.rpId a.credentialId, nameEncoding a.rpId a.initialCredentialId, a.encoding,
    a.credentialId, a.initialCredentialId}

theorem CreateArgs.name_mem (a : CreateArgs) : nameEncoding a.rpId a.credentialId ∈ a.hashed := by
  simp [hashed]

theorem CreateArgs.initialName_mem (a : CreateArgs) :
    nameEncoding a.rpId a.initialCredentialId ∈ a.hashed := by
  simp [hashed]

theorem CreateArgs.encoding_mem (a : CreateArgs) : a.encoding ∈ a.hashed := by
  simp [hashed]

theorem CreateArgs.credentialId_mem (a : CreateArgs) : a.credentialId ∈ a.hashed := by
  simp [hashed]

theorem CreateArgs.initial_mem (a : CreateArgs) : a.initialCredentialId ∈ a.hashed := by
  simp [hashed]

/-- The digests of these strings are distinct and not zero. -/
structure Collisionless (keccak256 : Bytes → Bytes32) (H : Set Bytes) : Prop where
  injOn : Set.InjOn keccak256 H
  ne_zero : ∀ b ∈ H, keccak256 b ≠ zero32

/-- A record of the rpId has this credential id and names itself. -/
def Index.HasRoot (s : Index) (rpId initialCredentialId : Bytes) : Prop :=
  ∃ root, s.recordExists root = true ∧ (s.records root).rpId = rpId ∧
    (s.records root).credentialId = initialCredentialId ∧
      (s.records root).initialCredentialId = (s.records root).credentialId

/-- The tables agree: a record stands under the digest of its name, is listed once under its rpId,
is found by its wallet reference, and names the root of its line. -/
structure Consistent (keccak256 : Bytes → Bytes32) (H : Set Bytes) (s : Index) : Prop where
  key_eq : ∀ key, s.recordExists key = true →
    key = recordKey keccak256 (s.records key).rpId (s.records key).credentialId
  args : ∀ key, s.recordExists key = true → ArgsOk (s.records key).toCreateArgs
  hashed : ∀ key, s.recordExists key = true → (s.records key).hashed ⊆ H
  listed : ∀ rpId credentialId, credentialId ∈ s.rpCredentials rpId ↔
    ∃ key, s.recordExists key = true ∧ (s.records key).rpId = rpId ∧
      (s.records key).credentialId = credentialId
  listed_once : ∀ rpId, (s.rpCredentials rpId).Nodup
  rpIds_once : s.rpIds.Nodup
  mem_rpIds : ∀ rpId, rpId ∈ s.rpIds ↔ s.rpCredentials rpId ≠ []
  total : s.totalCredentials = (s.rpIds.map fun rpId => (s.rpCredentials rpId).length).sum
  wallet_of : ∀ key, s.recordExists key = true →
    s.recordKeyByWalletRef (s.records key).walletRef = key
  of_wallet : ∀ walletRef, s.recordKeyByWalletRef walletRef ≠ zero32 →
    s.recordExists (s.recordKeyByWalletRef walletRef) = true ∧
      (s.records (s.recordKeyByWalletRef walletRef)).walletRef = walletRef
  lineage : ∀ key, s.recordExists key = true →
    s.HasRoot (s.records key).rpId (s.records key).initialCredentialId

variable {H : Set Bytes}

theorem consistent_empty : Consistent keccak256 H .empty where
  key_eq _ h := by cases h
  args _ h := by cases h
  hashed _ h := by cases h
  listed rpId credentialId := by
    constructor
    · intro h
      cases h
    · rintro ⟨key, h, -⟩
      cases h
  listed_once _ := List.nodup_nil
  rpIds_once := List.nodup_nil
  mem_rpIds _ := by simp [Index.empty]
  total := rfl
  wallet_of _ h := by cases h
  of_wallet _ h := absurd rfl h
  lineage _ h := by cases h

theorem Consistent.key_ne_zero (hH : Collisionless keccak256 H) (hs : Consistent keccak256 H s)
    (hkey : s.recordExists key = true) : key ≠ zero32 := by
  rw [hs.key_eq key hkey]
  exact hH.ne_zero _ (hs.hashed key hkey (CreateArgs.name_mem _))

/-- A commitment touches no record. -/
theorem Consistent.commit (h : Consistent keccak256 H s) (block : Nat) (commitment : Bytes32) :
    Consistent keccak256 H (s.commit block commitment) := by
  unfold Index.commit
  split
  · exact { h with }
  · exact h

/-! ## What a creation changes -/

section Written

variable (keccak256 s) in
theorem records_written (now : Nat) (a : CreateArgs) (key : Bytes32) :
    (written keccak256 now a s).records key =
    if key = recordKey keccak256 a.rpId a.credentialId then { a with createdAt := now }
      else s.records key := by
  show Function.update s.records _ _ key = _
  by_cases hkey : key = recordKey keccak256 a.rpId a.credentialId
  · rw [if_pos hkey, hkey, Function.update_self]
  · rw [if_neg hkey, Function.update_of_ne hkey]

theorem records_written_self :
    (written keccak256 now a s).records (recordKey keccak256 a.rpId a.credentialId) =
      { a with createdAt := now } := by
  rw [records_written, if_pos rfl]

theorem records_written_of_ne (h : key ≠ recordKey keccak256 a.rpId a.credentialId) :
    (written keccak256 now a s).records key = s.records key := by
  rw [records_written, if_neg h]

theorem recordExists_written (ha : Accepted keccak256 block a s) (now : Nat) (key : Bytes32) :
    (written keccak256 now a s).recordExists key = true ↔
      key = recordKey keccak256 a.rpId a.credentialId ∨ s.recordExists key = true := by
  unfold Index.recordExists
  by_cases hkey : key = recordKey keccak256 a.rpId a.credentialId
  · rw [hkey, records_written_self]
    simpa using ha.args.rpId_ne
  · rw [records_written_of_ne hkey]
    simp [hkey]

/-- A record that was there is not the new one. -/
theorem Accepted.ne_of_exists (ha : Accepted keccak256 block a s)
    (hkey : s.recordExists key = true) : key ≠ recordKey keccak256 a.rpId a.credentialId := by
  rintro rfl
  rw [ha.fresh] at hkey
  cases hkey

theorem rpCredentials_written (rpId : Bytes) : (written keccak256 now a s).rpCredentials rpId =
    if rpId = a.rpId then s.rpCredentials a.rpId ++ [a.credentialId] else s.rpCredentials rpId := by
  show Function.update s.rpCredentials a.rpId _ rpId = _
  by_cases hrp : rpId = a.rpId
  · rw [if_pos hrp, hrp, Function.update_self]
    rfl
  · rw [if_neg hrp, Function.update_of_ne hrp]

theorem recordKeyByWalletRef_written (walletRef : Bytes32) :
    (written keccak256 now a s).recordKeyByWalletRef walletRef =
      if walletRef = a.walletRef then recordKey keccak256 a.rpId a.credentialId
      else s.recordKeyByWalletRef walletRef := by
  show Function.update s.recordKeyByWalletRef a.walletRef _ walletRef = _
  by_cases hw : walletRef = a.walletRef
  · rw [if_pos hw, hw, Function.update_self]
  · rw [if_neg hw, Function.update_of_ne hw]

end Written

/-! ## A creation keeps the invariant -/

/-- One list of a family grows by an element, and the sum of the lengths by one. -/
theorem sum_length_update {α β : Type*} [DecidableEq α] {f : α → List β} {x : α} {l : List α}
    (hx : x ∈ l) (hl : l.Nodup) (y : β) :
    (l.map fun z => (if z = x then f x ++ [y] else f z).length).sum =
      (l.map fun z => (f z).length).sum + 1 := by
  induction l with
  | nil => cases hx
  | cons z l ih =>
      obtain ⟨hz, hl⟩ := List.nodup_cons.mp hl
      simp only [List.map_cons, List.sum_cons]
      rcases List.mem_cons.mp hx with rfl | hx
      · -- The rest of the list does not mention the grown one.
        have hrest : (l.map fun z => (if z = x then f x ++ [y] else f z).length) = l.map fun z =>
            (f z).length := by
          apply List.map_congr_left
          intro z hmem
          rw [if_neg (ne_of_mem_of_not_mem hmem hz)]
        rw [hrest, if_pos rfl, List.length_append, List.length_singleton]
        omega
      · rw [ih hx hl, if_neg (ne_of_mem_of_not_mem hx hz).symm]
        omega

section Creation

variable (hH : Collisionless keccak256 H) (hs : Consistent keccak256 H s)
  (ha : Accepted keccak256 block a s) (haH : a.hashed ⊆ H) (now : Nat)

include hs ha in
/-- The new name was not listed: its record would have been found. -/
theorem Consistent.not_listed : a.credentialId ∉ s.rpCredentials a.rpId := by
  intro hmem
  obtain ⟨key, hkey, hrp, hcred⟩ := (hs.listed _ _).mp hmem
  apply ha.ne_of_exists hkey
  rw [hs.key_eq key hkey, hrp, hcred]

include hs ha in
theorem Consistent.listed_written (rpId credentialId : Bytes) :
    credentialId ∈ (written keccak256 now a s).rpCredentials rpId ↔
      ∃ key, (written keccak256 now a s).recordExists key = true ∧
        ((written keccak256 now a s).records key).rpId = rpId ∧
          ((written keccak256 now a s).records key).credentialId = credentialId := by
  rw [rpCredentials_written]
  constructor
  · intro hmem
    have hmem : rpId = a.rpId ∧ credentialId = a.credentialId ∨
        credentialId ∈ s.rpCredentials rpId := by
      split at hmem
      · rename_i hrp
        subst hrp
        rcases List.mem_append.mp hmem with hmem | hmem
        · exact .inr hmem
        · exact .inl ⟨rfl, List.mem_singleton.mp hmem⟩
      · exact .inr hmem
    rcases hmem with ⟨rfl, rfl⟩ | hmem
    · refine ⟨_, (recordExists_written ha now _).mpr (.inl rfl), ?_⟩
      rw [records_written_self]
      exact ⟨rfl, rfl⟩
    · obtain ⟨key, hkey, hname⟩ := (hs.listed _ _).mp hmem
      refine ⟨key, (recordExists_written ha now _).mpr (.inr hkey), ?_⟩
      rwa [records_written_of_ne (ha.ne_of_exists hkey)]
  · rintro ⟨key, hkey, hrp, hcred⟩
    rcases (recordExists_written ha now key).mp hkey with rfl | hold
    · rw [records_written_self] at hrp hcred
      subst hrp hcred
      rw [if_pos rfl]
      exact List.mem_append_right _ (List.mem_singleton_self _)
    · rw [records_written_of_ne (ha.ne_of_exists hold)] at hrp hcred
      have hmem := (hs.listed rpId credentialId).mpr ⟨key, hold, hrp, hcred⟩
      split
      · rename_i h
        exact List.mem_append_left _ (h ▸ hmem)
      · exact hmem

include hs ha in
theorem Consistent.listed_once_written (rpId : Bytes) :
    ((written keccak256 now a s).rpCredentials rpId).Nodup := by
  rw [rpCredentials_written]
  split
  · have hfresh := hs.not_listed ha
    apply List.Nodup.append (hs.listed_once _) (List.nodup_singleton _)
    intro x hx hnew
    exact hfresh (List.mem_singleton.mp hnew ▸ hx)
  · exact hs.listed_once rpId

/-- The rpId is added to the list with its first credential. -/
theorem rpIds_written : (written keccak256 now a s).rpIds =
    if (s.rpCredentials a.rpId).length = 0 then s.rpIds ++ [a.rpId] else s.rpIds :=
  rfl

include hs in
/-- An rpId with no credentials is not in the list. -/
theorem Consistent.not_mem_rpIds {rpId : Bytes} (h : (s.rpCredentials rpId).length = 0) :
    rpId ∉ s.rpIds :=
  fun hmem => (hs.mem_rpIds rpId).mp hmem (List.eq_nil_of_length_eq_zero h)

include hs in
theorem Consistent.rpIds_once_written : (written keccak256 now a s).rpIds.Nodup := by
  rw [rpIds_written]
  split
  · rename_i hempty
    apply List.Nodup.append hs.rpIds_once (List.nodup_singleton _)
    intro x hx hnew
    exact hs.not_mem_rpIds hempty (List.mem_singleton.mp hnew ▸ hx)
  · exact hs.rpIds_once

include hs in
theorem Consistent.mem_rpIds_written (rpId : Bytes) :
    rpId ∈ (written keccak256 now a s).rpIds ↔
      (written keccak256 now a s).rpCredentials rpId ≠ [] := by
  rw [rpIds_written, rpCredentials_written]
  have hold := hs.mem_rpIds
  by_cases hrp : rpId = a.rpId
  · subst hrp
    rw [if_pos rfl]
    split
    · simp
    · rename_i hne
      simp only [hold]
      constructor
      · intro _
        exact List.append_ne_nil_of_right_ne_nil _ (List.cons_ne_nil _ _)
      · intro _ hnil
        exact hne (by rw [hnil, List.length_nil])
  · rw [if_neg hrp]
    split
    · simp [hold, hrp]
    · exact hold rpId

include hs in
theorem Consistent.total_written : (written keccak256 now a s).totalCredentials =
    ((written keccak256 now a s).rpIds.map fun rpId =>
      ((written keccak256 now a s).rpCredentials rpId).length).sum := by
  have htotal : (written keccak256 now a s).totalCredentials = s.totalCredentials + 1 := rfl
  simp only [htotal, hs.total, rpIds_written, rpCredentials_written]
  split
  · -- The first credential of its rpId.
    rename_i hempty
    have hrest : (s.rpIds.map fun rpId =>
        (if rpId = a.rpId then s.rpCredentials a.rpId ++ [a.credentialId]
          else s.rpCredentials rpId).length) =
        s.rpIds.map fun rpId => (s.rpCredentials rpId).length := by
      apply List.map_congr_left
      intro rpId hmem
      rw [if_neg (ne_of_mem_of_not_mem hmem (hs.not_mem_rpIds hempty))]
    rw [List.map_append, List.sum_append, hrest]
    simp [hempty]
  · rename_i hne
    have hmem : a.rpId ∈ s.rpIds := (hs.mem_rpIds _).mpr fun hnil =>
      hne (by rw [hnil, List.length_nil])
    exact (sum_length_update hmem hs.rpIds_once a.credentialId).symm

include hs ha hH in
theorem Consistent.wallet_of_written (key : Bytes32)
    (hkey : (written keccak256 now a s).recordExists key = true) :
    (written keccak256 now a s).recordKeyByWalletRef
      ((written keccak256 now a s).records key).walletRef = key := by
  rw [recordKeyByWalletRef_written]
  rcases (recordExists_written ha now key).mp hkey with rfl | hold
  · rw [records_written_self, if_pos rfl]
  · rw [records_written_of_ne (ha.ne_of_exists hold)]
    have hwallet := hs.wallet_of key hold
    rw [if_neg, hwallet]
    -- The new wallet reference was free, and a record's key is not zero.
    intro heq
    rw [heq, ha.wallet] at hwallet
    exact hs.key_ne_zero hH hold hwallet.symm

include hs ha in
theorem Consistent.of_wallet_written (walletRef : Bytes32)
    (h : (written keccak256 now a s).recordKeyByWalletRef walletRef ≠ zero32) :
    (written keccak256 now a s).recordExists
      ((written keccak256 now a s).recordKeyByWalletRef walletRef) = true ∧
      ((written keccak256 now a s).records
        ((written keccak256 now a s).recordKeyByWalletRef walletRef)).walletRef = walletRef := by
  rw [recordKeyByWalletRef_written] at h ⊢
  split at h
  · rename_i hw
    rw [if_pos hw, records_written_self]
    exact ⟨(recordExists_written ha now _).mpr (.inl rfl), hw.symm⟩
  · rename_i hw
    obtain ⟨hold, hback⟩ := hs.of_wallet walletRef h
    rw [if_neg hw, records_written_of_ne (ha.ne_of_exists hold)]
    exact ⟨(recordExists_written ha now _).mpr (.inr hold), hback⟩

include hs ha hH haH in
/-- The record a rotated key names is the root it asks for: the digests the contract compares stand
for the names. -/
theorem Consistent.initial_root :
    a.initialCredentialId = a.credentialId ∨ s.HasRoot a.rpId a.initialCredentialId := by
  rcases ha.initial with hsame | ⟨hroot, hself⟩
  · exact .inl (hH.injOn (haH a.initial_mem) (haH a.credentialId_mem) hsame)
  · have hrootH := hs.hashed _ hroot
    have hname :=
      hH.injOn (haH a.initialName_mem) (hrootH (CreateArgs.name_mem _)) (hs.key_eq _ hroot)
    obtain ⟨hrp, hcred⟩ := nameEncoding_inj ha.args.rpId_le ha.args.initial_le hname
    have hinitial := hH.injOn (hrootH (CreateArgs.initial_mem _)) (haH a.initial_mem) hself
    exact .inr ⟨_, hroot, hrp.symm, hcred.symm, hinitial.trans hcred⟩

include ha in
/-- A root that was there stays as it is. -/
theorem Index.HasRoot.written {rpId initialCredentialId : Bytes}
    (h : s.HasRoot rpId initialCredentialId) :
    (written keccak256 now a s).HasRoot rpId initialCredentialId := by
  obtain ⟨root, hroot, hrest⟩ := h
  refine ⟨root, (recordExists_written ha now root).mpr (.inr hroot), ?_⟩
  rwa [records_written_of_ne (ha.ne_of_exists hroot)]

include hs ha hH haH in
theorem Consistent.lineage_written (key : Bytes32)
    (hkey : (written keccak256 now a s).recordExists key = true) :
    (written keccak256 now a s).HasRoot ((written keccak256 now a s).records key).rpId
      ((written keccak256 now a s).records key).initialCredentialId := by
  rcases (recordExists_written ha now key).mp hkey with rfl | hold
  · rw [records_written_self]
    rcases hs.initial_root hH ha haH with hself | hroot
    · refine ⟨_, hkey, ?_⟩
      rw [records_written_self]
      exact ⟨rfl, hself.symm, hself⟩
    · exact hroot.written ha now
  · rw [records_written_of_ne (ha.ne_of_exists hold)]
    exact (hs.lineage key hold).written ha now

include hs ha hH haH in
theorem Consistent.written : Consistent keccak256 H (written keccak256 now a s) where
  key_eq key hkey := by
    rcases (recordExists_written ha now key).mp hkey with rfl | hold
    · rw [records_written_self]
    · rw [records_written_of_ne (ha.ne_of_exists hold)]
      exact hs.key_eq key hold
  args key hkey := by
    rcases (recordExists_written ha now key).mp hkey with rfl | hold
    · rw [records_written_self]
      exact ha.args
    · rw [records_written_of_ne (ha.ne_of_exists hold)]
      exact hs.args key hold
  hashed key hkey := by
    rcases (recordExists_written ha now key).mp hkey with rfl | hold
    · rw [records_written_self]
      exact haH
    · rw [records_written_of_ne (ha.ne_of_exists hold)]
      exact hs.hashed key hold
  listed := hs.listed_written ha now
  listed_once := hs.listed_once_written ha now
  rpIds_once := hs.rpIds_once_written now
  mem_rpIds := hs.mem_rpIds_written now
  total := hs.total_written now
  wallet_of := hs.wallet_of_written hH ha now
  of_wallet := hs.of_wallet_written ha now
  lineage := hs.lineage_written hH ha haH now

end Creation

end P256Index.Legacy
