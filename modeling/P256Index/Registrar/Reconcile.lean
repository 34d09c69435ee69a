import P256Index.Contract.Audit
import P256Index.Contract.Purpose
import P256Index.Registrar.Agreement
import P256Index.Registrar.Submission

/-!
# Reconciliation decides the task's own content

The service and the contract compute the same things from the same data: they accept the same proofs
(`verifyProof_agrees`), and the digest the service keeps for a task is the contract's. So the
worker's question to the chain, "is my write already there?", is answered with yes exactly if the
registry holds what the task asks to write (`check_decides_content`), and right after the write is
accepted it is.
-/

namespace P256Index.Registrar

open Contract (ValidKey Registry Bound coordinates)

variable {K : P256Crate} {E : Contract.Evm}

/-! ## Two proof checks -/

/-- A proof of parsable fields has its form in calldata, which the contract reads back, and for
every challenge, rpId and valid key both sides take it or not alike. -/
theorem verifyProof_agrees (proof : Proof) {key : Bytes} (hK : CrateAgrees K E)
    (hkey : ValidKey key) (hauth : (parseHexBytes proof.authenticatorData.val).isSome = true)
    (hr : (parseB256 proof.r).isSome = true) (hs : (parseB256 proof.s).isSome = true)
    (challenge : Bytes32) (rpId : String) :
    ∃ sol, proofSol proof = some sol ∧
      Contract.proofCodec.decode (Contract.proofCodec.encode sol) = some sol ∧
        (verifyProof E K proof challenge rpId key = .ok () ↔
          Contract.verifyProof E sol challenge (utf8 rpId) (coordinates key) = .ok ()) := by
  obtain ⟨auth, hauth⟩ := Option.isSome_iff_exists.mp hauth
  obtain ⟨r, hr⟩ := Option.isSome_iff_exists.mp hr
  obtain ⟨s, hs⟩ := Option.isSome_iff_exists.mp hs
  have hsome : (proofSol proof).isSome = true := by simp [proofSol, hauth, hr, hs]
  obtain ⟨sol, hsol⟩ := Option.isSome_iff_exists.mp hsome
  refine ⟨sol, hsol, ?_, ?_, ?_⟩
  · have hlen := (proofSol_fits hsol).encode_length_lt
    have hread := Contract.proofCodec_lawful.decode_encode sol []
    rw [List.append_nil] at hread
    exact hread (hlen.trans (by norm_num))
  · intro h
    obtain ⟨sol', hsol'⟩ := verifyProof_eq_ok E K h
    cases hsol.symm.trans hsol'.parsed
    exact (Contract.verifyProof_eq_ok E).mpr (hsol'.proofOk hK hkey)
  · intro h
    exact verifyProof_of_proofOk hK hsol hkey ((Contract.verifyProof_eq_ok E).mp h)

open Sample Contract.Sample in
/-- The device's recorded proof is taken by both. -/
theorem verifyProof_agrees_device :
    verifyProof evm crate (proof deviceSignature)
      (Contract.challengeFor evm domain Contract.Sample.rpId deviceKey
        (Contract.referenceBindingFor evm groupKey [] [0xaa])) "example.com"
          deviceKey = .ok () := by
  have hword : ∀ n : U256, (parseB256 (hexText (word n.val))).isSome = true := fun n => by
    rw [parseB256_hexText ⟨word n.val, word_length n.val⟩]
    rfl
  have hauth : (parseHexBytes (proof deviceSignature).authenticatorData.val).isSome = true := by
    rw [proof, Sample.authenticatorData, parseHexBytes_hexText]
    rfl
  obtain ⟨sol, hsol, -, hiff⟩ := verifyProof_agrees (proof deviceSignature) crate_agrees
    validKey_deviceKey hauth (hword _) (hword _)
    (Contract.challengeFor evm domain Contract.Sample.rpId deviceKey
      (Contract.referenceBindingFor evm groupKey [] [0xaa])) "example.com"
  cases hsol.symm.trans (proofSol_proof deviceSignature)
  exact hiff.mpr ((Contract.verifyProof_eq_ok evm).mpr Contract.Sample.referArgs_ok.proof)

/-! ## What a task writes -/

/-- The members' keys and attestations, in order. -/
def RegisterTask.pairs (task : RegisterTask) : List (Bytes × Bytes) :=
  task.members.map fun member => (keyBytesOf member.publicKey, fieldBytesOf member.attestation)

/-- What the group key of a register signs. -/
def RegisterTask.bound (task : RegisterTask) : Bound :=
  .group (utf8 task.rpId) (fieldBytesOf task.metadata) (keyBytesOf task.groupPublicKey) task.pairs

/-- The pairs of a unit's members, in order. -/
def unitPairs (s : Registry) (i : Nat) : List (Bytes × Bytes) :=
  (s.memberEntries i).map fun entry => (entry.publicKey, entry.attestation)

/-- The registry holds what the task asks to write: a unit with its rpId, metadata, group key and
list of members, or a reference from its member's entry to its group's unit. -/
def OnChain (s : Registry) (task : RegisterTask) : Prop :=
  match task.kind with
  | .register => ∃ i unit, s.units[i]? = some unit ∧ unit.rpId = utf8 task.rpId ∧
      unit.metadata = fieldBytesOf task.metadata ∧
        unit.groupPublicKey = keyBytesOf task.groupPublicKey ∧ unitPairs s i = task.pairs
  | .refer => ∃ r ∈ s.references, ∃ unit entry, ∃ member ∈ task.members,
      s.units[r.unitId]? = some unit ∧ unit.groupPublicKey = keyBytesOf task.groupPublicKey ∧
        s.entries[r.entryId]? = some entry ∧ entry.publicKey = keyBytesOf member.publicKey

/-- What the chain answers to a reconciliation check in a state, through the shell's decoders. -/
def readCheck (E : Contract.Evm) (s : Registry) : Submission.Operation → Option Bool
  | .checkContentRegistered contentHash => (parseB256 contentHash).map s.isContentRegistered
  | .checkReferenced group member => do
      let group ← parseHexBytes group
      let member ← parseHexBytes member
      pure (s.isReferenced E group member)
  | _ => none

/-- The strings hashed on the two sides of a check: those behind the state, the units' founding
data, the task's own, and its keys. -/
def checkedStrings (E : Contract.Evm) (s : Registry) (task : RegisterTask) : Set Bytes :=
  s.hashed E ∪ {b | ∃ i unit, s.units[i]? = some unit ∧ b ∈
    (Bound.group unit.rpId unit.metadata unit.groupPublicKey (unitPairs s i)).hashed E} ∪
      task.bound.hashed E ∪ {key | key ∈ task.keyBytes}

/-! ## The text of an accepted task -/

variable {request : RegisterRequest} {referRequest : ReferRequest} {newTaskId : String}
  {nowMs chainId : UInt64} {address : Address} {groupProof : Proof} {member : Member}
  {contentHash : Bytes32} {task : RegisterTask} {key attestation credentialId : Bytes}

/-- The digest kept with a register is the one its group key signs. -/
theorem RegisterAccepted.contentHash_eq
    (h : RegisterAccepted K E request newTaskId nowMs chainId address groupProof contentHash task) :
    contentHash = task.bound.binding E := by
  have hkind : task.kind = .register := congrArg RegisterTask.kind h.task_eq
  obtain ⟨metadata, hmetaText, -⟩ := parseMetadata_eq_ok h.metadata
  obtain ⟨group, hgroupText, -⟩ := parsePublicKey_eq_ok h.group_key
  have hhashes : task.members.mapM (memberHash E) =
      some (task.pairs.map fun pair => Contract.memberHash E pair.1 pair.2) := by
    apply mapM_of_forall₂
    rw [RegisterTask.pairs, List.forall₂_map_right_iff, List.forall₂_same]
    intro member hmember
    obtain ⟨key, attestation, credentialId, hfields⟩ := h.memberFields member hmember
    exact hfields.memberHash_eq
  have hcontent := h.content_hash
  simp only [contentHashFor, hgroupText, hmetaText, parseHexBytes_encode, parseHexBytes_normalHex,
    hhashes, hkind, Option.bind_eq_bind, Option.bind_some, Option.pure_def,
    Option.some.injEq] at hcontent
  rw [← hcontent, RegisterTask.bound, hgroupText, hmetaText, keyBytesOf_encode,
    fieldBytesOf_normalHex]
  rfl

theorem TranslatedRegister.bound {a : Contract.RegisterArgs}
    (h : TranslatedRegister E task groupProof a) (d : Contract.Domain) :
    (a.purpose d).bound = task.bound := by
  have hmembers : a.members.map (fun m => (m.publicKey, m.attestation)) = task.pairs :=
    map_eq_of_forall₂ (h.members.imp fun member m hm => Prod.ext hm.key_eq hm.attestation_eq)
  rw [RegisterTask.bound, ← h.rpId_eq, ← h.metadata_eq, ← h.group_eq, ← hmembers]
  rfl

theorem RegisterAccepted.bound_fits
    (h : RegisterAccepted K E request newTaskId nowMs chainId address groupProof contentHash task) :
    task.bound.Fits := by
  obtain ⟨a, ha⟩ := h.translated
  rw [← ha.bound ⟨0, 0⟩]
  exact ha.fits.bound ⟨0, 0⟩

/-- The keys of a refer are read as they were written. -/
theorem ReferAccepted.keys_read
    (h : ReferAccepted K E referRequest newTaskId nowMs chainId address member contentHash task) :
    parseHexBytes task.groupPublicKey = some (keyBytesOf task.groupPublicKey) ∧
      parseHexBytes member.publicKey = some (keyBytesOf member.publicKey) := by
  obtain ⟨group, hgroupText, -⟩ := parsePublicKey_eq_ok h.group_key
  obtain ⟨key, attestation, credentialId, hfields⟩ := h.memberFields
  constructor
  · rw [hgroupText, parseHexBytes_encode, keyBytesOf_encode]
  · rw [hfields.key_text, parseHexBytes_encode, keyBytesOf_encode]

/-! ## Registers -/

variable {d : Contract.Domain} {s s' : Registry} {now : Nat}

/-- A unit's digest is the one of its stored founding data. -/
theorem unit_contentHash {i : Nat} {unit : Contract.GroupUnit} (hs : Contract.Reachable E d s)
    (hS : Set.InjOn E.keccak256 (s.hashed E)) (hunit : s.units[i]? = some unit) :
    unit.contentHash =
      (Bound.group unit.rpId unit.metadata unit.groupPublicKey (unitPairs s i)).binding E := by
  obtain ⟨a, ha⟩ := Contract.unit_authorized hs hS hunit
  exact ha.content_hash

/-- The content read says whether a unit was founded on exactly these data. -/
theorem isContentRegistered_iff {b : Bound} {rpId metadata group : Bytes}
    {pairs : List (Bytes × Bytes)} {S : Set Bytes} (hs : Contract.Reachable E d s)
    (hS : Set.InjOn E.keccak256 S) (hstate : s.hashed E ⊆ S)
    (hunits : ∀ i unit, s.units[i]? = some unit →
      (Bound.group unit.rpId unit.metadata unit.groupPublicKey (unitPairs s i)).hashed E ⊆ S)
    (hb : b = .group rpId metadata group pairs) (hmem : b.hashed E ⊆ S) (hfits : b.Fits) :
    s.isContentRegistered (b.binding E) = true ↔
      ∃ i unit, s.units[i]? = some unit ∧ unit.rpId = rpId ∧ unit.metadata = metadata ∧
        unit.groupPublicKey = group ∧ unitPairs s i = pairs := by
  rw [Registry.isContentRegistered, bne_iff_ne]
  constructor
  · intro hne
    obtain ⟨i, hi⟩ := Nat.exists_eq_succ_of_ne_zero hne
    obtain ⟨unit, hunit, hhash⟩ := hs.consistent.content_some _ i hi
    rw [unit_contentHash hs (hS.mono hstate) hunit] at hhash
    have heq := Bound.eq_of_binding_eq hS hmem (hunits i unit hunit) hfits hhash.symm
    rw [hb, Bound.group.injEq] at heq
    exact ⟨i, unit, hunit, heq.1.symm, heq.2.1.symm, heq.2.2.1.symm, heq.2.2.2.symm⟩
  · rintro ⟨i, unit, hunit, rfl, rfl, rfl, rfl⟩
    rw [hb, ← unit_contentHash hs (hS.mono hstate) hunit]
    exact hs.consistent.content_ne_zero unit (List.mem_of_getElem? hunit)

theorem RegisterAccepted.check_iff
    (h : RegisterAccepted K E request newTaskId nowMs chainId address groupProof contentHash task)
    (hs : Contract.Reachable E d s) (hS : Set.InjOn E.keccak256 (checkedStrings E s task)) :
    s.isContentRegistered contentHash = true ↔ OnChain s task := by
  have hkind : task.kind = .register := congrArg RegisterTask.kind h.task_eq
  rw [h.contentHash_eq, OnChain, hkind]
  refine isContentRegistered_iff hs hS ?_ ?_ rfl ?_ h.bound_fits
  · exact fun b hb => .inl (.inl (.inl hb))
  · exact fun i unit hunit b hb => .inl (.inl (.inr ⟨i, unit, hunit, hb⟩))
  · exact fun b hb => .inl (.inr hb)

/-- Right after its call is accepted the content is there, under the digest kept with the task. -/
theorem RegisterAccepted.check_of_call
    (h : RegisterAccepted K E request newTaskId nowMs chainId address groupProof contentHash task)
    (hs : Contract.Reachable E d s) {data : Bytes} (hdata : writeCalldata task = some data)
    (hcall : Contract.call E d now data s = .ok s') :
    s'.isContentRegistered contentHash = true ∧
      ∃ unit, s'.units = s.units ++ [unit] ∧ unit.contentHash = contentHash := by
  have hkind : task.kind = .register := congrArg RegisterTask.kind h.task_eq
  obtain ⟨a, ha⟩ := h.translated
  obtain rfl : Contract.encodeCall (.register a) = data := by
    simpa [writeCalldata, hkind, registerCalldata, ha.args] using hdata
  have hhash : (a.unit E now).contentHash = contentHash := by
    rw [h.contentHash_eq, ← ha.bound d]
    rfl
  have hdecode : E.decode (Contract.encodeCall (.register a)) = some (.register a) :=
    E.decode_encodeCall ha.fits
  rcases Contract.call_eq_ok.mp hcall with ⟨b, hdec, hreg⟩ | ⟨b, hdec, -⟩
  · cases hdecode.symm.trans hdec
    obtain ⟨-, -, -, rfl⟩ := (Contract.register_eq_ok hs.indexed).mp hreg
    have hunits := Contract.registered_units (E := E) s now (Contract.encodeCall (.register a)) a
    refine ⟨?_, a.unit E now, hunits, hhash⟩
    rw [Registry.isContentRegistered, bne_iff_ne, ← hhash]
    refine (Contract.Reachable.call hs hcall).consistent.content_ne_zero _ ?_
    rw [hunits]
    simp
  · cases hdecode.symm.trans hdec

/-! ## Refers -/

theorem ReferAccepted.check_iff
    (h : ReferAccepted K E referRequest newTaskId nowMs chainId address member contentHash task)
    (hs : Contract.Reachable E d s) (hS : Set.InjOn E.keccak256 (checkedStrings E s task)) :
    s.isReferenced E (keyBytesOf task.groupPublicKey) (keyBytesOf member.publicKey) = true ↔
      OnChain s task := by
  have hkind : task.kind = .refer := congrArg RegisterTask.kind h.task_eq
  have hmembers := h.members_eq
  have hc := hs.consistent
  have hkeys : ∀ key ∈ task.keyBytes, key ∈ checkedStrings E s task := fun key hkey => .inr hkey
  have hstate : s.hashed E ⊆ checkedStrings E s task := fun b hb => .inl (.inl (.inl hb))
  rw [OnChain, hkind]
  constructor
  · intro hread
    unfold Registry.isReferenced at hread
    split at hread
    · rename_i unitId entryId hgroup hkey
      obtain ⟨i, hi⟩ := Nat.exists_eq_succ_of_ne_zero (bne_iff_ne.mp hread)
      obtain ⟨r, hr, hlink⟩ := (hc.links (unitId, entryId) i).mp hi
      obtain ⟨hu, he⟩ := Prod.mk.inj hlink
      obtain ⟨unit, hunit, hunitKey⟩ := (hc.groups _ _).mp hgroup
      obtain ⟨entry, hentry, hentryKey⟩ := (hc.keys _ _).mp hkey
      obtain ⟨a, at', ha⟩ := hs.recorded.units unitId (List.getElem?_eq_some_iff.mp hunit).1
      cases hunit.symm.trans ha.row
      refine ⟨r, List.mem_of_getElem? hr, a.unit E at', entry, member, by simp [hmembers], ?_, ?_,
        ?_, ?_⟩
      · rw [hu]
        exact hunit
      · exact hS (hstate ha.hashed_group) (hkeys _ List.mem_cons_self) hunitKey
      · rw [he]
        exact hentry
      · have hentryMem := (Registry.hashed_entry (E := E) (List.mem_of_getElem? hentry)).1
        refine hS (hstate hentryMem) (hkeys _ ?_) hentryKey
        simp [RegisterTask.keyBytes, hmembers]
    · cases hread
  · rintro ⟨r, hr, unit, entry, member', hmember', hunit, hgroup, hentry, hkey⟩
    obtain rfl : member' = member := by simpa [hmembers] using hmember'
    obtain ⟨i, hi⟩ := List.getElem?_of_mem hr
    have hgroupIndex :=
      (hc.groups (E.keccak256 unit.groupPublicKey) r.unitId).mpr ⟨unit, hunit, rfl⟩
    have hkeyIndex := (hc.keys (E.keccak256 entry.publicKey) r.entryId).mpr ⟨entry, hentry, rfl⟩
    have hlink := (hc.links (r.unitId, r.entryId) i).mpr ⟨r, hi, rfl⟩
    rw [hgroup] at hgroupIndex
    rw [hkey] at hkeyIndex
    rw [Registry.isReferenced, hgroupIndex, hkeyIndex]
    simp only [bne_iff_ne]
    exact ne_of_eq_of_ne hlink (Nat.succ_ne_zero i)

theorem ReferAccepted.check_of_call
    (h : ReferAccepted K E referRequest newTaskId nowMs chainId address member contentHash task)
    (hs : Contract.Reachable E d s) {data : Bytes} (hdata : writeCalldata task = some data)
    (hcall : Contract.call E d now data s = .ok s') :
    s'.isReferenced E (keyBytesOf task.groupPublicKey) (keyBytesOf member.publicKey) = true := by
  have hkind : task.kind = .refer := congrArg RegisterTask.kind h.task_eq
  obtain ⟨a, ha⟩ := h.translated
  obtain rfl : Contract.encodeCall (.refer a) = data := by
    simpa [writeCalldata, hkind, referCalldata, ha.args] using hdata
  have hdecode : E.decode (Contract.encodeCall (.refer a)) = some (.refer a) :=
    E.decode_encodeCall ha.fits
  have hc := (Contract.Reachable.call hs hcall).consistent
  rcases Contract.call_eq_ok.mp hcall with ⟨b, hdec, -⟩ | ⟨b, hdec, hrefer⟩
  · cases hdecode.symm.trans hdec
  · cases hdecode.symm.trans hdec
    obtain ⟨unitId, unit, hindex, hunit, hok, hentry, -, rfl⟩ := Contract.refer_eq_ok.mp hrefer
    rw [← ha.group_eq, ← ha.member.key_eq]
    exact (Contract.referenceRecord_referred hdec hindex hunit hok hentry).isReferenced hc

/-! ## The check decides -/

/-- The check the worker asks for a task: by the digest kept with it, or by its pair of keys. -/
def OwnCheck (task : RegisterTask) (op : Submission.Operation) : Prop :=
  match task.kind with
  | .register => op = .checkContentRegistered task.contentHash
  | .refer => ∃ member, task.members = [member] ∧
      op = .checkReferenced task.groupPublicKey member.publicKey

/-- The check of an accepted register, what the chain answers to it, and the calldata of the write.
-/
theorem RegisterAccepted.ownCheck
    (h : RegisterAccepted K E request newTaskId nowMs chainId address groupProof contentHash task) :
    Submission.checkOperation E task = some (.checkContentRegistered task.contentHash) ∧
      (∀ s, readCheck E s (.checkContentRegistered task.contentHash) =
        some (s.isContentRegistered contentHash)) ∧ ∃ data, writeCalldata task = some data := by
  have hkind : task.kind = .register := congrArg RegisterTask.kind h.task_eq
  have hhash : task.contentHash = hexText contentHash.val :=
    congrArg RegisterTask.contentHash h.task_eq
  obtain ⟨a, ha⟩ := h.translated
  refine ⟨?_, ?_, Contract.encodeCall (.register a), ?_⟩
  · simp [Submission.checkOperation, hkind, h.content_hash, hhash]
  · intro s
    rw [hhash, readCheck, parseB256_hexText, Option.map_some]
  · simp [writeCalldata, hkind, registerCalldata, ha.args]

theorem ReferAccepted.ownCheck
    (h : ReferAccepted K E referRequest newTaskId nowMs chainId address member contentHash task) :
    Submission.checkOperation E task =
      some (.checkReferenced task.groupPublicKey member.publicKey) ∧
      (∀ s, readCheck E s (.checkReferenced task.groupPublicKey member.publicKey) =
        some (s.isReferenced E (keyBytesOf task.groupPublicKey) (keyBytesOf member.publicKey))) ∧
          ∃ data, writeCalldata task = some data := by
  have hkind : task.kind = .refer := congrArg RegisterTask.kind h.task_eq
  obtain ⟨a, ha⟩ := h.translated
  obtain ⟨hgroup, hkey⟩ := h.keys_read
  refine ⟨?_, ?_, Contract.encodeCall (.refer a), ?_⟩
  · simp [Submission.checkOperation, hkind, h.members_eq]
  · intro s
    simp only [readCheck, hgroup, hkey, Option.bind_eq_bind, Option.bind_some, Option.pure_def]
  · simp [writeCalldata, hkind, referCalldata, ha.args]

/-- Every validated task has its check and its calldata. In every state of a registry, the check is
answered with yes exactly if the registry holds what the task asks to write; right after the
registry accepts the calldata it is, and a new unit has the digest kept with the task. -/
theorem check_decides_content {submitted : Admission.Submission} {task : RegisterTask}
    {text : String} (hvalid : Admission.validate K E submitted = .ok (task, text)) :
    ∃ op data, Submission.checkOperation E task = some op ∧ OwnCheck task op ∧
      writeCalldata task = some data ∧ ∀ d s, Contract.Reachable E d s →
        (Set.InjOn E.keccak256 (checkedStrings E s task) →
          (readCheck E s op = some true ↔ OnChain s task)) ∧
        ∀ now s', Contract.call E d now data s = .ok s' → readCheck E s' op = some true ∧
          (task.kind = .register → ∃ unit, s'.units = s.units ++ [unit] ∧
            task.contentHash = hexText unit.contentHash.val) := by
  obtain ⟨request, newTaskId, nowMs, chainId, registry⟩ := submitted
  cases request with
  | register request =>
      obtain ⟨address, groupProof, contentHash, -, -, h⟩ := validateRegister_eq_ok hvalid
      have hkind : task.kind = .register := congrArg RegisterTask.kind h.task_eq
      obtain ⟨hop, hread, data, hdata⟩ := h.ownCheck
      refine ⟨_, data, hop, by rw [OwnCheck, hkind], hdata, fun d s hs => ⟨?_, ?_⟩⟩
      · intro hS
        rw [hread, Option.some.injEq]
        exact h.check_iff hs hS
      · intro now s' hcall
        obtain ⟨hthere, unit, hunits, hunit⟩ := h.check_of_call hs hdata hcall
        refine ⟨by rw [hread, hthere], fun _ => ⟨unit, hunits, ?_⟩⟩
        rw [hunit]
        exact congrArg RegisterTask.contentHash h.task_eq
  | refer request =>
      obtain ⟨address, member, contentHash, -, -, h⟩ := validateRefer_iff.mp hvalid
      have hkind : task.kind = .refer := congrArg RegisterTask.kind h.task_eq
      obtain ⟨hop, hread, data, hdata⟩ := h.ownCheck
      refine ⟨_, data, hop, by rw [OwnCheck, hkind]; exact ⟨member, h.members_eq, rfl⟩, hdata,
        fun d s hs => ⟨?_, ?_⟩⟩
      · intro hS
        rw [hread, Option.some.injEq]
        exact h.check_iff hs hS
      · intro now s' hcall
        refine ⟨by rw [hread, h.check_of_call hs hdata hcall], fun hregister => ?_⟩
        rw [hkind] at hregister
        cases hregister

namespace Sample

open Contract.Sample (evm groupKey memberKey referred)

variable (id : String)

theorem writeCalldata_registerTask :
    writeCalldata (registerTask id) = some Contract.Sample.registerData := by
  have hmembers : (registerTask id).members.mapM memberSol = some [Contract.Sample.member] := by
    show [member].mapM memberSol = _
    simp [translated_member.sol]
  have hmeta : parseHexBytes (registerTask id).metadata = some [] := parseHexBytes_normalHex []
  have hgroup : parseHexBytes (registerTask id).groupPublicKey = some groupKey :=
    parseHexBytes_encode groupKey
  have hproof : (registerTask id).groupProof = some (proof Contract.Sample.groupSignature) := rfl
  have hkind : (registerTask id).kind = .register := rfl
  simp only [writeCalldata, hkind, registerCalldata, registerArgs, hmembers, hmeta, hgroup, hproof,
    proofSol_proof, Option.bind_eq_bind, Option.bind_some, Option.pure_def, Option.map_some]
  rfl

theorem pairs_registerTask :
    (registerTask id).pairs = [(memberKey, Contract.Sample.attestation)] := by
  show [(keyBytesOf member.publicKey, fieldBytesOf member.attestation)] = _
  rw [keyBytesOf_member, show fieldBytesOf member.attestation = Contract.Sample.attestation from
    fieldBytesOf_normalHex _]

/-- The strings of the recorded register's check are on record. -/
theorem checkedStrings_registerTask :
    checkedStrings evm referred (registerTask id) ⊆ Contract.Sample.hashedStrings := by
  have hunits : referred.units = [Contract.Sample.registerArgs.unit evm 0] := by decide +kernel
  have hpairs : unitPairs referred 0 = [(memberKey, Contract.Sample.attestation)] := by
    decide +kernel
  have hgroup : keyBytesOf (registerTask id).groupPublicKey = groupKey := keyBytesOf_encode groupKey
  -- the unit and the task have one and the same founding data
  have hfounding : ∀ b ∈ (Bound.group Contract.Sample.rpId [] groupKey
      [(memberKey, Contract.Sample.attestation)]).hashed evm,
        b ∈ Contract.Sample.hashedStrings := by
    rintro b (rfl | ⟨m, hm, rfl⟩)
    · decide +kernel
    · cases List.mem_singleton.mp hm
      decide +kernel
  rintro b (((hb | ⟨i, unit, hunit, hb⟩) | hb) | hb)
  · exact Contract.hashed_referred hb
  · rw [hunits] at hunit
    obtain rfl : i = 0 := by
      have hlt := (List.getElem?_eq_some_iff.mp hunit).1
      simpa using hlt
    cases hunit
    rw [hpairs] at hb
    exact hfounding b hb
  · rw [RegisterTask.bound, pairs_registerTask, hgroup] at hb
    exact hfounding b hb
  · have hkeys : (registerTask id).keyBytes = [groupKey, memberKey] := by
      show [keyBytesOf (Hex.encode groupKey), keyBytesOf member.publicKey] = _
      rw [keyBytesOf_encode, keyBytesOf_member]
    have hmem : ∀ key ∈ [groupKey, memberKey], key ∈ Contract.Sample.hashedStrings := by
      decide +kernel
    exact hmem b (hkeys ▸ hb)

end Sample

open Sample in
/-- The recorded register is on-chain after its call, and stays so. -/
theorem check_decides_content_group :
    ∃ op, Submission.checkOperation Contract.Sample.evm (registerTask "group") = some op ∧
      readCheck Contract.Sample.evm Contract.Sample.registered op = some true ∧
        (readCheck Contract.Sample.evm Contract.Sample.referred op = some true ↔
          OnChain Contract.Sample.referred (registerTask "group")) := by
  obtain ⟨op, data, hop, -, hdata, hdecides⟩ := check_decides_content (validate_register "group")
  cases hdata.symm.trans (writeCalldata_registerTask "group")
  have hcalled := (hdecides Contract.Sample.domain _ Contract.Reachable.empty).2 0 _
    Contract.Sample.call_registerData
  have hlater := (hdecides Contract.Sample.domain _ Contract.Sample.reachable_referred).1
    (Contract.Sample.keccak256_injOn.mono (checkedStrings_registerTask "group"))
  exact ⟨op, hop, hcalled.1, hlater⟩

end P256Index.Registrar
