import P256Index.Legacy.Consistency
import P256Index.Contract.Sample

/-!
# Runs of the legacy index

Any sequence of `commit` and `createRecord` calls from a fresh deployment. A revert leaves the state
as it was. The invariant holds after every run, and each record leads back to the call that
committed its fields and the one that revealed them.
-/

namespace P256Index.Legacy

/-! ## Runs -/

inductive Call where
  | commit (commitment : Bytes32)
  | createRecord (args : CreateArgs)

/-- A call and the number and timestamp of its block. -/
structure Event where
  block : Nat
  now : Nat
  call : Call

section Steps

variable (keccak256 : Bytes → Bytes32)

def step (s : Index) (e : Event) : Index :=
  match e.call with
  | .commit commitment => s.commit e.block commitment
  | .createRecord a =>
      match createRecord keccak256 e.block e.now a s with
      | .ok s' => s'
      | .error _ => s

def run (events : List Event) : Index := events.foldl (step keccak256) .empty

end Steps

/-- The strings the creations of a run hash. -/
def hashedIn (events : List Event) : Set Bytes :=
  {b | ∃ e ∈ events, ∃ a, e.call = .createRecord a ∧ b ∈ a.hashed}

variable {keccak256 : Bytes → Bytes32} {s : Index} {e : Event} {events more : List Event}
  {key c : Bytes32}

theorem run_concat : run keccak256 (events ++ [e]) = step keccak256 (run keccak256 events) e := by
  rw [run, List.foldl_concat]
  rfl

theorem hashedIn_concat : hashedIn events ⊆ hashedIn (events ++ [e]) := by
  rintro b ⟨e', he', a, hcall, hb⟩
  exact ⟨e', List.mem_append_left _ he', a, hcall, hb⟩

/-- What one call can do. -/
theorem step_cases (s : Index) (e : Event) :
    (∃ commitment, e.call = .commit commitment ∧ step keccak256 s e = s.commit e.block commitment) ∨
      (∃ a, e.call = .createRecord a ∧ Accepted keccak256 e.block a s ∧
        step keccak256 s e = written keccak256 e.now a s) ∨
      step keccak256 s e = s := by
  cases hcall : e.call with
  | commit commitment =>
      refine .inl ⟨commitment, rfl, ?_⟩
      rw [step, hcall]
  | createRecord a =>
      cases hres : createRecord keccak256 e.block e.now a s with
      | error err =>
          refine .inr (.inr ?_)
          rw [step, hcall]
          simp only [hres]
      | ok s' =>
          obtain ⟨haccepted, rfl⟩ := createRecord_eq_ok hres
          refine .inr (.inl ⟨a, rfl, haccepted, ?_⟩)
          rw [step, hcall]
          simp only [hres]

theorem Consistent.step {H : Set Bytes} (hH : Collisionless keccak256 H)
    (hs : Consistent keccak256 H s) (he : hashedIn [e] ⊆ H) :
    Consistent keccak256 H (step keccak256 s e) := by
  rcases step_cases s e with ⟨commitment, -, heq⟩ | ⟨a, hcall, ha, heq⟩ | heq
  · rw [heq]
    exact hs.commit e.block commitment
  · rw [heq]
    apply hs.written hH ha
    intro b hb
    exact he ⟨e, List.mem_singleton_self _, a, hcall, hb⟩
  · rwa [heq]

theorem run_consistent {H : Set Bytes} (hH : Collisionless keccak256 H)
    (hrun : hashedIn events ⊆ H) : Consistent keccak256 H (run keccak256 events) := by
  induction events using List.reverseRecOn with
  | nil => exact consistent_empty
  | append_singleton events e ih =>
      rw [run_concat]
      apply (ih (hashedIn_concat.trans hrun)).step hH
      rintro b ⟨e', he', hb⟩
      exact hrun ⟨e', List.mem_append_right _ he', hb⟩

/-! ## Commitments -/

/-- A call touches the mark of one commitment: it sets a free one to its block, or takes a used one
back. -/
theorem commitBlock_step (s : Index) (e : Event) (c : Bytes32) :
    (step keccak256 s e).commitBlockPlusOne c = s.commitBlockPlusOne c ∨
      e.call = .commit c ∧ (step keccak256 s e).commitBlockPlusOne c = e.block + 1 ∨
      (step keccak256 s e).commitBlockPlusOne c = 0 := by
  rcases step_cases s e with ⟨commitment, hcall, heq⟩ | ⟨a, -, -, heq⟩ | heq
  · rw [heq, hcall, Index.commit]
    split
    · by_cases hc : c = commitment
      · subst hc
        exact .inr (.inl ⟨rfl, Function.update_self ..⟩)
      · exact .inl (Function.update_of_ne hc _ _)
    · exact .inl rfl
  · rw [heq]
    by_cases hc : c = a.commitment keccak256
    · subst hc
      exact .inr (.inr (Function.update_self ..))
    · exact .inl (Function.update_of_ne hc _ _)
  · rw [heq]
    exact .inl rfl

/-- The `i`-th call committed `c` in block `b`, and the commitment stands until the `n`-th call. -/
structure Standing (keccak256 : Bytes → Bytes32) (events : List Event) (c : Bytes32) (b i n : Nat) :
    Prop where
  lt : i < n
  committed : ∃ now, events[i]? = some ⟨b, now, .commit c⟩
  stands : ∀ m, i < m → m ≤ n → (run keccak256 (events.take m)).commitBlockPlusOne c = b + 1

theorem Standing.append {b i n : Nat} (h : Standing keccak256 events c b i n)
    (hn : n ≤ events.length) : Standing keccak256 (events ++ more) c b i n where
  lt := h.lt
  committed := by
    obtain ⟨now, hi⟩ := h.committed
    have hlt := h.lt
    exact ⟨now, by rw [List.getElem?_append_left (by omega), hi]⟩
  stands m him hmn := by
    rw [List.take_append_of_le_length (by omega)]
    exact h.stands m him hmn

/-- A mark that is set was set by a call, and has stood since. -/
theorem exists_standing {b : Nat} (h : (run keccak256 events).commitBlockPlusOne c = b + 1) :
    ∃ i, Standing keccak256 events c b i events.length := by
  induction events using List.reverseRecOn with
  | nil => cases h
  | append_singleton events e ih =>
      have hall : (events ++ [e]).take (events.length + 1) = events ++ [e] := by
        apply List.take_of_length_le
        simp
      have hnow := h
      rw [run_concat] at h
      rw [List.length_append, List.length_singleton]
      rcases commitBlock_step (run keccak256 events) e c with hsame | ⟨hcall, hset⟩ | hzero
      · obtain ⟨i, hi⟩ := ih (hsame ▸ h)
        have hlong : Standing keccak256 (events ++ [e]) c b i events.length := hi.append le_rfl
        refine ⟨i, Nat.lt_succ_of_lt hi.lt, hlong.committed, ?_⟩
        intro m him hm
        rcases Nat.lt_or_ge events.length m with hlast | hbefore
        · obtain rfl : m = events.length + 1 := by omega
          rw [hall, hnow]
        · exact hlong.stands m him hbefore
      · obtain rfl : b = e.block := by omega
        refine ⟨events.length, Nat.lt_succ_self _, ⟨e.now, ?_⟩, ?_⟩
        · rw [List.getElem?_concat_length, ← hcall]
        · intro m him hm
          obtain rfl : m = events.length + 1 := by omega
          rw [hall, hnow]
      · omega

/-! ## Creations -/

/-- The `j`-th call created the record `r` under its key, from exactly the fields that the `i`-th
call had committed at least `REVEAL_DELAY` blocks before, and used the commitment up. -/
structure Made (keccak256 : Bytes → Bytes32) (events : List Event) (key : Bytes32)
    (r : PublicKeyRecord) (i j : Nat) : Prop where
  revealed : ∃ b block, Standing keccak256 events (r.commitment keccak256) b i j ∧
    events[j]? = some ⟨block, r.createdAt, .createRecord r.toCreateArgs⟩ ∧ b < block ∧
      b + revealDelay ≤ block
  fresh : (run keccak256 (events.take j)).recordExists key = false
  stored : (run keccak256 (events.take (j + 1))).records key = r
  consumed : (run keccak256 (events.take (j + 1))).commitBlockPlusOne (r.commitment keccak256) = 0

theorem Made.append {r : PublicKeyRecord} {i j : Nat} (h : Made keccak256 events key r i j) :
    Made keccak256 (events ++ more) key r i j := by
  obtain ⟨⟨b, block, hstanding, hj, hlt, hdelay⟩, hfresh, hstored, hconsumed⟩ := h
  have hlen : j < events.length := (List.getElem?_eq_some_iff.mp hj).1
  have htake : (events ++ more).take (j + 1) = events.take (j + 1) :=
    List.take_append_of_le_length hlen
  refine ⟨⟨b, block, hstanding.append hlen.le, ?_, hlt, hdelay⟩, ?_, ?_, ?_⟩
  · rw [List.getElem?_append_left hlen, hj]
  · rwa [List.take_append_of_le_length hlen.le]
  · rwa [htake]
  · rwa [htake]

/-- The call that creates a record finds its commitment standing. -/
theorem made_of_accepted {a : CreateArgs} (hcall : e.call = .createRecord a)
    (ha : Accepted keccak256 e.block a (run keccak256 events))
    (heq : step keccak256 (run keccak256 events) e =
      written keccak256 e.now a (run keccak256 events)) :
    ∃ i, Made keccak256 (events ++ [e]) (recordKey keccak256 a.rpId a.credentialId)
      { a with createdAt := e.now } i events.length := by
  obtain ⟨b, hb⟩ := Nat.exists_eq_succ_of_ne_zero ha.committed
  obtain ⟨i, hi⟩ := exists_standing hb
  have hdelay := ha.revealed
  rw [hb, Nat.succ_sub_one] at hdelay
  have hall : (events ++ [e]).take (events.length + 1) = events ++ [e] := by
    apply List.take_of_length_le
    simp
  refine ⟨i, ⟨b, e.block, hi.append le_rfl, ?_, ?_, hdelay⟩, ?_, ?_, ?_⟩
  · rw [List.getElem?_concat_length, ← hcall]
  · unfold revealDelay at hdelay
    omega
  · rw [List.take_left]
    exact ha.fresh
  · rw [hall, run_concat, heq, records_written_self]
  · rw [hall, run_concat, heq]
    exact Function.update_self ..

/-- Every record was made by a call of the run. -/
theorem exists_made (h : (run keccak256 events).recordExists key = true) :
    ∃ i j, Made keccak256 events key ((run keccak256 events).records key) i j := by
  induction events using List.reverseRecOn with
  | nil => cases h
  | append_singleton events e ih =>
      rw [run_concat] at h ⊢
      -- A record that was there has its history already.
      have hold : (run keccak256 events).recordExists key = true →
          ∃ i j, Made keccak256 (events ++ [e]) key ((run keccak256 events).records key) i j := by
        intro hkey
        obtain ⟨i, j, hmade⟩ := ih hkey
        exact ⟨i, j, hmade.append⟩
      rcases step_cases (run keccak256 events) e with
        ⟨commitment, -, heq⟩ | ⟨a, hcall, ha, heq⟩ | heq
      · have hrecords : (step keccak256 (run keccak256 events) e).records =
            (run keccak256 events).records := by
          rw [heq, Index.commit]
          split <;> rfl
        rw [Index.recordExists, hrecords] at h
        rw [hrecords]
        exact hold h
      · rw [heq] at h
        rcases (recordExists_written ha e.now key).mp h with rfl | hkey
        · obtain ⟨i, hmade⟩ := made_of_accepted hcall ha heq
          rw [heq, records_written_self]
          exact ⟨i, events.length, hmade⟩
        · rw [heq, records_written_of_ne (ha.ne_of_exists hkey)]
          exact hold hkey
      · rw [heq] at h ⊢
        exact hold h

/-- Records made from one commitment are one record: the commitment fixes all seven fields. -/
theorem Made.key_eq {H : Set Bytes} {key' : Bytes32} {i j j' : Nat} (hH : Collisionless keccak256 H)
    (hs : Consistent keccak256 H s) (hkey : s.recordExists key = true)
    (hkey' : s.recordExists key' = true) (h : Made keccak256 events key (s.records key) i j)
    (h' : Made keccak256 events key' (s.records key') i j') :
    key = key' := by
  obtain ⟨b, block, ⟨-, ⟨now, hi⟩, -⟩, -⟩ := h.revealed
  obtain ⟨b', block', ⟨-, ⟨now', hi'⟩, -⟩, -⟩ := h'.revealed
  have hcommitment : (s.records key).commitment keccak256 =
      (s.records key').commitment keccak256 := by
    rw [hi] at hi'
    injection hi' with hevent
    injection hevent with _ _ hcall
    injection hcall
  have hencoding := hH.injOn (hs.hashed key hkey (CreateArgs.encoding_mem _))
    (hs.hashed key' hkey' (CreateArgs.encoding_mem _)) hcommitment
  have hargs := encoding_inj (hs.args key hkey) hencoding
  rw [hs.key_eq key hkey, hs.key_eq key' hkey', hargs]

/-! ## Soundness -/

theorem Consistent.bijOn_names {H : Set Bytes} (hs : Consistent keccak256 H s) :
    Set.BijOn (fun key => ((s.records key).rpId, (s.records key).credentialId))
      {key | s.recordExists key = true} {name | name.2 ∈ s.rpCredentials name.1} := by
  refine ⟨?_, ?_, ?_⟩
  · intro key hkey
    exact (hs.listed _ _).mpr ⟨key, hkey, rfl, rfl⟩
  · intro key hkey key' hkey' hname
    obtain ⟨hrp, hcred⟩ := Prod.mk.inj hname
    rw [hs.key_eq key hkey, hs.key_eq key' hkey', hrp, hcred]
  · rintro ⟨rpId, credentialId⟩ hmem
    obtain ⟨key, hkey, rfl, rfl⟩ := (hs.listed rpId credentialId).mp hmem
    exact ⟨key, hkey, rfl⟩

theorem Consistent.bijOn_walletRefs {H : Set Bytes} (hH : Collisionless keccak256 H)
    (hs : Consistent keccak256 H s) :
    Set.BijOn (fun key => (s.records key).walletRef) {key | s.recordExists key = true}
      {walletRef | walletRef ≠ zero32 ∧ s.recordKeyByWalletRef walletRef ≠ zero32} := by
  refine ⟨?_, ?_, ?_⟩
  · intro key hkey
    refine ⟨(hs.args key hkey).walletRef_ne, ?_⟩
    rw [hs.wallet_of key hkey]
    exact hs.key_ne_zero hH hkey
  · intro key hkey key' hkey' hwallet
    rw [← hs.wallet_of key hkey, ← hs.wallet_of key' hkey']
    exact congrArg s.recordKeyByWalletRef hwallet
  · rintro walletRef ⟨-, hindexed⟩
    obtain ⟨hkey, hback⟩ := hs.of_wallet walletRef hindexed
    exact ⟨_, hkey, hback⟩

theorem getRecordByWalletRef_eq_ok {walletRef : Bytes32} {r : PublicKeyRecord} :
    s.getRecordByWalletRef walletRef = .ok r ↔
      s.recordKeyByWalletRef walletRef ≠ zero32 ∧
        s.records (s.recordKeyByWalletRef walletRef) = r := by
  simp only [Index.getRecordByWalletRef, Except.bind_eq_ok, revertIf_eq_ok, exists_const,
    Except.pure_eq_ok]

theorem Consistent.lookup {H : Set Bytes} (hH : Collisionless keccak256 H)
    (hs : Consistent keccak256 H s) (walletRef : Bytes32) (r : PublicKeyRecord) :
    s.getRecordByWalletRef walletRef = .ok r ↔
      ∃ key, s.recordExists key = true ∧ s.records key = r ∧ r.walletRef = walletRef := by
  rw [getRecordByWalletRef_eq_ok]
  constructor
  · rintro ⟨hindexed, rfl⟩
    obtain ⟨hkey, hback⟩ := hs.of_wallet walletRef hindexed
    exact ⟨_, hkey, rfl, hback⟩
  · rintro ⟨key, hkey, rfl, rfl⟩
    rw [hs.wallet_of key hkey]
    exact ⟨hs.key_ne_zero hH hkey, rfl⟩

/-- What can be read off the state a run leaves. -/
structure Sound (keccak256 : Bytes → Bytes32) (events : List Event) (s : Index) : Prop where
  names : Set.BijOn (fun key => ((s.records key).rpId, (s.records key).credentialId))
    {key | s.recordExists key = true} {name | name.2 ∈ s.rpCredentials name.1}
  listed_once : ∀ rpId, (s.rpCredentials rpId).Nodup
  walletRefs : Set.BijOn (fun key => (s.records key).walletRef) {key | s.recordExists key = true}
    {walletRef | walletRef ≠ zero32 ∧ s.recordKeyByWalletRef walletRef ≠ zero32}
  lookup : ∀ walletRef r, s.getRecordByWalletRef walletRef = .ok r ↔
    ∃ key, s.recordExists key = true ∧ s.records key = r ∧ r.walletRef = walletRef
  rpIds_once : s.rpIds.Nodup
  mem_rpIds : ∀ rpId, rpId ∈ s.rpIds ↔ s.rpCredentials rpId ≠ []
  total : s.getTotalCredentials = (s.rpIds.map s.getTotalCredentialsByRpId).sum
  lineage : ∀ key, s.recordExists key = true →
    s.HasRoot (s.records key).rpId (s.records key).initialCredentialId
  /-- Each record has a commitment of its own, made and revealed by two calls of the run. -/
  made : ∃ commits creates : Bytes32 → Nat, Set.InjOn commits {key | s.recordExists key = true} ∧
    ∀ key, s.recordExists key = true →
      Made keccak256 events key (s.records key) (commits key) (creates key)

/-- After any run the tables are consistent and every record was committed before it was revealed.
-/
theorem legacyIndex_sound (events : List Event) (hH : Collisionless keccak256 (hashedIn events)) :
    Sound keccak256 events (run keccak256 events) := by
  have hs := run_consistent hH subset_rfl
  -- Pick the calls of each record; there is nothing to pick for a key without one.
  have hcalls : ∀ key, ∃ i j, (run keccak256 events).recordExists key = true →
      Made keccak256 events key ((run keccak256 events).records key) i j := by
    intro key
    by_cases hkey : (run keccak256 events).recordExists key = true
    · obtain ⟨i, j, hmade⟩ := exists_made hkey
      exact ⟨i, j, fun _ => hmade⟩
    · exact ⟨0, 0, fun h => absurd h hkey⟩
  choose commits creates hmade using hcalls
  exact
    { names := hs.bijOn_names
      listed_once := hs.listed_once
      walletRefs := hs.bijOn_walletRefs hH
      lookup := hs.lookup hH
      rpIds_once := hs.rpIds_once
      mem_rpIds := hs.mem_rpIds
      total := hs.total
      lineage := hs.lineage
      made := by
        refine ⟨commits, creates, ?_, hmade⟩
        intro key hkey key' hkey' heq
        have h := hmade key hkey
        rw [heq] at h
        exact h.key_eq hH hs hkey hkey' (hmade key' hkey') }

namespace Sample

open Contract.Sample (rpId groupKey memberKey digest recorded recorded_injOn)

/-- The first key of a line. -/
def rootArgs : CreateArgs where
  rpId := rpId
  credentialId := [1]
  walletRef := digest 1
  publicKey := groupKey
  name := []
  initialCredentialId := [1]
  metadata := []

/-- The key that replaces it. -/
def rotatedArgs : CreateArgs where
  rpId := rpId
  credentialId := [2]
  walletRef := digest 2
  publicKey := memberKey
  name := []
  initialCredentialId := [1]
  metadata := []

def keccakRows : List (Bytes × Nat) :=
  [(nameEncoding rpId [1], 0x6ed64439968e1ff481b1226522b3652cd856abbe435c3d0bc26d72fd393d22d2),
    (nameEncoding rpId [2], 0x2151963d7472b308490d13f0525c6b4efdc4d9e22f92f92e36ae3a46c3d11303),
    (rootArgs.encoding, 0x017c5eb93d90b1593d7f7d9669cda5711b874f2e228d4d7f7370b402e222d4e2),
    (rotatedArgs.encoding, 0x4ac824ef865eafd925ca8e4c308bed350027332020fe1865cb151189cea9a586),
    ([1], 0x5fe7f977e71dba2ea1a68e21057beebb9be2ac30c6410aa38d4f3fbe41dcffd2),
    ([2], 0xf2ee15ea639b73fa3db9b34a245bdfa015c260c598b211bf05a1ecc4b3e3b4f2)]

/-- Both keys are committed in one block and revealed in the next. -/
def rotation : List Event :=
  [⟨7, 84, .commit (rootArgs.commitment (recorded keccakRows))⟩,
    ⟨7, 84, .commit (rotatedArgs.commitment (recorded keccakRows))⟩,
    ⟨8, 96, .createRecord rootArgs⟩, ⟨8, 96, .createRecord rotatedArgs⟩]

theorem hashedIn_rotation : hashedIn rotation ⊆ {b | b ∈ keccakRows.map Prod.fst} := by
  rintro b ⟨e, he, a, hcall, hb⟩
  have ha : a = rootArgs ∨ a = rotatedArgs := by
    simp only [rotation, List.mem_cons, List.not_mem_nil, or_false] at he
    rcases he with rfl | rfl | rfl | rfl
    · cases hcall
    · cases hcall
    · injection hcall with h
      exact .inl h.symm
    · injection hcall with h
      exact .inr h.symm
  rcases ha with rfl | rfl
  · rcases hb with rfl | rfl | rfl | rfl | rfl <;> simp [keccakRows, rootArgs]
  · rcases hb with rfl | rfl | rfl | rfl | rfl <;> simp [keccakRows, rotatedArgs]

theorem collisionless : Collisionless (recorded keccakRows) (hashedIn rotation) where
  injOn := (recorded_injOn (by decide +kernel)).mono hashedIn_rotation
  ne_zero b hb := by
    have hrows : ∀ b ∈ keccakRows.map Prod.fst, recorded keccakRows b ≠ zero32 := by decide +kernel
    exact hrows b (hashedIn_rotation hb)

end Sample

open Contract.Sample (recorded) in
/-- A key and its replacement, both of one line. -/
theorem legacyIndex_sound_rotated :
    Collisionless (recorded Sample.keccakRows) (hashedIn Sample.rotation) ∧
      (run (recorded Sample.keccakRows) Sample.rotation).totalCredentials = 2 ∧
        Sound (recorded Sample.keccakRows) Sample.rotation
          (run (recorded Sample.keccakRows) Sample.rotation) :=
  ⟨Sample.collisionless, by decide +kernel, legacyIndex_sound _ Sample.collisionless⟩

end P256Index.Legacy
