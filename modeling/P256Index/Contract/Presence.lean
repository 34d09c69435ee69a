import P256Index.Contract.Audit
import P256Index.Contract.Views
import P256Index.Interaction.Program

/-!
# What a verified archive says about its target

`verify` calls every archived payload against the target without sending it, and takes the duplicate
error of its kind as the proof that the record is there. The error says which group key, or which
pair, is taken; it does not say by which content. `verify_present_iff` makes that exact: after a
verification that ended without an error a record is present exactly if no other content stands in
its place.
-/

namespace P256Index.Contract

/-! ## Error selectors -/

/-- The first four bytes of the revert data; calldata that is neither write reverts without any. -/
def Revert.selector : Revert → Option UInt32
  | .emptyRpId => some 0xd05c267f
  | .rpIdTooLong _ => some 0x48497d67
  | .invalidPublicKeyLength _ => some 0x2f56faba
  | .invalidPublicKeyPrefix _ => some 0x60c500c2
  | .invalidPublicKeyCoordinate => some 0x3f7ea1c0
  | .invalidPublicKeyPoint => some 0xde758357
  | .metadataTooLong _ => some 0x10940ba1
  | .invalidAttestation _ => some 0xd9cdeac6
  | .credentialIdTooLong _ => some 0x27c7f365
  | .credentialIdMismatch _ => some 0xe5db8b21
  | .authenticatorAttachmentTooLong _ => some 0x3b174fc5
  | .transportsTooLong _ => some 0x4ca3808b
  | .attestationMismatch _ => some 0x5a3675fb
  | .invalidMemberCount _ => some 0x75a6cbdd
  | .duplicateMemberKey _ => some 0x0367e203
  | .groupKeyAlreadyUsed _ => some 0x10eafb1a
  | .groupNotFound _ => some 0xdec308b4
  | .alreadyReferenced _ => some 0x40709c5d
  | .invalidProof => some 0x09bde339
  | .rpIdMismatch => some 0x51dafece
  | .panic => some 0x4e487b71
  | .noSelector => none

theorem selector_groupKeyAlreadyUsed {r : Revert} (h : r.selector = some 0x10eafb1a) :
    ∃ groupKeyHash, r = .groupKeyAlreadyUsed groupKeyHash := by
  cases r with
  | groupKeyAlreadyUsed groupKeyHash => exact ⟨groupKeyHash, rfl⟩
  | _ => exact absurd h (by simp [Revert.selector])

theorem selector_alreadyReferenced {r : Revert} (h : r.selector = some 0x40709c5d) :
    ∃ referenceId, r = .alreadyReferenced referenceId := by
  cases r with
  | alreadyReferenced referenceId => exact ⟨referenceId, rfl⟩
  | _ => exact absurd h (by simp [Revert.selector])

/-! ## Where the duplicate errors come from -/

variable {E : Evm} {d : Domain} {s : Registry} {now : Nat} {data : Bytes}

def Revert.isDuplicate : Revert → Bool
  | .groupKeyAlreadyUsed _ | .alreadyReferenced _ => true
  | _ => false

/-- An error that is not one of the two duplicate errors. -/
def Revert.Other (r : Revert) : Prop := r.isDuplicate = false

theorem validateRpId_fails (rpId : Bytes) : FailsWith Revert.Other (validateRpId rpId) := by
  refine FailsWith.bind (failsWith_revertIf fun _ => rfl) fun _ _ => ?_
  exact failsWith_revertIf fun _ => rfl

theorem validateMetadata_fails (metadata : Bytes) :
    FailsWith Revert.Other (validateMetadata metadata) :=
  failsWith_revertIf fun _ => rfl

theorem validatePublicKey_fails (publicKey : Bytes) :
    FailsWith Revert.Other (validatePublicKey publicKey) := by
  refine FailsWith.bind (failsWith_revertIf fun _ => rfl) fun _ _ => ?_
  refine FailsWith.bind (failsWith_revertIf fun _ => rfl) fun _ _ => ?_
  refine FailsWith.bind (failsWith_revertIf fun _ => rfl) fun _ _ => ?_
  refine FailsWith.bind (failsWith_revertIf fun _ => rfl) fun _ _ => ?_
  exact failsWith_ok

theorem validateAttestation_fails (attestation : Bytes) :
    FailsWith Revert.Other (validateAttestation attestation) := by
  unfold validateAttestation
  split
  · exact failsWith_ok
  · exact failsWith_revertIf fun _ => rfl

theorem checkSubstring_fails (bytes : Bytes) (offset : U256) (expected : Bytes) :
    FailsWith Revert.Other (checkSubstring bytes offset expected) := by
  refine FailsWith.bind (failsWith_revertIf fun _ => rfl) fun _ _ => ?_
  split
  · exact failsWith_ok
  · exact failsWith_ok

theorem verifyProof_fails (proof : Proof) (challenge : Bytes32) (rpId : Bytes) (key : Nat × Nat) :
    FailsWith Revert.Other (verifyProof E proof challenge rpId key) := by
  have hinvalid : ∀ {c : Prop} [Decidable c],
      FailsWith Revert.Other (revertIf c Revert.invalidProof) :=
    failsWith_revertIf fun _ => rfl
  refine FailsWith.bind hinvalid fun _ _ => ?_
  refine FailsWith.bind (failsWith_revertIf fun _ => rfl) fun _ _ => ?_
  refine FailsWith.bind hinvalid fun _ _ => ?_
  refine FailsWith.bind (checkSubstring_fails _ _ _) fun _ _ => ?_
  refine FailsWith.bind hinvalid fun _ _ => ?_
  refine FailsWith.bind (checkSubstring_fails _ _ _) fun _ _ => ?_
  exact FailsWith.bind hinvalid fun _ _ => hinvalid

theorem resolveEntry_fails (keyHash : Bytes32) (m : Member) :
    FailsWith Revert.Other (resolveEntry E now keyHash m s) := by
  unfold resolveEntry
  dsimp only
  split
  · split
    · exact failsWith_error rfl
    · refine FailsWith.bind (failsWith_revertIf fun _ => rfl) fun _ _ => ?_
      refine FailsWith.bind (failsWith_revertIf fun _ => rfl) fun _ _ => ?_
      exact failsWith_ok
  · refine FailsWith.bind (validateAttestation_fails _) fun _ _ => ?_
    refine FailsWith.bind (failsWith_revertIf fun _ => rfl) fun _ _ => ?_
    refine FailsWith.bind (failsWith_revertIf fun _ => rfl) fun _ _ => ?_
    refine FailsWith.bind (failsWith_revertIf fun _ => rfl) fun _ _ => ?_
    exact failsWith_ok

theorem distinctKeyHashes_fails (groupKeyHash : Bytes32) (keyHashes : List Bytes32)
    (ms : List Member) :
    FailsWith Revert.Other (distinctKeyHashes E groupKeyHash keyHashes ms) := by
  induction ms generalizing keyHashes with
  | nil => exact failsWith_ok
  | cons m ms ih =>
      refine FailsWith.bind (failsWith_revertIf fun _ => rfl) fun _ _ => ?_
      refine FailsWith.bind (failsWith_revertIf fun _ => rfl) fun _ _ => ?_
      exact ih _

theorem admitMembers_fails (unitId : Nat) (rpId groupPublicKey : Bytes)
    (ms : List (Bytes32 × Member)) :
    FailsWith Revert.Other (admitMembers E d now unitId rpId groupPublicKey ms s) := by
  induction ms generalizing s with
  | nil => exact failsWith_ok
  | cons m ms ih =>
      refine FailsWith.bind ?_ fun _ _ => ih
      refine FailsWith.bind (validatePublicKey_fails _) fun _ _ => ?_
      refine FailsWith.bind (resolveEntry_fails _ _) fun _ _ => ?_
      exact FailsWith.bind (verifyProof_fails _ _ _ _) fun _ _ => failsWith_ok

/-- The errors of a register: the group key's own, where it is taken, and others. -/
theorem register_fails (a : RegisterArgs) : FailsWith
    (fun r => r.Other ∨ (s.unitIdPlusOneByGroupKey (E.keccak256 a.groupPublicKey) ≠ 0 ∧
      r = .groupKeyAlreadyUsed (E.keccak256 a.groupPublicKey))) (register E d now data a s) := by
  have hother : ∀ {α : Type} {x : Except Revert α}, FailsWith Revert.Other x → FailsWith
      (fun r => r.Other ∨ (s.unitIdPlusOneByGroupKey (E.keccak256 a.groupPublicKey) ≠ 0 ∧
        r = .groupKeyAlreadyUsed (E.keccak256 a.groupPublicKey))) x := fun h e he => .inl (h e he)
  refine FailsWith.bind (hother (validateRpId_fails _)) fun _ _ => ?_
  refine FailsWith.bind (hother (validateMetadata_fails _)) fun _ _ => ?_
  refine FailsWith.bind (hother (failsWith_revertIf fun _ => rfl)) fun _ _ => ?_
  refine FailsWith.bind (failsWith_revertIf fun htaken => .inr ⟨htaken, rfl⟩) fun _ _ => hother ?_
  refine FailsWith.bind ?_ fun _ _ => ?_
  · exact FailsWith.bind (validatePublicKey_fails _) fun _ _ => verifyProof_fails _ _ _ _
  refine FailsWith.bind (distinctKeyHashes_fails _ _ _) fun _ _ => ?_
  exact FailsWith.bind (admitMembers_fails _ _ _ _) fun _ _ => failsWith_ok

/-- The pair of a refer is linked already. -/
def PairTaken (E : Evm) (s : Registry) (a : ReferArgs) : Prop :=
  ∃ unitId, s.unitIdPlusOneByGroupKey (E.keccak256 a.groupPublicKey) = unitId + 1 ∧
    s.referenceIdPlusOneByLink unitId (s.resolvedId E a.member) ≠ 0

/-- The errors of a refer: the pair's own, where it is linked, and others. -/
theorem refer_fails (a : ReferArgs) : FailsWith (fun r => r.Other ∨ (PairTaken E s a ∧
    ∃ referenceId, r = .alreadyReferenced referenceId)) (refer E d now data a s) := by
  have hother : ∀ {α : Type} {x : Except Revert α}, FailsWith Revert.Other x →
      FailsWith (fun r => r.Other ∨
        (PairTaken E s a ∧ ∃ referenceId, r = .alreadyReferenced referenceId)) x :=
    fun h e he => .inl (h e he)
  refine FailsWith.bind (hother (validateMetadata_fails _)) fun _ _ => ?_
  refine FailsWith.bind (hother (failsWith_revertIf fun _ => rfl)) fun _ hfound => ?_
  rw [revertIf_eq_ok] at hfound
  dsimp only
  split
  · exact hother (failsWith_error rfl)
  refine FailsWith.bind (hother (failsWith_revertIf fun _ => rfl)) fun _ _ => ?_
  refine FailsWith.bind (hother (validatePublicKey_fails _)) fun _ _ => ?_
  refine FailsWith.bind (hother (resolveEntry_fails _ _)) fun resolved hresolved => ?_
  obtain ⟨entryId, s'⟩ := resolved
  obtain ⟨-, rfl, rfl⟩ := resolveEntry_eq_ok.mp hresolved
  refine FailsWith.bind (failsWith_revertIf fun hlinked => .inr ⟨?_, _, rfl⟩) fun _ _ => hother ?_
  · rw [Registry.resolved_referenceIdPlusOneByLink] at hlinked
    exact ⟨_, (Nat.succ_pred_eq_of_ne_zero hfound).symm, hlinked⟩
  · exact FailsWith.bind (verifyProof_fails _ _ _ _) fun _ _ => failsWith_ok

theorem groupKeyAlreadyUsed_taken {groupKeyHash : Bytes32}
    (h : call E d now data s = .error (.groupKeyAlreadyUsed groupKeyHash)) :
    ∃ a, E.decode data = some (.register a) ∧
      s.unitIdPlusOneByGroupKey (E.keccak256 a.groupPublicKey) ≠ 0 := by
  unfold call at h
  split at h
  · next a hdec =>
      rcases register_fails a _ h with hother | ⟨htaken, -⟩
      · cases hother
      · exact ⟨a, hdec, htaken⟩
  · next a hdec =>
      rcases refer_fails a _ h with hother | ⟨-, referenceId, hreferenced⟩
      · cases hother
      · cases hreferenced
  · cases h

theorem alreadyReferenced_taken {referenceId : Nat}
    (h : call E d now data s = .error (.alreadyReferenced referenceId)) :
    ∃ a, E.decode data = some (.refer a) ∧ PairTaken E s a := by
  unfold call at h
  split at h
  · next a hdec =>
      rcases register_fails a _ h with hother | ⟨-, hused⟩
      · cases hother
      · cases hused
  · next a hdec =>
      rcases refer_fails a _ h with hother | ⟨htaken, -⟩
      · cases hother
      · exact ⟨a, hdec, htaken⟩
  · cases h

/-! ## The verify command -/

namespace Verify

inductive Kind where
  | register
  | refer
  deriving DecidableEq

/-- The selector of the error that means the record is there. -/
def Kind.duplicate : Kind → UInt32
  | .register => 0x10eafb1a
  | .refer => 0x40709c5d

/-- An archived write. -/
structure Row where
  txHash : String
  kind : Kind
  input : Bytes
  deriving DecidableEq

inductive CallOutcome where
  | ok
  | reverted (errorSelector : Option UInt32)
  deriving DecidableEq

inductive Total where
  | entries
  | units
  | references
  deriving DecidableEq

/-- The requests to the node. -/
inductive Operation where
  | ethCall (input : Bytes)
  | total (label : Total)
  deriving DecidableEq

/-- A request without an answer is a transport failure; the totals are only printed. -/
abbrev Answer : Operation → Type
  | .ethCall _ => Option CallOutcome
  | .total _ => Option Unit

structure Tally where
  ok : Nat
  missing : List String
  anomalies : List String
  deriving DecidableEq

inductive Failure where
  | transport
  | incomplete (missing anomalies : List String)
  deriving DecidableEq

abbrev VerifyFlow := Flow Operation Answer Failure

abbrev ask (op : Operation) : VerifyFlow (Answer op) := Flow.request op

/-- One archived payload against the target. -/
def judge (row : Row) (outcome : CallOutcome) (tally : Tally) : Tally :=
  match outcome with
  | .ok => { tally with missing := tally.missing ++ [row.txHash] }
  | .reverted found =>
      if found = some row.kind.duplicate then { tally with ok := tally.ok + 1 }
      else { tally with anomalies := tally.anomalies ++ [row.txHash] }

def verifyRows : List Row → Tally → VerifyFlow Tally
  | [], tally => pure tally
  | row :: rows, tally => do
      match ← ask (.ethCall row.input) with
      | some outcome => verifyRows rows (judge row outcome tally)
      | none => throw .transport

def printTotals : List Total → VerifyFlow Unit
  | [] => pure ()
  | label :: rest => do
      match ← ask (.total label) with
      | some _ => printTotals rest
      | none => throw .transport

def verify (rows : List Row) : VerifyFlow Tally := do
  let tally ← verifyRows rows ⟨0, [], []⟩
  printTotals [.entries, .units, .references]
  if tally.missing ≠ [] ∨ tally.anomalies ≠ []
    then throw (.incomplete tally.missing tally.anomalies)
  pure tally

/-! ## Runs that end without an error -/

abbrev Trace := List (Sigma Answer)

/-- The node reported the duplicate error of the row's kind. -/
def Confirmed (tr : Trace) (row : Row) : Prop :=
  ⟨.ethCall row.input, some (.reverted (some row.kind.duplicate))⟩ ∈ tr

/-- A row that is not confirmed is on one of the two lists, and stays there. -/
theorem verifyRows_ensures (rows : List Row) (tally : Tally) :
    Flow.Ensures (verifyRows rows tally) fun tr r => ∀ final, r = .ok final →
      final.missing = [] → final.anomalies = [] →
        tally.missing = [] ∧ tally.anomalies = [] ∧ ∀ row ∈ rows, Confirmed tr row := by
  induction rows generalizing tally with
  | nil =>
      refine Flow.ensures_pure.mpr ?_
      rintro final hfinal hmissing hanomalies
      cases hfinal
      exact ⟨hmissing, hanomalies, by simp⟩
  | cons row rows ih =>
      refine Flow.ensures_request_bind.mpr fun answer => ?_
      cases answer with
      | none => exact Flow.ensures_throw.mpr fun final hfinal => by cases hfinal
      | some outcome =>
          refine (ih (judge row outcome tally)).mono ?_
          intro tr r h final hfinal hmissing hanomalies
          obtain ⟨hmissing', hanomalies', hrows⟩ := h final hfinal hmissing hanomalies
          have hlater : ∀ other ∈ rows,
              Confirmed (⟨.ethCall row.input, some outcome⟩ :: tr) other :=
            fun other hother => List.mem_cons_of_mem _ (hrows other hother)
          cases outcome with
          | ok => simp [judge] at hmissing'
          | reverted found =>
              by_cases hfound : found = some row.kind.duplicate
              · simp only [judge, if_pos hfound] at hmissing' hanomalies'
                subst hfound
                exact ⟨hmissing', hanomalies',
                  List.forall_mem_cons.mpr ⟨List.mem_cons_self, hlater⟩⟩
              · simp [judge, hfound] at hanomalies'

theorem confirmed_of_verify {rows : List Row} {tr : Trace} {tally : Tally}
    (h : (verify rows).Runs tr (.ok tally)) : ∀ row ∈ rows, Confirmed tr row := by
  have hensures : Flow.Ensures (verify rows) fun tr r => ∀ final, r = .ok final →
      ∀ row ∈ rows, Confirmed tr row := by
    refine Flow.Ensures.bind (verifyRows_ensures rows _) (fun _ _ _ _ h => by cases h) ?_
    intro tr tally hrows
    have htotals : Flow.Ensures (printTotals [.entries, .units, .references]) fun _ _ => True :=
      fun _ _ _ => trivial
    refine Flow.Ensures.bind htotals (fun _ _ _ _ h => by cases h) fun tr' _ _ => ?_
    dsimp only
    split
    · have hexit :
          Flow.Ensures (throw (.incomplete tally.missing tally.anomalies) : VerifyFlow Unit)
          fun _ r => r = .error (.incomplete tally.missing tally.anomalies) :=
            Flow.ensures_throw.mpr rfl
      refine Flow.Ensures.bind hexit (fun _ _ _ _ h => by cases h) ?_
      intro _ _ h
      cases h
    next hclean =>
      obtain ⟨hmissing, hanomalies⟩ : tally.missing = [] ∧ tally.anomalies = [] := by
        simpa [not_or] using hclean
      refine Flow.ensures_pure.mpr fun final _ row hrow => ?_
      exact List.mem_append_left _ ((hrows tally rfl hmissing hanomalies).2.2 row hrow)
  exact hensures tr _ h tally rfl

/-- The node answers what the call does at the target, at some block time. -/
def outcomeOf : Except Revert Registry → CallOutcome
  | .ok _ => .ok
  | .error r => .reverted r.selector

def Truthful (E : Evm) (d : Domain) (target : Registry) (tr : Trace) : Prop :=
  ∀ input outcome, ⟨.ethCall input, some outcome⟩ ∈ tr →
    ∃ now, outcome = outcomeOf (call E d now input target)

/-! ## Presence -/

/-- The reference is from this member key to this group key. -/
def Refers (s : Registry) (r : Reference) (memberPublicKey groupPublicKey : Bytes) : Prop :=
  (∃ entry, s.entries[r.entryId]? = some entry ∧ entry.publicKey = memberPublicKey) ∧
    ∃ unit, s.units[r.unitId]? = some unit ∧ unit.groupPublicKey = groupPublicKey

/-- The registry holds the record of the call. -/
def Present (E : Evm) (s : Registry) : Call → Prop
  | .register a => ∃ unit ∈ s.units,
      unit.contentHash = contentHashFor E a.rpId a.metadata a.groupPublicKey a.members
  | .refer a => ∃ r ∈ s.references, Refers s r a.member.publicKey a.groupPublicKey ∧
      r.metadata = a.metadata

/-- No other content stands in its place. -/
def Uncontested (E : Evm) (s : Registry) : Call → Prop
  | .register a => ∀ unit ∈ s.units, unit.groupPublicKey = a.groupPublicKey →
      unit.contentHash = contentHashFor E a.rpId a.metadata a.groupPublicKey a.members
  | .refer a => ∀ r ∈ s.references, Refers s r a.member.publicKey a.groupPublicKey →
      r.metadata = a.metadata

/-- The call's group key is that of a unit, or its pair that of a reference. -/
def Placed (s : Registry) : Call → Prop
  | .register a => ∃ unit ∈ s.units, unit.groupPublicKey = a.groupPublicKey
  | .refer a => ∃ r ∈ s.references, Refers s r a.member.publicKey a.groupPublicKey

/-- The strings behind the hashes of an archived call. -/
def hashedBy (E : Evm) : Call → Set Bytes
  | .register a => {a.groupPublicKey, contentPreimage a.rpId a.metadata a.groupPublicKey
      (a.members.map fun m => memberHash E m.publicKey m.attestation)}
  | .refer a => {a.groupPublicKey, a.member.publicKey}

/-- What is behind the hashes of the target and of the archive. -/
def hashed (E : Evm) (target : Registry) (rows : List Row) : Set Bytes :=
  target.hashed E ∪ {b | ∃ row ∈ rows, ∃ c, E.decode row.input = some c ∧ b ∈ hashedBy E c}

/-- The group key of a unit is behind a hash of the state. -/
theorem unit_group_hashed {i : Nat} {unit : GroupUnit} (h : Reachable E d s)
    (hunit : s.units[i]? = some unit) : unit.groupPublicKey ∈ s.hashed E := by
  obtain ⟨a, now, ha⟩ := h.recorded.units i (List.getElem?_eq_some_iff.mp hunit).1
  cases hunit.symm.trans ha.row
  exact ha.hashed_group

section Place

variable {S : Set Bytes} (h : Reachable E d s) (hS : Set.InjOn E.keccak256 S)
  (hsub : s.hashed E ⊆ S)

include h hS hsub

/-- A taken group key is that of a unit. -/
theorem exists_unit {groupPublicKey : Bytes} (hkey : groupPublicKey ∈ S) {i : Nat}
    (hi : s.unitIdPlusOneByGroupKey (E.keccak256 groupPublicKey) = i + 1) :
    ∃ unit, s.units[i]? = some unit ∧ unit.groupPublicKey = groupPublicKey := by
  obtain ⟨unit, hunit, hhash⟩ := (h.consistent.groups _ _).mp hi
  exact ⟨unit, hunit, hS (hsub (unit_group_hashed h hunit)) hkey hhash⟩

theorem placed_register {a : RegisterArgs} (hkey : a.groupPublicKey ∈ S)
    (htaken : s.unitIdPlusOneByGroupKey (E.keccak256 a.groupPublicKey) ≠ 0) :
    Placed s (.register a) := by
  obtain ⟨i, hi⟩ := Nat.exists_eq_succ_of_ne_zero htaken
  obtain ⟨unit, hunit, hgroup⟩ := exists_unit h hS hsub hkey hi
  exact ⟨unit, List.mem_of_getElem? hunit, hgroup⟩

/-- A taken pair is that of a reference. -/
theorem placed_refer {a : ReferArgs} (hgroup : a.groupPublicKey ∈ S)
    (hmember : a.member.publicKey ∈ S) (htaken : PairTaken E s a) : Placed s (.refer a) := by
  obtain ⟨unitId, hunitId, hlink⟩ := htaken
  -- a key without a file has no link, so the pair is one the read knows
  have hread : s.isReferenced E a.groupPublicKey a.member.publicKey = true := by
    rw [← Bool.not_eq_false]
    exact fun hread => hlink (h.consistent.link_eq_zero hunitId hread)
  obtain ⟨unitId', entryId, hunitId', hentryId, hlinked⟩ := isReferenced_iff.mp hread
  obtain ⟨i, hi⟩ := Nat.exists_eq_succ_of_ne_zero hlinked
  obtain ⟨r, hr, hpair⟩ := (h.consistent.links (unitId', entryId) i).mp hi
  obtain ⟨rfl, rfl⟩ : r.unitId = unitId' ∧ r.entryId = entryId := by simpa using hpair
  obtain ⟨unit, hunit, hkey⟩ := exists_unit h hS hsub hgroup hunitId'
  obtain ⟨entry, hentry, hhash⟩ := (h.consistent.keys _ _).mp hentryId
  have hentryKey : entry.publicKey = a.member.publicKey :=
    hS (hsub (Registry.hashed_entry (List.mem_of_getElem? hentry)).1) hmember hhash
  exact ⟨r, List.mem_of_getElem? hr, ⟨entry, hentry, hentryKey⟩, unit, hunit, hkey⟩

/-- The content hash of a unit covers its group key. -/
theorem group_of_contentHash {a : RegisterArgs} {unit : GroupUnit} {i : Nat}
    (hcontent : contentPreimage a.rpId a.metadata a.groupPublicKey
      (a.members.map fun m => memberHash E m.publicKey m.attestation) ∈ S)
    (hunit : s.units[i]? = some unit)
    (hhash : unit.contentHash = contentHashFor E a.rpId a.metadata a.groupPublicKey a.members) :
    unit.groupPublicKey = a.groupPublicKey := by
  obtain ⟨a', now, ha'⟩ := h.recorded.units i (List.getElem?_eq_some_iff.mp hunit).1
  cases hunit.symm.trans ha'.row
  have hpre := hS (hsub ha'.hashed_content) hcontent
    (by rw [← contentHashFor_eq, ← contentHashFor_eq]; exact hhash)
  obtain ⟨hrpId, hmetadata, hgroup, -, hcount, -⟩ := E.decode_fits ha'.payload
  exact (contentPreimage_injective hrpId hmetadata hgroup (by rwa [List.length_map]) hpre).2.2.1

end Place

/-- Units are told apart by their group keys. -/
theorem unit_unique {unit unit' : GroupUnit} (h : Reachable E d s) (hunit : unit ∈ s.units)
    (hunit' : unit' ∈ s.units) (hkey : unit.groupPublicKey = unit'.groupPublicKey) :
    unit = unit' := by
  obtain ⟨i, hi⟩ := List.mem_iff_getElem?.mp hunit
  obtain ⟨j, hj⟩ := List.mem_iff_getElem?.mp hunit'
  obtain rfl := h.consistent.groups.unique hi hj (congrArg E.keccak256 hkey)
  exact Option.some.inj (hi.symm.trans hj)

/-- References are told apart by their pairs of keys. -/
theorem reference_unique {r r' : Reference} {memberPublicKey groupPublicKey : Bytes}
    (h : Reachable E d s) (hr : r ∈ s.references) (hr' : r' ∈ s.references)
    (hrefers : Refers s r memberPublicKey groupPublicKey)
    (hrefers' : Refers s r' memberPublicKey groupPublicKey) : r = r' := by
  obtain ⟨⟨entry, hentry, hmember⟩, unit, hunit, hgroup⟩ := hrefers
  obtain ⟨⟨entry', hentry', hmember'⟩, unit', hunit', hgroup'⟩ := hrefers'
  have hentryId : r.entryId = r'.entryId := h.consistent.keys.unique hentry hentry'
    (congrArg E.keccak256 (hmember.trans hmember'.symm))
  have hunitId : r.unitId = r'.unitId := h.consistent.groups.unique hunit hunit'
    (congrArg E.keccak256 (hgroup.trans hgroup'.symm))
  obtain ⟨i, hi⟩ := List.mem_iff_getElem?.mp hr
  obtain ⟨j, hj⟩ := List.mem_iff_getElem?.mp hr'
  obtain rfl := h.consistent.links.unique hi hj (by rw [hentryId, hunitId])
  exact Option.some.inj (hi.symm.trans hj)

/-- What is placed is present exactly if its place is not contested. -/
theorem present_iff {S : Set Bytes} {c : Call} (h : Reachable E d s) (hS : Set.InjOn E.keccak256 S)
    (hsub : s.hashed E ⊆ S) (hc : hashedBy E c ⊆ S) (hplaced : Placed s c) :
    Present E s c ↔ Uncontested E s c := by
  cases c with
  | register a =>
      constructor
      · rintro ⟨unit, hunit, hhash⟩ other hother hgroup
        obtain ⟨i, hi⟩ := List.mem_iff_getElem?.mp hunit
        have hkey := group_of_contentHash h hS hsub (hc (.inr rfl)) hi hhash
        rw [unit_unique h hother hunit (hgroup.trans hkey.symm)]
        exact hhash
      · intro huncontested
        obtain ⟨unit, hunit, hgroup⟩ := hplaced
        exact ⟨unit, hunit, huncontested unit hunit hgroup⟩
  | refer a =>
      constructor
      · rintro ⟨r, hr, hrefers, hmetadata⟩ other hother hrefers'
        rw [reference_unique h hother hr hrefers' hrefers]
        exact hmetadata
      · intro huncontested
        obtain ⟨r, hr, hrefers⟩ := hplaced
        exact ⟨r, hr, hrefers, huncontested r hr hrefers⟩

/-- The call an archived row carries. -/
def Row.Carries (E : Evm) (row : Row) : Call → Prop
  | .register a => row.kind = .register ∧ E.decode row.input = some (.register a)
  | .refer a => row.kind = .refer ∧ E.decode row.input = some (.refer a)

theorem Row.Carries.decode {row : Row} {c : Call} (h : row.Carries E c) :
    E.decode row.input = some c := by
  cases c with
  | register a => exact h.2
  | refer a => exact h.2

/-- A confirmed row carries a call of its kind that has its place in the target. -/
theorem placed_of_confirmed {S : Set Bytes} {row : Row} {tr : Trace} (h : Reachable E d s)
    (hS : Set.InjOn E.keccak256 S) (hsub : s.hashed E ⊆ S)
    (hrow : ∀ c, E.decode row.input = some c → hashedBy E c ⊆ S) (htruth : Truthful E d s tr)
    (hconfirmed : Confirmed tr row) : ∃ c, row.Carries E c ∧ Placed s c := by
  obtain ⟨now, houtcome⟩ := htruth _ _ hconfirmed
  cases hcall : call E d now row.input s with
  | ok s' =>
      rw [hcall] at houtcome
      cases houtcome
  | error r =>
      rw [hcall] at houtcome
      have hselector : r.selector = some row.kind.duplicate := by
        simpa [outcomeOf] using houtcome.symm
      cases hkind : row.kind with
      | register =>
          rw [hkind] at hselector
          obtain ⟨groupKeyHash, rfl⟩ := selector_groupKeyAlreadyUsed hselector
          obtain ⟨a, hdec, htaken⟩ := groupKeyAlreadyUsed_taken hcall
          exact ⟨.register a, ⟨hkind, hdec⟩,
            placed_register h hS hsub (hrow _ hdec (.inl rfl)) htaken⟩
      | refer =>
          rw [hkind] at hselector
          obtain ⟨referenceId, rfl⟩ := selector_alreadyReferenced hselector
          obtain ⟨a, hdec, htaken⟩ := alreadyReferenced_taken hcall
          exact ⟨.refer a, ⟨hkind, hdec⟩,
            placed_refer h hS hsub (hrow _ hdec (.inl rfl)) (hrow _ hdec (.inr rfl)) htaken⟩

/-- A verification of these rows that goes through. -/
def passingTrace (rows : List Row) : Trace :=
  rows.map (fun row => ⟨.ethCall row.input, some (.reverted (some row.kind.duplicate))⟩) ++
    [⟨.total .entries, some ()⟩, ⟨.total .units, some ()⟩, ⟨.total .references, some ()⟩]

theorem verifyRows_passes (rows : List Row) (tally : Tally) :
    (verifyRows rows tally).Runs
      (rows.map fun row => ⟨.ethCall row.input, some (.reverted (some row.kind.duplicate))⟩)
      (.ok { tally with ok := tally.ok + rows.length }) := by
  induction rows generalizing tally with
  | nil => exact Flow.runs_pure.mpr ⟨rfl, rfl⟩
  | cons row rows ih =>
      refine Flow.runs_request_bind.mpr ⟨some (.reverted (some row.kind.duplicate)), _, rfl, ?_⟩
      have hjudge : judge row (.reverted (some row.kind.duplicate)) tally =
          { tally with ok := tally.ok + 1 } := if_pos rfl
      have hlength : tally.ok + 1 + rows.length = tally.ok + (row :: rows).length := by
        rw [List.length_cons]
        omega
      dsimp only
      rw [hjudge, ← hlength]
      exact ih _

theorem verify_passes (rows : List Row) :
    (verify rows).Runs (passingTrace rows) (.ok ⟨0 + rows.length, [], []⟩) := by
  refine Flow.runs_bind.mpr (.inr ⟨_, _, _, rfl, verifyRows_passes rows ⟨0, [], []⟩, ?_⟩)
  refine Flow.runs_bind.mpr (.inr ⟨_, [], (), (List.append_nil _).symm, ?_, ?_⟩)
  · refine Flow.runs_request_bind.mpr ⟨some (), _, rfl, ?_⟩
    refine Flow.runs_request_bind.mpr ⟨some (), _, rfl, ?_⟩
    exact Flow.runs_request_bind.mpr ⟨some (), [], rfl, Flow.runs_pure.mpr ⟨rfl, rfl⟩⟩
  · dsimp only
    rw [if_neg (by simp)]
    exact Flow.runs_pure.mpr ⟨rfl, rfl⟩

theorem truthful_passingTrace {rows : List Row} (h : ∀ row ∈ rows,
    outcomeOf (call E d 0 row.input s) = .reverted (some row.kind.duplicate)) :
    Truthful E d s (passingTrace rows) := by
  intro input outcome hmem
  simp only [passingTrace, List.mem_append, List.mem_map, Sigma.mk.injEq, List.mem_cons,
    List.not_mem_nil, or_false, reduceCtorEq, false_and] at hmem
  obtain ⟨row, hrow, hinput, houtcome⟩ := hmem
  cases hinput
  cases houtcome
  exact ⟨0, (h row hrow).symm⟩

/-- After a verification that ended without an error every row carries a call of its kind, and the
target holds its record exactly if no other content stands in its place. -/
theorem verify_present_iff {target : Registry} (h : Reachable E d target) (rows : List Row)
    (hS : Set.InjOn E.keccak256 (hashed E target rows)) (tr : Trace) (tally : Tally)
    (hrun : (verify rows).Runs tr (.ok tally)) (htruth : Truthful E d target tr) :
    ∀ row ∈ rows, ∃ c, row.Carries E c ∧ (Present E target c ↔ Uncontested E target c) := by
  intro row hrow
  have hstrings : ∀ c, E.decode row.input = some c → hashedBy E c ⊆ hashed E target rows :=
    fun c hdec b hb => .inr ⟨row, hrow, c, hdec, hb⟩
  obtain ⟨c, hcarries, hplaced⟩ := placed_of_confirmed h hS Set.subset_union_left hstrings htruth
    (confirmed_of_verify hrun row hrow)
  exact ⟨c, hcarries, present_iff h hS Set.subset_union_left (hstrings c hcarries.decode) hplaced⟩

open Sample (evm domain registerArgs referArgs registerData referData)

/-- The archive of the recorded history. -/
def archive : List Row := [⟨"0x01", .register, registerData⟩, ⟨"0x02", .refer, referData⟩]

theorem hashedBy_archive {row : Row} {c : Call} (hrow : row ∈ archive)
    (hdec : evm.decode row.input = some c) : hashedBy evm c ⊆ Sample.hashedStrings := by
  intro b hb
  rcases List.mem_pair.mp hrow with rfl | rfl
  · cases hdec.symm.trans Sample.decode_registerData
    rcases hb with rfl | rfl <;> decide +kernel
  · cases hdec.symm.trans Sample.decode_referData
    rcases hb with rfl | rfl <;> decide +kernel

/-- A target that answers both calls with their duplicate errors lets the verification pass. -/
theorem truthful_archive {target : Registry}
    (hregister : outcomeOf (register evm domain 0 registerData registerArgs target) =
      .reverted (some 0x10eafb1a))
    (hrefer : outcomeOf (refer evm domain 0 referData referArgs target) =
      .reverted (some 0x40709c5d)) :
    Truthful evm domain target (passingTrace archive) := by
  refine truthful_passingTrace (List.forall_mem_cons.mpr ⟨?_, List.forall_mem_singleton.mpr ?_⟩)
  · show outcomeOf (call evm domain 0 registerData target) = _
    rw [call, Sample.decode_registerData]
    exact hregister
  · show outcomeOf (call evm domain 0 referData target) = _
    rw [call, Sample.decode_referData]
    exact hrefer

/-- The recorded history against its own archive. -/
theorem verify_present_iff_recorded :
    let rows : List Row := [⟨"0x01", .register, registerData⟩, ⟨"0x02", .refer, referData⟩]
    (verify rows).Runs (passingTrace rows) (.ok ⟨2, [], []⟩) ∧
      Truthful Sample.evm domain Sample.referred (passingTrace rows) ∧
        ∃ c, Row.Carries Sample.evm ⟨"0x02", .refer, referData⟩ c ∧
          (Present Sample.evm Sample.referred c ↔ Uncontested Sample.evm Sample.referred c) := by
  intro rows
  have htruth : Truthful evm domain Sample.referred (passingTrace archive) :=
    truthful_archive (by decide +kernel) (by decide +kernel)
  have hstrings : hashed evm Sample.referred archive ⊆ Sample.hashedStrings := by
    rintro b (hb | ⟨row, hrow, c, hdec, hb⟩)
    · exact hashed_referred hb
    · exact hashedBy_archive hrow hdec hb
  refine ⟨verify_passes rows, htruth, ?_⟩
  exact verify_present_iff Sample.reachable_referred rows (Sample.keccak256_injOn.mono hstrings) _ _
    (verify_passes rows) htruth _ (by simp [rows])

/-! ## A second use of the same keys

The group key signs a second group with other metadata, and the device a second reference with other
metadata: both real signatures, as in the recorded history. A target that took these keeps the
archived calls out, with the duplicate errors. -/

namespace Contested

open Sample
  (member groupKey memberKey deviceKey secondArgs secondReferArgs secondData secondReferData)

/-- The target after the second group was registered, and after the device referred to it. -/
def grouped : Registry := Registry.empty.registered evm 0 secondData secondArgs

def target : Registry := grouped.referred evm 0 secondReferData 0 secondReferArgs

theorem call_secondData : call evm domain 0 secondData Registry.empty = .ok grouped := by
  refine call_eq_ok.mpr (.inl ⟨_, Sample.decode_secondData, ?_⟩)
  refine (register_eq_ok fun _ => Nat.le_refl 0).mpr ⟨Sample.secondArgs_ok, rfl, ?_, rfl⟩
  intro m hm
  rw [List.mem_singleton.mp hm]
  exact Or.inl ⟨rfl, Sample.member_firstSightOk⟩

theorem call_secondReferData : call evm domain 0 secondReferData grouped = .ok target := by
  have hgroup : grouped.unitIdPlusOneByGroupKey (evm.keccak256 groupKey) = 0 + 1 := by
    have hupdate : grouped.unitIdPlusOneByGroupKey =
        Function.update (fun _ => 0) (evm.keccak256 groupKey) (0 + 1) := rfl
    rw [hupdate, Function.update_self]
  have hentry : grouped.entryIdPlusOneByKey (evm.keccak256 deviceKey) = 0 := by
    have hupdate : grouped.entryIdPlusOneByKey =
        Function.update (fun _ => 0) (evm.keccak256 memberKey) (0 + 1) := rfl
    rw [hupdate, Function.update_of_ne Sample.deviceKey_ne_memberKey]
  have hfirst : FirstSightOk secondReferArgs.member := by decide
  refine call_eq_ok.mpr (.inr ⟨_, Sample.decode_secondReferData, ?_⟩)
  exact refer_eq_ok.mpr ⟨0, secondArgs.unit evm 0, hgroup, rfl, Sample.secondReferArgs_ok,
    Or.inl ⟨hentry, hfirst⟩, rfl, rfl⟩

theorem reachable_target : Reachable evm domain target :=
  (Reachable.empty.call call_secondData).call call_secondReferData

theorem hashed_subset : hashed evm target archive ⊆ Sample.hashedStrings := by
  have hentries : target.entries = [member.entry 0, referArgs.member.entry 0] := by decide +kernel
  have hunits : target.units.length = 1 := by decide +kernel
  have hrefs : target.references.length = 1 := by decide +kernel
  rintro b ((⟨e, he, hb⟩ | ⟨i, a, hi, hdec, hb⟩ | ⟨i, a, hi, hdec, hb⟩) | ⟨row, hrow, c, hdec, hb⟩)
  · rw [hentries] at he
    rcases List.mem_pair.mp he with rfl | rfl <;> rcases hb with rfl | rfl <;> decide +kernel
  · obtain rfl : i = 0 := by omega
    cases hdec.symm.trans Sample.decode_secondData
    rcases hb with rfl | rfl | ⟨m, hm, hb⟩
    · decide +kernel
    · decide +kernel
    · cases List.mem_singleton.mp hm
      rcases hb with rfl | rfl <;> decide +kernel
  · obtain rfl : i = 0 := by omega
    cases hdec.symm.trans Sample.decode_secondReferData
    rcases hb with rfl | rfl | rfl <;> decide +kernel
  · exact hashedBy_archive hrow hdec hb

end Contested

open Contested in
/-- Every archived call was accepted elsewhere, the target is reachable, no hash collides and the
verification ends without an error; and neither record is there. -/
theorem verify_passes_absent :
    (∃ s s', call evm domain 0 registerData Registry.empty = .ok s ∧
      call evm domain 0 referData s = .ok s') ∧
    Reachable evm domain target ∧ Set.InjOn evm.keccak256 (hashed evm target archive) ∧
    (verify archive).Runs (passingTrace archive) (.ok ⟨2, [], []⟩) ∧
    Truthful evm domain target (passingTrace archive) ∧
    ¬ Present evm target (.register registerArgs) ∧ ¬ Present evm target (.refer referArgs) := by
  have hunits : ∀ unit ∈ target.units, unit.contentHash ≠ contentHashFor evm registerArgs.rpId
      registerArgs.metadata registerArgs.groupPublicKey registerArgs.members := by decide +kernel
  have hrefs : ∀ r ∈ target.references, r.metadata ≠ referArgs.metadata := by decide +kernel
  have htruth : Truthful evm domain target (passingTrace archive) :=
    truthful_archive (by decide +kernel) (by decide +kernel)
  refine ⟨⟨_, _, Sample.call_registerData, Sample.call_referData⟩, reachable_target,
    Sample.keccak256_injOn.mono hashed_subset, verify_passes archive, htruth, ?_, ?_⟩
  · intro ⟨unit, hunit, hhash⟩
    exact hunits unit hunit hhash
  · intro ⟨r, hr, _, hmetadata⟩
    exact hrefs r hr hmetadata

end Verify

end P256Index.Contract
