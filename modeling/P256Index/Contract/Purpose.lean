import P256Index.Contract.Sample

/-!
# One proof, one purpose

A key signs as a member, as a group or as a referrer, and nothing in the signed data names the role.
The three bindings are told apart by the first word of their preimages alone: the size of the head
section, which is two, three or four words. So a binding determines the role and the fields it
covers, a challenge determines who signed it where, and a proof holds the text of one challenge.
-/

namespace P256Index.Contract

open Abi

variable {E : Evm}

/-! ## Bindings -/

/-- What a key signs for: a role with the fields it covers. -/
inductive Bound where
  | member (groupPublicKey attestation : Bytes)
  | reference (groupPublicKey attestation metadata : Bytes)
  | group (rpId metadata groupPublicKey : Bytes) (members : List (Bytes × Bytes))
  deriving DecidableEq

variable (E) in
/-- The ABI preimage of a binding. -/
def Bound.preimage : Bound → Bytes
  | .member groupPublicKey attestation => pairPreimage groupPublicKey attestation
  | .reference groupPublicKey attestation metadata =>
      triplePreimage groupPublicKey attestation metadata
  | .group rpId metadata groupPublicKey members =>
      contentPreimage rpId metadata groupPublicKey (members.map fun m => memberHash E m.1 m.2)

variable (E) in
def Bound.binding : Bound → Bytes32
  | .member groupPublicKey attestation => memberBindingFor E groupPublicKey attestation
  | .reference groupPublicKey attestation metadata =>
      referenceBindingFor E groupPublicKey attestation metadata
  | .group rpId metadata groupPublicKey members =>
      contentHashOf E rpId metadata groupPublicKey members

theorem Bound.binding_eq (b : Bound) : b.binding E = E.keccak256 (b.preimage E) := by
  cases b <;> rfl

/-- Lengths fit in 64 bits, as the decoder makes sure. -/
def Bound.Fits : Bound → Prop
  | .member groupPublicKey attestation =>
      groupPublicKey.length < 2 ^ 64 ∧ attestation.length < 2 ^ 64
  | .reference groupPublicKey attestation metadata =>
      groupPublicKey.length < 2 ^ 64 ∧ attestation.length < 2 ^ 64 ∧ metadata.length < 2 ^ 64
  | .group rpId metadata groupPublicKey members =>
      rpId.length < 2 ^ 64 ∧ metadata.length < 2 ^ 64 ∧ groupPublicKey.length < 2 ^ 64 ∧
        members.length < 2 ^ 64 ∧ ∀ m ∈ members, m.1.length < 2 ^ 64 ∧ m.2.length < 2 ^ 64

variable (E) in
/-- The strings that are hashed for a binding. -/
def Bound.hashed : Bound → Set Bytes
  | .group rpId metadata groupPublicKey members =>
      {b | b = (Bound.group rpId metadata groupPublicKey members).preimage E ∨
        ∃ m ∈ members, b = pairPreimage m.1 m.2}
  | bound => {bound.preimage E}

theorem Bound.preimage_mem_hashed (b : Bound) : b.preimage E ∈ b.hashed E := by
  cases b with
  | member g a => rfl
  | reference g a m => rfl
  | group r m g ms => exact .inl rfl

/-! ## The first word -/

/-- The size of the head section, in words. -/
def Bound.arity : Bound → Nat
  | .member _ _ => 2
  | .reference _ _ _ => 3
  | .group _ _ _ _ => 4

theorem Bound.readWord_preimage (b : Bound) : readWord (b.preimage E) 0 = some (32 * b.arity) := by
  cases b with
  | member g a => exact readWord_tuple_cons rfl (by decide) _
  | reference g a m => exact readWord_tuple_cons rfl (by decide) _
  | group r m g ms => exact readWord_tuple_cons rfl (by decide) _

theorem Bound.arity_eq_of_preimage_eq {b b' : Bound} (h : b.preimage E = b'.preimage E) :
    b.arity = b'.arity := by
  have hread : some (32 * b.arity) = some (32 * b'.arity) := by
    rw [← b.readWord_preimage (E := E), h, b'.readWord_preimage]
  have := Option.some.inj hread
  omega

/-! ## Bindings determine their fields -/

/-- Equal lists of member hashes come from equal members. -/
theorem members_eq_of_hashes {ms ms' : List (Bytes × Bytes)} {S : Set Bytes}
    (hS : Set.InjOn E.keccak256 S) (hmem : ∀ m ∈ ms, pairPreimage m.1 m.2 ∈ S)
    (hmem' : ∀ m ∈ ms', pairPreimage m.1 m.2 ∈ S)
    (hfits : ∀ m ∈ ms, m.1.length < 2 ^ 64 ∧ m.2.length < 2 ^ 64)
    (h : ms.map (fun m => memberHash E m.1 m.2) = ms'.map fun m => memberHash E m.1 m.2) :
    ms = ms' := by
  induction ms generalizing ms' with
  | nil => exact (List.map_eq_nil_iff.mp h.symm).symm
  | cons m ms ih =>
      cases ms' with
      | nil => simp at h
      | cons m' ms' =>
          rw [List.map_cons, List.map_cons, List.cons.injEq] at h
          rw [List.forall_mem_cons] at hmem hmem' hfits
          obtain ⟨hkey, hatt⟩ := pairPreimage_injective hfits.1.1 hfits.1.2 (hS hmem.1 hmem'.1 h.1)
          rw [Prod.ext hkey hatt, ih hmem.2 hmem'.2 hfits.2 h.2]

/-- A preimage determines the role and every field. -/
theorem Bound.eq_of_preimage_eq {b b' : Bound} {S : Set Bytes} (hS : Set.InjOn E.keccak256 S)
    (hb : b.hashed E ⊆ S) (hb' : b'.hashed E ⊆ S) (hfits : b.Fits)
    (h : b.preimage E = b'.preimage E) : b = b' := by
  have harity := arity_eq_of_preimage_eq h
  cases b with
  | member g a =>
      cases b' with
      | member g' a' =>
          obtain ⟨rfl, rfl⟩ := pairPreimage_injective hfits.1 hfits.2 h
          rfl
      | reference => cases harity
      | group => cases harity
  | reference g a m =>
      cases b' with
      | member => cases harity
      | reference g' a' m' =>
          obtain ⟨rfl, rfl, rfl⟩ := triplePreimage_injective hfits.1 hfits.2.1 hfits.2.2 h
          rfl
      | group => cases harity
  | group r m g ms =>
      cases b' with
      | member => cases harity
      | reference => cases harity
      | group r' m' g' ms' =>
          obtain ⟨hr, hm, hg, hn, hmembers⟩ := hfits
          obtain ⟨rfl, rfl, rfl, hhashes⟩ :=
            contentPreimage_injective hr hm hg (by rw [List.length_map]; exact hn) h
          have hms : ∀ p ∈ ms, pairPreimage p.1 p.2 ∈ S := fun p hp => hb (.inr ⟨p, hp, rfl⟩)
          have hms' : ∀ p ∈ ms', pairPreimage p.1 p.2 ∈ S := fun p hp => hb' (.inr ⟨p, hp, rfl⟩)
          rw [members_eq_of_hashes hS hms hms' hmembers hhashes]

theorem Bound.eq_of_binding_eq {b b' : Bound} {S : Set Bytes} (hS : Set.InjOn E.keccak256 S)
    (hb : b.hashed E ⊆ S) (hb' : b'.hashed E ⊆ S) (hfits : b.Fits)
    (h : b.binding E = b'.binding E) : b = b' := by
  rw [binding_eq, binding_eq] at h
  exact eq_of_preimage_eq hS hb hb' hfits
    (hS (hb b.preimage_mem_hashed) (hb' b'.preimage_mem_hashed) h)

/-! ## Challenges determine who signs where -/

theorem challengeFor_injective {d d' : Domain} {r r' k k' : Bytes} {β β' : Bytes32} {S : Set Bytes}
    (hS : Set.InjOn E.keccak256 S) (hmem : challengePreimage d r k β ∈ S)
    (hmem' : challengePreimage d' r' k' β' ∈ S) (hr : r.length < 2 ^ 64) (hk : k.length < 2 ^ 64)
    (h : challengeFor E d r k β = challengeFor E d' r' k' β') :
    d = d' ∧ r = r' ∧ k = k' ∧ β = β' :=
  challengePreimage_injective hr hk (hS hmem hmem' h)

/-- What one signature is for: the deployment, the rpId, the signer, and the role with its fields.
-/
structure Purpose where
  domain : Domain
  rpId : Bytes
  publicKey : Bytes
  bound : Bound
  deriving DecidableEq

namespace Purpose

variable (E) in
def challenge (p : Purpose) : Bytes32 :=
  challengeFor E p.domain p.rpId p.publicKey (p.bound.binding E)

def Fits (p : Purpose) : Prop := p.rpId.length < 2 ^ 64 ∧ p.publicKey.length < 2 ^ 64 ∧ p.bound.Fits

variable (E) in
/-- The strings that are hashed for a purpose. -/
def hashed (p : Purpose) : Set Bytes :=
  insert (challengePreimage p.domain p.rpId p.publicKey (p.bound.binding E)) (p.bound.hashed E)

variable (E) in
/-- The contract's proof check for a purpose. -/
def verify (p : Purpose) (proof : Proof) : Except Revert Unit :=
  verifyProof E proof (p.challenge E) p.rpId (coordinates p.publicKey)

theorem eq_of_challenge_eq {p p' : Purpose} {S : Set Bytes} (hS : Set.InjOn E.keccak256 S)
    (hp : p.hashed E ⊆ S) (hp' : p'.hashed E ⊆ S) (hfits : p.Fits)
    (h : p.challenge E = p'.challenge E) : p = p' := by
  have hmem := hp (Set.mem_insert _ _)
  have hmem' := hp' (Set.mem_insert _ _)
  obtain ⟨hd, hr, hk, hβ⟩ := challengeFor_injective hS hmem hmem' hfits.1 hfits.2.1 h
  have hbound : p.bound = p'.bound := Bound.eq_of_binding_eq hS
    ((Set.subset_insert _ _).trans hp) ((Set.subset_insert _ _).trans hp') hfits.2.2 hβ
  cases p
  cases p'
  simp_all

/-- One proof is accepted for one purpose. -/
theorem eq_of_verify {p p' : Purpose} {proof : Proof} {S : Set Bytes}
    (hS : Set.InjOn E.keccak256 S) (hp : p.hashed E ⊆ S) (hp' : p'.hashed E ⊆ S) (hfits : p.Fits)
    (h : p.verify E proof = .ok ()) (h' : p'.verify E proof = .ok ()) : p = p' := by
  have hok := (verifyProof_eq_ok E).mp h
  have hok' := (verifyProof_eq_ok E).mp h'
  exact eq_of_challenge_eq hS hp hp' hfits (hok.challenge_unique E hok')

end Purpose

/-! ## The purposes of the calls -/

/-- The group key authorizes the frozen record. -/
def RegisterArgs.purpose (a : RegisterArgs) (d : Domain) : Purpose :=
  ⟨d, a.rpId, a.groupPublicKey,
    .group a.rpId a.metadata a.groupPublicKey (a.members.map fun m => (m.publicKey, m.attestation))⟩

/-- A member joins a group. -/
def Member.purpose (m : Member) (d : Domain) (rpId groupPublicKey : Bytes) : Purpose :=
  ⟨d, rpId, m.publicKey, .member groupPublicKey m.attestation⟩

/-- A passkey points at a group. -/
def ReferArgs.purpose (a : ReferArgs) (d : Domain) (rpId : Bytes) : Purpose :=
  ⟨d, rpId, a.member.publicKey,
    .reference a.groupPublicKey a.member.attestation a.metadata⟩

variable {d : Domain}

theorem RegisterArgs.Fits.bound {a : RegisterArgs} (h : a.Fits) (d : Domain) :
    (a.purpose d).bound.Fits := by
  obtain ⟨hrp, hmeta, hgroup, -, hcount, hmembers⟩ := h
  refine ⟨hrp, hmeta, hgroup, by rw [List.length_map]; exact hcount, ?_⟩
  rw [List.forall_mem_map]
  exact fun m hm => ⟨(hmembers m hm).1, (hmembers m hm).2.1⟩

/-- An accepted register checked its proofs for these purposes. -/
theorem RegisterOk.verify {a : RegisterArgs} (h : RegisterOk E d a) :
    (a.purpose d).verify E a.groupProof = .ok () ∧
      ∀ m ∈ a.members, (m.purpose d a.rpId a.groupPublicKey).verify E m.proof = .ok () :=
  ⟨(verifyProof_eq_ok E).mpr h.group_proof,
    fun m hm => (verifyProof_eq_ok E).mpr (h.members m hm).proof⟩

theorem ReferOk.verify {a : ReferArgs} {rpId : Bytes} (h : ReferOk E d rpId a) :
    (a.purpose d rpId).verify E a.member.proof = .ok () :=
  (verifyProof_eq_ok E).mpr h.proof

/-! ## One purpose -/

/-- Bindings determine the role and the fields they cover, challenges the deployment, the rpId, the
signer and the binding; a proof that is accepted for one purpose is rejected for every other one.
The hash has no collision among the strings of the two sides, and nothing is asked of the signature
check. -/
theorem one_purpose (E : Evm) :
    (∀ b b' : Bound, b.Fits → Set.InjOn E.keccak256 (b.hashed E ∪ b'.hashed E) →
      b.preimage E = b'.preimage E → b = b') ∧
    (∀ (d d' : Domain) (r r' k k' : Bytes) (β β' : Bytes32), r.length < 2 ^ 64 → k.length < 2 ^ 64 →
      Set.InjOn E.keccak256 {challengePreimage d r k β, challengePreimage d' r' k' β'} →
        challengeFor E d r k β = challengeFor E d' r' k' β' →
          d.chainId = d'.chainId ∧ d.registry = d'.registry ∧ r = r' ∧ k = k' ∧ β = β') ∧
    ∀ (p p' : Purpose) (proof : Proof), p.Fits →
      Set.InjOn E.keccak256 (p.hashed E ∪ p'.hashed E) → p.verify E proof = .ok () → p' ≠ p →
        ∃ e, p'.verify E proof = .error e := by
  refine ⟨fun b b' hfits hS h => ?_, fun d d' r r' k k' β β' hr hk hS h => ?_, ?_⟩
  · exact Bound.eq_of_preimage_eq hS Set.subset_union_left Set.subset_union_right hfits h
  · obtain ⟨rfl, rfl, rfl, rfl⟩ := challengeFor_injective hS (by simp) (by simp) hr hk h
    exact ⟨rfl, rfl, rfl, rfl, rfl⟩
  · intro p p' proof hfits hS h hne
    cases hagain : p'.verify E proof with
    | error e => exact ⟨e, rfl⟩
    | ok u =>
        have heq :=
          Purpose.eq_of_verify hS Set.subset_union_left Set.subset_union_right hfits h hagain
        exact absurd heq.symm hne

/-- The recorded group proof does not serve as its member's. -/
theorem one_purpose_recorded :
    (Sample.registerArgs.purpose Sample.domain).verify Sample.evm Sample.registerArgs.groupProof =
        .ok () ∧
      ∃ e, (Sample.member.purpose Sample.domain Sample.rpId Sample.groupKey).verify Sample.evm
        Sample.registerArgs.groupProof = .error e := by
  have hfits : (Sample.registerArgs.purpose Sample.domain).Fits := by
    refine ⟨by decide +kernel, by decide +kernel, by decide +kernel, by decide +kernel,
      by decide +kernel, by decide +kernel, fun m hm => ?_⟩
    cases List.mem_singleton.mp hm
    exact ⟨by decide +kernel, by decide +kernel⟩
  have hS : Set.InjOn Sample.evm.keccak256
      ((Sample.registerArgs.purpose Sample.domain).hashed Sample.evm ∪
        (Sample.member.purpose Sample.domain Sample.rpId Sample.groupKey).hashed Sample.evm) := by
    refine Sample.keccak256_injOn.mono ?_
    rintro b ((rfl | rfl | ⟨m, hm, rfl⟩) | (rfl | rfl))
    · decide +kernel
    · decide +kernel
    · cases List.mem_singleton.mp hm
      decide +kernel
    · decide +kernel
    · decide +kernel
  have hverify := Sample.registerArgs_ok.verify.1
  refine ⟨hverify, (one_purpose Sample.evm).2.2 _ _ _ hfits hS hverify ?_⟩
  intro h
  cases congrArg Purpose.bound h

end P256Index.Contract
