import Mathlib

/-!
# Checked computations

A function that validates as it goes is a chain of checks in `Except`, the first failing one
deciding the error. `revertIf` is one check; the lemmas take a successful chain apart into the
conditions it passed.
-/

namespace P256Index

/-- Fail with `e` when `c` holds. -/
def revertIf {ε : Type} (c : Prop) [Decidable c] (e : ε) : Except ε Unit :=
  if c then .error e else .ok ()

variable {ε α β κ : Type}

@[simp] theorem revertIf_eq_ok {c : Prop} [Decidable c] {e : ε} {u : Unit} :
    revertIf c e = .ok u ↔ ¬ c := by
  unfold revertIf
  by_cases h : c <;> simp [h]

theorem revertIf_pos {c : Prop} [Decidable c] {e : ε} (h : c) : revertIf c e = .error e := if_pos h

theorem revertIf_neg {c : Prop} [Decidable c] {e : ε} (h : ¬ c) : revertIf c e = .ok () := if_neg h

theorem Except.bind_eq_ok {x : Except ε α} {f : α → Except ε β} {b : β} :
    (x >>= f) = .ok b ↔ ∃ a, x = .ok a ∧ f a = .ok b := by
  cases x with
  | ok a => exact ⟨fun h => ⟨a, rfl, h⟩, fun ⟨_, ha, h⟩ => by cases ha; exact h⟩
  | error e => exact ⟨fun h => (by cases h), fun ⟨_, ha, _⟩ => (by cases ha)⟩

@[simp] theorem Except.pure_eq_ok {a b : α} : (pure a : Except ε α) = .ok b ↔ a = b :=
  ⟨fun h => Except.ok.inj h, fun h => congrArg _ h⟩

theorem Except.exists_of_toBool {x : Except ε α} (h : x.toBool = true) : ∃ a, x = .ok a := by
  cases x with
  | ok a => exact ⟨a, rfl⟩
  | error e => cases h

/-- A check in front of a computation. -/
theorem revertIf_bind_eq_ok {c : Prop} [Decidable c] {e : ε} {f : Unit → Except ε β} {b : β} :
    (revertIf c e >>= f) = .ok b ↔ ¬ c ∧ f () = .ok b := by
  rw [Except.bind_eq_ok]
  exact ⟨fun ⟨_, h, hf⟩ => ⟨revertIf_eq_ok.mp h, hf⟩, fun ⟨h, hf⟩ => ⟨(), revertIf_eq_ok.mpr h, hf⟩⟩

/-- Fail with `e` where there is no value. -/
def okOr (x : Option α) (e : ε) : Except ε α := x.elim (.error e) .ok

@[simp] theorem okOr_eq_ok {x : Option α} {e : ε} {a : α} : okOr x e = .ok a ↔ x = some a := by
  cases x with
  | none => exact ⟨fun h => (by cases h), fun h => (by cases h)⟩
  | some b =>
      exact ⟨fun h => congrArg some (Except.ok.inj h), fun h => congrArg _ (Option.some.inj h)⟩

@[simp] theorem Except.mapError_eq_ok {ε' : Type} {x : Except ε α} {f : ε → ε'} {a : α} :
    x.mapError f = .ok a ↔ x = .ok a := by
  cases x with
  | ok b => exact ⟨fun h => congrArg _ (Except.ok.inj h), fun h => congrArg _ (Except.ok.inj h)⟩
  | error e => exact ⟨fun h => (by cases h), fun h => (by cases h)⟩

/-! ## Which errors a computation fails with -/

/-- Every error of the computation satisfies `P`. -/
def FailsWith (P : ε → Prop) (x : Except ε α) : Prop := ∀ e, x = .error e → P e

variable {P : ε → Prop}

theorem failsWith_ok {a : α} : FailsWith P (.ok a) := fun _ h => by cases h

theorem failsWith_error {e : ε} (h : P e) : FailsWith P (.error e : Except ε α) := by
  intro e' he
  cases he
  exact h

/-- A check fails with its own error, and only where its condition holds. -/
theorem failsWith_revertIf {c : Prop} [Decidable c] {e : ε} (h : c → P e) :
    FailsWith P (revertIf c e) := by
  unfold revertIf
  split
  · next hc => exact failsWith_error (h hc)
  · exact failsWith_ok

theorem FailsWith.bind {x : Except ε α} {f : α → Except ε β} (hx : FailsWith P x)
    (hf : ∀ a, x = .ok a → FailsWith P (f a)) : FailsWith P (x >>= f) := by
  cases x with
  | ok a => exact hf a rfl
  | error e => exact failsWith_error (hx e rfl)

/-- An error of another kind comes from a later step. -/
theorem FailsWith.error_later {x : Except ε α} {f : α → Except ε β} {e : ε} (hx : FailsWith P x)
    (he : ¬ P e) (h : x >>= f = .error e) : ∃ a, x = .ok a ∧ f a = .error e := by
  cases x with
  | ok a => exact ⟨a, rfl, h⟩
  | error e' =>
      cases h
      exact absurd (hx _ rfl) he

/-! ## Loops -/

theorem mapM_eq_ok_map {f : α → Except ε β} {g : α → β} {l : List α}
    (h : ∀ a ∈ l, f a = .ok (g a)) : l.mapM f = .ok (l.map g) := by
  induction l with
  | nil => rfl
  | cons a l ih =>
      rw [List.mapM_cons]
      refine Except.bind_eq_ok.mpr ⟨_, h a (List.mem_cons_self ..), ?_⟩
      exact Except.bind_eq_ok.mpr ⟨_, ih fun b hb => h b (List.mem_cons_of_mem a hb), rfl⟩

/-- A loop that fills an array position by position. -/
theorem mapM_range_eq_ok {f : Nat → Except ε β} {page : List β}
    (h : ∀ i b, page[i]? = some b → f i = .ok b) : (List.range page.length).mapM f = .ok page := by
  induction page using List.reverseRecOn with
  | nil => rfl
  | append_singleton page b ih =>
      have hpage : (List.range page.length).mapM f = .ok page := by
        apply ih
        intro i c hi
        exact h i c (by rw [List.getElem?_append_left (List.getElem?_eq_some_iff.mp hi).1, hi])
      have hlast : f page.length = .ok b := h _ b (by simp)
      have hrest : [page.length].mapM f = .ok [b] := by
        rw [List.mapM_cons, hlast]
        rfl
      rw [List.length_append, List.length_singleton, List.range_succ, List.mapM_append]
      exact Except.bind_eq_ok.mpr ⟨_, hpage, Except.bind_eq_ok.mpr ⟨_, hrest, rfl⟩⟩

/-! ## Lists of values that may be missing -/

/-- Where `f` has a value at each element it has one at the list, element by element. -/
theorem exists_mapM {f : α → Option β} {R : α → β → Prop} {l : List α}
    (h : ∀ a ∈ l, ∃ b, f a = some b ∧ R a b) : ∃ bs, l.mapM f = some bs ∧ List.Forall₂ R l bs := by
  induction l with
  | nil => exact ⟨[], rfl, .nil⟩
  | cons a l ih =>
      obtain ⟨b, hb, hR⟩ := h a List.mem_cons_self
      obtain ⟨bs, hbs, hRs⟩ := ih fun a' ha' => h a' (List.mem_cons_of_mem _ ha')
      exact ⟨b :: bs, by simp [List.mapM_cons, hb, hbs], .cons hR hRs⟩

theorem mapM_of_forall₂ {f : α → Option κ} {g : β → κ} {l : List α} {bs : List β}
    (h : List.Forall₂ (fun a b => f a = some (g b)) l bs) : l.mapM f = some (bs.map g) := by
  induction h with
  | nil => rfl
  | cons hab _ ih => simp [List.mapM_cons, hab, ih]

theorem map_eq_of_forall₂ {f : α → κ} {g : β → κ} {l : List α} {bs : List β}
    (h : List.Forall₂ (fun a b => g b = f a) l bs) : bs.map g = l.map f := by
  induction h with
  | nil => rfl
  | cons hab _ ih => simp [hab, ih]

end P256Index
