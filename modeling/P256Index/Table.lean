import Mathlib

/-!
# Append-only tables and their indexes

A table is a list whose row ids are positions, and rows are only ever pushed. Three kinds of index
sit beside it:

* `IndexedBy` — a unique key, stored as id plus one with zero for absent;
* `ListedBy` — a key shared by many rows, stored as the list of their ids;
* `Linked` — a relation between two tables, stored as a flag and as lists both ways.

Each is empty at first and kept by a push, which is all a proof about a particular storage needs.
Along a run the ids of old rows stay what they are: `Appended` for lists of ids, `Kept` for index
values.
-/

namespace P256Index

variable {α κ β : Type}

/-! ## Unique keys -/

/-- `idx` maps exactly the keys of the rows to their id plus one. -/
def IndexedBy (key : α → κ) (rows : List α) (idx : κ → Nat) : Prop :=
  ∀ k i, idx k = i + 1 ↔ ∃ r, rows[i]? = some r ∧ key r = k

namespace IndexedBy

variable {key : α → κ} {rows : List α} {idx : κ → Nat}

theorem nil (key : α → κ) : IndexedBy key [] fun _ => 0 := by
  intro k i
  constructor
  · intro h
    cases h
  · rintro ⟨r, h, -⟩
    cases h

theorem le_length (h : IndexedBy key rows idx) (k : κ) : idx k ≤ rows.length := by
  cases hk : idx k with
  | zero => exact Nat.zero_le _
  | succ i =>
      obtain ⟨r, hr, -⟩ := (h k i).mp hk
      exact (List.getElem?_eq_some_iff.mp hr).1

/-- No two rows share a key. -/
theorem unique (h : IndexedBy key rows idx) {i j : Nat} {r r' : α} (hi : rows[i]? = some r)
    (hj : rows[j]? = some r') (hk : key r = key r') : i = j := by
  have h1 := (h (key r) i).mpr ⟨r, hi, rfl⟩
  have h2 := (h (key r) j).mpr ⟨r', hj, hk.symm⟩
  omega

/-- One id has one key. -/
theorem key_eq (h : IndexedBy key rows idx) {k k' : κ} {i : Nat} (hk : idx k = i + 1)
    (hk' : idx k' = i + 1) : k = k' := by
  obtain ⟨r, hr, rfl⟩ := (h k i).mp hk
  obtain ⟨r', hr', rfl⟩ := (h k' i).mp hk'
  cases hr.symm.trans hr'
  rfl

theorem nodup (h : IndexedBy key rows idx) : (rows.map key).Nodup := by
  rw [List.nodup_iff_getElem?_ne_getElem?]
  intro i j hij hj heq
  have hj' : j < rows.length := by simpa using hj
  have hi' : i < rows.length := hij.trans hj'
  rw [List.getElem?_map, List.getElem?_map, List.getElem?_eq_getElem hi',
    List.getElem?_eq_getElem hj'] at heq
  have := h.unique (List.getElem?_eq_getElem hi') (List.getElem?_eq_getElem hj')
    (Option.some.inj heq)
  omega

theorem push [DecidableEq κ] (h : IndexedBy key rows idx) {r : α} (hnew : idx (key r) = 0) :
    IndexedBy key (rows ++ [r]) (Function.update idx (key r) (rows.length + 1)) := by
  intro k i
  by_cases hk : k = key r
  · subst hk
    rw [Function.update_self]
    constructor
    · intro hi
      obtain rfl : rows.length = i := by omega
      exact ⟨r, List.getElem?_concat_length, rfl⟩
    · rintro ⟨r', hr', hk'⟩
      rcases lt_trichotomy i rows.length with hlt | rfl | hgt
      · rw [List.getElem?_append_left hlt] at hr'
        have := (h (key r) i).mpr ⟨r', hr', hk'⟩
        omega
      · rfl
      · rw [List.getElem?_eq_none (by simpa using hgt)] at hr'
        cases hr'
  · rw [Function.update_of_ne hk, h k i]
    constructor
    · rintro ⟨r', hr', hk'⟩
      have hlt := (List.getElem?_eq_some_iff.mp hr').1
      exact ⟨r', by rw [List.getElem?_append_left hlt, hr'], hk'⟩
    · rintro ⟨r', hr', hk'⟩
      rcases lt_or_ge i rows.length with hlt | hge
      · rw [List.getElem?_append_left hlt] at hr'
        exact ⟨r', hr', hk'⟩
      · rw [List.getElem?_append_right hge, List.getElem?_singleton] at hr'
        split at hr'
        · cases hr'
          exact absurd hk'.symm hk
        · cases hr'

end IndexedBy

/-! ## Shared keys -/

/-- The ids of the rows that satisfy `p`, in id order. -/
def idsWhere (p : α → Bool) (rows : List α) : List Nat :=
  (rows.zipIdx.filter fun r => p r.1).map Prod.snd

theorem idsWhere_push (p : α → Bool) (rows : List α) (r : α) :
    idsWhere p (rows ++ [r]) = idsWhere p rows ++ if p r then [rows.length] else [] := by
  cases hp : p r <;> simp [idsWhere, List.zipIdx_append, hp]

theorem length_idsWhere (p : α → Bool) (rows : List α) :
    (idsWhere p rows).length = rows.countP p := by
  induction rows using List.reverseRecOn with
  | nil => rfl
  | append_singleton rows r ih =>
      rw [idsWhere_push, List.length_append, List.countP_append, ih]
      cases hp : p r <;> simp [hp]

theorem mem_idsWhere {p : α → Bool} {rows : List α} {i : Nat} :
    i ∈ idsWhere p rows ↔ ∃ r, rows[i]? = some r ∧ p r = true := by
  simp only [idsWhere, List.mem_map, List.mem_filter, Prod.exists, exists_eq_right,
    List.mk_mem_zipIdx_iff_getElem?]

/-- `lst` maps every key to the ids of its rows, in id order. -/
def ListedBy [DecidableEq κ] (key : α → κ) (rows : List α) (lst : κ → List Nat) : Prop :=
  ∀ k, lst k = idsWhere (fun r => key r = k) rows

namespace ListedBy

variable [DecidableEq κ] {key : α → κ} {rows : List α} {lst : κ → List Nat}

theorem nil (key : α → κ) : ListedBy key [] fun _ => [] := fun _ => rfl

theorem push (h : ListedBy key rows lst) (r : α) :
    ListedBy key (rows ++ [r]) (Function.update lst (key r) (lst (key r) ++ [rows.length])) := by
  intro k
  rw [idsWhere_push]
  by_cases hk : key r = k
  · subst hk
    rw [Function.update_self, h (key r), decide_eq_true rfl, if_pos rfl]
  · rw [Function.update_of_ne (Ne.symm hk), h k, decide_eq_false hk, if_neg Bool.false_ne_true,
      List.append_nil]

theorem mem (h : ListedBy key rows lst) {k : κ} {i : Nat} :
    i ∈ lst k ↔ ∃ r, rows[i]? = some r ∧ key r = k := by
  rw [h k, mem_idsWhere]
  simp only [decide_eq_true_eq]

theorem eq_nil_iff (h : ListedBy key rows lst) {k : κ} : lst k = [] ↔ ∀ r ∈ rows, key r ≠ k := by
  rw [List.eq_nil_iff_forall_not_mem]
  constructor
  · intro hall r hr hk
    obtain ⟨i, hi⟩ := List.getElem?_of_mem hr
    exact hall i (h.mem.mpr ⟨r, hi, hk⟩)
  · intro hall i hi
    obtain ⟨r, hr, hk⟩ := h.mem.mp hi
    exact hall r (List.mem_of_getElem? hr) hk

end ListedBy

/-! ## Links between two tables -/

theorem nodup_snoc {l : List α} {a : α} (hl : l.Nodup) (ha : a ∉ l) : (l ++ [a]).Nodup := by
  rw [List.nodup_append]
  refine ⟨hl, List.nodup_singleton a, ?_⟩
  intro x hx y hy hxy
  rw [List.mem_singleton] at hy
  rw [hxy, hy] at hx
  exact ha hx

/-- A relation kept as a flag and as duplicate-free lists in both directions. -/
structure Linked (flag : α → β → Bool) (fwd : α → List β) (bwd : β → List α) : Prop where
  mem_fwd : ∀ a b, b ∈ fwd a ↔ flag a b = true
  mem_bwd : ∀ a b, a ∈ bwd b ↔ flag a b = true
  nodup_fwd : ∀ a, (fwd a).Nodup
  nodup_bwd : ∀ b, (bwd b).Nodup

namespace Linked

variable [DecidableEq α] [DecidableEq β] {flag : α → β → Bool} {fwd : α → List β}
  {bwd : β → List α}

omit [DecidableEq α] [DecidableEq β] in
theorem nil : Linked (α := α) (β := β) (fun _ _ => false) (fun _ => []) fun _ => [] :=
  ⟨by simp, by simp, by simp, by simp⟩

theorem push (h : Linked flag fwd bwd) {a : α} {b : β} (hnew : flag a b = false) :
    Linked (Function.update flag a (Function.update (flag a) b true))
      (Function.update fwd a (fwd a ++ [b])) (Function.update bwd b (bwd b ++ [a])) := by
  have hb : b ∉ fwd a := fun hmem => by simp [(h.mem_fwd a b).mp hmem] at hnew
  have ha : a ∉ bwd b := fun hmem => by simp [(h.mem_bwd a b).mp hmem] at hnew
  constructor
  · intro x y
    by_cases hx : x = a
    · subst hx
      by_cases hy : y = b
      · simp [hy]
      · simp [hy, h.mem_fwd]
    · simp [hx, h.mem_fwd]
  · intro x y
    by_cases hy : y = b
    · subst hy
      by_cases hx : x = a
      · simp [hx]
      · simp [hx, h.mem_bwd]
    · by_cases hx : x = a
      · subst hx
        simp [hy, h.mem_bwd]
      · simp [hx, hy, h.mem_bwd]
  · intro x
    by_cases hx : x = a
    · subst hx
      rw [Function.update_self]
      exact nodup_snoc (h.nodup_fwd x) hb
    · rw [Function.update_of_ne hx]
      exact h.nodup_fwd x
  · intro y
    by_cases hy : y = b
    · subst hy
      rw [Function.update_self]
      exact nodup_snoc (h.nodup_bwd y) ha
    · rw [Function.update_of_ne hy]
      exact h.nodup_bwd y

end Linked

/-! ## Growth -/

/-- A list of ids got longer, by ids from `n` on. -/
def Appended (n : Nat) (ids ids' : List Nat) : Prop :=
  ∃ new, ids' = ids ++ new ∧ ∀ i ∈ new, n ≤ i

namespace Appended

variable {n m : Nat} {ids ids' ids'' : List Nat}

theorem refl (n : Nat) (ids : List Nat) : Appended n ids ids :=
  ⟨[], (List.append_nil ids).symm, by simp⟩

theorem trans (h : Appended n ids ids') (h' : Appended n ids' ids'') : Appended n ids ids'' := by
  obtain ⟨new, rfl, hnew⟩ := h
  obtain ⟨new', rfl, hnew'⟩ := h'
  refine ⟨new ++ new', List.append_assoc .., fun i hi => ?_⟩
  rcases List.mem_append.mp hi with hi | hi
  · exact hnew i hi
  · exact hnew' i hi

theorem mono (hnm : n ≤ m) (h : Appended m ids ids') : Appended n ids ids' := by
  obtain ⟨new, rfl, hnew⟩ := h
  exact ⟨new, rfl, fun i hi => hnm.trans (hnew i hi)⟩

theorem ne_nil (h : Appended n ids ids') (hids : ids ≠ []) : ids' ≠ [] := by
  obtain ⟨new, rfl, -⟩ := h
  simp [hids]

/-- One list of a family gets one id. -/
theorem update [DecidableEq κ] (f : κ → List Nat) (k : κ) {i : Nat} (hi : n ≤ i) (j : κ) :
    Appended n (f j) (Function.update f k (f k ++ [i]) j) := by
  by_cases hj : j = k
  · subst hj
    rw [Function.update_self]
    exact ⟨[i], rfl, by simpa using hi⟩
  · rw [Function.update_of_ne hj]
    exact refl n _

end Appended

/-- Index values are kept; a key that gets one gets the id of a row from `n` on. -/
def Kept (n : Nat) (idx idx' : κ → Nat) : Prop := ∀ k, idx' k = idx k ∨ idx k = 0 ∧ n < idx' k

namespace Kept

variable {n m : Nat} {idx idx' idx'' : κ → Nat}

theorem refl (n : Nat) (idx : κ → Nat) : Kept n idx idx := fun _ => .inl rfl

/-- An old id is found under the same keys as before. -/
theorem eq_succ_iff (h : Kept n idx idx') {k : κ} {i : Nat} (hi : i < n) :
    idx' k = i + 1 ↔ idx k = i + 1 := by
  have hk := h k
  omega

theorem eq_of_ne_zero (h : Kept n idx idx') {k : κ} (hk : idx k ≠ 0) : idx' k = idx k :=
  (h k).resolve_right fun hnew => hk hnew.1

theorem trans (hnm : n ≤ m) (h : Kept n idx idx') (h' : Kept m idx' idx'') : Kept n idx idx'' := by
  intro k
  have hk := h k
  have hk' := h' k
  omega

theorem update [DecidableEq κ] {k : κ} {i : Nat} (h0 : idx k = 0) (hi : n ≤ i) :
    Kept n idx (Function.update idx k (i + 1)) := by
  intro j
  by_cases hj : j = k
  · subst hj
    rw [Function.update_self]
    exact .inr ⟨h0, Nat.lt_succ_of_le hi⟩
  · rw [Function.update_of_ne hj]
    exact .inl rfl

end Kept

/-! ## Lists in step -/

theorem exists_of_forall₂_left {R : α → β → Prop} {as : List α} {bs : List β}
    (h : List.Forall₂ R as bs) {a : α} (ha : a ∈ as) : ∃ b ∈ bs, R a b := by
  induction h with
  | nil => cases ha
  | cons hab _ ih =>
      rcases List.mem_cons.mp ha with rfl | ha
      · exact ⟨_, List.mem_cons_self, hab⟩
      · obtain ⟨b, hb, hR⟩ := ih ha
        exact ⟨b, List.mem_cons_of_mem _ hb, hR⟩

theorem exists_of_forall₂_right {R : α → β → Prop} {as : List α} {bs : List β}
    (h : List.Forall₂ R as bs) {b : β} (hb : b ∈ bs) : ∃ a ∈ as, R a b :=
  exists_of_forall₂_left h.flip hb

end P256Index
