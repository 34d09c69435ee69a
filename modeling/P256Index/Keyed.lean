import Mathlib

/-!
# Tables with a primary key, and values with a lifetime

A table is a list of rows no two of which share a key. The operations are those of SQL, selecting
rows by a condition; what they do is said by what `find` returns afterwards. A `Lease` is a value
that may end: `live` forgets one that has ended, and forgetting later forgets more.
-/

namespace P256Index

variable {κ ρ α : Type} {key : ρ → κ}

/-! ## Tables -/

structure Keyed (key : ρ → κ) where
  rows : List ρ
  unique : (rows.map key).Nodup

namespace Keyed

def empty : Keyed key := ⟨[], List.nodup_nil⟩

/-- `DELETE … WHERE`. -/
def deleteWhere (t : Keyed key) (p : ρ → Bool) : Keyed key where
  rows := t.rows.filter fun r => !p r
  unique := t.unique.sublist (List.filter_sublist.map key)

theorem map_key_update {f : ρ → ρ} (hf : ∀ r, key (f r) = key r) (p : ρ → Bool) (rows : List ρ) :
    (rows.map fun r => if p r then f r else r).map key = rows.map key := by
  rw [List.map_map]
  apply List.map_congr_left
  intro r _
  show key (if p r then f r else r) = key r
  split
  · exact hf r
  · rfl

/-- `UPDATE … SET … WHERE`, of columns other than the key. -/
def updateWhere (t : Keyed key) (p : ρ → Bool) (f : ρ → ρ) (hf : ∀ r, key (f r) = key r) :
    Keyed key where
  rows := t.rows.map fun r => if p r then f r else r
  unique := by
    rw [map_key_update hf]
    exact t.unique

variable [DecidableEq κ]

/-- The row of a key. -/
def find (t : Keyed key) (k : κ) : Option ρ := t.rows.find? fun r => key r = k

theorem find_eq_some {t : Keyed key} {k : κ} {r : ρ} :
    t.find k = some r ↔ r ∈ t.rows ∧ key r = k := by
  constructor
  · intro h
    exact ⟨List.mem_of_find?_eq_some h, by simpa using List.find?_some h⟩
  · rintro ⟨hr, rfl⟩
    cases h : t.find (key r) with
    | none =>
        have hnone := List.find?_eq_none.mp h r hr
        exact absurd (decide_eq_true rfl) hnone
    | some r' =>
        have hkey : key r' = key r := by simpa using List.find?_some h
        rw [List.inj_on_of_nodup_map t.unique (List.mem_of_find?_eq_some h) hr hkey]

theorem find_eq_none {t : Keyed key} {k : κ} : t.find k = none ↔ ∀ r ∈ t.rows, key r ≠ k := by
  simp [find, List.find?_eq_none]

theorem find_of_mem {t : Keyed key} {r : ρ} (h : r ∈ t.rows) : t.find (key r) = some r :=
  find_eq_some.mpr ⟨h, rfl⟩

@[simp] theorem find_empty (k : κ) : (empty : Keyed key).find k = none := rfl

/-- `INSERT OR REPLACE`. -/
def insertOrReplace (t : Keyed key) (r : ρ) : Keyed key where
  rows := (t.rows.filter fun r' => key r' ≠ key r) ++ [r]
  unique := by
    rw [List.map_append, List.map_singleton]
    refine List.nodup_append.mpr ⟨t.unique.sublist (List.filter_sublist.map key),
      List.nodup_singleton _, ?_⟩
    intro k hk k' hk'
    obtain ⟨r', hr', rfl⟩ := List.mem_map.mp hk
    rw [List.mem_singleton.mp hk']
    simpa using (List.mem_filter.mp hr').2

/-- `INSERT OR IGNORE`. -/
def insertOrIgnore (t : Keyed key) (r : ρ) : Keyed key :=
  if (t.find (key r)).isSome then t else t.insertOrReplace r

@[simp] theorem find_deleteWhere (t : Keyed key) (p : ρ → Bool) (k : κ) :
    (t.deleteWhere p).find k = (t.find k).filter fun r => !p r := by
  apply Option.ext
  intro r
  simp only [find_eq_some, Option.filter_eq_some_iff, deleteWhere, List.mem_filter]
  tauto

@[simp] theorem find_updateWhere (t : Keyed key) (p : ρ → Bool) {f : ρ → ρ}
    (hf : ∀ r, key (f r) = key r) (k : κ) :
    (t.updateWhere p f hf).find k = (t.find k).map fun r => if p r then f r else r := by
  apply Option.ext
  intro r
  simp only [find_eq_some, Option.map_eq_some_iff, updateWhere, List.mem_map]
  have hkey : ∀ r', key (if p r' then f r' else r') = key r' := by
    intro r'
    split
    · exact hf r'
    · rfl
  constructor
  · rintro ⟨⟨r', hr', rfl⟩, rfl⟩
    exact ⟨r', ⟨hr', (hkey r').symm⟩, rfl⟩
  · rintro ⟨r', ⟨hr', rfl⟩, rfl⟩
    exact ⟨⟨r', hr', rfl⟩, hkey r'⟩

theorem find_insertOrReplace (t : Keyed key) (r : ρ) (k : κ) :
    (t.insertOrReplace r).find k = if k = key r then some r else t.find k := by
  apply Option.ext
  intro r'
  rw [find_eq_some]
  simp only [insertOrReplace, List.mem_append, List.mem_filter, List.mem_singleton,
    decide_eq_true_eq]
  split
  · next hk =>
      constructor
      · rintro ⟨⟨-, hne⟩ | rfl, rfl⟩
        · exact absurd hk hne
        · rfl
      · intro h
        cases h
        exact ⟨.inr rfl, hk.symm⟩
  · next hk =>
      rw [find_eq_some]
      constructor
      · rintro ⟨⟨hr', -⟩ | rfl, rfl⟩
        · exact ⟨hr', rfl⟩
        · exact absurd rfl hk
      · rintro ⟨hr', rfl⟩
        exact ⟨.inl ⟨hr', hk⟩, rfl⟩

theorem find_insertOrIgnore (t : Keyed key) (r : ρ) (k : κ) :
    (t.insertOrIgnore r).find k = if k = key r ∧ t.find k = none then some r else t.find k := by
  unfold insertOrIgnore
  by_cases hsome : (t.find (key r)).isSome
  · rw [if_pos hsome, if_neg]
    rintro ⟨rfl, hnone⟩
    rw [hnone] at hsome
    cases hsome
  · have hnone : t.find (key r) = none := Option.not_isSome_iff_eq_none.mp hsome
    rw [if_neg hsome, find_insertOrReplace]
    by_cases hk : k = key r
    · rw [if_pos hk, if_pos ⟨hk, hk ▸ hnone⟩]
    · rw [if_neg hk, if_neg fun h => hk h.1]

/-- A row with a new key goes behind the others. -/
theorem rows_insertOrReplace {t : Keyed key} {r : ρ} (h : t.find (key r) = none) :
    (t.insertOrReplace r).rows = t.rows ++ [r] := by
  show (t.rows.filter _) ++ [r] = _
  rw [List.filter_eq_self.mpr]
  intro r' hr'
  exact decide_eq_true (find_eq_none.mp h r' hr')

/-- A table of keys alone is a set. -/
theorem perm_insertOrIgnore {t : Keyed (id : κ → κ)} {keys : List κ}
    (h : keys.Perm t.rows) (k : κ) : (keys.insert k).Perm (t.insertOrIgnore k).rows := by
  unfold insertOrIgnore
  by_cases hk : k ∈ t.rows
  · rw [List.insert_of_mem (h.mem_iff.mpr hk),
      if_pos (Option.isSome_iff_exists.mpr ⟨k, find_of_mem hk⟩)]
    exact h
  · have hnone : t.find k = none := find_eq_none.mpr fun r hr heq => hk (heq ▸ hr)
    rw [List.insert_of_not_mem fun hmem => hk (h.mem_iff.mp hmem),
      if_neg (by rw [id, hnone]; exact Bool.false_ne_true), rows_insertOrReplace hnone]
    exact (h.cons k).trans (List.perm_append_singleton k t.rows).symm

end Keyed

/-! ## Values with a lifetime -/

/-- A value, and the instant from which on it is gone, if there is one. -/
structure Lease (α : Type) where
  value : α
  expiresAt : Option Nat
  deriving DecidableEq

namespace Lease

/-- Not gone yet: strictly before the instant. -/
def LiveAt (now : Nat) (l : Lease α) : Bool := l.expiresAt.all fun instant => now < instant

end Lease

/-- What is left of a value at `now`. -/
def live (now : Nat) (x : Option (Lease α)) : Option (Lease α) := x.filter (Lease.LiveAt now)

@[simp] theorem live_none (now : Nat) : live now (none : Option (Lease α)) = none := rfl

theorem live_eq_some {now : Nat} {x : Option (Lease α)} {l : Lease α} :
    live now x = some l ↔ x = some l ∧ l.LiveAt now = true := by
  rw [live, Option.filter_eq_some_iff]

/-- A value without an end stays. -/
@[simp] theorem live_forever (now : Nat) (a : α) : live now (some ⟨a, none⟩) = some ⟨a, none⟩ := rfl

theorem live_of_lt {now instant : Nat} (h : now < instant) (a : α) :
    live now (some ⟨a, some instant⟩) = some ⟨a, some instant⟩ := by
  rw [live_eq_some]
  exact ⟨rfl, decide_eq_true h⟩

theorem live_of_le {now instant : Nat} (h : instant ≤ now) (a : α) :
    live now (some ⟨a, some instant⟩) = none := by
  simp [live, Option.filter, Lease.LiveAt, h]

/-- What is left later is what is left of what was left before. -/
theorem live_live {now later : Nat} (h : now ≤ later) (x : Option (Lease α)) :
    live later (live now x) = live later x := by
  apply Option.ext
  intro l
  rw [live_eq_some, live_eq_some, live_eq_some]
  constructor
  · rintro ⟨⟨hx, -⟩, hl⟩
    exact ⟨hx, hl⟩
  · rintro ⟨hx, hl⟩
    refine ⟨⟨hx, ?_⟩, hl⟩
    rw [Lease.LiveAt, Option.all_eq_true_iff_get] at hl ⊢
    intro hsome
    have := of_decide_eq_true (hl hsome)
    exact decide_eq_true (by omega)

theorem live_congr {now later : Nat} (h : now ≤ later) {x y : Option (Lease α)}
    (hxy : live now x = live now y) : live later x = live later y := by
  rw [← live_live h x, hxy, live_live h y]

end P256Index
