import Mathlib.Data.List.Basic
import Mathlib.Algebra.Order.Group.Nat
import Mathlib.Tactic

/-!
# Pages of a list

A list is read in windows of `limit` rows, from either end. `flatten_windows` is what makes paging
complete: the windows at `0, limit, 2 * limit, …` are the list again, with no row missing or
repeated.
-/

namespace P256Index

variable {α β : Type*}

/-- A list in the order it is read in. -/
def oriented (desc : Bool) (l : List α) : List α := if desc then l.reverse else l

/-- At most `limit` rows, after the first `offset`. -/
def window (l : List α) (offset limit : Nat) (desc : Bool) : List α :=
  ((oriented desc l).drop offset).take limit

@[simp] theorem length_oriented (desc : Bool) (l : List α) :
    (oriented desc l).length = l.length := by
  cases desc <;> simp [oriented]

theorem oriented_map (f : α → β) (desc : Bool) (l : List α) :
    oriented desc (l.map f) = (oriented desc l).map f := by
  cases desc <;> simp [oriented]

theorem window_map (f : α → β) (l : List α) (offset limit : Nat) (desc : Bool) :
    window (l.map f) offset limit desc = (window l offset limit desc).map f := by
  rw [window, oriented_map, ← List.map_drop, ← List.map_take, window]

theorem mem_of_mem_window {l : List α} {offset limit : Nat} {desc : Bool} {a : α}
    (h : a ∈ window l offset limit desc) : a ∈ l := by
  have hmem : a ∈ oriented desc l := List.mem_of_mem_drop (List.mem_of_mem_take h)
  cases desc
  · exact hmem
  · exact List.mem_reverse.mp hmem

theorem window_eq_nil {l : List α} {offset : Nat} (h : l.length ≤ offset) (limit : Nat)
    (desc : Bool) : window l offset limit desc = [] := by
  rw [window, List.drop_eq_nil_of_le (by rwa [length_oriented]), List.take_nil]

theorem getElem?_oriented {l : List α} {desc : Bool} {k : Nat} (h : k < l.length) :
    (oriented desc l)[k]? = l[if desc then l.length - 1 - k else k]? := by
  cases desc with
  | false => rfl
  | true => exact List.getElem?_reverse h

theorem length_window (l : List α) (offset limit : Nat) (desc : Bool) :
    (window l offset limit desc).length = min limit (l.length - offset) := by
  rw [window, List.length_take, List.length_drop, length_oriented]

/-- The first `n` windows are the first `n * limit` rows. -/
theorem flatten_windows_take (l : List α) (limit : Nat) (desc : Bool) (n : Nat) :
    ((List.range n).map fun k => window l (k * limit) limit desc).flatten =
      (oriented desc l).take (n * limit) := by
  induction n with
  | zero => simp
  | succ n ih =>
      rw [List.range_succ, List.map_append, List.flatten_append, ih, Nat.succ_mul, List.take_add]
      simp [window]

/-- How many windows a list has. -/
def pageCount (total limit : Nat) : Nat := (total + limit - 1) / limit

theorem le_pageCount_mul {total limit : Nat} (h : 0 < limit) :
    total ≤ pageCount total limit * limit := by
  have hdiv := Nat.div_add_mod (total + limit - 1) limit
  have hmod := Nat.mod_lt (total + limit - 1) h
  rw [pageCount, Nat.mul_comm]
  omega

/-- Every window starts inside the list. -/
theorem mul_lt_of_lt_pageCount {total limit k : Nat} (h : 0 < limit)
    (hk : k < pageCount total limit) : k * limit < total := by
  have hle : (k + 1) * limit ≤ total + limit - 1 :=
    (Nat.mul_le_mul_right limit hk).trans (Nat.div_mul_le_self _ _)
  rw [Nat.succ_mul] at hle
  omega

theorem flatten_windows (l : List α) {limit : Nat} (h : 0 < limit) (desc : Bool) :
    ((List.range (pageCount l.length limit)).map fun k => window l (k * limit) limit desc).flatten =
      oriented desc l := by
  rw [flatten_windows_take, List.take_of_length_le]
  rw [length_oriented]
  exact le_pageCount_mul h

end P256Index
