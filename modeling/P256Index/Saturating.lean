import Mathlib.Algebra.Order.Floor.Div
import Mathlib.Order.Fin.Basic

/-!
# Saturating arithmetic

Words of a fixed size whose sums and products stop at the largest word, and when they are the true
ones.
-/

namespace P256Index.Saturating

variable {n : ℕ} [NeZero n] {a b : Fin n}

def add (a b : Fin n) : Fin n := ⟨min (a.val + b.val) (n - 1), by have := NeZero.pos n; omega⟩

def mul (a b : Fin n) : Fin n := ⟨min (a.val * b.val) (n - 1), by have := NeZero.pos n; omega⟩

theorem val_add (a b : Fin n) : (add a b).val = min (a.val + b.val) (n - 1) := rfl

theorem val_mul (a b : Fin n) : (mul a b).val = min (a.val * b.val) (n - 1) := rfl

theorem val_add_of_lt (h : a.val + b.val < n) : (add a b).val = a.val + b.val := by
  rw [val_add]
  omega

theorem val_mul_of_lt (h : a.val * b.val < n) : (mul a b).val = a.val * b.val := by
  rw [val_mul]
  exact min_eq_left (Nat.le_pred_of_lt h)

theorem le_add_left (a b : Fin n) : a ≤ add a b := by
  rw [Fin.le_def, val_add]
  have := a.isLt
  omega

/-- A bound below the largest word bounds the true sum. -/
theorem add_le_iff {c : Fin n} (hc : c.val + 1 < n) : add a b ≤ c ↔ a.val + b.val ≤ c.val := by
  rw [Fin.le_def, val_add]
  omega

end P256Index.Saturating
