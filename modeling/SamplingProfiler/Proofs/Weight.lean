/-
Saturating sums.

Since adding stops at the top, it does not matter how often it does: a saturating sum is the
true sum, cut off once (`Weight.val_sum`).
-/
import Mathlib.Algebra.Order.Ring.Nat
import SamplingProfiler.Weight

namespace SamplingProfiler

namespace Weight

@[simp] theorem ofNat_zero : ofNat 0 = 0 := rfl

@[simp] theorem add_zero (a : Weight) : a + 0 = a := by
  ext
  have := a.val_le
  simp only [val_add, val_zero]
  omega

/-- An amount may be added in two parts. -/
theorem add_ofNat_add (a : Weight) (m n : Nat) : a + ofNat (m + n) = a + ofNat m + ofNat n := by
  ext
  simp only [val_add, val_ofNat]
  omega

theorem le_add (a b : Weight) : a.val ≤ (a + b).val := by
  have := a.val_le
  simp only [val_add]
  omega

theorem sum_concat (ws : List Weight) (w : Weight) : sum (ws ++ [w]) = sum ws + w := by
  unfold sum
  rw [List.foldl_append]
  rfl

private theorem val_foldl_add (ws : List Weight) (a : Weight) :
    (ws.foldl (· + ·) a).val = min (a.val + (ws.map val).sum) maxWord := by
  induction ws generalizing a with
  | nil =>
    have := a.val_le
    simp only [List.foldl_nil, List.map_nil, List.sum_nil]
    omega
  | cons w rest ih =>
    simp only [List.foldl_cons, ih, val_add, List.map_cons, List.sum_cons]
    omega

/-- A saturating sum is the true sum, cut off once. -/
theorem val_sum (ws : List Weight) : (sum ws).val = min (ws.map val).sum maxWord := by
  simp [sum, val_foldl_add]

end Weight

end SamplingProfiler
