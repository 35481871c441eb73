/-
Weights: how much an entry of a profile counts.

A weight is a number of milliseconds or of bytes that fits 64 bits.  Sums of weights
stop at the largest such number instead of wrapping around, so a profile that runs for
too long reports "at least this much" and never a small number.  Because the stop is at
the top, the order in which weights are added does not matter: a saturating sum is the
true sum, cut off once.
-/

namespace SamplingProfiler

/-- The largest number that fits 64 bits. -/
def maxWord : Nat := 0xFFFFFFFFFFFFFFFF

/-- An amount of milliseconds or bytes that fits 64 bits. -/
structure Weight where
  /-- The amount. -/
  val : Nat
  /-- It fits 64 bits. -/
  val_le : val ≤ maxWord
deriving DecidableEq

namespace Weight

/-- The weight of `n`, or the largest weight if `n` does not fit. -/
def ofNat (n : Nat) : Weight := ⟨min n maxWord, Nat.min_le_right n maxWord⟩

instance : Inhabited Weight := ⟨ofNat 0⟩

instance : Zero Weight := ⟨ofNat 0⟩

/-- Addition stops at the largest weight. -/
instance : Add Weight := ⟨fun a b => ofNat (a.val + b.val)⟩

/-- The saturating sum of a list. -/
def sum (ws : List Weight) : Weight := ws.foldl (· + ·) 0

@[ext] theorem ext {a b : Weight} (h : a.val = b.val) : a = b := by
  cases a; cases b; cases h; rfl

@[simp] theorem val_ofNat (n : Nat) : (ofNat n).val = min n maxWord := rfl

@[simp] theorem val_zero : (0 : Weight).val = 0 := rfl

@[simp] theorem val_add (a b : Weight) : (a + b).val = min (a.val + b.val) maxWord := rfl

theorem ofNat_val (a : Weight) : ofNat a.val = a := by
  ext
  have := a.val_le
  simp only [val_ofNat]
  omega

end Weight

end SamplingProfiler
