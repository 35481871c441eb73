/-
Where the estimate of the median lies.

Two of three numbers are at or below the middle one.  So of the three stretches that an
estimate is made from, two have an estimate at or below it, and with each level of the
recursion the count at or below the estimate doubles while the length triples.  The mean
of two numbers, at the bottom of the recursion, is not below the smaller one.  All of this
can be turned upside down, so it is said once for both sides (`Side`).

The bound on one side is what eviction rests on: some entries are at or below the line, and
the more rows a log has the more they are.  The bound on the other side keeps the line below
a number that is alone at the top (`approximateMedian_lt`).

Nor does the estimate leap.  If numbers are raised, by no more than `d` each, then it is
raised by no more than `d`, since that holds of the mean of two and of the middle one of
three (`Raised`).
-/
import SamplingProfiler.Median
import Mathlib.Algebra.Order.Ring.Nat
import Mathlib.Data.List.Forall2
import Mathlib.Tactic.SplitIfs

namespace SamplingProfiler

/-! ### Rank -/

/-- Two of three numbers are at or below the middle one. -/
theorem two_le_medianOfThree (a b c : Nat) :
    let m := medianOfThree a b c
    (a ≤ m ∧ b ≤ m) ∨ (a ≤ m ∧ c ≤ m) ∨ (b ≤ m ∧ c ≤ m) := by
  unfold medianOfThree
  dsimp only
  split <;> split <;> (try split) <;> omega

/-- Two of three numbers are at or above the middle one. -/
theorem medianOfThree_le_two (a b c : Nat) :
    let m := medianOfThree a b c
    (a ≥ m ∧ b ≥ m) ∨ (a ≥ m ∧ c ≥ m) ∨ (b ≥ m ∧ c ≥ m) := by
  unfold medianOfThree
  dsimp only
  split <;> split <;> (try split) <;> omega

/-- A side of an estimate that numbers can be on: at or below it, or at or above it. -/
structure Side (side : Nat → Nat → Prop) : Prop where
  refl : ∀ w, side w w
  trans : ∀ {w m m' : Nat}, side w m → side m m' → side w m'
  mean : ∀ a b, side a ((a + b) / 2) ∨ side b ((a + b) / 2)
  middle : ∀ a b c, let m := medianOfThree a b c
    (side a m ∧ side b m) ∨ (side a m ∧ side c m) ∨ (side b m ∧ side c m)

theorem side_le : Side (· ≤ ·) where
  refl := Nat.le_refl
  trans := Nat.le_trans
  mean a b := by omega
  middle := two_le_medianOfThree

theorem side_ge : Side (· ≥ ·) where
  refl := Nat.le_refl
  trans h h' := Nat.le_trans h' h
  mean a b := by omega
  middle := medianOfThree_le_two

section

variable {side : Nat → Nat → Prop} [DecidableRel side]

private theorem Side.countP_mono (hside : Side side) (weights : List Nat) {m m' : Nat}
    (h : side m m') : weights.countP (side · m) ≤ weights.countP (side · m') := by
  refine List.countP_mono_left fun w _ hw => ?_
  rw [decide_eq_true_eq] at hw ⊢
  exact hside.trans hw h

/-- A list is its three stretches. -/
private theorem stretches (weights : List Nat) (third : Nat) :
    weights = weights.take third
      ++ ((weights.drop third).take third ++ weights.drop (2 * third)) := by
  rw [Nat.two_mul, ← List.drop_drop, List.take_append_drop, List.take_append_drop]

/-- Of three stretches of a list, two that have enough numbers on a side of an estimate of
their own have twice as many on that side of the estimate for the list. -/
private theorem Side.two_mul_le_countP (hside : Side side) {weights : List Nat}
    {third n a b c : Nat} (ha : n ≤ (weights.take third).countP (side · a))
    (hb : n ≤ ((weights.drop third).take third).countP (side · b))
    (hc : n ≤ (weights.drop (2 * third)).countP (side · c)) :
    2 * n ≤ weights.countP (side · (medianOfThree a b c)) := by
  rw [stretches weights third, List.countP_append, List.countP_append]
  rcases hside.middle a b c with ⟨h, h'⟩ | ⟨h, h'⟩ | ⟨h, h'⟩
  · have := Nat.le_trans ha (hside.countP_mono _ h)
    have := Nat.le_trans hb (hside.countP_mono _ h')
    omega
  · have := Nat.le_trans ha (hside.countP_mono _ h)
    have := Nat.le_trans hc (hside.countP_mono _ h')
    omega
  · have := Nat.le_trans hb (hside.countP_mono _ h)
    have := Nat.le_trans hc (hside.countP_mono _ h')
    omega

/-- Of `3 ^ k` numbers or more, at least `2 ^ k` are on either side of the estimate. -/
private theorem Side.pow_le_countP (hside : Side side) (k : Nat) (weights : List Nat)
    (h : 3 ^ k ≤ weights.length) :
    2 ^ k ≤ weights.countP (side · (approximateMedian weights)) := by
  have hsmall : ∀ {k : Nat}, 3 ^ k ≤ 2 → k = 0 := by
    intro k hk
    by_contra hne
    have := Nat.pow_le_pow_right (n := 3) (by omega) (Nat.one_le_iff_ne_zero.mpr hne)
    omega
  fun_induction approximateMedian weights generalizing k with
  | case1 => exact absurd h (Nat.not_le.mpr (Nat.pow_pos (by omega)))
  | case2 only =>
      have hk := hsmall (Nat.le_trans h (by simp))
      simp [hk, hside.refl]
  | case3 a b =>
      have hk := hsmall (Nat.le_trans h (by simp))
      rcases hside.mean a b with hmean | hmean
      · simp [hk, hmean]
      · simp [hk, hmean, List.countP_cons]
  | case4 a b c rest weights third ih₁ ih₂ ih₃ =>
      change 3 ^ k ≤ weights.length at h
      have hlen : weights.length = rest.length + 3 := rfl
      have hthird : third = weights.length / 3 := rfl
      -- Each stretch has a third of the length, which is a power of three less.
      have hshare : 3 ^ (k - 1) ≤ third := by
        cases k with
        | zero => simp; omega
        | succ k =>
            rw [Nat.pow_succ] at h
            rw [Nat.add_sub_cancel]
            generalize 3 ^ k = n at h ⊢
            omega
      have hdouble : 2 ^ k ≤ 2 * 2 ^ (k - 1) := by
        cases k with
        | zero => simp
        | succ k => rw [Nat.pow_succ, Nat.add_sub_cancel, Nat.mul_comm]
      refine Nat.le_trans hdouble (hside.two_mul_le_countP (ih₁ _ ?_) (ih₂ _ ?_) (ih₃ _ ?_))
      · rw [List.length_take]; omega
      · rw [List.length_take, List.length_drop]; omega
      · rw [List.length_drop]; omega

end

/-- Of `3 ^ k` numbers or more, at least `2 ^ k` are at or below the estimate. -/
theorem pow_le_countP_approximateMedian (k : Nat) (weights : List Nat)
    (h : 3 ^ k ≤ weights.length) :
    2 ^ k ≤ weights.countP (· ≤ approximateMedian weights) :=
  side_le.pow_le_countP k weights h

/-- At least `2 ^ k` are at or above it. -/
theorem pow_le_countP_approximateMedian_le (k : Nat) (weights : List Nat)
    (h : 3 ^ k ≤ weights.length) :
    2 ^ k ≤ weights.countP (approximateMedian weights ≤ ·) :=
  side_ge.pow_le_countP k weights h

/-! ### Bounds

These are the counts at their smallest.  With `k = 0`, some number is on either side.  With
`k = 1`, two are at or above the estimate, which is one more than a number alone at the top.
-/

/-- Some number is at or below the estimate. -/
theorem exists_le_approximateMedian (weights : List Nat) (h : weights ≠ []) :
    ∃ w ∈ weights, w ≤ approximateMedian weights := by
  have hcount := pow_le_countP_approximateMedian 0 weights (List.length_pos_iff.mpr h)
  obtain ⟨w, hw, hle⟩ := List.countP_pos_iff.mp hcount
  exact ⟨w, hw, of_decide_eq_true hle⟩

/-- Some number is at or above the estimate. -/
theorem exists_ge_approximateMedian (weights : List Nat) (h : weights ≠ []) :
    ∃ w ∈ weights, approximateMedian weights ≤ w := by
  have hcount := pow_le_countP_approximateMedian_le 0 weights (List.length_pos_iff.mpr h)
  obtain ⟨w, hw, hle⟩ := List.countP_pos_iff.mp hcount
  exact ⟨w, hw, of_decide_eq_true hle⟩

/-- The estimate is below a number that is above all others, if there are others.  Of three
numbers or more, two are at or above the estimate. -/
theorem approximateMedian_lt {before after : List Nat} {top : Nat}
    (hothers : ∀ w ∈ before ++ after, w < top) (hsome : before ++ after ≠ []) :
    approximateMedian (before ++ top :: after) < top := by
  have hlength : (before ++ top :: after).length = (before ++ after).length + 1 := by
    simp only [List.length_append, List.length_cons]
    omega
  have hone : (before ++ top :: after).countP (top ≤ ·) = 1 := by
    have hnone : (before ++ after).countP (top ≤ ·) = 0 :=
      List.countP_eq_zero.mpr fun w hw => by simpa using hothers w hw
    rw [List.countP_append] at hnone
    rw [List.countP_append, List.countP_cons, decide_eq_true (Nat.le_refl top), if_pos rfl]
    omega
  by_cases hpair : (before ++ after).length = 1
  · obtain ⟨w, hw⟩ := List.length_eq_one_iff.mp hpair
    have hlt : w < top := hothers w (by rw [hw]; exact List.mem_cons_self)
    rcases List.append_eq_singleton_iff.mp hw with ⟨rfl, rfl⟩ | ⟨rfl, rfl⟩
    · simp only [List.nil_append, approximateMedian]
      omega
    · simp only [List.cons_append, List.nil_append, approximateMedian]
      omega
  · by_contra hge
    have := List.length_pos_iff.mpr hsome
    have htwo := pow_le_countP_approximateMedian_le 1 (before ++ top :: after) (by omega)
    have hmono := side_ge.countP_mono (before ++ top :: after) (Nat.not_lt.mp hge)
    change List.countP (approximateMedian (before ++ top :: after) ≤ ·) _
      ≤ List.countP (top ≤ ·) _ at hmono
    omega

/-! ### Raising

A list is split by its length alone, so raised numbers are estimated by the same steps as the ones
they were raised from.  It is enough to look at one mean and at one middle of three.
-/

/-- A number is raised, by no more than `d`. -/
def Raised (d a b : Nat) : Prop := a ≤ b ∧ b ≤ a + d

theorem Raised.mean {d a b a' b' : Nat} (ha : Raised d a a') (hb : Raised d b b') :
    Raised d ((a + b) / 2) ((a' + b') / 2) := by
  unfold Raised at *
  omega

theorem Raised.middle {d a b c a' b' c' : Nat} (ha : Raised d a a') (hb : Raised d b b')
    (hc : Raised d c c') : Raised d (medianOfThree a b c) (medianOfThree a' b' c') := by
  unfold Raised at *
  unfold medianOfThree
  split_ifs <;> omega

/-- If numbers are raised by no more than `d` each, so is the estimate. -/
theorem Raised.estimate {d : Nat} {weights weights' : List Nat}
    (h : List.Forall₂ (Raised d) weights weights') :
    Raised d (approximateMedian weights) (approximateMedian weights') := by
  fun_induction approximateMedian weights generalizing weights' with
  | case1 =>
      cases h
      exact ⟨Nat.zero_le _, by rw [approximateMedian]; omega⟩
  | case2 only =>
      cases h with
      | cons honly hrest =>
          cases hrest
          rw [approximateMedian]
          exact honly
  | case3 a b =>
      cases h with
      | cons ha hrest =>
          cases hrest with
          | cons hb hrest =>
              cases hrest
              rw [approximateMedian]
              exact ha.mean hb
  | case4 a b c rest weights third ih₁ ih₂ =>
      rename_i ih₃
      have hlength : weights'.length / 3 = third := by rw [← h.length_eq]
      have h₁ := ih₁ (List.forall₂_take third h)
      have h₂ := ih₂ (List.forall₂_take third (List.forall₂_drop third h))
      have h₃ := ih₃ (List.forall₂_drop (2 * third) h)
      cases h with
      | cons ha hrest =>
          cases hrest with
          | cons hb hrest =>
              cases hrest with
              | cons hc hrest =>
                  rw [approximateMedian, hlength]
                  exact h₁.middle h₂ h₃

/-- If one number is raised by `d`, the others are raised by nothing. -/
theorem forall₂_raised_modify (weights : List Nat) (i d : Nat) :
    List.Forall₂ (Raised d) weights (weights.modify i (· + d)) := by
  refine List.forall₂_iff_get.mpr ⟨(List.length_modify ..).symm, fun j hj hj' => ?_⟩
  rw [List.get_eq_getElem, List.get_eq_getElem, List.getElem_modify]
  unfold Raised
  split <;> omega

end SamplingProfiler
