import Mathlib.Data.Nat.Log
import Mathlib.Tactic.Linarith

/-!
# Natural numbers as doubles

A natural number as the nearest double, ties to even: 53 bits are kept, and what is too large is
infinite.  Rounding keeps the order (`rounded_mono`), but not that two numbers differ.
-/

set_option autoImplicit false

namespace Binary64

/-- `n / 2 ^ e`, to the nearest, ties to even. -/
def roundShift (n e : ℕ) : ℕ :=
  let q := n / 2 ^ e
  let r := n % 2 ^ e
  if 2 * r < 2 ^ e ∨ 2 * r = 2 ^ e ∧ q % 2 = 0 then q else q + 1

/-- To 53 bits. -/
def rounded (n : ℕ) : ℕ := roundShift n (n.log2 - 52) * 2 ^ (n.log2 - 52)

/-- The doubles that are no fractions and not below 0. -/
inductive Double where
  | finite (n : ℕ)
  | infinity
  | nan
deriving DecidableEq

/-- The nearest double. -/
def ofNat (n : ℕ) : Double := if rounded n < 2 ^ 1024 then .finite (rounded n) else .infinity

/-- Whether two doubles are equal, as `NaN` is not even to itself. -/
def same (x y : Double) : Bool := x != .nan && x == y

/-- How the difference of two doubles compares with 0: not at all where it is `NaN`. -/
def subSign : Double → Double → Option Ordering
  | .finite x, .finite y => some (compare x y)
  | .finite _, .infinity => some .lt
  | .infinity, .finite _ => some .gt
  | _, _ => none

variable {m n e : ℕ}

theorem div_le_roundShift : n / 2 ^ e ≤ roundShift n e ∧ roundShift n e ≤ n / 2 ^ e + 1 := by
  simp only [roundShift]
  split_ifs
  · exact ⟨le_rfl, Nat.le_succ _⟩
  · exact ⟨Nat.le_succ _, le_rfl⟩

theorem roundShift_mono (h : m ≤ n) : roundShift m e ≤ roundShift n e := by
  rcases Nat.eq_or_lt_of_le (Nat.div_le_div_right (c := 2 ^ e) h) with hq | hq
  · have hm := Nat.div_add_mod m (2 ^ e)
    have hn := Nat.div_add_mod n (2 ^ e)
    rw [hq] at hm
    have hr : m % 2 ^ e ≤ n % 2 ^ e := by omega
    simp only [roundShift, hq]
    split_ifs with h₁ h₂ h₂
    · exact le_rfl
    · exact Nat.le_succ _
    · omega
    · exact le_rfl
  · exact div_le_roundShift.2.trans (Nat.le_trans hq div_le_roundShift.1)

/-- Rounding keeps the order. -/
theorem rounded_mono (h : m ≤ n) : rounded m ≤ rounded n := by
  rcases Nat.eq_zero_or_pos m with rfl | hm
  · exact Nat.zero_le _
  have hlog : m.log2 ≤ n.log2 := by
    rw [Nat.le_log2 (by omega)]
    exact (Nat.log2_self_le hm.ne').trans h
  rcases Nat.eq_or_lt_of_le (Nat.sub_le_sub_right hlog 52) with he | he
  · rw [rounded, rounded, he]
    exact Nat.mul_le_mul_right _ (roundShift_mono h)
  · -- The one keeps at least 52 bits above its exponent, the other at most 53 below that.
    have hn : 2 ^ 52 ≤ roundShift n (n.log2 - 52) := by
      refine le_trans ?_ div_le_roundShift.1
      rw [Nat.le_div_iff_mul_le (Nat.two_pow_pos _), ← pow_add,
        show 52 + (n.log2 - 52) = n.log2 by omega]
      exact Nat.log2_self_le (by omega)
    have hm' : roundShift m (m.log2 - 52) ≤ 2 ^ 53 := by
      refine div_le_roundShift.2.trans ?_
      rw [Nat.succ_le_iff, Nat.div_lt_iff_lt_mul (Nat.two_pow_pos _), ← pow_add]
      refine lt_of_lt_of_le (Nat.lt_log2_self (n := m)) ?_
      exact Nat.pow_le_pow_right (by decide) (by omega)
    calc rounded m ≤ 2 ^ 53 * 2 ^ (m.log2 - 52) := Nat.mul_le_mul_right _ hm'
      _ = 2 ^ 52 * 2 ^ (m.log2 - 52 + 1) := by rw [← pow_add, ← pow_add]; congr 1; omega
      _ ≤ 2 ^ 52 * 2 ^ (n.log2 - 52) := Nat.mul_le_mul_left _ (Nat.pow_le_pow_right (by decide) he)
      _ ≤ rounded n := Nat.mul_le_mul_right _ hn

theorem ofNat_ne_nan : ofNat n ≠ .nan := by
  rw [ofNat]
  split_ifs <;> exact Double.noConfusion

@[simp]
theorem same_ofNat : same (ofNat m) (ofNat n) = true ↔ ofNat m = ofNat n := by
  simp [same, ofNat_ne_nan]

/-- The difference of two doubles that are not the same has the sign of the difference of the
numbers. -/
theorem subSign_of_ne (h : ofNat m ≠ ofNat n) : subSign (ofNat m) (ofNat n) = some (compare m n) := by
  have hne : m ≠ n := fun heq ↦ h (congrArg ofNat heq)
  simp only [ofNat] at h ⊢
  rcases Nat.lt_or_gt_of_ne hne with hlt | hgt
  · have hmono := rounded_mono hlt.le
    rw [Nat.compare_eq_lt.mpr hlt]
    split_ifs at h ⊢
    · have hrounded : rounded m ≠ rounded n := fun heq ↦ h (congrArg Double.finite heq)
      exact congrArg some (Nat.compare_eq_lt.mpr (lt_of_le_of_ne hmono hrounded))
    · rfl
    · omega
    · exact absurd rfl h
  · have hmono := rounded_mono hgt.le
    rw [Nat.compare_eq_gt.mpr hgt]
    split_ifs at h ⊢
    · have hrounded : rounded n ≠ rounded m := fun heq ↦ h (congrArg Double.finite heq.symm)
      exact congrArg some (Nat.compare_eq_gt.mpr (lt_of_le_of_ne hmono hrounded))
    · omega
    · rfl
    · exact absurd rfl h

theorem subSign_self : subSign (ofNat n) (ofNat n) = some .eq ↔ ofNat n ≠ .infinity := by
  rw [ofNat]
  split_ifs
  · simp [subSign]
  · simp [subSign]

end Binary64
