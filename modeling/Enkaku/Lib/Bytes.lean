import Mathlib.Algebra.Order.Ring.Nat
import Mathlib.Data.UInt

/-!
# Bytes and 32-bit words

Strings of bytes, the words of 32 bits in them, least significant byte first, and numbers of any
width, most significant byte first.
-/

set_option autoImplicit false

abbrev Bytes := List UInt8

namespace Bytes

/-- A word, of which 32 bits are written. -/
def le32 (n : Nat) : Bytes :=
  [UInt8.ofNat n, UInt8.ofNat (n / 256), UInt8.ofNat (n / 65536), UInt8.ofNat (n / 16777216)]

/-- The word some bytes start with. -/
def ofLe32 : Bytes → Nat
  | b₀ :: b₁ :: b₂ :: b₃ :: _ =>
    b₀.toNat + 256 * b₁.toNat + 65536 * b₂.toNat + 16777216 * b₃.toNat
  | _ => 0

@[simp] theorem length_le32 (n : Nat) : (le32 n).length = 4 := rfl

theorem ofLe32_le32_append (n : Nat) (rest : Bytes) : ofLe32 (le32 n ++ rest) = n % 2 ^ 32 := by
  show (UInt8.ofNat n).toNat + 256 * (UInt8.ofNat (n / 256)).toNat +
    65536 * (UInt8.ofNat (n / 65536)).toNat + 16777216 * (UInt8.ofNat (n / 16777216)).toNat = _
  simp only [UInt8.toNat_ofNat']
  omega

theorem ofLe32_le32 {n : Nat} (h : n < 2 ^ 32) (rest : Bytes) : ofLe32 (le32 n ++ rest) = n := by
  rw [ofLe32_le32_append, Nat.mod_eq_of_lt h]

/-- What stands behind a whole word has no say in it. -/
theorem ofLe32_append {bs : Bytes} (h : 4 ≤ bs.length) (rest : Bytes) :
    ofLe32 (bs ++ rest) = ofLe32 bs := by
  match bs with
  | _ :: _ :: _ :: _ :: _ => rfl
  | [] | [_] | [_, _] | [_, _, _] => simp at h

theorem ofLe32_lt (bs : Bytes) : ofLe32 bs < 2 ^ 32 := by
  match bs with
  | b₀ :: b₁ :: b₂ :: b₃ :: _ =>
    have h₀ := b₀.toNat_lt
    have h₁ := b₁.toNat_lt
    have h₂ := b₂.toNat_lt
    have h₃ := b₃.toNat_lt
    rw [ofLe32]
    omega
  | [] | [_] | [_, _] | [_, _, _] => exact Nat.two_pow_pos 32

/-! ## Most significant byte first -/

/-- A number in so many bytes. -/
def be : Nat → Nat → Bytes
  | 0, _ => []
  | width + 1, n => be width (n / 256) ++ [UInt8.ofNat n]

/-- The number some bytes are. -/
def ofBe (bs : Bytes) : Nat := bs.foldl (fun n b ↦ 256 * n + b.toNat) 0

@[simp] theorem length_be (width n : Nat) : (be width n).length = width := by
  induction width generalizing n with
  | zero => rfl
  | succ width ih => rw [be, List.length_append, ih, List.length_singleton]

theorem ofBe_be {width n : Nat} (h : n < 256 ^ width) : ofBe (be width n) = n := by
  induction width generalizing n with
  | zero =>
    rw [pow_zero] at h
    exact (Nat.lt_one_iff.mp h).symm
  | succ width ih =>
    have hdiv : n / 256 < 256 ^ width := Nat.div_lt_of_lt_mul (by rwa [pow_succ'] at h)
    have hrest : ofBe (be width (n / 256)) = n / 256 := ih hdiv
    rw [ofBe] at hrest
    rw [ofBe, be, List.foldl_append, hrest, List.foldl_cons, List.foldl_nil, UInt8.toNat_ofNat']
    omega

end Bytes
