import Mathlib.Data.Char

/-!
# UTF-16 code units

The code units a JavaScript string is made of, and the string a list of code units makes.
-/

set_option autoImplicit false

namespace Utf16

/-- The code units of a character. -/
def units (c : Char) : List Nat :=
  if c.toNat < 0x10000 then [c.toNat]
  else [0xD800 + (c.toNat - 0x10000) / 0x400, 0xDC00 + (c.toNat - 0x10000) % 0x400]

/-- The character of one code unit on its own.  A surrogate has none: it reads U+FFFD. -/
def ofUnit (u : Nat) : Char := if 0xD800 ≤ u ∧ u < 0xE000 then '\uFFFD' else Char.ofNat u

/-- The characters of a list of code units, a surrogate pair taken together. -/
def decode : List Nat → List Char
  | [] => []
  | [u] => [ofUnit u]
  | u :: v :: rest =>
    if 0xD800 ≤ u ∧ u < 0xDC00 ∧ 0xDC00 ≤ v ∧ v < 0xE000 then
      Char.ofNat (0x10000 + (u - 0xD800) * 0x400 + (v - 0xDC00)) :: decode rest
    else ofUnit u :: decode (v :: rest)

theorem decode_cons {u : Nat} (h : ¬ (0xD800 ≤ u ∧ u < 0xE000)) (rest : List Nat) :
    decode (u :: rest) = Char.ofNat u :: decode rest := by
  have hunit : ofUnit u = Char.ofNat u := if_neg h
  cases rest with
  | nil =>
    show [ofUnit u] = [Char.ofNat u]
    rw [hunit]
  | cons v rest =>
    rw [decode, if_neg (by omega), hunit]

/-- A character is no surrogate. -/
theorem not_surrogate (c : Char) : ¬ (0xD800 ≤ c.toNat ∧ c.toNat < 0xE000) := by
  have h : c.toNat < 0xD800 ∨ 0xDFFF < c.toNat ∧ c.toNat < 0x110000 := c.valid
  omega

/-- The code units of a character give it back. -/
theorem decode_units (c : Char) (rest : List Nat) : decode (units c ++ rest) = c :: decode rest := by
  rw [units]
  split_ifs with h
  · rw [List.singleton_append, decode_cons (not_surrogate c), Char.ofNat_toNat]
  · have hlt : c.toNat < 0x110000 := by
      have h : c.toNat < 0xD800 ∨ 0xDFFF < c.toNat ∧ c.toNat < 0x110000 := c.valid
      omega
    have hvalue : 0x10000 + (0xD800 + (c.toNat - 0x10000) / 0x400 - 0xD800) * 0x400 +
        (0xDC00 + (c.toNat - 0x10000) % 0x400 - 0xDC00) = c.toNat := by omega
    rw [List.cons_append, List.singleton_append, decode, if_pos (by omega), hvalue,
      Char.ofNat_toNat]

/-- The code units of a string give it back. -/
theorem decode_flatMap_units (cs : List Char) : decode (cs.flatMap units) = cs := by
  induction cs with
  | nil => rfl
  | cons c cs ih => rw [List.flatMap_cons, decode_units, ih]

end Utf16
