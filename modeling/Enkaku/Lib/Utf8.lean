import Enkaku.Lib.Bytes

/-!
# UTF-8, written and read

Text as bytes, and bytes as text the way a decoder that does not fail reads them: what is not UTF-8
becomes U+FFFD, and a byte-order mark in front is dropped.  A decoder goes through the bytes one at
a time; `State` is where it stands inside a character.

Text is read back as it was written (`decode_encode`), unless it starts with that mark.
-/

set_option autoImplicit false

namespace Utf8

/-- The bytes of a text. -/
def encode (s : String) : Bytes := s.toList.flatMap String.utf8EncodeChar

/-- How many bytes of a character are still to come, between which bounds the next of them lies, and
the bits there are. -/
structure State where
  needed : Nat := 0
  lower : Nat := 0x80
  upper : Nat := 0xBF
  codePoint : Nat := 0
  deriving DecidableEq, Repr

/-- U+FFFD. -/
def replacement : Char := '\uFFFD'

/-- U+FEFF. -/
def byteOrderMark : Char := '\uFEFF'

/-- The first byte of a character. -/
def lead (b : UInt8) : State × List Char :=
  let n := b.toNat
  if n ≤ 0x7F then ({}, [Char.ofNat n])
  else if 0xC2 ≤ n ∧ n ≤ 0xDF then ({ needed := 1, codePoint := n % 32 }, [])
  else if 0xE0 ≤ n ∧ n ≤ 0xEF then
    ({ needed := 2, lower := if n = 0xE0 then 0xA0 else 0x80,
       upper := if n = 0xED then 0x9F else 0xBF, codePoint := n % 16 }, [])
  else if 0xF0 ≤ n ∧ n ≤ 0xF4 then
    ({ needed := 3, lower := if n = 0xF0 then 0x90 else 0x80,
       upper := if n = 0xF4 then 0x8F else 0xBF, codePoint := n % 8 }, [])
  else ({}, [replacement])

/-- One byte, and the characters it completes.  A byte that cannot go on with a character starts the
next one. -/
def next (s : State) (b : UInt8) : State × List Char :=
  if s.needed = 0 then lead b
  else if b.toNat < s.lower ∨ s.upper < b.toNat then ((lead b).1, replacement :: (lead b).2)
  else
    let codePoint := s.codePoint * 64 + b.toNat % 64
    if s.needed = 1 then ({}, [Char.ofNat codePoint])
    else ({ needed := s.needed - 1, codePoint := codePoint }, [])

/-- The characters that are left. -/
def decodeFrom : State → Bytes → List Char
  | s, [] => if s.needed = 0 then [] else [replacement]
  | s, b :: rest => (next s b).2 ++ decodeFrom (next s b).1 rest

/-- The text of some bytes. -/
def decode : Bytes → String
  | 0xEF :: 0xBB :: 0xBF :: rest => String.ofList (decodeFrom {} rest)
  | bytes => String.ofList (decodeFrom {} bytes)

/-! ## What is written is read back -/

theorem encode_append (s t : String) : encode (s ++ t) = encode s ++ encode t := by
  rw [encode, String.toList_append, List.flatMap_append]
  rfl

variable {n : Nat}

/-- A byte below 256. -/
theorem toNat_ofNat (h : n < 256) : (UInt8.ofNat n).toNat = n := by
  rw [UInt8.toNat_ofNat', Nat.mod_eq_of_lt h]

/-- A byte inside a character holds six bits. -/
theorem toNat_tail (n : Nat) : (UInt8.ofNat (n % 0x40 + 0x80)).toNat = n % 64 + 128 :=
  toNat_ofNat (by omega)

/-- A byte inside a character, when it is not the last. -/
theorem decodeFrom_tail {needed lower upper codePoint : Nat} (hneeded : 1 < needed)
    (hlower : lower ≤ n % 64 + 128) (hupper : n % 64 + 128 ≤ upper) (rest : Bytes) :
    decodeFrom ⟨needed, lower, upper, codePoint⟩ (UInt8.ofNat (n % 0x40 + 0x80) :: rest) =
      decodeFrom ⟨needed - 1, 0x80, 0xBF, codePoint * 64 + n % 64⟩ rest := by
  have hnext : next ⟨needed, lower, upper, codePoint⟩ (UInt8.ofNat (n % 0x40 + 0x80)) =
      (⟨needed - 1, 0x80, 0xBF, codePoint * 64 + n % 64⟩, []) := by
    simp only [next, toNat_tail]
    rw [if_neg (by omega), if_neg (by omega), if_neg (by omega),
      show (n % 64 + 128) % 64 = n % 64 by omega]
  rw [decodeFrom, hnext, List.nil_append]

/-- The last byte of a character. -/
theorem decodeFrom_last {lower upper codePoint : Nat} (hlower : lower ≤ n % 64 + 128)
    (hupper : n % 64 + 128 ≤ upper) (rest : Bytes) :
    decodeFrom ⟨1, lower, upper, codePoint⟩ (UInt8.ofNat (n % 0x40 + 0x80) :: rest) =
      Char.ofNat (codePoint * 64 + n % 64) :: decodeFrom {} rest := by
  have hnext : next ⟨1, lower, upper, codePoint⟩ (UInt8.ofNat (n % 0x40 + 0x80)) =
      ({}, [Char.ofNat (codePoint * 64 + n % 64)]) := by
    simp only [next, toNat_tail]
    rw [if_neg (by omega), if_neg (by omega), if_pos trivial,
      show (n % 64 + 128) % 64 = n % 64 by omega]
  rw [decodeFrom, hnext, List.singleton_append]

/-- The first of one byte. -/
theorem decodeFrom_one (h : n ≤ 0x7F) (rest : Bytes) :
    decodeFrom {} (UInt8.ofNat n :: rest) = Char.ofNat n :: decodeFrom {} rest := by
  have hnext : next {} (UInt8.ofNat n) = ({}, [Char.ofNat n]) := by
    simp only [next, lead, toNat_ofNat (show n < 256 by omega)]
    rw [if_pos trivial, if_pos h]
  rw [decodeFrom, hnext, List.singleton_append]

/-- The first of two bytes. -/
theorem decodeFrom_two (h : 2 ≤ n) (h' : n < 32) (rest : Bytes) :
    decodeFrom {} (UInt8.ofNat (n % 0x20 + 0xC0) :: rest) =
      decodeFrom ⟨1, 0x80, 0xBF, n⟩ rest := by
  have hnext : next {} (UInt8.ofNat (n % 0x20 + 0xC0)) = (⟨1, 0x80, 0xBF, n⟩, []) := by
    simp only [next, lead, toNat_ofNat (show n % 0x20 + 0xC0 < 256 by omega)]
    rw [if_pos trivial, if_neg (by omega), if_pos (by omega),
      show (n % 0x20 + 0xC0) % 32 = n by omega]
  rw [decodeFrom, hnext, List.nil_append]

/-- The first of three bytes; the bounds keep out what fits in two, and the surrogates. -/
theorem decodeFrom_three (h : n < 16) (rest : Bytes) :
    decodeFrom {} (UInt8.ofNat (n % 0x10 + 0xE0) :: rest) =
      decodeFrom ⟨2, if n = 0 then 0xA0 else 0x80, if n = 0xD then 0x9F else 0xBF, n⟩ rest := by
  have hnext : next {} (UInt8.ofNat (n % 0x10 + 0xE0)) =
      (⟨2, if n = 0 then 0xA0 else 0x80, if n = 0xD then 0x9F else 0xBF, n⟩, []) := by
    simp only [next, lead, toNat_ofNat (show n % 0x10 + 0xE0 < 256 by omega)]
    rw [if_pos trivial, if_neg (by omega), if_neg (by omega), if_pos (by omega),
      show (n % 0x10 + 0xE0) % 16 = n by omega]
    congr 2
    · exact if_congr (by omega) rfl rfl
    · exact if_congr (by omega) rfl rfl
  rw [decodeFrom, hnext, List.nil_append]

/-- The first of four bytes; the bounds keep out what fits in three, and what is not Unicode. -/
theorem decodeFrom_four (h : n ≤ 4) (rest : Bytes) :
    decodeFrom {} (UInt8.ofNat (n % 0x08 + 0xF0) :: rest) =
      decodeFrom ⟨3, if n = 0 then 0x90 else 0x80, if n = 4 then 0x8F else 0xBF, n⟩ rest := by
  have hnext : next {} (UInt8.ofNat (n % 0x08 + 0xF0)) =
      (⟨3, if n = 0 then 0x90 else 0x80, if n = 4 then 0x8F else 0xBF, n⟩, []) := by
    simp only [next, lead, toNat_ofNat (show n % 0x08 + 0xF0 < 256 by omega)]
    rw [if_pos trivial, if_neg (by omega), if_neg (by omega), if_neg (by omega), if_pos (by omega),
      show (n % 0x08 + 0xF0) % 8 = n by omega]
    congr 2
    · exact if_congr (by omega) rfl rfl
    · exact if_congr (by omega) rfl rfl
  rw [decodeFrom, hnext, List.nil_append]

/-- **A character is read back as it was written.** -/
theorem decodeFrom_encodeChar (c : Char) (rest : Bytes) :
    decodeFrom {} (String.utf8EncodeChar c ++ rest) = c :: decodeFrom {} rest := by
  have hvalid : c.toNat < 0xD800 ∨ 0xDFFF < c.toNat ∧ c.toNat < 0x110000 := c.valid
  have hback : ∀ n, n = c.toNat → Char.ofNat n = c := by
    rintro _ rfl
    exact c.ofNat_toNat
  rw [String.utf8EncodeChar, show c.val.toNat = c.toNat from rfl]
  split_ifs with h₁ h₂ h₃
  · rw [List.singleton_append, decodeFrom_one h₁, hback _ rfl]
  · rw [List.cons_append, List.singleton_append, decodeFrom_two (by omega) (by omega),
      decodeFrom_last (by omega) (by omega), hback _ (by omega)]
  · rw [List.cons_append, List.cons_append, List.singleton_append, decodeFrom_three (by omega),
      decodeFrom_tail (by decide) (by split_ifs <;> omega) (by split_ifs <;> omega),
      decodeFrom_last (by omega) (by omega), hback _ (by omega)]
  · rw [List.cons_append, List.cons_append, List.cons_append, List.singleton_append,
      decodeFrom_four (by omega),
      decodeFrom_tail (by decide) (by split_ifs <;> omega) (by split_ifs <;> omega),
      decodeFrom_tail (by decide) (by omega) (by omega),
      decodeFrom_last (by omega) (by omega), hback _ (by omega)]

theorem decodeFrom_encode (cs : List Char) : decodeFrom {} (cs.flatMap String.utf8EncodeChar) = cs := by
  induction cs with
  | nil => rfl
  | cons c cs ih => rw [List.flatMap_cons, decodeFrom_encodeChar, ih]

variable {s : String}

/-- No two texts have the same bytes. -/
theorem encode_injective {t : String} (h : encode s = encode t) : s = t := by
  have hread := decodeFrom_encode s.toList
  rw [show s.toList.flatMap String.utf8EncodeChar = encode t from h, encode, decodeFrom_encode] at hread
  exact String.toList_inj.mp hread.symm

/-- A text that starts with the bytes of the mark starts with the mark. -/
theorem head?_of_encode_eq {rest : Bytes} (h : encode s = 0xEF :: 0xBB :: 0xBF :: rest) :
    s.toList.head? = some byteOrderMark := by
  have hread := decodeFrom_encode s.toList
  rw [show s.toList.flatMap String.utf8EncodeChar = encode s from rfl, h] at hread
  rw [← hread]
  rfl

/-- **A text is read back as it was written**, when it does not start with a byte-order mark. -/
theorem decode_encode (h : s.toList.head? ≠ some byteOrderMark) : decode (encode s) = s := by
  rw [decode.eq_2]
  · rw [encode, decodeFrom_encode, String.ofList_toList]
  · exact fun rest hrest ↦ h (head?_of_encode_eq hrest)

/-- One that does loses it. -/
theorem decode_encode_iff : decode (encode s) = s ↔ s.toList.head? ≠ some byteOrderMark := by
  refine ⟨fun h hmark ↦ ?_, decode_encode⟩
  obtain ⟨cs, hcs⟩ : ∃ cs, s.toList = byteOrderMark :: cs := by
    rcases hlist : s.toList with _ | ⟨c, cs⟩
    · rw [hlist] at hmark
      exact nomatch hmark
    · rw [hlist] at hmark
      exact ⟨cs, by rw [Option.some.inj hmark]⟩
  have hbytes : encode s = 0xEF :: 0xBB :: 0xBF :: cs.flatMap String.utf8EncodeChar := by
    rw [encode, hcs, List.flatMap_cons]
    rfl
  have hlength := congrArg (fun t : String ↦ t.toList.length) h
  rw [hbytes, decode, decodeFrom_encode] at hlength
  simp [hcs] at hlength

end Utf8
