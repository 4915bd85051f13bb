import Enkaku.Lib.Bytes

/-!
# Keyframes in an H.264 chunk

`isH264Keyframe` of `binary.ts`: whether a chunk of NAL units has one a decoder can start at, a
parameter set (type 7) or an IDR picture (type 5).  A unit is a header byte behind a start code,
`00 00 01`, with or without one more `00` before it.

The scan looks at a position only when four more bytes follow it, and goes on behind the header of a
unit it read.  So it misses a unit whose header is the last byte, and one whose start code begins in
the header before it.  `isH264Keyframe_exact_iff` says which chunks that matters for.
-/

set_option autoImplicit false

namespace Enkaku.H264

/-! ## The scan -/

/-- `00 00 01` at `i`. -/
def startCode3 (buf : Bytes) (i : Nat) : Bool :=
  buf[i]? == some 0 && buf[i + 1]? == some 0 && buf[i + 2]? == some 1

/-- `00 00 00 01` at `i`. -/
def startCode4 (buf : Bytes) (i : Nat) : Bool :=
  buf[i]? == some 0 && buf[i + 1]? == some 0 && buf[i + 2]? == some 0 && buf[i + 3]? == some 1

/-- The type of the unit whose header is at `i`: its low five bits. -/
def nalType (buf : Bytes) (i : Nat) : UInt8 := buf[i]?.getD 0 &&& 0x1f

/-- A type a decoder can start at. -/
def isEntry (type : UInt8) : Bool := type == 5 || type == 7

/-- The loop, from `i` on. -/
def keyframeFrom (buf : Bytes) (i : Nat) : Bool :=
  if i + 4 < buf.length then
    if !startCode3 buf i && !startCode4 buf i then
      keyframeFrom buf (i + 1)
    else
      -- `i +=` the length of the start code, and the `i++` of the loop: past the header.
      let skip := if startCode4 buf i then 4 else 3
      if isEntry (nalType buf (i + skip)) then true else keyframeFrom buf (i + skip + 1)
  else
    false
termination_by buf.length - i

def isH264Keyframe (buf : Bytes) : Bool := keyframeFrom buf 0

/-! ## What it should find, and what it reads -/

/-- Somewhere there is a start code, and behind it the header of a unit to start at. -/
def HasKeyframe (buf : Bytes) : Prop :=
  ∃ front header back, buf = front ++ 0 :: 0 :: 1 :: header :: back ∧
    isEntry (header &&& 0x1f) = true

/-- Such a start code, at `p`. -/
def KeyframeAt (buf : Bytes) (p : Nat) : Prop :=
  startCode3 buf p = true ∧ p + 3 < buf.length ∧ isEntry (nalType buf (p + 3)) = true

/-- The byte is the header of a unit the scan reads: a start code stands before it, and that one does
not itself begin in such a header. -/
def readHeader (buf : Bytes) : Nat → Bool
  | p + 3 => startCode3 buf p && !readHeader buf p
  | _ => false

/-- The start code at `p` does not begin in a header the scan has read, and the header behind it is
not the last byte, or a `00` before the start code lets the scan find it one byte earlier. -/
def Readable (buf : Bytes) (p : Nat) : Prop :=
  readHeader buf p = false ∧
    (p + 4 < buf.length ∨ ∃ q, p = q + 1 ∧ buf[q]? = some 0 ∧ readHeader buf q = false)

variable {buf : Bytes} {i p q : Nat}

theorem startCode3_iff :
    startCode3 buf p = true ↔ buf[p]? = some 0 ∧ buf[p + 1]? = some 0 ∧ buf[p + 2]? = some 1 := by
  simp [startCode3, and_assoc]

theorem startCode4_iff : startCode4 buf i = true ↔ buf[i]? = some 0 ∧ startCode3 buf (i + 1) = true := by
  simp [startCode4, startCode3, and_assoc]

theorem hasKeyframe_iff : HasKeyframe buf ↔ ∃ p, KeyframeAt buf p := by
  constructor
  · rintro ⟨front, header, back, rfl, h⟩
    refine ⟨front.length, ?_, ?_, ?_⟩
    · rw [startCode3_iff]
      simp
    · simp
    · simpa [nalType] using h
  · rintro ⟨p, hcode, hlen, htype⟩
    obtain ⟨h₀, h₁, h₂⟩ := startCode3_iff.mp hcode
    refine ⟨buf.take p, buf[p + 3], buf.drop (p + 4), ?_, ?_⟩
    · obtain ⟨hp₀, h₀⟩ := List.getElem?_eq_some_iff.mp h₀
      obtain ⟨hp₁, h₁⟩ := List.getElem?_eq_some_iff.mp h₁
      obtain ⟨hp₂, h₂⟩ := List.getElem?_eq_some_iff.mp h₂
      rw [← h₂]
      nth_rewrite 2 [← h₁]
      rw [← h₀]
      conv_lhs => rw [← List.take_append_drop p buf]
      rw [List.drop_eq_getElem_cons hp₀, List.drop_eq_getElem_cons hp₁,
        List.drop_eq_getElem_cons hp₂, List.drop_eq_getElem_cons hlen]
    · rwa [nalType, List.getElem?_eq_getElem hlen, Option.getD_some] at htype

/-! ## Where the scan is -/

/-- A start code whose unit the scan reads, but for the end of the chunk. -/
def ReadCode (buf : Bytes) (p : Nat) : Prop :=
  startCode3 buf p = true ∧ readHeader buf p = false

theorem readHeader_iff : readHeader buf q = true ↔ ∃ p, q = p + 3 ∧ ReadCode buf p := by
  match q with
  | 0 | 1 | 2 => simp [readHeader]
  | p + 3 => simp [readHeader, ReadCode]

/-- Two start codes are three bytes apart, if they are not the same. -/
theorem startCode3_apart (hp : startCode3 buf p = true) (hq : startCode3 buf q = true) (hlt : p < q) :
    p + 3 ≤ q := by
  obtain ⟨-, -, h₂⟩ := startCode3_iff.mp hp
  obtain ⟨h₀, h₁, -⟩ := startCode3_iff.mp hq
  by_contra hclose
  obtain rfl | rfl : q = p + 1 ∨ q = p + 2 := by omega
  · rw [h₁] at h₂
    exact nomatch h₂
  · rw [h₀] at h₂
    exact nomatch h₂

/-- Two start codes that are read are four bytes apart. -/
theorem readCode_apart (hp : ReadCode buf p) (hq : ReadCode buf q) (hlt : p < q) : p + 4 ≤ q := by
  have h := startCode3_apart hp.1 hq.1 hlt
  by_contra hclose
  obtain rfl : q = p + 3 := by omega
  exact Bool.false_ne_true (hq.2.symm.trans (readHeader_iff.mpr ⟨p, rfl, hp⟩))

/-- The scan stands at `i`: behind every unit it has read, and not one byte too far to find the start
code at `i` with the `00` before it. -/
structure ScanAt (buf : Bytes) (i : Nat) : Prop where
  behind : ∀ p, ReadCode buf p → p < i → p + 4 ≤ i
  fresh : ∀ q, i = q + 1 → buf[q]? = some 0 → ReadCode buf i → readHeader buf q = true

theorem scanAt_zero : ScanAt buf 0 where
  behind _ _ h := absurd h (Nat.not_lt_zero _)
  fresh q h := absurd h (by omega)

/-- No header is where the scan stands. -/
theorem ScanAt.not_header (h : ScanAt buf i) : readHeader buf i = false := by
  rw [← Bool.not_eq_true, readHeader_iff]
  rintro ⟨p, rfl, hp⟩
  have := h.behind p hp (by omega)
  omega

theorem ScanAt.succ (h : ScanAt buf i) (h₃ : startCode3 buf i = false)
    (h₄ : startCode4 buf i = false) : ScanAt buf (i + 1) where
  behind p hp hlt := by
    obtain hlt | rfl : p < i ∨ p = i := by omega
    · have := h.behind p hp hlt
      omega
    · exact absurd (h₃.symm.trans hp.1) Bool.false_ne_true
  fresh q hq hzero hcode := by
    obtain rfl : q = i := by omega
    rw [startCode4_iff.mpr ⟨hzero, hcode.1⟩] at h₄
    exact nomatch h₄

/-- Behind a unit that is read. -/
theorem ScanAt.skip (h : ScanAt buf i) (hi : i ≤ p) (hp : ReadCode buf p)
    (hnone : ∀ q, ReadCode buf q → i ≤ q → p ≤ q) : ScanAt buf (p + 4) where
  behind q hq hlt := by
    by_contra hclose
    rcases Nat.lt_trichotomy q p with hqp | rfl | hpq
    · rcases Nat.lt_or_ge q i with hqi | hqi
      · have := h.behind q hq hqi
        omega
      · have := hnone q hq hqi
        omega
    · omega
    · have := readCode_apart hp hq hpq
      omega
  fresh q hq _ _ := by
    obtain rfl : q = p + 3 := by omega
    exact readHeader_iff.mpr ⟨p, rfl, hp⟩

/-! ## The loop finds what it reads -/

theorem startCode4_eq_false (h₃ : startCode3 buf i = true) : startCode4 buf i = false := by
  rw [← Bool.not_eq_true, startCode4_iff]
  rintro ⟨-, hnext⟩
  have := startCode3_apart h₃ hnext (by omega)
  omega

/-- The start code behind the `00` the scan stands at. -/
theorem ScanAt.readCode_succ (h : ScanAt buf i) (hnext : startCode3 buf (i + 1) = true) :
    ReadCode buf (i + 1) := by
  refine ⟨hnext, ?_⟩
  rw [← Bool.not_eq_true, readHeader_iff]
  rintro ⟨p, hp, hread⟩
  have := h.behind p hread (by omega)
  omega

theorem le_succ_of_not_startCode3 (h₃ : startCode3 buf i = false) (hq : startCode3 buf q = true)
    (hle : i ≤ q) : i + 1 ≤ q := by
  obtain rfl | hlt : i = q ∨ i + 1 ≤ q := by omega
  · exact absurd (h₃.symm.trans hq) Bool.false_ne_true
  · exact hlt

/-- No start code at `i`: it is one further on. -/
theorem exists_readable_succ (h₃ : startCode3 buf i = false) :
    (∃ p, i ≤ p ∧ KeyframeAt buf p ∧ Readable buf p) ↔
      ∃ p, i + 1 ≤ p ∧ KeyframeAt buf p ∧ Readable buf p := by
  constructor
  · rintro ⟨p, hp, hkey, hread⟩
    exact ⟨p, le_succ_of_not_startCode3 h₃ hkey.1 hp, hkey, hread⟩
  · rintro ⟨p, hp, hrest⟩
    exact ⟨p, by omega, hrest⟩

/-- One unit read, at `p`: it is the one looked for, or the one looked for is behind it. -/
theorem exists_readable_skip (hi : i ≤ p) (hp : ReadCode buf p)
    (hnone : ∀ q, ReadCode buf q → i ≤ q → p ≤ q) (hreadable : Readable buf p)
    (hlen : p + 3 < buf.length) :
    (∃ q, i ≤ q ∧ KeyframeAt buf q ∧ Readable buf q) ↔
      isEntry (nalType buf (p + 3)) = true ∨
        ∃ q, p + 4 ≤ q ∧ KeyframeAt buf q ∧ Readable buf q := by
  constructor
  · rintro ⟨q, hq, hkey, hread⟩
    have hcode : ReadCode buf q := ⟨hkey.1, hread.1⟩
    rcases Nat.eq_or_lt_of_le (hnone q hcode hq) with rfl | hlt
    · exact .inl hkey.2.2
    · exact .inr ⟨q, readCode_apart hp hcode hlt, hkey, hread⟩
  · rintro (htype | ⟨q, hq, hkey, hread⟩)
    · exact ⟨p, hi, ⟨hp.1, hlen, htype⟩, hreadable⟩
    · exact ⟨q, by omega, hkey, hread⟩

/-- At the end of the chunk the scan can read nothing more. -/
theorem ScanAt.not_readable (h : ScanAt buf i) (hlen : ¬i + 4 < buf.length) (hp : i ≤ p)
    (hkey : KeyframeAt buf p) : ¬Readable buf p := by
  rintro ⟨hread, hend⟩
  obtain hlt | ⟨q, rfl, hzero, hfree⟩ := hend
  · omega
  · obtain rfl : q + 1 = i := by
      have := hkey.2.1
      omega
    exact Bool.false_ne_true (hfree.symm.trans (h.fresh q rfl hzero ⟨hkey.1, hread⟩))

/-- From where it stands, the scan finds a keyframe exactly if there is one it can read. -/
theorem keyframeFrom_iff (h : ScanAt buf i) :
    keyframeFrom buf i = true ↔ ∃ p, i ≤ p ∧ KeyframeAt buf p ∧ Readable buf p := by
  induction hn : buf.length - i using Nat.strong_induction_on generalizing i with
  | h n ih =>
    subst hn
    rw [keyframeFrom]
    split
    · rename_i hlen
      by_cases h₃ : startCode3 buf i = true
      · have hcode : ReadCode buf i := ⟨h₃, h.not_header⟩
        have hnone : ∀ q, ReadCode buf q → i ≤ q → i ≤ q := fun _ _ hq ↦ hq
        have hskip := h.skip (Nat.le_refl i) hcode hnone
        have hreadable : Readable buf i := ⟨h.not_header, .inl hlen⟩
        rw [exists_readable_skip (Nat.le_refl i) hcode hnone hreadable (by omega),
          ← ih (buf.length - (i + 4)) (by omega) hskip rfl]
        simp [h₃, startCode4_eq_false h₃]
      · rw [Bool.not_eq_true] at h₃
        by_cases h₄ : startCode4 buf i = true
        · -- The unit's own start code is the one at `i + 1`.
          obtain ⟨hzero, hnext⟩ := startCode4_iff.mp h₄
          have hcode := h.readCode_succ hnext
          have hnone : ∀ q, ReadCode buf q → i ≤ q → i + 1 ≤ q := fun _ hq ↦
            le_succ_of_not_startCode3 h₃ hq.1
          have hskip := h.skip (Nat.le_succ i) hcode hnone
          have hreadable : Readable buf (i + 1) := ⟨hcode.2, .inr ⟨i, rfl, hzero, h.not_header⟩⟩
          rw [exists_readable_skip (Nat.le_succ i) hcode hnone hreadable (by omega),
            ← ih (buf.length - (i + 1 + 4)) (by omega) hskip rfl]
          simp [h₃, h₄, Nat.add_assoc]
        · rw [Bool.not_eq_true] at h₄
          rw [exists_readable_succ h₃, ← ih (buf.length - (i + 1)) (by omega) (h.succ h₃ h₄) rfl]
          simp [h₃, h₄]
    · rename_i hlen
      refine ⟨fun h ↦ absurd h Bool.false_ne_true, ?_⟩
      rintro ⟨p, hp, hkey, hread⟩
      exact absurd hread (h.not_readable hlen hp hkey)

theorem isH264Keyframe_iff : isH264Keyframe buf = true ↔ ∃ p, KeyframeAt buf p ∧ Readable buf p := by
  rw [isH264Keyframe, keyframeFrom_iff scanAt_zero]
  simp

/-- **A keyframe is recognised exactly when it is read.**  For every chunk: the answer is whether the
chunk has a keyframe if and only if it has none, or one whose start code does not begin in a header
the scan reads and whose header is not the last byte behind a bare three-byte start code. -/
theorem isH264Keyframe_exact_iff (buf : Bytes) :
    (isH264Keyframe buf = true ↔ HasKeyframe buf) ↔
      (HasKeyframe buf → ∃ p, KeyframeAt buf p ∧ Readable buf p) := by
  rw [isH264Keyframe_iff]
  refine ⟨Iff.mpr, fun h ↦ ⟨?_, h⟩⟩
  rintro ⟨p, hp, -⟩
  exact hasKeyframe_iff.mpr ⟨p, hp⟩

/-- An IDR picture whose header is the last byte, and one that begins in the header before it. -/
theorem isH264Keyframe_misses :
    (isH264Keyframe [0, 0, 1, 0x65] = false ∧ HasKeyframe [0, 0, 1, 0x65]) ∧
    (isH264Keyframe [0, 0, 1, 0, 0, 1, 0x65, 0x88] = false ∧
      HasKeyframe [0, 0, 1, 0, 0, 1, 0x65, 0x88]) := by
  refine ⟨⟨by decide +kernel, [], 0x65, [], rfl, by decide⟩, ?_, ⟨[0, 0, 1], 0x65, [0x88], rfl, by decide⟩⟩
  decide +kernel

end Enkaku.H264
