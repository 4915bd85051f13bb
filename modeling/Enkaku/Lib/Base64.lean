import Enkaku.Lib.JsData

/-!
# Base64 of texts

`btoa` writes a text whose units are below 256, six bits to a digit.  `atob` reads it back; it skips
white space, and the padding may be missing.
-/

set_option autoImplicit false

namespace Js

def alphabet : Text := text "ABCDEFGHIJKLMNOPQRSTUVWXYZabcdefghijklmnopqrstuvwxyz0123456789+/"

/-- Three bytes are four digits; what is left over is padded with zeros. -/
def sextets : List ℕ → List ℕ
  | a :: b :: c :: rest => a / 4 :: (a % 4 * 16 + b / 16) :: (b % 16 * 4 + c / 64) :: c % 64 :: sextets rest
  | [a, b] => [a / 4, a % 4 * 16 + b / 16, b % 16 * 4]
  | [a] => [a / 4, a % 4 * 16]
  | [] => []

def octets : List ℕ → List ℕ
  | a :: b :: c :: d :: rest => (a * 4 + b / 16) :: (b % 16 * 16 + c / 4) :: (c % 4 * 64 + d) :: octets rest
  | [a, b, c] => [a * 4 + b / 16, b % 16 * 16 + c / 4]
  | [a, b] => [a * 4 + b / 16]
  | _ => []

/-- `btoa`; `none` when it throws. -/
def btoa (t : Text) : Option Text :=
  if t.all (· < 256) then
    some ((sextets (t.map (·.toNat))).map (fun d ↦ alphabet.getD d 0) ++
      List.replicate ((3 - t.length % 3) % 3) (unit '='))
  else none

/-- Up to two signs of padding at the end are taken off. -/
def unpadded (t : Text) : Text :=
  if t.getLast? ≠ some (unit '=') then t
  else if t.dropLast.getLast? ≠ some (unit '=') then t.dropLast
  else t.dropLast.dropLast

/-- `atob`; `none` when it throws. -/
def atob (t : Text) : Option Text :=
  let data := t.filter (· ∉ [9, 10, 12, 13, 32])
  let digits := if data.length % 4 = 0 then unpadded data else data
  if digits.length % 4 = 1 then none
  else (digits.mapM (alphabet.idxOf? ·)).map fun ds ↦ (octets ds).map UInt16.ofNat

theorem sextets_lt {bytes : List ℕ} (h : ∀ b ∈ bytes, b < 256) : ∀ d ∈ sextets bytes, d < 64 := by
  fun_induction sextets bytes with
  | case1 a b c rest ih =>
    simp only [List.forall_mem_cons] at h ⊢
    exact ⟨by omega, by omega, by omega, by omega, ih h.2.2.2⟩
  | case2 a b => simp at h ⊢; omega
  | case3 a => simp at h ⊢; omega
  | case4 => simp

theorem octets_sextets {bytes : List ℕ} (h : ∀ b ∈ bytes, b < 256) : octets (sextets bytes) = bytes := by
  fun_induction sextets bytes with
  | case1 a b c rest ih =>
    simp only [List.forall_mem_cons] at h
    rw [octets, ih h.2.2.2]
    congr <;> omega
  | case2 a b => simp [octets] at h ⊢; omega
  | case3 a => simp [octets] at h ⊢; omega
  | case4 => rfl

theorem length_sextets (bytes : List ℕ) :
    (sextets bytes).length = bytes.length + (bytes.length + 2) / 3 := by
  fun_induction sextets bytes with
  | case1 a b c rest ih => simp [ih]; omega
  | _ => simp

theorem alphabet_spec : ∀ d < 64, alphabet.idxOf? (alphabet.getD d 0) = some d ∧
    alphabet.getD d 0 ≠ unit '=' ∧ alphabet.getD d 0 ∉ [9, 10, 12, 13, 32] := by
  decide +kernel

theorem mapM_digits {ds : List ℕ} (h : ∀ d ∈ ds, d < 64) :
    (ds.map fun d ↦ alphabet.getD d 0).mapM (alphabet.idxOf? ·) = some ds := by
  induction ds with
  | nil => rfl
  | cons d ds ih =>
    rw [List.forall_mem_cons] at h
    rw [List.map_cons, List.mapM_cons, (alphabet_spec d h.1).1, ih h.2]
    rfl

theorem unpadded_append {digits : Text} (h : ∀ u ∈ digits, u ≠ unit '=') {n : ℕ} (hn : n ≤ 2) :
    unpadded (digits ++ List.replicate n (unit '=')) = digits := by
  have hlast : digits.getLast? ≠ some (unit '=') := fun he ↦ h _ (List.mem_of_getLast? he) rfl
  match n, hn with
  | 0, _ => simp [unpadded, hlast]
  | 1, _ => simp [unpadded, hlast]
  | 2, _ =>
    rw [List.replicate_succ', ← List.append_assoc, unpadded]
    simp

/-- What is written is read back. -/
theorem atob_btoa {t s : Text} (h : btoa t = some s) : atob s = some t := by
  obtain ⟨hbytes, ⟨⟩⟩ := Option.ite_none_right_eq_some.mp h
  have hnat : ∀ b ∈ t.map (·.toNat), b < 256 := by
    intro b hb
    obtain ⟨u, hu, rfl⟩ := List.mem_map.mp hb
    exact of_decide_eq_true (List.all_eq_true.mp hbytes u hu)
  set digits := (sextets (t.map (·.toNat))).map fun d ↦ alphabet.getD d 0 with hdigits
  have hspec : ∀ d ∈ digits, d ≠ unit '=' ∧ d ∉ [9, 10, 12, 13, 32] := by
    intro u hu
    obtain ⟨d, hd, rfl⟩ := List.mem_map.mp hu
    exact (alphabet_spec d (sextets_lt hnat d hd)).2
  set data := digits ++ List.replicate ((3 - t.length % 3) % 3) (unit '=') with hdata
  have hspace : data.filter (· ∉ [9, 10, 12, 13, 32]) = data := by
    refine List.filter_eq_self.mpr fun u hu ↦ decide_eq_true ?_
    rcases List.mem_append.mp hu with hu | hu
    · exact (hspec u hu).2
    · rw [List.eq_of_mem_replicate hu]
      decide
  have hlength : digits.length = t.length + (t.length + 2) / 3 := by
    rw [hdigits, List.length_map, length_sextets, List.length_map]
  have htaken : (if data.length % 4 = 0 then unpadded data else data) = digits := by
    rw [if_pos (by rw [hdata, List.length_append, List.length_replicate]; omega)]
    exact unpadded_append (fun u hu ↦ (hspec u hu).1) (by omega)
  rw [atob, hspace, htaken, if_neg (by omega), hdigits, mapM_digits (sextets_lt hnat), Option.map_some,
    octets_sextets hnat, List.map_map]
  exact congrArg some (List.map_id'' (fun u ↦ UInt16.ofNat_toNat) t)

end Js
