import Enkaku.Lib.Base64
import Enkaku.Workflow.Evaluate

/-!
# Cursors of pages

`pagination.ts`: a cursor is base64 of a sort value, a colon and an id.  Whatever a client sends back
is refused or names a row; the empty string stands for no cursor (`cursor_reads`).  What is encoded is
decoded again as long as no unit is above `0xFF` and the value has no colon in it.
-/

set_option autoImplicit false

namespace Enkaku

open List

open Js

/-- What a list is sorted by. -/
inductive SortValue (number : Type) where
  | num (n : number)
  | str (s : Text)

/-- An `EnkakuError`: its code and its message. -/
abbrev CursorError := String × String

def malformedCursor : CursorError := ("E_BAD_REQUEST", "malformed cursor")

section Code

variable {number : Type} (nf : NumberFormat number)

/-- The text of a sort value in a template. -/
def SortValue.text : SortValue number → Text
  | num n => nf.write n
  | str s => s

/-- `encodeCursor`; `none` when `btoa` throws. -/
def encodeCursor (sortValue : SortValue number) (id : Text) : Option Text :=
  btoa (sortValue.text nf ++ unit ':' :: id)

/-- `rawDecode`, and `decodeStringCursor`. -/
def decodeStringCursor (raw : Option Text) : Except CursorError (Option (Text × Text)) :=
  match raw with
  | none => .ok none
  | some raw =>
    if raw = [] then .ok none
    else match atob raw with
    | none => .error malformedCursor
    | some decoded =>
      let idx := decoded.idxOf (unit ':')
      -- No colon is an index past the end.
      if idx = decoded.length ∨ idx = 0 ∨ idx + 1 = decoded.length then .error malformedCursor
      else .ok (some (decoded.take idx, decoded.drop (idx + 1)))

/-- `decodeCursor`, with `Number`. -/
def decodeCursor (toNumber : Text → number) (raw : Option Text) :
    Except CursorError (Option (number × Text)) := do
  match ← decodeStringCursor raw with
  | none => return none
  | some (sortValue, id) =>
    if nf.finite (toNumber sortValue) then return some (toNumber sortValue, id)
    else throw malformedCursor

end Code

/-- A unit `btoa` takes, and no colon. -/
def isCursorUnit (u : UInt16) : Bool := u < 256 && u != unit ':'

def IsCursorText (t : Text) : Prop := t ≠ [] ∧ t.all isCursorUnit

theorem IsCursorText.unit {t : Text} (h : IsCursorText t) {u : UInt16} (hu : u ∈ t) :
    u < 256 ∧ u ≠ unit ':' := by
  simpa [isCursorUnit] using all_eq_true.mp h.2 u hu

theorem all_isCursorUnit {ds : Text} (h : ∀ d ∈ ds, Js.isDigit d = true) : ds.all isCursorUnit := by
  refine all_eq_true.mpr fun d hd ↦ ?_
  have hdigit := h d hd
  rw [Js.isDigit, Bool.and_eq_true, decide_eq_true_eq, decide_eq_true_eq] at hdigit
  have hle : d.toNat ≤ 57 := hdigit.2
  have hne : d ≠ unit ':' := fun he ↦ absurd (he ▸ hle) (by decide)
  have hlt : d < 256 := Nat.lt_of_le_of_lt hle (by decide)
  simp [isCursorUnit, hne, hlt]

/-- A number is written without a colon. -/
theorem isCursorText_of_isJsonNumber {cs : Text} (h : IsJsonNumber cs) : IsCursorText cs := by
  refine ⟨?_, ?_⟩
  · obtain ⟨c, tail, rfl, -⟩ := isJsonNumber_head h
    exact cons_ne_nil c tail
  · obtain ⟨sign, whole, fraction, exponent, rfl, hsign, hwhole, hfraction, hexponent⟩ := h
    simp only [all_append, Bool.and_eq_true]
    refine ⟨?_, ?_, ?_, ?_⟩
    · rcases hsign with rfl | rfl <;> rfl
    · rcases hwhole with rfl | ⟨d, ds, rfl, -, hds⟩
      · rfl
      · exact all_isCursorUnit hds
    · rcases hfraction with rfl | ⟨ds, rfl, -, hds⟩
      · rfl
      · rw [all_cons, all_isCursorUnit hds]
        rfl
    · rcases hexponent with rfl | ⟨e, sign, ds, rfl, he, hsign, -, hds⟩
      · rfl
      · rw [all_cons, all_append, all_isCursorUnit hds]
        rcases he with rfl | rfl <;> rcases hsign with rfl | rfl | rfl <;> rfl

/-- What a cursor is made of is what it is decoded to. -/
theorem decodeStringCursor_encoded {value id : Text} (hvalue : IsCursorText value) (hid : IsCursorText id) :
    ∃ raw, btoa (value ++ unit ':' :: id) = some raw ∧
      decodeStringCursor (some raw) = .ok (some (value, id)) := by
  set decoded := value ++ unit ':' :: id with hdecoded
  obtain ⟨raw, hraw⟩ : ∃ raw, btoa decoded = some raw := by
    refine ⟨_, if_pos (all_eq_true.mpr fun u hu ↦ decide_eq_true ?_)⟩
    rw [hdecoded] at hu
    revert u
    rw [forall_mem_append, forall_mem_cons]
    exact ⟨fun _ hu ↦ (hvalue.unit hu).1, by decide, fun _ hu ↦ (hid.unit hu).1⟩
  have hread := atob_btoa hraw
  have hidx : decoded.idxOf (unit ':') = value.length := by
    rw [hdecoded, idxOf_append_of_notMem fun hmem ↦ (hvalue.unit hmem).2 rfl, idxOf_cons_self,
      Nat.add_zero]
  have hlength : decoded.length = value.length + (id.length + 1) := by
    rw [hdecoded, length_append, length_cons]
  have hpos := length_pos_iff.mpr hvalue.1
  have hpos' := length_pos_iff.mpr hid.1
  have hne : raw ≠ [] := by
    rintro rfl
    have hnil : decoded = [] := Option.some.inj (hread.symm.trans rfl)
    rw [hnil, length_nil] at hlength
    omega
  refine ⟨raw, hraw, ?_⟩
  rw [decodeStringCursor, if_neg hne, hread]
  dsimp only
  rw [hidx, if_neg (by omega), hdecoded, take_left, drop_append]
  simp

/-- What comes back is refused, or names a row. -/
theorem decodeStringCursor_spec {raw : Text} (hraw : raw ≠ []) :
    decodeStringCursor (some raw) = .error malformedCursor ∨
      ∃ value id, decodeStringCursor (some raw) = .ok (some (value, id)) ∧ value ≠ [] ∧ id ≠ [] := by
  rw [decodeStringCursor, if_neg hraw]
  cases atob raw with
  | none => exact .inl rfl
  | some decoded =>
    dsimp only
    split_ifs with hidx
    · exact .inl rfl
    · have hle := idxOf_le_length (a := unit ':') (l := decoded)
      refine .inr ⟨_, _, rfl, fun hnil ↦ ?_, fun hnil ↦ ?_⟩
      · rw [take_eq_nil_iff, eq_nil_iff_length_eq_zero] at hnil
        omega
      · rw [drop_eq_nil_iff] at hnil
        omega

/-- **Cursors of pages.**  Sort values and ids without a colon, of units `btoa` takes, come back; every
other string is refused or decoded to a value and an id, but for the empty one, which is no cursor. -/
theorem cursor_reads {number : Type} (nf : NumberFormat number) (toNumber : Text → number)
    (hnumber : ∀ n, nf.finite n → nf.finite (toNumber (nf.write n)) ∧
      nf.same (toNumber (nf.write n)) n) :
    (∀ n id, nf.finite n → IsCursorText id → ∃ raw m, encodeCursor nf (.num n) id = some raw ∧
        decodeCursor nf toNumber (some raw) = .ok (some (m, id)) ∧ nf.same m n) ∧
      (∀ value id, IsCursorText value → IsCursorText id → ∃ raw, encodeCursor nf (.str value) id = some raw ∧
        decodeStringCursor (some raw) = .ok (some (value, id))) ∧
      (∀ raw, raw ≠ [] →
        (decodeStringCursor (some raw) = .error malformedCursor ∨ ∃ value id,
          decodeStringCursor (some raw) = .ok (some (value, id)) ∧ value ≠ [] ∧ id ≠ []) ∧
        (decodeCursor nf toNumber (some raw) = .error malformedCursor ∨ ∃ n id,
          decodeCursor nf toNumber (some raw) = .ok (some (n, id)) ∧ nf.finite n ∧ id ≠ [])) ∧
      decodeStringCursor (some []) = .ok none ∧ decodeCursor nf toNumber (some []) = .ok none := by
  refine ⟨fun n id hn hid ↦ ?_, fun value id hvalue hid ↦ decodeStringCursor_encoded hvalue hid,
    fun raw hraw ↦ ⟨decodeStringCursor_spec hraw, ?_⟩, rfl, rfl⟩
  · obtain ⟨raw, hbtoa, hdecoded⟩ :=
      decodeStringCursor_encoded (isCursorText_of_isJsonNumber (nf.isJsonNumber hn)) hid
    obtain ⟨hfinite, hsame⟩ := hnumber n hn
    refine ⟨raw, toNumber (nf.write n), hbtoa, ?_, hsame⟩
    rw [decodeCursor, hdecoded]
    exact if_pos hfinite
  · rcases decodeStringCursor_spec hraw with herror | ⟨value, id, hok, -, hid⟩
    · exact .inl (by rw [decodeCursor, herror]; rfl)
    · by_cases hfinite : nf.finite (toNumber value) = true
      · refine .inr ⟨_, id, ?_, hfinite, hid⟩
        rw [decodeCursor, hok]
        exact if_pos hfinite
      · refine .inl ?_
        rw [decodeCursor, hok]
        exact if_neg hfinite

/-- A timestamp; an id. -/
theorem cursor_reads_timestamp : ∃ raw m,
    encodeCursor Decimal.numbers.toNumberFormat (.num 1700000000) (text "ab12") = some raw ∧
      decodeCursor Decimal.numbers.toNumberFormat Decimal.numbers.read (some raw) =
        .ok (some (m, text "ab12")) ∧ Decimal.numbers.same m 1700000000 := by
  refine (cursor_reads Decimal.numbers.toNumberFormat Decimal.numbers.read fun n hn ↦ ?_).1 _ _
    (by decide) ⟨by decide, rfl⟩
  have hsame := Decimal.numbers.same_read hn
  exact ⟨(of_decide_eq_true hsame).symm ▸ hn, hsame⟩

/-- The empty string is no cursor.  The cursor of a label with a colon in it is cut there, and a label
in another script has none. -/
theorem decodeStringCursor_empty : decodeStringCursor (some []) = .ok none ∧
    (encodeCursor Decimal.numbers.toNumberFormat (.str (text "a:b")) (text "x")).map
      (fun raw ↦ decodeStringCursor (some raw)) = some (.ok (some (text "a", text "b:x"))) ∧
    encodeCursor Decimal.numbers.toNumberFormat (.str [0x4E2D]) (text "x") = none := by
  refine ⟨rfl, ?_, ?_⟩
  · decide +kernel
  · decide +kernel

end Enkaku
