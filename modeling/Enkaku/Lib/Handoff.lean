import Mathlib.Data.List.Basic
import Mathlib.Data.List.Count

/-!
# Logs with hand-offs

In a log some entries hand over, and the entry that takes over comes next.  `hands` and `takes` say
which entries are which; the flag in front of a list says whether the entry before it handed over.

In a log where every hand-off is taken (`Taken`), the entries that take over are those handed over
to and those that come unasked (`unasked`): `countP_takes` is the count.
-/

set_option autoImplicit false

namespace Handoff

variable {α : Type*} (hands takes : α → Bool)

/-- The last entry hands over, and nothing has come after it yet. -/
def pending : Bool → List α → Bool
  | d, [] => d
  | _, a :: l => pending (hands a) l

/-- Every hand-off with an entry after it is taken by that entry. -/
def Taken : Bool → List α → Prop
  | _, [] => True
  | d, a :: l => (d = true → takes a = true) ∧ Taken (hands a) l

/-- How often an entry takes over that was not handed over to. -/
def unasked : Bool → List α → Nat
  | _, [] => 0
  | d, a :: l => (takes a && !d).toNat + unasked (hands a) l

variable {hands takes} {d : Bool} {l : List α} {a : α}

@[simp] theorem pending_append_singleton : pending hands d (l ++ [a]) = hands a := by
  induction l generalizing d with
  | nil => rfl
  | cons b l ih => exact ih

theorem taken_append_singleton :
    Taken hands takes d (l ++ [a]) ↔
      Taken hands takes d l ∧ (pending hands d l = true → takes a = true) := by
  induction l generalizing d with
  | nil => simp [Taken, pending]
  | cons b l ih =>
    rw [List.cons_append, Taken, Taken, ih, pending, and_assoc]

/-- **Who takes over**: every entry that was handed over to, and every one that came unasked. -/
theorem countP_takes (h : Taken hands takes d l) :
    l.countP takes + (pending hands d l).toNat =
      unasked hands takes d l + l.countP hands + d.toNat := by
  induction l generalizing d with
  | nil => simp [pending, unasked]
  | cons a l ih =>
    obtain ⟨ha, hl⟩ := h
    have hrest := ih hl
    have hfirst : (takes a).toNat = (takes a && !d).toNat + d.toNat := by
      cases d with
      | false => simp
      | true => simp [ha rfl]
    have htakes : (a :: l).countP takes = l.countP takes + (takes a).toNat := by
      rw [List.countP_cons]
      cases takes a <;> rfl
    have hhands : (a :: l).countP hands = l.countP hands + (hands a).toNat := by
      rw [List.countP_cons]
      cases hands a <;> rfl
    rw [htakes, hhands, pending, unasked]
    omega

end Handoff
