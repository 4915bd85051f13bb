import Mathlib.Data.List.Basic

/-!
# Logs whose entries depend on what came before

A property of a log that says of each entry whether it may stand where it does, given the entries
before it (`Each`).  Such a property is lost for good once an entry breaks it, and is checked for the
entries that are added alone.
-/

set_option autoImplicit false

variable {α : Type*} {P Q : List α → α → Prop} {l : List α}

namespace History

/-- Every entry of the log is one that `P` allows after those before it. -/
def Each (P : List α → α → Prop) (l : List α) : Prop :=
  ∀ pre e post, l = pre ++ e :: post → P pre e

@[simp] theorem each_nil : Each P [] := fun pre e post h ↦ by simp at h

theorem each_append {es : List α} :
    Each P (l ++ es) ↔ Each P l ∧ Each (fun pre e ↦ P (l ++ pre) e) es := by
  constructor
  · refine fun h ↦ ⟨fun pre e post hl ↦ h pre e (post ++ es) ?_, fun pre e post hes ↦ ?_⟩
    · rw [hl, List.append_assoc, List.cons_append]
    · refine h (l ++ pre) e post ?_
      rw [hes, List.append_assoc]
  · rintro ⟨hl, hes⟩ pre e post heq
    rcases List.append_eq_append_iff.mp heq with ⟨mid, rfl, hmid⟩ | ⟨mid, hpre, hmid⟩
    · exact hes mid e post hmid
    · cases mid with
      | nil =>
        rw [List.append_nil] at hpre
        simpa [hpre] using hes [] e post (by simpa using hmid.symm)
      | cons a mid =>
        cases hmid
        exact hl pre e mid hpre

theorem each_snoc {e : α} : Each P (l ++ [e]) ↔ Each P l ∧ P l e := by
  rw [each_append]
  refine and_congr_right fun _ ↦ ⟨fun h ↦ ?_, fun h pre e' post heq ↦ ?_⟩
  · simpa using h [] e [] (by simp)
  · obtain ⟨rfl, rfl, -⟩ : pre = [] ∧ e = e' ∧ post = [] := by
      cases pre with
      | nil => simpa [eq_comm] using heq
      | cons a pre => simp at heq
    simpa using h

/-- Entries that are allowed wherever they stand. -/
theorem each_append_of_forall {es : List α} (h : ∀ e ∈ es, ∀ pre, P pre e) :
    Each P (l ++ es) ↔ Each P l := by
  rw [each_append]
  refine and_iff_left fun pre e post heq ↦ h e ?_ _
  simp [heq]

end History
