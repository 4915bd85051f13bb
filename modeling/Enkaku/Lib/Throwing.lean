import Mathlib.Logic.Basic

/-!
# Stateful computations that may throw

The rules of `Except ε` and `StateT σ (Except ε)`: a sequence returns when both its parts do, and
the second runs in the state the first leaves.  The state of a computation that throws is lost.
-/

set_option autoImplicit false

variable {σ ε α β : Type}

namespace Throwing

/-- What a sequence without a state that returned went through. -/
theorem exists_of_bind_eq_ok {x : Except ε α} {f : α → Except ε β} {b : β}
    (h : (x >>= f) = .ok b) : ∃ a, x = .ok a ∧ f a = .ok b := by
  cases x with
  | error e => exact nomatch h
  | ok a => exact ⟨a, rfl, h⟩

variable {p : StateT σ (Except ε) α} {f : α → StateT σ (Except ε) β}

theorem bind_of_ok {s s' : σ} {a : α} (h : p s = .ok (a, s')) : (p >>= f) s = f a s' := by
  show (p s >>= fun r ↦ f r.1 r.2) = _
  rw [h]
  rfl

theorem bind_of_error {s : σ} {e : ε} (h : p s = .error e) : (p >>= f) s = .error e := by
  show (p s >>= fun r ↦ f r.1 r.2) = _
  rw [h]
  rfl

/-- What a sequence that returned went through. -/
theorem ok_of_bind {s s'' : σ} {b : β} (h : (p >>= f) s = .ok (b, s'')) :
    ∃ a s', p s = .ok (a, s') ∧ f a s' = .ok (b, s'') := by
  cases hp : p s with
  | error e =>
    rw [bind_of_error hp] at h
    exact nomatch h
  | ok r =>
    rw [bind_of_ok hp] at h
    exact ⟨r.1, r.2, rfl, h⟩

theorem pure_ok_iff {a b : α} {s s' : σ} :
    (pure a : StateT σ (Except ε) α) s = .ok (b, s') ↔ a = b ∧ s = s' := by
  show (Except.ok (a, s) : Except ε (α × σ)) = .ok (b, s') ↔ _
  rw [Except.ok.injEq, Prod.mk.injEq]

end Throwing
