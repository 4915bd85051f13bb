import Mathlib.Data.List.Basic

/-!
# Two loops in lockstep

Two deterministic loops are given by their states after each number of turns, `f` and `g`, and are
related as long as every turn meets a guard.  `lockstep_iff` says when what is to hold of the two
finished loops does: exactly when the guard is met turn after turn, until the first loop has ended
or has come to one of the exits at which the two part without harm.

The comparison of two finished loops is usually a comparison of logs that only grow, so the two
facts used to refute it are here as well.
-/

set_option autoImplicit false

variable {σ τ α : Type*}

namespace Lockstep

variable {f : ℕ → σ}

/-- The rule.  `P` is what is claimed of the finished loops, `R` the relation kept, `r` that the first
loop is still running, `G i` the guard of turn `i` and `E i` that the loops part there without
harm. -/
theorem lockstep_iff {g : ℕ → τ} {R : σ → τ → Prop} {r : σ → Prop} {G E : ℕ → Prop} {P : Prop}
    (h0 : R (f 0) (g 0)) (hstep : ∀ i, R (f i) (g i) → r (f i) → G i → R (f (i + 1)) (g (i + 1)))
    (hbreak : ∀ i, R (f i) (g i) → r (f i) → ¬ G i → P → E i)
    (hexit : ∀ i, R (f i) (g i) → r (f i) → E i → P) (hend : ∀ i, R (f i) (g i) → ¬ r (f i) → P)
    (hterm : P → ∃ i, ¬ r (f i)) : P ↔ ∃ n, (∀ i < n, G i) ∧ (r (f n) → E n) := by
  constructor
  · intro hP
    obtain ⟨N, hN⟩ := hterm hP
    by_contra hno
    -- Up to the end the guard is met, since a turn that breaks it would be an exit.
    have hkeep : ∀ k, k ≤ N → (∀ i < k, G i) ∧ R (f k) (g k) := by
      intro k
      induction k with
      | zero => exact fun _ ↦ ⟨fun i hi ↦ absurd hi (Nat.not_lt_zero i), h0⟩
      | succ k ih =>
        intro hk
        obtain ⟨hG, hR⟩ := ih (by omega)
        by_cases hrun : r (f k)
        · by_cases hGk : G k
          · refine ⟨fun i hi ↦ ?_, hstep k hR hrun hGk⟩
            rcases Nat.lt_succ_iff_lt_or_eq.mp hi with hlt | rfl
            · exact hG i hlt
            · exact hGk
          · exact absurd ⟨k, hG, fun _ ↦ hbreak k hR hrun hGk hP⟩ hno
        · exact absurd ⟨k, hG, fun h ↦ absurd h hrun⟩ hno
    exact hno ⟨N, (hkeep N (Nat.le_refl N)).1, fun h ↦ absurd h hN⟩
  · rintro ⟨n, hG, hE⟩
    by_contra hP
    have hkeep : ∀ k, k ≤ n → R (f k) (g k) := by
      intro k
      induction k with
      | zero => exact fun _ ↦ h0
      | succ k ih =>
        intro hk
        have hR := ih (by omega)
        by_cases hrun : r (f k)
        · exact hstep k hR hrun (hG k (by omega))
        · exact absurd (hend k hR hrun) hP
    have hR := hkeep n (Nat.le_refl n)
    by_cases hrun : r (f n)
    · exact hP (hexit n hR hrun (hE hrun))
    · exact hP (hend n hR hrun)

/-- A log that every turn extends is extended by any later one. -/
theorem prefix_of_le {l : ℕ → List α} (h : ∀ i, l i <+: l (i + 1)) {i j : ℕ} (hij : i ≤ j) :
    l i <+: l j := by
  induction hij with
  | refl => exact List.prefix_rfl
  | step _ ih => exact ih.trans (h _)

variable {p : σ → Prop}

section

variable (hstop : ∀ i, p (f i) → f (i + 1) = f i)
include hstop

/-- A loop that stays where it ended is still there later. -/
theorem eq_of_ended {i j : ℕ} (hi : p (f i)) (hij : i ≤ j) : f j = f i := by
  induction hij with
  | refl => rfl
  | @step j _ ih => rw [hstop j (by rw [ih]; exact hi), ih]

/-- Two states a loop has ended in are the same. -/
theorem eq_of_ended_of_ended {i j : ℕ} (hi : p (f i)) (hj : p (f j)) : f i = f j := by
  rcases Nat.le_total i j with hij | hji
  · exact (eq_of_ended hstop hi hij).symm
  · exact eq_of_ended hstop hj hji

/-- A log that every turn extends is extended by the log at the end. -/
theorem prefix_of_ended {log : σ → List α}
    (hgrow : ∀ i, log (f i) <+: log (f (i + 1))) {i j : ℕ} (hj : p (f j)) : log (f i) <+: log (f j) := by
  rcases Nat.le_total i j with hij | hji
  · exact prefix_of_le (l := fun k ↦ log (f k)) hgrow hij
  · have he : log (f i) = log (f j) := congrArg log (eq_of_ended hstop hj hji)
    exact he ▸ List.prefix_rfl

end

/-- Two logs that agreed and were extended by one entry each can only agree again if the entries
do. -/
theorem eq_of_prefix {u v : List α} {a b : α} (ha : u ++ [a] <+: v) (hb : u ++ [b] <+: v) : a = b := by
  have h : u ++ [a] = u ++ [b] :=
    (List.prefix_of_prefix_length_le ha hb (by simp)).eq_of_length (by simp)
  exact List.singleton_inj.mp (List.append_cancel_left h)

end Lockstep
