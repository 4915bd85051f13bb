import Mathlib

/-!
# Barriers

Tasks stand on the stages of a linear order, and a stage is a *barrier*: while a task of a stage is
active, every task of an earlier stage is done.  `Barrier.Holds k T` says so of the tasks in `T`,
and three rules say how it survives a change of the tasks.

* `Holds.evolve`: tasks that move on without changing their stage, none of them becoming active;
* `Holds.activate`: the same, but a task may become active on a stage that is `Clear`, one below
  which everything is done;
* `Holds.extend`: new tasks appear when all there were are done, and only those of the lowest new
  stage are active.
-/

set_option autoImplicit false

namespace Barrier

variable {α σ : Type*}

/-- What a task is, as far as barriers go: its stage, and whether it is active and done. -/
structure Kind (α σ : Type*) where
  stage : α → σ
  active : α → Prop
  done : α → Prop
  /-- A task that is done is not active. -/
  not_active_of_done : ∀ a, done a → ¬ active a

variable {k : Kind α σ} {T T' : α → Prop}

/-- `a'` is what became of the task `a`: it stayed on its stage, and what was done is done. -/
structure Became (k : Kind α σ) (a a' : α) : Prop where
  stage : k.stage a' = k.stage a
  done : k.done a → k.done a'

variable [LinearOrder σ]

/-- Every task below the stage is done. -/
def Clear (k : Kind α σ) (T : α → Prop) (x : σ) : Prop := ∀ b, T b → k.stage b < x → k.done b

/-- Below the stage of an active task everything is done. -/
def Holds (k : Kind α σ) (T : α → Prop) : Prop := ∀ a, T a → k.active a → Clear k T (k.stage a)

/-- Tasks that stay on their stages leave a clear stage clear. -/
theorem Clear.evolve {x : σ} (h : Clear k T x) (hT : ∀ a', T' a' → ∃ a, T a ∧ Became k a a') :
    Clear k T' x := by
  intro b' hb' hlt
  obtain ⟨b, hb, hbecame⟩ := hT b' hb'
  exact hbecame.done (h b hb (hbecame.stage ▸ hlt))

/-- A task may become active where the stages below are clear. -/
theorem Holds.activate (h : Holds k T) (hT : ∀ a', T' a' → ∃ a, T a ∧ Became k a a' ∧
    (k.active a' → k.active a ∨ Clear k T (k.stage a))) : Holds k T' := by
  have hbecame : ∀ a', T' a' → ∃ a, T a ∧ Became k a a' := fun a' ha' ↦ by
    obtain ⟨a, ha, hba, -⟩ := hT a' ha'
    exact ⟨a, ha, hba⟩
  intro a' ha' hactive
  obtain ⟨a, ha, hba, hwas⟩ := hT a' ha'
  have hclear : Clear k T (k.stage a) := by
    rcases hwas hactive with hwas | hclear
    · exact h a ha hwas
    · exact hclear
  rw [hba.stage]
  exact hclear.evolve hbecame

/-- New tasks above stage `x` may appear when all others are done, those of stage `x` active. -/
theorem Holds.extend {x : σ} (hT : ∀ a', T' a' → k.done a' ∨
    x ≤ k.stage a' ∧ (k.active a' → k.stage a' = x)) : Holds k T' := by
  intro a' ha' hactive b' hb' hlt
  rcases hT a' ha' with hdone | ⟨-, hstage⟩
  · exact absurd hactive (k.not_active_of_done a' hdone)
  · rcases hT b' hb' with hdone | ⟨hle, -⟩
    · exact hdone
    · rw [hstage hactive] at hlt
      exact absurd hlt hle.not_gt

end Barrier
