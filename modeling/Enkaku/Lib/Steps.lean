import Mathlib.Data.List.Basic
import Mathlib.Data.List.Induction

/-!
# Runs of a labelled transition system

`Steps step s es t` says that the system with the labelled step relation `step` can go from `s` to
`t` by taking the steps `es`, in that order.  The two rules every invariant proof uses are
`Steps.invariant` — what the start has and every step keeps holds at the end — and
`Steps.invariant_of_guarded`, the same for runs all of whose steps meet a condition on the state
they are taken in.

A system given by a function `f : σ → ε → Option σ`, with `none` for a step that cannot be taken
there, has the step relation `Steps.By f`; its runs are computed by folding `f` over the labels
(`steps_by_iff`), so a concrete run is checked by evaluation.
-/

set_option autoImplicit false

variable {σ ε : Type*}

/-- A finite run, read from its start: the labels are listed oldest first. -/
inductive Steps (step : σ → ε → σ → Prop) (s : σ) : List ε → σ → Prop
  | nil : Steps step s [] s
  | snoc {es : List ε} {t u : σ} {e : ε} (h : Steps step s es t) (he : step t e u) :
      Steps step s (es ++ [e]) u

namespace Steps

variable {step : σ → ε → σ → Prop} {s t u : σ} {es fs : List ε} {e : ε}

theorem single (h : step s e t) : Steps step s [e] t := snoc nil h

theorem trans (h : Steps step s es t) (h' : Steps step t fs u) : Steps step s (es ++ fs) u := by
  induction h' with
  | nil => simpa using h
  | snoc _ he ih => simpa [← List.append_assoc] using snoc ih he

theorem cons (he : step s e t) (h : Steps step t es u) : Steps step s (e :: es) u :=
  (single he).trans h

theorem snoc_iff : Steps step s (es ++ [e]) u ↔ ∃ t, Steps step s es t ∧ step t e u := by
  constructor
  · intro h
    generalize hl : es ++ [e] = l at h
    cases h with
    | nil => simp at hl
    | snoc h' he =>
      obtain ⟨rfl, hlast⟩ := List.append_inj' hl rfl
      obtain rfl : e = _ := List.singleton_inj.mp hlast
      exact ⟨_, h', he⟩
  · rintro ⟨t, h', he⟩
    exact snoc h' he

theorem append_iff : Steps step s (es ++ fs) u ↔ ∃ t, Steps step s es t ∧ Steps step t fs u := by
  refine ⟨fun h ↦ ?_, fun ⟨_, h, h'⟩ ↦ h.trans h'⟩
  induction fs using List.reverseRecOn generalizing u with
  | nil => exact ⟨u, by simpa using h, nil⟩
  | append_singleton fs e ih =>
    rw [← List.append_assoc] at h
    obtain ⟨v, hv, he⟩ := snoc_iff.mp h
    obtain ⟨t, ht, htv⟩ := ih hv
    exact ⟨t, ht, snoc htv he⟩

variable {I : σ → Prop}

/-- A property of states that every step keeps holds at the end of a run if it held at its
start. -/
theorem invariant (h : Steps step s es t) (h0 : I s) (hstep : ∀ s e t, I s → step s e t → I t) :
    I t := by
  induction h with
  | nil => exact h0
  | snoc _ he ih => exact hstep _ _ _ ih he

/-- Every step of the run was taken in a state that meets the condition `g`. -/
def Guarded (step : σ → ε → σ → Prop) (g : σ → ε → Prop) (s : σ) (es : List ε) (t : σ) : Prop :=
  Steps (fun s e t ↦ step s e t ∧ g s e) s es t

variable {g : σ → ε → Prop}

/-- A guarded run is a run. -/
theorem Guarded.steps (h : Guarded step g s es t) : Steps step s es t := by
  induction h with
  | nil => exact nil
  | snoc _ he ih => exact snoc ih he.1

/-- The invariant rule for runs all of whose steps meet a condition. -/
theorem invariant_of_guarded (h : Guarded step g s es t) (h0 : I s)
    (hstep : ∀ s e t, I s → step s e t → g s e → I t) : I t :=
  h.invariant h0 fun s e t hi he ↦ hstep s e t hi he.1 he.2

/-- In a guarded run that keeps `I`, the guard can be replaced by what it says where `I` holds. -/
theorem Guarded.imp {g' : σ → ε → Prop} (h : Guarded step g s es t) (h0 : I s)
    (hstep : ∀ s e t, I s → step s e t → g s e → I t)
    (himp : ∀ s e t, I s → step s e t → g s e → g' s e) : Guarded step g' s es t := by
  induction h with
  | nil => exact nil
  | snoc hrun he ih =>
    have hi := invariant_of_guarded hrun h0 hstep
    exact snoc ih ⟨he.1, himp _ _ _ hi he.1 he.2⟩

/-! ## Systems given by a function -/

/-- The step relation of a partial step function. -/
def By (f : σ → ε → Option σ) (s : σ) (e : ε) (t : σ) : Prop := f s e = some t

variable {f : σ → ε → Option σ}

/-- The runs of a step function are its folds. -/
theorem steps_by_iff : Steps (By f) s es t ↔ es.foldlM f s = some t := by
  constructor
  · intro h
    induction h with
    | nil => rfl
    | snoc _ he ih => simpa [By, List.foldlM_append, ih] using he
  · intro h
    induction es generalizing s with
    | nil => obtain rfl : s = t := by simpa using h
             exact nil
    | cons e es ih =>
      rw [List.foldlM_cons] at h
      obtain ⟨m, hm, h'⟩ := Option.bind_eq_some_iff.mp h
      exact cons hm (ih h')

/-- The steps of a function are determined by their labels. -/
theorem eq_of_by (h : Steps (By f) s es t) (h' : Steps (By f) s es u) : t = u :=
  Option.some.inj ((steps_by_iff.mp h).symm.trans (steps_by_iff.mp h'))

/-- Two guards a run of a function meets, it meets together. -/
theorem Guarded.and {g' : σ → ε → Prop} (h : Guarded (By f) g s es t)
    (h' : Guarded (By f) g' s es t) : Guarded (By f) (fun s e ↦ g s e ∧ g' s e) s es t := by
  induction h with
  | nil => exact nil
  | snoc hrun he ih =>
    obtain ⟨m, hrun', he'⟩ := snoc_iff.mp h'
    obtain rfl := eq_of_by (Guarded.steps hrun) (Guarded.steps hrun')
    exact snoc (ih hrun') ⟨he.1, he.2, he'.2⟩

/-- What holds at the start holds in every state that is reached exactly if every step meets the
guard, when the guard says of each step taken where it holds whether it holds after it.  `J` is what
guarded steps keep. -/
theorem always_iff_guarded {J : σ → Prop} (h : Steps (By f) s es t) (hI : I s) (hJ : J s)
    (hkeep : ∀ s e t, J s → By f s e t → g s e → J t)
    (hstep : ∀ s e t, J s → I s → By f s e t → (I t ↔ g s e)) :
    (∀ pre, pre <+: es → ∀ u, Steps (By f) s pre u → I u) ↔ Guarded (By f) g s es t := by
  induction h with
  | nil =>
    refine ⟨fun _ ↦ nil, fun _ pre hpre u hu ↦ ?_⟩
    obtain rfl := List.prefix_nil.mp hpre
    obtain rfl := eq_of_by hu nil
    exact hI
  | snoc hrun he ih =>
    constructor
    · intro hall
      have hguarded := ih.mp fun pre hpre ↦ hall pre (hpre.trans (List.prefix_append _ _))
      refine snoc hguarded ⟨he, ?_⟩
      exact (hstep _ _ _ (invariant_of_guarded hguarded hJ hkeep)
        (hall _ (List.prefix_append _ _) _ hrun) he).mp (hall _ List.prefix_rfl _ (snoc hrun he))
    · intro hguarded pre hpre u hu
      obtain ⟨m, hm, he', hg⟩ := snoc_iff.mp hguarded
      obtain rfl := eq_of_by hrun (Guarded.steps hm)
      have hbefore := ih.mpr hm
      rcases List.prefix_concat_iff.mp hpre with rfl | hpre
      · obtain rfl := eq_of_by hu (snoc hrun he)
        exact (hstep _ _ _ (invariant_of_guarded hm hJ hkeep) (hbefore _ List.prefix_rfl _ hrun)
          he).mpr hg
      · exact hbefore pre hpre u hu

/-- A guarded run of a function is a fold of it that checks the guard on the way. -/
theorem guarded_by_iff [∀ s e, Decidable (g s e)] :
    Guarded (By f) g s es t ↔ es.foldlM (fun s e ↦ if g s e then f s e else none) s = some t := by
  have hrel : (fun s e t ↦ By f s e t ∧ g s e) = By fun s e ↦ if g s e then f s e else none := by
    funext s e t
    rw [By, By]
    by_cases hg : g s e <;> simp [hg]
  rw [Guarded, hrel, steps_by_iff]

end Steps
