import Enkaku.Workflow.StepCompute
import Mathlib.MeasureTheory.Measure.Lebesgue.Basic

/-!
# Switches drawn by weight

In weighted mode `computeSwitchStep` takes the weights off the scaled draw, one after the other, until
nothing is left of it.  The case that fires is the first whose weights so far reach the draw, and each
case fires for its share of the draws (`computeSwitchStep_weighted`).
-/

set_option autoImplicit false

namespace Enkaku

open MeasureTheory

/-- The sum of the weights up to an index. -/
def cumulative (weights : List ℚ) (i : Nat) : ℚ := (weights.take (i + 1)).sum

/-- The indices whose weights so far reach a scaled draw. -/
def reaching (weights : List ℚ) (scaled : ℝ) : Set Nat :=
  {i | i < weights.length ∧ scaled ≤ cumulative weights i}

section Reach

variable {w : ℚ} {ws : List ℚ} {scaled : ℝ} {i : Nat}

theorem zero_mem_reaching : 0 ∈ reaching (w :: ws) scaled ↔ scaled ≤ w := by
  simp [reaching, cumulative]

theorem succ_mem_reaching : i + 1 ∈ reaching (w :: ws) scaled ↔ i ∈ reaching ws (scaled - w) := by
  simp [reaching, cumulative, add_comm (w : ℝ)]

theorem take_sum_mono (hpos : ∀ w ∈ ws, 0 < w) {m n : Nat} (h : m ≤ n) :
    (ws.take m).sum ≤ (ws.take n).sum := by
  obtain ⟨k, rfl⟩ := Nat.exists_eq_add_of_le h
  rw [List.take_add, List.sum_append]
  exact le_add_of_nonneg_right (List.sum_nonneg fun w hw ↦
    (hpos w (List.mem_of_mem_drop (List.mem_of_mem_take hw))).le)

end Reach

/-- The weights of a switch's cases. -/
def weightsOf (cases : List SwitchCase) : List ℚ := cases.map fun c ↦ c.weight.getD 0

section Draw

variable {cases : List SwitchCase} {remaining : ℚ} {i : Nat}

theorem weightedCase_isLeast (h : weightedCase cases remaining = some i) :
    IsLeast (reaching (weightsOf cases) remaining) i := by
  induction cases generalizing remaining i with
  | nil => cases h
  | cons c cases ih =>
    rw [weightedCase] at h
    split_ifs at h with hdone
    · obtain rfl := Option.some.inj h
      exact ⟨zero_mem_reaching.mpr (by exact_mod_cast sub_nonpos.mp hdone), fun _ _ ↦ Nat.zero_le _⟩
    · obtain ⟨i, hi, rfl⟩ := Option.map_eq_some_iff.mp h
      obtain ⟨hmem, hleast⟩ := ih hi
      rw [Rat.cast_sub] at hmem hleast
      refine ⟨succ_mem_reaching.mpr hmem, ?_⟩
      rintro (_ | j) hj
      · exact absurd (sub_nonpos.mpr (by exact_mod_cast zero_mem_reaching.mp hj)) hdone
      · exact Nat.succ_le_succ (hleast (succ_mem_reaching.mp hj))

theorem weightedCase_ne_none (h : i ∈ reaching (weightsOf cases) remaining) :
    weightedCase cases remaining ≠ none := by
  induction cases generalizing remaining i with
  | nil => exact absurd h.1 (Nat.not_lt_zero i)
  | cons c cases ih =>
    rw [weightedCase]
    split_ifs with hdone
    · exact nofun
    · cases i with
      | zero => exact absurd (sub_nonpos.mpr (by exact_mod_cast zero_mem_reaching.mp h)) hdone
      | succ i =>
        have hi := succ_mem_reaching.mp h
        rw [← Rat.cast_sub] at hi
        exact fun he ↦ ih hi (Option.map_eq_none_iff.mp he)

end Draw

/-- The draws for which an index is the first to be reached. -/
def drawsOf (weights : List ℚ) (i : Nat) : Set ℝ :=
  {r | (0 ≤ r ∧ r < 1) ∧ IsLeast (reaching weights (r * weights.sum)) i}

/-- An index is first for the draws between the sums before it and with it. -/
theorem volume_drawsOf {weights : List ℚ} (hpos : ∀ w ∈ weights, 0 < w) {i : Nat}
    (hi : i < weights.length) :
    volume (drawsOf weights i) = ENNReal.ofReal (weights[i] / weights.sum : ℚ) := by
  have hall : (weights.take weights.length).sum = weights.sum := by rw [List.take_length]
  have hstart : 0 ≤ (weights.take i).sum := take_sum_mono hpos (Nat.zero_le i)
  have hend : cumulative weights i ≤ weights.sum := hall ▸ take_sum_mono hpos hi
  have hreach : cumulative weights i = (weights.take i).sum + weights[i] := List.sum_take_succ _ _ hi
  have htotal : (0 : ℝ) < weights.sum := by
    have := hpos _ (List.getElem_mem hi)
    exact_mod_cast (by linarith : 0 < weights.sum)
  have hwidth : (cumulative weights i / weights.sum : ℝ) - (weights.take i).sum / weights.sum =
      (weights[i] / weights.sum : ℚ) := by
    rw [← sub_div, hreach]
    push_cast
    ring
  refine le_antisymm ?_ ?_
  · rw [← hwidth, ← Real.volume_Icc]
    refine measure_mono fun r ⟨⟨hr, _⟩, ⟨_, hle⟩, hleast⟩ ↦ ⟨?_, (le_div_iff₀ htotal).mpr hle⟩
    refine (div_le_iff₀ htotal).mpr (le_of_not_gt fun hlt ↦ ?_)
    cases i with
    | zero => exact absurd hlt (by simpa using mul_nonneg hr htotal.le)
    | succ i => exact absurd (hleast ⟨Nat.lt_of_succ_lt hi, hlt.le⟩) (Nat.not_succ_le_self i)
  · rw [← hwidth, ← Real.volume_Ioo]
    refine measure_mono fun r ⟨hlow, hhigh⟩ ↦ ?_
    rw [div_lt_iff₀ htotal] at hlow
    rw [lt_div_iff₀ htotal] at hhigh
    have hlow' : (0 : ℝ) ≤ (weights.take i).sum := by exact_mod_cast hstart
    have hhigh' : (cumulative weights i : ℝ) ≤ weights.sum := by exact_mod_cast hend
    refine ⟨⟨by nlinarith, by nlinarith⟩, ⟨hi, hhigh.le⟩, fun j ⟨_, hj⟩ ↦ ?_⟩
    by_contra hlt
    have hbefore : (cumulative weights j : ℝ) ≤ (weights.take i).sum := by
      exact_mod_cast take_sum_mono hpos (Nat.not_le.mp hlt)
    linarith

/-- **Weighted switches draw by weight.**  The case fired is the first whose weights so far reach the
draw, none is needed past the last, and each has its weight's share of the draws. -/
theorem computeSwitchStep_weighted (ev : Evaluator) (node : SwitchNode)
    (hmode : node.mode = .weighted) (hne : node.cases ≠ [])
    (hpos : ∀ w ∈ weightsOf node.cases, 0 < w) :
    (∀ scope : ResolveScope, 0 ≤ scope.randomSeed → scope.randomSeed < 1 →
      ∃ i, weightedCase node.cases (scope.randomSeed * (weightsOf node.cases).sum) = some i ∧
        (computeSwitchStep ev node scope).takenEdge = .case i ∧
        (scope.randomSeed : ℝ) ∈ drawsOf (weightsOf node.cases) i) ∧
      ∀ i (hi : i < (weightsOf node.cases).length), volume (drawsOf (weightsOf node.cases) i) =
        ENNReal.ofReal ((weightsOf node.cases)[i] / (weightsOf node.cases).sum : ℚ) := by
  refine ⟨fun scope hr hlt ↦ ?_, fun i hi ↦ volume_drawsOf hpos hi⟩
  set weights := weightsOf node.cases with hweights
  have hlast : weights.length - 1 ∈ reaching weights (scope.randomSeed * weights.sum : ℚ) := by
    have hlength : 0 < weights.length := by simpa [hweights, weightsOf, List.length_pos_iff] using hne
    refine ⟨Nat.sub_one_lt_of_lt hlength, ?_⟩
    rw [cumulative, Nat.sub_add_cancel hlength, List.take_length]
    exact_mod_cast mul_le_of_le_one_left (List.sum_nonneg fun w hw ↦ (hpos w hw).le) hlt.le
  obtain ⟨i, hi⟩ := Option.ne_none_iff_exists'.mp (weightedCase_ne_none hlast)
  have hfired : firedIndex ev node scope = some i := by
    rw [firedIndex, hmode]
    change some ((weightedCase node.cases (scope.randomSeed * weights.sum)).getD _) = some i
    rw [hi, Option.getD_some]
  refine ⟨i, hi, by rw [computeSwitchStep, hfired], ⟨by exact_mod_cast hr, by exact_mod_cast hlt⟩, ?_⟩
  exact_mod_cast weightedCase_isLeast hi

/-- One to three; the draw is one that the first case just reaches. -/
theorem computeSwitchStep_weighted_boundary :
    (computeSwitchStep (fun _ draws _ ↦ (.error "", draws))
      ⟨.weighted, [⟨none, some 1, some "a"⟩, ⟨none, some 3, none⟩], none⟩
      ⟨[], [], [], none, none, none, none, 0, 1 / 4⟩).takenEdge = .case 0 := by
  obtain ⟨i, hi, hedge, -⟩ := (computeSwitchStep_weighted (fun _ draws _ ↦ (.error "", draws))
    ⟨.weighted, [⟨none, some 1, some "a"⟩, ⟨none, some 3, none⟩], none⟩ rfl nofun
      (by simp [weightsOf])).1 ⟨[], [], [], none, none, none, none, 0, 1 / 4⟩ (by norm_num) (by norm_num)
  have hzero : i = 0 := by
    norm_num [weightedCase, weightsOf] at hi
    exact hi.symm
  rw [hedge, hzero]

end Enkaku
