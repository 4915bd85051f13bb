import Enkaku.Queue.Ops

/-!
# Device exclusivity

Two runs share a device only as a workflow's own run and one step of that workflow.

The claim enforces this with one negated `EXISTS` over the running rows, and every other writer can
only take a run out of `running`.  The invariant is `Exclusive`: at most two runs run on a device,
and any two that do are a step and its workflow.  The step that carries it is `room_of_claim` — a
claim is never made on a device that two runs hold, because both would have to be the claimed run's
workflow, and a workflow is not a step of itself.
-/

set_option autoImplicit false

namespace Enkaku.Store

/-- Whether a row is running on a device. -/
def runsOn (d : String) (r : JobRunRow) : Bool :=
  decide (r.deviceId = d) && decide (r.status = .running)

/-- The runs running on a device. -/
def runningOn (s : Store) (d : String) : List JobRunRow := s.runs.filter (runsOn d)

/-- The run belongs to a job that is a step of this workflow job. -/
def IsStepOf (s : Store) (x : JobRunRow) (workflowJobId : String) : Prop :=
  ∃ j ∈ s.jobs, j.id = x.jobId ∧ j.parentWorkflowJobId = some workflowJobId

/-- One of the two runs is of a step, and the other of the workflow it is a step of. -/
def StepAndWorkflow (s : Store) (x y : JobRunRow) : Prop :=
  s.IsStepOf x y.jobId ∨ s.IsStepOf y x.jobId

/-- The invariant behind device exclusivity. -/
structure Exclusive (s : Store) : Prop where
  atMostTwo : ∀ d, (s.runningOn d).length ≤ 2
  related : ∀ x ∈ s.runs, ∀ y ∈ s.runs, x.status = .running → y.status = .running →
    x.deviceId = y.deviceId → x.id ≠ y.id → s.StepAndWorkflow x y

section Lemmas

variable {s : Store} {x y : JobRunRow} {d : String}

theorem runsOn_iff : runsOn d x = true ↔ x.deviceId = d ∧ x.status = .running := by
  simp [runsOn]

theorem mem_runningOn : x ∈ s.runningOn d ↔ x ∈ s.runs ∧ x.deviceId = d ∧ x.status = .running := by
  rw [runningOn, List.mem_filter, runsOn_iff]

theorem length_runningOn : (s.runningOn d).length = s.runs.countP (runsOn d) :=
  (List.countP_eq_length_filter).symm

theorem Keys.nodup_runningOn (hk : Keys s) (d : String) :
    (s.runningOn d).Pairwise fun x y ↦ x.id ≠ y.id :=
  (List.pairwise_map.mp hk.run_ids).sublist List.filter_sublist

theorem StepAndWorkflow.symm (h : s.StepAndWorkflow x y) : s.StepAndWorkflow y x := Or.symm h

/-- Jobs keep their ids and their parents, so steps stay steps. -/
theorem StepAndWorkflow.of_jobs {s' : Store} {x' y' : JobRunRow} (h : s.StepAndWorkflow x y)
    (hjobs : ∀ j ∈ s.jobs, ∃ j' ∈ s'.jobs, JobKept j j') (hx : x'.jobId = x.jobId)
    (hy : y'.jobId = y.jobId) : s'.StepAndWorkflow x' y' := by
  have hstep : ∀ {a a' : JobRunRow} {w : String}, a'.jobId = a.jobId → s.IsStepOf a w →
      s'.IsStepOf a' w := by
    intro a a' w ha ⟨j, hj, hid, hp⟩
    obtain ⟨j', hj', hkept⟩ := hjobs j hj
    exact ⟨j', hj', by rw [hkept.id, hid, ha], hkept.parent.trans hp⟩
  rcases h with h | h
  · exact .inl (hy ▸ hstep hx h)
  · exact .inr (hx ▸ hstep hy h)

/-- A workflow is not a step of itself, so the two runs are of different jobs. -/
theorem Keys.jobId_ne (hk : Keys s) (h : s.StepAndWorkflow x y) : x.jobId ≠ y.jobId := by
  intro he
  rcases h with ⟨j, hj, hid, hp⟩ | ⟨j, hj, hid, hp⟩
  · exact hk.not_own_parent j hj (by rw [hp, hid, he])
  · exact hk.not_own_parent j hj (by rw [hp, hid, he])

/-- A step and its workflow are not two steps of one workflow. -/
theorem Keys.not_siblings (hk : Keys s) (h : s.StepAndWorkflow x y) (w : String) :
    ¬ (s.IsStepOf x w ∧ s.IsStepOf y w) := by
  rintro ⟨⟨jx, hjx, hidx, hpx⟩, ⟨jy, hjy, hidy, hpy⟩⟩
  rcases h with ⟨j, hj, hid, hp⟩ | ⟨j, hj, hid, hp⟩
  · obtain rfl := hk.job_eq hj hjx (hid.trans hidx.symm)
    have hw : w = y.jobId := Option.some.inj (hpx.symm.trans hp)
    exact hk.not_own_parent jy hjy (by rw [hpy, hidy, hw])
  · obtain rfl := hk.job_eq hj hjy (hid.trans hidy.symm)
    have hw : w = x.jobId := Option.some.inj (hpy.symm.trans hp)
    exact hk.not_own_parent jx hjx (by rw [hpx, hidx, hw])

end Lemmas

/-! ## The claim -/

section Claim

variable {s : Store} {now jobTtlSec : Int} {excludeDeviceIds : List String} {c : Candidate}

/-- The row a claim rewrites is the one it chose. -/
theorem Keys.eq_claimed (hk : Keys s) (hc : Claimed s now excludeDeviceIds c) {r : JobRunRow}
    (hr : r ∈ s.runs) (hid : r.id = c.run.id) : r = c.run :=
  List.inj_on_of_nodup_map hk.run_ids hr hc.run_mem hid

/-- The rows after a claim: the claimed one, and the others as they were. -/
theorem Keys.mem_claimRow (hk : Keys s) (hc : Claimed s now excludeDeviceIds c) {r' : JobRunRow}
    (h : r' ∈ (s.claimRow now jobTtlSec c).runs) :
    (r' ∈ s.runs ∧ r'.id ≠ c.run.id) ∨ r' = claimPatch now jobTtlSec c.run := by
  obtain ⟨r, hr, rfl⟩ := Sql.mem_update h
  by_cases hid : r.id = c.run.id
  · rw [if_pos (decide_eq_true hid), hk.eq_claimed hc hr hid]
    exact .inr rfl
  · rw [if_neg (by simpa using hid)]
    exact .inl ⟨hr, hid⟩

/-- **A claim finds room.**  At most one run runs on the device of the run that is claimed. -/
theorem Exclusive.room_of_claim (h : Exclusive s) (hk : Keys s)
    (hc : Claimed s now excludeDeviceIds c) : (s.runningOn c.run.deviceId).length ≤ 1 := by
  have hne := hk.nodup_runningOn c.run.deviceId
  have hmem : ∀ x ∈ s.runningOn c.run.deviceId, x ∈ s.runs ∧ x.deviceId = c.run.deviceId ∧
      x.status = .running := fun x hx ↦ mem_runningOn.mp hx
  rcases hl : s.runningOn c.run.deviceId with _ | ⟨x, _ | ⟨y, rest⟩⟩
  · simp
  · simp
  · rw [hl] at hne hmem
    obtain ⟨hx, hxd, hxr⟩ := hmem x (by simp)
    obtain ⟨hy, hyd, hyr⟩ := hmem y (by simp)
    have hxy : x.id ≠ y.id := List.rel_of_pairwise_cons hne (by simp)
    -- both hold the device, so both are runs of the claimed run's workflow
    have hpx := hc.alone x hx hxd hxr
    have hpy := hc.alone y hy hyd hyr
    have hjob : x.jobId = y.jobId := Option.some.inj (hpx.symm.trans hpy)
    exact absurd hjob (hk.jobId_ne (h.related x hx y hy hxr hyr (hxd.trans hyd.symm) hxy))

/-- Claiming keeps exclusivity. -/
theorem Exclusive.claim (h : Exclusive s) (hk : Keys s) (hc : Claimed s now excludeDeviceIds c) :
    Exclusive (s.claimRow now jobTtlSec c) := by
  have hjobs : ∀ j ∈ s.jobs, ∃ j' ∈ (s.claimRow now jobTtlSec c).jobs, JobKept j j' :=
    fun j hj ↦ ⟨j, hj, JobKept.refl j⟩
  -- a run that was running beside the claimed one belongs to its workflow
  have hbeside : ∀ x ∈ s.runs, x.status = .running → x.deviceId = c.run.deviceId →
      (s.claimRow now jobTtlSec c).StepAndWorkflow (claimPatch now jobTtlSec c.run) x := by
    intro x hx hxr hxd
    exact .inl ⟨c.job, hc.job_mem, hc.job_id, hc.alone x hx hxd hxr⟩
  refine ⟨fun d ↦ ?_, ?_⟩
  · rw [length_runningOn]
    by_cases hd : d = c.run.deviceId
    · have hroom := h.room_of_claim hk hc
      rw [length_runningOn, ← hd] at hroom
      have hsucc := Sql.countP_update_le_succ hk.run_ids c.run.id (claimPatch now jobTtlSec)
        (runsOn d)
      exact hsucc.trans (by omega)
    · refine (Sql.countP_map_le fun r hr hq ↦ ?_).trans (length_runningOn ▸ h.atMostTwo d)
      by_cases hid : r.id = c.run.id
      · rw [if_pos (decide_eq_true hid), runsOn_iff, hk.eq_claimed hc hr hid] at hq
        exact absurd hq.1.symm hd
      · rwa [if_neg (by simpa using hid)] at hq
  · intro x hx y hy hxr hyr hd hne
    rcases hk.mem_claimRow hc hx with ⟨hx, -⟩ | rfl <;>
      rcases hk.mem_claimRow hc hy with ⟨hy, -⟩ | rfl
    · exact (h.related x hx y hy hxr hyr hd hne).of_jobs hjobs rfl rfl
    · exact (hbeside x hx hxr hd).symm
    · exact hbeside y hy hyr hd.symm
    · exact absurd rfl hne

end Claim

/-! ## Every call -/

/-- A table whose running runs were all running before, on the same device and for the same job,
is as exclusive as it was. -/
theorem Exclusive.of_running {s s' : Store} (h : Exclusive s)
    (hjobs : ∀ j ∈ s.jobs, ∃ j' ∈ s'.jobs, JobKept j j')
    (hcount : ∀ d, s'.runs.countP (runsOn d) ≤ s.runs.countP (runsOn d))
    (hruns : ∀ r' ∈ s'.runs, r'.status = .running → ∃ r ∈ s.runs, RunKept r r') : Exclusive s' := by
  refine ⟨fun d ↦ ?_, ?_⟩
  · have htwo := h.atMostTwo d
    rw [length_runningOn] at htwo ⊢
    exact (hcount d).trans htwo
  · intro x' hx' y' hy' hxr hyr hd hne
    obtain ⟨x, hx, hkx⟩ := hruns x' hx' hxr
    obtain ⟨y, hy, hky⟩ := hruns y' hy' hyr
    obtain ⟨hxr₀, hxd⟩ := hkx.running hxr
    obtain ⟨hyr₀, hyd⟩ := hky.running hyr
    rw [hxd, hyd] at hd
    rw [hkx.id, hky.id] at hne
    exact (h.related x hx y hy hxr₀ hyr₀ hd hne).of_jobs hjobs hkx.jobId hky.jobId

/-- **Every call keeps exclusivity.** -/
theorem Exclusive.change {s s' : Store} {op : Op} (hk : Keys s) (h : Exclusive s)
    (hc : Change s op s') : Exclusive s' := by
  have hmap : ∀ {g : JobRow → JobRow}, (∀ j, JobKept j (g j)) →
      ∀ j ∈ s.jobs, ∃ j' ∈ s.jobs.map g, JobKept j j' :=
    fun hg j hj ↦ ⟨_, List.mem_map_of_mem hj, hg j⟩
  have hsame : ∀ j ∈ s.jobs, ∃ j' ∈ s.jobs, JobKept j j' := fun j hj ↦ ⟨j, hj, JobKept.refl j⟩
  have hkept : ∀ r' ∈ s.runs, r'.status = .running → ∃ r ∈ s.runs, RunKept r r' :=
    fun r hr _ ↦ ⟨r, hr, RunKept.refl r⟩
  cases hc with
  | rewrite hf hg =>
    refine h.of_running (hmap fun j ↦ (hg j).toJobKept) (fun d ↦ ?_) ?_
    · refine Sql.countP_map_le fun r _ hq ↦ ?_
      obtain ⟨hd, hr⟩ := runsOn_iff.mp hq
      obtain ⟨hr₀, hd₀⟩ := (hf r).running hr
      exact runsOn_iff.mpr ⟨hd₀ ▸ hd, hr₀⟩
    · intro r' hr' _
      obtain ⟨r, hr, rfl⟩ := List.mem_map.mp hr'
      exact ⟨r, hr, hf r⟩
  | claim hc => exact h.claim hk hc
  | @addRun _ _ _ r _ _ _ _ _ hq =>
    have hnot : r.status ≠ .running := by simp [hq]
    refine h.of_running (hmap (jobKept_latestSet _ _ _)) (fun d ↦ ?_) ?_
    · rw [List.countP_append]
      simp [runsOn, hnot]
    · intro r' hr' hrun
      rcases List.mem_append.mp hr' with hr' | hr'
      · exact hkept r' hr' hrun
      · exact absurd hrun (List.mem_singleton.mp hr' ▸ hnot)
  | createJob =>
    exact h.of_running (fun j hj ↦ ⟨j, List.mem_append_left _ hj, JobKept.refl j⟩)
      (fun _ ↦ le_rfl) hkept
  | deleteRuns _ =>
    refine h.of_running (hmap (jobKept_recounted _ _)) (fun d ↦ ?_) ?_
    · exact List.Sublist.countP_le List.filter_sublist
    · exact fun r' hr' hrun ↦ hkept r' (List.mem_of_mem_filter hr') hrun
  | devices _ => exact h.of_running hsame (fun _ ↦ le_rfl) hkept
  | insertBatch _ => exact h.of_running hsame (fun _ ↦ le_rfl) hkept

theorem Reachable.exclusive {s : Store} (h : Reachable s) : Exclusive s :=
  h.invariant ⟨by simp [runningOn, empty], by simp [empty]⟩
    fun _ _ _ hk hi hc ↦ hi.change hk hc

/-- **Device exclusivity.**  In every reachable state at most two runs are running on a device, and
two that are belong to a step and to the workflow it is a step of: they are not runs of one job,
nor of two steps of one workflow. -/
theorem runningOn_exclusive {s : Store} (h : Reachable s) (d : String) :
    (s.runningOn d).length ≤ 2 ∧
      (s.runningOn d).Pairwise fun x y ↦ s.StepAndWorkflow x y ∧ x.jobId ≠ y.jobId ∧
        ∀ w, ¬ (s.IsStepOf x w ∧ s.IsStepOf y w) := by
  have hk := h.keys
  have hex := h.exclusive
  refine ⟨hex.atMostTwo d, List.Pairwise.imp_of_mem ?_ (hk.nodup_runningOn d)⟩
  intro x y hx hy hne
  obtain ⟨hx, hxd, hxr⟩ := mem_runningOn.mp hx
  obtain ⟨hy, hyd, hyr⟩ := mem_runningOn.mp hy
  have hrel := hex.related x hx y hy hxr hyr (hxd.trans hyd.symm) hne
  exact ⟨hrel, hk.jobId_ne hrel, hk.not_siblings hrel⟩

/-- A phone, a workflow on it, and one step of that workflow, both queued. -/
def flowAndStep : List Op :=
  [.putDevice ⟨"phone", "online"⟩,
    .createJob ⟨⟨0, "flow", 1⟩, { kind := .workflow, deviceId := "phone", params := .null },
      by decide⟩,
    .createJob ⟨⟨0, "step", 1⟩,
      { kind := .script, deviceId := "phone", params := .null,
        parentWorkflowJobId := some "flow" }, by decide⟩,
    .addRun ⟨0, "flow-run", 1⟩ "flow" { trigger := .manual },
    .addRun ⟨0, "step-run", 1⟩ "step" { trigger := .workflowStep }]

/-- The state after both were claimed. -/
def flowAndStepRunning : Store :=
  ((((flowAndStep.foldlM exec empty).getD empty).claimNext 0 60 []).2.claimNext 0 60 []).2

theorem reachable_flowAndStepRunning : Reachable flowAndStepRunning :=
  ((reachable_of_foldlM flowAndStep rfl).claimNext 0 60 []).claimNext 0 60 []

/-- The bound of two is met: the workflow and its step run side by side. -/
theorem runningOn_exclusive_flowAndStep :
    (flowAndStepRunning.runningOn "phone").map (·.jobId) = ["flow", "step"] ∧
      (flowAndStepRunning.runningOn "phone").length ≤ 2 ∧
      (flowAndStepRunning.runningOn "phone").Pairwise fun x y ↦
        flowAndStepRunning.StepAndWorkflow x y ∧ x.jobId ≠ y.jobId ∧
          ∀ w, ¬ (flowAndStepRunning.IsStepOf x w ∧ flowAndStepRunning.IsStepOf y w) :=
  ⟨by decide +kernel, runningOn_exclusive reachable_flowAndStepRunning "phone"⟩

end Enkaku.Store
