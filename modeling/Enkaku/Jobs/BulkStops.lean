import Enkaku.Jobs.BulkCancel
import Enkaku.Jobs.CancelFinal

/-!
# What one stop changes

`Stops w w' runId` is the whole effect of a stop on what the job service reads of runs: the run
itself leaves its standing for `RunStanding.stopped` of it, no other run moves, the tables keep
their shape, and the ghost records the run if it was going.  `Forest` is the shape: which job a job
can be below, which run a job has as its latest, and whose entries and whose steps the host and the
orchestrators hold.  `stopRun_spec` reduces every stop to one or two of these: the run, and the step
its orchestrator waits for.
-/

set_option autoImplicit false

namespace Enkaku

open Option

open Host RunStanding

/-- Where a stop leaves a run. -/
def RunStanding.stopped : RunStanding → RunStanding
  | queued | orphan | settled => settled
  | live | stopping => stopping

/-- What a stop of a run answers. -/
def RunStanding.outcome : RunStanding → Option StopOutcome
  | queued => some .cancelled
  | live | stopping | orphan => some .aborted
  | settled => none

namespace RunStanding

@[simp] theorem going_stopped (x : RunStanding) : x.stopped.going = false := by
  cases x <;> rfl

@[simp] theorem stopped_stopped (x : RunStanding) : x.stopped.stopped = x.stopped := by
  cases x <;> rfl

theorem outcome_eq_none {x : RunStanding} : x.outcome = none ↔ x = .settled := by
  cases x <;> simp [outcome]

theorem stopped_ne {x : RunStanding} (h : x.going = true) : x.stopped ≠ x := by
  cases x <;> simp [going, stopped] at h ⊢

theorem stopped_eq {x : RunStanding} (h : x.going = false) : x.stopped = x := by
  cases x <;> simp [going, stopped] at h ⊢

end RunStanding

namespace Store

variable {s : Store} {runId : String} {r : JobRunRow}

theorem run?_some (h : s.run? runId = some r) : r.id = runId := by
  simpa using List.find?_some h

/-- A row found by its id is the row the guard of a writer finds when it has the status. -/
theorem runIn?_of_run? (h : s.run? runId = some r) : s.runIn? runId r.status = some r := by
  obtain ⟨hid, as, bs, heq, has⟩ := List.find?_eq_some_iff_append.mp h
  rw [runIn?, List.find?_eq_some_iff_append]
  refine ⟨by simpa using hid, as, bs, heq, fun x hx ↦ ?_⟩
  have := has x hx
  simp only [Bool.not_eq_true', decide_eq_false_iff_not] at this
  simp [this]

theorem run?_updateRun {set : JobRunRow → JobRunRow} (hset : ∀ x, (set x).id = x.id)
    (h : s.run? runId = some r) : (s.updateRun runId set).run? runId = some (set r) := by
  have hid : ((fun x ↦ decide (x.id = runId)) ∘ fun x ↦
      if decide (x.id = runId) = true then set x else x) =
        fun x : JobRunRow ↦ decide (x.id = runId) := by
    funext x
    by_cases hx : x.id = runId <;> simp [hx, hset]
  rw [run?] at h
  rw [run?, updateRun, Sql.update, List.find?_map, hid, h]
  simp [run?_some (s := s) h]

end Store

namespace JobService

/-! ## The shape of the tables -/

/-- The job a run belongs to. -/
def jobOf (w : JobService) (runId : String) : Option String :=
  (w.host.store.run? runId).map (·.jobId)

/-- The latest run of a job, by its id. -/
def latestId (w : JobService) (jobId : String) : Option String :=
  (w.host.store.latestRun jobId).map (·.id)

/-- The step the orchestrator of a run is waiting for. -/
def stepOf (w : JobService) (runId : String) : Option String := do
  let i ← w.host.running runId
  let entry ← w.host.attempts[i]?
  if entry.job.kind ≠ .workflow then none else w.currentChildRunId i

/-- What the code makes of jobs.  Only `enqueueStep` names a workflow and only a trigger names a
job or a root, each of them for a script; every other job is at the top.  `latest_run_id` is a run
of the job, an entry of the host holds the row of the run's job, and the run an orchestrator waits
for is the run of a step of its own workflow. -/
structure Forest (w : JobService) : Prop where
  ids : (w.host.store.jobs.map (·.id)).Nodup
  depth : ∀ j ∈ w.host.store.jobs, 0 ≤ j.depth
  top : ∀ j ∈ w.host.store.jobs, j.kind = .workflow →
    j.parentWorkflowJobId = none ∧ j.triggeredByJobId = none ∧ j.rootJobId = none ∧ j.depth = 0
  step : ∀ j ∈ w.host.store.jobs, ∀ p, j.parentWorkflowJobId = some p →
    j.triggeredByJobId = none ∧ j.rootJobId = none ∧
      ∀ j' ∈ w.host.store.jobs, j'.id = p → j'.kind = .workflow
  latest : ∀ j ∈ w.host.store.jobs, ∀ x, j.latestRunId = some x →
    ∀ owner, w.jobOf x = some owner → owner = j.id
  entry : ∀ runId i, w.host.running runId = some i → ∃ a, w.host.attempts[i]? = some a ∧
    a.run.id = runId ∧ ∀ owner, w.jobOf runId = some owner →
      ∃ j ∈ w.host.store.jobs, j.id = owner ∧ a.job.id = owner ∧ a.job.kind = j.kind
  child : ∀ i a, w.host.attempts[i]? = some a → ∀ c, w.currentChildRunId i = some c →
    ∀ owner, w.jobOf c = some owner →
      ∃ j ∈ w.host.store.jobs, j.id = owner ∧ j.parentWorkflowJobId = some a.job.id

/-- A stop changes no row of `jobs`, moves no run to another job, and registers nothing. -/
structure Kept (w w' : JobService) : Prop where
  jobs : w'.host.store.jobs = w.host.store.jobs
  jobOf : ∀ x, w'.jobOf x = w.jobOf x
  running : w'.host.running = w.host.running
  entry : ∀ i : Nat, (w'.host.attempts[i]?).map (fun a : Attempt ↦ (a.job, a.run)) =
    (w.host.attempts[i]?).map fun a : Attempt ↦ (a.job, a.run)
  child : w'.currentChildRunId = w.currentChildRunId

namespace Kept

variable {w w' w'' : JobService}

theorem refl (w : JobService) : Kept w w := ⟨rfl, fun _ ↦ rfl, rfl, fun _ ↦ rfl, rfl⟩

section

variable (h : Kept w w')
include h

theorem trans (h' : Kept w' w'') : Kept w w'' :=
  ⟨h'.jobs.trans h.jobs, fun x ↦ (h'.jobOf x).trans (h.jobOf x), h'.running.trans h.running,
    fun i ↦ (h'.entry i).trans (h.entry i), h'.child.trans h.child⟩

theorem job? (jobId : String) : w'.host.store.job? jobId = w.host.store.job? jobId := by
  rw [Store.job?, Store.job?, h.jobs]

theorem attempt {i : Nat} {a : Attempt} (ha : w.host.attempts[i]? = some a) :
    ∃ a', w'.host.attempts[i]? = some a' ∧ a'.job = a.job ∧ a'.run = a.run := by
  have := h.entry i
  rw [ha, map_some, map_eq_some_iff] at this
  obtain ⟨a', ha', he⟩ := this
  simp only [Prod.mk.injEq] at he
  exact ⟨a', ha', he⟩

theorem symm : Kept w' w :=
  ⟨h.jobs.symm, fun x ↦ (h.jobOf x).symm, h.running.symm, fun i ↦ (h.entry i).symm, h.child.symm⟩

theorem stepOf (runId : String) : w'.stepOf runId = w.stepOf runId := by
  simp only [JobService.stepOf, h.running, h.child]
  cases w.host.running runId with
  | none => rfl
  | some i =>
    cases ha : w.host.attempts[i]? with
    | none =>
      have := h.entry i
      rw [ha, map_none, map_eq_none_iff] at this
      simp [ha, this]
    | some a =>
      obtain ⟨a', ha', hj, -⟩ := h.attempt ha
      simp [ha, ha', hj]

theorem forest (hf : Forest w) : Forest w' := by
  refine ⟨by simpa [h.jobs] using hf.ids, by simpa [h.jobs] using hf.depth,
    by simpa [h.jobs] using hf.top, by simpa [h.jobs] using hf.step, ?_, ?_, ?_⟩
  · rw [h.jobs]
    intro j hj x hx owner ho
    exact hf.latest j hj x hx owner (h.jobOf x ▸ ho)
  · intro runId i hi
    rw [h.running] at hi
    obtain ⟨a, ha, hid, howner⟩ := hf.entry runId i hi
    obtain ⟨a', ha', hj, hr⟩ := h.attempt ha
    refine ⟨a', ha', hr ▸ hid, fun owner ho ↦ ?_⟩
    rw [hj, h.jobs]
    exact howner owner (h.jobOf runId ▸ ho)
  · intro i a' ha' c hc owner ho
    obtain ⟨a, ha, hj, -⟩ := h.symm.attempt ha'
    rw [h.child] at hc
    rw [h.jobs, ← hj]
    exact hf.child i a ha c hc owner (h.jobOf c ▸ ho)

end

end Kept

/-! ### Where jobs come from -/

/-- The three places that create a job: a job at the top (enqueued, dispatched, scheduled or resumed),
a step of a workflow, and a job a script triggers. -/
inductive CreatedAs (s : Store) (input : CreateJobInput) : Prop
  | top (hp : input.parentWorkflowJobId = none) (ht : input.triggeredByJobId = none)
      (hr : input.rootJobId = none) (hd : input.depth = none)
  | step (p : String) (hk : input.kind = .script) (hp : input.parentWorkflowJobId = some p)
      (ht : input.triggeredByJobId = none) (hr : input.rootJobId = none) (hd : input.depth = none)
      (hworkflow : ∀ j ∈ s.jobs, j.id = p → j.kind = .workflow)
  | triggered (hk : input.kind = .script) (hp : input.parentWorkflowJobId = none) (d : Int)
      (hd : input.depth = some d) (hpos : 0 ≤ d)

theorem latestId_eq (w : JobService) (jobId : String) : w.latestId jobId =
    (w.host.store.job? jobId).bind fun j ↦
      j.latestRunId.filter fun x ↦ (w.jobOf x).isSome := by
  rw [latestId, Store.latestRun]
  cases w.host.store.job? jobId with
  | none => rfl
  | some j =>
    cases hx : j.latestRunId with
    | none => simp [hx]
    | some x =>
      cases hr : w.host.store.run? x with
      | none => simp [hx, hr, jobOf, Option.filter]
      | some r => simp [hx, hr, jobOf, Option.filter, Store.run?_some hr]

theorem Kept.latestId {w w' : JobService} (h : Kept w w') (jobId : String) :
    w'.latestId jobId = w.latestId jobId := by
  rw [latestId_eq, latestId_eq, h.job?]
  simp only [h.jobOf]

/-- The latest run of a job belongs to it. -/
theorem Forest.jobOf_latestId {w : JobService} (hf : Forest w) {jobId x : String}
    (hx : w.latestId jobId = some x) : w.jobOf x = some jobId := by
  rw [latestId_eq, bind_eq_some_iff] at hx
  obtain ⟨j, hj, hx⟩ := hx
  obtain ⟨hmem, hid⟩ := Store.job?_some hj
  obtain ⟨hlatest, howner⟩ := filter_eq_some_iff.mp hx
  obtain ⟨owner, ho⟩ := isSome_iff_exists.mp howner
  rw [ho, hf.latest j hmem x hlatest owner ho, hid]

/-! ## One stop -/

/-- `w'` is `w` with a run stopped. -/
structure Stops (w w' : JobService) (runId : String) : Prop where
  kept : Kept w w'
  self : w'.standing runId = (w.standing runId).stopped
  others : ∀ x, x ≠ runId → w'.standing x = w.standing x
  stopped : w'.stopped =
    if (w.standing runId).going = true then w.stopped ++ [runId] else w.stopped

theorem moved_standing (w : JobService) (host : Host) (runId x : String) :
    (w.moved host runId).standing x = ({ w with host := host } : JobService).standing x := by
  rw [moved]
  split <;> rfl

theorem moved_host (w : JobService) (host : Host) (runId : String) :
    (w.moved host runId).host = host := by
  rw [moved]
  split <;> rfl

theorem moved_child (w : JobService) (host : Host) (runId : String) :
    (w.moved host runId).currentChildRunId = w.currentChildRunId := by
  rw [moved]
  split <;> rfl

theorem stops_moved {w : JobService} {host : Host} {runId : String}
    (hkept : Kept w { w with host := host })
    (hself : ({ w with host := host } : JobService).standing runId = (w.standing runId).stopped)
    (hothers : ∀ x, x ≠ runId →
      ({ w with host := host } : JobService).standing x = w.standing x) :
    Stops w (w.moved host runId) runId := by
  refine ⟨⟨?_, ?_, ?_, ?_, moved_child w host runId⟩, ?_, ?_, ?_⟩
  · rw [moved_host]
    exact hkept.jobs
  · intro x
    rw [JobService.jobOf, moved_host]
    exact hkept.jobOf x
  · rw [moved_host]
    exact hkept.running
  · rw [moved_host]
    exact hkept.entry
  · rw [moved_standing]
    exact hself
  · intro x hx
    rw [moved_standing]
    exact hothers x hx
  · rw [moved, hself]
    by_cases hg : (w.standing runId).going = true <;> simp [hg]

/-! ## The three ways a run is stopped -/

section Ways

variable {w : JobService} {run : JobRunRow}

theorem standing_congr {w w' : JobService} {x : String}
    (hrun : w'.host.store.run? x = w.host.store.run? x)
    (hentry : (w'.host.entry? x).map (·.cancelling) = (w.host.entry? x).map (·.cancelling)) :
    w'.standing x = w.standing x := by
  rw [standing, standing, hrun]
  cases w.host.store.run? x with
  | none => rfl
  | some r =>
    cases h : w.host.entry? x with
    | none =>
      rw [h, map_none, map_eq_none_iff] at hentry
      simp only [hentry]
    | some a =>
      rw [h, map_some, map_eq_some_iff] at hentry
      obtain ⟨a', ha', hc⟩ := hentry
      simp only [ha', hc]

/-- A rewrite of one row of `job_runs` keeps the shape of the tables. -/
theorem kept_updateRun {set : JobRunRow → JobRunRow} {host : Host} {runId : String}
    (hid : ∀ x, (set x).id = x.id) (hjob : ∀ x, (set x).jobId = x.jobId)
    (hrun : ∃ r, w.host.store.run? runId = some r)
    (hstore : host.store = w.host.store.updateRun runId set)
    (hrunning : host.running = w.host.running) (hattempts : host.attempts = w.host.attempts) :
    Kept w { w with host := host } := by
  refine ⟨by rw [hstore]; rfl, fun x ↦ ?_, hrunning, fun i ↦ by rw [hattempts], rfl⟩
  obtain ⟨r, hr⟩ := hrun
  rw [jobOf, jobOf, hstore]
  by_cases hx : x = runId
  · rw [hx, Store.run?_updateRun hid hr, hr, map_some, map_some, hjob]
  · rw [Store.run?_updateRun_ne hid hx]

/-- A run that ends: its row is settled, and no entry has changed. -/
theorem stops_settled (set : JobRunRow → JobRunRow) {host : Host}
    (hid : ∀ x, (set x).id = x.id) (hjob : ∀ x, (set x).jobId = x.jobId)
    (hset : ∀ x, (set x).status = .cancelled) (hrun : w.host.store.run? run.id = some run)
    (hstore : host.store = w.host.store.updateRun run.id set)
    (hrunning : host.running = w.host.running) (hattempts : host.attempts = w.host.attempts)
    (hstopped : (w.standing run.id).stopped = .settled) : Stops w (w.moved host run.id) run.id := by
  refine stops_moved (kept_updateRun hid hjob ⟨run, hrun⟩ hstore hrunning hattempts) ?_ ?_
  · rw [hstopped, standing, hstore, Store.run?_updateRun hid hrun]
    simp only [hset]
  · intro x hx
    refine standing_congr ?_ ?_
    · rw [hstore, Store.run?_updateRun_ne hid hx]
    · rw [Host.entry?, Host.entry?, hrunning, hattempts]

/-- `cancelQueuedRun`. -/
theorem stops_cancelQueuedRun (now : Int) (hrun : w.host.store.run? run.id = some run)
    (hs : run.status = .queued) : ∃ r store, w.host.store.cancelQueuedRun now run.id =
      (some r, store) ∧ Stops w (w.moved { w.host with store := store } run.id) run.id := by
  refine ⟨_, _, by rw [Store.cancelQueuedRun, ← hs, Store.runIn?_of_run? hrun], ?_⟩
  refine stops_settled (Store.cancelPatch now) (fun _ ↦ rfl) (fun _ ↦ rfl) (fun _ ↦ rfl) hrun rfl
    rfl rfl ?_
  simp [standing, hrun, hs, RunStanding.stopped]

/-- `host.abort`, of a run that has an entry. -/
theorem stops_abort (hf : Forest w) (hrun : w.host.store.run? run.id = some run)
    (hs : run.status = .running) {i : Nat} (hi : w.host.running run.id = some i) :
    ∃ host, w.host.abort run.id = (true, host) ∧ Stops w (w.moved host run.id) run.id := by
  refine ⟨_, by rw [Host.abort, hi], ?_⟩
  obtain ⟨a, ha, haid, -⟩ := hf.entry run.id i hi
  refine stops_moved ⟨rfl, fun _ ↦ rfl, rfl, fun j ↦ ?_, rfl⟩ ?_ fun x hx ↦ ?_
  · simp only [Host.modify]
    rcases eq_or_ne i j with rfl | hij
    · rw [List.getElem?_modify_eq, ha]
      cases hc : a.cancelling <;> simp [hc]
    · rw [List.getElem?_modify_ne _ _ hij]
  · simp only [standing, hrun, hs, Host.entry?, hi, Host.modify, bind_some, List.getElem?_modify_eq, ha]
    cases hc : a.cancelling <;> simp [RunStanding.stopped, hc]
  · refine standing_congr rfl ?_
    simp only [Host.entry?, Host.modify]
    cases hj : w.host.running x with
    | none => rfl
    | some j =>
      obtain ⟨b, hb, hbid, -⟩ := hf.entry x j hj
      have hij : i ≠ j := by
        rintro rfl
        rw [ha, some_inj] at hb
        exact hx (by rw [← hbid, ← hb, haid])
      rw [bind_some, bind_some, List.getElem?_modify_ne _ _ hij]

/-- `host.finishExternally`, of a run that has no entry. -/
theorem stops_finishExternally (deps : HostDeps) (now : Int) (error : String)
    (hrun : w.host.store.run? run.id = some run) (hs : run.status = .running)
    (hi : w.host.running run.id = none) {job : JobRow}
    (hjob : w.host.store.job? run.jobId = some job) :
    Stops w (w.moved (w.host.finishExternally deps now run.id .cancelled error none) run.id)
      run.id := by
  have hentry : w.host.entry? run.id = none := by rw [Host.entry?, hi, bind_none]
  have hfinish : w.host.finishExternally deps now run.id .cancelled error none =
      w.host.settle deps now job run .cancelled { error := some error, code := none } := by
    simp only [finishExternally, hentry, hi, map_none, none_or, hrun, hjob]
  have hdrop : (w.host.dropEntry run.id).attempts = w.host.attempts := by
    simp only [dropEntry, hi]
  rw [hfinish]
  refine stops_settled (Store.settlePatch now (settleInput deps w.host.settings job run
    .cancelled { error := some error, code := none })) (fun _ ↦ rfl) (fun _ ↦ rfl) (fun _ ↦ rfl)
    hrun ?_ ?_ ?_ ?_
  · rw [settle_store_of_not_rebinds (rebinds_eq_false _ (by simp)), Store.settle, ← hs,
      Store.runIn?_of_run? hrun]
  · rw [settle_running, Function.update_eq_self_iff]
    exact hi.symm
  · rw [settle, if_neg (by simp [rebinds])]
    exact hdrop
  · simp [standing, hrun, hs, hentry, RunStanding.stopped]

end Ways

/-- A run there is nothing left to stop of. -/
theorem Stops.refl {w : JobService} {x : String} (h : w.standing x = .settled) : Stops w w x :=
  ⟨Kept.refl w, by rw [h]; rfl, fun _ _ ↦ rfl, by simp [h, going]⟩

/-! ## `stopRun` -/

namespace Forest

variable {w : JobService} (hf : Forest w)

include hf

theorem eq_of_id {j j' : JobRow} (hj : j ∈ w.host.store.jobs) (hj' : j' ∈ w.host.store.jobs)
    (h : j.id = j'.id) : j = j' :=
  List.inj_on_of_nodup_map hf.ids hj hj' h

theorem job?_eq {j : JobRow} (hj : j ∈ w.host.store.jobs) : w.host.store.job? j.id = some j := by
  cases h : w.host.store.job? j.id with
  | none => exact absurd (List.find?_eq_none.mp h j hj) (by simp)
  | some j' =>
    obtain ⟨hj', hid⟩ := Store.job?_some h
    rw [hf.eq_of_id hj' hj hid]

/-- A step is a script job. -/
theorem script_of_parent {j : JobRow} (hj : j ∈ w.host.store.jobs) {p : String}
    (hp : j.parentWorkflowJobId = some p) : j.kind ≠ .workflow := by
  intro hk
  rw [(hf.top j hj hk).1] at hp
  cases hp

/-- The orchestrator of a run waits for a step of the run's own job. -/
theorem parent_of_stepOf {x c owner : String} (hc : w.stepOf x = some c)
    (hx : w.jobOf x = some owner) {stepOwner : String} (ho : w.jobOf c = some stepOwner) :
    ∃ j ∈ w.host.store.jobs, j.id = stepOwner ∧ j.parentWorkflowJobId = some owner := by
  simp only [stepOf, bind_eq_bind, bind_eq_some_iff] at hc
  obtain ⟨i, hi, a, ha, hc⟩ := hc
  split at hc
  · cases hc
  · obtain ⟨a', ha', -, howner⟩ := hf.entry x i hi
    rw [ha, some_inj] at ha'
    subst ha'
    obtain ⟨-, -, -, hjob, -⟩ := howner owner hx
    rw [← hjob]
    exact hf.child i a ha c hc stepOwner ho

/-- Only the orchestrator of a workflow waits for a step. -/
theorem stepOf_script {x owner : String} (hx : w.jobOf x = some owner) {j : JobRow}
    (hj : j ∈ w.host.store.jobs) (hid : j.id = owner) (hk : j.kind ≠ .workflow) : w.stepOf x = none := by
  simp only [stepOf, bind_eq_bind, bind_eq_none_iff]
  intro i hi a ha
  obtain ⟨a', ha', -, howner⟩ := hf.entry x i hi
  rw [ha, some_inj] at ha'
  subst ha'
  obtain ⟨j', hj', hid', -, hkind⟩ := howner owner hx
  rw [if_pos]
  rw [hkind, hf.eq_of_id hj' hj (hid'.trans hid.symm)]
  exact hk

end Forest

/-- The step that is stopped together with a run. -/
def fires (w : JobService) (runId : String) : Option String :=
  if w.standing runId = .live then w.stepOf runId else none

theorem currentStep_eq_fires {w : JobService} {run : JobRunRow}
    (hrun : w.host.store.run? run.id = some run) (hs : run.status = .running) :
    w.currentStep run.id = w.fires run.id := by
  simp only [currentStep, fires, stepOf, standing, hrun, hs, entry?]
  cases w.host.running run.id with
  | none => simp
  | some i =>
    cases ha : w.host.attempts[i]? with
    | none => simp [ha]
    | some a => cases hc : a.cancelling <;> simp [ha, hc]

/-- `w'` is `w` with these runs stopped, one after the other. -/
inductive StopAll : JobService → List String → JobService → Prop
  | nil (w : JobService) : StopAll w [] w
  | cons {w w₁ w' : JobService} {x : String} {xs : List String} (h : Stops w w₁ x)
      (hs : StopAll w₁ xs w') : StopAll w (x :: xs) w'

section Stop

variable {deps : HostDeps} {now : Int} {w : JobService} {run : JobRunRow}

/-- A run whose abort nothing listens to. -/
theorem stopRunAt_quiet (hf : Forest w) (hrun : w.host.store.run? run.id = some run)
    (hjob : (w.host.store.job? run.jobId).isSome) (hq : w.fires run.id = none) (level : Nat) :
    (stopRunAt deps now (level + 1) w run).1 = (w.standing run.id).outcome ∧
      Stops w (stopRunAt deps now (level + 1) w run).2 run.id := by
  rw [stopRunAt.eq_def]
  cases hs : run.status with
  | queued =>
    obtain ⟨r, store, he, hstops⟩ := stops_cancelQueuedRun now hrun hs
    simp only [hs, he]
    exact ⟨by simp [standing, hrun, hs, outcome], hstops⟩
  | running =>
    cases hi : w.host.running run.id with
    | none =>
      obtain ⟨job, hjob⟩ := isSome_iff_exists.mp hjob
      have he : w.host.abort run.id = (false, w.host) := by rw [abort, hi]
      simp only [hs, he]
      exact ⟨by simp [standing, hrun, hs, entry?, hi, outcome],
        stops_finishExternally deps now _ hrun hs hi hjob⟩
    | some i =>
      obtain ⟨host, he, hstops⟩ := stops_abort hf hrun hs hi
      obtain ⟨a, ha, -⟩ := hf.entry run.id i hi
      simp only [hs, he, currentStep_eq_fires hrun hs, hq]
      refine ⟨?_, hstops⟩
      cases hc : a.cancelling <;>
        simp [standing, hrun, hs, entry?, hi, ha, hc, outcome]
  | _ =>
    simp only [hs]
    exact ⟨by simp [standing, hrun, hs, outcome],
      Stops.refl (by simp [standing, hrun, hs])⟩

/-- **What `stopRun` does**: it stops the run, and the step that the run's orchestrator is waiting
for. -/
theorem stopRun_spec (hf : Forest w) (hrun : w.host.store.run? run.id = some run)
    (hjob : (w.host.store.job? run.jobId).isSome) :
    (w.stopRun deps now run).1 = (w.standing run.id).outcome ∧
      StopAll w (run.id :: (w.fires run.id).toList) (w.stopRun deps now run).2 := by
  cases hq : w.fires run.id with
  | none =>
    obtain ⟨ho, hstops⟩ := @stopRunAt_quiet deps now w run hf hrun hjob hq w.host.attempts.length
    exact ⟨ho, .cons hstops (.nil _)⟩
  | some c =>
    have hlive : w.standing run.id = .live := by
      by_contra hlive
      rw [fires, if_neg hlive] at hq
      cases hq
    have hs : run.status = .running := by
      cases h : run.status <;> simp_all [standing]
    have hstep : w.stepOf run.id = some c := by rwa [fires, if_pos hlive] at hq
    obtain ⟨i, hi, a, ha, -⟩ : ∃ i, w.host.running run.id = some i ∧
        ∃ a, w.host.attempts[i]? = some a ∧ True := by
      simp only [stepOf, bind_eq_bind, bind_eq_some_iff] at hstep
      obtain ⟨i, hi, a, ha, -⟩ := hstep
      exact ⟨i, hi, a, ha, trivial⟩
    obtain ⟨level, hlevel⟩ : ∃ level, w.host.attempts.length = level + 1 :=
      Nat.exists_eq_add_one.mpr (by have := (List.getElem?_eq_some_iff.mp ha).1; omega)
    obtain ⟨host, he, hstops⟩ := stops_abort hf hrun hs hi
    have hf' := hstops.kept.forest hf
    have howner : w.jobOf run.id = some run.jobId := by simp [jobOf, hrun]
    rw [stopRun, hlevel, stopRunAt.eq_def]
    simp only [hs, he, currentStep_eq_fires hrun hs, hq, hlive, outcome]
    -- The abort listener reads the step's run and job, and stops the run.
    cases hc : (w.moved host run.id).host.store.run? c with
    | none =>
      exact ⟨rfl, .cons hstops (.cons (Stops.refl (by simp [standing, hc])) (.nil _))⟩
    | some r =>
      have hid : r.id = c := Store.run?_some hc
      have ho : (w.moved host run.id).jobOf c = some r.jobId := by simp [jobOf, hc]
      obtain ⟨j, hj, hjid, hparent⟩ := hf'.parent_of_stepOf
        ((hstops.kept.stepOf run.id).trans hstep)
        ((hstops.kept.jobOf run.id).trans howner) ho
      have hsome : ((w.moved host run.id).host.store.job? r.jobId).isSome := by
        rw [← hjid, hf'.job?_eq hj]
        rfl
      have hquiet : (w.moved host run.id).fires c = none := by
        rw [fires]
        split
        · exact hf'.stepOf_script ho hj hjid (hf'.script_of_parent hj hparent)
        · rfl
      simp only [if_pos hsome]
      subst hid
      obtain ⟨-, hstops'⟩ := @stopRunAt_quiet deps now _ r hf' hc hsome hquiet level
      exact ⟨trivial, .cons hstops (.cons hstops' (.nil _))⟩

end Stop

/-! ## Many stops -/

namespace Stops

variable {w w' : JobService} {y : String}

theorem standing_eq (h : Stops w w' y) (x : String) :
    w'.standing x = if x = y then (w.standing x).stopped else w.standing x := by
  split
  · next hx => rw [hx, h.self]
  · next hx => exact h.others x hx

/-- What is settled stays settled. -/
theorem settled (h : Stops w w' y) {x : String} (hx : w.standing x = .settled) :
    w'.standing x = .settled := by
  rw [h.standing_eq, hx]
  split <;> rfl

end Stops

namespace StopAll

variable {w w' w'' : JobService} {xs ys : List String}

section

variable (h : StopAll w xs w')
include h

theorem append (h' : StopAll w' ys w'') : StopAll w (xs ++ ys) w'' := by
  induction h with
  | nil w => exact h'
  | cons hstop _ ih => exact .cons hstop (ih h')

theorem kept : Kept w w' := by
  induction h with
  | nil w => exact Kept.refl w
  | cons hstop _ ih => exact hstop.kept.trans ih

theorem settled {x : String} (hx : w.standing x = .settled) : w'.standing x = .settled := by
  induction h with
  | nil w => exact hx
  | cons hstop _ ih => exact ih (hstop.settled hx)

/-- The runs that are not stopped do not move. -/
theorem others {x : String} (hx : x ∉ xs) : w'.standing x = w.standing x := by
  induction h with
  | nil w => rfl
  | cons hstop _ ih =>
    simp only [List.mem_cons, not_or] at hx
    obtain ⟨hne, hx⟩ := hx
    rw [ih hx, hstop.others x hne]

/-- What is stopped, however often, ends up stopped. -/
theorem stopped {x : String} (hx : x ∈ xs) : w'.standing x = (w.standing x).stopped := by
  induction h with
  | nil w => cases hx
  | @cons w w₁ w' y xs hstop hs ih =>
    have hy := hstop.standing_eq x
    by_cases hmem : x ∈ xs
    · rw [ih hmem, hy]
      split
      · rw [stopped_stopped]
      · rfl
    · obtain rfl : x = y := (List.mem_cons.mp hx).resolve_right hmem
      rw [hs.others hmem, hstop.self]

end

end StopAll

/-! ## What has been stopped since the start

Every run stands where it stood, or has been stopped once. -/

/-- The ghost against the standings of the start. -/
def Tally (w₀ w : JobService) : Prop :=
  ∀ x, w.standing x = w₀.standing x ∧ w.stopped.count x = 0 ∨
    (w₀.standing x).going = true ∧ w.standing x = (w₀.standing x).stopped ∧
      w.stopped.count x = 1

namespace Tally

variable {w₀ w w' : JobService}

theorem stops (h : Tally w₀ w) {y : String} (hs : Stops w w' y) : Tally w₀ w' := by
  intro x
  rw [hs.standing_eq, hs.stopped]
  rcases eq_or_ne x y with rfl | hne
  · rw [if_pos rfl]
    rcases h x with ⟨hx, hc⟩ | ⟨hg, hx, hc⟩
    · by_cases hg : (w.standing x).going = true
      · refine .inr ⟨hx ▸ hg, by rw [hx], ?_⟩
        rw [if_pos hg, List.count_append, hc, List.count_singleton_self]
      · rw [if_neg hg, stopped_eq (by simpa using hg)]
        exact .inl ⟨hx, hc⟩
    · refine .inr ⟨hg, by rw [hx, stopped_stopped], ?_⟩
      rw [hx, going_stopped, if_neg (by simp), hc]
  · have hcount : (if (w.standing y).going = true then w.stopped ++ [y] else w.stopped).count x =
        w.stopped.count x := by
      split
      · rw [List.count_append, List.count_singleton, if_neg (by simpa using hne.symm), Nat.add_zero]
      · rfl
    rw [if_neg hne, hcount]
    exact h x

theorem stopAll (h : Tally w₀ w) {xs : List String} (hs : StopAll w xs w') : Tally w₀ w' := by
  induction hs with
  | nil w => exact h
  | cons hstop _ ih => exact ih (h.stops hstop)

theorem mem_stopped (h : Tally w₀ w) (x : String) : x ∈ w.stopped ↔ w.standing x ≠ w₀.standing x := by
  rw [← List.count_pos_iff]
  rcases h x with ⟨hx, hc⟩ | ⟨hg, hx, hc⟩
  · simp [hx, hc]
  · simp [hx, hc, stopped_ne hg]

end Tally

/-- A run that has been stopped stays as it is. -/
theorem Tally.ne_stops {w₀ w w' : JobService} (ht : Tally w₀ w) {x y : String}
    (hx : w.standing x ≠ w₀.standing x) (hs : Stops w w' y) : w'.standing x ≠ w₀.standing x := by
  rw [hs.standing_eq]
  rcases ht x with ⟨he, -⟩ | ⟨hg, he, -⟩
  · exact absurd he hx
  · rw [he]
    split
    · rw [stopped_stopped]
      exact stopped_ne hg
    · exact stopped_ne hg

theorem Tally.ne_stopAll {w₀ w w' : JobService} (ht : Tally w₀ w) {x : String} {xs : List String}
    (hx : w.standing x ≠ w₀.standing x) (hs : StopAll w xs w') : w'.standing x ≠ w₀.standing x := by
  induction hs with
  | nil w => exact hx
  | cons hstop _ ih => exact ih (ht.stops hstop) (ht.ne_stops hx hstop)

/-- The run has been stopped, in this call or before it. -/
def Ended (w₀ w : JobService) (x : String) : Prop :=
  w.standing x ≠ w₀.standing x ∨ w₀.standing x = .stopping

namespace Ended

variable {w₀ w w' : JobService} {x : String}

theorem stopAll (h : Ended w₀ w x) (ht : Tally w₀ w) {xs : List String} (hs : StopAll w xs w') :
    Ended w₀ w' x :=
  h.imp_left fun hx ↦ ht.ne_stopAll hx hs

/-- A stop that answers something has stopped its run, or found it being stopped. -/
theorem of_stopAll (ht : Tally w₀ w) {xs : List String} (hs : StopAll w xs w') (hx : x ∈ xs)
    (ho : w.standing x ≠ .settled) : Ended w₀ w' x := by
  rw [Ended, hs.stopped hx]
  rcases ht x with ⟨he, -⟩ | ⟨hg, he, -⟩
  · rw [he] at ho ⊢
    cases h : w₀.standing x <;> simp_all [RunStanding.stopped]
  · rw [he, stopped_stopped]
    exact .inl (stopped_ne hg)

/-- A run that has ended was stopped exactly once: in the call, or before it. -/
theorem once (h : Ended w₀ w x) (ht : Tally w₀ w) :
    w.stopped.count x + (if w₀.standing x = .stopping then 1 else 0) = 1 := by
  rcases ht x with ⟨he, hc⟩ | ⟨hg, he, hc⟩
  · rw [hc, if_pos (h.resolve_left fun hne ↦ hne he)]
  · rw [hc, if_neg fun hs ↦ by simp [hs, going] at hg]

end Ended

end JobService

end Enkaku
