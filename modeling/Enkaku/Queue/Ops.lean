import Mathlib.Data.List.Dedup
import Enkaku.Lib.Steps
import Enkaku.Queue.JobStore

/-!
# Everything that happens to the queue

`Op` is one call on the tables, with what it draws from its surroundings, and `Store.exec` is what
the call does.  `Reachable` is every state some sequence of calls leads to, in any order: the
scheduler, the executor host, the reapers, the pacer and the routes all interleave here.

What an invariant has to be checked against is not the dozen calls but `Change`: the half-dozen
shapes a call's effect on the tables can take.  `change_of_exec` is the one place the calls are
taken apart.
-/

set_option autoImplicit false

namespace Enkaku

open List

/-- A `createJob` call together with the UUID it draws.  The UUID is drawn after the caller has
fixed its input, so it is not one the input mentions. -/
structure CreateJobCall where
  env : Ambient
  input : CreateJobInput
  uuid_fresh : input.parentWorkflowJobId ≠ some env.uuid

/-- One call on the tables of the queue. -/
inductive Op where
  | createJob (call : CreateJobCall)
  | addRun (env : Ambient) (jobId : String) (input : AddRunInput)
  /-- `claimNext`, when the statement returns the row `c`; a claim that returns nothing changes
  nothing. -/
  | claimNext (now jobTtlSec : Int) (excludeDeviceIds : List String) (c : Store.Candidate)
  | renewHeartbeat (now : Int) (runId : String) (ttlSec : Int)
  | settle (now : Int) (runId : String) (input : SettleRunInput)
  | cancelQueuedRun (now : Int) (runId : String)
  | expireQueued (now : Int)
  | failOrphanRunning (now : Int)
  | requeueForRebind (runId newDeviceId : String)
  | paceRun (runId : String) (p : Store.Pacing)
  | deleteRuns (runIds : List String)
  | putDevice (d : DeviceRow)
  | insertBatch (b : BatchRow)

namespace Store

/-- The tables after a transaction that may throw: a throw rolls it back. -/
def commit {α : Type} (s : Store) : Except StoreError (α × Store) → Store
  | .ok (_, s') => s'
  | .error _ => s

/-- What a call does to the tables; `none` when a claim cannot return the row it names. -/
def exec (s : Store) : Op → Option Store
  | .createJob call => some (s.commit (s.createJob call.env call.input))
  | .addRun env jobId input => some (s.commit (s.addRun env jobId input))
  | .claimNext now jobTtlSec excludeDeviceIds c =>
    if s.ClaimsRow now excludeDeviceIds c then some (s.claimRow now jobTtlSec c) else none
  | .renewHeartbeat now runId ttlSec => some (s.renewHeartbeat now runId ttlSec).2
  | .settle now runId input => some (s.settle now runId input).2
  | .cancelQueuedRun now runId => some (s.cancelQueuedRun now runId).2
  | .expireQueued now => some (s.expireQueued now).2
  | .failOrphanRunning now => some (s.failOrphanRunning now).2
  | .requeueForRebind runId newDeviceId => some (s.requeueForRebind runId newDeviceId).2
  | .paceRun runId p => some (s.paceRun runId p)
  | .deleteRuns runIds => some (s.deleteRuns runIds).2
  | .putDevice d => some (s.putDevice d)
  | .insertBatch b => some (s.commit ((s.insertBatch b).map fun s' ↦ ((), s')))

/-- A state of the tables that some sequence of calls leads to. -/
def Reachable (s : Store) : Prop := ∃ ops, Steps (Steps.By exec) empty ops s

theorem reachable_of_foldlM {s : Store} (ops : List Op) (h : ops.foldlM exec empty = some s) :
    Reachable s :=
  ⟨ops, Steps.steps_by_iff.mpr h⟩

theorem Reachable.exec {s s' : Store} {op : Op} (h : Reachable s) (hop : s.exec op = some s') :
    Reachable s' := by
  obtain ⟨ops, hops⟩ := h
  exact ⟨ops ++ [op], hops.snoc hop⟩

/-- The claim the scheduler makes is a step: `claimNext` returns a row `exec` accepts. -/
theorem exec_of_claimNext {s s' : Store} {now jobTtlSec : Int} {excludeDeviceIds : List String}
    {claimed : ClaimedJob} (h : s.claimNext now jobTtlSec excludeDeviceIds = (some claimed, s')) :
    ∃ c, s.exec (.claimNext now jobTtlSec excludeDeviceIds c) = some s' := by
  obtain ⟨c, hc, rfl, -⟩ := claimNext_some h
  exact ⟨c, by rw [Store.exec, if_pos hc]⟩

/-- Whatever a claim finds, it leads to a reachable state. -/
theorem Reachable.claimNext {s : Store} (h : Reachable s) (now jobTtlSec : Int)
    (excludeDeviceIds : List String) : Reachable (s.claimNext now jobTtlSec excludeDeviceIds).2 := by
  rcases hn : s.claimNext now jobTtlSec excludeDeviceIds with ⟨_ | claimed, s'⟩
  · rw [Store.claimNext] at hn
    split at hn
    · obtain rfl : s = s' := congrArg Prod.snd hn
      exact h
    · cases hn
  · obtain ⟨c, hc⟩ := exec_of_claimNext hn
    exact h.exec hc

/-! ## What a call can change -/

/-- The columns of a run that no call rewrites, and the two it must not touch while the run runs:
a run that is running afterwards was running before, on the same device. -/
structure RunKept (r r' : JobRunRow) : Prop where
  id : r'.id = r.id
  jobId : r'.jobId = r.jobId
  seq : r'.seq = r.seq
  scriptName : r'.scriptName = r.scriptName
  maxConcurrent : r'.maxConcurrent = r.maxConcurrent
  running : r'.status = .running → r.status = .running ∧ r'.deviceId = r.deviceId

/-- The columns of a job that no call rewrites. -/
structure JobKept (j j' : JobRow) : Prop where
  id : j'.id = j.id
  parent : j'.parentWorkflowJobId = j.parentWorkflowJobId
  batchId : j'.batchId = j.batchId

/-- A job whose run bookkeeping is untouched as well. -/
structure JobCounted (j j' : JobRow) : Prop extends JobKept j j' where
  latestRunId : j'.latestRunId = j.latestRunId
  runCount : j'.runCount = j.runCount

theorem RunKept.refl (r : JobRunRow) : RunKept r r :=
  ⟨rfl, rfl, rfl, rfl, rfl, fun h ↦ ⟨h, rfl⟩⟩

theorem JobKept.refl (j : JobRow) : JobKept j j := ⟨rfl, rfl, rfl⟩

theorem JobCounted.refl (j : JobRow) : JobCounted j j := ⟨JobKept.refl j, rfl, rfl⟩

/-- One job's run bookkeeping is set. -/
def latestSet (jobId : String) (latestRunId : Option String) (runCount : Nat) (j : JobRow) :
    JobRow :=
  if j.id = jobId then { j with latestRunId := latestRunId, runCount := runCount } else j

/-- The run bookkeeping of the jobs in a list is recomputed from the runs there are. -/
def recounted (runs : List JobRunRow) (jobIds : List String) (j : JobRow) : JobRow :=
  let mine := runs.filter fun r ↦ r.jobId = j.id
  if j.id ∈ jobIds then
    { j with latestRunId := (latestOf mine).map (·.id), runCount := mine.length }
  else j

theorem jobKept_latestSet (jobId : String) (latestRunId : Option String) (n : Nat) (j : JobRow) :
    JobKept j (latestSet jobId latestRunId n j) := by
  rw [latestSet]
  split
  · exact ⟨rfl, rfl, rfl⟩
  · exact JobKept.refl j

theorem jobKept_recounted (runs : List JobRunRow) (jobIds : List String) (j : JobRow) :
    JobKept j (recounted runs jobIds j) := by
  rw [recounted]
  split
  · exact ⟨rfl, rfl, rfl⟩
  · exact JobKept.refl j

/-- The shapes a call's effect can take.  Only the one that inserts a run says which call it is. -/
inductive Change (s : Store) : Op → Store → Prop
  /-- Rows are rewritten in place, none of them into a running one. -/
  | rewrite {op : Op} {f : JobRunRow → JobRunRow} {g : JobRow → JobRow} (hf : ∀ r, RunKept r (f r))
      (hg : ∀ j, JobCounted j (g j)) :
      Change s op { s with runs := s.runs.map f, jobs := s.jobs.map g }
  /-- One queued row is claimed. -/
  | claim {op : Op} {now jobTtlSec : Int} {excludeDeviceIds : List String} {c : Candidate}
      (h : Claimed s now excludeDeviceIds c) : Change s op (s.claimRow now jobTtlSec c)
  /-- A queued run of an existing job is inserted, numbered by the job's counter. -/
  | addRun {env : Ambient} {input : AddRunInput} {job : JobRow} {r : JobRunRow}
      (hjob : job ∈ s.jobs) (hof : r.jobId = job.id) (hseq : r.seq = job.runCount + 1)
      (hid : ∀ r' ∈ s.runs, r'.id ≠ r.id)
      (hnew : ∀ r' ∈ s.runs, r'.jobId = r.jobId → r'.seq ≠ r.seq) (hq : r.status = .queued) :
      Change s (.addRun env job.id input) { s with
        runs := s.runs ++ [r]
        jobs := s.jobs.map (latestSet r.jobId (some r.id) r.seq) }
  /-- A job without runs is inserted; it is not its own parent. -/
  | createJob {op : Op} {j : JobRow} (hid : ∀ j' ∈ s.jobs, j'.id ≠ j.id)
      (hparent : j.parentWorkflowJobId ≠ some j.id) (hlatest : j.latestRunId = none)
      (hcount : j.runCount = 0) :
      Change s op { s with jobs := s.jobs ++ [j] }
  /-- Runs are deleted, and the jobs they belonged to recounted. -/
  | deleteRuns {op : Op} {keep : JobRunRow → Bool} {jobIds : List String}
      (hjobIds : ∀ r ∈ s.runs, keep r = false → r.jobId ∈ jobIds) :
      Change s op { s with
        runs := s.runs.filter keep
        jobs := s.jobs.map (recounted (s.runs.filter keep) jobIds) }
  | devices {op : Op} (ds : List DeviceRow) : Change s op { s with devices := ds }
  /-- A batch is inserted. -/
  | insertBatch {op : Op} {b : BatchRow} (hid : ∀ b' ∈ s.batches, b'.id ≠ b.id) :
      Change s op { s with batches := s.batches ++ [b] }

namespace Change

variable {s : Store} {op : Op}

theorem same : Change s op s := by
  have h := @rewrite s op id id RunKept.refl JobCounted.refl
  simpa using h

/-- An `UPDATE` of the runs that keeps what every update keeps. -/
theorem updateRuns {p : JobRunRow → Bool} {f : JobRunRow → JobRunRow}
    (hf : ∀ r, p r = true → RunKept r (f r)) : Change s op { s with runs := Sql.update p f s.runs } := by
  have hkept : ∀ r, RunKept r (if p r = true then f r else r) := by
    intro r
    split
    · exact hf r ‹_›
    · exact RunKept.refl r
  have h := @rewrite s op _ id hkept JobCounted.refl
  rw [map_id] at h
  exact h

end Change

theorem runIn?_some {s : Store} {runId : String} {status : RunStatus} {r : JobRunRow}
    (h : s.runIn? runId status = some r) : r ∈ s.runs ∧ r.id = runId ∧ r.status = status := by
  have hp := find?_some h
  simp only [Bool.and_eq_true, decide_eq_true_eq] at hp
  exact ⟨mem_of_find?_eq_some h, hp⟩

theorem job?_some {s : Store} {jobId : String} {j : JobRow} (h : s.job? jobId = some j) :
    j ∈ s.jobs ∧ j.id = jobId :=
  ⟨mem_of_find?_eq_some h, by simpa using find?_some h⟩

theorem insertJob_ok {s s' : Store} {j : JobRow} (h : s.insertJob j = .ok s') :
    (∀ j' ∈ s.jobs, j'.id ≠ j.id) ∧ s' = { s with jobs := s.jobs ++ [j] } := by
  rw [insertJob] at h
  split at h
  · cases h
  · rename_i hid
    split at h
    · cases h
    · cases h
      exact ⟨by simpa using hid, rfl⟩

/-- What a successful `createJob` did. -/
theorem createJob_ok {s s' : Store} {env : Ambient} {input : CreateJobInput} {j : JobRow}
    (h : s.createJob env input = .ok (j, s')) :
    j = newJob env input ∧ (∀ j' ∈ s.jobs, j'.id ≠ j.id) ∧
      s' = { s with jobs := s.jobs ++ [j] } := by
  rw [createJob] at h
  by_cases h1 : input.kind = .script ∧ input.workflowName.isSome
  · rw [if_pos h1] at h
    cases h
  · by_cases h2 : input.kind = .workflow ∧ input.scriptId.isSome
    · rw [if_neg h1, if_pos h2] at h
      cases h
    · rw [if_neg h1, if_neg h2] at h
      cases hins : s.insertJob (newJob env input) with
      | error e => rw [hins] at h; cases h
      | ok s₁ =>
        rw [hins] at h
        cases h
        obtain ⟨hid, rfl⟩ := insertJob_ok hins
        exact ⟨rfl, hid, rfl⟩

theorem insertRun_ok {s s' : Store} {r : JobRunRow} (h : s.insertRun r = .ok s') :
    (∀ r' ∈ s.runs, r'.id ≠ r.id) ∧ (∀ r' ∈ s.runs, r'.jobId = r.jobId → r'.seq ≠ r.seq) ∧
      s' = { s with runs := s.runs ++ [r] } := by
  rw [insertRun] at h
  split at h
  · cases h
  · rename_i hid
    split at h
    · cases h
    · rename_i hseq
      cases h
      exact ⟨by simpa using hid, by simpa using hseq, rfl⟩

/-- What a successful `addRun` did. -/
theorem addRun_ok {s s' : Store} {env : Ambient} {jobId : String} {input : AddRunInput}
    {r : JobRunRow} (h : s.addRun env jobId input = .ok (r, s')) :
    ∃ job, s.job? jobId = some job ∧ r = s.newRun env job input ∧
      (∀ r' ∈ s.runs, r'.id ≠ r.id) ∧ (∀ r' ∈ s.runs, r'.jobId = r.jobId → r'.seq ≠ r.seq) ∧
      s' = { s with runs := s.runs ++ [r] }.setLatest job.id (some r.id) r.seq := by
  rw [addRun] at h
  split at h
  · cases h
  · rename_i job hjob
    dsimp only at h
    cases hins : s.insertRun (s.newRun env job input) with
    | error e => rw [hins] at h; cases h
    | ok s₁ =>
      rw [hins] at h
      cases h
      obtain ⟨hid, hseq, rfl⟩ := insertRun_ok hins
      exact ⟨job, hjob, rfl, hid, hseq, rfl⟩

theorem setLatest_eq (s : Store) (jobId : String) (latest : Option String) (n : Nat) :
    s.setLatest jobId latest n = { s with jobs := s.jobs.map (latestSet jobId latest n) } := by
  have hset : (fun j ↦ if decide (j.id = jobId) = true then
      { j with latestRunId := latest, runCount := n } else j) = latestSet jobId latest n := by
    funext j
    simp [latestSet]
  rw [setLatest, Sql.update, hset]

/-- Recounting job after job recounts each from the runs there are. -/
theorem foldl_recount_eq (jobIds : List String) (s : Store) :
    jobIds.foldl recount s = { s with jobs := s.jobs.map (recounted s.runs jobIds) } := by
  induction jobIds generalizing s with
  | nil =>
    have hid : recounted s.runs [] = id := by
      funext j
      simp [recounted]
    rw [foldl_nil, hid, map_id]
  | cons jobId rest ih =>
    rw [foldl_cons, ih, recount, setLatest_eq]
    simp only [map_map]
    congr 1
    refine map_congr_left fun j _ ↦ ?_
    by_cases hid : j.id = jobId <;> by_cases hrest : j.id ∈ rest <;>
      simp_all [recounted, latestSet, runsOf]

/-- The writes that leave every status but a running one. -/
theorem runKept_of_not_running {r r' : JobRunRow} (hid : r'.id = r.id) (hjob : r'.jobId = r.jobId)
    (hseq : r'.seq = r.seq) (hname : r'.scriptName = r.scriptName)
    (hmax : r'.maxConcurrent = r.maxConcurrent) (h : r'.status ≠ .running) : RunKept r r' :=
  ⟨hid, hjob, hseq, hname, hmax, fun hr ↦ absurd hr h⟩

/-- **What a call can do to the tables.** -/
theorem change_of_exec {s s' : Store} {op : Op} (h : s.exec op = some s') : Change s op s' := by
  cases op with
  | createJob call =>
    cases h
    cases hc : s.createJob call.env call.input with
    | error e => exact Change.same
    | ok p =>
      obtain ⟨j, s₁⟩ := p
      obtain ⟨rfl, hid, rfl⟩ := createJob_ok hc
      exact Change.createJob hid call.uuid_fresh rfl rfl
  | addRun env jobId input =>
    cases h
    cases hc : s.addRun env jobId input with
    | error e => exact Change.same
    | ok p =>
      obtain ⟨r, s₁⟩ := p
      obtain ⟨job, hjob, rfl, hid, hnew, rfl⟩ := addRun_ok hc
      obtain ⟨hmem, rfl⟩ := job?_some hjob
      rw [commit, setLatest_eq]
      exact Change.addRun hmem rfl rfl hid hnew rfl
  | claimNext now jobTtlSec excludeDeviceIds c =>
    rw [exec] at h
    split at h
    · rename_i hc
      cases h
      exact Change.claim (claimed_of_mem_claimable hc.1)
    · cases h
  | renewHeartbeat now runId ttlSec | paceRun runId p =>
    cases h
    exact Change.updateRuns fun r _ ↦ ⟨rfl, rfl, rfl, rfl, rfl, fun hr ↦ ⟨hr, rfl⟩⟩
  | settle now runId input =>
    cases h
    rw [settle]
    split
    · exact Change.same
    · exact Change.updateRuns fun r _ ↦
        runKept_of_not_running rfl rfl rfl rfl rfl input.status.toRunStatus_ne_running
  | cancelQueuedRun now runId =>
    cases h
    rw [cancelQueuedRun]
    split
    · exact Change.same
    · exact Change.updateRuns fun r _ ↦
        runKept_of_not_running rfl rfl rfl rfl rfl (by simp [cancelPatch])
  | expireQueued now =>
    cases h
    exact Change.updateRuns fun r _ ↦
      runKept_of_not_running rfl rfl rfl rfl rfl (by simp [expirePatch])
  | failOrphanRunning now =>
    cases h
    exact Change.updateRuns fun r _ ↦
      runKept_of_not_running rfl rfl rfl rfl rfl (by simp [orphanPatch])
  | requeueForRebind runId newDeviceId =>
    cases h
    rw [requeueForRebind]
    split
    · exact Change.same
    · rename_i before hb
      have hr : ∀ r, RunKept r (if decide (r.id = runId) then rebindPatch newDeviceId r else r) := by
        intro r
        split
        · exact runKept_of_not_running rfl rfl rfl rfl rfl (by simp [rebindPatch])
        · exact RunKept.refl r
      have hj : ∀ j, JobCounted j
          (if decide (j.id = before.jobId) then { j with deviceId := newDeviceId } else j) := by
        intro j
        split
        · exact ⟨⟨rfl, rfl, rfl⟩, rfl, rfl⟩
        · exact JobCounted.refl j
      exact Change.rewrite hr hj
  | deleteRuns runIds =>
    cases h
    rw [deleteRuns, foldl_recount_eq]
    refine Change.deleteRuns fun r hr hkeep ↦ ?_
    rw [mem_dedup]
    exact mem_map_of_mem (mem_filter.mpr ⟨hr, by simpa using hkeep⟩)
  | putDevice d =>
    cases h
    exact Change.devices _
  | insertBatch b =>
    cases h
    rw [insertBatch]
    split
    · exact Change.same
    · rename_i hb
      exact Change.insertBatch (by simpa using hb)

/-! ## Keys -/

/-- What holds of the keys of every reachable table: primary keys are unique, a run belongs to an
existing job, and no job is a step of itself. -/
structure Keys (s : Store) : Prop where
  job_ids : (s.jobs.map (·.id)).Nodup
  run_ids : (s.runs.map (·.id)).Nodup
  batch_ids : (s.batches.map (·.id)).Nodup
  run_job : ∀ r ∈ s.runs, ∃ j ∈ s.jobs, j.id = r.jobId
  not_own_parent : ∀ j ∈ s.jobs, j.parentWorkflowJobId ≠ some j.id

namespace Keys

variable {s : Store}

theorem job_eq (h : Keys s) {j j' : JobRow} (hj : j ∈ s.jobs) (hj' : j' ∈ s.jobs)
    (hid : j.id = j'.id) : j = j' :=
  inj_on_of_nodup_map h.job_ids hj hj' hid

theorem batch_eq (h : Keys s) {b b' : BatchRow} (hb : b ∈ s.batches) (hb' : b' ∈ s.batches)
    (hid : b.id = b'.id) : b = b' :=
  inj_on_of_nodup_map h.batch_ids hb hb' hid

/-- Rewriting rows in place keeps the keys. -/
theorem mapRows (h : Keys s) {f : JobRunRow → JobRunRow} {g : JobRow → JobRow}
    (hid : ∀ r, (f r).id = r.id) (hjob : ∀ r, (f r).jobId = r.jobId) (hg : ∀ j, JobKept j (g j)) :
    Keys { s with runs := s.runs.map f, jobs := s.jobs.map g } := by
  have hruns : (s.runs.map f).map (·.id) = s.runs.map (·.id) := by simp [hid]
  have hjobs : (s.jobs.map g).map (·.id) = s.jobs.map (·.id) := by simp [(hg _).id]
  refine ⟨hjobs ▸ h.job_ids, hruns ▸ h.run_ids, h.batch_ids, ?_, ?_⟩
  · intro r' hr'
    obtain ⟨r, hr, rfl⟩ := mem_map.mp hr'
    obtain ⟨j, hj, hjr⟩ := h.run_job r hr
    exact ⟨g j, mem_map_of_mem hj, by rw [(hg j).id, hjob, hjr]⟩
  · intro j' hj'
    obtain ⟨j, hj, rfl⟩ := mem_map.mp hj'
    rw [(hg j).id, (hg j).parent]
    exact h.not_own_parent j hj

/-- Inserting a run of an existing job keeps the keys. -/
theorem insertRun (h : Keys s) {r : JobRunRow} (hjob : ∃ j ∈ s.jobs, j.id = r.jobId)
    (hid : ∀ r' ∈ s.runs, r'.id ≠ r.id) : Keys { s with runs := s.runs ++ [r] } := by
  refine ⟨h.job_ids, Sql.nodup_insert h.run_ids hid, h.batch_ids, ?_, h.not_own_parent⟩
  intro r' hr'
  rcases mem_append.mp hr' with hr' | hr'
  · exact h.run_job r' hr'
  · exact mem_singleton.mp hr' ▸ hjob

/-- Deleting runs keeps the keys. -/
theorem filterRuns (h : Keys s) (keep : JobRunRow → Bool) :
    Keys { s with runs := s.runs.filter keep } where
  job_ids := h.job_ids
  run_ids := h.run_ids.sublist (filter_sublist.map _)
  batch_ids := h.batch_ids
  run_job r hr := h.run_job r (mem_of_mem_filter hr)
  not_own_parent := h.not_own_parent

/-- **Every call keeps the keys.** -/
theorem change {op : Op} {s' : Store} (h : Keys s) (hc : Change s op s') : Keys s' := by
  cases hc with
  | rewrite hf hg =>
    exact h.mapRows (fun r ↦ (hf r).id) (fun r ↦ (hf r).jobId) fun j ↦ (hg j).toJobKept
  | @claim _ now ttl _ c hc =>
    have hmap := h.mapRows (g := id)
      (f := fun r ↦ if decide (r.id = c.run.id) then claimPatch now ttl r else r)
      (fun r ↦ by split <;> rfl) (fun r ↦ by split <;> rfl) JobKept.refl
    rw [map_id] at hmap
    exact hmap
  | @addRun _ _ job r hjob hof _ hid _ _ =>
    have hmap := (h.insertRun ⟨job, hjob, hof.symm⟩ hid).mapRows (f := id) (fun _ ↦ rfl)
      (fun _ ↦ rfl) (jobKept_latestSet r.jobId (some r.id) r.seq)
    rw [map_id] at hmap
    exact hmap
  | createJob hid hparent =>
    refine ⟨Sql.nodup_insert h.job_ids hid, h.run_ids, h.batch_ids, ?_, ?_⟩
    · intro r hr
      obtain ⟨j', hj', hjr⟩ := h.run_job r hr
      exact ⟨j', mem_append_left _ hj', hjr⟩
    · intro j' hj'
      rcases mem_append.mp hj' with hj' | hj'
      · exact h.not_own_parent j' hj'
      · exact mem_singleton.mp hj' ▸ hparent
  | @deleteRuns _ keep jobIds _ =>
    have hmap := (h.filterRuns keep).mapRows (f := id) (fun _ ↦ rfl) (fun _ ↦ rfl)
      (jobKept_recounted (s.runs.filter keep) jobIds)
    rw [map_id] at hmap
    exact hmap
  | devices _ => exact ⟨h.job_ids, h.run_ids, h.batch_ids, h.run_job, h.not_own_parent⟩
  | insertBatch hid =>
    exact ⟨h.job_ids, h.run_ids, Sql.nodup_insert h.batch_ids hid, h.run_job, h.not_own_parent⟩

theorem empty : Keys Store.empty :=
  ⟨nodup_nil, nodup_nil, nodup_nil, by simp [Store.empty], by simp [Store.empty]⟩

end Keys

/-- The invariant rule of the queue: what holds of the empty tables, and is kept by every change
whose two sides have their keys in order, holds of every reachable state. -/
theorem Reachable.invariant {I : Store → Prop} {s : Store} (h : Reachable s) (h0 : I empty)
    (hstep : ∀ s op s', Keys s → I s → Change s op s' → I s') : I s := by
  obtain ⟨ops, hops⟩ := h
  have hboth : Keys s ∧ I s := by
    refine hops.invariant (I := fun s ↦ Keys s ∧ I s) ⟨Keys.empty, h0⟩ ?_
    intro s op s' hs hop
    have hc := change_of_exec hop
    exact ⟨hs.1.change hc, hstep s op s' hs.1 hs.2 hc⟩
  exact hboth.2

theorem Reachable.keys {s : Store} (h : Reachable s) : Keys s :=
  h.invariant Keys.empty fun _ _ _ _ hk hc ↦ hk.change hc

end Store

end Enkaku
