import Enkaku.Lib.Sql
import Enkaku.Db.Schema

/-!
# The run store

`createRunStore`: the only writer of `jobs.latest_run_id` and `jobs.run_count`, and the only place
a run row is created, settled or deleted.  Every call is one transaction.  A call that throws is
rolled back, so the functions that can throw return the new tables only when they succeed.

What a call takes from its surroundings — the clock, the fresh UUID of a new row, the random seed —
is its `Ambient` argument.
-/

set_option autoImplicit false

namespace Enkaku

/-- What a store call draws from the host. -/
structure Ambient where
  /-- `new Date()`, in epoch seconds. -/
  now : Int
  /-- `crypto.randomUUID()`. -/
  uuid : String
  /-- `crypto.randomInt(0, 2_147_483_647)`. -/
  randomInt : Int
  deriving DecidableEq, Repr

/-! ## Inputs -/

/-- What a new job is made from; an omitted field is `none`, and an omitted document `null`. -/
structure CreateJobInput where
  kind : JobKind
  scriptId : Option String := none
  workflowName : Option String := none
  workflowDoc : Value := .null
  deviceId : String
  params : Value
  scriptName : Option String := none
  scriptVersion : Option String := none
  batchId : Option String := none
  batchSeq : Option Int := none
  scheduleId : Option String := none
  parentWorkflowJobId : Option String := none
  stepSeq : Option Int := none
  triggeredByJobId : Option String := none
  rootJobId : Option String := none
  depth : Option Int := none
  triggerKey : Option String := none
  createdBy : Option String := none
  deriving DecidableEq, Repr

/-- What a new run is made from; an omitted field is `none`. -/
structure AddRunInput where
  trigger : RunTrigger
  priority : Option Int := none
  expiresAt : Option Int := none
  notBefore : Option Int := none
  batchRepeat : Option Int := none
  batchWave : Option Int := none
  held : Option Bool := none
  pacedDelayMs : Option Int := none
  maxConcurrent : Option Int := none
  /-- Omitted carries the previous run's value forward. -/
  runtimeOverride : Option Value := none
  resumedFromRunId : Option String := none
  resumedFromStep : Option Nat := none
  /-- Omitted generates a fresh one, except that a resume inherits the original run's. -/
  seed : Option Int := none
  deriving DecidableEq, Repr

/-- The three statuses a run can be settled with. -/
inductive SettleStatus where
  | success | failed | cancelled
  deriving DecidableEq, Repr

namespace SettleStatus

/-- The status of the settled row. -/
def toRunStatus : SettleStatus → RunStatus
  | success => .success
  | failed => .failed
  | cancelled => .cancelled

theorem toRunStatus_ne_running (x : SettleStatus) : x.toRunStatus ≠ .running := by
  cases x <;> simp [toRunStatus]

theorem terminal_toRunStatus (x : SettleStatus) : x.toRunStatus.terminal = true := by
  cases x <;> rfl

end SettleStatus

/-- What a run is settled with; an omitted field is left as it is. -/
structure SettleRunInput where
  status : SettleStatus
  result : Option Value := none
  error : Option String := none
  failureClass : Option (Option String) := none
  errorPhase : Option (Option String) := none
  peakRssBytes : Option (Option Int) := none
  resultStatus : Option (Option String) := none
  resultBytes : Option (Option Int) := none
  resultSummary : Option (Option String) := none
  resultIssues : Option Value := none
  deriving DecidableEq, Repr

namespace Store

/-! ## Reading -/

/-- `latestRun`, which `latestRuns` answers for many jobs at once. -/
def latestRun (s : Store) (jobId : String) : Option JobRunRow :=
  (s.job? jobId).bind fun j ↦ j.latestRunId.bind s.run?

/-! ## Creating -/

/-- The row `createJob` inserts. -/
def newJob (env : Ambient) (input : CreateJobInput) : JobRow where
  id := env.uuid
  kind := input.kind
  scriptId := if input.kind = .script then input.scriptId else none
  workflowName := if input.kind = .workflow then input.workflowName else none
  workflowDoc := if input.kind = .workflow then input.workflowDoc else .null
  deviceId := input.deviceId
  params := input.params
  batchId := input.batchId
  batchSeq := input.batchSeq
  scheduleId := input.scheduleId
  parentWorkflowJobId := input.parentWorkflowJobId
  stepSeq := input.stepSeq
  scriptName := input.scriptName
  scriptVersion := input.scriptVersion
  triggeredByJobId := input.triggeredByJobId
  rootJobId := input.rootJobId
  depth := input.depth.getD 0
  triggerKey := input.triggerKey
  createdBy := input.createdBy
  createdAt := env.now
  latestRunId := none
  runCount := 0

/-- `INSERT INTO jobs`, refused by the primary key and by the partial unique index on
`(root_job_id, trigger_key)`, in which a `NULL` never equals anything. -/
def insertJob (s : Store) (j : JobRow) : Except StoreError Store :=
  if s.jobs.any fun j' ↦ j'.id = j.id then .error (.uniqueConstraint "jobs.id")
  else if j.triggerKey.isSome && j.rootJobId.isSome &&
      s.jobs.any fun j' ↦ j'.rootJobId = j.rootJobId && j'.triggerKey = j.triggerKey then
    .error (.uniqueConstraint "idx_jobs_trigger_key")
  else .ok { s with jobs := s.jobs ++ [j] }

/-- `createJob`: inserts the job row only. -/
def createJob (s : Store) (env : Ambient) (input : CreateJobInput) :
    Except StoreError (JobRow × Store) := do
  if input.kind = .script ∧ input.workflowName.isSome then
    throw (.enkaku "E_BAD_REQUEST" "a script job cannot carry a workflowName")
  if input.kind = .workflow ∧ input.scriptId.isSome then
    throw (.enkaku "E_BAD_REQUEST" "a workflow job cannot carry a scriptId")
  let s' ← s.insertJob (newJob env input)
  return (newJob env input, s')

/-- `INSERT INTO job_runs`, refused by the primary key and by `idx_job_runs_seq`. -/
def insertRun (s : Store) (r : JobRunRow) : Except StoreError Store :=
  if s.runs.any fun r' ↦ r'.id = r.id then .error (.uniqueConstraint "job_runs.id")
  else if s.runs.any fun r' ↦ r'.jobId = r.jobId && r'.seq = r.seq then
    .error (.uniqueConstraint "idx_job_runs_seq")
  else .ok { s with runs := s.runs ++ [r] }

/-- The row `addRun` inserts for `job`. -/
def newRun (s : Store) (env : Ambient) (job : JobRow) (input : AddRunInput) : JobRunRow :=
  let previous := job.latestRunId.bind s.run?
  let resumedFrom := if input.trigger = .resume then input.resumedFromRunId.bind s.run? else none
  { id := env.uuid
    jobId := job.id
    seq := job.runCount + 1
    trigger := input.trigger
    status := .queued
    deviceId := job.deviceId
    scriptName := job.scriptName
    priority := input.priority.getD 0
    createdAt := env.now
    startedAt := none
    finishedAt := none
    heartbeatExpiresAt := none
    expiresAt := input.expiresAt
    notBefore := input.notBefore
    batchRepeat := input.batchRepeat
    batchWave := input.batchWave
    held := input.held.getD false
    pacedDelayMs := input.pacedDelayMs
    result := .null
    error := none
    failureClass := none
    errorPhase := none
    infraAttempts := 0
    seed := input.seed.getD ((resumedFrom.map (·.seed)).getD env.randomInt)
    peakRssBytes := none
    maxConcurrent := input.maxConcurrent
    runtimeOverride := input.runtimeOverride.getD ((previous.map (·.runtimeOverride)).getD .null)
    resultStatus := none
    resultBytes := none
    resultSummary := none
    resultIssues := .null
    resumedFromRunId := input.resumedFromRunId
    resumedFromStep := input.resumedFromStep }

/-- `UPDATE jobs SET latest_run_id = …, run_count = … WHERE id = …`. -/
def setLatest (s : Store) (jobId : String) (latestRunId : Option String) (runCount : Nat) : Store :=
  let set (j : JobRow) := { j with latestRunId := latestRunId, runCount := runCount }
  { s with jobs := Sql.update (fun j ↦ decide (j.id = jobId)) set s.jobs }

/-- `addRun`: inserts a run at `seq = job.run_count + 1`, status `queued`, and updates
`latest_run_id` and `run_count` in the same transaction. -/
def addRun (s : Store) (env : Ambient) (jobId : String) (input : AddRunInput) :
    Except StoreError (JobRunRow × Store) :=
  match s.job? jobId with
  | none => .error (.enkaku "E_NOT_FOUND" "job_not_found")
  | some job =>
    let r := s.newRun env job input
    match s.insertRun r with
    | .error e => .error e
    | .ok s' => .ok (r, s'.setLatest job.id (some r.id) r.seq)

/-! ## Settling and cancelling -/

/-- The columns a settle writes. -/
def settlePatch (now : Int) (input : SettleRunInput) (r : JobRunRow) : JobRunRow :=
  { r with
    status := input.status.toRunStatus
    finishedAt := some now
    result := input.result.getD r.result
    error := input.error <|> r.error
    failureClass := input.failureClass.getD r.failureClass
    errorPhase := input.errorPhase.getD r.errorPhase
    peakRssBytes := input.peakRssBytes.getD r.peakRssBytes
    resultStatus := input.resultStatus.getD r.resultStatus
    resultBytes := input.resultBytes.getD r.resultBytes
    resultSummary := input.resultSummary.getD r.resultSummary
    resultIssues := input.resultIssues.getD r.resultIssues }

/-- The row with this id and this status: the guard the writers share. -/
def runIn? (s : Store) (runId : String) (status : RunStatus) : Option JobRunRow :=
  s.runs.find? fun r ↦ decide (r.id = runId) && decide (r.status = status)

/-- `UPDATE job_runs SET … WHERE id = …`. -/
def updateRun (s : Store) (runId : String) (set : JobRunRow → JobRunRow) : Store :=
  { s with runs := Sql.update (fun r ↦ decide (r.id = runId)) set s.runs }

/-- `settle`: the terminal settle.  Only ever touches a running row, and returns nothing when it
did not. -/
def settle (s : Store) (now : Int) (runId : String) (input : SettleRunInput) :
    Option JobRunRow × Store :=
  match s.runIn? runId .running with
  | none => (none, s)
  | some r => (some (settlePatch now input r), s.updateRun runId (settlePatch now input))

/-- The columns `cancelQueuedRun` writes. -/
def cancelPatch (now : Int) (r : JobRunRow) : JobRunRow :=
  { r with status := .cancelled, finishedAt := some now }

/-- `cancelQueuedRun`: queued to cancelled. -/
def cancelQueuedRun (s : Store) (now : Int) (runId : String) : Option JobRunRow × Store :=
  match s.runIn? runId .queued with
  | none => (none, s)
  | some r => (some (cancelPatch now r), s.updateRun runId (cancelPatch now))

/-! ## Deleting -/

/-- The run of greatest `seq`, the first of them if several share it. -/
def latestOf (rows : List JobRunRow) : Option JobRunRow :=
  rows.foldl (fun best r ↦
    match best with
    | none => some r
    | some b => if b.seq < r.seq then some r else some b) none

/-- Recompute `latest_run_id` and `run_count` of one job from the rows it still has. -/
def recount (s : Store) (jobId : String) : Store :=
  let remaining := s.runsOf jobId
  s.setLatest jobId ((latestOf remaining).map (·.id)) remaining.length

/-- `deleteRuns`: deletes runs and recomputes `latest_run_id` and `run_count` of every job they
belonged to.  The only delete path for a run: the purge and the retention sweeper both go through
it. -/
def deleteRuns (s : Store) (runIds : List String) : Nat × Store :=
  let rows := s.runs.filter fun r ↦ decide (r.id ∈ runIds)
  let jobIds := (rows.map (·.jobId)).dedup
  let s' := { s with runs := s.runs.filter fun r ↦ !decide (r.id ∈ runIds) }
  (rows.length, jobIds.foldl recount s')

end Store

end Enkaku
