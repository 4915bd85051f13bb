import Enkaku.Value

/-!
# The tables of the run queue

The rows of `jobs`, `job_runs`, `devices` and `batches`, with the columns the queue, the run store,
the pacer and the executor host read or write.  A job is an intent; every execution of it is a row
of `job_runs`.  Ids are the text primary keys, instants are epoch seconds, and a column that may be
`NULL` is an `Option`.
-/

set_option autoImplicit false

namespace Enkaku

/-- `jobs.kind`. -/
inductive JobKind where
  | script | workflow
  deriving DecidableEq, Repr

/-- `job_runs.trigger`: why an execution exists. -/
inductive RunTrigger where
  | manual | rerun | schedule | batch | resume | workflowStep | nodeTest | simulate
  deriving DecidableEq, Repr

/-- `job_runs.status`. -/
inductive RunStatus where
  | queued | running | success | failed | cancelled | expired
  deriving DecidableEq, Repr

namespace RunStatus

/-- The statuses no run leaves again. -/
def terminal : RunStatus → Bool
  | queued | running => false
  | success | failed | cancelled | expired => true

end RunStatus

/-- A row of `devices`, as far as the claim reads it. -/
structure DeviceRow where
  id : String
  /-- The claim only ever asks whether this is `'online'`. -/
  status : String
  deriving DecidableEq, Repr

/-- A row of `batches`, as far as the claim reads it. -/
structure BatchRow where
  id : String
  /-- `0` is unlimited, else the most runs that may be running at once. -/
  concurrency : Int
  deriving DecidableEq, Repr

/-- A row of `jobs`. -/
structure JobRow where
  id : String
  kind : JobKind
  scriptId : Option String
  workflowName : Option String
  workflowDoc : Value
  deviceId : String
  params : Value
  batchId : Option String
  batchSeq : Option Int
  scheduleId : Option String
  /-- The workflow job this job is a step of. -/
  parentWorkflowJobId : Option String
  stepSeq : Option Int
  scriptName : Option String
  scriptVersion : Option String
  triggeredByJobId : Option String
  rootJobId : Option String
  depth : Int
  triggerKey : Option String
  createdBy : Option String
  createdAt : Int
  /-- The run with the highest `seq` that still exists. -/
  latestRunId : Option String
  /-- How many runs exist. -/
  runCount : Nat
  deriving DecidableEq, Repr

/-- A row of `job_runs`. -/
structure JobRunRow where
  id : String
  jobId : String
  /-- 1..n, unique per job (`idx_job_runs_seq`). -/
  seq : Nat
  trigger : RunTrigger
  status : RunStatus
  /-- Copied from the job; rewritten together with the job's own by a rebind. -/
  deviceId : String
  /-- Copied from the job; the key of the `maxConcurrent` gate. -/
  scriptName : Option String
  priority : Int
  createdAt : Int
  startedAt : Option Int
  finishedAt : Option Int
  heartbeatExpiresAt : Option Int
  expiresAt : Option Int
  notBefore : Option Int
  batchRepeat : Option Int
  batchWave : Option Int
  held : Bool
  pacedDelayMs : Option Int
  result : Value
  error : Option String
  failureClass : Option String
  errorPhase : Option String
  infraAttempts : Nat
  seed : Int
  peakRssBytes : Option Int
  /-- `NULL` and `0` both mean unlimited. -/
  maxConcurrent : Option Int
  runtimeOverride : Value
  resultStatus : Option String
  resultBytes : Option Int
  resultSummary : Option String
  resultIssues : Value
  resumedFromRunId : Option String
  resumedFromStep : Option Nat
  deriving DecidableEq, Repr

/-- The tables of the queue. -/
structure Store where
  jobs : List JobRow
  runs : List JobRunRow
  devices : List DeviceRow
  batches : List BatchRow
  deriving DecidableEq, Repr

/-- An error a store call throws: one of the code's own, or the database refusing a row. -/
inductive StoreError where
  | enkaku (code message : String)
  | uniqueConstraint (index : String)
  deriving DecidableEq, Repr

namespace Store

/-- The database of a fresh installation. -/
def empty : Store := ⟨[], [], [], []⟩

/-- `SELECT * FROM jobs WHERE id = …`. -/
def job? (s : Store) (jobId : String) : Option JobRow := s.jobs.find? fun j ↦ j.id = jobId

/-- `SELECT * FROM job_runs WHERE id = …`. -/
def run? (s : Store) (runId : String) : Option JobRunRow := s.runs.find? fun r ↦ r.id = runId

/-- `SELECT * FROM job_runs WHERE job_id = …`. -/
def runsOf (s : Store) (jobId : String) : List JobRunRow := s.runs.filter fun r ↦ r.jobId = jobId

end Store

end Enkaku
