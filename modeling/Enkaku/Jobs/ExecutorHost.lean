import Enkaku.Jobs.FailureClass
import Enkaku.Queue.Ops

/-!
# The executor host

`createExecutorHost`: what happens to a run between its claim and its settle.  Every `start` is an
*attempt*: one executor promise, one heartbeat interval, one readiness hold, one set of force-stop
timers.  The host finds the attempt that is in charge of a run through the map `running`, which is
keyed by run id; a rebound run is started again under the same id, as another attempt.

An attempt is its position in `attempts`, which is what the source compares when it compares
entries by identity.  The host's events — claims and starts, the promise handlers, the callbacks of
an executor, aborts, timers, external finishes — are the cases of `HostEvent`, and `Host.step` runs
one of them.  What the host only tells others (activity markers, broadcasts, the watcher, the
scheduler kick) changes nothing here and is left out.
-/

set_option autoImplicit false

namespace Enkaku

/-! ## What the host is given -/

/-- The settings the host reads at every settle. -/
structure HostSettings where
  timeoutIsInfra : Bool
  rebindOnInfra : Bool
  /-- `JOB_MAX_INFRA_REBINDS`. -/
  maxInfraRebinds : Nat
  deriving DecidableEq, Repr

/-- The result columns of a settled run. -/
structure RecordedResult where
  result : Value
  resultStatus : String
  resultBytes : Option Int
  resultSummary : Option String
  resultIssues : Value
  deriving DecidableEq, Repr

/-- The host's dependencies: the registry of executors, the choice of a device to rebind to, and
the recording of a result from its value, its outcome and the status already on the row. -/
structure HostDeps where
  jobTtlSec : Int
  hasExecutor : String → Bool
  pickRebindDevice : Store → JobRow → Option String
  recordResult : JobRow → Option Value → Option Value → Option String → Option RecordedResult

/-- What an executor's promise is rejected with. -/
structure Thrown where
  message : String
  code : Option String := none
  phase : Option String := none
  partialResult : Option Value := none
  deriving DecidableEq, Repr

/-- What a settle is given besides the status. -/
structure SettleData where
  result : Option Value := none
  error : Option String := none
  code : Option String := none
  phase : Option String := none
  peakRssBytes : Option Int := none
  outcome : Option Value := none
  deriving DecidableEq, Repr

/-! ## State -/

/-- The two force-stop timers an abort arms, in the order they fire. -/
inductive CancelTimer where
  | kill | budget
  deriving DecidableEq, Repr

/-- One `start`: the entry it registered, and the variables its callbacks close over. -/
structure Attempt where
  job : JobRow
  run : JobRunRow
  /-- The heartbeat interval is alive. -/
  heartbeat : Bool
  /-- The readiness hold is held. -/
  hold : Bool
  /-- The abort signal. -/
  aborted : Bool
  cancelling : Bool
  /-- The armed force-stop timers. -/
  cancelTimers : List CancelTimer
  /-- The readiness hold was answered, so the executor has been started. -/
  executing : Bool
  /-- The promise has resolved or rejected. -/
  finished : Bool
  peakRssBytes : Option Int
  resultOutcome : Option Value

/-- The host and the tables it works on. -/
structure Host where
  store : Store
  settings : HostSettings
  attempts : List Attempt
  /-- `running: Map<runId, RunningEntry>`. -/
  running : String → Option Nat
  crashHandlers : String → Option Nat
  killHandlers : String → Option Nat

namespace Host

/-- The host of a process that has just started. -/
def boot (store : Store) (settings : HostSettings) : Host :=
  ⟨store, settings, [], fun _ ↦ none, fun _ ↦ none, fun _ ↦ none⟩

/-- Rewrite the state of one attempt. -/
def modify (h : Host) (i : Nat) (f : Attempt → Attempt) : Host :=
  { h with attempts := h.attempts.modify i f }

/-- The entry registered for a run. -/
def entry? (h : Host) (runId : String) : Option Attempt :=
  (h.running runId).bind fun i ↦ h.attempts[i]?

/-! ## Settling -/

/-- Whether a settle puts the run back in the queue: a failure of the farm, of a batch member, with
rebinding on and the cap not reached. -/
def rebinds (settings : HostSettings) (job : JobRow) (run : JobRunRow) (status : SettleStatus)
    (data : SettleData) : Bool :=
  decide (status = .failed) &&
    decide ((classifyFailure settings.timeoutIsInfra data.code data.error).failureClass = .infra) &&
    job.batchId.any (· ≠ "") && settings.rebindOnInfra &&
    decide (run.infraAttempts < settings.maxInfraRebinds)

/-- `requeueForRebind`: move a run to another device after an infra failure, or back onto its own
when there is no other. -/
def requeueForRebind (deps : HostDeps) (h : Host) (job : JobRow) (run : JobRunRow) : Host :=
  let newDeviceId := (deps.pickRebindDevice h.store job).getD job.deviceId
  { h with store := (h.store.requeueForRebind run.id newDeviceId).2 }

/-- The first thing a settle does: whatever entry is registered for the run goes, with its
heartbeat, its timers and its hold. -/
def dropEntry (h : Host) (runId : String) : Host :=
  let stop (a : Attempt) := { a with heartbeat := false, cancelTimers := [], hold := false }
  let h' := match h.running runId with
    | some i => { h.modify i stop with running := Function.update h.running runId none }
    | none => h
  { h' with
    crashHandlers := Function.update h'.crashHandlers runId none
    killHandlers := Function.update h'.killHandlers runId none }

/-- The row a settle writes when it does not requeue. -/
def settleInput (deps : HostDeps) (settings : HostSettings) (job : JobRow) (run : JobRunRow)
    (status : SettleStatus) (data : SettleData) : SettleRunInput :=
  let classified := classifyFailure settings.timeoutIsInfra data.code data.error
  let recorded := if status = .success ∨ data.outcome.isSome then
    deps.recordResult job data.result data.outcome run.resultStatus else none
  { status := status
    result := match recorded with
      | some r => some r.result
      | none => data.result
    error := data.error
    failureClass := some (if status = .failed then some classified.failureClass.toString else none)
    errorPhase := data.phase.map some
    peakRssBytes := data.peakRssBytes.map some
    resultStatus := recorded.map fun r ↦ some r.resultStatus
    resultBytes := recorded.map (·.resultBytes)
    resultSummary := recorded.map (·.resultSummary)
    resultIssues := recorded.map (·.resultIssues) }

/-- `settle`. -/
def settle (deps : HostDeps) (h : Host) (now : Int) (job : JobRow) (run : JobRunRow)
    (status : SettleStatus) (data : SettleData) : Host :=
  let h' := h.dropEntry run.id
  if rebinds h.settings job run status data then requeueForRebind deps h' job run
  else
    { h' with
      store := (h'.store.settle now run.id (settleInput deps h.settings job run status data)).2 }

/-! ## Starting and finishing -/

/-- Whether there is an executor for a job: the orchestrator for a workflow, and whatever the
registry has for a script. -/
def findsExecutor (deps : HostDeps) (job : JobRow) : Bool :=
  match job.kind, job.scriptId with
  | .workflow, _ => true
  | .script, some scriptId => scriptId ≠ "" && deps.hasExecutor scriptId
  | .script, none => false

/-- `start`. -/
def start (deps : HostDeps) (h : Host) (now : Int) (job : JobRow) (run : JobRunRow) : Host :=
  if findsExecutor deps job then
    let entry : Attempt :=
      { job := job
        run := run
        heartbeat := true
        hold := false
        aborted := false
        cancelling := false
        cancelTimers := []
        executing := false
        finished := false
        peakRssBytes := none
        resultOutcome := none }
    { h with
      attempts := h.attempts ++ [entry]
      running := Function.update h.running run.id (some h.attempts.length) }
  else
    h.settle deps now job run .failed
      { error := some ("unknown_script: " ++ job.scriptId.getD "script")
        code := some "unknown_script" }

/-- The scheduler's claim of the row `c`, and the start of what it claimed. -/
def claim (deps : HostDeps) (h : Host) (now : Int) (c : Store.Candidate) : Host :=
  { h with store := h.store.claimRow now deps.jobTtlSec c }.start deps now c.job
    (Store.claimPatch now deps.jobTtlSec c.run)

/-- An attempt's promise has its answer. -/
def answered (h : Host) (i : Nat) : Host := h.modify i fun a ↦ { a with finished := true }

/-- The `then` handler of an attempt's promise. -/
def onResolved (deps : HostDeps) (h : Host) (now : Int) (a : Attempt) (result : Value) : Host :=
  if (h.running a.run.id).isSome then
    h.settle deps now a.job a.run .success
      { result := some result, peakRssBytes := a.peakRssBytes, outcome := a.resultOutcome }
  else h

/-- What the `catch` handler settles a run with. -/
def thrownStatus (err : Thrown) : SettleStatus :=
  if err.code = some "job_cancelled" then .cancelled else .failed

/-- What the `catch` handler passes to the settle. -/
def thrownData (a : Attempt) (err : Thrown) : SettleData where
  error := some err.message
  code := err.code
  phase := err.phase.filter fun p ↦ p ≠ "" ∧ p ≠ "undefined"
  peakRssBytes := a.peakRssBytes
  result := err.partialResult
  outcome := a.resultOutcome

/-- The `catch` handler of an attempt's promise. -/
def onRejected (deps : HostDeps) (h : Host) (now : Int) (a : Attempt) (err : Thrown) : Host :=
  if (h.running a.run.id).isSome then
    h.settle deps now a.job a.run (thrownStatus err) (thrownData a err)
  else h

/-- `abort`: says whether there was an entry to abort. -/
def abort (h : Host) (runId : String) : Bool × Host :=
  let cancel (a : Attempt) :=
    if a.cancelling then a
    else { a with cancelling := true, aborted := true, cancelTimers := [.kill, .budget] }
  match h.running runId with
  | none => (false, h)
  | some i => (true, h.modify i cancel)

/-- The second force-stop timer: settle the run `cancelled`, if the entry is still the one that was
aborted. -/
def onBudgetTimer (deps : HostDeps) (h : Host) (now : Int) (i : Nat) (a : Attempt) (error : String) :
    Host :=
  if h.running a.run.id = some i then
    h.settle deps now a.job a.run .cancelled
      { error := some error, code := some "CANCEL_FORCED" }
  else h

/-- `finishExternally`: what the reaper and a force-release call. -/
def finishExternally (deps : HostDeps) (h : Host) (now : Int) (runId : String)
    (status : SettleStatus) (error : String) (code : Option String) : Host :=
  let entry := h.entry? runId
  match (entry.map (·.run)).or (h.store.run? runId) with
  | none => h
  | some run =>
    match h.store.job? run.jobId with
    | none => h
    | some job =>
      let abortSignal (a : Attempt) := { a with aborted := true }
      let h' := match h.running runId with
        | some i => h.modify i abortSignal
        | none => h
      h'.settle deps now job run status { error := some error, code := code }

/-- `stopAll`: the process is going down. -/
def stopAll (h : Host) : Host :=
  let stop (i : Nat) (a : Attempt) :=
    if h.running a.run.id = some i then
      { a with heartbeat := false, cancelTimers := [], aborted := true }
    else a
  { h with
    attempts := h.attempts.mapIdx stop
    running := fun _ ↦ none
    crashHandlers := fun _ ↦ none
    killHandlers := fun _ ↦ none }

end Host

/-! ## Events -/

/-- Everything that happens to the host. -/
inductive HostEvent where
  /-- The scheduler claims a row and starts it. -/
  | claim (now : Int) (excludeDeviceIds : List String) (c : Store.Candidate)
  /-- An attempt's readiness hold is answered, and its executor started. -/
  | readiness (i : Nat) (held : Bool)
  /-- An attempt's promise resolves. -/
  | resolve (now : Int) (i : Nat) (result : Value)
  /-- An attempt's promise rejects. -/
  | reject (now : Int) (i : Nat) (err : Thrown)
  /-- An executor reports that it is alive. -/
  | heartbeat (now : Int) (i : Nat)
  /-- An attempt's heartbeat interval fires. -/
  | heartbeatTick (now : Int) (i : Nat)
  | onCrash (i : Nat)
  | onForceKill (i : Nat)
  | onPeakRss (i : Nat) (bytes : Int)
  | onResultOutcome (i : Nat) (outcome : Value)
  | abort (runId : String)
  | killTimer (i : Nat)
  | budgetTimer (now : Int) (i : Nat) (error : String)
  | finishExternally (now : Int) (runId : String) (status : SettleStatus) (error : String)
      (code : Option String)
  | stopAll
  | settings (settings : HostSettings)
  /-- A call on the tables that does not go through the host. -/
  | beside (op : Op)

/-- The calls made beside the host: new work, the queue's own cancels and expiries, pacing, devices
and batches.  Claims, heartbeats, settles and rebinds are the host's; the recovery boot runs before
it, and what is deleted is what has finished. -/
def Op.isBeside : Op → Bool
  | .createJob _ | .addRun .. | .cancelQueuedRun .. | .expireQueued _ | .paceRun .. | .putDevice _
  | .insertBatch _ => true
  | _ => false

namespace Host

/-- One event; `none` when it cannot happen in this state. -/
def step (deps : HostDeps) (h : Host) : HostEvent → Option Host
  | .claim now excludeDeviceIds c =>
    if h.store.ClaimsRow now excludeDeviceIds c then some (h.claim deps now c) else none
  | .readiness i held => do
    let a ← h.attempts[i]?
    if !a.executing then some (h.modify i fun a ↦ { a with hold := held, executing := true })
    else none
  | .resolve now i result => do
    let a ← h.attempts[i]?
    if a.executing && !a.finished then
      some ((h.answered i).onResolved deps now a result)
    else none
  | .reject now i err => do
    let a ← h.attempts[i]?
    if a.executing && !a.finished then
      some ((h.answered i).onRejected deps now a err)
    else none
  | .heartbeat now i => do
    let a ← h.attempts[i]?
    some { h with store := (h.store.renewHeartbeat now a.run.id deps.jobTtlSec).2 }
  | .heartbeatTick now i => do
    let a ← h.attempts[i]?
    if a.heartbeat then
      some { h with store := (h.store.renewHeartbeat now a.run.id deps.jobTtlSec).2 }
    else none
  | .onCrash i => do
    let a ← h.attempts[i]?
    some { h with crashHandlers := Function.update h.crashHandlers a.run.id (some i) }
  | .onForceKill i => do
    let a ← h.attempts[i]?
    some { h with killHandlers := Function.update h.killHandlers a.run.id (some i) }
  | .onPeakRss i bytes => some (h.modify i fun a ↦ { a with peakRssBytes := some bytes })
  | .onResultOutcome i outcome => some (h.modify i fun a ↦ { a with resultOutcome := some outcome })
  | .abort runId => some (h.abort runId).2
  | .killTimer i => do
    let a ← h.attempts[i]?
    if .kill ∈ a.cancelTimers then
      some (h.modify i fun a ↦ { a with cancelTimers := a.cancelTimers.erase .kill })
    else none
  | .budgetTimer now i error => do
    let a ← h.attempts[i]?
    if a.cancelTimers = [.budget] then
      some ((h.modify i fun a ↦ { a with cancelTimers := [] }).onBudgetTimer deps now i a error)
    else none
  | .finishExternally now runId status error code =>
    some (h.finishExternally deps now runId status error code)
  | .stopAll => some h.stopAll
  | .settings settings => some { h with settings := settings }
  | .beside op =>
    if op.isBeside then (h.store.exec op).map fun store ↦ { h with store := store } else none

end Host

end Enkaku
