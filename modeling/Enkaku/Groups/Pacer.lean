import Enkaku.Queue.Ops

/-!
# The batch pacer

A batch's repeating clock and its cached status: `createBatchPacer`, `replanAfterRestart`,
`recomputeBatchStatus` and `pickRebindDevice`, as calls on the tables of the queue and on the
batch's own row.

A repetition of a member is a run on the same member job, numbered by `batch_repeat`.  In a
sequential batch the sub-groups are barriers: the runs of the later ones are *held*, which the claim
skips, and `planSequentialStep` decides what to release next.  Timers, broadcasts and scheduler
kicks write no row and are left out; what a call draws from the host is its `Draws` argument.
-/

set_option autoImplicit false

namespace Enkaku

/-- `batches.status`. -/
inductive BatchStatus where
  | queued | running | stopping | success | failed | cancelled
  deriving DecidableEq, Repr

/-- The columns of a row of `batches` that the pacer and the status read. -/
structure PacedBatch where
  id : String
  status : BatchStatus
  finishedAt : Option Int
  sequential : Bool
  repeatCount : Int
  intervalMinMs : Int
  intervalMaxMs : Int
  deviceIntervalMs : Int
  deviceDelayMinMs : Int
  deviceDelayMaxMs : Int
  waveSize : Int
  deriving DecidableEq, Repr

/-- What a call of the pacer draws from the host: the instant, in epoch seconds, a `uint32` for
each draw of an interval, and what the store draws for each run it adds. -/
structure Draws where
  now : Int
  random : Nat → Nat
  env : Nat → Ambient

/-- The draws after the first `k`. -/
def Draws.drop (d : Draws) (k : Nat) : Draws :=
  { d with random := fun i ↦ d.random (i + k), env := fun i ↦ d.env (i + k) }

namespace Pacer

/-- `ladderRung`: which rung of the start ladder a member sits on. -/
def ladderRung (index : Nat) (waveSize : Int) : Int := index / max 1 waveSize

/-- `drawIntervalMs`: a uniform draw in `[min, max]` from a `uint32`. -/
def drawIntervalMs (min max : Int) (randomUint32 : Nat) : Int :=
  if max ≤ min then min else min + randomUint32 % (max - min + 1)

/-- `Math.round(ms / 1000)`. -/
def roundSec (ms : Int) : Int := (ms + 500) / 1000

/-! ## What a sequential batch does next -/

/-- A repetition run as the planner sees it. -/
structure PlannedRun where
  batchRepeat : Int
  status : RunStatus
  held : Bool
  deriving DecidableEq, Repr

/-- One member of a sequential batch as the planner sees it: its sub-group, and its runs that
belong to a repetition. -/
structure SequentialMember where
  deviceId : String
  wave : Int
  runs : List PlannedRun
  deriving DecidableEq, Repr

inductive SequentialStep where
  | wait
  | release (batchRepeat wave : Int)
  | nextPhase (batchRepeat : Int)
  | done
  deriving DecidableEq, Repr

/-- The highest repetition any member has a run for, `-1` when none has. -/
def currentPhase (members : List SequentialMember) : Int :=
  members.foldl (fun current m ↦ m.runs.foldl (fun current r ↦ max current r.batchRepeat) current)
    (-1)

/-- The member's last run of the phase. -/
def SequentialMember.lastOf (m : SequentialMember) (current : Int) : Option PlannedRun :=
  (m.runs.filter fun r ↦ r.batchRepeat = current).getLast?

/-- The last runs of the phase, of the members of one sub-group. -/
def inWave (members : List SequentialMember) (current wave : Int) : List PlannedRun :=
  (members.filter fun m ↦ m.wave = wave).filterMap (·.lastOf current)

/-- Queued and released, or running: the run keeps its sub-group going. -/
def PlannedRun.going (r : PlannedRun) : Bool :=
  r.status = .running || (r.status = .queued && !r.held)

/-- The sub-groups of the phase, walked in order: one that is going is waited for, one whose
remaining runs are all held is next, one that has settled is passed. -/
def walkWaves (members : List SequentialMember) (current : Int) :
    List Int → Option SequentialStep
  | [] => none
  | wave :: waves =>
    if (inWave members current wave).any (·.going) then some .wait
    else if (inWave members current wave).any fun r ↦ r.status = .queued && r.held then
      some (.release current wave)
    else walkWaves members current waves

/-- `planSequentialStep`: what a sequential batch should do next. -/
def planSequentialStep (members : List SequentialMember) (repeatCount : Int) : SequentialStep :=
  let current := currentPhase members
  if current < 0 then .wait
  else
    let waves := ((members.map (·.wave)).dedup).insertionSort (· ≤ ·)
    match walkWaves members current waves with
    | some step => step
    | none => if current + 1 < repeatCount then .nextPhase (current + 1) else .done

end Pacer

/-- The statuses in which the pacer plans nothing. -/
def BatchStatus.nonPlanning : BatchStatus → Bool
  | .queued | .running => false
  | .stopping | .success | .failed | .cancelled => true

/-- `TERMINAL_BATCH_STATUSES`. -/
def BatchStatus.terminal : BatchStatus → Bool
  | .queued | .running | .stopping => false
  | .success | .failed | .cancelled => true

/-- Whether the pacer has anything to do for the batch at all. -/
def PacedBatch.isPaced (b : PacedBatch) : Bool :=
  b.sequential || 1 < b.repeatCount || 0 < b.deviceIntervalMs || 0 < b.deviceDelayMaxMs

/-- The draw of a device's own start delay. -/
def PacedBatch.deviceDelay (b : PacedBatch) (randomUint32 : Nat) : Int :=
  Pacer.drawIntervalMs b.deviceDelayMinMs b.deviceDelayMaxMs randomUint32

/-- The draw of the wait between two repetitions. -/
def PacedBatch.interval (b : PacedBatch) (randomUint32 : Nat) : Int :=
  Pacer.drawIntervalMs b.intervalMinMs b.intervalMaxMs randomUint32

namespace Store

/-! ## Queries -/

/-- `SELECT * FROM jobs WHERE batch_id = … ORDER BY batch_seq`, the query of `listByBatch` too. -/
def membersOf (s : Store) (batchId : String) : List JobRow :=
  (s.jobs.filter fun j ↦ j.batchId = some batchId).insertionSort fun a b ↦
    compareBatchSeq a.batchSeq b.batchSeq ≠ .gt

/-- `runs`: a job's runs, newest first. -/
def runsNewestFirst (s : Store) (jobId : String) : List JobRunRow :=
  (s.runsOf jobId).insertionSort fun a b ↦ b.seq ≤ a.seq

/-- A member of a sequential batch with its sub-group and its repetition runs, oldest first. -/
structure MemberView where
  member : JobRow
  wave : Int
  runs : List JobRunRow

/-- `sequentialMembers`.  A manual rerun carries no `batch_repeat` and is left out. -/
def sequentialMembers (s : Store) (batchId : String) : List MemberView :=
  (s.membersOf batchId).map fun member ↦
    let runs := (s.runsNewestFirst member.id).reverse.filter fun r ↦ r.batchRepeat.isSome
    ⟨member, ((runs.find? fun r ↦ r.batchWave.isSome).bind (·.batchWave)).getD 0, runs⟩

/-- The member as `planSequentialStep` is given it. -/
def MemberView.planned (v : MemberView) : Pacer.SequentialMember :=
  ⟨v.member.deviceId, v.wave, v.runs.map fun r ↦ ⟨r.batchRepeat.getD 0, r.status, r.held⟩⟩

/-! ## Repetition 0 -/

/-- What `planFirst` writes to the first run of the member on place `i`. -/
def firstPacing (b : PacedBatch) (d : Draws) (i : Nat) (run r : JobRunRow) : JobRunRow :=
  let wave := Pacer.ladderRung i b.waveSize
  if b.sequential then
    -- Sub-group 0 goes now, each device at its own jittered instant; every later one is held.
    let delayMs := b.deviceDelay (d.random i)
    if wave = 0 then
      { r with
        batchRepeat := some 0
        batchWave := some 0
        held := false
        notBefore := if 0 < delayMs then some (d.now + Pacer.roundSec delayMs) else run.notBefore
        pacedDelayMs := if 0 < delayMs then some delayMs else run.pacedDelayMs }
    else
      { r with
        batchRepeat := some 0
        batchWave := some wave
        held := true
        notBefore := none
        expiresAt := none }
  else
    let staggerMs := wave * b.deviceIntervalMs + b.deviceDelay (d.random i)
    { r with
      notBefore := if 0 < staggerMs then some (d.now + Pacer.roundSec staggerMs) else run.notBefore
      batchRepeat := some 0
      pacedDelayMs := if 0 < staggerMs then some staggerMs else run.pacedDelayMs }

/-- One turn of the loop of `planFirst`. -/
def planFirstMember (b : PacedBatch) (d : Draws) (s : Store) (p : JobRow × Nat) : Store :=
  match p.1.latestRunId.bind s.run? with
  | none => s
  | some run => s.updateRun run.id (firstPacing b d p.2 run)

/-- `planFirst`: repetition 0 for every device. -/
def planFirst (s : Store) (b : PacedBatch) (d : Draws) : Store :=
  if b.isPaced then (s.membersOf b.id).zipIdx.foldl (planFirstMember b d) s else s

/-! ## Sequential batches -/

/-- What releasing a held run of sub-group `wave` writes to it: the wait after the previous
sub-group, then the device's own jitter inside this one. -/
def releasePatch (b : PacedBatch) (d : Draws) (wave : Int) (i : Nat) (r : JobRunRow) : JobRunRow :=
  let delayMs := (if 0 < wave then b.deviceIntervalMs else 0) + b.deviceDelay (d.random (i + 1))
  { r with
    held := false
    notBefore := if 0 < delayMs then some (d.now + Pacer.roundSec delayMs) else none
    pacedDelayMs := some delayMs }

/-- One turn of the loop that releases a sub-group. -/
def releaseMember (b : PacedBatch) (d : Draws) (batchRepeat wave : Int) (s : Store)
    (p : MemberView × Nat) : Store :=
  if p.1.wave ≠ wave then s
  else
    match (p.1.runs.filter fun r ↦ r.batchRepeat = some batchRepeat).getLast? with
    | none => s
    | some run =>
      if run.status ≠ .queued ∨ run.held = false then s
      else s.updateRun run.id (releasePatch b d wave p.2)

/-- What the next phase's run of a member is made from. -/
def phaseInput (b : PacedBatch) (d : Draws) (batchRepeat : Int) (p : MemberView × Nat) :
    AddRunInput :=
  let delayMs := b.interval (d.random 0) + b.deviceDelay (d.random (p.2 + 1))
  if p.1.wave = 0 then
    { trigger := .batch
      batchRepeat := some batchRepeat
      batchWave := some 0
      held := some false
      notBefore := some (d.now + Pacer.roundSec delayMs)
      pacedDelayMs := some delayMs }
  else
    { trigger := .batch
      batchRepeat := some batchRepeat
      batchWave := some p.1.wave
      held := some true }

/-- The loop that plans the next phase; an `addRun` that throws ends it, with the runs added before
it in place. -/
def addPhase (b : PacedBatch) (d : Draws) (batchRepeat : Int) :
    List (MemberView × Nat) → Store → Option StoreError × Store
  | [], s => (none, s)
  | p :: rest, s =>
    match s.addRun (d.env p.2) p.1.member.id (phaseInput b d batchRepeat p) with
    | .error e => (some e, s)
    | .ok (_, s') => addPhase b d batchRepeat rest s'

/-- What the planner answers for the batch. -/
def plannedStep (s : Store) (b : PacedBatch) : Pacer.SequentialStep :=
  Pacer.planSequentialStep ((s.sequentialMembers b.id).map (·.planned)) b.repeatCount

/-- `advance`: releases whatever a sequential batch has due. -/
def advance (s : Store) (b : PacedBatch) (d : Draws) : Option StoreError × Store :=
  if !b.sequential || b.status.nonPlanning then (none, s)
  else
    let view := s.sequentialMembers b.id
    match s.plannedStep b with
    | .release batchRepeat wave =>
      (none, view.zipIdx.foldl (releaseMember b d batchRepeat wave) s)
    | .nextPhase batchRepeat => addPhase b d batchRepeat view.zipIdx s
    | .wait | .done => (none, s)

/-! ## A member settles -/

/-- What the next repetition of a member of a batch that is not sequential is made from. -/
def repetitionInput (b : PacedBatch) (d : Draws) (nextRepeat : Int) : AddRunInput :=
  let delayMs := b.interval (d.random 0)
  { trigger := .batch
    notBefore := some (d.now + Pacer.roundSec delayMs)
    batchRepeat := some nextRepeat
    pacedDelayMs := some delayMs }

/-- `SELECT * FROM jobs WHERE batch_id = … AND device_id = …`, of which the first row is taken. -/
def memberOn? (s : Store) (batchId deviceId : String) : Option JobRow :=
  s.jobs.find? fun j ↦ j.batchId = some batchId && j.deviceId = deviceId

/-- `onMemberSettled`: the one hook into the pacer. -/
def onMemberSettled (s : Store) (b : PacedBatch) (d : Draws) (deviceId : String) :
    Option StoreError × Store :=
  if b.status.nonPlanning || !b.isPaced then (none, s)
  else if b.sequential then s.advance b d
  else
    match s.memberOn? b.id deviceId with
    | none => (none, s)
    | some member =>
      match s.runsNewestFirst member.id with
      | [] => (none, s)
      | last :: older =>
        let completed : Nat := (last :: older).length
        let nextRepeat := last.batchRepeat.getD 0 + 1
        if b.repeatCount ≤ completed ∨ b.repeatCount ≤ nextRepeat then (none, s)
        else
          match s.addRun (d.env 0) member.id (repetitionInput b d nextRepeat) with
          | .error e => (some e, s)
          | .ok (_, s') => (none, s')

end Store

/-! ## The status of a batch -/

/-- The tally of a batch's jobs by their latest run's status. -/
structure BatchCounts where
  total : Nat
  queued : Nat
  running : Nat
  success : Nat
  failed : Nat
  cancelled : Nat
  expired : Nat
  failedScript : Nat
  failedInfra : Nat
  deriving DecidableEq, Repr

/-- The status a job shows: that of its latest run, `queued` when it has none. -/
def shownStatus (run : Option JobRunRow) : RunStatus := (run.map (·.status)).getD .queued

/-- `countJobs`.  A job with no run at all counts as `queued`. -/
def countJobs (latestRuns : List (Option JobRunRow)) : BatchCounts :=
  let count (x : RunStatus) : Nat := latestRuns.countP fun run ↦ shownStatus run = x
  let infra (run : Option JobRunRow) : Bool :=
    run.bind (·.failureClass) = some "infra" || run.bind (·.failureClass) = some "load"
  { total := latestRuns.length
    queued := count .queued
    running := count .running
    success := count .success
    failed := count .failed
    cancelled := count .cancelled
    expired := count .expired
    failedScript := latestRuns.countP fun run ↦ shownStatus run = .failed && !infra run
    failedInfra := latestRuns.countP fun run ↦ shownStatus run = .failed && infra run }

/-- `computeBatchStatus`. -/
def computeBatchStatus (counts : BatchCounts) : BatchStatus :=
  if counts.total = 0 then .queued
  else if 0 < counts.running then .running
  else if counts.success + counts.failed + counts.cancelled + counts.expired = counts.total then
    if counts.cancelled = counts.total then .cancelled
    else if 0 < counts.failed ∨ 0 < counts.expired then .failed
    else .success
  else .queued

/-- The four tallies of settled jobs add up to the settled jobs. -/
theorem countP_terminal (latestRuns : List (Option JobRunRow)) :
    (countJobs latestRuns).success + (countJobs latestRuns).failed +
        (countJobs latestRuns).cancelled + (countJobs latestRuns).expired =
      latestRuns.countP fun run ↦ (shownStatus run).terminal := by
  simp only [countJobs]
  induction latestRuns with
  | nil => rfl
  | cons run rest ih =>
    simp only [List.countP_cons]
    rw [← ih]
    cases shownStatus run <;> simp [RunStatus.terminal] <;> omega

/-- A batch is closed only when every job shows a settled run. -/
theorem terminal_of_computeBatchStatus {latestRuns : List (Option JobRunRow)}
    (h : (computeBatchStatus (countJobs latestRuns)).terminal = true) :
    ∀ run ∈ latestRuns, (shownStatus run).terminal = true := by
  rw [computeBatchStatus, countP_terminal] at h
  split_ifs at h with _ _ hall <;> first
    | exact List.countP_eq_length.mp hall
    | cases h

theorem computeBatchStatus_ne_stopping (counts : BatchCounts) :
    computeBatchStatus counts ≠ .stopping := by
  rw [computeBatchStatus]
  split_ifs <;> simp

/-- What `recomputeBatchStatus` writes to the batch's row, given the status it computed. -/
def PacedBatch.patch (b : PacedBatch) (now : Int) (status : BatchStatus) : PacedBatch :=
  let stillStopping := b.status = .stopping ∧ status.terminal = false
  { b with
    status := if stillStopping then b.status else status
    finishedAt := if status.terminal ∧ b.finishedAt = none then some now else b.finishedAt }

namespace Store

/-- The latest runs of the members, in their order. -/
def latestRuns (s : Store) (memberJobs : List JobRow) : List (Option JobRunRow) :=
  memberJobs.map fun j ↦ s.latestRun j.id

/-- `recomputeBatchStatus`: recomputes the batch's cached status.  The pacer runs first, and only
when the call carries the settled device; if it throws, the status is not written. -/
def recomputeBatchStatus (s : Store) (b : PacedBatch) (d : Draws)
    (settledDeviceId : Option String) : Option StoreError × Store × PacedBatch :=
  let memberJobs := s.membersOf b.id
  if memberJobs.isEmpty then
    if b.status.terminal then (none, s, b)
    else (none, s, { b with
      status := .cancelled
      finishedAt := b.finishedAt <|> some d.now })
  else
    let paced := match settledDeviceId with
      | some deviceId => if deviceId = "" then (none, s) else s.onMemberSettled b d deviceId
      | none => (none, s)
    match paced with
    | (some e, s') => (some e, s', b)
    | (none, s') =>
      (none, s', b.patch d.now (computeBatchStatus (countJobs (s'.latestRuns memberJobs))))

/-! ## Restarts -/

/-- The loop of `replanAfterRestart` over the members of a batch that is not sequential. -/
def replanMembers (b : PacedBatch) (d : Draws) :
    List (JobRow × Nat) → Store → Option StoreError × Store
  | [], s => (none, s)
  | p :: rest, s =>
    match p.1.latestRunId.bind s.run? with
    | none => replanMembers b d rest s
    | some latest =>
      if latest.status.terminal then
        match s.onMemberSettled b (d.drop p.2) p.1.deviceId with
        | (some e, s') => (some e, s')
        | (none, s') => replanMembers b d rest s'
      else replanMembers b d rest s

/-- `replanAfterRestart`, for one batch. -/
def replanAfterRestart (s : Store) (b : PacedBatch) (d : Draws) :
    Option StoreError × Store × PacedBatch :=
  if b.status.nonPlanning || !b.isPaced then (none, s, b)
  else
    let members := s.jobs.filter fun j ↦ j.batchId = some b.id
    if members.isEmpty then
      (none, s, { b with
        status := .failed
        finishedAt := some d.now })
    else
      let planned :=
        if b.sequential then s.advance b d else replanMembers b d members.zipIdx s
      match planned with
      | (some e, s') => (some e, s', b)
      | (none, s') => s'.recomputeBatchStatus b d none

/-! ## Rebinds -/

/-- `pickRebindDevice`: the sibling device of lowest `batch_seq` that is online, runs nothing, and
is not the one the job just failed on. -/
def pickRebindDevice (s : Store) (job : JobRow) : Option String :=
  match job.batchId with
  | none => none
  | some batchId =>
    let candidateIds := ((s.membersOf batchId).map (·.deviceId)).filter fun id ↦ id ≠ job.deviceId
    candidateIds.find? fun id ↦
      (s.devices.find? fun d ↦ d.id = id).any (fun d ↦ d.status = "online") &&
        !s.runs.any fun r ↦ r.deviceId = id && r.status = .running

end Store

end Enkaku
