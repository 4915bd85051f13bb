import Enkaku.Jobs.RunStore

/-!
# The job store

The queue's half of the tables: the claim, the heartbeat, the reapers and the rebind.

`claimNext` is one SQL statement, and its gates are correlated sub-queries over columns that may be
`NULL`; it is embedded clause by clause over `Sql`, so that a comparison with `NULL` is unknown
here exactly where it is there.  The statement's `ORDER BY` leaves ties open.  `ClaimsRow` says
which rows the `LIMIT 1` may return and `claimNext` returns the first of them in table order; the
theorems are about every row of `ClaimsRow`.
-/

set_option autoImplicit false

namespace Enkaku.Store

/-! ## The claim -/

/-- A row of the claim's joined table: a run, its job, its device, and its batch if it has one. -/
structure Candidate where
  run : JobRunRow
  job : JobRow
  device : DeviceRow
  batch : Option BatchRow
  deriving DecidableEq, Repr

/-- `job_runs r JOIN jobs j ON j.id = r.job_id JOIN devices d ON d.id = r.device_id
LEFT JOIN batches b ON b.id = j.batch_id`. -/
def candidates (s : Store) : List Candidate :=
  let rj := Sql.join (fun r j ↦ decide (j.id = r.jobId)) s.runs s.jobs
  let rjd := Sql.join (fun p d ↦ decide (d.id = p.1.deviceId)) rj s.devices
  let rjdb := Sql.leftJoin (fun p b ↦ decide (some b.id = p.1.2.batchId)) rjd s.batches
  rjdb.map fun p ↦ ⟨p.1.1.1, p.1.1.2, p.1.2, p.2⟩

/-- `NOT EXISTS (SELECT 1 FROM job_runs x WHERE x.device_id = r.device_id AND x.status = 'running'
AND (j.parent_workflow_job_id IS NULL OR x.job_id <> j.parent_workflow_job_id))`: a device held by
a workflow's own run admits that workflow's steps and nothing else. -/
def deviceFree (s : Store) (c : Candidate) : Bool :=
  !s.runs.any fun x ↦
    (x.deviceId = c.run.deviceId) && (x.status = .running) &&
      ((Sql.isNull c.job.parentWorkflowJobId).or
        (Sql.ne (some x.jobId) c.job.parentWorkflowJobId)).isTrue

/-- `SELECT COUNT(*) FROM job_runs r2 JOIN jobs j2 ON j2.id = r2.job_id
WHERE j2.batch_id = j.batch_id AND r2.status = 'running'`. -/
def countBatchRunning (s : Store) (batchId : Option String) : Nat :=
  (Sql.join (fun r j ↦ decide (j.id = r.jobId)) s.runs s.jobs).countP fun p ↦
    (Sql.eq p.2.batchId batchId).isTrue && (p.1.status = .running)

/-- `SELECT COUNT(*) FROM job_runs r3 WHERE r3.script_name = r.script_name
AND r3.status = 'running'`. -/
def countScriptRunning (s : Store) (scriptName : Option String) : Nat :=
  s.runs.countP fun r ↦ (Sql.eq r.scriptName scriptName).isTrue && (r.status = .running)

/-- `j.batch_id IS NULL OR b.concurrency = 0 OR (…COUNT…) < b.concurrency`. -/
def batchGate (s : Store) (c : Candidate) : Sql.Truth :=
  let concurrency := c.batch.map (·.concurrency)
  (Sql.isNull c.job.batchId).or <|
    (Sql.eq concurrency (some 0)).or <|
      Sql.lt (some (s.countBatchRunning c.job.batchId : Int)) concurrency

/-- `r.max_concurrent IS NULL OR r.max_concurrent = 0 OR (…COUNT…) < r.max_concurrent`. -/
def maxConcurrentGate (s : Store) (c : Candidate) : Sql.Truth :=
  (Sql.isNull c.run.maxConcurrent).or <|
    (Sql.eq c.run.maxConcurrent (some 0)).or <|
      Sql.lt (some (s.countScriptRunning c.run.scriptName : Int)) c.run.maxConcurrent

/-- `r.not_before IS NULL OR r.not_before <= strftime('%s','now')`. -/
def notBeforeGate (now : Int) (c : Candidate) : Sql.Truth :=
  (Sql.isNull c.run.notBefore).or (Sql.le c.run.notBefore (some now))

/-- The `WHERE` clause of the claim. -/
def claimWhere (s : Store) (now : Int) (excludeDeviceIds : List String) (c : Candidate) : Bool :=
  (c.run.status = .queued) &&
  (c.device.status = "online") &&
  s.deviceFree c &&
  !decide (c.run.deviceId ∈ excludeDeviceIds) &&
  (s.batchGate c).isTrue &&
  (s.maxConcurrentGate c).isTrue &&
  (notBeforeGate now c).isTrue &&
  !c.run.held

/-- `j.batch_seq ASC`, where a `NULL` sorts first. -/
def compareBatchSeq : Option Int → Option Int → Ordering
  | none, none => .eq
  | none, some _ => .lt
  | some _, none => .gt
  | some a, some b => compare a b

/-- `ORDER BY r.priority DESC, r.created_at ASC, j.batch_seq ASC`. -/
def claimOrder (a b : Candidate) : Ordering :=
  (compare b.run.priority a.run.priority).then <|
    (compare a.run.createdAt b.run.createdAt).then <|
      compareBatchSeq a.job.batchSeq b.job.batchSeq

/-- The rows that pass the `WHERE` clause. -/
def claimable (s : Store) (now : Int) (excludeDeviceIds : List String) : List Candidate :=
  s.candidates.filter (s.claimWhere now excludeDeviceIds)

/-- The rows `ORDER BY … LIMIT 1` may return: those that no other row comes before. -/
def ClaimsRow (s : Store) (now : Int) (excludeDeviceIds : List String) (c : Candidate) : Prop :=
  c ∈ s.claimable now excludeDeviceIds ∧
    ∀ c' ∈ s.claimable now excludeDeviceIds, claimOrder c' c ≠ .lt

instance (s : Store) (now : Int) (excludeDeviceIds : List String) (c : Candidate) :
    Decidable (s.ClaimsRow now excludeDeviceIds c) := by
  unfold ClaimsRow
  infer_instance

/-- The columns the claim writes. -/
def claimPatch (now jobTtlSec : Int) (r : JobRunRow) : JobRunRow :=
  { r with
    status := .running
    heartbeatExpiresAt := some (now + jobTtlSec)
    startedAt := some now }

/-- The claim of one particular row: `UPDATE job_runs SET … WHERE id = (…)`. -/
def claimRow (s : Store) (now jobTtlSec : Int) (c : Candidate) : Store :=
  s.updateRun c.run.id (claimPatch now jobTtlSec)

/-- What a successful claim hands to the scheduler. -/
structure ClaimedJob where
  job : JobRow
  run : JobRunRow
  deviceId : String
  deriving DecidableEq, Repr

/-- `claimNext`: claim a queued run for an online device. -/
def claimNext (s : Store) (now jobTtlSec : Int) (excludeDeviceIds : List String) :
    Option ClaimedJob × Store :=
  match (s.claimable now excludeDeviceIds).find? fun c ↦ s.ClaimsRow now excludeDeviceIds c with
  | none => (none, s)
  | some c =>
    (some ⟨c.job, claimPatch now jobTtlSec c.run, c.run.deviceId⟩, s.claimRow now jobTtlSec c)

/-- A claim that found something claimed one of the rows the statement may return. -/
theorem claimNext_some {s s' : Store} {now jobTtlSec : Int} {excludeDeviceIds : List String}
    {claimed : ClaimedJob}
    (h : s.claimNext now jobTtlSec excludeDeviceIds = (some claimed, s')) :
    ∃ c, s.ClaimsRow now excludeDeviceIds c ∧ s' = s.claimRow now jobTtlSec c ∧
      claimed = ⟨c.job, claimPatch now jobTtlSec c.run, c.run.deviceId⟩ := by
  rw [claimNext] at h
  split at h
  · simp at h
  · rename_i c hc
    simp only [Prod.mk.injEq, Option.some.injEq] at h
    exact ⟨c, by simpa using List.find?_some hc, h.2.symm, h.1.symm⟩

/-! ## What a row that passes the gates looks like -/

section Gates

variable {s : Store} {now : Int} {excludeDeviceIds : List String} {c : Candidate}

theorem mem_candidates (h : c ∈ s.candidates) :
    c.run ∈ s.runs ∧ c.job ∈ s.jobs ∧ c.job.id = c.run.jobId ∧ c.device ∈ s.devices ∧
      c.device.id = c.run.deviceId ∧
      ∀ b, c.batch = some b → b ∈ s.batches ∧ some b.id = c.job.batchId := by
  obtain ⟨⟨⟨⟨r, j⟩, d⟩, b⟩, hp, rfl⟩ := List.mem_map.mp h
  have hrjd := Sql.mem_leftJoin_left hp
  obtain ⟨hrj, hd, hdr⟩ := Sql.mem_join.mp hrjd
  obtain ⟨hr, hj, hjr⟩ := Sql.mem_join.mp hrj
  refine ⟨hr, hj, of_decide_eq_true hjr, hd, of_decide_eq_true hdr, fun b' hb' ↦ ?_⟩
  obtain rfl : b = some b' := hb'
  obtain ⟨hb, hon⟩ := Sql.mem_leftJoin_some hp
  exact ⟨hb, of_decide_eq_true hon⟩

/-- Every run running on the claimed run's device belongs to the claimed run's parent workflow. -/
theorem parent_of_deviceFree (h : s.deviceFree c = true) {x : JobRunRow} (hx : x ∈ s.runs)
    (hd : x.deviceId = c.run.deviceId) (hr : x.status = .running) :
    c.job.parentWorkflowJobId = some x.jobId := by
  rw [deviceFree, Bool.not_eq_true', List.any_eq_false] at h
  have hno := h x hx
  simp only [hd, hr, decide_true, Bool.true_and, Sql.Truth.isTrue_or, Bool.or_eq_true,
    Sql.isTrue_isNull, Sql.isTrue_ne, not_or, not_exists, not_and, not_not] at hno
  obtain ⟨hsome, heq⟩ := hno
  cases hp : c.job.parentWorkflowJobId with
  | none => simp [hp] at hsome
  | some p => rw [heq p hp]

theorem batchGate_iff : (s.batchGate c).isTrue = true ↔
    c.job.batchId = none ∨ ∃ b, c.batch = some b ∧
      (b.concurrency = 0 ∨ (s.countBatchRunning c.job.batchId : Int) < b.concurrency) := by
  simp only [batchGate, Sql.Truth.isTrue_or, Sql.isTrue_isNull, Bool.or_eq_true, Sql.isTrue_eq,
    Sql.isTrue_lt, Option.isNone_iff_eq_none, Option.map_eq_some_iff]
  constructor
  · rintro (h | ⟨b, hb, h⟩ | ⟨_, ⟨b, hb, rfl⟩, h⟩)
    · exact .inl h
    · exact .inr ⟨b, hb, .inl h⟩
    · exact .inr ⟨b, hb, .inr h⟩
  · rintro (h | ⟨b, hb, h | h⟩)
    · exact .inl h
    · exact .inr (.inl ⟨b, hb, h⟩)
    · exact .inr (.inr ⟨_, ⟨b, hb, rfl⟩, h⟩)

theorem maxConcurrentGate_iff : (s.maxConcurrentGate c).isTrue = true ↔
    c.run.maxConcurrent = none ∨ c.run.maxConcurrent = some 0 ∨
      ∃ m, c.run.maxConcurrent = some m ∧ (s.countScriptRunning c.run.scriptName : Int) < m := by
  simp [maxConcurrentGate]

theorem notBeforeGate_iff :
    (notBeforeGate now c).isTrue = true ↔ ∀ t, c.run.notBefore = some t → t ≤ now := by
  cases h : c.run.notBefore <;> simp [notBeforeGate, h]

/-- Everything the `WHERE` clause says about a row it keeps. -/
structure Claimed (s : Store) (now : Int) (excludeDeviceIds : List String) (c : Candidate) :
    Prop where
  run_mem : c.run ∈ s.runs
  job_mem : c.job ∈ s.jobs
  job_id : c.job.id = c.run.jobId
  device_mem : c.device ∈ s.devices
  device_id : c.device.id = c.run.deviceId
  batch_mem : ∀ b, c.batch = some b → b ∈ s.batches ∧ some b.id = c.job.batchId
  queued : c.run.status = .queued
  online : c.device.status = "online"
  alone : ∀ x ∈ s.runs, x.deviceId = c.run.deviceId → x.status = .running →
    c.job.parentWorkflowJobId = some x.jobId
  not_excluded : c.run.deviceId ∉ excludeDeviceIds
  batch_room : c.job.batchId = none ∨ ∃ b, c.batch = some b ∧
    (b.concurrency = 0 ∨ (s.countBatchRunning c.job.batchId : Int) < b.concurrency)
  script_room : c.run.maxConcurrent = none ∨ c.run.maxConcurrent = some 0 ∨
    ∃ m, c.run.maxConcurrent = some m ∧ (s.countScriptRunning c.run.scriptName : Int) < m
  due : ∀ t, c.run.notBefore = some t → t ≤ now
  not_held : c.run.held = false

theorem claimed_of_mem_claimable (h : c ∈ s.claimable now excludeDeviceIds) :
    Claimed s now excludeDeviceIds c := by
  obtain ⟨hc, hw⟩ := List.mem_filter.mp h
  simp only [claimWhere, Bool.and_eq_true, decide_eq_true_eq, Bool.not_eq_true',
    decide_eq_false_iff_not] at hw
  obtain ⟨⟨⟨⟨⟨⟨⟨hq, hon⟩, hfree⟩, hex⟩, hb⟩, hm⟩, hn⟩, hh⟩ := hw
  obtain ⟨hr, hj, hjr, hd, hdr, hbm⟩ := mem_candidates hc
  exact ⟨hr, hj, hjr, hd, hdr, hbm, hq, hon, fun x hx ↦ parent_of_deviceFree hfree hx, hex,
    batchGate_iff.mp hb, maxConcurrentGate_iff.mp hm, notBeforeGate_iff.mp hn, hh⟩

end Gates

/-! ## The other writers -/

/-- The columns a rebind writes. -/
def rebindPatch (newDeviceId : String) (r : JobRunRow) : JobRunRow :=
  { r with
    status := .queued
    deviceId := newDeviceId
    heartbeatExpiresAt := none
    startedAt := none
    infraAttempts := r.infraAttempts + 1 }

/-- `requeueForRebind`: a member's infra failure returns the same run to the queue, on the new
device, and moves its job with it. -/
def requeueForRebind (s : Store) (runId newDeviceId : String) : Option JobRunRow × Store :=
  match s.runIn? runId .running with
  | none => (none, s)
  | some before =>
    let s' := s.updateRun runId (rebindPatch newDeviceId)
    let move (j : JobRow) := { j with deviceId := newDeviceId }
    (some (rebindPatch newDeviceId before),
      { s' with jobs := Sql.update (fun j ↦ decide (j.id = before.jobId)) move s'.jobs })

/-- `renewHeartbeat`: extends a running run's heartbeat and says whether there was one. -/
def renewHeartbeat (s : Store) (now : Int) (runId : String) (ttlSec : Int) : Bool × Store :=
  let where' (r : JobRunRow) := decide (r.id = runId) && decide (r.status = .running)
  let set (r : JobRunRow) := { r with heartbeatExpiresAt := some (now + ttlSec) }
  (s.runs.any where', { s with runs := Sql.update where' set s.runs })

/-- `expiredRunning`: the running runs whose heartbeat has passed. -/
def expiredRunning (s : Store) (now : Int) : List JobRunRow :=
  s.runs.filter fun r ↦
    (r.status = .running) && (Sql.lt r.heartbeatExpiresAt (some now)).isTrue

/-- The `WHERE` clause of the expiry reaper. -/
def pastExpiry (now : Int) (r : JobRunRow) : Bool :=
  (r.status = .queued) && (Sql.le r.expiresAt (some now)).isTrue

/-- The columns the expiry reaper writes. -/
def expirePatch (now : Int) (r : JobRunRow) : JobRunRow :=
  { r with status := .expired, finishedAt := some now }

/-- `expireQueued`: every queued run past its `expires_at` becomes `expired`. -/
def expireQueued (s : Store) (now : Int) : List JobRunRow × Store :=
  ((s.runs.filter (pastExpiry now)).map (expirePatch now),
    { s with runs := Sql.update (pastExpiry now) (expirePatch now) s.runs })

/-- The columns the recovery boot writes. -/
def orphanPatch (now : Int) (r : JobRunRow) : JobRunRow :=
  { r with
    status := .failed
    error := some "core restarted"
    finishedAt := some now
    heartbeatExpiresAt := none
    failureClass := some "infra" }

/-- `failOrphanRunning`: at boot every run still `running` is an orphan. -/
def failOrphanRunning (s : Store) (now : Int) : Nat × Store :=
  let orphan (r : JobRunRow) := decide (r.status = .running)
  (s.runs.countP orphan, { s with runs := Sql.update orphan (orphanPatch now) s.runs })

/-- The pacing columns of a run, which the batch pacer is the one to write: whether it is held,
when it may start and expire, and where it stands in its batch. -/
structure Pacing where
  held : Bool
  notBefore : Option Int
  expiresAt : Option Int
  batchRepeat : Option Int
  batchWave : Option Int
  pacedDelayMs : Option Int
  deriving DecidableEq, Repr

/-- The pacer's write to one run: holds it, releases it, or gives it its instant. -/
def paceRun (s : Store) (runId : String) (p : Pacing) : Store :=
  s.updateRun runId fun r ↦
    { r with
      held := p.held
      notBefore := p.notBefore
      expiresAt := p.expiresAt
      batchRepeat := p.batchRepeat
      batchWave := p.batchWave
      pacedDelayMs := p.pacedDelayMs }

/-- A device is first seen, or changes its status. -/
def putDevice (s : Store) (d : DeviceRow) : Store :=
  { s with devices := d :: s.devices.filter fun d' ↦ d'.id ≠ d.id }

/-- `INSERT INTO batches`.  A batch row's concurrency is never written again. -/
def insertBatch (s : Store) (b : BatchRow) : Except StoreError Store :=
  if s.batches.any fun b' ↦ b'.id = b.id then .error (.uniqueConstraint "batches.id")
  else .ok { s with batches := s.batches ++ [b] }

end Enkaku.Store
