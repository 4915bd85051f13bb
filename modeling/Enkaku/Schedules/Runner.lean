import Enkaku.Db.Schema
import Enkaku.Schedules.Cron
import Mathlib.Data.List.Nodup

/-!
# The schedule runner

`createScheduleRunner`: the startup catch-up, one timer that wakes at the earliest next fire, and a
fallback tick.  `fireOnce` decides about the overlap, claims the fire time, sleeps the jitter and creates
the batch.  What runs beside it is the catch-up, which goes over rows that it has read before, and the
fires that sleep.
-/

set_option autoImplicit false

namespace Enkaku.Schedules

/-- `schedules.onOverlap`. -/
inductive OnOverlap where
  | skip | queue | cancelPrevious
  deriving DecidableEq, Repr

/-- `schedules.catchUp`. -/
inductive CatchUp where
  | skip | once
  deriving DecidableEq, Repr

/-- What a schedule runs. -/
inductive Target where
  | script | workflow | agent
  deriving DecidableEq, Repr

/-- `ScheduleRunOutcome`. -/
inductive ScheduleRunOutcome where
  | dispatched | skippedOverlap | skippedMissed | noTargets | error | spendCap
  deriving DecidableEq, Repr

/-- What the operator sets of a schedule. -/
structure Schedule where
  id : String
  cron : String
  timezone : String
  enabled : Bool
  catchUp : CatchUp
  onOverlap : OnOverlap
  jitterSec : Nat
  target : Target
  createdAt : Nat
  deriving DecidableEq, Repr

/-- A row of `schedules`. -/
structure ScheduleRow extends Schedule where
  lastFiredAt : Option Nat
  batchId : Option Nat
  lastFireOutcome : Option ScheduleRunOutcome
  deriving DecidableEq, Repr

/-- A batch that a fire created, with the status of the latest run of each of its members. -/
structure ScheduleBatch where
  id : Nat
  schedule : String
  /-- The fire that created it. -/
  fire : Nat
  members : List RunStatus
  deriving DecidableEq, Repr

/-- A member has a run that is queued or running. -/
def ScheduleBatch.isActive (b : ScheduleBatch) : Bool := b.members.any (! ·.terminal)

/-- A call of `fireOnce`, or a fire that the catch-up only records.  What it stands for, the occurrences
from `first` to `dueAt`, who made it and what it replaced are there for the statements only. -/
structure Fire where
  id : Nat
  /-- The row as the caller had read it. -/
  schedule : ScheduleRow
  /-- In milliseconds. -/
  dueAt : Nat
  /-- In seconds. -/
  first : Nat
  isCatchUp : Bool
  before : Option Nat
  deriving DecidableEq, Repr

/-- A fire that has dispatched, and the batches of earlier fires of its schedule that were still active
then. -/
structure Dispatched where
  fire : Fire
  beside : List Nat
  deriving DecidableEq, Repr

/-- A `runStartupCatchUp` that awaits a fire. -/
structure CatchUpPass where
  id : Nat
  now : Nat
  rest : List ScheduleRow
  /-- The fire. -/
  awaits : Nat
  deriving DecidableEq, Repr

/-- How creating the batch, or starting the agent run, ends. -/
inductive Creation where
  /-- The first runs of the members. -/
  | created (members : List RunStatus)
  | failed (outcome : ScheduleRunOutcome)
  deriving DecidableEq, Repr

/-- What a fire finds outside of the runner. -/
structure Meeting where
  /-- An agent dispatcher is there. -/
  wired : Bool
  /-- The previous agent run is still going, or the ceiling is reached. -/
  agentBusy : Bool
  /-- What `stopBatch` leaves of the previous batch. -/
  stopped : List RunStatus
  /-- The number that `random` draws. -/
  draw : Nat
  /-- How it ends, if it does not sleep. -/
  creation : Creation
  deriving DecidableEq, Repr

/-- `pickJitterMs`. -/
def pickJitterMs (jitterSec draw : Nat) : Nat :=
  if jitterSec ≤ 0 then 0 else draw % (jitterSec * 1000 + 1)

/-- The schedules that a database holds, each with its `lastFiredAt`.  The id is the primary key. -/
structure ScheduleTable where
  schedules : List (Schedule × Option Nat)
  keyed : (schedules.map (·.1.id)).Nodup

/-- The runner and the tables that it works on.  `claims` and `dispatched` have an entry for every fire
that claimed its time, and for every fire that dispatched. -/
structure ScheduleRunner where
  clock : Nat
  /-- `schedules`. -/
  rows : List ScheduleRow
  batches : List ScheduleBatch
  running : Bool
  wakeTimer : Option Nat
  nextFireCache : List (String × Nat)
  passes : List CatchUpPass
  sleeping : List Fire
  nextId : Nat
  claims : List Fire
  dispatched : List Dispatched
  deriving DecidableEq, Repr

namespace ScheduleRunner

/-- A runner that has not been started, over schedules with no batch yet. -/
def new (clock : Nat) (table : ScheduleTable) : ScheduleRunner :=
  { clock := clock
    rows := table.schedules.map fun p ↦
      { toSchedule := p.1, lastFiredAt := p.2, batchId := none, lastFireOutcome := none }
    batches := []
    running := false
    wakeTimer := none
    nextFireCache := []
    passes := []
    sleeping := []
    nextId := 0
    claims := []
    dispatched := [] }

/-- The row with this id. -/
def row? (s : ScheduleRunner) (id : String) : Option ScheduleRow := s.rows.find? (·.id = id)

/-- `isBatchActive`. -/
def isBatchActive (s : ScheduleRunner) : Option Nat → Bool
  | none => false
  | some id => s.batches.any fun b ↦ b.id = id ∧ b.isActive

/-- Writes the row with this id. -/
def update (s : ScheduleRunner) (id : String) (f : ScheduleRow → ScheduleRow) : ScheduleRunner :=
  { s with rows := s.rows.map fun row ↦ if row.id = id then f row else row }

/-- The members of a batch go on, if it is not over. -/
def setMembers (s : ScheduleRunner) (id : Nat) (members : List RunStatus) : ScheduleRunner :=
  { s with
    batches := s.batches.map fun b ↦ if b.id = id ∧ b.isActive then { b with members := members } else b }

/-- `lastFiredAt` of the row with this id. -/
def lastFired (s : ScheduleRunner) (id : String) : Option Nat := (s.row? id).bind (·.lastFiredAt)

/-- A fire of this moment. -/
def fireOf (s : ScheduleRunner) (schedule : ScheduleRow) (dueAt first : Nat) (isCatchUp : Bool) : Fire :=
  ⟨s.nextId, schedule, dueAt, first, isCatchUp, s.lastFired schedule.id⟩

/-- A fire claims its time: `lastFiredAt` is set before anything is awaited. -/
def claim (s : ScheduleRunner) (fire : Fire) : ScheduleRunner :=
  { s.update fire.schedule.id fun row ↦ { row with lastFiredAt := some (fire.dueAt / 1000) } with
    nextId := s.nextId + 1
    claims := s.claims ++ [fire] }

/-- The end of `fireOnce`, after the jitter: the batch is created, or it is not. -/
def dispatch (s : ScheduleRunner) (fire : Fire) : Creation → ScheduleRunner
  | .failed outcome =>
    s.update fire.schedule.id fun row ↦ { row with lastFireOutcome := some outcome }
  | .created members =>
    let beside := s.batches.filter fun b ↦ b.schedule = fire.schedule.id ∧ b.fire < fire.id ∧ b.isActive
    let entry : Dispatched := ⟨fire, beside.map (·.id)⟩
    let s : ScheduleRunner := { s with dispatched := s.dispatched ++ [entry] }
    if fire.schedule.target = .agent then
      s.update fire.schedule.id fun row ↦ { row with lastFireOutcome := some .dispatched }
    else
      let batch : ScheduleBatch := ⟨s.nextId, fire.schedule.id, fire.id, members⟩
      { s.update fire.schedule.id fun row ↦
          { row with lastFireOutcome := some .dispatched, batchId := some batch.id } with
        batches := s.batches ++ [batch]
        nextId := s.nextId + 1 }

/-- What a fire finds of the one before it: still active, or not. -/
def isPreviousActive (s : ScheduleRunner) (schedule : ScheduleRow) (m : Meeting) : Bool :=
  if schedule.target = .agent then m.agentBusy else s.isBatchActive schedule.batchId

/-- The previous batch is stopped, if it is active and the schedule says so. -/
def stopPrevious (s : ScheduleRunner) (schedule : ScheduleRow) (active : Bool) (m : Meeting) :
    ScheduleRunner :=
  match schedule.batchId with
  | none => s
  | some previous =>
    if active ∧ schedule.onOverlap = .cancelPrevious ∧ schedule.target ≠ .agent then
      s.setMembers previous m.stopped
    else s

/-- `fireOnce` and `fireAgentOnce`, up to the end or to the jitter sleep. -/
def fireOnce (s : ScheduleRunner) (schedule : ScheduleRow) (dueAt first : Nat) (isCatchUp : Bool)
    (m : Meeting) : ScheduleRunner :=
  if schedule.target = .agent ∧ ¬ m.wired then s
  else
    let active := s.isPreviousActive schedule m
    let fire := s.fireOf schedule dueAt first isCatchUp
    let s := s.claim fire
    if active ∧ schedule.onOverlap = .skip then
      s.update schedule.id fun row ↦ { row with lastFireOutcome := some .skippedOverlap }
    else
      let s := s.stopPrevious schedule active m
      if 0 < pickJitterMs schedule.jitterSec m.draw then { s with sleeping := s.sleeping ++ [fire] }
      else s.dispatch fire m.creation

variable (cron : Croner)

/-- `recomputeCache`. -/
def recomputeCache (s : ScheduleRunner) : ScheduleRunner :=
  { s with
    nextFireCache := s.rows.filterMap fun row ↦
      if row.enabled then
        match cron.nextFire row.cron row.timezone (row.lastFiredAt.getD row.createdAt * 1000) with
        | .ok (some next) => some (row.id, next)
        | _ => none
      else none }

/-- `armTimer`. -/
def armTimer (s : ScheduleRunner) : ScheduleRunner :=
  { s with
    wakeTimer :=
      if s.running then (s.nextFireCache.map (·.2)).min?.map fun earliest ↦ max s.clock (earliest * 1000)
      else none }

/-- The fires that a wake finds due. -/
def due (s : ScheduleRunner) : List (String × Nat) := s.nextFireCache.filter (·.2 ≤ s.clock / 1000)

/-- A due fire of `wake`. -/
def fireDue (s : ScheduleRunner) (p : String × Nat) (meeting : String → Meeting) : ScheduleRunner :=
  match s.row? p.1 with
  | none => s
  | some schedule =>
    if schedule.enabled then s.fireOnce schedule (p.2 * 1000) p.2 false (meeting p.1) else s

/-- `wake`. -/
def wake (s : ScheduleRunner) (meeting : String → Meeting) : ScheduleRunner :=
  if s.running then
    ((s.due.foldl (fun s p ↦ s.fireDue p meeting) s).recomputeCache cron).armTimer
  else s

/-- The catch-up only records what a schedule has missed. -/
def recordMissed (s : ScheduleRunner) (schedule : ScheduleRow) (now first : Nat) : ScheduleRunner :=
  (s.claim (s.fireOf schedule now first true)).update schedule.id fun row ↦
    { row with lastFireOutcome := some .skippedMissed }

/-- The loop of `runStartupCatchUp`, up to the next fire that it awaits, or to its end and the call that
follows on it. -/
def catchUp (s : ScheduleRunner) (now : Nat) (meeting : String → Meeting) :
    List ScheduleRow → ScheduleRunner
  | [] => (s.recomputeCache cron).armTimer
  | schedule :: rest =>
    match schedule.lastFiredAt with
    | none => s.catchUp now meeting rest
    | some last =>
      match cron.occurrencesBetween schedule.cron schedule.timezone (last * 1000) now with
      | .error _ => s.catchUp now meeting rest
      | .ok missed =>
        if missed = 0 then s.catchUp now meeting rest
        else
          match schedule.catchUp with
          | .skip => (s.recordMissed schedule now (last + 1)).catchUp now meeting rest
          | .once =>
            let fired := s.fireOnce schedule now (last + 1) true (meeting schedule.id)
            { fired with
              passes := fired.passes ++ [⟨fired.nextId, now, rest, s.nextId⟩]
              nextId := fired.nextId + 1 }

/-- `start`. -/
def start (s : ScheduleRunner) (meeting : String → Meeting) : ScheduleRunner :=
  if s.running then s
  else { s with running := true }.catchUp cron s.clock meeting (s.rows.filter (·.enabled))

/-- `stop`. -/
def stop (s : ScheduleRunner) : ScheduleRunner := { s with running := false, wakeTimer := none }

/-- What happens to the runner. -/
inductive Event where
  | advance (ms : Nat)
  | start (meeting : String → Meeting)
  | stop
  | reload
  /-- The precise timer fires. -/
  | wake (meeting : String → Meeting)
  /-- The fallback timer fires. -/
  | tick (meeting : String → Meeting)
  /-- The fire that a catch-up awaits is over. -/
  | resume (id : Nat) (meeting : String → Meeting)
  /-- The jitter of a fire is over. -/
  | woken (id : Nat) (creation : Creation)
  /-- The members of a batch go on: runs start and settle, and a repetition adds the next ones. -/
  | progress (id : Nat) (members : List RunStatus)
  /-- The core ends and a new one comes up, which has not started the runner yet. -/
  | restart

/-- The catch-up that goes on. -/
def pass? (s : ScheduleRunner) (id : Nat) : Option CatchUpPass :=
  s.passes.find? fun p ↦ p.id = id ∧ ∀ f ∈ s.sleeping, f.id ≠ p.awaits

/-- The fire whose jitter is over. -/
def sleeper? (s : ScheduleRunner) (id : Nat) : Option Fire := s.sleeping.find? (·.id = id)

/-- One event; none if it cannot happen. -/
def step (s : ScheduleRunner) : Event → Option ScheduleRunner
  | .advance ms => some { s with clock := s.clock + ms }
  | .start meeting => some (s.start cron meeting)
  | .stop => some s.stop
  | .reload => some (s.recomputeCache cron).armTimer
  | .wake meeting => if s.wakeTimer.any (· ≤ s.clock) then some (s.wake cron meeting) else none
  | .tick meeting => if s.running then some (s.wake cron meeting) else none
  | .resume id meeting => (s.pass? id).map fun p ↦
      { s with passes := s.passes.erase p }.catchUp cron p.now meeting p.rest
  | .woken id creation => (s.sleeper? id).map fun f ↦
      { s with sleeping := s.sleeping.erase f }.dispatch f creation
  | .progress id members => if s.isBatchActive (some id) then some (s.setMembers id members) else none
  | .restart => some { s with
      running := false, wakeTimer := none, nextFireCache := [], passes := [], sleeping := [] }

/-! ## Rows -/

variable {s : ScheduleRunner} {id k : String} {f : ScheduleRow → ScheduleRow}

theorem row?_id {row : ScheduleRow} (h : s.row? k = some row) : row.id = k := by
  simpa using List.find?_some h

theorem row?_update (hf : ∀ row, (f row).id = row.id) :
    (s.update id f).row? k = if k = id then (s.row? k).map f else s.row? k := by
  have hcomp : ((fun row : ScheduleRow ↦ decide (row.id = k)) ∘
      fun row : ScheduleRow ↦ if row.id = id then f row else row) = fun row ↦ decide (row.id = k) := by
    funext row
    simp only [Function.comp_apply]
    split_ifs <;> simp [hf]
  rw [row?, update, List.find?_map, hcomp, ← row?]
  cases hrow : s.row? k with
  | none => simp
  | some row =>
    rw [Option.map_some, row?_id hrow]
    split_ifs <;> rfl

theorem lastFired_update (hf : ∀ row, (f row).id = row.id)
    (hlast : ∀ row, (f row).lastFiredAt = row.lastFiredAt) : (s.update id f).lastFired k = s.lastFired k := by
  rw [lastFired, row?_update hf]
  split_ifs with hk
  · cases hrow : s.row? k <;> simp [lastFired, hrow, hlast]
  · rw [lastFired]

/-- The ids of the rows. -/
def ids (s : ScheduleRunner) : List String := s.rows.map (·.id)

theorem ids_new (clock : Nat) (table : ScheduleTable) : (new clock table).ids.Nodup := by
  have heq : (new clock table).ids = table.schedules.map (·.1.id) := by
    simp [ids, new]
  rw [heq]
  exact table.keyed

theorem ids_update (hf : ∀ row, (f row).id = row.id) : (s.update id f).ids = s.ids := by
  rw [ids, update, List.map_map, ids]
  refine List.map_congr_left fun row _ ↦ ?_
  simp only [Function.comp_apply]
  split_ifs <;> simp [hf]

theorem row?_of_mem (hids : s.ids.Nodup) {row : ScheduleRow} (hrow : row ∈ s.rows) :
    s.row? row.id = some row := by
  cases hfound : s.row? row.id with
  | none => exact absurd (List.find?_eq_none.mp hfound row hrow) (by simp)
  | some row' =>
    exact congrArg some
      (List.inj_on_of_nodup_map hids (List.mem_of_find?_eq_some hfound) hrow (row?_id hfound))

end ScheduleRunner

end Enkaku.Schedules
