import Mathlib.Data.String.Basic
import Enkaku.Jobs.ExecutorHost

/-!
# Bulk cancel

`stopRun`, `cancelTree` and `cancelMany` of the job service: many jobs stopped in one call, a
workflow job together with everything below it.

The whole call is synchronous.  The one thing that runs inside it besides its own loops is the
abort listener of a workflow's orchestrator, which cancels the run of the step the workflow is
waiting for; it is `currentStep` here, and `stopRun` runs it where `host.abort` fires the signal.
What a stop only tells others (a broadcast, the watcher, the batch, the scheduler kick behind a
settle, whose claims are events of their own) is left out.

`JobService.stopped` is a ghost: the runs stopped since the call began, in the order in which they
were stopped.  A run is *going* while it is queued, or running and not being cancelled; what stops
it is what ends that.
-/

set_option autoImplicit false

namespace Enkaku

/-! ## Children -/

namespace Store

/-- The `WHERE` of `listChildren`. -/
def isChildOf (jobIds : List String) (j : JobRow) : Bool :=
  j.parentWorkflowJobId.any (· ∈ jobIds) || j.triggeredByJobId.any (· ∈ jobIds) ||
    j.rootJobId.any (· ∈ jobIds)

/-- `ORDER BY created_at, id`. -/
def createdFirst (a b : JobRow) : Prop :=
  a.createdAt < b.createdAt ∨ a.createdAt = b.createdAt ∧ a.id ≤ b.id

instance : DecidableRel createdFirst := fun a b ↦
  inferInstanceAs (Decidable (a.createdAt < b.createdAt ∨ a.createdAt = b.createdAt ∧ a.id ≤ b.id))

/-- `listChildren`: the steps, the triggered jobs and the chain members of these jobs. -/
def listChildren (s : Store) (jobIds : List String) : List JobRow :=
  ((s.jobs.filter (isChildOf jobIds)).insertionSort createdFirst).filter fun row ↦
    decide (row.id ∉ jobIds)

/-- A runaway lineage cannot turn one cancel into an unbounded walk. -/
def maxDescendants : Nat := 20000

/-- The loop of `descendantsOf`, on a fuel that every turn of it but the last takes a job from. -/
def descend (s : Store) : Nat → List JobRow → List String → List String → List JobRow
  | 0, out, _, _ => out
  | fuel + 1, out, seen, frontier =>
    if frontier ≠ [] ∧ out.length < maxDescendants then
      let children := (s.listChildren frontier).filter fun c ↦ decide (c.id ∉ seen)
      s.descend fuel (out ++ children) (seen ++ children.map (·.id)) (children.map (·.id))
    else out

/-- `descendantsOf`: breadth-first, so a parent is always stopped before its children. -/
def descendantsOf (s : Store) (jobId : String) : List JobRow :=
  s.descend (s.jobs.length + 1) [] [jobId] [jobId]

end Store

/-! ## Runs, as a stop sees them -/

/-- Where a run stands for a stop: `orphan` is a running run that no executor of this process runs,
`stopping` one whose cancel has begun, and `settled` a run there is nothing left to stop of. -/
inductive RunStanding where
  | queued | live | stopping | orphan | settled
  deriving DecidableEq, Repr

/-- Whether the run is still going. -/
def RunStanding.going : RunStanding → Bool
  | queued | live | orphan => true
  | stopping | settled => false

/-- What stopping one job's latest run did; `none` when there was no run, or it had already
settled. -/
inductive StopOutcome where
  | cancelled | aborted
  deriving DecidableEq, Repr

/-- The job service, with the host it stops runs through. -/
structure JobService where
  host : Host
  /-- `currentChildRunId` of the orchestrator an attempt runs. -/
  currentChildRunId : Nat → Option String
  /-- The runs stopped since the call began. -/
  stopped : List String

namespace JobService

/-- Where a run stands. -/
def standing (w : JobService) (runId : String) : RunStanding :=
  match w.host.store.run? runId with
  | none => .settled
  | some run =>
    match run.status with
    | .queued => .queued
    | .running =>
      match w.host.entry? runId with
      | none => .orphan
      | some entry => if entry.cancelling then .stopping else .live
    | _ => .settled

/-- The host after a stop of the run, with the ghost brought up to date. -/
def moved (w : JobService) (host : Host) (runId : String) : JobService :=
  let w' := { w with host := host }
  if (w.standing runId).going && !(w'.standing runId).going then
    { w' with stopped := w.stopped ++ [runId] }
  else w'

/-- The run that the orchestrator of a run would cancel if the run were aborted: nothing when the
run is no workflow's, is waiting for no step, or is being cancelled already. -/
def currentStep (w : JobService) (runId : String) : Option String := do
  let i ← w.host.running runId
  let entry ← w.host.attempts[i]?
  if entry.cancelling ∨ entry.job.kind ≠ .workflow then none else w.currentChildRunId i

/-! ## Stopping -/

section Stop

variable (deps : HostDeps) (now : Int)

/-- `stopRun`, the one place a run is stopped.  A run the abort listener stops is one level down;
every level marks one more entry, so there are no more levels than entries. -/
def stopRunAt : Nat → JobService → JobRunRow → Option StopOutcome × JobService
  | 0, w, _ => (none, w)
  | level + 1, w, run =>
    match run.status with
    | .queued =>
      match w.host.store.cancelQueuedRun now run.id with
      | (none, _) => (none, w)
      | (some _, store) => (some .cancelled, w.moved { w.host with store := store } run.id)
    | .running =>
      match w.host.abort run.id with
      | (true, host) =>
        let w' := w.moved host run.id
        match w.currentStep run.id with
        | none => (some .aborted, w')
        | some child =>
          -- `onAbort` calls `cancelRun`, which reads the run and its job.
          match w'.host.store.run? child with
          | none => (some .aborted, w')
          | some step =>
            if (w'.host.store.job? step.jobId).isSome then
              (some .aborted, (stopRunAt level w' step).2)
            else (some .aborted, w')
      | (false, _) =>
        (some .aborted, w.moved (w.host.finishExternally deps now run.id .cancelled
            "cancelled (no executor was running)" none) run.id)
    | _ => (none, w)

def stopRun (w : JobService) (run : JobRunRow) : Option StopOutcome × JobService :=
  stopRunAt deps now (w.host.attempts.length + 1) w run

def stopLatest (w : JobService) (jobId : String) : Option StopOutcome × JobService :=
  match w.host.store.latestRun jobId with
  | none => (none, w)
  | some run => w.stopRun deps now run

/-! ## A tree -/

/-- What `cancelTree` answers. -/
structure TreeResult where
  self : Option StopOutcome
  cancelledIds : List String
  abortedIds : List String

/-- The loop of a cascade. -/
def cascade (w : JobService) (r : TreeResult) : List JobRow → TreeResult × JobService
  | [] => (r, w)
  | d :: rest =>
    let (outcome, w') := w.stopLatest deps now d.id
    match outcome with
    | some .cancelled =>
      w'.cascade { r with cancelledIds := r.cancelledIds ++ [d.id] } rest
    | some .aborted => w'.cascade { r with abortedIds := r.abortedIds ++ [d.id] } rest
    | none => w'.cascade r rest

/-- `cancelTree`: the job first, then its descendants. -/
def cancelTree (w : JobService) (job : JobRow) (cascades : Bool) : TreeResult × JobService :=
  let (self, w') := w.stopLatest deps now job.id
  w'.cascade deps now ⟨self, [], []⟩
    (if cascades then w'.host.store.descendantsOf job.id else [])

end Stop

end JobService

/-! ## Many jobs -/

/-- `JobBulkCancelResponse`. -/
structure JobBulkCancelResponse where
  matched : Nat
  cancelled : Nat
  aborted : Nat
  refused : Nat
  notCancellable : Nat
  descendants : Nat
  cancelledJobIds : List String
  abortedJobIds : List String
  refusedJobIds : List String
  notCancellableJobIds : List String
  truncated : Bool
  deriving DecidableEq, Repr

namespace JobBulkCancelResponse

/-- A job that was asked for and that the gate refused. -/
def refuse (r : JobBulkCancelResponse) (id : String) : JobBulkCancelResponse :=
  { r with refused := r.refused + 1, refusedJobIds := r.refusedJobIds ++ [id] }

/-- A job under what stopping it did. -/
def book (r : JobBulkCancelResponse) (outcome : Option StopOutcome) (id : String) :
    JobBulkCancelResponse :=
  match outcome with
  | some .cancelled =>
    { r with cancelled := r.cancelled + 1, cancelledJobIds := r.cancelledJobIds ++ [id] }
  | some .aborted => { r with aborted := r.aborted + 1, abortedJobIds := r.abortedJobIds ++ [id] }
  | none =>
    { r with
      notCancellable := r.notCancellable + 1
      notCancellableJobIds := r.notCancellableJobIds ++ [id] }

end JobBulkCancelResponse

/-- What `cancelMany` is given. -/
structure BulkCancelInput where
  jobIds : List String
  canCancel : Option (JobRow → Bool)
  matched : Option Nat
  truncated : Option Bool

/-- `input.canCancel && !input.canCancel(row)`, the other way round. -/
def BulkCancelInput.allows (input : BulkCancelInput) (row : JobRow) : Bool :=
  input.canCancel.all fun canCancel ↦ canCancel row

/-- The answer before anything has been counted. -/
def BulkCancelInput.response (input : BulkCancelInput) : JobBulkCancelResponse where
  matched := input.matched.getD input.jobIds.length
  cancelled := 0
  aborted := 0
  refused := 0
  notCancellable := 0
  descendants := 0
  cancelledJobIds := []
  abortedJobIds := []
  refusedJobIds := []
  notCancellableJobIds := []
  truncated := input.truncated.getD false

/-- Parents first: a workflow job before any step job, and a shallower job in a trigger chain before
a deeper one. -/
def JobRow.rank (j : JobRow) : Int :=
  (if j.parentWorkflowJobId.any (· ≠ "") then 1 else 0) * 1000000 +
    (if j.kind = .workflow then 0 else 1) * 100000 + j.depth

namespace JobService

/-- Where the loops of `cancelMany` are. -/
structure Bulk where
  service : JobService
  handled : List String
  result : JobBulkCancelResponse

namespace Bulk

/-- One descendant of a stopped tree: counted unless it has been handled. -/
def descendant (outcome : StopOutcome) (b : Bulk) (id : String) : Bulk :=
  if id ∈ b.handled then b
  else
    { b with
      handled := b.handled ++ [id]
      result := { b.result.book (some outcome) id with descendants := b.result.descendants + 1 } }

/-- The books after a tree has been cancelled: the job itself, then its descendants. -/
def bookTree (b : Bulk) (row : JobRow) (tree : TreeResult) (service : JobService) : Bulk :=
  let b' : Bulk := ⟨service, b.handled ++ [row.id], b.result.book tree.self row.id⟩
  tree.abortedIds.foldl (descendant .aborted) (tree.cancelledIds.foldl (descendant .cancelled) b')

/-- One turn of the main loop. -/
def turn (deps : HostDeps) (now : Int) (input : BulkCancelInput) (b : Bulk) (row : JobRow) : Bulk :=
  if row.id ∈ b.handled then b
  else if input.allows row then
    let (tree, service) := b.service.cancelTree deps now row (row.kind = .workflow)
    b.bookTree row tree service
  else { b with handled := b.handled ++ [row.id], result := b.result.refuse row.id }

end Bulk

/-- The first loop of `cancelMany`: the rows of the ids, and the ids without one. -/
def resolve (s : Store) (r : JobBulkCancelResponse) (ids : List String) :
    List JobRow × JobBulkCancelResponse :=
  (ids.filterMap s.job?, (ids.filter fun id ↦ (s.job? id).isNone).foldl (·.book none) r)

/-- `cancelMany`. -/
def cancelMany (deps : HostDeps) (now : Int) (w : JobService) (input : BulkCancelInput) :
    JobBulkCancelResponse × JobService :=
  let (rows, r) := resolve w.host.store input.response input.jobIds.eraseDups
  let b := (rows.insertionSort fun a b ↦ a.rank ≤ b.rank).foldl (Bulk.turn deps now input)
    ⟨{ w with stopped := [] }, [], r⟩
  (b.result, b.service)

end JobService

end Enkaku
