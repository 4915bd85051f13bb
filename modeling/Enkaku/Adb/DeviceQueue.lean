import Enkaku.Adb.Semaphore

/-!
# The per-device adb queue

`PerDeviceQueue`: one promise chain for each serial, a gate that `pause` closes, and the global
`Semaphore`.  A task waits three times: for the task before it on its chain, for the gate it finds
when its turn comes, and for the semaphore.  Only then is it counted in `inFlight`, which is what
`waitIdle` looks at.

A step is a call on the queue, a timer or an abort signal that fires, a task body that settles, or
one of the pending continuations (`Event.isContinuation`), each of which runs in a microtask of its
own; they come in any order.  A task is named by its place in `tasks`, which is the order in which
`run` accepted them; a chain entry is an object that the closures of `run` hold on to, and is named
by its place in `entries`.
-/

set_option autoImplicit false

namespace Enkaku.Adb

/-- `DEFAULT_QUEUE_TIMEOUT_MS`. -/
def defaultQueueTimeoutMs : Nat := 30000

/-- `DEFAULT_MAX_QUEUE_DEPTH`. -/
def defaultMaxQueueDepth : Int := 32

/-- The errors the queue itself answers with. -/
inductive Refusal
  | depth (serial : String) (maxDepth : Int)
  | timedOut (queueTimeoutMs : Nat) (serial : String)
  | aborted
  deriving DecidableEq, Repr

def Refusal.code : Refusal → String
  | .depth .. | .timedOut .. => "E_ADB_BUSY"
  | .aborted => "E_ADB_ABORTED"

def Refusal.message : Refusal → String
  | .depth serial maxDepth =>
    "the queue for " ++ serial ++ " is already at its depth cap (" ++ toString maxDepth ++ ")"
  | .timedOut queueTimeoutMs serial =>
    "queued longer than " ++ toString queueTimeoutMs ++ "ms on " ++ serial
  | .aborted => "aborted while queued"

/-- `QueueRunOptions`; of the signal, whether it is aborted already. -/
structure QueueRunOptions where
  queueTimeoutMs : Option Nat := none
  signal : Option Bool := none
  maxDepth : Option Int := none
  deriving DecidableEq, Repr

/-- How far the chain body of a task has come. -/
inductive Stage
  /-- It waits for the task before it. -/
  | queued
  /-- It waits for this gate. -/
  | gated (gate : Nat)
  /-- It waits for the semaphore. -/
  | acquiring
  /-- The semaphore has counted it in; the rest of the body has not run. -/
  | granted
  /-- The task is executing. -/
  | running
  /-- The body has returned or thrown. -/
  | settled
  /-- The continuation that ends its link has run. -/
  | left
  deriving DecidableEq, Repr

/-- What a call of `run` that was accepted closes over. -/
structure Task where
  serial : String
  queueTimeoutMs : Nat
  maxDepth : Int
  /-- Whether its abort signal was aborted when it was accepted. -/
  signal : Option Bool
  entry : Nat
  /-- The tail it was chained to: nothing, or the link of a task. -/
  prev : Option Nat
  stage : Stage
  started : Bool
  gaveUpWith : Option Refusal
  /-- `clearQueueWatchers` has not run. -/
  watching : Bool
  deriving DecidableEq, Repr

/-- An entry of `chains`.  The tail is the link of a task, or a promise that is resolved. -/
structure ChainEntry where
  tail : Option Nat
  pending : Nat
  deriving DecidableEq, Repr

/-- A promise of `waitIdle`, and the gate it was called behind, if the queue was paused. -/
structure IdleWaiter where
  pause : Option Nat
  answered : Bool
  deriving DecidableEq, Repr

/-- What settles the promise `run` returns. -/
inductive Answer
  | refused (refusal : Refusal)
  /-- The task returned, or it threw. -/
  | done (ok : Bool)
  deriving DecidableEq, Repr

/-- What the queue did, for the statements about whole runs. -/
inductive QueueEntry
  /-- A call was not accepted. -/
  | rejected (refusal : Refusal)
  | answered (task : Nat) (answer : Answer)
  /-- The body of the task was called. -/
  | began (task : Nat) (serial : String)
  deriving DecidableEq, Repr

structure DeviceQueue where
  sem : Semaphore
  tasks : List Task
  entries : List ChainEntry
  chains : List (String × Nat)
  /-- The gate there is; the ones before it are open. -/
  gate : Nat
  /-- `openGate` is set: the gate is closed. -/
  openGate : Bool
  inFlight : Nat
  idleWaiters : List IdleWaiter
  /-- A `waitIdle` called in this pause has answered true.  The code does not keep this. -/
  drained : Bool
  log : List QueueEntry
  deriving DecidableEq, Repr

namespace DeviceQueue

def new (sem : Semaphore) : DeviceQueue :=
  ⟨sem, [], [], [], 0, false, 0, [], false, []⟩

def pause (s : DeviceQueue) : DeviceQueue :=
  if s.openGate then s else { s with gate := s.gate + 1, openGate := true, drained := false }

def resume (s : DeviceQueue) : DeviceQueue :=
  { s with openGate := false, drained := false }

/-- The promise of a gate is resolved. -/
def isOpen (s : DeviceQueue) (gate : Nat) : Bool := gate ≠ s.gate || !s.openGate

/-- `waitIdle`, which answers at once or leaves a waiter. -/
def waitIdle (s : DeviceQueue) : DeviceQueue :=
  if s.inFlight = 0 then { s with drained := s.drained || s.openGate }
  else
    { s with
      idleWaiters := s.idleWaiters ++ [⟨if s.openGate then some s.gate else none, false⟩] }

/-- The timer of a `waitIdle` fires.  Its callback stays in `idleWaiters`. -/
def idleTimeout (s : DeviceQueue) (i : Nat) : Option DeviceQueue :=
  (s.idleWaiters[i]?).map fun w ↦
    { s with idleWaiters := s.idleWaiters.set i { w with answered := true } }

/-- A waiter that was called in this pause and is not answered. -/
def isDue (s : DeviceQueue) (w : IdleWaiter) : Bool :=
  s.openGate && w.pause == some s.gate && !w.answered

def pending (s : DeviceQueue) (serial : String) : Nat :=
  (((OrdMap.get? serial s.chains).bind (s.entries[·]?)).map (·.pending)).getD 0

/-- The entries with that of the serial, which is made if there is none, and its place. -/
def chainOf (s : DeviceQueue) (serial : String) : List ChainEntry × Nat :=
  match OrdMap.get? serial s.chains with
  | some e => (s.entries, e)
  | none => (s.entries ++ [⟨none, 0⟩], s.entries.length)

/-- The entry of the serial. -/
def entryOf (s : DeviceQueue) (serial : String) : ChainEntry :=
  (s.chainOf serial).1[(s.chainOf serial).2]?.getD ⟨none, 0⟩

/-- `giveUp`, for a task that is there. -/
def giveUp (s : DeviceQueue) (t : Nat) (task : Task) (err : Refusal) : DeviceQueue :=
  if task.started || task.gaveUpWith.isSome then s
  else
    { s with
      tasks := s.tasks.set t { task with gaveUpWith := some err }
      log := s.log ++ [.answered t (.refused err)] }

/-- What an accepted call closes over. -/
def newTask (s : DeviceQueue) (serial : String) (opts : QueueRunOptions) : Task where
  serial := serial
  queueTimeoutMs := opts.queueTimeoutMs.getD defaultQueueTimeoutMs
  maxDepth := opts.maxDepth.getD defaultMaxQueueDepth
  signal := opts.signal
  entry := (s.chainOf serial).2
  prev := (s.entryOf serial).tail
  stage := .queued
  started := false
  gaveUpWith := none
  watching := true

/-- The task joins its chain. -/
def accept (s : DeviceQueue) (serial : String) (opts : QueueRunOptions) : DeviceQueue :=
  { s with
    entries := (s.chainOf serial).1.set (s.chainOf serial).2
      ⟨some s.tasks.length, (s.entryOf serial).pending + 1⟩
    chains := OrdMap.set serial (s.chainOf serial).2 s.chains
    tasks := s.tasks ++ [s.newTask serial opts] }

/-- `run`, up to the promise it returns.  The depth cap is looked at before the chain is touched. -/
def run (s : DeviceQueue) (serial : String) (opts : QueueRunOptions) : DeviceQueue :=
  let maxDepth := opts.maxDepth.getD defaultMaxQueueDepth
  if maxDepth ≤ (s.entryOf serial).pending then
    { s with log := s.log ++ [.rejected (.depth serial maxDepth)] }
  else if opts.signal = some true then
    (s.accept serial opts).giveUp s.tasks.length (s.newTask serial opts) .aborted
  else s.accept serial opts

/-- The queue timer of a task fires. -/
def timeout (s : DeviceQueue) (t : Nat) : Option DeviceQueue :=
  match s.tasks[t]? with
  | some task =>
    if task.watching then some (s.giveUp t task (.timedOut task.queueTimeoutMs task.serial)) else none
  | none => none

/-- The abort signal of a task fires. -/
def abort (s : DeviceQueue) (t : Nat) : Option DeviceQueue :=
  match s.tasks[t]? with
  | some task =>
    if task.watching ∧ task.signal = some false then some (s.giveUp t task .aborted) else none
  | none => none

/-- The link before a task has ended. -/
def isTurn (s : DeviceQueue) (task : Task) : Bool :=
  match task.prev with
  | none => true
  | some p => (s.tasks[p]?).any (·.stage == .left)

/-- The chain body up to `await this.gate`. -/
def turn (s : DeviceQueue) (t : Nat) : Option DeviceQueue :=
  match s.tasks[t]? with
  | some task =>
    if task.stage = .queued ∧ s.isTurn task then
      some { s with tasks := s.tasks.set t { task with stage := .gated s.gate } }
    else none
  | none => none

/-- The chain body behind the gate, up to `await this.sem.acquire()`. -/
def gatePassed (s : DeviceQueue) (t : Nat) : Option DeviceQueue :=
  match s.tasks[t]? with
  | some task =>
    match task.stage with
    | .gated gate =>
      if s.isOpen gate then
        match task.gaveUpWith with
        | some _ =>
          some { s with tasks := s.tasks.set t { task with stage := .settled, watching := false } }
        | none =>
          let sem := s.sem.acquire t
          some
            { s with
              sem := sem
              tasks := s.tasks.set t
                { task with
                  stage := if t ∈ sem.waiters then .acquiring else .granted
                  started := true
                  watching := false } }
      else none
    | _ => none
  | none => none

/-- The semaphore counts in the waiter it woke first. -/
def grant (s : DeviceQueue) : Option DeviceQueue :=
  match s.sem.woken, s.sem.continuation with
  | t :: _, some sem =>
    (s.tasks[t]?).map fun task ↦
      { s with sem := sem, tasks := s.tasks.set t { task with stage := .granted } }
  | _, _ => none

/-- The chain body behind the semaphore, up to the `await` of the task it calls. -/
def begin (s : DeviceQueue) (t : Nat) : Option DeviceQueue :=
  match s.tasks[t]? with
  | some task =>
    if task.stage = .granted then
      some
        { s with
          inFlight := s.inFlight + 1
          tasks := s.tasks.set t { task with stage := .running }
          log := s.log ++ [.began t task.serial] }
    else none
  | none => none

/-- Answers the waiters of `waitIdle`, if nothing is in flight. -/
def answerIdle (s : DeviceQueue) : DeviceQueue :=
  if s.inFlight = 0 then
    { s with idleWaiters := [], drained := s.drained || s.idleWaiters.any s.isDue }
  else s

/-- A task returns or throws: the `finally` of the chain body. -/
def complete (s : DeviceQueue) (t : Nat) (ok : Bool) : Option DeviceQueue :=
  match s.tasks[t]? with
  | some task =>
    if task.stage = .running then
      let s' := answerIdle { s with inFlight := s.inFlight - 1 }
      some
        { s' with
          sem := s'.sem.release t
          tasks := s'.tasks.set t { task with stage := .settled }
          log := s'.log ++ [.answered t (.done ok)] }
    else none
  | none => none

/-- The continuation that ends the link of a task. -/
def leave (s : DeviceQueue) (t : Nat) : Option DeviceQueue :=
  match s.tasks[t]? with
  | some task =>
    if task.stage = .settled then
      (s.entries[task.entry]?).map fun entry ↦
        { s with
          tasks := s.tasks.set t { task with stage := .left }
          entries := s.entries.set task.entry { entry with pending := entry.pending - 1 }
          chains :=
            if entry.pending - 1 = 0 then OrdMap.erase task.serial s.chains else s.chains }
    else none
  | none => none

/-- What can happen to a queue. -/
inductive Event
  | run (serial : String) (opts : QueueRunOptions)
  | timeout (task : Nat)
  | abort (task : Nat)
  | turn (task : Nat)
  | gatePassed (task : Nat)
  | grant
  | begin (task : Nat)
  | complete (task : Nat) (ok : Bool)
  | leave (task : Nat)
  | pause
  | resume
  | waitIdle
  | idleTimeout (i : Nat)
  /-- The cap of the semaphore is resized. -/
  | resize (max : Nat)
  deriving DecidableEq, Repr

/-- A continuation that is pending, and runs without anybody calling. -/
def Event.isContinuation : Event → Bool
  | .turn _ | .gatePassed _ | .grant | .begin _ | .leave _ => true
  | _ => false

/-- One event. -/
def step (s : DeviceQueue) : Event → Option DeviceQueue
  | .run serial opts => some (s.run serial opts)
  | .timeout t => s.timeout t
  | .abort t => s.abort t
  | .turn t => s.turn t
  | .gatePassed t => s.gatePassed t
  | .grant => s.grant
  | .begin t => s.begin t
  | .complete t ok => s.complete t ok
  | .leave t => s.leave t
  | .pause => some s.pause
  | .resume => some s.resume
  | .waitIdle => some s.waitIdle
  | .idleTimeout i => s.idleTimeout i
  | .resize max => some { s with sem := s.sem.resize max }

end DeviceQueue

end Enkaku.Adb
