import Enkaku.Lib.OrdMap
import Enkaku.Lib.Steps
import Mathlib

/-!
# The readiness of the devices

`createReadinessManager` keeps the devices of a farm awake, asleep or hot.  Those who need a lit panel
take a hold; an operator asks for a level, and `reconcile` brings the device there.

Waking, sleeping and acquiring a session are awaited.  A call that awaits is a `Task`, and it goes on
when what it awaits settles (`resume`); anything may come between.  What is left out is what no other
part of this reads: the reason why a level cannot be reached, what the phone says of its screen when
it is not acted on, and the broadcasts.
-/

set_option autoImplicit false

namespace Enkaku.Device

inductive Readiness where
  | asleep
  | awake
  | hot
  deriving DecidableEq, Repr

/-- `RANK`. -/
def Readiness.rank : Readiness → Nat
  | asleep => 0
  | awake => 1
  | hot => 2

inductive DeviceStatus where
  | offline
  | online
  | quarantined
  deriving DecidableEq, Repr

inductive HoldReason where
  | viewer
  | control
  | job
  | monitor
  | adbEndpoint
  | transfer
  | capability
  deriving DecidableEq, Repr

/-- `PRESENTATION_HOLDS`. -/
def HoldReason.isPresentation : HoldReason → Bool
  | viewer | control | monitor => true
  | job | adbEndpoint | transfer | capability => false

/-- `SLEEP_RESPECTING_HOLDS`. -/
def HoldReason.isSleepRespecting : HoldReason → Bool
  | viewer | control => true
  | job | monitor | adbEndpoint | transfer | capability => false

/-- What the manager reads of a device: `desired_readiness` (`awake` if it is null), the status, and
whether a cloud node owns it. -/
structure DeviceRow where
  desired : Readiness
  status : DeviceStatus
  remote : Bool
  deriving DecidableEq, Repr

/-- A hold.  It is `owed` a wake while the operator had put the device to sleep when it was asked for
and no wake sequence has run since; that is there for the statements only. -/
structure Hold where
  id : Nat
  deviceId : String
  reason : HoldReason
  owed : Bool
  deriving DecidableEq, Repr

/-- Who awaits: a `hold` call, or one that returns nothing. -/
inductive Caller where
  | hold (h : Hold)
  | other
  deriving DecidableEq, Repr

/-- What `ensureAwake` awaits. -/
inductive WakePhase where
  /-- `refreshObserved`. -/
  | observing
  /-- Its transport. -/
  | connecting
  /-- `wakeDevice`. -/
  | waking
  /-- Its transport again, at the end. -/
  | disconnecting
  deriving DecidableEq, Repr

/-- What `releaseAwake` awaits. -/
inductive SleepPhase where
  | connecting
  /-- `pressSleep`. -/
  | pressing
  | disconnecting
  deriving DecidableEq, Repr

/-- What a task is in the middle of. -/
inductive Work where
  /-- `ensureAwake`. -/
  | wake (phase : WakePhase) (caller : Caller)
  /-- `sessions.acquire` of `reconcile`. -/
  | acquire
  /-- `releaseAwake`, which `reconcile` called or `releaseAll`. -/
  | sleep (phase : SleepPhase) (reconciling : Bool)
  deriving DecidableEq, Repr

structure Task where
  id : Nat
  deviceId : String
  work : Work
  deriving DecidableEq, Repr

/-- The manager, with what it reads of the farm and the calls that await.  The last five fields are
there for the statements only. -/
structure ReadinessManager where
  rows : List (String × DeviceRow)
  /-- adb is ready. -/
  client : Bool
  /-- There is a session manager. -/
  sessions : Bool
  /-- The devices with an open session. -/
  opened : List String
  maxHot : Nat
  /-- The standing subscriptions, named by the await that acquired them. -/
  desiredHotRelease : List (String × Nat)
  keepAwakeApplied : List String
  forcedAsleep : List String
  holdCounts : List (String × Nat)
  holdReasons : List (String × List (HoldReason × Nat))
  /-- The devices a `releaseAll` has still to hand back. -/
  releaseQueue : List String
  tasks : List Task
  nextId : Nat
  /-- The holds that were granted and not released. -/
  granted : List Hold
  /-- The devices that were put to sleep and on which no wake sequence has run since. -/
  dark : List String
  /-- The standing subscriptions that were acquired, and those that were released. -/
  acquired : List (String × Nat)
  released : List (String × Nat)
  deriving DecidableEq, Repr

namespace ReadinessManager

/-- `createReadinessManager`. -/
def new (rows : List (String × DeviceRow)) (client sessions : Bool) (opened : List String)
    (maxHot : Nat) : ReadinessManager :=
  ⟨rows, client, sessions, opened, maxHot, [], [], [], [], [], [], [], 0, [], [], [], []⟩

/-- The number of holds on a device. -/
def holdCount (s : ReadinessManager) (deviceId : String) : Nat :=
  (OrdMap.get? deviceId s.holdCounts).getD 0

/-- The holds on a device by reason. -/
def byReason (s : ReadinessManager) (deviceId : String) : List (HoldReason × Nat) :=
  (OrdMap.get? deviceId s.holdReasons).getD []

/-- The number of holds on a device for this reason. -/
def holdReason (s : ReadinessManager) (deviceId : String) (reason : HoldReason) : Nat :=
  (OrdMap.get? reason (s.byReason deviceId)).getD 0

/-- `workHolds`. -/
def workHolds (s : ReadinessManager) (deviceId : String) : Nat :=
  (((s.byReason deviceId).filter fun p ↦ ¬ p.1.isPresentation).map (·.2)).sum

/-- `desiredOf`. -/
def desiredOf (s : ReadinessManager) (deviceId : String) : Readiness :=
  ((OrdMap.get? deviceId s.rows).map (·.desired)).getD .asleep

/-- `rawActual`. -/
def rawActual (s : ReadinessManager) (deviceId : String) (row : DeviceRow) : Readiness :=
  if row.status = .offline then .asleep
  else if s.sessions ∧ deviceId ∈ s.opened then .hot
  else if deviceId ∈ s.keepAwakeApplied then .awake
  else .asleep

/-- A call returns: a `hold` call grants its hold. -/
def finish (s : ReadinessManager) : Caller → ReadinessManager
  | .hold h => { s with granted := s.granted ++ [h] }
  | .other => s

/-- A call awaits. -/
def await (s : ReadinessManager) (deviceId : String) (work : Work) : ReadinessManager :=
  { s with tasks := s.tasks ++ [⟨s.nextId, deviceId, work⟩], nextId := s.nextId + 1 }

/-- `ensureAwake` from its transport on. -/
def wake (s : ReadinessManager) (deviceId : String) (caller : Caller) : ReadinessManager :=
  if s.client then s.await deviceId (.wake .connecting caller) else s.finish caller

/-- `ensureAwake`. -/
def ensureAwake (s : ReadinessManager) (deviceId : String) (caller : Caller) : ReadinessManager :=
  match OrdMap.get? deviceId s.rows with
  | none => s.finish caller
  | some row =>
    if row.remote ∨ row.status ≠ .online then s.finish caller
    else if deviceId ∉ s.forcedAsleep ∧ s.rawActual deviceId row ≠ .asleep then
      s.await deviceId (.wake .observing caller)
    else s.wake deviceId caller

/-- `releaseAwake`.  Both its callers override the presentation holds. -/
def releaseAwake (s : ReadinessManager) (deviceId : String) (reconciling : Bool) : ReadinessManager :=
  if s.workHolds deviceId > 0 then s
  else
    let s := { s with keepAwakeApplied := s.keepAwakeApplied.erase deviceId }
    if (OrdMap.get? deviceId s.rows).isSome ∧ s.client then
      s.await deviceId (.sleep .connecting reconciling)
    else s

/-- `releaseDesiredHot`. -/
def releaseDesiredHot (s : ReadinessManager) (deviceId : String) : ReadinessManager :=
  match OrdMap.get? deviceId s.desiredHotRelease with
  | none => s
  | some sub =>
    { s with
      desiredHotRelease := OrdMap.erase deviceId s.desiredHotRelease
      released := s.released ++ [(deviceId, sub)] }

/-- `reconcile`. -/
def reconcile (s : ReadinessManager) (deviceId : String) : ReadinessManager :=
  match OrdMap.get? deviceId s.rows with
  | none => s
  | some row =>
    if row.remote then s
    else match row.status, row.desired with
      | .offline, _ =>
        let s := s.releaseDesiredHot deviceId
        { s with
          keepAwakeApplied := s.keepAwakeApplied.erase deviceId
          forcedAsleep := s.forcedAsleep.erase deviceId }
      | .quarantined, _ => s.releaseDesiredHot deviceId
      | .online, .hot =>
        if (OrdMap.get? deviceId s.desiredHotRelease).isSome then s
        else if s.sessions ∧ s.desiredHotRelease.length < s.maxHot then
          s.await deviceId .acquire
        else s.ensureAwake deviceId .other
      | .online, .awake => (s.releaseDesiredHot deviceId).ensureAwake deviceId .other
      | .online, .asleep => (s.releaseDesiredHot deviceId).releaseAwake deviceId true

/-- `set`.  Whether a job is running or another operator controls the device comes from outside. -/
def set (s : ReadinessManager) (deviceId : String) (desired : Readiness) (inUse : Bool) :
    ReadinessManager :=
  match OrdMap.get? deviceId s.rows with
  | none => s
  | some row =>
    if desired = row.desired then s
    else if desired.rank > row.desired.rank ∧ row.status ≠ .online then s
    else if ¬ desired.rank > row.desired.rank ∧ inUse then s
    else
      { s with rows := OrdMap.set deviceId { row with desired := desired } s.rows }.reconcile deviceId

/-- The operator put the device to sleep, and it was not woken since. -/
def Slept (s : ReadinessManager) (deviceId : String) : Prop :=
  deviceId ∈ s.dark ∧ deviceId ∈ s.forcedAsleep ∧ s.desiredOf deviceId = .asleep

instance (s : ReadinessManager) (deviceId : String) : Decidable (s.Slept deviceId) := by
  unfold Slept
  infer_instance

/-- The counts with one more hold. -/
def countHold (s : ReadinessManager) (deviceId : String) (reason : HoldReason) : ReadinessManager :=
  { s with
    holdCounts := OrdMap.set deviceId (s.holdCount deviceId + 1) s.holdCounts
    holdReasons := OrdMap.set deviceId
      (OrdMap.set reason (s.holdReason deviceId reason + 1) (s.byReason deviceId)) s.holdReasons
    nextId := s.nextId + 1 }

/-- `hold`. -/
def hold (s : ReadinessManager) (deviceId : String) (reason : HoldReason) : ReadinessManager :=
  let h : Hold := ⟨s.nextId, deviceId, reason, s.Slept deviceId⟩
  let s := s.countHold deviceId reason
  let respectSleep := reason.isSleepRespecting ∧ s.desiredOf deviceId = .asleep
  if s.holdCount deviceId = 1 ∧ ¬ respectSleep then s.ensureAwake deviceId (.hold h)
  else s.finish (.hold h)

/-- A count less one; there is no key for none. -/
def countDown {α : Type} [DecidableEq α] (k : α) (counts : List (α × Nat)) : List (α × Nat) :=
  let left := (OrdMap.get? k counts).getD 1 - 1
  if left = 0 then OrdMap.erase k counts else OrdMap.set k left counts

/-- The counts by reason with one hold less. -/
def dropReason (deviceId : String) (reason : HoldReason)
    (holdReasons : List (String × List (HoldReason × Nat))) :
    List (String × List (HoldReason × Nat)) :=
  match OrdMap.get? deviceId holdReasons with
  | none => holdReasons
  | some byReason =>
    if countDown reason byReason = [] then OrdMap.erase deviceId holdReasons
    else OrdMap.set deviceId (countDown reason byReason) holdReasons

/-- The first `release` of a hold; another does nothing. -/
def release (s : ReadinessManager) (h : Hold) : ReadinessManager :=
  let left := (OrdMap.get? h.deviceId s.holdCounts).getD 1 - 1
  let s := { s with
    holdCounts := countDown h.deviceId s.holdCounts
    holdReasons := dropReason h.deviceId h.reason s.holdReasons
    granted := s.granted.erase h }
  if left = 0 then s.reconcile h.deviceId else s

/-- A wake sequence has run on the device. -/
def Hold.woken (deviceId : String) (h : Hold) : Hold :=
  if h.deviceId = deviceId then { h with owed := false } else h

def Caller.woken (deviceId : String) : Caller → Caller
  | .hold h => .hold (Hold.woken deviceId h)
  | .other => .other

def Work.woken (deviceId : String) : Work → Work
  | .wake phase caller => .wake phase (Caller.woken deviceId caller)
  | .acquire => .acquire
  | .sleep phase reconciling => .sleep phase reconciling

/-- A wake sequence has run on the device. -/
def woken (s : ReadinessManager) (deviceId : String) : ReadinessManager :=
  { s with
    dark := s.dark.filter (· ≠ deviceId)
    granted := s.granted.map (Hold.woken deviceId)
    tasks := s.tasks.map fun t ↦ { t with work := Work.woken deviceId t.work } }

/-- What a task awaits has settled: it was answered with `ok`, or it went wrong.  The probe of
`ensureAwake` is answered with `ok` if the panel is off.  `wakeDevice` and `pressSleep` do not throw,
and nothing is done to disconnect. -/
def resume (s : ReadinessManager) (t : Task) (ok : Bool) : ReadinessManager :=
  match t.work with
  | .wake .observing caller => if ok then s.wake t.deviceId caller else s.finish caller
  | .wake .connecting caller => if ok then s.await t.deviceId (.wake .waking caller) else s
  | .wake .waking caller =>
    (s.woken t.deviceId).await t.deviceId (.wake .disconnecting (Caller.woken t.deviceId caller))
  | .wake .disconnecting caller =>
    { s with
      keepAwakeApplied := s.keepAwakeApplied.insert t.deviceId
      forcedAsleep := s.forcedAsleep.erase t.deviceId }.finish caller
  | .acquire =>
    if ok then
      { s with
        desiredHotRelease := OrdMap.set t.deviceId t.id s.desiredHotRelease
        acquired := s.acquired ++ [(t.deviceId, t.id)] }
    else s.ensureAwake t.deviceId .other
  | .sleep .connecting reconciling =>
    if ok then s.await t.deviceId (.sleep .pressing reconciling) else s
  | .sleep .pressing reconciling =>
    { s with dark := s.dark.insert t.deviceId }.await t.deviceId (.sleep .disconnecting reconciling)
  | .sleep .disconnecting reconciling =>
    if reconciling then { s with forcedAsleep := s.forcedAsleep.insert t.deviceId } else s

/-- A worker of `releaseAll` takes the next device. -/
def releaseNext (s : ReadinessManager) : ReadinessManager :=
  match s.releaseQueue with
  | [] => s
  | deviceId :: rest =>
    { s with
      releaseQueue := rest
      holdCounts := OrdMap.erase deviceId s.holdCounts
      holdReasons := OrdMap.erase deviceId s.holdReasons }.releaseAwake deviceId false

/-- What happens to the manager. -/
inductive Event where
  | hold (deviceId : String) (reason : HoldReason)
  /-- A `release` of a hold that was granted. -/
  | release (id : Nat)
  | set (deviceId : String) (desired : Readiness) (inUse : Bool)
  | reconcile (deviceId : String)
  | resume (id : Nat) (ok : Bool)
  | releaseAll
  | releaseNext
  /-- The registry sees a device come or go. -/
  | status (deviceId : String) (status : DeviceStatus)
  /-- Its session opens or closes. -/
  | session (deviceId : String) (opened : Bool)
  /-- adb, or the session manager, comes or goes. -/
  | subsystems (client sessions : Bool)
  /-- The setting `readiness.maxHot` changes. -/
  | configure (maxHot : Nat)
  deriving DecidableEq, Repr

def taskOf (s : ReadinessManager) (id : Nat) : Option Task := s.tasks.find? (·.id = id)

/-- The manager without a task that goes on. -/
def leave (s : ReadinessManager) (t : Task) : ReadinessManager := { s with tasks := s.tasks.erase t }

/-- One event; none if it cannot happen. -/
def step (s : ReadinessManager) : Event → Option ReadinessManager
  | .hold deviceId reason => some (s.hold deviceId reason)
  | .release id =>
    match s.granted.find? (·.id = id) with
    | none => some s
    | some h => some (s.release h)
  | .set deviceId desired inUse => some (s.set deviceId desired inUse)
  | .reconcile deviceId => some (s.reconcile deviceId)
  | .resume id ok => (s.taskOf id).map fun t ↦ (s.leave t).resume t ok
  | .releaseAll => some { s with releaseQueue := s.releaseQueue ++ s.keepAwakeApplied }
  | .releaseNext => some s.releaseNext
  | .status deviceId status =>
    (OrdMap.get? deviceId s.rows).map fun row ↦
      { s with rows := OrdMap.set deviceId { row with status := status } s.rows }
  | .session deviceId opened =>
    some { s with opened := if opened then s.opened.insert deviceId else s.opened.erase deviceId }
  | .subsystems client sessions => some { s with client := client, sessions := sessions }
  | .configure maxHot => some { s with maxHot := maxHot }

end ReadinessManager

end Enkaku.Device
