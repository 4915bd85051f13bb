import Enkaku.Lib.History
import Enkaku.Lib.OrdMap
import Enkaku.Lib.Steps
import Mathlib.Algebra.Order.Ring.Rat
import Mathlib.Data.List.Sort

/-!
# The numbers of the devices

`device-number.ts`, with the parts of `admission.ts` and `lifecycle.ts` that a `devices` row is born
and deleted by.  A number belongs to a `stableId`, in a table of its own; a watermark remembers how far
the numbers have gone.

The table's keys are checked where the statements check them, so `update` and `insert` can fail, at every
row of the renumbering too.  Numbers are the integers among the doubles, and `n + 1` is what the
code computes (`addOne`).
-/

set_option autoImplicit false

namespace Enkaku

/-- `n + 1` for an integer `n` from 0 on.  From 2^53 on the doubles are two apart, and the sum goes to
the even neighbour; from 2^54 on it is `n` again. -/
def addOne (n : Int) : Int :=
  if n < 2 ^ 53 then n + 1
  else if n < 2 ^ 54 then if n / 2 % 2 = 0 then n else n + 2
  else n

namespace DeviceFarm

/-! ## The tables -/

/-- What a call throws. -/
inductive Fault
  | badRequest (n : ℚ)
  | numberTaken (n : Int) (holder : String)
  | uniqueConstraint
  deriving DecidableEq

/-- The code of the error, and its text. -/
def Fault.text (number : ℚ → String) : Fault → String × String
  | badRequest n => ("E_BAD_REQUEST", s!"device number must be a positive integer, got {number n}")
  | numberTaken n holder => ("E_NUMBER_TAKEN", s!"#{number n} is already assigned to {holder}")
  | uniqueConstraint => ("SQLITE_CONSTRAINT_UNIQUE", "UNIQUE constraint failed")

/-- `device_numbers`: the number of each `stableId`. -/
abbrev Numbers := List (String × Int)

namespace Numbers

variable (rows : Numbers) (stableId : String) (n : Int)

/-- `INSERT INTO device_numbers`. -/
def insert : Except Fault Numbers :=
  if OrdMap.get? stableId rows ≠ none ∨ ∃ r ∈ rows, r.2 = n then .error .uniqueConstraint
  else .ok (OrdMap.set stableId n rows)

/-- `UPDATE device_numbers SET number = n WHERE stable_id = …`. -/
def update : Except Fault Numbers :=
  if OrdMap.get? stableId rows = none then .ok rows
  else if ∃ r ∈ rows, r.1 ≠ stableId ∧ r.2 = n then .error .uniqueConstraint
  else .ok (OrdMap.set stableId n rows)

/-- `INSERT … ON CONFLICT (stable_id) DO UPDATE SET number = n`. -/
def upsert : Except Fault Numbers :=
  if OrdMap.get? stableId rows = none then insert rows stableId n else update rows stableId n

end Numbers

/-- A row of `devices`. -/
structure Device where
  id : String
  stableId : String
  deriving DecidableEq, Repr

end DeviceFarm

/-- The tables the numbers depend on. -/
structure DeviceFarm where
  devices : List DeviceFarm.Device
  numbers : DeviceFarm.Numbers
  /-- The `device_number` row of `sequences`. -/
  next : Option Int
  /-- The `stableId`s of `discovered_devices`. -/
  discovered : List String
  /-- The `stableId`s of `blocked_devices`. -/
  blocked : List String
  deriving DecidableEq, Repr

namespace DeviceFarm

variable (f : DeviceFarm) (stableId : String)

/-! ## Allocation -/

structure AllocatedNumber where
  number : Int
  fresh : Bool
  deriving DecidableEq, Repr

def readWatermark : Int := f.next.getD 1

/-- `coalesce(max(number), 0)`. -/
def highestAssigned : Int := (f.numbers.map (·.2)).max?.getD 0

/-- The number a fresh allocation takes. -/
def nextNumber : Int := max f.readWatermark (addOne f.highestAssigned)

def allocateDeviceNumber : Except Fault (DeviceFarm × AllocatedNumber) :=
  match OrdMap.get? stableId f.numbers with
  | some number => .ok (f, ⟨number, false⟩)
  | none => do
    let n := f.nextNumber
    let numbers ← Numbers.insert f.numbers stableId n
    return ({ f with numbers := numbers, next := some (addOne n) }, ⟨n, true⟩)

def lookupDeviceNumber : Option Int := OrdMap.get? stableId f.numbers

def setDeviceNumber (n : ℚ) : Except Fault DeviceFarm :=
  if n.den ≠ 1 ∨ n ≤ 0 then .error (.badRequest n)
  else
    let holder := f.numbers.find? fun r ↦ r.2 = n.num
    match holder.filter (·.1 ≠ stableId) with
    | some holder => .error (.numberTaken n.num holder.1)
    | none => do
      let numbers ← Numbers.upsert f.numbers stableId n.num
      return { f with
        numbers := numbers
        next := if f.readWatermark < addOne n.num then some (addOne n.num) else f.next }

def releaseDeviceNumber : DeviceFarm := { f with numbers := OrdMap.erase stableId f.numbers }

/-! ## Compaction -/

/-- A changed number, `from` and `to`; `from` is 0 for a device that had none. -/
structure Change where
  stableId : String
  fromNumber : Int
  toNumber : Int
  deriving DecidableEq, Repr

structure Compacted where
  changed : List Change
  /-- The reservations of devices that are gone. -/
  released : List (String × Int)
  deriving DecidableEq, Repr

/-- The comparison the devices are sorted by: by number, those without one last. -/
def compareNumbers (an bn : Int) : Int :=
  if an = 0 ∨ bn = 0 then if an = bn then 0 else if an = 0 then 1 else -1
  else an - bn

/-- `current.get(stableId) ?? 0`. -/
def currentNumber (current : Numbers) (stableId : String) : Int :=
  (OrdMap.get? stableId current).getD 0

/-- A changing row that has a number gets a negative one of its own. -/
def parkRow (rows : Numbers) (i : Nat) (c : Change) : Except Fault Numbers :=
  if c.fromNumber ≠ 0 then Numbers.update rows c.stableId (-(i + 1)) else .ok rows

/-- The first pass. -/
def park : Nat → List Change → Numbers → Except Fault Numbers
  | _, [], rows => .ok rows
  | i, c :: changes, rows => do
    let rows ← parkRow rows i c
    park (i + 1) changes rows

/-- A final number is written. -/
def placeRow (rows : Numbers) (c : Change) : Except Fault Numbers :=
  if c.fromNumber = 0 then Numbers.insert rows c.stableId c.toNumber
  else Numbers.update rows c.stableId c.toNumber

/-- The second pass writes the final numbers. -/
def place : List Change → Numbers → Except Fault Numbers
  | [], rows => .ok rows
  | c :: changes, rows => do
    let rows ← placeRow rows c
    place changes rows

/-- The reservations without a device. -/
def orphans : Numbers :=
  f.numbers.filter fun r ↦ r.1 ∉ f.devices.map (·.stableId)

/-- The reservations with one. -/
def current : Numbers :=
  f.numbers.filter fun r ↦ r.1 ∈ f.devices.map (·.stableId)

/-- The devices in the order of their numbers. -/
def sorted : List Device :=
  (f.devices.insertionSort fun a b ↦ a.id ≤ b.id).insertionSort fun a b ↦
    compareNumbers (currentNumber f.current a.stableId) (currentNumber f.current b.stableId) ≤ 0

def targets : List Change :=
  f.sorted.mapIdx fun i row ↦ ⟨row.stableId, currentNumber f.current row.stableId, i + 1⟩

def changes : List Change := f.targets.filter fun t ↦ t.fromNumber ≠ t.toNumber

def compactDeviceNumbers : Except Fault (DeviceFarm × Compacted) := do
  let released := f.orphans.insertionSort fun a b ↦ a.2 ≤ b.2
  let parked ← park 0 f.changes f.current
  let numbers ← place f.changes parked
  return ({ f with numbers := numbers, next := some (f.targets.length + 1) }, ⟨f.changes, released⟩)

/-! ## Devices come and go -/

/-- `INSERT INTO devices`. -/
def insertDevice (d : Device) : Except Fault DeviceFarm :=
  if ∃ d' ∈ f.devices, d'.id = d.id ∨ d'.stableId = d.stableId then .error .uniqueConstraint
  else .ok { f with devices := f.devices ++ [d] }

/-- A sighted phone that is not blocked and has no device yet is admitted. -/
def Admits : Prop :=
  stableId ∉ f.blocked ∧ stableId ∉ f.devices.map (·.stableId) ∧ stableId ∈ f.discovered

instance : Decidable (f.Admits stableId) := by
  unfold Admits
  infer_instance

/-- `admitDevice`; `id` is the random one of the new row. -/
def admitDevice (id : String) : Except Fault (DeviceFarm × Option Device) :=
  if stableId ∈ f.blocked then .ok (f, none)
  else
    match f.devices.find? fun d ↦ d.stableId = stableId with
    | some existing =>
      .ok ({ f with discovered := f.discovered.filter (· ≠ stableId) }, some existing)
    | none =>
      if stableId ∉ f.discovered then .ok (f, none)
      else do
        let f ← f.insertDevice ⟨id, stableId⟩
        let (f, _) ← f.allocateDeviceNumber stableId
        return ({ f with discovered := f.discovered.filter (· ≠ stableId) }, some ⟨id, stableId⟩)

/-- `recordSighting`. -/
def recordSighting : DeviceFarm :=
  if stableId ∈ f.discovered then f else { f with discovered := f.discovered ++ [stableId] }

/-- What `forget` does to the tables; a device that is plugged in is discovered again. -/
def forget (id : String) (connected : Bool) : DeviceFarm :=
  match f.devices.find? fun d ↦ d.id = id with
  | none => f
  | some row =>
    let f := { f with devices := f.devices.filter (·.id ≠ id) }
    if connected then f.recordSighting row.stableId else f

/-- What `block` does to the tables. -/
def block (id : String) : DeviceFarm :=
  match f.devices.find? fun d ↦ d.id = id with
  | none => f
  | some row =>
    { f with
      blocked := if row.stableId ∈ f.blocked then f.blocked else f.blocked ++ [row.stableId]
      devices := f.devices.filter (·.id ≠ id) }

def unblock : DeviceFarm := { f with blocked := f.blocked.filter (· ≠ stableId) }

/-! ## Runs -/

/-- What a call can be. -/
inductive Event
  | allocateDeviceNumber (stableId : String)
  | setDeviceNumber (stableId : String) (n : ℚ)
  | releaseDeviceNumber (stableId : String)
  | compactDeviceNumbers
  | admitDevice (stableId id : String)
  | insertDevice (d : Device)
  | recordSighting (stableId : String)
  | forget (id : String) (connected : Bool)
  | block (id : String)
  | unblock (stableId : String)
  deriving DecidableEq

/-- What a call comes to. -/
inductive Outcome
  | done
  | allocated (number : AllocatedNumber)
  | compacted (report : Compacted)
  | admitted (row : Option Device)
  | fault (e : Fault)
  deriving DecidableEq

/-- A call that throws leaves the tables as they were. -/
def orUnchanged (r : Except Fault (DeviceFarm × Outcome)) : DeviceFarm × Outcome :=
  match r with
  | .ok p => p
  | .error e => (f, .fault e)

/-- One call. -/
def call : Event → DeviceFarm × Outcome
  | .allocateDeviceNumber stableId =>
    f.orUnchanged ((f.allocateDeviceNumber stableId).map fun p ↦ (p.1, .allocated p.2))
  | .setDeviceNumber stableId n =>
    f.orUnchanged ((f.setDeviceNumber stableId n).map fun f ↦ (f, .done))
  | .releaseDeviceNumber stableId => (f.releaseDeviceNumber stableId, .done)
  | .compactDeviceNumbers =>
    f.orUnchanged (f.compactDeviceNumbers.map fun p ↦ (p.1, .compacted p.2))
  | .admitDevice stableId id =>
    f.orUnchanged ((f.admitDevice stableId id).map fun p ↦ (p.1, .admitted p.2))
  | .insertDevice d => f.orUnchanged ((f.insertDevice d).map fun f ↦ (f, .done))
  | .recordSighting stableId => (f.recordSighting stableId, .done)
  | .forget id connected => (f.forget id connected, .done)
  | .block id => (f.block id, .done)
  | .unblock stableId => (f.unblock stableId, .done)

/-- A call that was made: the tables before and after it. -/
structure Entry where
  event : Event
  before : DeviceFarm
  outcome : Outcome
  after : DeviceFarm

/-- The farm and its history. -/
structure World where
  farm : DeviceFarm
  log : List Entry

/-- The entry of a call made now. -/
def World.entry (w : World) (e : Event) : Entry :=
  ⟨e, w.farm, (w.farm.call e).2, (w.farm.call e).1⟩

def step (w : World) (e : Event) : Option World := some ⟨(w.entry e).after, w.log ++ [w.entry e]⟩

/-- The calls since the last compaction. -/
def sinceCompaction (log : List Entry) : List Entry :=
  (log.reverse.takeWhile fun x ↦ x.event ≠ .compactDeviceNumbers).reverse

/-! ## What is kept -/

/-- The calls that may give a device another number. -/
def Event.Renumbers (stableId : String) : Event → Prop
  | .setDeviceNumber s _ => s = stableId
  | .releaseDeviceNumber s => s = stableId
  | .compactDeviceNumbers => True
  | _ => False

/-- The calls that give a device a number by themselves. -/
def Event.Allocates (stableId : String) : Event → Prop
  | .allocateDeviceNumber s => s = stableId
  | .admitDevice s _ => s = stableId
  | _ => False

/-- A number comes before another; devices without one come last. -/
def Earlier : Option Int → Option Int → Prop
  | some m, some n => m < n
  | some _, none => True
  | none, _ => False

/-- The live devices have exactly the numbers from 1 on, in the order of their previous ones; the
report names the reservations that were released, and the numbers that are not what they were. -/
structure Renumbered (before after : DeviceFarm) (report : Compacted) : Prop where
  live : (after.numbers.map (·.1)).Perm (before.devices.map (·.stableId))
  dense : (after.numbers.map (·.2)).Perm ((List.range before.devices.length).map fun i : Nat ↦ (i : Int) + 1)
  order : ∀ a ∈ before.devices, ∀ b ∈ before.devices,
    Earlier (before.lookupDeviceNumber a.stableId) (before.lookupDeviceNumber b.stableId) →
    Earlier (after.lookupDeviceNumber a.stableId) (after.lookupDeviceNumber b.stableId)
  released : ∀ r, r ∈ report.released ↔
    r ∈ before.numbers ∧ r.1 ∉ before.devices.map (·.stableId)
  changed : ∀ c, c ∈ report.changed ↔ c.stableId ∈ before.devices.map (·.stableId) ∧
    c.fromNumber = (before.lookupDeviceNumber c.stableId).getD 0 ∧
    after.lookupDeviceNumber c.stableId = some c.toNumber ∧ c.fromNumber ≠ c.toNumber
  once : report.released.Nodup ∧ (report.changed.map (·.stableId)).Nodup

/-- What every call of a run keeps, given the ones before it. -/
structure Kept (earlier : List Entry) (x : Entry) : Prop where
  /-- A number stays with its device until it is set, released or compacted. -/
  sticky : ∀ stableId n, x.before.lookupDeviceNumber stableId = some n →
    ¬ x.event.Renumbers stableId → x.after.lookupDeviceNumber stableId = some n
  /-- A number given out by itself was nobody's since the last compaction. -/
  fresh : ∀ stableId n, x.event.Allocates stableId →
    x.before.lookupDeviceNumber stableId = none → x.after.lookupDeviceNumber stableId = some n →
    ∀ y ∈ sinceCompaction earlier ++ [x], n ∉ y.before.numbers.map (·.2)
  /-- An allocation answers the number that is then reserved. -/
  answer : ∀ stableId, x.event = .allocateDeviceNumber stableId → ∃ a, x.outcome = .allocated a ∧
    x.after.lookupDeviceNumber stableId = some a.number ∧
    (a.fresh = true ↔ x.before.lookupDeviceNumber stableId = none)
  /-- A compaction is carried out. -/
  compaction : x.event = .compactDeviceNumbers →
    ∃ report, x.outcome = .compacted report ∧ Renumbered x.before x.after report

/-- What holds of the tables throughout. -/
structure Sound (f : DeviceFarm) : Prop where
  deviceIds : (f.devices.map (·.id)).Nodup
  stableIds : (f.devices.map (·.stableId)).Nodup
  keys : (f.numbers.map (·.1)).Nodup
  numbers : (f.numbers.map (·.2)).Nodup
  positive : ∀ r ∈ f.numbers, 0 < r.2
  below : ∀ r ∈ f.numbers, r.2 < f.readWatermark

/-- The number a call takes into use. -/
def takes : Event → Option Int
  | .allocateDeviceNumber stableId =>
    if f.lookupDeviceNumber stableId = none then some f.nextNumber else none
  | .admitDevice stableId _ =>
    if f.Admits stableId ∧ f.lookupDeviceNumber stableId = none then some f.nextNumber else none
  | .setDeviceNumber _ n => if n.den = 1 ∧ 0 < n then some n.num else none
  | _ => none

/-- Adding one to the number a call takes into use gives a greater one. -/
def LeavesRoom (w : World) (e : Event) : Prop := ∀ n ∈ w.farm.takes e, n < addOne n

instance (w : World) (e : Event) : Decidable (LeavesRoom w e) := by
  unfold LeavesRoom
  infer_instance

end DeviceFarm

end Enkaku
