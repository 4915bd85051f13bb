import Enkaku.Lib.OrdMap
import Enkaku.Lib.Steps

/-!
# The global cap on adb commands

`Semaphore` hands a slot over in two steps: `release` and `resize` resolve the promise a waiter sleeps
on, and the waiter counts itself in when its continuation runs, in a later microtask.  The
continuations run in the order in which their promises were resolved, and other calls may come
between.

`Kept` is what every step keeps: a releaser counts down once, waiters are counted in as they went to
sleep, and no waiter sleeps beside a free slot that nobody has been woken for.  The cap itself holds
as long as every slot promised to a woken waiter is free when the promise is made and is not taken
by another (`safe_iff`).
-/

set_option autoImplicit false

namespace Enkaku.Adb

/-- What the semaphore did, for the statements about whole runs. -/
inductive Semaphore.Entry
  /-- The acquire found no free slot and went to sleep. -/
  | slept (id : Nat)
  /-- The acquire was counted in, after a sleep or at once, at this count under this cap. -/
  | granted (id : Nat) (waited : Bool) (inFlight max : Nat)
  /-- The releaser of the acquire counted it out. -/
  | released (id : Nat)
  deriving DecidableEq, Repr

/-- The semaphore.  An acquire is named by its caller. -/
structure Semaphore where
  max : Nat
  inFlight : Nat
  /-- The acquires that sleep, oldest first. -/
  waiters : List Nat
  /-- Those whose promise is resolved and whose continuation has not run. -/
  woken : List Nat
  /-- The releasers handed out, with their `released`. -/
  releasers : List (Nat × Bool)
  log : List Semaphore.Entry
  deriving DecidableEq, Repr

namespace Semaphore

/-- The constructor, which refuses a cap below one. -/
def new (max : Nat) : Option Semaphore :=
  if max < 1 then none else some ⟨max, 0, [], [], [], []⟩

/-- Counts an acquire in and makes its releaser. -/
def grant (s : Semaphore) (id : Nat) (waited : Bool) : Semaphore :=
  { s with
    inFlight := s.inFlight + 1
    releasers := OrdMap.set id false s.releasers
    log := s.log ++ [.granted id waited s.inFlight s.max] }

/-- `acquire` up to its first `await`. -/
def acquire (s : Semaphore) (id : Nat) : Semaphore :=
  if s.inFlight < s.max then s.grant id false
  else { s with waiters := s.waiters ++ [id], log := s.log ++ [.slept id] }

/-- Wakes the first waiter. -/
def wakeNext (s : Semaphore) : Semaphore :=
  match s.waiters with
  | [] => s
  | w :: ws => { s with waiters := ws, woken := s.woken ++ [w] }

/-- The releaser of an acquire. -/
def release (s : Semaphore) (id : Nat) : Semaphore :=
  if OrdMap.get? id s.releasers = some false then
    wakeNext { s with
      releasers := OrdMap.set id true s.releasers
      inFlight := s.inFlight - 1
      log := s.log ++ [.released id] }
  else s

/-- The loop of `resize`: the waiters left, and those that are woken.  `projected` counts the woken
ones it wakes itself, not those woken before. -/
def wakeWhile (max : Nat) : (projected : Nat) → (waiters woken : List Nat) → List Nat × List Nat
  | _, [], woken => ([], woken)
  | projected, w :: ws, woken =>
    if projected < max then wakeWhile max (projected + 1) ws (woken ++ [w]) else (w :: ws, woken)

/-- `resize`, which throws for a cap below one. -/
def resize (s : Semaphore) (max : Nat) : Semaphore :=
  if max < 1 then s
  else
    { s with
      max := max
      waiters := (wakeWhile max s.inFlight s.waiters s.woken).1
      woken := (wakeWhile max s.inFlight s.waiters s.woken).2 }

/-- What can happen to a semaphore. -/
inductive Event
  | acquire (id : Nat)
  /-- The oldest pending continuation of a woken waiter runs. -/
  | continuation
  /-- The holder calls its releaser, for the first time or again. -/
  | release (id : Nat)
  | resize (max : Nat)
  deriving DecidableEq, Repr

/-- The name is that of an earlier acquire. -/
def Used (s : Semaphore) (id : Nat) : Prop :=
  OrdMap.get? id s.releasers ≠ none ∨ id ∈ s.waiters ∨ id ∈ s.woken

instance (s : Semaphore) (id : Nat) : Decidable (s.Used id) := inferInstanceAs (Decidable (_ ∨ _))

/-- The rest of `acquire`, for the waiter woken first. -/
def continuation (s : Semaphore) : Option Semaphore :=
  match s.woken with
  | [] => none
  | w :: ws => some (grant { s with woken := ws } w true)

/-- One event.  Only a holder has a releaser to call. -/
def step (s : Semaphore) : Event → Option Semaphore
  | .acquire id => if s.Used id then none else some (s.acquire id)
  | .continuation => s.continuation
  | .release id => if OrdMap.get? id s.releasers = none then none else some (s.release id)
  | .resize max => some (s.resize max)

/-! ## What a semaphore log says -/

/-- The acquire that went to sleep. -/
def Entry.slept? : Entry → Option Nat
  | .slept id => some id
  | _ => none

/-- The acquire that was counted in after it slept. -/
def Entry.waited? : Entry → Option Nat
  | .granted id true _ _ => some id
  | _ => none

def Entry.isGrant : Entry → Bool
  | .granted .. => true
  | _ => false

def Entry.isRelease : Entry → Bool
  | .released _ => true
  | _ => false

/-- Each acquire was counted in while the count was below the cap. -/
def Capped (s : Semaphore) : Prop :=
  ∀ id waited inFlight max, .granted id waited inFlight max ∈ s.log → inFlight < max

/-- **What the semaphore promises of a run**, of its calls and the state it ends in. -/
structure Safe (es : List Event) (s : Semaphore) : Prop where
  capped : s.Capped
  /-- A releaser that was called has counted down once, however often it was called. -/
  once : ∀ id, s.log.count (.released id) = if .release id ∈ es then 1 else 0
  counted : s.inFlight + s.log.countP Entry.isRelease = s.log.countP Entry.isGrant
  /-- The sleepers are counted in in the order they went to sleep. -/
  fifo : s.log.filterMap Entry.waited? <+: s.log.filterMap Entry.slept?
  /-- With no continuation pending, nobody sleeps beside a free slot. -/
  awake : s.woken = [] → s.waiters ≠ [] → s.max ≤ s.inFlight

end Semaphore

end Enkaku.Adb
