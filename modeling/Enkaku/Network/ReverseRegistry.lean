import Mathlib.Data.List.Basic

/-!
# The reverse registry

`network/reverse-registry.ts`, for one device: the entry the registry holds, the calls that wait for
an adb command, and the reverses bound on the phone.

A call runs up to its adb command in one step; the phone carries the command out at any later time, or
never; and the call goes on when it hears that the command succeeded or failed.  A command that fails
has not been carried out.  The entry a call has put into the map is an object that the call goes on
writing to, also when another entry has taken its place, so the registry is modelled with the objects
it has made.

The log is left out, and so is `verify`, which changes nothing.
-/

set_option autoImplicit false

namespace Enkaku

/-- `MAX_PORT_ATTEMPTS`. -/
def maxPortAttempts : Nat := 8

structure DevicePortRange where
  rangeStart : Nat
  rangeEnd : Nat
  deriving DecidableEq, Repr

structure ReverseEntry where
  deviceId : String
  serial : String
  devicePort : Nat
  hostPort : Nat
  establishedAt : Option Nat
  deriving DecidableEq, Repr

/-! ## Commands -/

/-- The two adb commands of the registry. -/
inductive ReverseCommand where
  /-- `addReverse`. -/
  | add (serial : String) (devicePort hostPort : Nat)
  /-- `removeReverse`. -/
  | remove (serial : String) (devicePort : Nat)
  deriving DecidableEq, Repr

/-- The arguments `hostAdb` is called with. -/
def ReverseCommand.args : ReverseCommand → List String
  | add serial devicePort hostPort =>
    ["-s", serial, "reverse", s!"tcp:{devicePort}", s!"tcp:{hostPort}"]
  | remove serial devicePort => ["-s", serial, "reverse", "--remove", s!"tcp:{devicePort}"]

/-- What the registry has bound on the phone. -/
structure Phone where
  /-- The host port that a device port leads to. -/
  bound : Nat → Option Nat
  /-- The reverses that have been carried out since the last disconnect. -/
  since : List (Nat × Nat)

def ReverseCommand.carryOut (c : ReverseCommand) (phone : Phone) : Phone :=
  match c with
  | add _ devicePort hostPort =>
    ⟨Function.update phone.bound devicePort (some hostPort), (devicePort, hostPort) :: phone.since⟩
  | remove _ devicePort => { phone with bound := Function.update phone.bound devicePort none }

/-! ## Calls -/

/-- A call that waits for its adb command. -/
inductive ReverseCall where
  /-- `establish` on a device port that is chosen already; `entry` is the object it has made. -/
  | establish (entry : Nat) (serial : String) (pinned hostPort : Nat)
  /-- `establish` on a first allocation; `port` is the last of the ports `tried`. -/
  | allocate (serial : String) (hostPort port : Nat) (tried : List Nat)
  | release (serial : String) (devicePort : Nat)
  /-- `handleDeviceOnline`, for the entry it has found. -/
  | online (entry : Nat) (serial : String) (devicePort hostPort : Nat)
  deriving DecidableEq, Repr

namespace ReverseCall

def command : ReverseCall → ReverseCommand
  | establish _ serial pinned hostPort => .add serial pinned hostPort
  | allocate serial hostPort port _ => .add serial port hostPort
  | release serial devicePort => .remove serial devicePort
  | online _ serial devicePort hostPort => .add serial devicePort hostPort

/-- The object the call goes on writing to. -/
def entry? : ReverseCall → Option Nat
  | establish entry _ _ _ | online entry _ _ _ => some entry
  | allocate _ _ _ _ | release _ _ => none

def isAllocate : ReverseCall → Bool
  | allocate _ _ _ _ => true
  | _ => false

/-- The reverse the call has asked for. -/
def adds? (c : ReverseCall) : Option (Nat × Nat) :=
  match c.command with
  | .add _ devicePort hostPort => some (devicePort, hostPort)
  | .remove _ _ => none

/-- The device port the call takes the reverse from. -/
def removes? (c : ReverseCall) : Option Nat :=
  match c.command with
  | .add _ _ _ => none
  | .remove _ devicePort => some devicePort

/-- The device port the call is about. -/
def port (c : ReverseCall) : Nat :=
  match c.command with
  | .add _ devicePort _ | .remove _ devicePort => devicePort

end ReverseCall

structure PendingCall where
  call : ReverseCall
  /-- The phone has carried the command out. -/
  carriedOut : Bool
  deriving DecidableEq, Repr

/-- What a caller is answered. -/
inductive ReverseAnswer where
  | established (entry : ReverseEntry)
  | done
  | failed (code message : String)
  deriving DecidableEq, Repr

/-- A call that comes in, or what happens to the command of the `i`-th pending one. -/
inductive ReverseEvent where
  /-- `serial` is what `serialOf` answers. -/
  | establish (serial : Option String) (hostPort : Nat) (devicePort : Option Nat)
  | release (serial : Option String)
  /-- `enabled` is what `routeEnabled` answers. -/
  | online (enabled : Bool) (serial : Option String)
  /-- The phone disconnects. -/
  | offline
  | carryOut (i : Nat)
  | succeed (i : Nat) (now : Nat)
  | fail (i : Nat) (err : String)
  deriving DecidableEq, Repr

/-! ## The registry -/

structure ReverseRegistry where
  /-- `entries.get(deviceId)`, by its place among the objects. -/
  entry : Option Nat
  objects : List ReverseEntry
  pending : List PendingCall
  phone : Phone
  answers : List ReverseAnswer

namespace ReverseRegistry

/-- The registry of a core that has just started, and a phone that has just come. -/
def empty : ReverseRegistry := ⟨none, [], [], ⟨fun _ ↦ none, []⟩, []⟩

/-- `get`. -/
def get (s : ReverseRegistry) : Option ReverseEntry := s.entry.bind (s.objects[·]?)

def answer (s : ReverseRegistry) (a : ReverseAnswer) : ReverseRegistry :=
  { s with answers := s.answers ++ [a] }

def await (s : ReverseRegistry) (c : ReverseCall) : ReverseRegistry :=
  { s with pending := s.pending ++ [⟨c, false⟩] }

/-- `entries.set`, with a new object. -/
def setEntry (s : ReverseRegistry) (e : ReverseEntry) : ReverseRegistry :=
  { s with entry := some s.objects.length, objects := s.objects ++ [e] }

/-- An object is written to. -/
def write (s : ReverseRegistry) (r : Nat) (f : ReverseEntry → ReverseEntry) : ReverseRegistry :=
  { s with objects := s.objects.modify r f }

section

variable (deviceId : String) (range : DevicePortRange)

/-- The error of `mustSerial`. -/
def noDevice : ReverseAnswer := .failed "device_not_found" s!"no such device: {deviceId}"

/-- `mustSerial`: an empty serial counts as none. -/
def mustSerial (serial : Option String) : Option String := serial.filter (· ≠ "")

/-- `pinned`: the device port already chosen. -/
def pinned (s : ReverseRegistry) (devicePort : Option Nat) : Option Nat :=
  devicePort.or (s.get.map (·.devicePort))

/-- The head of the loop of a first allocation. -/
def walk (s : ReverseRegistry) (serial : String) (hostPort port : Nat) (tried : List Nat)
    (lastErr : String) : ReverseRegistry :=
  if port ≤ range.rangeEnd && tried.length < maxPortAttempts then
    s.await (.allocate serial hostPort port (tried ++ [port]))
  else
    let list := ", ".intercalate (tried.map toString)
    let rangeStart := range.rangeStart
    let rangeEnd := range.rangeEnd
    s.answer (.failed "E_REVERSE_FAILED"
      s!"no usable device port for {deviceId} in {rangeStart}-{rangeEnd} (tried {list}): {lastErr}")

/-- `establish`, up to its adb command. -/
def establish (s : ReverseRegistry) (serial : Option String) (hostPort : Nat)
    (devicePort : Option Nat) : ReverseRegistry :=
  match mustSerial serial with
  | none => s.answer (noDevice deviceId)
  | some serial =>
    match s.pinned devicePort with
    | some pinned =>
      (s.setEntry ⟨deviceId, serial, pinned, hostPort, none⟩).await
        (.establish s.objects.length serial pinned hostPort)
    | none => s.walk deviceId range serial hostPort range.rangeStart [] "null"

/-- `releaseEntry`, up to its adb command. -/
def releaseEntry (s : ReverseRegistry) (serial : Option String) : ReverseRegistry :=
  match s.get with
  | none => { s with entry := none }.answer .done
  | some e => { s with entry := none }.await (.release (serial.getD e.serial) e.devicePort)

/-- `handleDeviceOnline`, up to its adb command. -/
def handleDeviceOnline (s : ReverseRegistry) (enabled : Bool) (serial : Option String) :
    ReverseRegistry :=
  match s.entry, s.get with
  | some r, some e =>
    if enabled then
      match mustSerial serial with
      | none => s.answer (noDevice deviceId)
      | some serial =>
        (s.write r fun e ↦ { e with serial := serial, establishedAt := none }).await
          (.online r serial e.devicePort e.hostPort)
    else s.releaseEntry serial
  | _, _ => s.answer .done

/-- `handleDeviceOffline`, when the phone disconnects. -/
def handleDeviceOffline (s : ReverseRegistry) : ReverseRegistry :=
  let s := { s with phone := ⟨fun _ ↦ none, []⟩ }
  match s.entry with
  | none => s
  | some r => s.write r fun e ↦ { e with establishedAt := none }

/-- A call hears that its command succeeded. -/
def succeeded (s : ReverseRegistry) (c : ReverseCall) (now : Nat) : ReverseRegistry :=
  match c with
  | .establish r _ _ _ =>
    let s := s.write r fun e ↦ { e with establishedAt := some now }
    match s.objects[r]? with
    | some e => s.answer (.established e)
    | none => s
  | .allocate serial hostPort port _ =>
    let e : ReverseEntry := ⟨deviceId, serial, port, hostPort, some now⟩
    (s.setEntry e).answer (.established e)
  | .release _ _ => s.answer .done
  | .online r _ _ _ => (s.write r fun e ↦ { e with establishedAt := some now }).answer .done

/-- A call hears that its command failed. -/
def failed (s : ReverseRegistry) (c : ReverseCall) (err : String) : ReverseRegistry :=
  match c with
  | .establish _ serial pinned hostPort => s.answer (.failed "E_REVERSE_FAILED"
      s!"adb reverse tcp:{pinned} tcp:{hostPort} failed on {serial}: {err}")
  | .allocate serial hostPort port tried =>
    s.walk deviceId range serial hostPort (port + 1) tried err
  | .release _ _ => s.answer .done
  | .online _ serial devicePort hostPort => s.answer (.failed "E_REVERSE_FAILED"
      s!"re-establishing reverse tcp:{devicePort} → tcp:{hostPort} on {serial} failed: {err}")

/-- One step. -/
def step (s : ReverseRegistry) : ReverseEvent → Option ReverseRegistry
  | .establish serial hostPort devicePort =>
    some (s.establish deviceId range serial hostPort devicePort)
  | .release serial => some (s.releaseEntry serial)
  | .online enabled serial => some (s.handleDeviceOnline deviceId enabled serial)
  | .offline => some s.handleDeviceOffline
  | .carryOut i =>
    match s.pending[i]? with
    | some ⟨c, false⟩ => some
        { s with phone := c.command.carryOut s.phone, pending := s.pending.set i ⟨c, true⟩ }
    | _ => none
  | .succeed i now =>
    match s.pending[i]? with
    | some ⟨c, true⟩ => some ({ s with pending := s.pending.eraseIdx i }.succeeded deviceId c now)
    | _ => none
  | .fail i err =>
    match s.pending[i]? with
    | some ⟨c, false⟩ => some ({ s with pending := s.pending.eraseIdx i }.failed deviceId range c err)
    | _ => none

end

end ReverseRegistry

end Enkaku
