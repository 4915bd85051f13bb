import Mathlib.Data.List.Basic

/-!
# The cutover window of a device

`createCutoverManager` takes a phone from USB to the network: `start` opens a window, enables TCP mode
on the phone and arms; then a poll looks for the phone every so often until it answers or the window
expires.  The windows are kept by device only, and a step or a poll that was awaiting goes on with
whatever window is there then.
-/

set_option autoImplicit false

namespace Enkaku.Registry

/-- The white space of a JavaScript regular expression. -/
def isRegexSpace (c : Char) : Bool :=
  c.toNat ∈ [9, 10, 11, 12, 13, 32, 0xA0, 0x1680, 0x2028, 0x2029, 0x202F, 0x205F, 0x3000, 0xFEFF] ∨
    (0x2000 ≤ c.toNat ∧ c.toNat ≤ 0x200A)

/-- The part of `TCP_ADDRESS_RE` before the last colon. -/
def isHostPart (host : List Char) : Bool :=
  (host.head? = some '[' ∧ host.getLast? = some ']' ∧ 3 ≤ host.length ∧
    (host.drop 1).dropLast.all fun c ↦ c.isDigit ∨ c ∈ "abcdefABCDEF:".toList) ∨
  (host ≠ [] ∧ host.all fun c ↦ ¬ isRegexSpace c ∧ c ≠ ':')

/-- `isTcpAddress`. -/
def isTcpAddress (serial : String) : Bool :=
  let port := serial.toList.reverse.takeWhile Char.isDigit
  let host := (serial.toList.reverse.dropWhile Char.isDigit).reverse
  1 ≤ port.length ∧ port.length ≤ 5 ∧ host.getLast? = some ':' ∧ isHostPart host.dropLast

inductive ConnectionMedium where
  | wired
  | wireless
  deriving DecidableEq, Repr

inductive CutoverStep where
  | enablingTcp
  | armed
  | connecting
  | done
  | failed
  deriving DecidableEq, Repr

/-- A `CutoverState`, the names of the device apart. -/
structure CutoverState where
  step : CutoverStep
  detail : String
  port : Nat
  medium : ConnectionMedium
  persistSurvivesReboot : Option Bool
  triedAddresses : Nat
  answered : Nat
  startedAt : Nat
  expiresAt : Option Nat
  connectedAddress : Option String
  deriving DecidableEq, Repr

/-- What the poll reads of a `SweepReport`. -/
structure SweepReport where
  networks : List String
  answered : Nat
  deriving DecidableEq, Repr

/-- A `ReconnectOutcome`, with the number of addresses that were tried. -/
inductive ReconnectOutcome where
  | alreadyConnected (serial : String)
  | connected (address : String)
  | notFound (tried : Nat) (sweep : Option SweepReport)
  | refused
  deriving DecidableEq, Repr

/-- The address of `foundAddress`. -/
def ReconnectOutcome.found : ReconnectOutcome → Option String
  | alreadyConnected serial => if isTcpAddress serial then some serial else none
  | connected address => if isTcpAddress address then some address else none
  | notFound .. | refused => none

/-- What a call awaits. -/
inductive CutoverPhase where
  /-- `enableTcp`. -/
  | enabling
  /-- The read back of `service.adb.tcp.port`. -/
  | reading
  /-- The attempt at `persist.adb.tcp.port`. -/
  | persisting
  /-- `reconnect` of a poll. -/
  | polling
  deriving DecidableEq, Repr

/-- A step of `start`, or a poll, that awaits.  The window it belongs to is there for the statements
only; a step of `start` has its port. -/
structure CutoverTask where
  id : Nat
  window : Nat
  port : Nat
  phase : CutoverPhase
  deriving DecidableEq, Repr

/-- A poll timer that was set and not cleared, with the window whose step or poll set it. -/
structure PollTimer where
  id : Nat
  window : Nat
  deriving DecidableEq, Repr

/-- A `Session`, with the number of its window. -/
structure CutoverSession where
  window : Nat
  state : CutoverState
  timer : Option Nat
  deriving DecidableEq, Repr

/-- The manager, as far as one device goes, with what is on the way.  `acts` has an entry for every
change and broadcast of a state and every address that was declared: the window whose step or poll did
it, and the window it was done to. -/
structure CutoverManager where
  tcpPort : Nat
  armWindowSec : Nat
  session : Option CutoverSession
  tasks : List CutoverTask
  timers : List PollTimer
  nextId : Nat
  /-- The number of windows so far. -/
  windows : Nat
  /-- What was declared of the device, the last one last. -/
  declared : List (String × ConnectionMedium)
  acts : List (Nat × Nat)
  deriving DecidableEq, Repr

namespace CutoverManager

/-- `createCutoverManager`. -/
def new (tcpPort armWindowSec : Nat) : CutoverManager :=
  ⟨tcpPort, armWindowSec, none, [], [], 0, 0, [], []⟩

/-- `setState`, by a step or a poll of this window. -/
def setState (s : CutoverManager) (window : Nat) (patch : CutoverState → CutoverState) :
    CutoverManager :=
  match s.session with
  | none => s
  | some entry =>
    { s with
      session := some { entry with state := patch entry.state }
      acts := s.acts ++ [(window, entry.window)] }

/-- `clearTimer`. -/
def clearTimer (s : CutoverManager) : CutoverManager :=
  match s.session with
  | none => s
  | some entry =>
    match entry.timer with
    | none => s
    | some id =>
      { s with
        session := some { entry with timer := none }
        timers := s.timers.filter (·.id ≠ id) }

/-- `schedulePoll`, by a step or a poll of this window. -/
def schedulePoll (s : CutoverManager) (window : Nat) : CutoverManager :=
  match s.session with
  | none => s
  | some entry =>
    { s with
      session := some { entry with timer := some s.nextId }
      timers := s.timers ++ [⟨s.nextId, window⟩]
      nextId := s.nextId + 1 }

/-- A step or a poll awaits. -/
def await (s : CutoverManager) (window port : Nat) (phase : CutoverPhase) : CutoverManager :=
  { s with tasks := s.tasks ++ [⟨s.nextId, window, port, phase⟩], nextId := s.nextId + 1 }

/-- `start`, up to `enableTcp`. -/
def start (s : CutoverManager) (port : Option Nat) (medium : ConnectionMedium)
    (address : Option String) (now : Nat) : CutoverManager :=
  let s := s.clearTimer
  let port := port.getD s.tcpPort
  let window := s.windows
  let initial : CutoverState :=
    ⟨.enablingTcp, s!"enabling TCP mode on port {port}…", port, medium, none, 0, 0, now, none, none⟩
  let s := { s with
    session := some ⟨window, initial, none⟩
    windows := window + 1
    declared := s.declared ++ (address.map (·, medium)).toList
    acts := s.acts ++ [(window, window)] }
  s.await window port .enabling

/-- A step of `start` fails its window. -/
def fail (s : CutoverManager) (window : Nat) (detail : String) : CutoverManager :=
  s.setState window fun state ↦ { state with step := .failed, detail := detail }

/-- `start`, once `enableTcp` has answered. -/
def enabled (s : CutoverManager) (t : CutoverTask) : Option String → CutoverManager
  | some error => s.fail t.window s!"could not enable TCP mode on port {t.port}: {error}"
  | none => s.await t.window t.port .reading

/-- `start`, once the port has been read back, or has not. -/
def readBack (s : CutoverManager) (t : CutoverTask) : Except String String → CutoverManager
  | .error err =>
    s.fail t.window s!"enabled TCP mode but could not read back service.adb.tcp.port: {err}"
  | .ok serviceReadback =>
    if serviceReadback ≠ toString t.port then
      let shown := if serviceReadback.isEmpty then "(empty)" else serviceReadback
      s.fail t.window (s!"refusing to arm — service.adb.tcp.port reads \"{shown}\", not {t.port}. " ++
        "The phone may not actually be listening yet.")
    else s.await t.window t.port .persisting

/-- `start`, once it is known whether the port survives a reboot: it arms. -/
def persisted (s : CutoverManager) (t : CutoverTask) (survives : Bool) (now : Nat) : CutoverManager :=
  (s.setState t.window fun state ↦
    { state with
      step := .armed
      persistSurvivesReboot := some survives
      detail := "Flip the port on the chassis from USB to OTG now. " ++
        "Enkaku is watching for the phone on the network." ++
        (if survives then "" else " This phone will need re-arming after a reboot.")
      expiresAt := some (now + s.armWindowSec * 1000) }).schedulePoll t.window

/-- `poll`, up to `reconnect`: the timer of this window has fired. -/
def poll (s : CutoverManager) (window now : Nat) : CutoverManager :=
  match s.session with
  | none => s
  | some entry =>
    if entry.state.expiresAt.any (· ≤ now) then
      (s.setState window fun state ↦
        { state with
          step := .failed
          detail := "no phone answered within the watch window (tried " ++
            s!"{entry.state.triedAddresses} address(es), {entry.state.answered} answered). Likely " ++
            "causes, in order: the port did not flip, the chassis port has not been assigned an " ++
            "address yet, or the configured network is wrong."
          expiresAt := none }).clearTimer
    else
      (s.setState window fun state ↦
        { state with
          step := .connecting, detail := "checking for the phone on the network…" }).await window 0 .polling

/-- The label of a medium. -/
def ConnectionMedium.label : ConnectionMedium → String
  | .wired => "OTG"
  | .wireless => "Wi-Fi"

/-- What a poll that found nothing says. -/
def waitingDetail (triedAddresses : Nat) : Option SweepReport → String
  | some report =>
    let networks := ", ".intercalate report.networks
    let shown := if networks.isEmpty then "the configured networks" else networks
    s!"swept {shown} · {report.answered} answered · none matched yet"
  | none => s!"waiting for the phone on the network — {triedAddresses} address(es) tried so far"

/-- `poll`, once `reconnect` has answered; one that throws counts as having found nothing. -/
def polled (s : CutoverManager) (t : CutoverTask) (outcome : ReconnectOutcome) : CutoverManager :=
  match s.session with
  | none => s
  | some current =>
    match outcome.found with
    | some address =>
      ({ s with
          declared := s.declared ++ [(address, current.state.medium)]
          acts := s.acts ++ [(t.window, current.window)] }.setState t.window fun state ↦
        { state with
          step := .done
          connectedAddress := some address
          detail := s!"Connected at {address} over {ConnectionMedium.label current.state.medium}."
          expiresAt := none }).clearTimer
    | none =>
      let sweep := match outcome with | .notFound _ sweep => sweep | _ => none
      let tried := match outcome with | .notFound tried _ => tried | _ => 0
      let triedAddresses := current.state.triedAddresses + tried
      (s.setState t.window fun state ↦
        { state with
          step := .armed
          triedAddresses := triedAddresses
          answered := current.state.answered + (sweep.map (·.answered)).getD 0
          detail := waitingDetail triedAddresses sweep }).schedulePoll t.window

/-- `cancel`, and `stopAll` as far as the device goes. -/
def cancel (s : CutoverManager) : CutoverManager := { s.clearTimer with session := none }

/-- What happens to the manager. -/
inductive Event where
  | start (port : Option Nat) (medium : ConnectionMedium) (address : Option String) (now : Nat)
  | enabled (id : Nat) (error : Option String)
  | readBack (id : Nat) (value : Except String String)
  | persisted (id : Nat) (survives : Bool) (now : Nat)
  /-- A poll timer fires. -/
  | fire (id now : Nat)
  | polled (id : Nat) (outcome : ReconnectOutcome)
  /-- `cancel`, or `stopAll`. -/
  | cancel

def taskOf (s : CutoverManager) (id : Nat) (phase : CutoverPhase) : Option CutoverTask :=
  s.tasks.find? fun t ↦ t.id = id ∧ t.phase = phase

/-- The manager without a task that goes on. -/
def leave (s : CutoverManager) (t : CutoverTask) : CutoverManager :=
  { s with tasks := s.tasks.erase t }

/-- One event; none if it cannot happen. -/
def step (s : CutoverManager) : Event → Option CutoverManager
  | .start port medium address now => some (s.start port medium address now)
  | .enabled id error => (s.taskOf id .enabling).map fun t ↦ (s.leave t).enabled t error
  | .readBack id value => (s.taskOf id .reading).map fun t ↦ (s.leave t).readBack t value
  | .persisted id survives now =>
    (s.taskOf id .persisting).map fun t ↦ (s.leave t).persisted t survives now
  | .fire id now =>
    (s.timers.find? (·.id = id)).map fun t ↦
      { s with timers := s.timers.erase t }.poll t.window now
  | .polled id outcome => (s.taskOf id .polling).map fun t ↦ (s.leave t).polled t outcome
  | .cancel => some s.cancel

end CutoverManager

end Enkaku.Registry
