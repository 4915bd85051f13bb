import Mathlib.Data.List.Basic

/-!
# Failure classification

What kind of failure an error is: `infra` is the farm's problem and may be retried on another
device, `load` is a saturated queue, and everything unknown is the script's own result.
-/

set_option autoImplicit false

namespace Enkaku

/-- The three ways a failed run is classified. -/
inductive FailureClass where
  | infra | script | load
  deriving DecidableEq, Repr

namespace FailureClass

/-- The text stored in `job_runs.failure_class`. -/
def toString : FailureClass → String
  | infra => "infra"
  | script => "script"
  | load => "load"

end FailureClass

structure ClassifiedFailure where
  failureClass : FailureClass
  code : String
  message : String
  /-- Whether this device should be blamed. -/
  blameDevice : Bool
  deriving DecidableEq, Repr

/-- Codes that mean the device is not answering or the farm lost it mid-run. -/
def infraCodes : List String :=
  ["E_ADB_TIMEOUT", "E_ADB_CONNECT_TIMEOUT", "E_ADB_HANDSHAKE_TIMEOUT", "E_ADB_UNAVAILABLE",
    "E_DEVICE_NOT_READY", "node_offline", "device_not_found", "device_not_ready",
    "engine_not_found", "port_range_exhausted", "CHILD_CRASHED", "DEVICE_DISCONNECTED",
    "HEARTBEAT_EXPIRED", "SESSION_ACQUIRE_FAILED", "STARTUP_TIMEOUT"]

/-- Infra codes that describe something the whole farm shares. -/
def notTheDevicesFault : List String :=
  ["E_ADB_CONNECT_TIMEOUT", "E_ADB_UNAVAILABLE", "node_offline", "port_range_exhausted",
    "engine_not_found"]

def loadCodes : List String := ["E_ADB_BUSY"]

/-- The job's own per-attempt timeout. -/
def timeoutCode : String := "TIMEOUT"

/-- Codes that name a result of the script; they classify as unknown ones do. -/
def scriptCodes : List String := ["APP_CRASHED", "MEMORY_LIMIT"]

/-! ## adb's words for a device that is gone -/

/-- Drop a literal from the front, ignoring ASCII case; the literal is given in lower case. -/
def stripLit : List Char → List Char → Option (List Char)
  | [], rest => some rest
  | p :: ps, c :: cs => if c.toLower = p then stripLit ps cs else none
  | _ :: _, [] => none

/-- `device '[^']*' not found|device not found|device offline`, tried at the front of a text. -/
def deviceGoneAt (text : List Char) : Bool :=
  (match stripLit "device '".toList text with
    | some rest => (stripLit "' not found".toList (rest.dropWhile (· ≠ '\''))).isSome
    | none => false) ||
  (stripLit "device not found".toList text).isSome ||
  (stripLit "device offline".toList text).isSome

/-- `isDeviceGone`: the pattern matches somewhere in the message. -/
def isDeviceGone (message : String) : Bool := message.toList.tails.any deviceGoneAt

/-! ## The classifier -/

/-- `classifyFailure`.  An error without a string code has the code `UNKNOWN`, and one without a
string message the text an object has. -/
def classifyFailure (timeoutIsInfra : Bool) (code message : Option String) : ClassifiedFailure :=
  let code := code.getD "UNKNOWN"
  let message := message.getD "[object Object]"
  if code = timeoutCode then
    if timeoutIsInfra then ⟨.infra, code, message, true⟩ else ⟨.script, code, message, false⟩
  else if code ∈ loadCodes then ⟨.load, code, message, false⟩
  else if code ∈ infraCodes then ⟨.infra, code, message, !decide (code ∈ notTheDevicesFault)⟩
  else if isDeviceGone message then ⟨.infra, code, message, true⟩
  else if code ∈ scriptCodes then ⟨.script, code, message, false⟩
  else ⟨.script, code, message, false⟩

example : isDeviceGone "error: Device 'R58M' not found" = true := by decide

end Enkaku
