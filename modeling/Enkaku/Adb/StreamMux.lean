import Enkaku.Lib.OrdMap
import Enkaku.Lib.Steps
import Mathlib

/-!
# The adb stream mux

`createStreamMux` of `adb/src/transport/stream-mux.ts`: the streams of one host connection, each
bridged to a backend that `openService` returns.  The mux is a state and a step function; a step is
a frame of the host, the settling of an `openService` promise, a callback of a backend, the settling
of a deferred write, or `closeAll`.

Streams are objects that closures hold on to, so there is a heap of them beside the table `streams`,
which is keyed by the host's id alone.  A stream is named by its own id, and the promise that was
asked for with it, and the backend this returns, by the same number.  What the mux does is logged in
`trace`: the frames sent, each with the place in the code that sends it, and the events they answer.

A backend may call back from inside `streamFrom`, which is part of the step in which the promise
resolves; one that ends inside `close` is one whose end follows at once.  Log messages are left out.
-/

set_option autoImplicit false

namespace Enkaku.Adb

abbrev Chunk := List UInt8

/-! ## The handshake -/

/-- `MAX_MAXDATA`. -/
def maxMaxdata : Nat := 1024 * 1024

/-- `MIN_MAXDATA`. -/
def minMaxdata : Nat := 4096

/-- `clampMaxdata`, of the `arg1` of a header: what the `CNXN` reply agrees on. -/
def clampMaxdata (requested : Nat) : Nat :=
  if requested = 0 then minMaxdata else min maxMaxdata (max minMaxdata requested)

/-- `stripTrailingNul`. -/
def stripTrailingNul (text : String) : String :=
  String.ofList (text.toList.reverse.dropWhile (· = '\x00')).reverse

/-! ## The state -/

/-- A frame the mux sends, before it is encoded. -/
inductive Frame where
  | okay (ourId hostId : Nat)
  | clse (ourId hostId : Nat)
  | wrte (ourId hostId : Nat) (data : Chunk)
  deriving DecidableEq, Repr

/-- `StreamState`, less its own id, which is its place in the heap. -/
structure StreamState where
  hostId : Nat
  service : String
  backend : Option Nat
  closing : Bool
  writeReady : Bool
  outbox : List Chunk
  deriving DecidableEq, Repr

/-- The place in the code a frame is sent from. -/
inductive Cause where
  /-- The OKAY of an OPEN. -/
  | opening
  /-- The CLSE of an OPEN past `maxStreams`. -/
  | streamLimit
  /-- The CLSE of an OPEN whose `openService` rejects. -/
  | openFailed
  /-- The OKAY of a WRTE. -/
  | ack
  /-- The CLSE of a WRTE to a stream that is not open. -/
  | unopened
  | pump
  /-- `beginClose`, by the backend and by the host. -/
  | backendEnded | hostClosed
  deriving DecidableEq, Repr

inductive Entry where
  /-- The host's OPEN, and the stream it is accepted as. -/
  | opened (hostId : Nat) (stream : Option Nat)
  | send (about : Option Nat) (cause : Cause) (frame : Frame)
  /-- `onData` on a stream. -/
  | took (stream : Nat) (chunk : Chunk)
  /-- The host's OKAY reaches a stream. -/
  | acked (stream : Nat)
  | wrote (backend : Nat) (data : Chunk)
  | returned (backend : Nat)
  | closedBackend (backend : Nat)
  /-- A stream leaves the table, on account of another or of itself. -/
  | removed (stream by_ : Nat)
  /-- A stream leaves the table in `closeAll`. -/
  | tornDown (stream : Nat)
  | onOpen (service : String)
  | onClose (service reason : String)
  deriving DecidableEq, Repr

/-- An entry that is no frame and is about no chunk. -/
def Entry.isBook : Entry → Bool
  | .send .. | .took .. | .acked _ => false
  | _ => true

structure StreamMux where
  /-- The table: the host's ids and the streams they name. -/
  streams : List (Nat × Nat)
  /-- The stream objects. -/
  states : Nat → StreamState
  nextOurId : Nat
  /-- The `openService` promises that have not settled. -/
  pending : List Nat
  /-- The stream a backend's callbacks hold. -/
  handlers : Nat → Option Nat
  /-- The deferred writes that have not settled: the host's id, and the stream. -/
  deferred : List (Nat × Nat)
  trace : List Entry

namespace StreamMux

/-- A mux on a fresh connection. -/
def init : StreamMux where
  streams := []
  states := fun _ ↦ ⟨0, "", none, false, false, []⟩
  nextOurId := 1
  pending := []
  handlers := fun _ ↦ none
  deferred := []
  trace := []

variable (s : StreamMux)

/-- `streams.get`. -/
def get (hostId : Nat) : Option Nat := OrdMap.get? hostId s.streams

def log (es : List Entry) : StreamMux := { s with trace := s.trace ++ es }

def modify (k : Nat) (f : StreamState → StreamState) : StreamMux :=
  { s with states := Function.update s.states k (f (s.states k)) }

/-! ## The operations -/

def pump (k : Nat) : StreamMux :=
  if (s.states k).writeReady then
    match (s.states k).outbox with
    | [] => s
    | chunk :: rest =>
      (s.modify k fun st ↦ { st with outbox := rest, writeReady := false }).log
        [.send (some k) .pump (.wrte k (s.states k).hostId chunk)]
  else s

/-- `streams.delete`, of whatever stream has the host's id. -/
def delete (hostId by_ : Nat) : StreamMux :=
  match s.get hostId with
  | none => s
  | some k => { s with streams := OrdMap.erase hostId s.streams, trace := s.trace ++ [.removed k by_] }

def finishStream (k : Nat) (reason : String) : StreamMux :=
  match s.get (s.states k).hostId with
  | none => s
  | some _ => (s.delete (s.states k).hostId k).log [.onClose (s.states k).service reason]

def closeBackend (backend : Option Nat) : StreamMux :=
  s.log (backend.toList.map .closedBackend)

def beginClose (k : Nat) (cause : Cause) (reason : String) : StreamMux :=
  if (s.states k).closing then s.finishStream k reason
  else
    let clse : Frame := .clse (if (s.states k).backend = none then 0 else k) (s.states k).hostId
    ((((s.modify k fun st ↦ { st with closing := true }).closeBackend (s.states k).backend).log
      [.send (some k) cause clse]).finishStream k reason)

def handleOpen (maxStreams hostId : Nat) (payload : String) : StreamMux :=
  if maxStreams ≤ s.streams.length then
    s.log [.opened hostId none, .send none .streamLimit (.clse 0 hostId),
      .onClose (stripTrailingNul payload) "stream_limit"]
  else
    { s with
      streams := OrdMap.set hostId s.nextOurId s.streams
      states := Function.update s.states s.nextOurId
        ⟨hostId, stripTrailingNul payload, none, false, false, []⟩
      nextOurId := s.nextOurId + 1
      pending := s.pending ++ [s.nextOurId]
      trace := s.trace ++ [.opened hostId (some s.nextOurId)] }

/-- The `onData` a backend is given. -/
def onData (k : Nat) (chunk : Chunk) : StreamMux :=
  ((s.modify k fun st ↦ { st with outbox := st.outbox ++ [chunk] }).log [.took k chunk]).pump k

/-- The `onEnd` a backend is given. -/
def onEnd (k : Nat) : StreamMux := s.beginClose k .backendEnded "closed"

/-- A stream is given its backend, and the backend the stream's callbacks. -/
def give (n k : Nat) : StreamMux :=
  { s.modify k fun st ↦ { st with backend := some n, writeReady := true } with
    handlers := Function.update s.handlers n (some k) }

/-- The chunks a backend calls back with one after the other. -/
def onDatas (k : Nat) (chunks : List Chunk) : StreamMux :=
  chunks.foldl (fun (s : StreamMux) chunk ↦ s.onData k chunk) s

/-- The calls a backend makes before `streamFrom` returns. -/
def callBack (k : Nat) (early : List Chunk) (ends : Bool) : StreamMux :=
  if ends then (s.onDatas k early).onEnd k else s.onDatas k early

/-- A backend has come for the stream: what the promise of `n` does when `k` has the host's id. -/
def attach (n k : Nat) (early : List Chunk) (ends : Bool) : StreamMux :=
  if (s.states k).backend ≠ none then s.closeBackend (some n)
  else
    ((s.give n k).callBack k early ends).log
      [.send (some k) .opening (.okay k (s.states k).hostId), .onOpen (s.states n).service]

/-- `openService` has resolved, with a backend that calls back with `early` from inside `streamFrom`,
and may end there. -/
def resolved (n : Nat) (early : List Chunk) (ends : Bool) : StreamMux :=
  let s : StreamMux :=
    { s with pending := s.pending.erase n, trace := s.trace ++ [Entry.returned n] }
  match s.get (s.states n).hostId with
  | none => s.closeBackend (some n)
  | some k => s.attach n k early ends

/-- `openService` has rejected. -/
def rejected (n : Nat) : StreamMux :=
  (({ s with pending := s.pending.erase n }).delete (s.states n).hostId n).log
    [.send (some n) .openFailed (.clse 0 (s.states n).hostId),
      .onClose (s.states n).service "backend_error"]

def handleOkay (hostId : Nat) : StreamMux :=
  match s.get hostId with
  | none => s
  | some k => ((s.modify k fun st ↦ { st with writeReady := true }).log [.acked k]).pump k

/-- The OKAY of a WRTE, unless the stream has gone. -/
def ack (hostId k : Nat) : StreamMux :=
  if s.get hostId = some k then
    s.log [.send (some k) .ack (.okay k (s.states k).hostId)]
  else s

/-- The host's WRTE, and whether the backend's `write` returns a promise. -/
def handleWrte (hostId : Nat) (payload : Chunk) (defers : Bool) : StreamMux :=
  match s.get hostId with
  | none => s.log [.send none .unopened (.clse 0 hostId)]
  | some k =>
    match (s.states k).backend with
    | none => s.log [.send (some k) .unopened (.clse 0 hostId)]
    | some n =>
      let s := s.log [.wrote n payload]
      if defers then { s with deferred := s.deferred ++ [(hostId, k)] } else s.ack hostId k

def settled (hostId k : Nat) : StreamMux :=
  ({ s with deferred := s.deferred.erase (hostId, k) }).ack hostId k

def handleClse (hostId : Nat) : StreamMux :=
  match s.get hostId with
  | none => s
  | some k => s.beginClose k .hostClosed "closed"

/-- One stream of `closeAll`. -/
def tearDown (reason : String) (k : Nat) : StreamMux :=
  { s.closeBackend (s.states k).backend with
    streams := OrdMap.erase (s.states k).hostId s.streams }.log
      [.tornDown k, .onClose (s.states k).service reason]

def closeAll (reason : String) : StreamMux :=
  (s.streams.map (·.2)).foldl (fun s k ↦ s.tearDown reason k) s

end StreamMux

/-! ## Steps -/

inductive MuxEvent where
  | open_ (hostId : Nat) (payload : String)
  | okay (hostId : Nat)
  | wrte (hostId : Nat) (payload : Chunk) (defers : Bool)
  | clse (hostId : Nat)
  /-- A frame of another kind, which is only logged. -/
  | other
  | resolved (n : Nat) (early : List Chunk) (ends : Bool)
  | rejected (n : Nat)
  | data (n : Nat) (chunk : Chunk)
  | ended (n : Nat)
  | settled (hostId k : Nat)
  | closeAll (reason : String)
  deriving DecidableEq, Repr

namespace StreamMux

local instance lawfulBEqPair : LawfulBEq (Nat × Nat) := inferInstance

/-- A promise settles once, and a backend calls back when it has been given the callbacks. -/
def step (maxStreams : Nat) (s : StreamMux) : MuxEvent → Option StreamMux
  | .open_ hostId payload => some (s.handleOpen maxStreams hostId payload)
  | .okay hostId => some (s.handleOkay hostId)
  | .wrte hostId payload defers => some (s.handleWrte hostId payload defers)
  | .clse hostId => some (s.handleClse hostId)
  | .other => some s
  | .resolved n early ends => if n ∈ s.pending then some (s.resolved n early ends) else none
  | .rejected n => if n ∈ s.pending then some (s.rejected n) else none
  | .data n chunk => (s.handlers n).map fun k ↦ s.onData k chunk
  | .ended n => (s.handlers n).map fun k ↦ s.onEnd k
  | .settled hostId k => if (hostId, k) ∈ s.deferred then some (s.settled hostId k) else none
  | .closeAll reason => some (s.closeAll reason)

end StreamMux

end Enkaku.Adb
