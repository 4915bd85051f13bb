import Enkaku.Adb.Sync
import Enkaku.Lib.PullQueue

/-!
# The `sync:` service, as far as it receives

`sync.ts`: `pullFile` asks for a remote file and writes the `DATA` that come to a sink, until a
`DONE` or something else comes, or there is too much of it.  Its bytes come off a `SyncByteReader`.

`sync_lossless` says of both directions that nothing is lost: what a push writes is read back as the
file, and a pull writes what has come, in order and never too much.
-/

set_option autoImplicit false

namespace Enkaku.Sync

open List

/-! ## Pulling a file -/

/-- Where `pullFile` stands.  It throws an error of its own, or the one its read was rejected
with. -/
inductive PullPhase where
  | requesting
  | header
  | payload (header : Bytes) (need : Nat)
  | returned
  | threw (error : Option AdbError)
  deriving DecidableEq, Repr

/-- A pull, with what it has written to its sink. -/
structure Pull where
  phase : PullPhase := .requesting
  received : Nat := 0
  sink : List Bytes := []
  deriving DecidableEq, Repr

/-- What `pullFile` does with a packet. -/
def Pull.receive (maxBytes : Nat) (p : Pull) (packet : SyncPacket) : Pull :=
  if packet.id = idData then
    let received := p.received + packet.payload.length
    if maxBytes < received then
      { p with
        phase := .threw (some ⟨"E_ADB_PULL_TOO_LARGE",
          s!"the remote file exceeded {maxBytes} bytes while streaming"⟩)
        received := received }
    else ⟨.header, received, p.sink ++ [packet.payload]⟩
  else if packet.id = idDone then { p with phase := .returned }
  else if packet.id = idFail then
    let text := Utf8.decode packet.payload
    { p with phase := .threw (some ⟨"E_ADB_SYNC_FAIL", if text.isEmpty then "pull failed" else text⟩) }
  else
    { p with
      phase := .threw (some ⟨"E_ADB_PROTOCOL",
        s!"unexpected sync packet during pull: {Utf8.decode packet.id}"⟩) }

/-- `pullFile`, as a reader.  Nothing is read until the request has been written, which is a read of
no bytes here. -/
def pullReader (maxBytes : Nat) : Reader Pull where
  need p :=
    match p.phase with
    | .requesting => some 0
    | .header => some 8
    | .payload _ need => some need
    | .returned | .threw _ => none
  next p bytes :=
    match p.phase with
    | .requesting => { p with phase := .header }
    | .header =>
      match afterHeader bytes with
      | .inl packet => p.receive maxBytes packet
      | .inr need => { p with phase := .payload bytes need }
    | .payload header _ => p.receive maxBytes (withRest header bytes)
    | .returned | .threw _ => p
  fail p := { p with phase := .threw none }
  fail_done _ := rfl

/-- What happens to a pull: a chunk arrives, the stream ends, the signal is aborted, or the loop
gets to run. -/
inductive PullInput where
  | data (chunk : Bytes)
  | finish
  | abort
  | resume
  deriving DecidableEq, Repr

def PullInput.event : PullInput → Session.Event
  | data chunk => .push chunk
  | finish => .close
  | abort => .abort
  | resume => .resume

/-- The chunks that `SyncByteReader.push` takes. -/
def accepts (q : PullQueue) (chunk : Bytes) : Bool := !(q.aborted || chunk.isEmpty)

/-- A pull after these inputs. -/
def pullFile (maxBytes : Nat) (inputs : List PullInput) : Session Pull :=
  Session.run (pullReader maxBytes) accepts {} (inputs.map PullInput.event)

theorem sound_pullFile (maxBytes : Nat) (inputs : List PullInput) :
    Session.Sound (pullReader maxBytes) {} (pullFile maxBytes inputs) := by
  refine Session.sound_run (fun q chunk h haborted ↦ ?_) _ _
  rw [accepts, haborted] at h
  cases h

/-! ## Where a pull stands in its packets -/

theorem idData_ne_idDone : idData ≠ idDone := by decide

/-- A packet that ends a pull otherwise than well. -/
structure Refused (maxBytes : Nat) (data : List Bytes) (packet : SyncPacket) : Prop where
  not_done : packet.id ≠ idDone
  too_large : packet.id = idData → maxBytes < (data ++ [packet.payload]).flatten.length

/-- Where a pull stands when it has taken these bytes: behind `DATA` packets that it has written to
its sink, or behind a header more; behind their `DONE`; or behind a packet it has refused. -/
inductive Stands (maxBytes : Nat) : Bytes → Pull → Prop
  | requesting : Stands maxBytes [] {}
  | header {front : Bytes} {data : List Bytes}
      (hrun : packets.run front = (data.map (SyncPacket.mk idData), []))
      (hmax : data.flatten.length ≤ maxBytes) :
      Stands maxBytes front ⟨.header, data.flatten.length, data⟩
  | payload {front header : Bytes} {data : List Bytes} {need : Nat}
      (hrun : packets.run front = (data.map (SyncPacket.mk idData), []))
      (hmax : data.flatten.length ≤ maxBytes) (hlength : header.length = 8)
      (hneed : afterHeader header = .inr need) :
      Stands maxBytes (front ++ header) ⟨.payload header need, data.flatten.length, data⟩
  | returned {front value : Bytes} {data : List Bytes}
      (hrun : packets.run front = (data.map (SyncPacket.mk idData) ++ [⟨idDone, value⟩], []))
      (hmax : data.flatten.length ≤ maxBytes) :
      Stands maxBytes front ⟨.returned, data.flatten.length, data⟩
  | threw {front : Bytes} {data : List Bytes} {packet : SyncPacket} {error : Option AdbError}
      {received : Nat} (hrun : packets.run front = (data.map (SyncPacket.mk idData) ++ [packet], []))
      (hmax : data.flatten.length ≤ maxBytes) (hrefused : Refused maxBytes data packet) :
      Stands maxBytes front ⟨.threw error, received, data⟩

/-- One packet more. -/
theorem run_append_framed {front bytes : Bytes} {items : List SyncPacket} {packet : SyncPacket}
    (hrun : packets.run front = (items, [])) (h : Framed bytes packet) :
    packets.run (front ++ bytes) = (items ++ [packet], []) := by
  have hone := run_framed h []
  rw [append_nil, run_nil] at hone
  rw [packets.run_append, hrun, nil_append, hone]

/-- A packet takes a pull from one such place to the next. -/
theorem stands_receive {maxBytes : Nat} {front bytes : Bytes} {data : List Bytes}
    {packet : SyncPacket} {phase : PullPhase}
    (hrun : packets.run front = (data.map (SyncPacket.mk idData), []))
    (hmax : data.flatten.length ≤ maxBytes) (hframed : Framed bytes packet) :
    Stands maxBytes (front ++ bytes)
      (Pull.receive maxBytes ⟨phase, data.flatten.length, data⟩ packet) := by
  have hrun' := run_append_framed hrun hframed
  obtain ⟨id, payload⟩ := packet
  rw [Pull.receive]
  dsimp only
  have htotal : data.flatten.length + payload.length = (data ++ [payload]).flatten.length := by
    rw [flatten_append, flatten_singleton, length_append]
  split_ifs with hdata hlarge hdone
  · exact .threw hrun' hmax ⟨fun h ↦ absurd (hdata.symm.trans h) (by decide),
      fun _ ↦ htotal ▸ hlarge⟩
  · rw [htotal]
    rw [hdata, ← map_singleton, ← map_append] at hrun'
    refine .header hrun' ?_
    rw [← htotal]
    exact Nat.le_of_not_lt hlarge
  · rw [hdone] at hrun'
    exact .returned hrun' hmax
  all_goals exact .threw hrun' hmax ⟨hdone, fun h ↦ absurd h hdata⟩

/-- One read takes a pull from one such place to the next. -/
theorem stands_next {maxBytes : Nat} {bytes x : Bytes} {p : Pull} (h : Stands maxBytes bytes p)
    (hneed : (pullReader maxBytes).need p = some x.length) :
    Stands maxBytes (bytes ++ x) ((pullReader maxBytes).next p x) := by
  cases h with
  | requesting =>
    obtain rfl : x = [] := length_eq_zero_iff.mp (Option.some.inj hneed).symm
    have hrun : packets.run [] = (([] : List Bytes).map (SyncPacket.mk idData), []) := run_nil
    exact .header hrun (Nat.zero_le maxBytes)
  | header hrun hmax =>
    have hlength : x.length = 8 := (Option.some.inj hneed).symm
    simp only [pullReader]
    cases hafter : afterHeader x with
    | inl packet => exact stands_receive hrun hmax (.header hlength hafter)
    | inr need => exact .payload hrun hmax hlength hafter
  | @payload front header data need hrun hmax hlength hafter =>
    have hrest : x.length = need := (Option.some.inj hneed).symm
    rw [append_assoc]
    exact stands_receive hrun hmax (.payload hlength (hafter.trans (congrArg Sum.inr hrest.symm)))
  | returned => cases hneed
  | threw => cases hneed

/-- Where a pull stands in what has arrived; and if it waits, that is all of it. -/
theorem pullFile_stands (maxBytes : Nat) (inputs : List PullInput) :
    ∃ bytes p, Stands maxBytes bytes p ∧ bytes <+: (pullFile maxBytes inputs).arrived ∧
      (pullFile maxBytes inputs).state.sink = p.sink ∧
      ((pullFile maxBytes inputs).state.phase = .returned → p = (pullFile maxBytes inputs).state) ∧
      ((pullFile maxBytes inputs).queue.ended = false → (pullFile maxBytes inputs).mail = none →
        p = (pullFile maxBytes inputs).state ∧
          bytes ++ (pullFile maxBytes inputs).queue.buffered =
            (pullFile maxBytes inputs).arrived) := by
  have hsound := sound_pullFile maxBytes inputs
  obtain ⟨bytes, p, htook, hstate, hfront, hall⟩ := hsound.took
  have hbytes : bytes <+: (pullFile maxBytes inputs).arrived :=
    (prefix_append _ _).trans hfront
  refine ⟨bytes, p, ?_, hbytes, ?_, ?_, ?_⟩
  · exact htook.invariant .requesting (fun h hneed _ ↦ stands_next h hneed) hbytes
  · rcases hstate with hstate | ⟨-, hstate⟩
    · rw [hstate]
    · rw [hstate]
      rfl
  · intro hreturned
    refine (hstate.resolve_right fun h ↦ ?_).symm
    rw [h.2] at hreturned
    cases hreturned
  · intro hended hmail
    have hempty : (pullFile maxBytes inputs).mailed = [] := by rw [Session.mailed, hmail]; rfl
    have hlive : (pullFile maxBytes inputs).queue.aborted = false := by
      by_contra haborted
      exact absurd (hended.symm.trans (hsound.ended (by simpa using haborted))) (by decide)
    refine ⟨(hstate.resolve_right fun h ↦ ?_).symm, ?_⟩
    · exact absurd (hended.symm.trans h.1) (by decide)
    · have hall := hall hlive
      rwa [hempty, append_nil] at hall

/-! ## What a pull has written -/

/-- The payloads of the `DATA` packets. -/
def dataOf (items : List SyncPacket) : List Bytes :=
  (items.filter (·.id = idData)).map SyncPacket.payload

theorem dataOf_map_append (data : List Bytes) (items : List SyncPacket) :
    dataOf (data.map (SyncPacket.mk idData) ++ items) = data ++ dataOf items := by
  induction data with
  | nil => rfl
  | cons d data ih =>
    rw [dataOf, map_cons, cons_append, filter_cons_of_pos (by simp), map_cons,
      cons_append]
    exact congrArg (d :: ·) ih

/-- Whole packets are read first, whatever comes behind them. -/
theorem run_of_front {front all : Bytes} {items : List SyncPacket}
    (hrun : packets.run front = (items, [])) (hfront : front <+: all) :
    ∃ tail, (packets.run all).1 = items ++ tail := by
  obtain ⟨rest, rfl⟩ := hfront
  rw [packets.run_append, hrun]
  exact ⟨_, rfl⟩

/-- What a pull has written are the first `DATA` packets, and not too much of them. -/
theorem Stands.sink {maxBytes : Nat} {bytes all : Bytes} {p : Pull} (h : Stands maxBytes bytes p)
    (hfront : bytes <+: all) :
    (∃ tail, (packets.run all).1 = p.sink.map (SyncPacket.mk idData) ++ tail) ∧
      p.sink.flatten.length ≤ maxBytes := by
  cases h with
  | requesting => exact ⟨⟨_, rfl⟩, Nat.zero_le maxBytes⟩
  | header hrun hmax => exact ⟨run_of_front hrun hfront, hmax⟩
  | payload hrun hmax =>
    exact ⟨run_of_front hrun ((prefix_append _ _).trans hfront), hmax⟩
  | returned hrun hmax | threw hrun hmax =>
    obtain ⟨tail, htail⟩ := run_of_front hrun hfront
    exact ⟨⟨_, htail.trans (append_assoc _ _ _)⟩, hmax⟩

/-- A pull writes the payloads of the `DATA` packets, as far as it writes, and never too much. -/
theorem pullFile_sink (maxBytes : Nat) (inputs : List PullInput) :
    (pullFile maxBytes inputs).state.sink.flatten.length ≤ maxBytes ∧
      (pullFile maxBytes inputs).state.sink.flatten <+:
        (dataOf (packets.run (pullFile maxBytes inputs).arrived).1).flatten := by
  obtain ⟨bytes, p, hstands, hfront, hsink, -⟩ := pullFile_stands maxBytes inputs
  obtain ⟨⟨tail, htail⟩, hmax⟩ := hstands.sink hfront
  rw [hsink, htail, dataOf_map_append, flatten_append]
  exact ⟨hmax, prefix_append _ _⟩

/-- A pull that has returned has read `DATA` packets and a `DONE`, and has written the `DATA`. -/
theorem pullFile_returned {maxBytes : Nat} {inputs : List PullInput}
    (h : (pullFile maxBytes inputs).state.phase = .returned) :
    ∃ data value tail,
      (packets.run (pullFile maxBytes inputs).arrived).1 =
        data.map (SyncPacket.mk idData) ++ ⟨idDone, value⟩ :: tail ∧
      data.flatten.length ≤ maxBytes ∧ (pullFile maxBytes inputs).state.sink = data ∧
      (pullFile maxBytes inputs).state.received = data.flatten.length := by
  obtain ⟨bytes, p, hstands, hfront, -, hstate, -⟩ := pullFile_stands maxBytes inputs
  have hp := hstate h
  rw [← hp] at h ⊢
  clear hp hstate
  cases hstands with
  | requesting => cases h
  | header => cases h
  | payload => cases h
  | threw => cases h
  | @returned front value data hrun hmax =>
    obtain ⟨tail, htail⟩ := run_of_front hrun hfront
    exact ⟨data, value, tail, htail.trans (append_assoc _ _ _), hmax, rfl, rfl⟩

/-- A packet that a pull refuses does not stand among `DATA` that fits and its `DONE`. -/
theorem Refused.not_append {maxBytes : Nat} {data data' : List Bytes} {packet : SyncPacket}
    {value : Bytes} {tail tail' : List SyncPacket} (h : Refused maxBytes data packet)
    (heq : data'.map (SyncPacket.mk idData) ++ ⟨idDone, value⟩ :: tail' =
      data.map (SyncPacket.mk idData) ++ packet :: tail) : maxBytes < data'.flatten.length := by
  induction data generalizing data' maxBytes with
  | nil =>
    cases data' with
    | nil =>
      obtain ⟨rfl, -⟩ := List.cons.inj heq
      exact absurd rfl h.not_done
    | cons d data' =>
      obtain ⟨rfl, -⟩ := List.cons.inj heq
      have hlarge := h.too_large rfl
      rw [nil_append, flatten_singleton] at hlarge
      rw [flatten_cons, length_append]
      exact Nat.lt_of_lt_of_le hlarge (Nat.le_add_right _ _)
  | cons d data ih =>
    cases data' with
    | nil =>
      exact absurd (congrArg SyncPacket.id (List.cons.inj heq).1).symm idData_ne_idDone
    | cons d' data' =>
      obtain ⟨hd, htail⟩ := List.cons.inj heq
      obtain rfl : d' = d := congrArg SyncPacket.payload hd
      by_cases hfits : d'.length ≤ maxBytes
      · have hrefused : Refused (maxBytes - d'.length) data packet := by
          refine ⟨h.not_done, fun hdata ↦ ?_⟩
          have hlarge := h.too_large hdata
          rw [cons_append, flatten_cons, length_append] at hlarge
          omega
        have hlarge := ih hrefused htail
        rw [flatten_cons, length_append]
        omega
      · rw [flatten_cons, length_append]
        omega

/-- A pull whose `DATA` and `DONE` have arrived, and which waits for nothing, has returned. -/
theorem pullFile_complete {maxBytes : Nat} {inputs : List PullInput} {data : List Bytes}
    {value : Bytes} {tail : List SyncPacket} (hended : (pullFile maxBytes inputs).queue.ended = false)
    (hmail : (pullFile maxBytes inputs).mail = none)
    (hitems : (packets.run (pullFile maxBytes inputs).arrived).1 =
      data.map (SyncPacket.mk idData) ++ ⟨idDone, value⟩ :: tail)
    (hmax : data.flatten.length ≤ maxBytes) :
    (pullFile maxBytes inputs).state.phase = .returned := by
  have hshort := (sound_pullFile maxBytes inputs).short hmail
  obtain ⟨bytes, p, hstands, hfront, -, -, hquiet⟩ := pullFile_stands maxBytes inputs
  obtain ⟨rfl, hall⟩ := hquiet hended hmail
  rw [← hall] at hitems
  -- a pull that waits for bytes has read all packets that are there, and none of them is a `DONE`
  have hwaits : ∀ {front rest : Bytes} {data' : List Bytes},
      packets.run front = (data'.map (SyncPacket.mk idData), []) → readPacket rest = none →
      (packets.run (front ++ rest)).1 ≠ data.map (SyncPacket.mk idData) ++ ⟨idDone, value⟩ :: tail := by
    intro front rest data' hrun hnone heq
    rw [packets.run_append, hrun, nil_append, packets.run_of_none hnone, append_nil] at heq
    have hmem : (⟨idDone, value⟩ : SyncPacket) ∈ data'.map (SyncPacket.mk idData) := by
      rw [show data'.map (SyncPacket.mk idData) = _ from heq]
      exact mem_append_right _ (.head _)
    obtain ⟨d, -, hd⟩ := mem_map.mp hmem
    exact absurd (congrArg SyncPacket.id hd) idData_ne_idDone
  generalize (pullFile maxBytes inputs).queue.buffered = buffered at hitems hshort
  generalize (pullFile maxBytes inputs).state = p at *
  cases hstands with
  | requesting => exact absurd (hshort 0 rfl).1 (Nat.not_lt_zero _)
  | header hrun _ =>
    have hlength := (hshort 8 rfl).1
    refine absurd hitems (hwaits hrun ?_)
    rw [readPacket, if_pos hlength]
  | @payload front header data' need hrun _ hlength hneed =>
    have hrest := (hshort need rfl).1
    rw [append_assoc] at hitems
    refine absurd hitems (hwaits hrun ?_)
    rw [readPacket, if_neg (by rw [length_append]; omega), take_left' hlength, hneed]
    exact if_pos (by rw [length_append]; omega)
  | returned => rfl
  | @threw front data' packet error received hrun hmax' hrefused =>
    obtain ⟨tail', htail⟩ := run_of_front hrun (prefix_append _ buffered)
    rw [hitems, append_assoc] at htail
    exact absurd (hrefused.not_append htail) (Nat.not_lt.mpr hmax)

/-! ## Both directions -/

/-- **The transfer codec is lossless.**  What a push writes is read back as one `SEND` with the path
and the mode, `DATA` packets of 1 to 65536 bytes that together are the file, and one `DONE`; a push
that is stopped has written the front of that.  What a pull writes to its sink is the front of what
the `DATA` packets carry, and never too much; it returns only when the packets start with `DATA` and
a `DONE`, having written all of that, and it does return when they have arrived. -/
theorem sync_lossless (path : String) (mode : Option Int) (file : List Bytes) (mtime : Nat)
    (stopped : Nat → Option AdbError) (reply : Except AdbError SyncPacket) (maxBytes : Nat)
    (inputs : List PullInput) (h : (Utf8.encode (pathSpec path mode)).length < 2 ^ 32) :
    ((pushFile stopped reply path mode file mtime).1 <+: pushPackets path mode file mtime ∧
      ((∀ k, stopped k = none) ∨ (pushFile stopped reply path mode file mtime).2 = .ok () →
        ∃ chunks : List Bytes, packets.run (pushFile stopped reply path mode file mtime).1.flatten =
            (⟨idSend, Utf8.encode (pathSpec path mode)⟩ ::
              (chunks.map (SyncPacket.mk idData) ++ [⟨idDone, Bytes.le32 mtime⟩]), []) ∧
          (∀ chunk ∈ chunks, 1 ≤ chunk.length ∧ chunk.length ≤ 65536) ∧
          chunks.flatten = file.flatten) ∧
      ∀ path' mode', Utf8.encode (pathSpec path mode) = Utf8.encode (pathSpec path' mode') →
        path = path' ∧ sentMode mode = sentMode mode') ∧
    ((pullFile maxBytes inputs).state.phase = .returned →
      ∃ (data : List Bytes) (value : Bytes) (tail : List SyncPacket),
        (packets.run (pullFile maxBytes inputs).arrived).1 =
          data.map (SyncPacket.mk idData) ++ ⟨idDone, value⟩ :: tail ∧
        data.flatten.length ≤ maxBytes ∧ (pullFile maxBytes inputs).state.sink = data ∧
        (pullFile maxBytes inputs).state.received = data.flatten.length) ∧
    ((pullFile maxBytes inputs).state.sink.flatten.length ≤ maxBytes ∧
      (pullFile maxBytes inputs).state.sink.flatten <+:
        (dataOf (packets.run (pullFile maxBytes inputs).arrived).1).flatten) ∧
    ((pullFile maxBytes inputs).queue.ended = false → (pullFile maxBytes inputs).mail = none →
      ∀ (data : List Bytes) (value : Bytes) (tail : List SyncPacket),
        (packets.run (pullFile maxBytes inputs).arrived).1 =
          data.map (SyncPacket.mk idData) ++ ⟨idDone, value⟩ :: tail →
        data.flatten.length ≤ maxBytes → (pullFile maxBytes inputs).state.phase = .returned) := by
  obtain ⟨hfront, hall, hends⟩ := writeAll_spec stopped 0 (pushPackets path mode file mtime)
  refine ⟨⟨hfront, fun hthrough ↦ ?_,
      fun path' mode' hpath ↦ pathSpec_injective (Utf8.encode_injective hpath)⟩, pullFile_returned,
    pullFile_sink maxBytes inputs, fun hended hmail data value tail ↦ pullFile_complete hended hmail⟩
  have hok : (writeAll stopped 0 (pushPackets path mode file mtime)).2 = .ok () := by
    rcases hthrough with hnone | hok
    · exact hends hnone
    · simp only [pushFile] at hok
      cases hr : (writeAll stopped 0 (pushPackets path mode file mtime)).2 with
      | ok => rfl
      | error err =>
        rw [hr] at hok
        cases hok
  obtain ⟨happ, hbounds⟩ := chunksOf_spec (show 0 < chunkSize by decide) file
  refine ⟨_, ?_, hbounds, happ⟩
  show packets.run (writeAll stopped 0 (pushPackets path mode file mtime)).1.flatten = _
  rw [hall hok, run_pushPackets path mode file mtime h]

namespace Pulled

/-- Two `DATA` packets, their `DONE`, and a `DATA` behind it. -/
def bytes : Bytes :=
  encodePacket idData [1, 2] ++ (encodePacket idData [3] ++ (encodeValuePacket idDone 7 ++
    encodePacket idData [4]))

/-- They come cut inside the first payload and inside the `DONE`. -/
def inputs : List PullInput :=
  [.resume, .data (bytes.take 9), .resume, .data ((bytes.drop 9).take 15), .resume, .resume, .resume,
    .data (bytes.drop 24), .resume]

theorem sync_lossless_pulled : (pullFile 3 inputs).state.sink.flatten = [1, 2, 3] ∧
    (pullFile 3 inputs).state.phase = .returned ∧
    ((pushFile (fun _ ↦ none) (.ok ⟨idOkay, []⟩) "/x" none [[1], [], [2, 3]] 7).1 <+:
      pushPackets "/x" none [[1], [], [2, 3]] 7) := by
  have h := sync_lossless "/x" none [[1], [], [2, 3]] 7 (fun _ ↦ none) (.ok ⟨idOkay, []⟩) 3 inputs
    (by decide +kernel)
  refine ⟨?_, ?_, h.1.1⟩
  · decide +kernel
  · exact h.2.2.2 (by decide +kernel) (by decide +kernel) [[1, 2], [3]] (Bytes.le32 7)
      [⟨idData, [4]⟩] (by decide +kernel) (by decide)

end Pulled

/-- No packet with a payload of more than 32 bits can tell is read. -/
theorem Framed.length_payload_lt {bytes : Bytes} {packet : SyncPacket} (h : Framed bytes packet) :
    packet.payload.length < 2 ^ 32 := by
  cases h with
  | header hlength h =>
    rw [afterHeader] at h
    dsimp only at h
    split_ifs at h
    · obtain rfl := Sum.inl.inj h
      rw [length_drop, hlength]
      decide
    · obtain rfl := Sum.inl.inj h
      exact Nat.two_pow_pos 32
  | @payload header rest hlength h =>
    rw [afterHeader] at h
    dsimp only at h
    rw [withRest]
    split_ifs at h with hdone hstat hpos
    · rw [if_pos hstat, length_append, length_drop, hlength, ← Sum.inr.inj h]
      decide
    · rw [if_neg hstat]
      show rest.length < _
      rw [← Sum.inr.inj h]
      exact Bytes.ofLe32_lt _

theorem head?_run_ne {bytes : Bytes} {packet : SyncPacket} (h : 2 ^ 32 ≤ packet.payload.length) :
    (packets.run bytes).1.head? ≠ some packet := by
  cases hread : packets.next? bytes with
  | none =>
    rw [packets.run_of_none hread]
    exact Option.some_ne_none packet ∘ Eq.symm
  | some r =>
    obtain ⟨front, hframed, -⟩ := framed_of_readPacket hread
    rw [packets.run_of_some hread]
    intro heq
    rw [← Option.some.inj heq] at h
    exact absurd hframed.length_payload_lt (Nat.not_lt.mpr h)

/-- A path of so many letters. -/
def longPath (n : Nat) : String := String.ofList (List.replicate n 'a')

theorem le_length_pathSpec (n : Nat) (mode : Option Int) :
    n ≤ (Utf8.encode (pathSpec (longPath n) mode)).length := by
  have hone : (String.utf8EncodeChar 'a').length = 1 := rfl
  rw [pathSpec, Utf8.encode_append, Utf8.encode_append, append_assoc, length_append]
  refine Nat.le_trans (Nat.le_of_eq ?_) (Nat.le_add_right _ _)
  rw [Utf8.encode, longPath, String.toList_ofList, length_flatMap, map_replicate, hone,
    sum_replicate_nat, Nat.mul_one]

/-- A path that is too long is not read back. -/
theorem head?_run_ne_of_long {n : Nat} (h : 2 ^ 32 ≤ n) (bytes : Bytes) :
    (packets.run bytes).1.head? ≠ some ⟨idSend, Utf8.encode (pathSpec (longPath n) none)⟩ :=
  head?_run_ne (Nat.le_trans h (le_length_pathSpec n none))

/-- The `SEND` of mode `0o644` carries mode `0o100644`; that of a path of `2 ^ 32` letters does not
carry the path; and a pull returns though a `DATA` follows the `DONE`. -/
theorem send_differs :
    ((packets.run (pushFile (fun _ ↦ none) (.ok ⟨idOkay, []⟩) "/x" (some 0o644) [] 0).1.flatten).1.head?
        = some ⟨idSend, Utf8.encode "/x,33188"⟩ ∧
      Utf8.encode "/x,33188" ≠ Utf8.encode ("/x," ++ toString (0o644 : Int))) ∧
    (packets.run (pushFile (fun _ ↦ none) (.ok ⟨idOkay, []⟩)
        (longPath (2 ^ 32)) none [] 0).1.flatten).1.head? ≠
      some ⟨idSend, Utf8.encode (pathSpec (longPath (2 ^ 32)) none)⟩ ∧
    ((pullFile 3 Pulled.inputs).state.phase = .returned ∧
      (packets.run (pullFile 3 Pulled.inputs).arrived).1.getLast? = some ⟨idData, [4]⟩) := by
  refine ⟨⟨?_, ?_⟩, head?_run_ne_of_long (le_rfl) _, ?_, ?_⟩
  · decide +kernel
  · decide +kernel
  · decide +kernel
  · decide +kernel

end Enkaku.Sync
