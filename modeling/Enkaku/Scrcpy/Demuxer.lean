import Enkaku.Lib.Staged
import Enkaku.Lib.Utf8
import Enkaku.Scrcpy.ByteRing
import Mathlib.Data.Nat.Bitwise

/-!
# The video stream

`VideoDemuxer` of `demuxer.ts`: a dummy byte if one is expected, the name of the device in 64 bytes,
twelve bytes of codec and size, and then frames, each behind twelve bytes of its own.  What arrives
is pushed on a `ByteRing`, and a push takes off it what is whole.

`demuxer_exact` says that the callbacks get what the stream is made of, whatever pieces it arrives in.
-/

set_option autoImplicit false

namespace Enkaku.Scrcpy

open List

open ByteRing

/-- `MAX_PACKET_BYTES`. -/
def maxPacketBytes : ℕ := 16 * 1024 * 1024

inductive VideoCodec where
  | h264
  | h265
  | av1
  deriving DecidableEq, Repr

/-- `codecName`. -/
def codecName (id : ℕ) : VideoCodec :=
  if id = 0x68323635 then .h265 else if id = 0x00617631 then .av1 else .h264

structure VideoMeta where
  deviceName : String
  codec : VideoCodec
  width : ℕ
  height : ℕ
  deriving DecidableEq

inductive ScrcpyPacket where
  | config (receivedAt : ℤ) (data : Bytes)
  | keyframe (ptsUs : ℕ) (receivedAt : ℤ) (data : Bytes)
  | frame (ptsUs : ℕ) (receivedAt : ℤ) (data : Bytes)
  deriving DecidableEq

/-- What the demuxer calls. -/
inductive DemuxEvent where
  | onMeta (info : VideoMeta)
  | onPacket (packet : ScrcpyPacket)
  | onError (message : String)
  deriving DecidableEq

inductive DemuxStage where
  | dummy
  | name
  /-- `'meta'`. -/
  | metadata
  | frames
  deriving DecidableEq, Repr

/-! ## What the bytes mean -/

/-- The name, as far as the first NUL. -/
def deviceNameOf (raw : Bytes) : String := Utf8.decode (raw.takeWhile (· ≠ 0))

/-- The twelve bytes of codec and size. -/
def metaOf (deviceName : String) (header : Bytes) : VideoMeta where
  deviceName := deviceName
  codec := codecName (Bytes.ofBe (header.take 4))
  width := Bytes.ofBe ((header.drop 4).take 4)
  height := Bytes.ofBe ((header.drop 8).take 4)

/-- `PTS_FLAG_CONFIG`, `PTS_FLAG_KEYFRAME` and `PTS_MASK`. -/
def ptsFlagConfig : ℕ := 2 ^ 63

def ptsFlagKeyframe : ℕ := 2 ^ 62

def ptsMask : ℕ := 2 ^ 62 - 1

def packetOf (receivedAt : ℤ) (ptsAndFlags : ℕ) (data : Bytes) : ScrcpyPacket :=
  if ptsAndFlags &&& ptsFlagConfig ≠ 0 then .config receivedAt data
  else if ptsAndFlags &&& ptsFlagKeyframe ≠ 0 then .keyframe (ptsAndFlags &&& ptsMask) receivedAt data
  else .frame (ptsAndFlags &&& ptsMask) receivedAt data

/-- The text of the error of a frame that is too long. -/
def tooLongMessage (size : ℕ) : String :=
  s!"frame of {size} bytes exceeds MAX_PACKET_BYTES; the stream is corrupt"

/-! ## The demuxer -/

structure VideoDemuxer where
  ring : ByteRing
  stopped : Bool
  stage : DemuxStage
  info : Option VideoMeta

/-- A demuxer on this ring. -/
def VideoDemuxer.new (expectDummyByte : Bool) (ring : ByteRing) : VideoDemuxer :=
  ⟨ring, false, if expectDummyByte then .dummy else .name, none⟩

namespace VideoDemuxer

/-- What a call of the ring throws. -/
def ringCall {α : Type} (result : Except RangeError α) : Except String α :=
  result.mapError (·.message)

/-- One round of the loop of `drain`: nothing if it returns, or what it calls and goes on with. -/
def drainStep (receivedAt : ℤ) (d : VideoDemuxer) :
    Except String (Option (List DemuxEvent × VideoDemuxer)) :=
  match d.stage with
  | .dummy =>
    if d.ring.length < 1 then .ok none
    else do
      let ring ← ringCall (d.ring.skip 1)
      .ok (some ([], { d with ring, stage := .name }))
  | .name =>
    if d.ring.length < 64 then .ok none
    else do
      let (raw, ring) ← ringCall (d.ring.read 64)
      .ok (some ([], { d with ring, stage := .metadata, info := some ⟨deviceNameOf raw, .h264, 0, 0⟩ }))
  | .metadata =>
    if d.ring.length < 12 then .ok none
    else do
      let info := metaOf ((d.info.map (·.deviceName)).getD "") d.ring.contents
      let ring ← ringCall (d.ring.skip 12)
      .ok (some ([.onMeta info], { d with ring, stage := .frames, info := some info }))
  | .frames =>
    if d.ring.length < 12 then .ok none
    else
      let header := d.ring.contents
      let ptsAndFlags := Bytes.ofBe (header.take 8)
      let size := Bytes.ofBe ((header.drop 8).take 4)
      if maxPacketBytes < size then .error (tooLongMessage size)
      else if d.ring.length < 12 + size then .ok none
      else do
        let ring ← ringCall (d.ring.skip 12)
        let (data, ring) ← ringCall (ring.read size)
        .ok (some ([.onPacket (packetOf receivedAt ptsAndFlags data)], { d with ring }))

/-- `drain`, with fuel for as many rounds as there are bytes: what it calls, what it leaves, and what
it throws. -/
def drain (receivedAt : ℤ) : ℕ → VideoDemuxer → List DemuxEvent × VideoDemuxer × Option String
  | 0, d => ([], d, none)
  | fuel + 1, d =>
    match d.drainStep receivedAt with
    | .error message => ([], d, some message)
    | .ok none => ([], d, none)
    | .ok (some (events, d')) =>
      let rest := drain receivedAt fuel d'
      (events ++ rest.1, rest.2)

/-- `push`. -/
def push (d : VideoDemuxer) (receivedAt : ℤ) (chunk : Bytes) : List DemuxEvent × VideoDemuxer :=
  if d.stopped then ([], d)
  else
    let ring := d.ring.push chunk
    match drain receivedAt ring.length { d with ring } with
    | (events, d', none) => (events, d')
    | (events, d', some message) => (events ++ [.onError message], { d' with stopped := true })

/-- Chunks are pushed one after the other, each at its time. -/
def pushAll (d : VideoDemuxer) : List (ℤ × Bytes) → List DemuxEvent
  | [] => []
  | (receivedAt, chunk) :: chunks =>
    (d.push receivedAt chunk).1 ++ (d.push receivedAt chunk).2.pushAll chunks

end VideoDemuxer

/-! ## The same on the bytes alone -/

/-- The clock does not show. -/
def ScrcpyPacket.at' (receivedAt : ℤ) : ScrcpyPacket → ScrcpyPacket
  | .config _ data => .config receivedAt data
  | .keyframe ptsUs _ data => .keyframe ptsUs receivedAt data
  | .frame ptsUs _ data => .frame ptsUs receivedAt data

/-- What is called at this time. -/
def DemuxEvent.at' (receivedAt : ℤ) : DemuxEvent → DemuxEvent
  | .onPacket packet => .onPacket (packet.at' receivedAt)
  | event => event

theorem at_packetOf (receivedAt receivedAt' : ℤ) (ptsAndFlags : ℕ) (data : Bytes) :
    (packetOf receivedAt ptsAndFlags data).at' receivedAt' = packetOf receivedAt' ptsAndFlags data := by
  simp only [packetOf]
  split_ifs <;> rfl

@[simp] theorem DemuxEvent.at_at (t t' : ℤ) (event : DemuxEvent) :
    (event.at' t).at' t' = event.at' t' := by
  rcases event with info | packet | message
  · rfl
  · cases packet <;> rfl
  · rfl

/-- A round, on what is pending. -/
def unitStep (s : DemuxStage × Option VideoMeta) (bytes : Bytes) :
    Staged.Next (DemuxStage × Option VideoMeta) UInt8 DemuxEvent String :=
  match s.1 with
  | .dummy => if bytes.length < 1 then .more else .found [] (.name, s.2) (bytes.drop 1)
  | .name =>
    if bytes.length < 64 then .more
    else .found [] (.metadata, some ⟨deviceNameOf (bytes.take 64), .h264, 0, 0⟩) (bytes.drop 64)
  | .metadata =>
    if bytes.length < 12 then .more
    else
      let info := metaOf ((s.2.map (·.deviceName)).getD "") (bytes.take 12)
      .found [.onMeta info] (.frames, some info) (bytes.drop 12)
  | .frames =>
    if bytes.length < 12 then .more
    else
      let size := Bytes.ofBe ((bytes.drop 8).take 4)
      if maxPacketBytes < size then .fail (tooLongMessage size)
      else if bytes.length < 12 + size then .more
      else .found [.onPacket (packetOf 0 (Bytes.ofBe (bytes.take 8)) ((bytes.drop 12).take size))] s
        (bytes.drop (12 + size))

/-- A header is read from its first twelve bytes. -/
theorem metaOf_take (deviceName : String) (bytes : Bytes) :
    metaOf deviceName (bytes.take 12) = metaOf deviceName bytes := by
  simp only [metaOf, take_take, drop_take]
  rfl

theorem ringCall_ok {α : Type} (a : α) : VideoDemuxer.ringCall (.ok a) = .ok a := rfl

/-- What a round of the demuxer does, by what a round does on the bytes. -/
inductive VideoDemuxer.Follows (receivedAt : ℤ) (stopped : Bool) :
    Except String (Option (List DemuxEvent × VideoDemuxer)) →
      Staged.Next (DemuxStage × Option VideoMeta) UInt8 DemuxEvent String → Prop
  | more : Follows receivedAt stopped (.ok none) .more
  | fail (message : String) : Follows receivedAt stopped (.error message) (.fail message)
  | found (events : List DemuxEvent) (ring : ByteRing) (stage : DemuxStage) (info : Option VideoMeta) :
    Follows receivedAt stopped
      (.ok (some (events.map (·.at' receivedAt), ⟨ring, stopped, stage, info⟩)))
      (.found events (stage, info) ring.contents)

theorem VideoDemuxer.drainStep_follows (d : VideoDemuxer) (receivedAt : ℤ) :
    Follows receivedAt d.stopped (d.drainStep receivedAt)
      (unitStep (d.stage, d.info) d.ring.contents) := by
  obtain ⟨ring, stopped, stage, info⟩ := d
  cases stage with
  | dummy =>
    simp only [drainStep, unitStep, length_contents]
    split_ifs with hshort
    · exact .more
    · obtain ⟨ring', hskip, hcontents⟩ := skip_spec (Nat.le_of_not_lt hshort)
      rw [hskip, ← hcontents]
      exact .found [] _ _ _
  | name =>
    simp only [drainStep, unitStep, length_contents]
    split_ifs with hshort
    · exact .more
    · obtain ⟨ring', hread, hcontents⟩ := read_spec (Nat.le_of_not_lt hshort)
      rw [hread, ← hcontents]
      exact .found [] _ _ _
  | metadata =>
    simp only [drainStep, unitStep, length_contents, metaOf_take]
    split_ifs with hshort
    · exact .more
    · obtain ⟨ring', hskip, hcontents⟩ := skip_spec (Nat.le_of_not_lt hshort)
      rw [hskip, ← hcontents]
      exact .found [.onMeta (metaOf ((info.map (·.deviceName)).getD "") ring.contents)] _ _ _
  | frames =>
    simp only [drainStep, unitStep, length_contents]
    split_ifs with hshort hlong hbody
    · exact .more
    · exact .fail _
    · exact .more
    · obtain ⟨ring', hskip, hcontents⟩ := skip_spec (Nat.le_of_not_lt hshort)
      have hsize : Bytes.ofBe ((ring.contents.drop 8).take 4) ≤ ring'.length := by
        rw [← length_contents, hcontents, length_drop, length_contents]
        omega
      obtain ⟨ring'', hread, hcontents'⟩ := read_spec hsize
      rw [hskip]
      dsimp only [ringCall_ok, bind, Except.bind]
      rw [hread, ← drop_drop, ← hcontents, ← hcontents']
      have hfound : Follows receivedAt stopped _ _ := .found
        [.onPacket (packetOf 0 (Bytes.ofBe (ring.contents.take 8)) (ring'.contents.take
          (Bytes.ofBe ((ring.contents.drop 8).take 4))))] ring'' .frames info
      rw [map_singleton, DemuxEvent.at', at_packetOf] at hfound
      exact hfound

theorem unitStep_append {s s' : DemuxStage × Option VideoMeta} {bytes rest : Bytes}
    {out : List DemuxEvent} (h : unitStep s bytes = .found out s' rest) :
    rest.length < bytes.length ∧ ∀ ys, unitStep s (bytes ++ ys) = .found out s' (rest ++ ys) := by
  obtain ⟨stage, info⟩ := s
  have htake : ∀ {n k : ℕ}, n + k ≤ bytes.length → ∀ ys : Bytes,
      ((bytes ++ ys).drop n).take k = (bytes.drop n).take k := by
    intro n k hle ys
    rw [drop_append_of_le_length (by omega),
      take_append_of_le_length (by rw [length_drop]; omega)]
  cases stage with
  | dummy =>
    simp only [unitStep] at h ⊢
    split_ifs at h with hshort
    cases h
    refine ⟨by rw [length_drop]; omega, fun ys ↦ ?_⟩
    rw [if_neg (by rw [length_append]; omega), drop_append_of_le_length (by omega)]
  | name | metadata =>
    simp only [unitStep] at h ⊢
    split_ifs at h with hshort
    cases h
    refine ⟨by rw [length_drop]; omega, fun ys ↦ ?_⟩
    rw [if_neg (by rw [length_append]; omega), drop_append_of_le_length (by omega),
      take_append_of_le_length (by omega)]
  | frames =>
    simp only [unitStep] at h ⊢
    split_ifs at h with hshort hlong hbody
    cases h
    refine ⟨by rw [length_drop]; omega, fun ys ↦ ?_⟩
    rw [htake (by omega), if_neg (by rw [length_append]; omega), if_neg hlong,
      if_neg (by rw [length_append]; omega), take_append_of_le_length (by omega),
      htake (by omega), drop_append_of_le_length (by omega)]

theorem unitStep_fail {s : DemuxStage × Option VideoMeta} {bytes : Bytes} {message : String} :
    unitStep s bytes = .fail message ↔ s.1 = .frames ∧ 12 ≤ bytes.length ∧
      maxPacketBytes < Bytes.ofBe ((bytes.drop 8).take 4) ∧
      message = tooLongMessage (Bytes.ofBe ((bytes.drop 8).take 4)) := by
  obtain ⟨stage, info⟩ := s
  cases stage with
  | dummy => simp only [unitStep]; split_ifs <;> simp
  | name => simp only [unitStep]; split_ifs <;> simp
  | metadata => simp only [unitStep]; split_ifs <;> simp
  | frames =>
    simp only [unitStep]
    split_ifs with hshort hlong hbody
    · simp [hshort]
    · simp [Nat.le_of_not_lt hshort, hlong, eq_comm]
    · simp [hlong]
    · simp [hlong]

/-- The stream, stage by stage. -/
def units : Staged (DemuxStage × Option VideoMeta) UInt8 DemuxEvent String where
  next := unitStep
  nil s := by
    obtain ⟨stage, info⟩ := s
    cases stage <;> rfl
  shorter h := (unitStep_append h).1
  append_found h ys := (unitStep_append h).2 ys
  append_fail := by
    intro s bytes message h ys
    obtain ⟨hstage, hlength, hlong, hmessage⟩ := unitStep_fail.mp h
    have hsize : ((bytes ++ ys).drop 8).take 4 = (bytes.drop 8).take 4 := by
      rw [List.drop_append_of_le_length (by omega),
        List.take_append_of_le_length (by rw [List.length_drop]; omega)]
    rw [unitStep_fail, hsize, List.length_append]
    exact ⟨hstage, by omega, hlong, hmessage⟩

theorem units_next (s : DemuxStage × Option VideoMeta) (bytes : Bytes) :
    units.next s bytes = unitStep s bytes := rfl

/-! ## Pushing reads the stages -/

/-- What is left of a demuxer, by what is left of the stages. -/
def VideoDemuxer.Keeps (d : VideoDemuxer) :
    Staged.Left (DemuxStage × Option VideoMeta) UInt8 String → Prop
  | .waiting s kept => d.stopped = false ∧ (d.stage, d.info) = s ∧ d.ring.contents = kept
  | .failed _ => d.stopped = true

/-- What has been called, by what the stages have put out: each at some time, and last the error. -/
def Called (events : List DemuxEvent)
    (found : List DemuxEvent × Staged.Left (DemuxStage × Option VideoMeta) UInt8 String) : Prop :=
  events.map (·.at' 0) = found.1.map (·.at' 0) ++
    match found.2 with
    | .waiting .. => []
    | .failed message => [.onError message]

theorem VideoDemuxer.drain_spec (receivedAt : ℤ) (fuel : ℕ) :
    ∀ {d : VideoDemuxer}, d.stopped = false →
      (drain receivedAt fuel d).1.map (·.at' 0) =
          (units.loop fuel (d.stage, d.info) d.ring.contents).1.map (·.at' 0) ∧
        match (units.loop fuel (d.stage, d.info) d.ring.contents).2 with
        | .waiting s kept => (drain receivedAt fuel d).2.2 = none ∧
          (drain receivedAt fuel d).2.1.Keeps (.waiting s kept)
        | .failed message => (drain receivedAt fuel d).2.2 = some message := by
  induction fuel with
  | zero => exact fun {d} h ↦ ⟨rfl, rfl, h, rfl, rfl⟩
  | succ fuel ih =>
    intro d h
    have hfollows := d.drainStep_follows receivedAt
    rw [h] at hfollows
    simp only [drain, Staged.loop, units_next]
    generalize d.drainStep receivedAt = result at hfollows ⊢
    generalize unitStep (d.stage, d.info) d.ring.contents = next at hfollows ⊢
    cases hfollows with
    | more => exact ⟨rfl, rfl, h, rfl, rfl⟩
    | fail message => exact ⟨rfl, rfl⟩
    | found events ring stage info =>
      obtain ⟨hevents, hleft⟩ := @ih ⟨ring, false, stage, info⟩ rfl
      refine ⟨?_, hleft⟩
      simp only [map_append, hevents, map_map]
      congr 1
      exact map_congr_left fun event _ ↦ DemuxEvent.at_at _ _ _

/-- One more chunk. -/
theorem VideoDemuxer.push_spec {d : VideoDemuxer} {events : List DemuxEvent}
    {found : List DemuxEvent × Staged.Left (DemuxStage × Option VideoMeta) UInt8 String}
    (hkeeps : d.Keeps found.2) (hcalled : Called events found) (receivedAt : ℤ) (chunk : Bytes) :
    (d.push receivedAt chunk).2.Keeps (units.feed found chunk).2 ∧
      Called (events ++ (d.push receivedAt chunk).1) (units.feed found chunk) := by
  obtain ⟨out, left⟩ := found
  cases left with
  | failed message =>
    have hstopped : d.stopped = true := hkeeps
    rw [push, if_pos hstopped, append_nil]
    exact ⟨hstopped, hcalled⟩
  | waiting s kept =>
    obtain ⟨hstopped, rfl, rfl⟩ := hkeeps
    have hring : (d.ring.push chunk).contents = d.ring.contents ++ chunk :=
      contents_push d.ring chunk
    have hlength : (d.ring.push chunk).length = (d.ring.contents ++ chunk).length := by
      rw [← hring, length_contents]
    obtain ⟨hevents, hleft⟩ := drain_spec receivedAt (d.ring.push chunk).length
      (d := ⟨d.ring.push chunk, false, d.stage, d.info⟩) rfl
    rw [hring] at hevents hleft
    rw [Called, append_nil] at hcalled
    have hrun : units.run (d.stage, d.info) (d.ring.contents ++ chunk) =
        units.loop (d.ring.push chunk).length (d.stage, d.info) (d.ring.contents ++ chunk) := by
      rw [Staged.run, hlength]
    rw [push, hstopped, if_neg Bool.false_ne_true, Staged.feed]
    dsimp only
    rw [hrun]
    generalize units.loop (d.ring.push chunk).length (d.stage, d.info)
      (d.ring.contents ++ chunk) = found at hevents hleft ⊢
    generalize drain receivedAt (d.ring.push chunk).length
      ⟨d.ring.push chunk, false, d.stage, d.info⟩ = drained at hevents hleft ⊢
    obtain ⟨called, d', thrown⟩ := drained
    obtain ⟨out', left⟩ := found
    cases left with
    | waiting s kept =>
      obtain ⟨rfl, hkeeps⟩ := hleft
      refine ⟨hkeeps, ?_⟩
      simp only [Called, map_append, hcalled, hevents, append_nil]
    | failed message =>
      obtain rfl : thrown = some message := hleft
      refine ⟨rfl, ?_⟩
      simp only [Called, map_append, hcalled, hevents, append_assoc]
      rfl

theorem VideoDemuxer.pushAll_spec (chunks : List (ℤ × Bytes)) :
    ∀ {d : VideoDemuxer} {events : List DemuxEvent}
      {found : List DemuxEvent × Staged.Left (DemuxStage × Option VideoMeta) UInt8 String},
      d.Keeps found.2 → Called events found →
        Called (events ++ d.pushAll chunks) ((chunks.map (·.2)).foldl units.feed found) := by
  induction chunks with
  | nil =>
    intro d events found _ hcalled
    rwa [pushAll, append_nil]
  | cons piece chunks ih =>
    intro d events found hkeeps hcalled
    obtain ⟨hkeeps', hcalled'⟩ := push_spec hkeeps hcalled piece.1 piece.2
    have hrest := ih hkeeps' hcalled'
    rwa [append_assoc] at hrest

/-- **How the stream is cut makes no difference**, but for the clock. -/
theorem VideoDemuxer.pushAll_called (expectDummyByte : Bool) {ring : ByteRing}
    (hempty : ring.contents = []) (chunks : List (ℤ × Bytes)) :
    Called ((new expectDummyByte ring).pushAll chunks)
      (units.run (if expectDummyByte then .dummy else .name, none) (chunks.map (·.2)).flatten) := by
  rw [← Staged.foldl_feed]
  have hnone : Called [] (([] : List DemuxEvent), .waiting
    (if expectDummyByte then .dummy else .name, none) []) := rfl
  have hkeeps : (new expectDummyByte ring).Keeps (.waiting
    (if expectDummyByte then .dummy else .name, none) []) := ⟨rfl, rfl, hempty⟩
  exact pushAll_spec chunks hkeeps hnone

/-! ## What the stream is made of -/

/-- A frame, as the server writes it. -/
structure Frame where
  config : Bool
  keyframe : Bool
  ptsUs : ℕ
  data : Bytes
  ptsUs_lt : ptsUs < 2 ^ 62
  data_le : data.length ≤ maxPacketBytes

namespace Frame

/-- Bit 63, bit 62, and the others. -/
def ptsAndFlags (f : Frame) : ℕ := 2 ^ 63 * f.config.toNat + 2 ^ 62 * f.keyframe.toNat + f.ptsUs

def encode (f : Frame) : Bytes := Bytes.be 8 f.ptsAndFlags ++ (Bytes.be 4 f.data.length ++ f.data)

/-- The packet it is to be. -/
def packet (f : Frame) (receivedAt : ℤ) : ScrcpyPacket :=
  if f.config then .config receivedAt f.data
  else if f.keyframe then .keyframe f.ptsUs receivedAt f.data
  else .frame f.ptsUs receivedAt f.data

variable (f : Frame)

theorem ptsAndFlags_lt : f.ptsAndFlags < 256 ^ 8 := by
  have hpts := f.ptsUs_lt
  have hconfig := f.config.toNat_le
  have hkeyframe := f.keyframe.toNat_le
  rw [ptsAndFlags]
  omega

/-- The flags and the time are those of the frame. -/
theorem packetOf_ptsAndFlags (receivedAt : ℤ) :
    packetOf receivedAt f.ptsAndFlags f.data = f.packet receivedAt := by
  have hpts := f.ptsUs_lt
  have hmask : f.ptsAndFlags &&& ptsMask = f.ptsUs := by
    rw [ptsMask, Nat.and_two_pow_sub_one_eq_mod, ptsAndFlags]
    omega
  have hconfig : (f.ptsAndFlags &&& ptsFlagConfig ≠ 0) ↔ f.config = true := by
    rw [ptsFlagConfig, Nat.and_two_pow, Nat.testBit_eq_decide_div_mod_eq, ptsAndFlags]
    have hkeyframe := f.keyframe.toNat_le
    cases f.config with
    | true => simp; omega
    | false => simp; omega
  have hkeyframe : (f.ptsAndFlags &&& ptsFlagKeyframe ≠ 0) ↔ f.keyframe = true := by
    rw [ptsFlagKeyframe, Nat.and_two_pow, Nat.testBit_eq_decide_div_mod_eq, ptsAndFlags]
    have hconfig := f.config.toNat_le
    cases f.keyframe with
    | true => simp; omega
    | false => simp; omega
  simp only [packetOf, packet, hmask, hconfig, hkeyframe]

theorem length_encode : f.encode.length = 12 + f.data.length := by
  simp only [encode, length_append, Bytes.length_be]
  omega

theorem ofBe_length : Bytes.ofBe (Bytes.be 4 f.data.length) = f.data.length := by
  refine Bytes.ofBe_be (Nat.lt_of_le_of_lt f.data_le ?_)
  decide

/-- Where the length of a frame stands. -/
theorem size_encode (rest : Bytes) :
    Bytes.ofBe (((f.encode ++ rest).drop 8).take 4) = f.data.length := by
  rw [encode, append_assoc, drop_left' (Bytes.length_be 8 _), append_assoc,
    take_left' (Bytes.length_be 4 _), ofBe_length]

/-- A frame that is there is read, whatever stands behind it. -/
theorem unitStep_encode (info : Option VideoMeta) (rest : Bytes) :
    unitStep (.frames, info) (f.encode ++ rest) =
      .found [.onPacket (f.packet 0)] (.frames, info) rest := by
  have hflags : Bytes.ofBe ((f.encode ++ rest).take 8) = f.ptsAndFlags := by
    rw [encode, append_assoc, take_left' (Bytes.length_be 8 _), Bytes.ofBe_be f.ptsAndFlags_lt]
  have hbehind : (f.encode ++ rest).drop 12 = f.data ++ rest := by
    rw [encode, append_assoc, append_assoc, ← append_assoc (Bytes.be 8 _),
      drop_left' (by rw [length_append, Bytes.length_be, Bytes.length_be])]
  have hlength := f.length_encode
  simp only [unitStep, size_encode, length_append, hlength]
  rw [if_neg (by omega), if_neg (Nat.not_lt.mpr f.data_le), if_neg (by omega), hflags,
    ← drop_drop, hbehind, take_left, drop_left, packetOf_ptsAndFlags]

/-- The front of a frame that is not there as a whole is waited for. -/
theorem unitStep_front {front : Bytes} (hfront : front <+: f.encode)
    (hshort : front.length < f.encode.length) (info : Option VideoMeta) :
    unitStep (.frames, info) front = .more := by
  rcases Nat.lt_or_ge front.length 12 with hheader | hheader
  · simp only [unitStep]
    rw [if_pos hheader]
  · have hsize : Bytes.ofBe ((front.drop 8).take 4) = f.data.length := by
      obtain ⟨back, hback⟩ := hfront
      have hframe := f.size_encode []
      rw [append_nil, ← hback, drop_append_of_le_length (by omega),
        take_append_of_le_length (by rw [length_drop]; omega)] at hframe
      exact hframe
    rw [length_encode] at hshort
    simp only [unitStep, hsize]
    rw [if_neg (Nat.not_lt.mpr hheader), if_neg (Nat.not_lt.mpr f.data_le), if_pos hshort]

end Frame

theorem run_frames (frames : List Frame) (info : Option VideoMeta) (rest : Bytes) :
    units.run (.frames, info) (frames.flatMap Frame.encode ++ rest) =
      (frames.map (fun f ↦ .onPacket (f.packet 0)) ++ (units.run (.frames, info) rest).1,
        (units.run (.frames, info) rest).2) := by
  induction frames with
  | nil => rfl
  | cons f frames ih =>
    have hnext : units.next (.frames, info) (f.encode ++ (frames.flatMap Frame.encode ++ rest)) =
      .found [.onPacket (f.packet 0)] (.frames, info) (frames.flatMap Frame.encode ++ rest) := by
      rw [units_next, f.unitStep_encode]
    rw [flatMap_cons, append_assoc, Staged.run_of_found hnext, ih]
    rfl

/-- The stages before the frames. -/
theorem run_head (expectDummyByte : Bool) {dummy name header : Bytes}
    (hdummy : dummy.length = if expectDummyByte then 1 else 0) (hname : name.length = 64)
    (hheader : header.length = 12) (rest : Bytes) :
    units.run (if expectDummyByte then .dummy else .name, none) (dummy ++ (name ++ (header ++ rest))) =
      (.onMeta (metaOf (deviceNameOf name) header) ::
          (units.run (.frames, some (metaOf (deviceNameOf name) header)) rest).1,
        (units.run (.frames, some (metaOf (deviceNameOf name) header)) rest).2) := by
  have hmeta : ∀ info : VideoMeta, units.next (.metadata, some info) (header ++ rest) =
      .found [.onMeta (metaOf info.deviceName header)]
        (.frames, some (metaOf info.deviceName header)) rest := by
    intro info
    simp only [units_next, unitStep, take_left' hheader, drop_left' hheader]
    rw [if_neg (by rw [length_append]; omega)]
    rfl
  have hnamed : units.next (.name, none) (name ++ (header ++ rest)) =
      .found [] (.metadata, some ⟨deviceNameOf name, .h264, 0, 0⟩) (header ++ rest) := by
    simp only [units_next, unitStep, take_left' hname, drop_left' hname]
    rw [if_neg (by rw [length_append]; omega)]
  have hrun : units.run (.name, none) (name ++ (header ++ rest)) =
      (.onMeta (metaOf (deviceNameOf name) header) ::
          (units.run (.frames, some (metaOf (deviceNameOf name) header)) rest).1,
        (units.run (.frames, some (metaOf (deviceNameOf name) header)) rest).2) := by
    rw [Staged.run_of_found hnamed, Staged.run_of_found (hmeta _)]
    rfl
  cases expectDummyByte with
  | false =>
    obtain rfl := eq_nil_of_length_eq_zero hdummy
    exact hrun
  | true =>
    have hfirst : units.next (.dummy, none) (dummy ++ (name ++ (header ++ rest))) =
        .found [] (.name, none) (name ++ (header ++ rest)) := by
      have hone : dummy.length = 1 := hdummy
      simp only [units_next, unitStep, drop_left' hone]
      rw [if_neg (by rw [length_append]; omega)]
    rw [if_pos rfl, Staged.run_of_found hfirst, hrun]
    rfl

/-- **The demuxer is exact under any cut.**  The ring is a queue of bytes, and what is read from it is
not written any more.  And of every stream of a dummy byte if one is expected, a name, a header and
frames, `onMeta` gets the header once and `onPacket` each frame in order, whatever the pushes are; the
front of a frame is waited for, and a header that says too much stops it with one error, and nothing
after it is delivered. -/
theorem demuxer_exact (expectDummyByte : Bool) (initialCapacity : ℕ)
    (hcapacity : 0 < initialCapacity) :
    (∀ ops, (ByteRing.new initialCapacity hcapacity).performAll ops = ByteRing.queueAll [] ops) ∧
    (∀ (s : RingArrays) (size : ℕ) (data : Bytes) (ring : ByteRing),
      s.ring.read size = .ok (data, ring) → ∃ a, (s.perform (.read size)).1 = some a ∧
        ∀ ops, ((s.perform (.read size)).2.performAll ops).heap[a]? = some data) ∧
    ∀ (dummy name header tail : Bytes) (frames : List Frame) (chunks : List (ℤ × Bytes)),
      dummy.length = (if expectDummyByte then 1 else 0) → name.length = 64 → header.length = 12 →
      (chunks.map (·.2)).flatten = dummy ++ (name ++ (header ++ (frames.flatMap Frame.encode ++ tail))) →
      ((∃ f : Frame, tail <+: f.encode ∧ tail.length < f.encode.length) →
        ((VideoDemuxer.new expectDummyByte (.new initialCapacity hcapacity)).pushAll chunks).map
            (·.at' 0) =
          .onMeta (metaOf (deviceNameOf name) header) :: frames.map fun f ↦ .onPacket (f.packet 0)) ∧
      ∀ flags size rest, flags.length = 8 → maxPacketBytes < size → size < 2 ^ 32 →
        tail = flags ++ (Bytes.be 4 size ++ rest) →
        ((VideoDemuxer.new expectDummyByte (.new initialCapacity hcapacity)).pushAll chunks).map
            (·.at' 0) =
          .onMeta (metaOf (deviceNameOf name) header) ::
            (frames.map (fun f ↦ .onPacket (f.packet 0)) ++ [.onError (tooLongMessage size)]) := by
  refine ⟨fun ops ↦ performAll_eq _ ops, fun s _ _ _ h ↦ s.read_unaffected h, ?_⟩
  intro dummy name header tail frames chunks hdummy hname hheader hcut
  have hclock : ∀ f : Frame, (f.packet 0).at' 0 = f.packet 0 := by
    intro f
    rw [← f.packetOf_ptsAndFlags, at_packetOf]
  have hpackets : (frames.map fun f ↦ DemuxEvent.onPacket (f.packet 0)).map (·.at' 0) =
      frames.map fun f ↦ DemuxEvent.onPacket (f.packet 0) := by
    rw [map_map]
    exact map_congr_left fun f _ ↦ congrArg DemuxEvent.onPacket (hclock f)
  have hcalled := VideoDemuxer.pushAll_called expectDummyByte
    (contents_new initialCapacity hcapacity) chunks
  rw [hcut, run_head expectDummyByte hdummy hname hheader, run_frames, Called, map_cons,
    map_append, hpackets] at hcalled
  constructor
  · rintro ⟨f, hfront, hshort⟩
    have hmore : units.next (.frames, some (metaOf (deviceNameOf name) header)) tail = .more := by
      rw [units_next, f.unitStep_front hfront hshort]
    rw [Staged.run_of_more hmore] at hcalled
    simpa [DemuxEvent.at'] using hcalled
  · rintro flags size rest hflags hlong hsize rfl
    have hword : Bytes.ofBe (((flags ++ (Bytes.be 4 size ++ rest)).drop 8).take 4) = size := by
      rw [drop_left' hflags, take_left' (Bytes.length_be 4 _), Bytes.ofBe_be hsize]
    have hfail : units.next (.frames, some (metaOf (deviceNameOf name) header))
        (flags ++ (Bytes.be 4 size ++ rest)) = .fail (tooLongMessage size) := by
      rw [units_next, unitStep_fail]
      refine ⟨rfl, ?_, ?_, ?_⟩
      · simp only [length_append, Bytes.length_be]
        omega
      · rwa [hword]
      · rw [hword]
    rw [Staged.run_of_fail hfail] at hcalled
    simpa [DemuxEvent.at'] using hcalled

/-- A frame with a key picture, of one byte. -/
def keyFrame : Frame := ⟨false, true, 33, [9], by decide, by decide⟩

/-- A ring of four bytes grows under a stream that is cut inside a header. -/
theorem demuxer_exact_cut :
    ((VideoDemuxer.new true (.new 4 (by decide))).pushAll
      [(1, 0 :: 65 :: List.replicate 63 0), (2, [0x68, 0x32, 0x36]),
        (3, [0x34, 0, 0, 4, 0x38, 0, 0, 9, 0x60, 0x40, 0, 0]),
        (4, [0, 0, 0, 0, 33, 0, 0, 0, 1, 9])]).map (·.at' 0) =
      [.onMeta ⟨"A", .h264, 1080, 2400⟩, .onPacket (.keyframe 33 0 [9])] := by
  have hcut := ((demuxer_exact true 4 (by decide)).2.2 [0] (65 :: List.replicate 63 0)
    [0x68, 0x32, 0x36, 0x34, 0, 0, 4, 0x38, 0, 0, 9, 0x60] [] [keyFrame]
    [(1, 0 :: 65 :: List.replicate 63 0), (2, [0x68, 0x32, 0x36]),
      (3, [0x34, 0, 0, 4, 0x38, 0, 0, 9, 0x60, 0x40, 0, 0]),
      (4, [0, 0, 0, 0, 33, 0, 0, 0, 1, 9])] rfl rfl rfl (by decide +kernel)).1
    ⟨keyFrame, List.nil_prefix, by decide⟩
  rw [hcut]
  decide +kernel

end Enkaku.Scrcpy
